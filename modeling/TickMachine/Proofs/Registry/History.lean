import TickMachine.Proofs.Machine.WellFormed
import TickMachine.Proofs.Registry.Commands

/-! # Well-formed registries

Whatever is asked of a registry that started empty, and whether it is granted or refused, the
machines in it are well-formed: those that a command moved stay so, and those that it loaded are.
-/

namespace TickMachine

/-- All machines of the registry are well-formed. -/
def Registry.WellFormed (registry : Registry) : Prop :=
  ∀ m ∈ registry.machines, m.WellFormed

theorem Registry.empty_wellFormed : empty.WellFormed := by
  intro m hmem
  cases hmem

namespace Engine

open Registry

variable {registry : Registry}

/-- No command, granted or refused, makes a machine ill-formed. -/
theorem perform_wellFormed (engine : Engine) (hregistry : registry.WellFormed)
    (command : Command) : (engine.perform registry command).2.WellFormed := by
  intro m hmem
  rcases engine.perform_cases registry command with hafter | ⟨name, image, hafter⟩
  · obtain ⟨old, hold, hmoved⟩ := hafter.machines m hmem
    exact Machine.wellFormed_lasting.moved (hregistry old hold) hmoved
  · rw [hafter] at hmem
    rcases mem_register hmem with hold | rfl
    · exact hregistry m hold
    · exact Machine.fresh_wellFormed _ _ _ _

/-- Every machine is well-formed after every history, in whatever order its commands come and
whatever engines carry them out. -/
theorem history_wellFormed (requests : List (Engine × Command)) :
    (history requests).WellFormed := by
  -- the commands that are left start from any well-formed registry
  have hrun : ∀ registry : Registry, registry.WellFormed →
      (requests.foldl (fun registry request => (request.1.perform registry request.2).2)
        registry).WellFormed := by
    induction requests with
    | nil => exact fun _ hregistry => hregistry
    | cons request others ih =>
        intro registry hregistry
        exact ih _ (request.1.perform_wellFormed hregistry request.2)
  exact hrun .empty empty_wellFormed

/-- In the middle of a call the return address is the index behind the `call`. -/
example :
    let image : Image := ⟨[⟨3, 0, .u32 2⟩, ⟨2, 0, .none⟩, ⟨1, 0, .none⟩]⟩
    (history [({}, .loadImage "main" image), ({}, .execute 0), ({}, .tick)]).machines.map
      (fun m => (m.counter, m.calls)) = [(2, [1])] := by
  decide

end Engine

end TickMachine
