import Mathlib.Data.List.Induction
import TickMachine.Proofs.Registry.Pausing

/-! # Resetting

Every machine of a history was loaded at some point of it, and what it was loaded with is all that a
reset leaves. So a machine that is reset is the one that was found right after the load.
-/

namespace TickMachine

namespace Machine

/-- What a machine was loaded with, it is loaded with again. -/
theorem reset_eq_fresh {id : Nat} {name : BoundedText maxProgramNameSize} {code : Array Instruction}
    {callLimit : Nat} {m : Machine} (h : SameProgram (.fresh id name code callLimit) m) :
    m.reset = .fresh id name code callLimit := by
  obtain ⟨hid, hname, hcode, hlimit⟩ := h
  obtain ⟨⟩ := m
  subst hid hname hcode hlimit
  rfl

end Machine

namespace Engine

open Registry

variable {registry : Registry} {m : Machine}

/-! ## Where machines come from -/

/-- An id was given to a load. -/
theorem exists_load (requests : List (Engine × Command)) {id : Nat}
    (hgiven : id < (history requests).nextId) :
    ∃ before loader command after name image, requests = before ++ (loader, command) :: after ∧
      command.Loads name image ∧ (history before).nextId = id := by
  induction requests using List.reverseRecOn with
  | nil => cases hgiven
  | append_singleton former request ih =>
      obtain ⟨engine, command⟩ := request
      rw [history_concat] at hgiven
      have hformer (hearlier : id < (history former).nextId) :
          ∃ before loader loading after name image,
            former ++ [(engine, command)] = before ++ (loader, loading) :: after ∧
            loading.Loads name image ∧ (history before).nextId = id := by
        obtain ⟨before, loader, loading, after, name, image, rfl, hload⟩ := ih hearlier
        exact ⟨before, loader, loading, after ++ [(engine, command)], name, image,
          List.append_assoc .., hload⟩
      rcases engine.perform_outcome (history former) command with
        ⟨_, hafter⟩ | ⟨name, image, hloads, houtcome⟩
      · exact hformer (hafter.nextId ▸ hgiven)
      · rw [houtcome] at hgiven
        rcases Nat.lt_succ_iff_lt_or_eq.mp hgiven with hearlier | rfl
        · exact hformer hearlier
        · exact ⟨former, engine, command, [], name, image, rfl, hloads, rfl⟩

variable {command : Command} {name : BoundedText maxProgramNameSize} {image : Image}

/-- What was just loaded is found under the id that the load was answered with. -/
theorem find?_history_load (h : command.Loads name image) (loader : Engine)
    (before : List (Engine × Command)) :
    loader.perform (history before) command =
        (.loaded (history before).nextId, history (before ++ [(loader, command)])) ∧
      (history (before ++ [(loader, command)])).find? (history before).nextId =
        some (.fresh (history before).nextId name image.instructions.toArray loader.callLimit) := by
  have hperform := loader.perform_loads (history before) h
  rw [history_concat, hperform, find?_register (history_idsBelow before), if_pos rfl]
  exact ⟨rfl, rfl⟩

/-- The machine with the id keeps what it was loaded with. -/
theorem sameProgram_history_load (h : command.Loads name image) (loader : Engine)
    (before after : List (Engine × Command))
    (hmem : m ∈ (history (before ++ (loader, command) :: after)).machines)
    (hid : m.id = (history before).nextId) :
    Machine.SameProgram
      (.fresh (history before).nextId name image.instructions.toArray loader.callLimit) m :=
  (history_holds (Machine.sameProgram_lasting _) h loader before after
    (.refl _)).machines m hmem hid

/-! ## The reset -/

theorem perform_reset (engine : Engine) (hfind : registry.find? m.id = some m) :
    engine.perform registry (.reset m.id) = (.done, registry.replace m.reset) := by
  have hreset : registry.reset m.id = registry.change m.id fun m => .ok m.reset := rfl
  rw [perform, hreset, change_of_get_ok (get_eq_ok_iff.mpr hfind)]
  rfl

/-- Whatever was done to a machine since it was loaded, a reset succeeds and makes it what it was
when it was loaded, in every field, and changes no other machine; from then on everything that
happens to it is what would have happened to it right after the load. -/
theorem history_reset_fresh (requests : List (Engine × Command)) (engine : Engine) {m : Machine}
    (hmem : m ∈ (history requests).machines) :
    ∃ before loader command after name image reset,
      requests = before ++ (loader, command) :: after ∧ command.Loads name image ∧
      loader.perform (history before) command =
        (.loaded m.id, history (before ++ [(loader, command)])) ∧
      (history (before ++ [(loader, command)])).find? m.id =
        some (.fresh m.id name image.instructions.toArray loader.callLimit) ∧
      engine.perform (history requests) (.reset m.id) = (.done, reset) ∧
      reset.find? m.id = some (.fresh m.id name image.instructions.toArray loader.callLimit) ∧
      (∀ id ≠ m.id, reset.find? id = (history requests).find? id) ∧
      SameOthers m.id reset (history requests) ∧
      ∀ later, (∀ request ∈ later, request.2.name? ≠ some name.text) →
        account m.id reset later =
          account m.id (history (before ++ [(loader, command)])) later := by
  have hordered : (history requests).Ordered := history_ordered requests
  obtain ⟨before, loader, command, after, name, image, rfl, hloads, hid⟩ :=
    exists_load requests (hordered.below m hmem)
  have hsame := sameProgram_history_load hloads loader before after hmem hid.symm
  obtain ⟨hload, hloaded⟩ := find?_history_load hloads loader before
  rw [hid] at hload hloaded hsame
  have hfind := (find?_eq_some_iff hordered.distinctIds).mpr ⟨hmem, rfl⟩
  have hreset := engine.perform_reset hfind
  have hothers := sameOthers_replace (history (before ++ (loader, command) :: after)) m.reset
  have hfresh : m.reset = .fresh m.id name image.instructions.toArray loader.callLimit :=
    Machine.reset_eq_fresh hsame
  have hback := find?_replace_self (m := m.reset) hfind
  rw [hfresh] at hback hreset hothers
  refine ⟨before, loader, command, after, name, image, _, rfl, hloads, hload, hloaded, hreset,
    hback, fun id hne => hothers.find? hne, hothers, fun later hlater => ?_⟩
  have hknows := perform_knows (knows_of_mem hordered hmem) engine (.reset m.id)
  rw [hreset, hsame.name] at hknows
  have hfirst := knows_of_mem (history_ordered (before ++ [(loader, command)]))
    (List.mem_of_find?_eq_some hloaded)
  exact account_congr hknows hfirst (hback.trans hloaded.symm) hlater

/-- A program that counts for ever was written to while it was paused, and was reset before. -/
def worn : List (Engine × Command) :=
  [(⟨1, 4⟩, .loadImage "main" ⟨[.ofOpcode .incInt 0 .none, .ofOpcode .jump 0 (.u32 0)]⟩),
    ({}, .execute 0), ({}, .tick), ({}, .reset 0), ({}, .execute 0), ({}, .tick), ({}, .freeze 0),
    ({}, .write 0 5 7)]

theorem history_reset_fresh_worn :
    ∃ m ∈ (history worn).machines,
      m.phase = .frozen ∧ m.ticks = 1 ∧ m.counter = 1 ∧ m.cell 0 = 1 ∧ m.cellAt 5 = .ok 7 ∧
      ∃ before loader command after reset, worn = before ++ (loader, command) :: after ∧
        loader.perform (history before) command =
          (.loaded 0, history (before ++ [(loader, command)])) ∧
        perform {} (history worn) (.reset 0) = (.done, reset) ∧
        (reset.find? 0).map (fun m => (m.phase, m.ticks, m.counter, m.cell 0)) =
          some (.loaded, 0, 0, 0) ∧
        account 0 reset [({}, .execute 0), ({}, .tick), ({}, .tick)] =
          account 0 (history (before ++ [(loader, command)]))
            [({}, .execute 0), ({}, .tick), ({}, .tick)] := by
  have hlength : 0 < (history worn).machines.length := by decide
  have hmem : (history worn).machines[0] ∈ (history worn).machines := List.getElem_mem hlength
  obtain ⟨before, loader, command, after, name, image, reset, hworn, _, hload, _, hreset, hfresh,
    _, _, hlater⟩ := history_reset_fresh worn {} hmem
  refine ⟨_, hmem, rfl, rfl, rfl, rfl, rfl, before, loader, command, after, reset, hworn, hload,
    hreset, ?_, hlater _ ?_⟩
  · change (reset.find? (history worn).machines[0].id).map _ = _
    rw [hfresh]
    rfl
  · simp [Command.name?]

end Engine

end TickMachine
