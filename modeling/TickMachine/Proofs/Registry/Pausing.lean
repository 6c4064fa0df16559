import TickMachine.Proofs.Registry.Following
import TickMachine.Proofs.Registry.History

/-! # Pausing

A tick passes over a paused machine, so however long the pause is, a machine that is resumed is the
one that was paused. The other machines take no notice of it.
-/

namespace TickMachine

namespace Machine

variable {m : Machine}

theorem freeze_of_running (h : m.phase = .running) :
    m.freeze = .ok { m with phase := .frozen } := by
  simp only [freeze, h]

/-- A running machine that is paused and started again is what it was. -/
theorem start_frozen (hcode : 0 < m.code.size) (h : m.phase = .running) :
    start { m with phase := .frozen } = .ok m := by
  have hsome : m.code.isEmpty = false := by simpa [Array.isEmpty] using Nat.ne_of_gt hcode
  simp only [start, hsome, Bool.false_eq_true, if_false, ← h]

end Machine

namespace Registry

variable {registry : Registry} {m : Machine}

/-- Pauses a machine of the registry. -/
def pause (registry : Registry) (m : Machine) : Registry :=
  registry.replace { m with phase := .frozen }

theorem sameOthers_pause (registry : Registry) (m : Machine) :
    SameOthers m.id (registry.pause m) registry :=
  sameOthers_replace registry { m with phase := .frozen }

theorem find?_pause (hfind : registry.find? m.id = some m) :
    (registry.pause m).find? m.id = some { m with phase := .frozen } :=
  find?_replace_self hfind

theorem pause_distinctIds (hids : registry.DistinctIds) : (registry.pause m).DistinctIds := by
  rw [DistinctIds, pause, ids_replace]
  exact hids

theorem knows_of_mem (h : registry.Ordered) (hmem : m ∈ registry.machines) :
    registry.Knows m.id m.name.text where
  ordered := h
  named := by
    refine ⟨fun other hother hid => ?_, h.below m hmem⟩
    rw [List.inj_on_of_nodup_map h.distinctIds hother hmem hid]

end Registry

namespace Engine

open Registry

variable {registry : Registry} {m : Machine} {id : Nat} {name : String}

theorem ticks_knows (h : registry.Knows id name) (engine : Engine) (n : Nat) :
    (engine.ticks registry n).Knows id name := by
  induction n with
  | zero => exact h
  | succ n ih => exact perform_knows ih engine .tick

/-! ## Ticks during a pause -/

/-- Ticks pass over a machine that is not running. -/
theorem find?_ticks_of_not_running (hids : registry.DistinctIds)
    (hfind : registry.find? id = some m) (hphase : m.phase ≠ .running) (engine : Engine) (n : Nat) :
    (engine.ticks registry n).find? id = some m := by
  induction n with
  | zero => exact hfind
  | succ n ih =>
      rw [ticks, perform, find?_tick (engine.ticks_distinctIds hids n), ih, Option.bind_some,
        Machine.survivor?, Machine.tick_of_not_running hphase]
      rfl

/-- They report nothing about it. -/
theorem failures_of_not_running (hids : registry.DistinctIds)
    (hfind : registry.find? id = some m) (hphase : m.phase ≠ .running) (budget : Nat) :
    (registry.failures budget).filter (·.1 ≠ id) = registry.failures budget := by
  have hnone : (registry.failures budget).filter (·.1 = id) = [] := by
    rw [failures_about hids, hfind, Option.bind_some, Machine.failure?,
      Machine.tick_of_not_running hphase]
    rfl
  rw [List.filter_eq_self]
  intro failure hmem
  have hne := List.filter_eq_nil_iff.mp hnone failure hmem
  simpa using hne

/-- During the pause a tick reports the failures of the other machines. -/
theorem perform_tick_paused (engine : Engine) (hids : registry.DistinctIds)
    (hfind : registry.find? m.id = some m) (i : Nat) :
    engine.perform (engine.ticks (registry.pause m) i) .tick =
      (.ticked ((((engine.ticks registry i).failures engine.budget).filter
        (·.1 ≠ m.id)).map Prod.snd), engine.ticks (registry.pause m) (i + 1)) := by
  have hpaused := pause_distinctIds (m := m) hids
  have hothers := (sameOthers_pause registry m).ticks hpaused hids engine i
  have hstill := find?_ticks_of_not_running hpaused (find?_pause hfind) (by simp) engine i
  rw [← hothers.failures, failures_of_not_running (engine.ticks_distinctIds hpaused i) hstill
    (by simp)]
  rfl

/-! ## The pause -/

theorem perform_freeze (engine : Engine) (hfind : registry.find? m.id = some m)
    (hphase : m.phase = .running) :
    engine.perform registry (.freeze m.id) = (.done, registry.pause m) := by
  have hfreeze : registry.freeze m.id = registry.change m.id Machine.freeze := rfl
  rw [perform, hfreeze, change_of_get_ok (get_eq_ok_iff.mpr hfind),
    Machine.freeze_of_running hphase]
  rfl

theorem perform_execute_paused (engine : Engine) (hcode : 0 < m.code.size)
    (hphase : m.phase = .running)
    (hfind : registry.find? m.id = some { m with phase := .frozen }) :
    engine.perform registry (.execute m.id) = (.done, registry.replace m) := by
  have hexecute : registry.execute m.id = registry.change m.id Machine.start := rfl
  rw [perform, hexecute, change_of_get_ok (get_eq_ok_iff.mpr hfind),
    Machine.start_frozen hcode hphase]
  rfl

/-- A running machine that is paused for any number of ticks and then resumed is what it was before
the pause, and goes on as if there had been none, whatever happens to the registry from then on; and
the other machines are found, have been removed and have failed as without the pause. -/
theorem history_freeze_transparent (requests : List (Engine × Command)) (engine : Engine) (n : Nat)
    {m : Machine} (hmem : m ∈ (history requests).machines) (hphase : m.phase = .running) :
    ∃ frozen resumed,
      engine.perform (history requests) (.freeze m.id) = (.done, frozen) ∧
      engine.perform (engine.ticks frozen n) (.execute m.id) = (.done, resumed) ∧
      resumed.find? m.id = some m ∧
      (∀ id ≠ m.id, resumed.find? id = (engine.ticks (history requests) n).find? id) ∧
      SameOthers m.id resumed (engine.ticks (history requests) n) ∧
      (∀ i, engine.perform (engine.ticks frozen i) .tick =
        (.ticked ((((engine.ticks (history requests) i).failures engine.budget).filter
          (·.1 ≠ m.id)).map Prod.snd), engine.ticks frozen (i + 1))) ∧
      ∀ later, (∀ request ∈ later, request.2.name? ≠ some m.name.text) →
        account m.id resumed later = account m.id (history requests) later := by
  have hknows : (history requests).Knows m.id m.name.text :=
    knows_of_mem (history_ordered requests) hmem
  have hids : (history requests).DistinctIds := hknows.ordered.distinctIds
  have hfind : (history requests).find? m.id = some m := (find?_eq_some_iff hids).mpr ⟨hmem, rfl⟩
  have hcode : 0 < m.code.size := (history_wellFormed requests m hmem).code_pos (.inl hphase)
  have hpaused := pause_distinctIds (m := m) hids
  have hfreeze := engine.perform_freeze hfind hphase
  have hstill := find?_ticks_of_not_running hpaused (find?_pause hfind) (by simp) engine n
  have hresume := engine.perform_execute_paused hcode hphase hstill
  have hback : ((engine.ticks ((history requests).pause m) n).replace m).find? m.id = some m :=
    find?_replace_self hstill
  -- neither the pause nor its end changes another machine, so the ticks make the same of them
  have hothers := (sameOthers_replace _ m).trans
    ((sameOthers_pause (history requests) m).ticks hpaused hids engine n)
  refine ⟨_, _, hfreeze, hresume, hback, fun id hne => hothers.find? hne, hothers,
    engine.perform_tick_paused hids hfind, fun later hlater => ?_⟩
  have hfrozen := perform_knows hknows engine (.freeze m.id)
  rw [hfreeze] at hfrozen
  have hresumed := perform_knows (ticks_knows hfrozen engine n) engine (.execute m.id)
  rw [hresume] at hresumed
  exact account_congr hresumed hknows (hback.trans hfind.symm) hlater

/-- Of two programs the second one is paused while the first one fails and is removed. It would have
halted meanwhile, and does so when it goes on. -/
theorem history_freeze_transparent_twins :
    ∃ m ∈ (history twins).machines, m.id = 1 ∧ m.phase = .running ∧ ∃ frozen resumed,
      perform {} (history twins) (.freeze 1) = (.done, frozen) ∧
      perform {} (ticks {} frozen 2) (.execute 1) = (.done, resumed) ∧
      resumed.find? 1 = some m ∧ resumed.find? 0 = none ∧
      ((ticks {} (history twins) 2).find? 1).map Machine.phase = some .halted ∧
      (perform {} frozen .tick).1 = .ticked [⟨.overrun, "twin", 0⟩] ∧
      account 1 resumed [({}, .tick)] = account 1 (history twins) [({}, .tick)] := by
  have hlength : 1 < (history twins).machines.length := by decide
  have hphase : (history twins).machines[1].phase = .running := rfl
  have hmem : (history twins).machines[1] ∈ (history twins).machines := List.getElem_mem hlength
  obtain ⟨frozen, resumed, hfreeze, hresume, hback, hothers, _, hticks, hlater⟩ :=
    history_freeze_transparent twins {} 2 hmem hphase
  have hremoved : (ticks {} (history twins) 2).find? 0 = none := by decide
  have hfailed : (perform {} frozen .tick).1 = .ticked [⟨.overrun, "twin", 0⟩] := by
    change (perform {} (ticks {} frozen 0) .tick).1 = _
    rw [hticks 0]
    have hfailures : (((ticks {} (history twins) 0).failures 1).filter (·.1 ≠ 1)).map Prod.snd =
        [⟨.overrun, "twin", 0⟩] := by decide
    exact congrArg Reply.ticked hfailures
  refine ⟨_, hmem, rfl, hphase, frozen, resumed, hfreeze, hresume, hback,
    (hothers 0 Nat.zero_ne_one).trans hremoved, by decide, hfailed, hlater _ ?_⟩
  simp [Command.name?]

end Engine

end TickMachine
