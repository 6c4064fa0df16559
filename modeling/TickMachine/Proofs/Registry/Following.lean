import TickMachine.Proofs.Registry.Isolation
import TickMachine.Proofs.Registry.Lifecycle

/-! # Following one machine

What happens to a machine later on depends on the machine only, and not on the registry it is in:
where two registries hold the same machine under an id, the same requests are answered in the same
way as far as this machine goes, and make the same of it. Names are an exception, as another machine
may answer to a name that several have. So it is enough to compare single machines, and the other
machines are compared apart from it.
-/

namespace TickMachine

namespace Registry

/-! ## The other machines -/

/-- But for the machine with the given id both registries hold the same machines in the same
order. -/
structure SameOthers (id : Nat) (first second : Registry) : Prop where
  machines : first.machines.filter (·.id ≠ id) = second.machines.filter (·.id ≠ id)
  nextId : first.nextId = second.nextId

variable {registry first second third : Registry} {m : Machine} {id : Nat}

theorem SameOthers.trans (h : SameOthers id first second) (h' : SameOthers id second third) :
    SameOthers id first third :=
  ⟨h.machines.trans h'.machines, h.nextId.trans h'.nextId⟩

theorem SameOthers.find? (h : SameOthers id first second) {other : Nat} (hne : other ≠ id) :
    first.find? other = second.find? other := by
  have hothers (registry : Registry) : registry.find? other =
      (registry.machines.filter (·.id ≠ id)).find? (·.id = other) := by
    rw [List.find?_filter, Registry.find?]
    congr 1
    funext m
    by_cases hid : m.id = other
    · simp [hid, hne]
    · simp [hid]
  rw [hothers, hothers, h.machines]

theorem sameOthers_replace (registry : Registry) (m : Machine) :
    SameOthers m.id (registry.replace m) registry where
  machines := by
    rw [replace, List.filter_map]
    -- what is replaced has the id both before and after, so that it is not compared
    have hkept : ((fun other => decide (other.id ≠ m.id)) ∘
        fun old => if old.id = m.id then m else old) =
          fun old => decide (old.id ≠ m.id) := by
      funext old
      simp only [Function.comp_apply]
      split
      next hid => simp [hid]
      next => rfl
    rw [hkept]
    refine (List.map_congr_left fun old hold => ?_).trans (List.map_id _)
    exact if_neg (of_decide_eq_true (List.mem_filter.mp hold).2)
  nextId := rfl

theorem SameOthers.tick (h : SameOthers id first second) (hfirst : first.DistinctIds)
    (hsecond : second.DistinctIds) (budget : Nat) :
    SameOthers id (first.tick budget).1 (second.tick budget).1 := by
  rw [tick_eq hfirst, tick_eq hsecond]
  refine ⟨?_, h.nextId⟩
  have hsurvivors := survivors_filter (fun other => other ≠ id) budget
  rw [← hsurvivors, ← hsurvivors, h.machines]

theorem SameOthers.failures (h : SameOthers id first second) (budget : Nat) :
    (first.failures budget).filter (·.1 ≠ id) = (second.failures budget).filter (·.1 ≠ id) := by
  have hfailures := failures_filter (fun other => other ≠ id) budget
  rw [failures_eq, failures_eq, ← hfailures, ← hfailures, h.machines]

theorem SameOthers.ticks (h : SameOthers id first second) (hfirst : first.DistinctIds)
    (hsecond : second.DistinctIds) (engine : Engine) (n : Nat) :
    SameOthers id (engine.ticks first n) (engine.ticks second n) := by
  induction n with
  | zero => exact h
  | succ n ih =>
      exact ih.tick (engine.ticks_distinctIds hfirst n) (engine.ticks_distinctIds hsecond n) _

/-! ## The machine -/

/-- Changes the machine with the given id. -/
def change (registry : Registry) (id : Nat) (move : Machine → Except Fault Machine) :
    Except Fault Registry := do
  return registry.replace (← move (← registry.get id))

variable {move : Machine → Except Fault Machine}

theorem get_of_find? (h : first.find? id = second.find? id) : first.get id = second.get id := by
  rw [get, get, h]

theorem change_of_get_ok (hget : registry.get id = .ok m) :
    registry.change id move = registry.replace <$> move m := by
  rw [change, bind_of_eq_ok hget]
  rfl

theorem change_of_get_error {fault : Fault} (hget : registry.get id = .error fault) :
    registry.change id move = .error fault := by
  rw [change, hget]
  rfl

/-- An answer depends on the machine that is asked for, if what is done with it is answered alike. -/
theorem settle_get_congr (ask : Registry → Machine → Except Fault Registry)
    (h : first.find? id = second.find? id)
    (hask : ∀ m, (Engine.settle first (ask first m)).1 = (Engine.settle second (ask second m)).1) :
    (Engine.settle first (first.get id >>= ask first)).1 =
      (Engine.settle second (second.get id >>= ask second)).1 := by
  rw [← get_of_find? h]
  cases first.get id with
  | error fault => rfl
  | ok m => exact hask m

theorem settle_change_congr (h : first.find? id = second.find? id) :
    (Engine.settle first (first.change id move)).1 =
      (Engine.settle second (second.change id move)).1 := by
  refine settle_get_congr (fun registry m => do return registry.replace (← move m)) h fun m => ?_
  cases move m with
  | error fault => rfl
  | ok after => rfl

theorem settle_terminate_congr (h : first.find? id = second.find? id) :
    (Engine.settle first (first.terminate id)).1 =
      (Engine.settle second (second.terminate id)).1 :=
  settle_get_congr (fun registry m => .ok (registry.erase m.id)) h fun _ => rfl

/-- What a machine becomes by a change is up to the machine. If it is refused the machine stays. -/
theorem find?_settle_change (hmove : ∀ {m after}, move m = .ok after → after.id = m.id) (id : Nat) :
    (Engine.settle registry (registry.change id move)).2.find? id =
      (registry.find? id).map fun m => (move m).toOption.getD m := by
  cases hfind : registry.find? id with
  | none =>
      have hget : registry.get id = .error (unknown (idText id)) := by rw [get, hfind]
      rw [change_of_get_error hget]
      exact hfind
  | some m =>
      rw [change_of_get_ok (get_eq_ok_iff.mpr hfind), Option.map_some]
      cases hmoved : move m with
      | error fault => exact hfind
      | ok after =>
          have hid : after.id = id := (hmove hmoved).trans (id_of_find? hfind)
          subst hid
          exact find?_replace_self hfind

/-- No other machine is changed. -/
theorem find?_settle_change_other (hmove : ∀ {m after}, move m = .ok after → after.id = m.id)
    {asked : Nat} (hne : asked ≠ id) :
    (Engine.settle registry (registry.change asked move)).2.find? id = registry.find? id := by
  cases hget : registry.get asked with
  | error fault =>
      rw [change_of_get_error hget]
      rfl
  | ok m =>
      rw [change_of_get_ok hget]
      cases hmoved : move m with
      | error fault => rfl
      | ok after =>
          have hid : after.id = asked :=
            (hmove hmoved).trans (id_of_find? (get_eq_ok_iff.mp hget))
          exact (sameOthers_replace registry after).find? (hid ▸ Ne.symm hne)

/-- Where two registries hold the same machine under an id, a change makes the same of it in both. -/
theorem change_congr (hmove : ∀ {m after}, move m = .ok after → after.id = m.id) (asked : Nat)
    (h : first.find? id = second.find? id) :
    (Engine.settle first (first.change asked move)).2.find? id =
        (Engine.settle second (second.change asked move)).2.find? id ∧
      (asked = id → (Engine.settle first (first.change asked move)).1 =
        (Engine.settle second (second.change asked move)).1) := by
  by_cases hasked : asked = id
  · subst hasked
    rw [find?_settle_change hmove, find?_settle_change hmove, h]
    exact ⟨rfl, fun _ => settle_change_congr h⟩
  · rw [find?_settle_change_other hmove hasked, find?_settle_change_other hmove hasked]
    exact ⟨h, fun heq => absurd heq hasked⟩

/-- A machine is gone when it was terminated, and no other machine is. -/
theorem find?_settle_terminate (hids : registry.DistinctIds) (asked id : Nat) :
    (Engine.settle registry (registry.terminate asked)).2.find? id =
      if id = asked then none else registry.find? id := by
  cases hget : registry.get asked with
  | error fault =>
      rw [terminate, hget]
      change registry.find? id = _
      split
      next heq =>
        subst heq
        cases hfind : registry.find? id with
        | none => rfl
        | some m =>
            rw [get_eq_ok_iff.mpr hfind] at hget
            cases hget
      next => rfl
  | ok m =>
      rw [terminate, bind_of_eq_ok hget]
      change (registry.erase m.id).find? id = _
      rw [find?_erase hids, id_of_find? (get_eq_ok_iff.mp hget)]

/-- The ids are in order, and the name is that of the machine with the given id as long as there is
one. -/
structure Knows (id : Nat) (name : String) (registry : Registry) : Prop where
  ordered : registry.Ordered
  named : registry.Holds id (·.name.text = name)

/-- A name that the machine with an id does not have stands for another machine. -/
theorem find?_settle_resolve {ask : Nat → Except Fault Registry} {name asked : String}
    (hknows : registry.Knows id name) (hne : asked ≠ name)
    (hask : ∀ other ≠ id, (Engine.settle registry (ask other)).2.find? id = registry.find? id) :
    (Engine.settle registry (registry.resolve asked >>= ask)).2.find? id = registry.find? id := by
  cases hresolve : registry.resolve asked with
  | error fault => rfl
  | ok other =>
      refine hask other fun heq => ?_
      obtain ⟨m, hnamed, hid⟩ := resolve_eq_ok hresolve
      have hother : m.name.text = name :=
        hknows.named.machines m (List.mem_of_find?_eq_some hnamed) (hid.trans heq)
      have hasked : m.name.text = asked := by simpa using List.find?_some hnamed
      exact hne (hasked.symm.trans hother)

end Registry

/-- The id that a command asks for. -/
def Command.asked? : Command → Option Nat
  | .execute id | .freeze id | .terminate id | .reset id | .write id _ _ => some id
  | .load .. | .loadImage .. | .freezeByName _ | .terminateByName _ | .tick => none

/-- The name that a command asks for. -/
def Command.name? : Command → Option String
  | .freezeByName name | .terminateByName name => some name
  | _ => none

namespace Engine

open Registry

/-- What a request is answered about the machine with the given id, if it concerns this machine: of
a tick the failures of the machine. -/
def answerAbout (engine : Engine) (registry : Registry) (id : Nat) (command : Command) :
    Option Reply :=
  match command with
  | .tick =>
    some (.ticked (((registry.failures engine.budget).filter (·.1 = id)).map Prod.snd))
  | command =>
    if command.asked? = some id then some (engine.perform registry command).1 else none

/-- What is answered about the machine with the given id, and what becomes of it, request by
request. -/
def account (id : Nat) (registry : Registry) :
    List (Engine × Command) → List (Option Reply × Option Machine)
  | [] => []
  | (engine, command) :: others =>
    let after := (engine.perform registry command).2
    (engine.answerAbout registry id command, after.find? id) :: account id after others

variable {registry first second : Registry} {id : Nat} {name : String}

/-- The failures of one machine in a tick are up to the machine. -/
theorem failures_about (hids : registry.DistinctIds) (budget id : Nat) :
    (registry.failures budget).filter (·.1 = id) =
      ((registry.find? id).bind fun m => (m.failure? budget).map (id, ·)).toList := by
  cases hfind : registry.find? id with
  | none =>
      rw [Option.bind_none, Option.toList_none, List.filter_eq_nil_iff]
      rintro ⟨other, fault⟩ hmem heq
      obtain ⟨m, hmachine, hid, _⟩ := mem_failures_iff.mp hmem
      exact find?_eq_none_iff.mp hfind m hmachine (hid.trans (of_decide_eq_true heq))
  | some m =>
      obtain ⟨hmem, rfl⟩ := (find?_eq_some_iff hids).mp hfind
      rw [← (isPart_singleton hids hmem 0).failures, failures_eq, Option.bind_some,
        List.filterMap_cons]
      cases m.failure? budget <;> rfl

/-- Where there is a machine to write to, writing is a change. -/
theorem perform_write (engine : Engine) (address : Nat) (cell : Cell) {asked : Nat} {m : Machine}
    (hfind : registry.find? asked = some m) :
    engine.perform registry (.write asked address cell) =
      settle registry (registry.change asked (·.setCellAt address cell)) := by
  rw [change_of_get_ok (get_eq_ok_iff.mpr hfind)]
  simp only [perform, write, hfind, Option.map_some]

theorem perform_write_absent (engine : Engine) (address : Nat) (cell : Cell) {asked : Nat}
    (hfind : registry.find? asked = none) :
    engine.perform registry (.write asked address cell) = (.absent, registry) := by
  simp only [perform, write, hfind, Option.map_none]

theorem find?_write_other (engine : Engine) (address : Nat) (cell : Cell) {asked : Nat}
    (hne : asked ≠ id) :
    (engine.perform registry (.write asked address cell)).2.find? id = registry.find? id := by
  cases hfind : registry.find? asked with
  | none => rw [perform_write_absent engine address cell hfind]
  | some m =>
      rw [perform_write engine address cell hfind]
      exact find?_settle_change_other (fun h => (Machine.setCellAt_sameProgram h).id) hne

/-- A command other than a tick is answered alike if it is as far as the machine is asked for. -/
theorem answerAbout_congr (engine : Engine) {command : Command} (htick : command ≠ .tick)
    (h : command.asked? = some id →
      (engine.perform first command).1 = (engine.perform second command).1) :
    engine.answerAbout first id command = engine.answerAbout second id command := by
  have hanswer (registry : Registry) : engine.answerAbout registry id command =
      if command.asked? = some id then some (engine.perform registry command).1 else none := by
    cases command with
    | tick => exact absurd rfl htick
    | _ => rfl
  rw [hanswer, hanswer]
  split
  next hasked => rw [h hasked]
  next => rfl

/-- Nothing about a machine depends on the registry it is in if a command changes the machine that it
asks for. -/
theorem perform_congr_of_change (engine : Engine) {command : Command} {asked : Nat}
    {move : Machine → Except Fault Machine} (htick : command ≠ .tick)
    (hasked : command.asked? = some asked)
    (hmove : ∀ {m after}, move m = .ok after → after.id = m.id)
    (hperform : ∀ registry, engine.perform registry command =
      settle registry (registry.change asked move)) (h : first.find? id = second.find? id) :
    engine.answerAbout first id command = engine.answerAbout second id command ∧
      (engine.perform first command).2.find? id = (engine.perform second command).2.find? id := by
  obtain ⟨hfind, hreply⟩ := change_congr hmove asked h
  refine ⟨answerAbout_congr engine htick fun heq => ?_, ?_⟩
  · rw [hperform, hperform]
    exact hreply (Option.some.inj (hasked.symm.trans heq))
  · rw [hperform, hperform]
    exact hfind

theorem perform_write_congr (engine : Engine) (asked address : Nat) (cell : Cell)
    (h : first.find? id = second.find? id) :
    engine.answerAbout first id (.write asked address cell) =
        engine.answerAbout second id (.write asked address cell) ∧
      (engine.perform first (.write asked address cell)).2.find? id =
        (engine.perform second (.write asked address cell)).2.find? id := by
  by_cases hasked : asked = id
  · subst hasked
    cases hfind : first.find? asked with
    | none =>
        have hfirst := perform_write_absent engine address cell hfind
        have hsecond := perform_write_absent engine address cell (h.symm.trans hfind)
        exact ⟨answerAbout_congr engine (by simp) fun _ => by rw [hfirst, hsecond],
          by rw [hfirst, hsecond, h]⟩
    | some m =>
        have hfirst := perform_write engine address cell hfind
        have hsecond := perform_write engine address cell (h.symm.trans hfind)
        have hmove : ∀ {m after : Machine}, m.setCellAt address cell = .ok after →
            after.id = m.id := fun h => (Machine.setCellAt_sameProgram h).id
        obtain ⟨hafter, hreply⟩ := change_congr hmove asked h
        exact ⟨answerAbout_congr engine (by simp) fun _ => by rw [hfirst, hsecond, hreply rfl],
          by rw [hfirst, hsecond, hafter]⟩
  · refine ⟨answerAbout_congr engine (by simp) fun heq => absurd (Option.some.inj heq) hasked, ?_⟩
    rw [find?_write_other engine address cell hasked, find?_write_other engine address cell hasked,
      h]

/-- Nothing about a machine depends on the registry it is in, as long as it is not asked for by its
name. -/
theorem perform_congr (engine : Engine) {command : Command} (hfirst : first.Knows id name)
    (hsecond : second.Knows id name) (h : first.find? id = second.find? id)
    (hname : command.name? ≠ some name) :
    engine.answerAbout first id command = engine.answerAbout second id command ∧
      (engine.perform first command).2.find? id = (engine.perform second command).2.find? id := by
  cases command with
  | load loaded bytes =>
      refine ⟨rfl, ?_⟩
      rw [find?_load engine hfirst.ordered.below hfirst.named.given,
        find?_load engine hsecond.ordered.below hsecond.named.given, h]
  | loadImage loaded image =>
      refine ⟨rfl, ?_⟩
      rw [find?_loadImage engine hfirst.ordered.below hfirst.named.given,
        find?_loadImage engine hsecond.ordered.below hsecond.named.given, h]
  | execute asked =>
      exact perform_congr_of_change engine (by simp) rfl
        (fun h => (Machine.start_sameProgram h).id) (fun _ => rfl) h
  | freeze asked =>
      exact perform_congr_of_change engine (by simp) rfl
        (fun h => (Machine.freeze_sameProgram h).id) (fun _ => rfl) h
  | freezeByName asked =>
      have hne : asked ≠ name := fun heq => hname (congrArg some heq)
      have hkept {registry : Registry} (hknows : registry.Knows id name) :
          (engine.perform registry (.freezeByName asked)).2.find? id = registry.find? id :=
        find?_settle_resolve hknows hne fun _ hother =>
          find?_settle_change_other (fun h => (Machine.freeze_sameProgram h).id) hother
      exact ⟨rfl, by rw [hkept hfirst, hkept hsecond, h]⟩
  | terminate asked =>
      refine ⟨answerAbout_congr engine (by simp) fun heq => ?_, ?_⟩
      · rw [Option.some.inj heq]
        exact settle_terminate_congr h
      · rw [perform, perform, find?_settle_terminate hfirst.ordered.distinctIds,
          find?_settle_terminate hsecond.ordered.distinctIds, h]
  | terminateByName asked =>
      have hne : asked ≠ name := fun heq => hname (congrArg some heq)
      have hkept {registry : Registry} (hknows : registry.Knows id name) :
          (engine.perform registry (.terminateByName asked)).2.find? id = registry.find? id :=
        find?_settle_resolve hknows hne fun other hother => by
          rw [find?_settle_terminate hknows.ordered.distinctIds, if_neg (Ne.symm hother)]
      exact ⟨rfl, by rw [hkept hfirst, hkept hsecond, h]⟩
  | reset asked =>
      have hreset : ∀ {m after : Machine}, Except.ok (ε := Fault) m.reset = .ok after →
          after.id = m.id := by
        rintro m _ ⟨⟩
        rfl
      exact perform_congr_of_change engine (by simp) rfl hreset (fun _ => rfl) h
  | tick =>
      have hids := hfirst.ordered.distinctIds
      have hids' := hsecond.ordered.distinctIds
      constructor
      · rw [answerAbout, answerAbout, failures_about hids, failures_about hids', h]
      · rw [perform, perform, find?_tick hids, find?_tick hids', h]
  | write asked address cell => exact perform_write_congr engine asked address cell h

theorem perform_knows (h : registry.Knows id name) (engine : Engine) (command : Command) :
    (engine.perform registry command).2.Knows id name where
  ordered := h.ordered.perform engine command
  named := perform_holds (.of_sameProgram fun hsame hm => hsame.name ▸ hm) h.named

/-- Where two registries hold the same machine under an id, everything that happens to it later on is
the same in both, as long as it is not asked for by its name. -/
theorem account_congr (hfirst : first.Knows id name) (hsecond : second.Knows id name)
    (h : first.find? id = second.find? id) {later : List (Engine × Command)}
    (hlater : ∀ request ∈ later, request.2.name? ≠ some name) :
    account id first later = account id second later := by
  induction later generalizing first second with
  | nil => rfl
  | cons request others ih =>
      obtain ⟨engine, command⟩ := request
      obtain ⟨hname, hothers⟩ := List.forall_mem_cons.mp hlater
      obtain ⟨hanswer, hfind⟩ := perform_congr engine hfirst hsecond h hname
      rw [account, account, hanswer, hfind,
        ih (perform_knows hfirst engine command) (perform_knows hsecond engine command) hfind hothers]

end Engine

end TickMachine
