import TickMachine.Machine.Engine
import TickMachine.Proofs.Machine.Moves

/-! # One tick of a registry

The machines that fail in a tick are removed by their ids only when all machines have had their
turn. As long as ids tell the machines apart, each removal takes out the machine that failed and no
other, so a tick comes to what one pass over the machines does.
-/

namespace TickMachine

namespace Machine

/-- The machine after its turn in a tick, unless it failed. -/
def survivor? (budget : Nat) (m : Machine) : Option Machine :=
  (m.tick budget).toOption

/-- The failure in the machine's turn, if there was one. -/
def failure? (budget : Nat) (m : Machine) : Option Fault :=
  match m.tick budget with
  | .ok _ => none
  | .error fault => some fault

/-- A turn ends with a survivor or with a failure. -/
theorem turn_cases (budget : Nat) (m : Machine) :
    (∃ after, m.tick budget = .ok after ∧ m.survivor? budget = some after ∧
        m.failure? budget = none ∧ after.id = m.id) ∨
      ∃ fault, m.tick budget = .error fault ∧ m.survivor? budget = none ∧
        m.failure? budget = some fault := by
  cases hturn : m.tick budget with
  | ok after =>
      exact .inl ⟨after, rfl, by rw [survivor?, hturn]; rfl, by rw [failure?, hturn],
        (tick_sameProgram hturn).id⟩
  | error fault =>
      exact .inr ⟨fault, rfl, by rw [survivor?, hturn]; rfl, by rw [failure?, hturn]⟩

end Machine

namespace Registry

/-- No two machines have the same id. -/
def DistinctIds (registry : Registry) : Prop :=
  (registry.machines.map Machine.id).Nodup

instance (registry : Registry) : Decidable registry.DistinctIds :=
  inferInstanceAs (Decidable (registry.machines.map Machine.id).Nodup)

/-! ## The sweep -/

theorem sweep_eq (budget : Nat) (machines : List Machine) : sweep budget machines =
    (machines.map fun m => (m.survivor? budget).getD m,
      machines.filterMap fun m => (m.failure? budget).map (m.id, ·)) := by
  induction machines with
  | nil => rfl
  | cons m others ih =>
      rw [sweep, ih, List.map_cons, List.filterMap_cons]
      obtain ⟨after, hturn, hsurvivor, hfailure, _⟩ | ⟨fault, hturn, hsurvivor, hfailure⟩ :=
        m.turn_cases budget
      · simp only [hturn, hsurvivor, hfailure, Option.getD_some, Option.map_none]
      · simp only [hturn, hsurvivor, hfailure, Option.getD_none, Option.map_some]

theorem failures_eq (registry : Registry) (budget : Nat) : registry.failures budget =
    registry.machines.filterMap fun m => (m.failure? budget).map (m.id, ·) := by
  rw [failures, sweep_eq]

theorem mem_failures_iff {registry : Registry} {budget id : Nat} {fault : Fault} :
    (id, fault) ∈ registry.failures budget ↔
      ∃ m ∈ registry.machines, m.id = id ∧ m.tick budget = .error fault := by
  rw [failures_eq, List.mem_filterMap]
  constructor
  · rintro ⟨m, hmem, hfailure⟩
    obtain ⟨fault, hfault, heq⟩ := Option.map_eq_some_iff.mp hfailure
    cases heq
    obtain ⟨_, _, _, hnone, _⟩ | ⟨_, hturn, _, hsome⟩ := m.turn_cases budget
    · rw [hnone] at hfault
      cases hfault
    · rw [hsome] at hfault
      cases hfault
      exact ⟨m, hmem, rfl, hturn⟩
  · rintro ⟨m, hmem, rfl, hturn⟩
    refine ⟨m, hmem, ?_⟩
    rw [Machine.failure?, hturn]
    rfl

/-! ## Removals after the sweep -/

/-- Removals that do not name the first machine pass it by. -/
theorem foldl_erase_cons {m : Machine} {ids : List Nat} (hid : m.id ∉ ids)
    (machines : List Machine) (nextId : Nat) :
    ids.foldl erase ⟨m :: machines, nextId⟩ =
      ⟨m :: (ids.foldl erase ⟨machines, nextId⟩).machines, nextId⟩ := by
  induction ids generalizing machines with
  | nil => rfl
  | cons id ids ih =>
      obtain ⟨hne, hids⟩ := not_or.mp (mt List.mem_cons.mpr hid)
      have hkeep : erase ⟨m :: machines, nextId⟩ id =
          ⟨m :: machines.eraseP (·.id = id), nextId⟩ := by
        rw [erase, List.eraseP_cons_of_neg (by simpa using hne)]
      rw [List.foldl_cons, hkeep, ih hids]
      rfl

/-- The ids of the machines that fail in the next tick. -/
theorem failed_ids (budget : Nat) (machines : List Machine) :
    (machines.filterMap fun m => (m.failure? budget).map (m.id, ·)).map Prod.fst =
      (machines.filter fun m => (m.failure? budget).isSome).map Machine.id := by
  induction machines with
  | nil => rfl
  | cons m others ih =>
      cases hfailure : m.failure? budget with
      | none => simp [hfailure, ih]
      | some fault => simp [hfailure, ih]

/-- The removals take out exactly the machines that failed, although each looks for the first
machine with its id only. -/
theorem erase_failed {budget : Nat} {machines : List Machine}
    (hids : (machines.map Machine.id).Nodup) (nextId : Nat) :
    ((machines.filter fun m => (m.failure? budget).isSome).map Machine.id).foldl erase
        ⟨machines.map fun m => (m.survivor? budget).getD m, nextId⟩ =
      ⟨machines.filterMap (Machine.survivor? budget), nextId⟩ := by
  induction machines with
  | nil => rfl
  | cons m others ih =>
      obtain ⟨hfresh, hothers⟩ := List.nodup_cons.mp hids
      obtain ⟨after, _, hsurvivor, hfailure, hid⟩ | ⟨fault, _, hsurvivor, hfailure⟩ :=
        m.turn_cases budget
      · -- no removal names the survivor in front, as its id is its own
        have hkept : after.id ∉
            (others.filter fun m => (m.failure? budget).isSome).map Machine.id := by
          rw [hid]
          exact fun hmem => hfresh ((List.filter_sublist.map Machine.id).subset hmem)
        rw [List.filter_cons_of_neg (by simp [hfailure]), List.map_cons, hsurvivor,
          Option.getD_some, foldl_erase_cons hkept, ih hothers,
          List.filterMap_cons_some hsurvivor]
      · -- the first removal is that of the machine in front, which failed
        have hgone : erase ⟨m :: others.map fun m => (m.survivor? budget).getD m, nextId⟩ m.id =
            ⟨others.map fun m => (m.survivor? budget).getD m, nextId⟩ := by
          rw [erase, List.eraseP_cons_of_pos (by simp)]
        rw [List.filter_cons_of_pos (by simp [hfailure]), List.map_cons, List.map_cons, hsurvivor,
          Option.getD_none, List.foldl_cons, hgone, ih hothers,
          List.filterMap_cons_none hsurvivor]

/-- A tick leaves the survivors in their order and reports the failures in the order of the
machines. -/
theorem tick_eq {registry : Registry} (hids : registry.DistinctIds) (budget : Nat) :
    registry.tick budget =
      (⟨registry.machines.filterMap (Machine.survivor? budget), registry.nextId⟩,
        registry.machines.filterMap (Machine.failure? budget)) := by
  rw [tick, sweep_eq]
  dsimp only
  rw [failed_ids, erase_failed hids, List.map_filterMap]
  simp only [Option.map_map, Function.comp_def, Option.map_id']

/-- The machines that are left are those that did not fail. -/
theorem survivor_ids (budget : Nat) (machines : List Machine) :
    (machines.filterMap (Machine.survivor? budget)).map Machine.id =
      (machines.filter fun m => (m.failure? budget).isNone).map Machine.id := by
  induction machines with
  | nil => rfl
  | cons m others ih =>
      obtain ⟨after, _, hsurvivor, hfailure, hid⟩ | ⟨fault, _, hsurvivor, hfailure⟩ :=
        m.turn_cases budget
      · rw [List.filterMap_cons_some hsurvivor, List.filter_cons_of_pos (by simp [hfailure]),
          List.map_cons, List.map_cons, ih, hid]
      · rw [List.filterMap_cons_none hsurvivor, List.filter_cons_of_neg (by simp [hfailure]), ih]

theorem tick_distinctIds {registry : Registry} (hids : registry.DistinctIds) (budget : Nat) :
    (registry.tick budget).1.DistinctIds := by
  rw [tick_eq hids, DistinctIds, survivor_ids]
  exact hids.sublist (List.filter_sublist.map _)

end Registry

end TickMachine
