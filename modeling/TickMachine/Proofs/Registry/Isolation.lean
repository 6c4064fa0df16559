import TickMachine.Proofs.Registry.Tick

/-! # Machines do not disturb each other

The machines with one id make up a part of the registry. A tick of the whole registry does to this
part what a tick of the part alone does, and reports the same failures about it, so after any
number of ticks a machine is where it would be without the others.
-/

namespace TickMachine

/-- The registry after a number of ticks. -/
def Engine.ticks (engine : Engine) (registry : Registry) : Nat → Registry
  | 0 => registry
  | n + 1 => (engine.perform (engine.ticks registry n) .tick).2

namespace Registry

/-- The first registry holds the machines of the second one that have the given id. -/
def IsPart (id : Nat) (part whole : Registry) : Prop :=
  part.machines = whole.machines.filter (·.id = id)

variable {id : Nat} {part whole : Registry}

theorem IsPart.distinctIds (hpart : IsPart id part whole) (hids : whole.DistinctIds) :
    part.DistinctIds := by
  rw [DistinctIds, hpart]
  exact hids.sublist (List.filter_sublist.map _)

theorem IsPart.find? (hpart : IsPart id part whole) : part.find? id = whole.find? id := by
  rw [Registry.find?, hpart, List.find?_filter, Registry.find?]
  simp

/-- Taking the survivors of a tick and looking at some ids only can be done in either order. -/
theorem survivors_filter (keeps : Nat → Bool) (budget : Nat) (machines : List Machine) :
    (machines.filter (keeps ·.id)).filterMap (Machine.survivor? budget) =
      (machines.filterMap (Machine.survivor? budget)).filter (keeps ·.id) := by
  rw [List.filterMap_filter, List.filter_filterMap]
  congr 1
  funext m
  -- a survivor is looked up by the id the machine had before
  obtain ⟨after, _, hsurvivor, _, hid⟩ | ⟨fault, _, hsurvivor, _⟩ := m.turn_cases budget
  · simp only [hsurvivor, Option.filter, hid]
  · simp only [hsurvivor, Option.filter, ite_self]

/-- So can taking the failures. -/
theorem failures_filter (keeps : Nat → Bool) (budget : Nat) (machines : List Machine) :
    ((machines.filter (keeps ·.id)).filterMap fun m => (m.failure? budget).map (m.id, ·)) =
      (machines.filterMap fun m => (m.failure? budget).map (m.id, ·)).filter (keeps ·.1) := by
  rw [List.filterMap_filter, List.filter_filterMap]
  congr 1
  funext m
  cases m.failure? budget with
  | none => simp only [Option.map_none, Option.filter, ite_self]
  | some fault => simp only [Option.map_some, Option.filter]

theorem IsPart.tick (hpart : IsPart id part whole) (hids : whole.DistinctIds) (budget : Nat) :
    IsPart id (part.tick budget).1 (whole.tick budget).1 := by
  rw [tick_eq hids, tick_eq (hpart.distinctIds hids), IsPart, hpart]
  exact survivors_filter (fun other => other = id) budget whole.machines

theorem IsPart.failures (hpart : IsPart id part whole) (budget : Nat) :
    part.failures budget = (whole.failures budget).filter (·.1 = id) := by
  rw [failures_eq, failures_eq, hpart]
  exact failures_filter (fun other => other = id) budget whole.machines

/-- Where ids are distinct, a machine is all there is with its id. -/
theorem isPart_singleton {registry : Registry} {m : Machine} (hids : registry.DistinctIds)
    (hmem : m ∈ registry.machines) (nextId : Nat) : IsPart m.id ⟨[m], nextId⟩ registry := by
  obtain ⟨machines, nextId'⟩ := registry
  change [m] = machines.filter (·.id = m.id)
  induction machines with
  | nil => cases hmem
  | cons first others ih =>
      obtain ⟨hfresh, hothers⟩ := List.nodup_cons.mp hids
      rcases List.mem_cons.mp hmem with rfl | hmem
      · have hnone : others.filter (·.id = m.id) = [] := by
          rw [List.filter_eq_nil_iff]
          intro other hother heq
          exact hfresh (List.mem_map.mpr ⟨other, hother, of_decide_eq_true heq⟩)
        rw [List.filter_cons_of_pos (by simp), hnone]
      · have hne : first.id ≠ m.id := fun heq =>
          hfresh (heq ▸ List.mem_map_of_mem hmem)
        rw [List.filter_cons_of_neg (by simpa using hne)]
        exact ih hothers hmem

end Registry

namespace Engine

open Registry

variable {registry : Registry}

theorem ticks_distinctIds (engine : Engine) (hids : registry.DistinctIds) (n : Nat) :
    (engine.ticks registry n).DistinctIds := by
  induction n with
  | zero => exact hids
  | succ n ih => exact tick_distinctIds ih engine.budget

theorem isPart_ticks (engine : Engine) {id : Nat} {part : Registry}
    (hpart : IsPart id part registry) (hids : registry.DistinctIds) (n : Nat) :
    IsPart id (engine.ticks part n) (engine.ticks registry n) := by
  induction n with
  | zero => exact hpart
  | succ n ih => exact ih.tick (engine.ticks_distinctIds hids n) engine.budget

/-- After any number of ticks each machine is in the state, or removed, and about to fail, as if it
were alone; and the tick that follows keeps the others in their order, takes out exactly the
machines that fail in it and reports their failures in the order of the machines. -/
theorem ticks_isolated (engine : Engine) (hids : registry.DistinctIds) (n : Nat) :
    (∀ m ∈ registry.machines, ∀ nextId,
      (engine.ticks registry n).find? m.id = (engine.ticks ⟨[m], nextId⟩ n).find? m.id ∧
      ((engine.ticks registry n).failures engine.budget).filter (·.1 = m.id) =
        (engine.ticks ⟨[m], nextId⟩ n).failures engine.budget) ∧
    engine.perform (engine.ticks registry n) .tick =
      (.ticked (((engine.ticks registry n).failures engine.budget).map Prod.snd),
        engine.ticks registry (n + 1)) ∧
    ((engine.ticks registry n).failures engine.budget =
      (engine.ticks registry n).machines.filterMap
        fun m => (m.failure? engine.budget).map (m.id, ·)) ∧
    (engine.ticks registry (n + 1)).machines =
      (engine.ticks registry n).machines.filterMap (Machine.survivor? engine.budget) ∧
    (engine.ticks registry (n + 1)).machines.map Machine.id =
      ((engine.ticks registry n).machines.filter
        fun m => (m.failure? engine.budget).isNone).map Machine.id := by
  have hbefore : (engine.ticks registry n).DistinctIds := engine.ticks_distinctIds hids n
  have hafter : (engine.ticks registry (n + 1)).machines =
      (engine.ticks registry n).machines.filterMap (Machine.survivor? engine.budget) := by
    rw [ticks, perform, tick_eq hbefore]
  refine ⟨fun m hmem nextId => ?_, rfl, failures_eq _ _, hafter, ?_⟩
  · have hpart := engine.isPart_ticks (isPart_singleton hids hmem nextId) hids n
    exact ⟨hpart.find?.symm, (hpart.failures engine.budget).symm⟩
  · rw [hafter, survivor_ids]

/-- A running machine with a program of unconditional instructions. -/
def started (id : Nat) (code : List (Opcode × Operand)) : Machine :=
  let code := code.map fun (op, operand) => Instruction.ofOpcode op 0 operand
  { Machine.fresh id .empty code.toArray 4 with phase := .running }

/-- A machine that counts for ever. -/
def counting : Machine := started 2 [(.incInt, .none), (.jump, .u32 0)]

/-- The first machine leaves its program in the second tick and the second one halts in the first
tick. -/
def crowd : Registry where
  machines := [started 0 [(.nop, .none), (.jump, .u32 9)], started 1 [(.halt, .none)], counting]
  nextId := 3

theorem ticks_isolated_crowd :
    crowd.DistinctIds ∧ counting ∈ crowd.machines ∧
      (ticks {} crowd 2).find? 2 = (ticks {} ⟨[counting], 0⟩ 2).find? 2 ∧
      ((ticks {} crowd 1).failures 1).map Prod.fst = [0] ∧
      (ticks {} crowd 2).machines.map Machine.id = [1, 2] := by
  have hids : crowd.DistinctIds := by decide
  have hmem : counting ∈ crowd.machines := List.mem_of_getElem? (i := 2) rfl
  obtain ⟨_, _, _, _, hleft⟩ := ticks_isolated {} hids 1
  exact ⟨hids, hmem, ((ticks_isolated {} hids 2).1 counting hmem 0).1, by decide,
    hleft.trans (by decide)⟩

end Engine

end TickMachine
