import Mathlib.Data.List.Perm.Basic
import TickMachine.Proofs.Attempts
import TickMachine.Proofs.Machine.Pace
import TickMachine.Proofs.Registry.Isolation

/-! # The budget of an engine

After a number of ticks each machine has had as many turns, whatever became of the others. One tick
with a large budget and several ticks with a small one thus leave the same machines, if they come to
as many instructions, and report the same failures up to their order: in one tick a machine fails in
front of those behind it, in several ticks behind those that failed in earlier ticks.
-/

namespace TickMachine

/-- The failures that a command is answered with. -/
def Reply.faults : Reply → List Fault
  | .ticked faults => faults
  | _ => []

/-! ## Failures of attempts -/

section Attempts

variable {α β : Type}

/-- The failure of an attempt, if it failed. -/
def failureOf? : Except Fault α → Option Fault
  | .ok _ => none
  | .error fault => some fault

theorem failureOf?_map (f : α → β) (x : Except Fault α) : failureOf? (f <$> x) = failureOf? x := by
  cases x with
  | error fault => rfl
  | ok a => rfl

/-- One of two attempts fails at most, the second one only if the first one did not. -/
theorem failureOf?_bind (x : Except Fault α) (f : α → Except Fault β) :
    (failureOf? (x >>= f)).toList =
      (failureOf? x).toList ++ (x.toOption.bind fun a => failureOf? (f a)).toList := by
  cases x with
  | error fault => rfl
  | ok a => rfl

end Attempts

theorem Machine.failure?_eq (budget : Nat) (m : Machine) :
    m.failure? budget = failureOf? (m.tick budget) := by
  unfold failure?
  cases m.tick budget with
  | error fault => rfl
  | ok after => rfl

namespace Engine

open Registry

variable {registry : Registry}

/-! ## Several ticks -/

theorem ticks_eq (engine : Engine) (hids : registry.DistinctIds) (n : Nat) :
    engine.ticks registry n =
      ⟨registry.machines.filterMap fun m => (m.turns engine.budget n).toOption,
        registry.nextId⟩ := by
  induction n with
  | zero => exact congrArg (Registry.mk · registry.nextId) List.filterMap_some.symm
  | succ n ih =>
      rw [ticks, perform, tick_eq (engine.ticks_distinctIds hids n), ih]
      simp only [List.filterMap_filterMap, Machine.turns, toOption_bind]
      rfl

/-- The failures in a tick that comes behind others. -/
theorem faults_after_ticks (engine : Engine) (hids : registry.DistinctIds) (n : Nat) :
    (engine.perform (engine.ticks registry n) .tick).1.faults =
      registry.machines.filterMap fun m =>
        (m.turns engine.budget n).toOption.bind (Machine.failure? engine.budget) := by
  rw [perform, tick_eq (engine.ticks_distinctIds hids n), engine.ticks_eq hids n]
  exact List.filterMap_filterMap

/-- The failures in a number of ticks, tick by tick. -/
def tickFaults (engine : Engine) (registry : Registry) (n : Nat) : List Fault :=
  (List.range n).flatMap fun i => (engine.perform (engine.ticks registry i) .tick).1.faults

/-- Put together the ticks report of each machine the failure in its turns. -/
theorem tickFaults_perm (engine : Engine) (hids : registry.DistinctIds) (n : Nat) :
    (engine.tickFaults registry n).Perm
      (registry.machines.filterMap fun m => failureOf? (m.turns engine.budget n)) := by
  induction n with
  | zero =>
      have hnone : registry.machines.filterMap
          (fun m => failureOf? (m.turns engine.budget 0)) = [] :=
        List.filterMap_eq_nil_iff.mpr fun _ _ => rfl
      rw [hnone]
      exact .refl []
  | succ n ih =>
      have hlast : engine.tickFaults registry (n + 1) = engine.tickFaults registry n ++
          registry.machines.filterMap fun m =>
            (m.turns engine.budget n).toOption.bind (Machine.failure? engine.budget) := by
        rw [tickFaults, List.range_succ, List.flatMap_append, List.flatMap_singleton,
          engine.faults_after_ticks hids n]
        rfl
      rw [hlast]
      refine (ih.append_right _).trans ?_
      -- a machine fails in its former turns or in the last one
      simp only [List.filterMap_eq_flatMap_toList, Machine.turns, failureOf?_bind,
        ← Machine.failure?_eq]
      exact List.flatMap_append_perm _ _ _

/-! ## One tick and several ticks -/

/-- The machines that attempts leave are the same up to their ticks if the attempts are. -/
theorem map_untimed_filterMap {attempt attempt' : Machine → Except Fault Machine}
    (h : ∀ m, Machine.untimed <$> attempt m = Machine.untimed <$> attempt' m)
    (machines : List Machine) :
    (machines.filterMap fun m => (attempt m).toOption).map Machine.untimed =
      (machines.filterMap fun m => (attempt' m).toOption).map Machine.untimed := by
  simp only [List.map_filterMap, ← toOption_map, h]

theorem perform_budget_zero (engine : Engine) (registry : Registry) (command : Command) :
    { engine with budget := 0 }.perform registry command =
      { engine with budget := 1 }.perform registry command := by
  cases command with
  | tick =>
      -- a turn with no budget is a turn with one instruction, by its definition
      simp only [perform, Registry.tick, sweep_eq]
      rfl
  | _ => rfl

/-- A tick with as many instructions as several ticks have together leaves the same machines but for
their counts of ticks, and reports the same failures up to their order. A budget of zero is one of
one. -/
theorem tick_eq_ticks :
    (∀ (whole part : Engine) (n : Nat) (registry : Registry), 0 < n → 0 < part.budget →
      whole.budget = n * part.budget → registry.DistinctIds →
      (whole.perform registry .tick).2.machines.map Machine.untimed =
        (part.ticks registry n).machines.map Machine.untimed ∧
      (whole.perform registry .tick).2.nextId = (part.ticks registry n).nextId ∧
      (whole.perform registry .tick).1.faults.Perm (part.tickFaults registry n)) ∧
    ∀ (engine : Engine) (registry : Registry) (command : Command),
      { engine with budget := 0 }.perform registry command =
        { engine with budget := 1 }.perform registry command ∧
      { engine with budget := 0 }.performEvents registry command =
        { engine with budget := 1 }.performEvents registry command := by
  refine ⟨fun whole part n registry hn hpart hbudget hids => ?_, fun engine registry command =>
    ⟨engine.perform_budget_zero registry command, ?_⟩⟩
  · have hinstructions : max whole.budget 1 = n * max part.budget 1 := by
      have hpositive : 0 < n * part.budget := Nat.mul_pos hn hpart
      rw [hbudget, Nat.max_eq_left hpositive, Nat.max_eq_left hpart]
    have hturns : ∀ m : Machine,
        Machine.untimed <$> m.tick whole.budget = Machine.untimed <$> m.turns part.budget n :=
      Machine.untimed_tick_eq_turns hinstructions
    rw [perform, tick_eq hids, part.ticks_eq hids n]
    refine ⟨map_untimed_filterMap hturns registry.machines, rfl, ?_⟩
    have hfailures : Machine.failure? whole.budget =
        fun m => failureOf? (m.turns part.budget n) := by
      funext m
      rw [Machine.failure?_eq, ← failureOf?_map, hturns, failureOf?_map]
    rw [hfailures]
    exact (part.tickFaults_perm hids n).symm
  · cases command with
    | tick => rfl
    | _ => rfl

/-- The second machine fails in front of the first one if each executes one instruction per tick. -/
def staggered : Registry where
  machines := [started 0 [(.nop, .none), (.jump, .u32 9)], started 1 [(.jump, .u32 9)], counting]
  nextId := 3

theorem tick_eq_ticks_staggered :
    staggered.DistinctIds ∧
      (perform ⟨2, 256⟩ staggered .tick).2.machines.map Machine.untimed =
        (ticks ⟨1, 256⟩ staggered 2).machines.map Machine.untimed ∧
      (perform ⟨2, 256⟩ staggered .tick).1.faults = [⟨.overrun, "", 1⟩, ⟨.overrun, "", 0⟩] ∧
      tickFaults ⟨1, 256⟩ staggered 2 = [⟨.overrun, "", 0⟩, ⟨.overrun, "", 1⟩] ∧
      (perform ⟨2, 256⟩ staggered .tick).1.faults.Perm (tickFaults ⟨1, 256⟩ staggered 2) := by
  have hids : staggered.DistinctIds := by decide
  obtain ⟨hmachines, _, hfaults⟩ :=
    tick_eq_ticks.1 ⟨2, 256⟩ ⟨1, 256⟩ 2 staggered (by decide) (by decide) rfl hids
  exact ⟨hids, hmachines, by decide, by decide, hfaults⟩

end Engine

end TickMachine
