import TickMachine.Proofs.Machine.Typed

/-! # Programs that control does not leave

A program is closed when its jumps and calls lead into it and control does not go on behind its
last instruction. Then the counter and the return addresses stay below its length: a call is not
the last instruction, so what stands behind it is in the program too.
-/

namespace TickMachine

/-- The operations behind which control does not go on with the next instruction. -/
def Opcode.endsFlow : Opcode → Bool
  | halt | ret | jump => true
  | _ => false

theorem Opcode.endsFlow_of_transfersControl {op : Opcode} (h : op.transfersControl = false) :
    op.endsFlow = false := by
  cases op <;> first | rfl | cases h

/-- Control that is in the program stays in it. -/
structure ClosedProgram (code : Array Instruction) : Prop where
  targets : ∀ i ∈ code, i.opcode? = some .call ∨ i.opcode? = some .jump →
    ∀ target, i.operand = .u32 target → target.toNat < code.size
  last : ∃ i op, code[code.size - 1]? = some i ∧ i.flags = 0 ∧ i.opcode? = some op ∧
    op.endsFlow = true

namespace Machine

/-- The machine has a closed program and stays in it, also when it returns from its calls. -/
structure Confined (m : Machine) : Prop where
  typed : m.WellTyped
  closed : ClosedProgram m.code
  counter_lt : m.counter < m.code.size
  calls_lt : ∀ address ∈ m.calls, address < m.code.size

namespace Confined

variable {m after : Machine}

theorem move (hm : m.Confined) (hsame : SameProgram m after)
    (hcounter : after.counter < m.code.size)
    (hcalls : ∀ address ∈ after.calls, address < m.code.size) : after.Confined where
  typed := by
    rw [WellTyped, hsame.code]
    exact hm.typed
  closed := by
    rw [hsame.code]
    exact hm.closed
  counter_lt := by rwa [hsame.code]
  calls_lt := by rwa [hsame.code]

/-- There is an instruction behind the one at the counter, unless this one ends the flow. -/
theorem next_lt (hm : m.Confined)
    (hflow : ∀ op operand, m.Runs op operand → op.endsFlow = false) :
    m.counter + 1 < m.code.size := by
  have hcounter := hm.counter_lt
  apply Nat.lt_of_not_le
  intro hlast
  obtain ⟨i, op, hfetch, hflags, hop, hends⟩ := hm.closed.last
  have hindex : m.code.size - 1 = m.counter := by omega
  rw [hindex] at hfetch
  have hadmits : m.admits i = true := by simp [admits, hflags]
  have hruns : m.Runs op i.operand := ⟨i, hfetch, hadmits, hop, rfl⟩
  rw [hflow op i.operand hruns] at hends
  cases hends

theorem target_lt (hm : m.Confined) {op : Opcode} {target : UInt32}
    (hruns : m.Runs op (.u32 target)) (hop : op = .call ∨ op = .jump) :
    target.toNat < m.code.size := by
  obtain ⟨i, hfetch, _, hopcode, hoperand⟩ := hruns
  refine hm.closed.targets i (Array.mem_of_getElem? hfetch) ?_ target hoperand
  rcases hop with rfl | rfl
  · exact .inl hopcode
  · exact .inr hopcode

theorem step (hm : m.Confined) (h : m.step = .ok after) : after.Confined := by
  have hsame := step_sameProgram h
  cases stepped_of_step h with
  | proceed _ hdata hdataOnly =>
      have hnext := hm.next_lt fun op operand hruns =>
        op.endsFlow_of_transfersControl (hdata op operand hruns)
      refine hm.move hsame hnext ?_
      simpa only [hdataOnly.calls_eq] using hm.calls_lt
  | halt | leave => exact hm.move hsame hm.counter_lt hm.calls_lt
  | ret hruns hcalls htarget =>
      refine hm.move hsame htarget fun address haddress => ?_
      exact hm.calls_lt address (hcalls ▸ List.mem_cons_of_mem _ haddress)
  | call hruns hroom htarget =>
      have hnext := hm.next_lt fun op operand hother => by rw [(hother.unique hruns).1]; rfl
      exact hm.move hsame htarget (List.forall_mem_cons.mpr ⟨hnext, hm.calls_lt⟩)
  | jump hruns htarget => exact hm.move hsame htarget hm.calls_lt

/-- A step of a confined machine may fail, but not because control leaves the program. -/
theorem step_error (hm : m.Confined) {fault : Fault} (h : m.step = .error fault) :
    fault.cause ≠ .overrun := by
  cases failed_of_step h with
  | ended hcounter => exact absurd hm.counter_lt (Nat.not_lt.mpr hcounter)
  | refused hruns hexecute =>
      rcases execute_error (hm.typed.fits_of_runs hruns) hexecute with ⟨address, hcause⟩ | hcause
      · simp [hcause]
      · simp [hcause]
  | left hruns hexecuted htarget =>
      exfalso
      apply Nat.not_lt.mpr htarget
      cases hexecuted with
      | ret hop hcalls => exact hm.calls_lt _ (hcalls ▸ List.mem_cons_self)
      | call hop hoperand => exact hm.target_lt (hoperand ▸ hruns) (.inl hop)
      | jump hop hoperand => exact hm.target_lt (hoperand ▸ hruns) (.inr hop)

end Confined

theorem confined_lasting : Lasting Confined where
  step hm _ h := hm.step h
  count {m} hm _ := hm.move m.count_sameProgram hm.counter_lt hm.calls_lt
  start hm h := by
    have hsame := start_sameProgram h
    obtain ⟨_, rfl⟩ := eq_of_start h
    exact hm.move hsame hm.counter_lt hm.calls_lt
  freeze hm h := by
    have hsame := freeze_sameProgram h
    obtain ⟨_, rfl⟩ := eq_of_freeze h
    exact hm.move hsame hm.counter_lt hm.calls_lt
  reset {m} hm := hm.move m.reset_sameProgram (Nat.zero_lt_of_lt hm.counter_lt) nofun
  write {m after _ _} hm h := by
    obtain ⟨hcontrol, _⟩ := setCellAt_control h
    have hcounter : after.counter = m.counter := congrArg Control.counter hcontrol
    have hcalls : after.calls = m.calls := congrArg Control.calls hcontrol
    refine hm.move (setCellAt_sameProgram h) ?_ ?_
    · rw [hcounter]
      exact hm.counter_lt
    · rw [hcalls]
      exact hm.calls_lt

theorem Confined.tick_error {m : Machine} {budget : Nat} {fault : Fault} (hm : m.Confined)
    (h : m.tick budget = .error fault) : fault.cause ≠ .overrun := by
  obtain ⟨last, hlast, _, hstep⟩ := confined_lasting.tick_error hm h
  exact hlast.step_error hstep

/-- A machine starts at the first instruction of its program. -/
theorem fresh_confined {code : Array Instruction} (htyped : ∀ i ∈ code, i.WellTyped)
    (hclosed : ClosedProgram code) (id : Nat) (name : BoundedText maxProgramNameSize)
    (callLimit : Nat) : (fresh id name code callLimit).Confined where
  typed := htyped
  closed := hclosed
  counter_lt := by
    obtain ⟨i, _, hlast, _⟩ := hclosed.last
    exact Nat.zero_lt_of_lt (Array.getElem?_eq_some_iff.mp hlast).1
  calls_lt := nofun

end Machine

end TickMachine
