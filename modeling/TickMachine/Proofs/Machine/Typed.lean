import TickMachine.Proofs.Machine.Faults
import TickMachine.Proofs.Machine.Moves

/-! # Well-typed programs

An instruction is well-typed when it has an operation and the operand this operation works with. A
machine with such instructions never fails on an operand: what is left are a transfer of control out
of the program, an address without a cell and a call stack that is full, which depend on the run.
-/

namespace TickMachine

/-- The operands that the operations of a kind work with. -/
inductive OperandKind.Fits : OperandKind → Operand → Prop
  | none : Fits .none .none
  | target (index : UInt32) : Fits .target (.u32 index)
  | mask {bits : UInt8} (hbits : bits ≤ Condition.all) : Fits .mask (.u8 bits)
  | immediate (value : Int32) : Fits .immediate (.i32 value)
  | float (value : Single) : Fits .float (.f32 value)
  | address (address : UInt16) : Fits .address (.u16 address)
  | register {index : UInt8} (hindex : index.toNat < registerCount) : Fits .register (.u8 index)
  | omitted : Fits .optionalRegister .none
  | optionalRegister {index : UInt8} (hindex : index.toNat < registerCount) :
      Fits .optionalRegister (.u8 index)

theorem OperandKind.Fits.hasForm {kind : OperandKind} {operand : Operand}
    (h : kind.Fits operand) : kind.HasForm operand := by
  cases h with
  | none => exact .none .none
  | target index => exact .target index
  | mask => exact .mask _
  | immediate value => exact .immediate value
  | float value => exact .float value
  | address address => exact .address address
  | register => exact .register _
  | omitted => exact .omitted
  | optionalRegister => exact .optionalRegister _

theorem OperandKind.Fits.register_lt {kind : OperandKind} {index : UInt8}
    (h : kind.Fits (.u8 index)) (hkind : kind.namesRegister = true) :
    index.toNat < registerCount := by
  cases h with
  | mask => cases hkind
  | register hindex => exact hindex
  | optionalRegister hindex => exact hindex

/-- The instruction has an operation, and an operand for it. -/
def Instruction.WellTyped (i : Instruction) : Prop :=
  ∃ op, i.opcode? = some op ∧ op.operandKind.Fits i.operand

/-- The failures that depend on the run of a program and not on the form of its instructions. -/
inductive FaultCause.OfRun : FaultCause → Prop
  | overrun : OfRun .overrun
  | memoryOutOfBounds (address : Nat) : OfRun (.memoryOutOfBounds address)
  | callStackOverflow : OfRun .callStackOverflow

namespace Machine

variable {m : Machine} {operand : Operand} {fault : Fault}

/-! ## Operations with a fitting operand -/

/-- With an operand that fits, an operation fails only for want of a cell or of room for a call. -/
theorem execute_error {op : Opcode} (hfits : op.operandKind.Fits operand)
    (h : m.execute op operand = .error fault) :
    (∃ address, fault.cause = .memoryOutOfBounds address) ∨ fault.cause = .callStackOverflow := by
  obtain ⟨cause, hrefuses, rfl⟩ := execute_eq_error_iff.mp h
  cases hrefuses with
  | form hform => exact absurd hfits.hasForm hform
  | register hop hindex => exact absurd hindex (Nat.not_le_of_lt (hfits.register_lt hop))
  | @address _ address => exact .inl ⟨address.toNat, rfl⟩
  | depth => exact .inr rfl

/-! ## Machines with a well-typed program -/

/-- All instructions of the machine are well-typed. -/
def WellTyped (m : Machine) : Prop :=
  ∀ i ∈ m.code, i.WellTyped

theorem wellTyped_lasting : Lasting WellTyped :=
  .of_sameProgram fun hsame hm => by
    rw [WellTyped, hsame.code]
    exact hm

/-- The operand of an instruction that is executed fits. -/
theorem WellTyped.fits_of_runs {op : Opcode} (hm : m.WellTyped) (h : m.Runs op operand) :
    op.operandKind.Fits operand := by
  obtain ⟨i, hfetch, _, hop, rfl⟩ := h
  obtain ⟨op', hop', hfits⟩ := hm i (Array.mem_of_getElem? hfetch)
  obtain rfl : op' = op := Option.some.inj (hop'.symm.trans hop)
  exact hfits

theorem WellTyped.step_error (hm : m.WellTyped) (h : m.step = .error fault) :
    fault.cause.OfRun := by
  cases failed_of_step h with
  | ended hcounter => exact .overrun
  | refused hruns hexecute =>
      rcases execute_error (hm.fits_of_runs hruns) hexecute with ⟨address, hcause⟩ | hcause
      · rw [hcause]
        exact .memoryOutOfBounds address
      · rw [hcause]
        exact .callStackOverflow
  | left hruns hexecuted htarget => exact .overrun

theorem WellTyped.tick_error {budget : Nat} (hm : m.WellTyped)
    (h : m.tick budget = .error fault) : fault.cause.OfRun := by
  obtain ⟨last, hlast, _, hstep⟩ := wellTyped_lasting.tick_error hm h
  exact hlast.step_error hstep

/-! ## No instruction without an operation -/

end Machine

end TickMachine
