import TickMachine.Proofs.Machine.Control

/-! # When a step fails

An operation refuses an operand that does not have the form it works with, then a register, an
address or a call for which there is nothing there; and no control is handed to an index without an
instruction. A step fails for one of these reasons or for the lack of an instruction at the counter,
and for no other, always at the instruction it began with.
-/

namespace TickMachine

/-- The operand has the form that the operations of the kind work with, whatever its value. -/
inductive OperandKind.HasForm : OperandKind → Operand → Prop
  /-- Operations without operand ignore what they are given. -/
  | none (operand : Operand) : HasForm .none operand
  | target (index : UInt32) : HasForm .target (.u32 index)
  | mask (bits : UInt8) : HasForm .mask (.u8 bits)
  | immediate (value : Int32) : HasForm .immediate (.i32 value)
  | float (value : Single) : HasForm .float (.f32 value)
  | address (address : UInt16) : HasForm .address (.u16 address)
  | register (index : UInt8) : HasForm .register (.u8 index)
  | omitted : HasForm .optionalRegister .none
  | optionalRegister (index : UInt8) : HasForm .optionalRegister (.u8 index)

/-- The operand of the kind is a register that is there or may be left out. -/
def OperandKind.namesRegister : OperandKind → Bool
  | register | optionalRegister => true
  | _ => false

namespace Machine

variable {m : Machine} {op : Opcode} {operand : Operand} {cause : FaultCause} {fault : Fault}

/-! ## What an operation refuses -/

/-- The operation cannot be executed with the operand. -/
inductive Refuses (m : Machine) : Opcode → Operand → FaultCause → Prop
  | form {op : Opcode} {operand : Operand} (hform : ¬ op.operandKind.HasForm operand) :
      Refuses m op operand .invalidOperand
  | register {op : Opcode} {index : UInt8} (hop : op.operandKind.namesRegister = true)
      (hindex : 8 ≤ index.toNat) : Refuses m op (.u8 index) (.invalidRegister index.toNat)
  | address {op : Opcode} {address : UInt16} (hop : op.operandKind = .address)
      (haddress : 16384 ≤ address.toNat) :
      Refuses m op (.u16 address) (.memoryOutOfBounds address.toNat)
  | depth {target : UInt32} (hdepth : m.callLimit ≤ m.calls.length) :
      Refuses m .call (.u32 target) .callStackOverflow

/-- An operand of another form is refused by every operation. -/
theorem execute_of_not_hasForm (h : ¬ op.operandKind.HasForm operand) :
    m.execute op operand = .error (m.fault .invalidOperand) := by
  cases op with
  | nop | ret | halt => exact absurd (.none operand) h
  | call | jump =>
      cases operand with
      | u32 target => exact absurd (.target target) h
      | _ => rfl
  | or | and =>
      cases operand with
      | u8 bits => exact absurd (.mask bits) h
      | _ => rfl
  | loadInt =>
      cases operand with
      | i32 value => exact absurd (.immediate value) h
      | _ => rfl
  | loadFloat =>
      cases operand with
      | f32 value => exact absurd (.float value) h
      | _ => rfl
  | load | store =>
      cases operand with
      | u16 address => exact absurd (.address address) h
      | _ => rfl
  | get | put =>
      cases operand with
      | u8 index => exact absurd (.register index) h
      | _ => rfl
  | mulInt | incInt | addInt | subInt | negInt | cmpInt | mulFloat | incFloat | addFloat | subFloat
  | negFloat | cmpFloat =>
      cases operand with
      | none => exact absurd .omitted h
      | u8 index => exact absurd (.optionalRegister index) h
      | _ => rfl

theorem operandRegister_u8 (m : Machine) (index : UInt8) (default : Option Register) :
    m.operandRegister (.u8 index) default = m.register? index.toNat := by
  cases default <;> rfl

theorem register?_of_le {index : Nat} (h : 8 ≤ index) :
    m.register? index = .error (m.fault (.invalidRegister index)) :=
  dif_neg (Nat.not_lt_of_le h)

/-- An operation on its operand register refuses registers that are not there. -/
theorem execute_of_register_le {index : UInt8} (hop : op.operandKind.namesRegister = true)
    (hindex : 8 ≤ index.toNat) :
    m.execute op (.u8 index) = .error (m.fault (.invalidRegister index.toNat)) := by
  cases op with
  | nop | ret | halt | call | jump | or | and | loadInt | loadFloat | load | store => cases hop
  | _ =>
      simp only [execute, binaryInt, unaryInt, compareWith, binarySingle, unarySingle,
        operandRegister_u8, register?_of_le hindex]

theorem execute_of_address_le {address : UInt16} (hop : op.operandKind = .address)
    (haddress : 16384 ≤ address.toNat) :
    m.execute op (.u16 address) = .error (m.fault (.memoryOutOfBounds address.toNat)) := by
  have hcell : m.cellAt address.toNat = .error (m.fault (.memoryOutOfBounds address.toNat)) := by
    have hnone : m.memory[address.toNat]? = none := Vector.getElem?_eq_none haddress
    rw [cellAt, hnone]
  have hstore (cell : Cell) : m.setCellAt address.toNat cell =
      .error (m.fault (.memoryOutOfBounds address.toNat)) :=
    dif_neg (Nat.not_lt_of_le haddress)
  cases op with
  | load => simp only [execute, hcell]
  | store => simp only [execute, hstore]
  | _ => cases hop

/-- What is refused fails at the instruction. -/
theorem Refuses.execute (h : m.Refuses op operand cause) :
    m.execute op operand = .error (m.fault cause) := by
  cases h with
  | form hform => exact execute_of_not_hasForm hform
  | register hop hindex => exact execute_of_register_le hop hindex
  | address hop haddress => exact execute_of_address_le hop haddress
  | depth hdepth => exact if_pos hdepth

/-! ## What an operation executes -/

theorem exists_withRegister {default : Option Register} {use : Register → Machine}
    (h : ∃ r, m.operandRegister operand default = .ok r) :
    ∃ effect, (match m.operandRegister operand default with
      | .error fault => .error fault
      | .ok r => (use r).proceed : Effect) = .ok effect := by
  obtain ⟨r, hr⟩ := h
  rw [hr]
  exact ⟨_, rfl⟩

theorem exists_operandRegister (hform : op.operandKind.HasForm operand)
    (hop : op.operandKind.namesRegister = true)
    (hregister : ∀ index : UInt8, operand = .u8 index → index.toNat < 8)
    {default : Option Register} (hdefault : op.operandKind = .optionalRegister → default.isSome) :
    ∃ r, m.operandRegister operand default = .ok r := by
  generalize op.operandKind = kind at hform hop hdefault
  cases hform with
  | none | target | mask | immediate | float | address => cases hop
  | register index | optionalRegister index =>
      rw [operandRegister_u8]
      exact ⟨⟨index.toNat, hregister index rfl⟩, dif_pos (hregister index rfl)⟩
  | omitted =>
      obtain ⟨r, rfl⟩ := Option.isSome_iff_exists.mp (hdefault rfl)
      exact ⟨r, rfl⟩

/-- What is not refused is executed. -/
theorem exists_execute (h : ∀ cause, ¬ m.Refuses op operand cause) :
    ∃ effect, m.execute op operand = .ok effect := by
  have hform : op.operandKind.HasForm operand :=
    Classical.byContradiction fun hform => h _ (.form hform)
  have hregister (hop : op.operandKind.namesRegister = true) :
      ∀ index : UInt8, operand = .u8 index → index.toNat < 8 := by
    rintro index rfl
    exact Nat.lt_of_not_le fun hindex => h _ (.register hop hindex)
  cases op with
  | nop | halt => exact ⟨_, rfl⟩
  | ret =>
      cases hcalls : m.calls with
      | nil => exact ⟨(m, .halt), by simp only [execute, hcalls]⟩
      | cons target calls =>
          exact ⟨({ m with calls := calls }, .jump target), by simp only [execute, hcalls]⟩
  | call =>
      cases hform
      exact ⟨_, if_neg fun hdepth => h _ (.depth hdepth)⟩
  | jump | or | and | loadInt | loadFloat =>
      cases hform
      exact ⟨_, rfl⟩
  | get | put =>
      refine exists_withRegister (exists_operandRegister hform rfl (hregister rfl) fun hkind => ?_)
      cases hkind
  | load =>
      cases hform with
      | address address =>
          have hlt : address.toNat < memorySize :=
            Nat.lt_of_not_le fun haddress => h _ (.address rfl haddress)
          have hcell : m.cellAt address.toNat = .ok m.memory[address.toNat] := by
            rw [cellAt, Vector.getElem?_eq_getElem hlt]
          exact ⟨_, by simp only [execute, hcell]; rfl⟩
  | store =>
      cases hform with
      | address address =>
          have hlt : address.toNat < memorySize :=
            Nat.lt_of_not_le fun haddress => h _ (.address rfl haddress)
          have hstore : m.setCellAt address.toNat (m.cell 0) = .ok _ := dif_pos hlt
          exact ⟨_, by simp only [execute, hstore]; rfl⟩
  | _ =>
      exact exists_withRegister (exists_operandRegister hform rfl (hregister rfl) fun _ => rfl)

theorem execute_eq_error_iff :
    m.execute op operand = .error fault ↔
      ∃ cause, m.Refuses op operand cause ∧ fault = m.fault cause := by
  constructor
  · intro herror
    refine Classical.byContradiction fun hnone => ?_
    obtain ⟨effect, heffect⟩ : ∃ effect, m.execute op operand = .ok effect := by
      refine exists_execute fun cause hrefuses => hnone ⟨cause, hrefuses, ?_⟩
      rw [hrefuses.execute] at herror
      cases herror
      rfl
    rw [heffect] at herror
    cases herror
  · rintro ⟨cause, hrefuses, rfl⟩
    exact hrefuses.execute

/-! ## Where an operation hands control -/

/-- The operation hands control to the instruction with the index. -/
inductive GoesTo (m : Machine) : Opcode → Operand → Nat → Prop
  | call {target : UInt32} (hroom : m.calls.length < m.callLimit) :
      GoesTo m .call (.u32 target) target.toNat
  | jump {target : UInt32} : GoesTo m .jump (.u32 target) target.toNat
  | ret {operand : Operand} {target : Nat} {calls : List Nat} (hcalls : m.calls = target :: calls) :
      GoesTo m .ret operand target

theorem Executed.goesTo {after : Machine} {target : Nat}
    (h : Executed m op operand after (.jump target)) : m.GoesTo op operand target := by
  cases h with
  | ret hop hcalls => exact hop ▸ .ret hcalls
  | call hop hoperand hroom => exact hop ▸ hoperand ▸ .call hroom
  | jump hop hoperand => exact hop ▸ hoperand ▸ .jump

theorem GoesTo.exists_execute {target : Nat} (h : m.GoesTo op operand target) :
    ∃ after, m.execute op operand = .ok (after, .jump target) := by
  cases h with
  | call hroom => exact ⟨_, if_neg (Nat.not_le_of_lt hroom)⟩
  | jump => exact ⟨_, rfl⟩
  | @ret operand target calls hcalls =>
      exact ⟨{ m with calls := calls }, by simp only [execute, hcalls]⟩

/-! ## Steps -/

/-- The next step fails for the reason. -/
inductive FailsFor (m : Machine) : FaultCause → Prop
  /-- There is no instruction at the counter. -/
  | ended (hcounter : m.code.size ≤ m.counter) : FailsFor m .overrun
  | refused {op : Opcode} {operand : Operand} {cause : FaultCause} (hruns : m.Runs op operand)
      (hrefuses : m.Refuses op operand cause) : FailsFor m cause
  /-- Control would be handed to no instruction. -/
  | left {op : Opcode} {operand : Operand} {target : Nat} (hruns : m.Runs op operand)
      (hgoes : m.GoesTo op operand target) (htarget : m.code.size ≤ target) : FailsFor m .overrun

/-- A step with an operation to execute fails where the operation does. -/
theorem Runs.step_of_error (h : m.Runs op operand) (hexecute : m.execute op operand = .error fault) :
    m.step = .error fault := by
  obtain ⟨i, hfetch, hadmits, hop, rfl⟩ := h
  simp only [step, hfetch, perform, hadmits, hop, if_true, hexecute]

/-- A step with an operation that can be executed transfers control behind it. -/
theorem Runs.step_of_ok {after : Machine} {transfer : Transfer} (h : m.Runs op operand)
    (hexecute : m.execute op operand = .ok (after, transfer)) :
    m.step = after.follow transfer := by
  obtain ⟨i, hfetch, hadmits, hop, rfl⟩ := h
  simp only [step, hfetch, perform, hadmits, hop, if_true, hexecute]

theorem FailsFor.step (h : m.FailsFor cause) : m.step = .error (m.fault cause) := by
  cases h with
  | ended hcounter => rw [Machine.step, Array.getElem?_eq_none hcounter]
  | refused hruns hrefuses => exact hruns.step_of_error hrefuses.execute
  | @left op operand target hruns hgoes htarget =>
      obtain ⟨after, hexecute⟩ := hgoes.exists_execute
      have hexecuted : Executed m op operand after (.jump target) := executed_of_execute hexecute
      rw [hruns.step_of_ok hexecute]
      simp only [follow, hexecuted.code_eq, if_neg (Nat.not_lt_of_le htarget), hexecuted.fault_eq]

theorem step_eq_error_iff :
    m.step = .error fault ↔ ∃ cause, m.FailsFor cause ∧ fault = m.fault cause := by
  constructor
  · intro h
    cases failed_of_step h with
    | ended hcounter => exact ⟨_, .ended hcounter, rfl⟩
    | refused hruns hexecute =>
        obtain ⟨cause, hrefuses, hfault⟩ := execute_eq_error_iff.mp hexecute
        exact ⟨cause, .refused hruns hrefuses, hfault⟩
    | left hruns hexecuted htarget => exact ⟨_, .left hruns hexecuted.goesTo htarget, rfl⟩
  · rintro ⟨cause, hfails, rfl⟩
    exact hfails.step

/-- A machine whose instruction is passed over, without operation, or one that does nothing or halts
has no reason to fail. -/
theorem not_failsFor_of_idle {i : Instruction} (hfetch : m.code[m.counter]? = some i)
    (hidle : m.admits i = false ∨ ∀ op, i.opcode? = some op → op = .nop ∨ op = .halt) :
    ¬ m.FailsFor cause := by
  have hop {op : Opcode} {operand : Operand} (hruns : m.Runs op operand) :
      op = .nop ∨ op = .halt := by
    obtain ⟨i', hfetch', hadmits, hop, _⟩ := hruns
    obtain rfl : i = i' := Option.some.inj (hfetch.symm.trans hfetch')
    rcases hidle with hpassed | hidle
    · rw [hadmits] at hpassed
      cases hpassed
    · exact hidle op hop
  intro hfails
  cases hfails with
  | ended hcounter =>
      rw [Array.getElem?_eq_none hcounter] at hfetch
      cases hfetch
  | refused hruns hrefuses =>
      have hexecute := hrefuses.execute
      rcases hop hruns with rfl | rfl <;> cases hexecute
  | left hruns hgoes =>
      rcases hop hruns with rfl | rfl <;> cases hgoes

/-- A step fails exactly for one of the reasons, of which there is never more than one, at the
instruction it began with. An instruction that is passed over, has no operation, does nothing or
halts is no reason, whatever its operand. -/
theorem step_fails_iff (m : Machine) :
    (∀ fault, m.step = .error fault ↔
      ∃ cause, m.FailsFor cause ∧ fault = ⟨cause, m.name.text, m.counter⟩) ∧
    ((∃ after, m.step = .ok after) ↔ ∀ cause, ¬ m.FailsFor cause) ∧
    (∀ cause cause', m.FailsFor cause → m.FailsFor cause' → cause = cause') ∧
    ∀ i, m.code[m.counter]? = some i →
      (m.admits i = false ∨ ∀ op, i.opcode? = some op → op = .nop ∨ op = .halt) →
      ∃ after, m.step = .ok after := by
  have hok : (∃ after, m.step = .ok after) ↔ ∀ cause, ¬ m.FailsFor cause := by
    constructor
    · rintro ⟨after, hstep⟩ cause hfails
      rw [hfails.step] at hstep
      cases hstep
    · intro hnone
      cases hstep : m.step with
      | ok after => exact ⟨after, rfl⟩
      | error fault =>
          obtain ⟨cause, hfails, _⟩ := step_eq_error_iff.mp hstep
          exact absurd hfails (hnone cause)
  refine ⟨fun fault => step_eq_error_iff, hok, fun cause cause' hfails hfails' => ?_,
    fun i hfetch hidle => hok.mpr fun cause => not_failsFor_of_idle hfetch hidle⟩
  have hfault : (.error (m.fault cause) : Except Fault Machine) = .error (m.fault cause') :=
    hfails.step.symm.trans hfails'.step
  exact congrArg Fault.cause (Except.error.inj hfault)

/-- A call without room for it and with a target that is not there fails for the lack of room; where
its condition is not met it does not fail. -/
theorem step_fails_iff_call :
    (fresh 0 .empty #[⟨Opcode.call.code, 0, .u32 9⟩] 0).step =
      .error ⟨.callStackOverflow, "", 0⟩ ∧
    ∃ after, (fresh 0 .empty #[⟨Opcode.call.code, Condition.zero, .u32 9⟩] 0).step = .ok after := by
  obtain ⟨hfails, -⟩ := step_fails_iff (fresh 0 .empty #[⟨Opcode.call.code, 0, .u32 9⟩] 0)
  obtain ⟨-, -, -, hidle⟩ :=
    step_fails_iff (fresh 0 .empty #[⟨Opcode.call.code, Condition.zero, .u32 9⟩] 0)
  constructor
  · exact (hfails _).mpr ⟨_, .refused ⟨_, rfl, rfl, rfl, rfl⟩ (.depth (Nat.le_refl 0)), rfl⟩
  · exact hidle _ rfl (.inl rfl)

end Machine

end TickMachine
