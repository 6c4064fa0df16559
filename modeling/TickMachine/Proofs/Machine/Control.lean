import TickMachine.Machine.Step

/-! # Control flow of single steps

Operations on data leave the control state of a machine as it was: its code, its counter, its calls
and its phase. What remains are the transfers of control. `Executed` lists what executing an
operation comes to and `Stepped` what a step comes to; whatever is preserved by steps is proved by
cases on them, without opening an operation again.
-/

namespace TickMachine

/-- The operations that can move control elsewhere than to the next instruction. -/
def Opcode.transfersControl : Opcode → Bool
  | ret | halt | call | jump => true
  | _ => false

theorem Condition.and_all_le (bits : UInt8) : bits &&& all ≤ all := by
  rw [UInt8.le_iff_toNat_le, UInt8.toNat_and]
  exact Nat.and_le_right

namespace Machine

/-- The part of a machine that operations on data leave alone. -/
structure Control where
  id : Nat
  name : BoundedText maxProgramNameSize
  code : Array Instruction
  callLimit : Nat
  counter : Nat
  calls : List Nat
  ticks : Nat
  phase : Phase

def control (m : Machine) : Control :=
  ⟨m.id, m.name, m.code, m.callLimit, m.counter, m.calls, m.ticks, m.phase⟩

/-- The condition register holds no bits but the condition bits. -/
def ConditionBits (m : Machine) : Prop :=
  m.condition ≤ Condition.all

/-! ## Writing data -/

theorem setCellAt_control {m after : Machine} {address : Nat} {cell : Cell}
    (h : m.setCellAt address cell = .ok after) :
    after.control = m.control ∧ after.condition = m.condition := by
  unfold setCellAt at h
  split at h
  · cases h
    exact ⟨rfl, rfl⟩
  · cases h

theorem setCondition_conditionBits (m : Machine) (bits : UInt8) :
    (m.setCondition bits).ConditionBits :=
  Condition.and_all_le bits

theorem setCell_conditionBits (m : Machine) (r : Register) (cell : Cell) :
    (m.setCell r cell).ConditionBits :=
  setCondition_conditionBits _ _

theorem setWord_conditionBits (m : Machine) (r : Register) (value : UInt32) :
    (m.setWord r value).ConditionBits :=
  setCondition_conditionBits _ _

theorem setSingle_conditionBits (m : Machine) (r : Register) (value : Single) :
    (m.setSingle r value).ConditionBits :=
  setCondition_conditionBits _ _

/-! ## Operations on data -/

/-- The machine differs from another one in data only. -/
structure SameControl (m after : Machine) : Prop where
  control : after.control = m.control
  conditionBits : m.ConditionBits → after.ConditionBits

namespace SameControl

variable {m after : Machine}

theorem refl (m : Machine) : SameControl m m :=
  ⟨rfl, fun hbits => hbits⟩

theorem id_eq (h : SameControl m after) : after.id = m.id :=
  congrArg Control.id h.control

theorem name_eq (h : SameControl m after) : after.name = m.name :=
  congrArg Control.name h.control

theorem code_eq (h : SameControl m after) : after.code = m.code :=
  congrArg Control.code h.control

theorem callLimit_eq (h : SameControl m after) : after.callLimit = m.callLimit :=
  congrArg Control.callLimit h.control

theorem counter_eq (h : SameControl m after) : after.counter = m.counter :=
  congrArg Control.counter h.control

theorem calls_eq (h : SameControl m after) : after.calls = m.calls :=
  congrArg Control.calls h.control

theorem ticks_eq (h : SameControl m after) : after.ticks = m.ticks :=
  congrArg Control.ticks h.control

theorem phase_eq (h : SameControl m after) : after.phase = m.phase :=
  congrArg Control.phase h.control

end SameControl

/-- An effect that fails, or changes data and goes on with the next instruction. -/
def DataOnly (m : Machine) (effect : Effect) : Prop :=
  ∀ after transfer, effect = .ok (after, transfer) → transfer = .next ∧ SameControl m after

theorem dataOnly_error (m : Machine) (fault : Fault) : m.DataOnly (.error fault) := by
  intro after transfer h
  cases h

theorem dataOnly_refuse (m : Machine) (cause : FaultCause) : m.DataOnly (m.refuse cause) :=
  m.dataOnly_error _

theorem SameControl.dataOnly {m after : Machine} (h : SameControl m after) :
    m.DataOnly after.proceed := by
  intro final transfer heq
  cases heq
  exact ⟨rfl, h⟩

theorem setCondition_dataOnly (m : Machine) (bits : UInt8) :
    m.DataOnly (m.setCondition bits).proceed :=
  SameControl.dataOnly ⟨rfl, fun _ => m.setCondition_conditionBits bits⟩

theorem setCell_dataOnly (m : Machine) (r : Register) (cell : Cell) :
    m.DataOnly (m.setCell r cell).proceed :=
  SameControl.dataOnly ⟨rfl, fun _ => m.setCell_conditionBits r cell⟩

theorem setWord_dataOnly (m : Machine) (r : Register) (value : UInt32) :
    m.DataOnly (m.setWord r value).proceed :=
  SameControl.dataOnly ⟨rfl, fun _ => m.setWord_conditionBits r value⟩

theorem setSingle_dataOnly (m : Machine) (r : Register) (value : Single) :
    m.DataOnly (m.setSingle r value).proceed :=
  SameControl.dataOnly ⟨rfl, fun _ => m.setSingle_conditionBits r value⟩

/-- An operation on its operand register works on data only if it does so for every register. -/
theorem dataOnly_withRegister {m : Machine} {operand : Operand} {default : Option Register}
    {use : Register → Effect} (huse : ∀ r, m.DataOnly (use r)) :
    m.DataOnly (match m.operandRegister operand default with
      | .error fault => .error fault
      | .ok r => use r) := by
  cases m.operandRegister operand default with
  | error fault => exact m.dataOnly_error fault
  | ok r => exact huse r

theorem binaryInt_dataOnly (m : Machine) (operand : Operand) (f : UInt32 → UInt32 → UInt32) :
    m.DataOnly (m.binaryInt operand f) :=
  dataOnly_withRegister fun _ => m.setWord_dataOnly _ _

theorem unaryInt_dataOnly (m : Machine) (operand : Operand) (f : UInt32 → UInt32) :
    m.DataOnly (m.unaryInt operand f) :=
  dataOnly_withRegister fun _ => m.setWord_dataOnly _ _

theorem compareWith_dataOnly (m : Machine) (operand : Operand)
    (order : Register → Option Ordering) : m.DataOnly (m.compareWith operand order) :=
  dataOnly_withRegister fun _ => m.setCondition_dataOnly _

theorem binarySingle_dataOnly (m : Machine) (operand : Operand) (f : Single → Single → Single) :
    m.DataOnly (m.binarySingle operand f) :=
  dataOnly_withRegister fun _ => m.setSingle_dataOnly _ _

theorem unarySingle_dataOnly (m : Machine) (operand : Operand) (f : Single → Single) :
    m.DataOnly (m.unarySingle operand f) :=
  dataOnly_withRegister fun _ => m.setSingle_dataOnly _ _

/-- An operation that is no transfer of control works on data only. -/
theorem execute_dataOnly (m : Machine) {op : Opcode} (operand : Operand)
    (hop : op.transfersControl = false) : m.DataOnly (m.execute op operand) := by
  cases op with
  | ret | halt | call | jump => cases hop
  | nop => exact (SameControl.refl m).dataOnly
  | or | and =>
      cases operand with
      | u8 mask => exact m.setCondition_dataOnly _
      | _ => exact m.dataOnly_refuse _
  | loadInt =>
      cases operand with
      | i32 value => exact m.setWord_dataOnly _ _
      | _ => exact m.dataOnly_refuse _
  | loadFloat =>
      cases operand with
      | f32 value => exact m.setSingle_dataOnly _ _
      | _ => exact m.dataOnly_refuse _
  | get | put => exact dataOnly_withRegister fun _ => m.setCell_dataOnly _ _
  | load =>
      cases operand with
      | u16 address =>
          simp only [execute]
          split
          · exact m.dataOnly_error _
          · exact m.setCell_dataOnly _ _
      | _ => exact m.dataOnly_refuse _
  | store =>
      cases operand with
      | u16 address =>
          simp only [execute]
          split
          · exact m.dataOnly_error _
          next after hstore =>
            obtain ⟨hcontrol, hcondition⟩ := setCellAt_control hstore
            refine SameControl.dataOnly ⟨hcontrol, fun hbits => ?_⟩
            rw [ConditionBits, hcondition]
            exact hbits
      | _ => exact m.dataOnly_refuse _
  | mulInt | addInt | subInt =>
      simp only [execute]
      exact m.binaryInt_dataOnly _ _
  | incInt | negInt =>
      simp only [execute]
      exact m.unaryInt_dataOnly _ _
  | mulFloat | addFloat | subFloat =>
      simp only [execute]
      exact m.binarySingle_dataOnly _ _
  | incFloat | negFloat =>
      simp only [execute]
      exact m.unarySingle_dataOnly _ _
  | cmpInt | cmpFloat =>
      simp only [execute]
      exact m.compareWith_dataOnly _ _

/-! ## What an operation comes to -/

/-- What executing an operation comes to when it does not fail. -/
inductive Executed (m : Machine) (op : Opcode) (operand : Operand) : Machine → Transfer → Prop
  /-- Data may have changed, control goes on. -/
  | proceed {after : Machine} (hop : op.transfersControl = false) (hsame : SameControl m after) :
      Executed m op operand after .next
  | halt (hop : op = .halt) : Executed m op operand m .halt
  /-- Without a call to return from the program is over. -/
  | leave (hop : op = .ret) (hcalls : m.calls = []) : Executed m op operand m .halt
  | ret {target : Nat} {calls : List Nat} (hop : op = .ret) (hcalls : m.calls = target :: calls) :
      Executed m op operand { m with calls := calls } (.jump target)
  | call {target : UInt32} (hop : op = .call) (hoperand : operand = .u32 target)
      (hroom : m.calls.length < m.callLimit) :
      Executed m op operand { m with calls := (m.counter + 1) :: m.calls } (.jump target.toNat)
  | jump {target : UInt32} (hop : op = .jump) (hoperand : operand = .u32 target) :
      Executed m op operand m (.jump target.toNat)

theorem executed_of_execute {m after : Machine} {op : Opcode} {operand : Operand}
    {transfer : Transfer} (h : m.execute op operand = .ok (after, transfer)) :
    Executed m op operand after transfer := by
  -- data operations are settled together, the four transfers of control one by one
  by_cases hop : op.transfersControl = false
  · obtain ⟨rfl, hsame⟩ := m.execute_dataOnly operand hop after transfer h
    exact .proceed hop hsame
  · cases op with
    | ret =>
        simp only [execute] at h
        split at h
        next hcalls => cases h; exact .leave rfl hcalls
        next hcalls => cases h; exact .ret rfl hcalls
    | halt => cases h; exact .halt rfl
    | call =>
        cases operand with
        | u32 target =>
            simp only [execute] at h
            split at h
            next => cases h
            next hroom => cases h; exact .call rfl rfl (Nat.lt_of_not_le hroom)
        | _ => cases h
    | jump =>
        cases operand with
        | u32 target => cases h; exact .jump rfl rfl
        | _ => cases h
    | _ => exact absurd rfl hop

/-! ## What a step comes to -/

/-- The instruction at the counter is executed, not passed over, and has the given operation. -/
def Runs (m : Machine) (op : Opcode) (operand : Operand) : Prop :=
  ∃ i, m.code[m.counter]? = some i ∧ m.admits i = true ∧ i.opcode? = some op ∧ i.operand = operand

/-- At most one operation is executed in a step. -/
theorem Runs.unique {m : Machine} {op op' : Opcode} {operand operand' : Operand}
    (h : m.Runs op operand) (h' : m.Runs op' operand') : op = op' ∧ operand = operand' := by
  obtain ⟨i, hfetch, _, hop, rfl⟩ := h
  obtain ⟨i', hfetch', _, hop', rfl⟩ := h'
  obtain rfl : i = i' := Option.some.inj (hfetch.symm.trans hfetch')
  exact ⟨Option.some.inj (hop.symm.trans hop'), rfl⟩

/-- What a step comes to when it does not fail. -/
inductive Stepped (m : Machine) : Machine → Prop
  | proceed {after : Machine} (hcounter : m.counter < m.code.size)
      (hdata : ∀ op operand, m.Runs op operand → op.transfersControl = false)
      (hsame : SameControl m after) : Stepped m { after with counter := m.counter + 1 }
  | halt {operand : Operand} (hruns : m.Runs .halt operand) : Stepped m { m with phase := .halted }
  | leave {operand : Operand} (hruns : m.Runs .ret operand) (hcalls : m.calls = []) :
      Stepped m { m with phase := .halted }
  | ret {operand : Operand} {target : Nat} {calls : List Nat} (hruns : m.Runs .ret operand)
      (hcalls : m.calls = target :: calls) (htarget : target < m.code.size) :
      Stepped m { m with calls := calls, counter := target }
  | call {target : UInt32} (hruns : m.Runs .call (.u32 target))
      (hroom : m.calls.length < m.callLimit) (htarget : target.toNat < m.code.size) :
      Stepped m { m with calls := (m.counter + 1) :: m.calls, counter := target.toNat }
  | jump {target : UInt32} (hruns : m.Runs .jump (.u32 target))
      (htarget : target.toNat < m.code.size) : Stepped m { m with counter := target.toNat }

theorem follow_jump {m after : Machine} {target : Nat} (h : m.follow (.jump target) = .ok after) :
    target < m.code.size ∧ after = { m with counter := target } := by
  simp only [follow] at h
  split at h
  next htarget => cases h; exact ⟨htarget, rfl⟩
  next => cases h

/-- An instruction that is passed over, has no operation or runs one. -/
theorem perform_cases {m after : Machine} {i : Instruction} {transfer : Transfer}
    (h : m.perform i = .ok (after, transfer)) :
    (∀ op, m.admits i = true → i.opcode? ≠ some op) ∧ after = m ∧ transfer = .next ∨
      ∃ op, m.admits i = true ∧ i.opcode? = some op ∧ Executed m op i.operand after transfer := by
  unfold perform at h
  split at h
  next hadmits =>
    cases hop : i.opcode? with
    | some op =>
        rw [hop] at h
        exact .inr ⟨op, hadmits, rfl, executed_of_execute h⟩
    | none =>
        rw [hop] at h
        cases h
        exact .inl ⟨fun _ _ => nofun, rfl, rfl⟩
  next hpassed =>
    cases h
    exact .inl ⟨fun _ hadmits => absurd hadmits hpassed, rfl, rfl⟩

theorem stepped_of_step {m after : Machine} (h : m.step = .ok after) : Stepped m after := by
  unfold step at h
  split at h
  next => cases h
  next i hfetch =>
    have hcounter : m.counter < m.code.size := by
      obtain ⟨hlt, _⟩ := Array.getElem?_eq_some_iff.mp hfetch
      exact hlt
    split at h
    next => cases h
    next middle transfer hperform =>
      obtain ⟨hnone, rfl, rfl⟩ | ⟨op, hadmits, hop, hexecuted⟩ := perform_cases hperform
      · cases h
        refine .proceed hcounter (fun op operand hruns => ?_) (SameControl.refl middle)
        obtain ⟨i', hfetch', hadmits, hop, _⟩ := hruns
        obtain rfl : i = i' := Option.some.inj (hfetch.symm.trans hfetch')
        exact absurd hop (hnone op hadmits)
      · have hruns : m.Runs op i.operand := ⟨i, hfetch, hadmits, hop, rfl⟩
        cases hexecuted with
        | proceed hdata hsame =>
            cases h
            -- the operation left the counter to the transfer behind it
            rw [hsame.counter_eq]
            refine .proceed hcounter (fun op' operand' hruns' => ?_) hsame
            rw [← (hruns.unique hruns').1]
            exact hdata
        | halt hop => subst hop; cases h; exact .halt hruns
        | leave hop hcalls => subst hop; cases h; exact .leave hruns hcalls
        | ret hop hcalls =>
            subst hop
            obtain ⟨htarget, rfl⟩ := follow_jump h
            exact .ret hruns hcalls htarget
        | call hop hoperand hroom =>
            subst hop
            obtain ⟨htarget, rfl⟩ := follow_jump h
            exact .call (hoperand ▸ hruns) hroom htarget
        | jump hop hoperand =>
            subst hop
            obtain ⟨htarget, rfl⟩ := follow_jump h
            exact .jump (hoperand ▸ hruns) htarget

/-! ## How a step fails -/

/-- What a step that fails comes to. -/
inductive Failed (m : Machine) : Fault → Prop
  /-- There is no instruction at the counter. -/
  | ended (hcounter : m.code.size ≤ m.counter) : Failed m (m.fault .overrun)
  | refused {op : Opcode} {operand : Operand} {fault : Fault} (hruns : m.Runs op operand)
      (hexecute : m.execute op operand = .error fault) : Failed m fault
  /-- The instruction transfers control out of the program. -/
  | left {op : Opcode} {operand : Operand} {after : Machine} {target : Nat}
      (hruns : m.Runs op operand) (hexecuted : Executed m op operand after (.jump target))
      (htarget : m.code.size ≤ target) : Failed m (m.fault .overrun)

theorem Executed.fault_eq {m after : Machine} {op : Opcode} {operand : Operand}
    {transfer : Transfer} (h : Executed m op operand after transfer) (cause : FaultCause) :
    after.fault cause = m.fault cause := by
  cases h with
  | proceed _ hsame => rw [fault, hsame.name_eq, hsame.counter_eq, fault]
  | _ => rfl

theorem Executed.code_eq {m after : Machine} {op : Opcode} {operand : Operand}
    {transfer : Transfer} (h : Executed m op operand after transfer) : after.code = m.code := by
  cases h with
  | proceed _ hsame => exact hsame.code_eq
  | _ => rfl

theorem failed_of_step {m : Machine} {fault : Fault} (h : m.step = .error fault) :
    Failed m fault := by
  unfold step at h
  split at h
  next hfetch =>
    cases h
    exact .ended (Array.getElem?_eq_none_iff.mp hfetch)
  next i hfetch =>
    -- only an instruction that is executed can fail
    have hexecuted : m.admits i = true ∧ ∃ op, i.opcode? = some op ∧
        m.perform i = m.execute op i.operand := by
      by_cases hadmits : m.admits i = true
      · cases hop : i.opcode? with
        | some op => exact ⟨hadmits, op, rfl, by simp only [perform, hadmits, hop, if_true]⟩
        | none =>
            simp only [perform, hadmits, hop, if_true] at h
            cases h
      · simp only [perform, hadmits] at h
        cases h
    obtain ⟨hadmits, op, hop, hperform⟩ := hexecuted
    have hruns : m.Runs op i.operand := ⟨i, hfetch, hadmits, hop, rfl⟩
    rw [hperform] at h
    cases heffect : m.execute op i.operand with
    | error cause =>
        rw [heffect] at h
        cases h
        exact .refused hruns heffect
    | ok effect =>
        obtain ⟨after, transfer⟩ := effect
        rw [heffect] at h
        have hexecuted : Executed m op i.operand after transfer := executed_of_execute heffect
        cases transfer with
        | next => cases h
        | halt => cases h
        | jump target =>
            simp only [follow] at h
            split at h
            next => cases h
            next htarget =>
              cases h
              rw [hexecuted.fault_eq]
              rw [hexecuted.code_eq] at htarget
              exact .left hruns hexecuted (Nat.le_of_not_lt htarget)

end Machine

end TickMachine
