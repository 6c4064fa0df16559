import TickMachine.Proofs.Machine.Faults
import TickMachine.Proofs.Machine.Moves

/-! # What a step touches

An instruction names all that it can change. An operation on data writes at one place: a general
register, whose new content decides the condition, or the condition alone, or a memory cell. `Worked`
says so once for every operation, as `Executed` does for the control state; what a step touches is
read off both.
-/

namespace TickMachine

/-- The bits are no more than one condition bit. -/
def Condition.AtMostOne (bits : UInt8) : Prop :=
  bits = 0 ∨ bits = positive ∨ bits = zero ∨ bits = negative

theorem Condition.atMostOne_ofOrdering? (order : Option Ordering) :
    AtMostOne (ofOrdering? order) := by
  match order with
  | none => exact .inl rfl
  | some .gt => exact .inr (.inl rfl)
  | some .eq => exact .inr (.inr (.inl rfl))
  | some .lt => exact .inr (.inr (.inr rfl))

/-- What the condition register keeps of one condition bit is the bit. -/
theorem Condition.ofOrdering?_and_all (order : Option Ordering) :
    ofOrdering? order &&& all = ofOrdering? order := by
  match order with
  | none | some .gt | some .eq | some .lt => rfl

theorem registerCount_pos : 0 < registerCount :=
  Nat.succ_pos 7

/-- The register r0, in which most results end up. -/
def Register.result : Register :=
  ⟨0, registerCount_pos⟩

/-- The general register that an operand names, or the default if it names none. -/
def Operand.namedRegister? (default : Register) : Operand → Option Register
  | u8 index => if h : index.toNat < registerCount then some ⟨index.toNat, h⟩ else .none
  | _ => some default

namespace Opcode

/-- The operation reads registers as numbers, not as integers. -/
def onSingles : Opcode → Bool
  | loadFloat | mulFloat | incFloat | addFloat | subFloat | negFloat | cmpFloat => true
  | _ => false

/-- The operation compares two registers. -/
def compares : Opcode → Bool
  | cmpInt | cmpFloat => true
  | _ => false

/-- The operation changes no data, whatever becomes of control. -/
def leavesData : Opcode → Bool
  | nop | ret | halt | call | jump => true
  | _ => false

/-- The general register that an operation writes, if it writes one: r0, or the register that its
operand names, by default r0. -/
def written? (op : Opcode) (operand : Operand) : Option Register :=
  match op with
  | loadInt | loadFloat | get | load => some .result
  | mulInt | addInt | subInt | mulFloat | addFloat | subFloat => some .result
  | put | incInt | negInt | incFloat | negFloat => operand.namedRegister? .result
  | _ => none

/-- The condition that an operation sets where it writes the cell into a register. -/
def conditionOf (op : Opcode) (cell : Cell) : UInt8 :=
  if op.onSingles then Condition.ofSingle ⟨cell.toUInt32⟩
  else Condition.ofInt (signedWord cell.toUInt32)

theorem written?_of_leavesData {op : Opcode} (h : op.leavesData = true) (operand : Operand) :
    op.written? operand = none := by
  cases op with
  | nop | ret | halt | call | jump => rfl
  | _ => cases h

theorem written?_of_compares {op : Opcode} (h : op.compares = true) (operand : Operand) :
    op.written? operand = none := by
  cases op with
  | cmpInt | cmpFloat => rfl
  | _ => cases h

theorem compares_of_leavesData {op : Opcode} (h : op.leavesData = true) : op.compares = false := by
  cases op with
  | cmpInt | cmpFloat => cases h
  | _ => rfl

theorem atMostOne_conditionOf (op : Opcode) (cell : Cell) :
    Condition.AtMostOne (op.conditionOf cell) := by
  unfold conditionOf
  split
  · exact Condition.atMostOne_ofOrdering? _
  · exact Condition.atMostOne_ofOrdering? _

end Opcode

namespace Machine

variable {m after : Machine} {op : Opcode} {operand : Operand}

/-- The order of r0 and another register, as the operation compares them. -/
def order? (m : Machine) (op : Opcode) (r : Register) : Option Ordering :=
  if op.onSingles then (m.single .result).compare? (m.single r)
  else some (compare (signedWord (m.word .result)) (signedWord (m.word r)))

/-! ## What an operation does to the data -/

/-- The part of a machine that operations on data change. -/
structure Data where
  registers : Vector Cell registerCount
  condition : UInt8
  memory : Vector Cell memorySize

def data (m : Machine) : Data :=
  ⟨m.registers, m.condition, m.memory⟩

/-- What executing an operation does to the data when it does not fail. -/
inductive Worked (m : Machine) (op : Opcode) (operand : Operand) (after : Machine) : Prop
  | idle (hop : op.leavesData = true) (hdata : after.data = m.data)
  | written {r : Register} {cell : Cell} (hwritten : op.written? operand = some r)
      (hdata : after.data = ⟨m.registers.set r cell r.isLt, op.conditionOf cell, m.memory⟩)
  | compared {r : Register} (hop : op.compares = true) (hnamed : operand.namedRegister? 1 = some r)
      (hdata : after.data = ⟨m.registers, Condition.ofOrdering? (m.order? op r), m.memory⟩)
  | widened {mask : UInt8} (hop : op = .or) (hoperand : operand = .u8 mask)
      (hdata : after.data = ⟨m.registers, (m.condition ||| mask) &&& Condition.all, m.memory⟩)
  | narrowed {mask : UInt8} (hop : op = .and) (hoperand : operand = .u8 mask)
      (hdata : after.data = ⟨m.registers, (m.condition &&& mask) &&& Condition.all, m.memory⟩)
  | stored {address : UInt16} (hop : op = .store) (hoperand : operand = .u16 address)
      (haddress : address.toNat < memorySize)
      (hdata : after.data = ⟨m.registers, m.condition, m.memory.set address.toNat (m.cell 0)⟩)

theorem setCell_data (m : Machine) (r : Register) (cell : Cell) :
    (m.setCell r cell).data =
      ⟨m.registers.set r cell r.isLt, Condition.ofInt (signedWord cell.toUInt32), m.memory⟩ := by
  simp only [setCell, setCondition, data, Condition.ofInt, Condition.ofOrdering?_and_all]

theorem setWord_data (m : Machine) (r : Register) (value : UInt32) :
    (m.setWord r value).data =
      ⟨m.registers.set r value.toUInt64 r.isLt, Condition.ofInt (signedWord value.toUInt64.toUInt32),
        m.memory⟩ := by
  simp only [setWord, setCondition, data, Condition.ofInt, Condition.ofOrdering?_and_all,
    UInt32.toUInt32_toUInt64]

theorem setSingle_data (m : Machine) (r : Register) (value : Single) :
    (m.setSingle r value).data =
      ⟨m.registers.set r value.bits.toUInt64 r.isLt,
        Condition.ofSingle ⟨value.bits.toUInt64.toUInt32⟩, m.memory⟩ := by
  simp only [setSingle, setCondition, data, Condition.ofSingle, Condition.ofOrdering?_and_all,
    UInt32.toUInt32_toUInt64]

theorem setCellAt_data {address : Nat} {cell : Cell} (h : m.setCellAt address cell = .ok after) :
    ∃ haddress : address < memorySize,
      after.data = ⟨m.registers, m.condition, m.memory.set address cell⟩ := by
  unfold setCellAt at h
  split at h
  next haddress =>
    cases h
    exact ⟨haddress, rfl⟩
  next => cases h

/-- The register an operation works with is the one that its operand names. -/
theorem namedRegister?_of_operandRegister {default : Option Register} {r : Register}
    (h : m.operandRegister operand default = .ok r) {d : Register} (hd : ∀ d' ∈ default, d' = d) :
    operand.namedRegister? d = some r := by
  cases operand with
  | u8 index =>
      rw [operandRegister_u8] at h
      unfold register? at h
      split at h
      next hindex =>
        cases h
        exact dif_pos hindex
      next => cases h
  | none =>
      cases default with
      | none => cases h
      | some d' =>
          cases h
          rw [hd r rfl]
          rfl
  | _ => cases default <;> cases h

/-- Where an operation on its operand register succeeds, it used the register that is named. -/
theorem exists_namedRegister {default : Option Register} {use : Register → Machine}
    {transfer : Transfer} (h : (match m.operandRegister operand default with
      | .error fault => .error fault
      | .ok r => (use r).proceed : Effect) = .ok (after, transfer))
    {d : Register} (hd : ∀ d' ∈ default, d' = d) :
    ∃ r, operand.namedRegister? d = some r ∧ after = use r := by
  cases hregister : m.operandRegister operand default with
  | error fault =>
      rw [hregister] at h
      cases h
  | ok r =>
      rw [hregister] at h
      cases h
      exact ⟨r, namedRegister?_of_operandRegister hregister hd, rfl⟩

theorem worked_of_execute {transfer : Transfer}
    (h : m.execute op operand = .ok (after, transfer)) : Worked m op operand after := by
  cases op with
  | nop | halt =>
      cases h
      exact .idle rfl rfl
  | ret =>
      simp only [execute] at h
      split at h
      next => cases h; exact .idle rfl rfl
      next => cases h; exact .idle rfl rfl
  | call =>
      cases operand with
      | u32 target =>
          simp only [execute] at h
          split at h
          next => cases h
          next => cases h; exact .idle rfl rfl
      | _ => cases h
  | jump =>
      cases operand with
      | u32 target => cases h; exact .idle rfl rfl
      | _ => cases h
  | or =>
      cases operand with
      | u8 mask => cases h; exact .widened rfl rfl rfl
      | _ => cases h
  | and =>
      cases operand with
      | u8 mask => cases h; exact .narrowed rfl rfl rfl
      | _ => cases h
  | loadInt =>
      cases operand with
      | i32 value => cases h; exact .written rfl (m.setWord_data _ _)
      | _ => cases h
  | loadFloat =>
      cases operand with
      | f32 value => cases h; exact .written rfl (m.setSingle_data _ _)
      | _ => cases h
  | get =>
      obtain ⟨r, -, rfl⟩ := exists_namedRegister (d := 0) h (by simp)
      exact .written rfl (m.setCell_data _ _)
  | put =>
      obtain ⟨r, hnamed, rfl⟩ := exists_namedRegister (d := 0) h (by simp)
      exact .written hnamed (m.setCell_data _ _)
  | load =>
      cases operand with
      | u16 address =>
          simp only [execute] at h
          split at h
          next => cases h
          next => cases h; exact .written rfl (m.setCell_data _ _)
      | _ => cases h
  | store =>
      cases operand with
      | u16 address =>
          simp only [execute] at h
          split at h
          next => cases h
          next hstore =>
            cases h
            obtain ⟨haddress, hdata⟩ := setCellAt_data hstore
            exact .stored rfl rfl haddress hdata
      | _ => cases h
  | mulInt | addInt | subInt =>
      obtain ⟨r, -, rfl⟩ := exists_namedRegister (d := 1) h fun _ hd => (Option.some.inj hd).symm
      exact .written rfl (m.setWord_data _ _)
  | incInt | negInt =>
      obtain ⟨r, hnamed, rfl⟩ :=
        exists_namedRegister (d := 0) h fun _ hd => (Option.some.inj hd).symm
      exact .written hnamed (m.setWord_data _ _)
  | mulFloat | addFloat | subFloat =>
      obtain ⟨r, -, rfl⟩ := exists_namedRegister (d := 1) h fun _ hd => (Option.some.inj hd).symm
      exact .written rfl (m.setSingle_data _ _)
  | incFloat | negFloat =>
      obtain ⟨r, hnamed, rfl⟩ :=
        exists_namedRegister (d := 0) h fun _ hd => (Option.some.inj hd).symm
      exact .written hnamed (m.setSingle_data _ _)
  | cmpInt | cmpFloat =>
      obtain ⟨r, hnamed, rfl⟩ :=
        exists_namedRegister (d := 1) h fun _ hd => (Option.some.inj hd).symm
      refine .compared rfl hnamed ?_
      simp only [setCondition, data, Condition.ofOrdering?_and_all]
      rfl

/-! ## What a step does -/

/-- Handing on control changes no data and no calls. -/
theorem follow_keeps {transfer : Transfer} (h : m.follow transfer = .ok after) :
    after.data = m.data ∧ after.calls = m.calls := by
  cases transfer with
  | next | halt =>
      cases h
      exact ⟨rfl, rfl⟩
  | jump target =>
      obtain ⟨-, rfl⟩ := follow_jump h
      exact ⟨rfl, rfl⟩

theorem Worked.of_data_eq {middle : Machine} (h : Worked m op operand middle)
    (hdata : after.data = middle.data) : Worked m op operand after := by
  cases h with
  | idle hop h => exact .idle hop (hdata.trans h)
  | written hwritten h => exact .written hwritten (hdata.trans h)
  | compared hop hnamed h => exact .compared hop hnamed (hdata.trans h)
  | widened hop hoperand h => exact .widened hop hoperand (hdata.trans h)
  | narrowed hop hoperand h => exact .narrowed hop hoperand (hdata.trans h)
  | stored hop hoperand haddress h => exact .stored hop hoperand haddress (hdata.trans h)

/-- A step that succeeds with an operation to execute is its execution and the transfer behind it. -/
theorem Runs.exists_execute (hruns : m.Runs op operand) (h : m.step = .ok after) :
    ∃ middle transfer, m.execute op operand = .ok (middle, transfer) ∧
      middle.follow transfer = .ok after := by
  cases hexecute : m.execute op operand with
  | error fault =>
      rw [hruns.step_of_error hexecute] at h
      cases h
  | ok effect =>
      rw [hruns.step_of_ok hexecute] at h
      exact ⟨effect.1, effect.2, rfl, h⟩

theorem Runs.worked (hruns : m.Runs op operand) (h : m.step = .ok after) :
    Worked m op operand after := by
  obtain ⟨middle, transfer, hexecute, hfollow⟩ := hruns.exists_execute h
  exact (worked_of_execute hexecute).of_data_eq (follow_keeps hfollow).1

/-- An instruction that is passed over, or whose code is unknown, moves the counter and no more. -/
theorem step_of_passed {i : Instruction} (hfetch : m.code[m.counter]? = some i)
    (hpassed : m.admits i = false ∨ i.opcode? = none) :
    m.step = .ok { m with counter := m.counter + 1 } := by
  have hperform : m.perform i = m.proceed := by
    unfold perform
    rcases hpassed with hpassed | hunknown
    · rw [if_neg (by simp [hpassed])]
    · rw [hunknown, ite_self]
  simp only [step, hfetch, hperform]
  rfl

/-- A step that succeeds executes an operation, or its instruction is passed over. -/
theorem runs_or_passed (h : m.step = .ok after) :
    (∃ op operand, m.Runs op operand) ∨
      after = { m with counter := m.counter + 1 } := by
  cases hfetch : m.code[m.counter]? with
  | none =>
      rw [step, hfetch] at h
      cases h
  | some i =>
      by_cases hadmits : m.admits i = true
      · cases hop : i.opcode? with
        | some op => exact .inl ⟨op, i.operand, i, hfetch, hadmits, hop, rfl⟩
        | none =>
            rw [step_of_passed hfetch (.inr hop)] at h
            exact .inr (Except.ok.inj h).symm
      · rw [step_of_passed hfetch (.inl (Bool.eq_false_iff.mpr hadmits))] at h
        exact .inr (Except.ok.inj h).symm

/-! ## The frame of a step -/

/-- The calls behind an operation: `call` adds the index behind it, `return` takes one away. -/
def callsAfter (m : Machine) : Opcode → List Nat
  | .call => (m.counter + 1) :: m.calls
  | .ret => m.calls.tail
  | _ => m.calls

/-- The instruction at the counter ends the program. -/
def Ends (m : Machine) : Prop :=
  ∃ operand, m.Runs .halt operand ∨ m.Runs .ret operand ∧ m.calls = []

/-- What became of a machine in one step is what its instruction names. -/
structure Touched (m after : Machine) : Prop where
  /-- What was loaded stays, and a step counts no tick. -/
  program : after.id = m.id ∧ after.name = m.name ∧ after.code = m.code ∧
    after.callLimit = m.callLimit ∧ after.ticks = m.ticks
  /-- An instruction that is passed over, or whose code is unknown, only moves the counter. -/
  passed : ∀ i, m.code[m.counter]? = some i → m.admits i = false ∨ i.opcode? = none →
    after = { m with counter := m.counter + 1 }
  /-- `store` writes all of r0 to its address. -/
  stored : ∀ operand, m.Runs .store operand →
    ∃ (address : UInt16) (haddress : address.toNat < memorySize), operand = .u16 address ∧
      after.memory = m.memory.set address.toNat (m.cell 0)
  memory : (∀ operand, ¬ m.Runs .store operand) → after.memory = m.memory
  /-- No general register changes but the one that the operation writes. -/
  registers : ∀ op operand, m.Runs op operand → ∀ r, op.written? operand ≠ some r →
    after.cell r = m.cell r
  /-- What is written into a register decides the condition. -/
  written : ∀ op operand r, m.Runs op operand → op.written? operand = some r →
    after.condition = op.conditionOf (after.cell r)
  /-- The order of the compared registers decides the condition. -/
  compared : ∀ op operand, m.Runs op operand → op.compares = true →
    ∃ r, operand.namedRegister? 1 = some r ∧
      after.condition = Condition.ofOrdering? (m.order? op r)
  /-- Either way there is at most one condition bit. -/
  single : ∀ op operand, m.Runs op operand →
    (op.written? operand).isSome = true ∨ op.compares = true →
      Condition.AtMostOne after.condition
  widened : ∀ operand, m.Runs .or operand →
    ∃ mask, operand = .u8 mask ∧ after.condition = (m.condition ||| mask) &&& 7
  narrowed : ∀ operand, m.Runs .and operand →
    ∃ mask, operand = .u8 mask ∧ after.condition = (m.condition &&& mask) &&& 7
  condition : ∀ op operand, m.Runs op operand → op.written? operand = none →
    op.compares = false → op ≠ .or → op ≠ .and → after.condition = m.condition
  calls : ∀ op operand, m.Runs op operand → after.calls = m.callsAfter op
  /-- The end of the program changes the phase and nothing else. -/
  ended : m.Ends → after = { m with phase := .halted }
  phase : ¬ m.Ends → after.phase = m.phase

/-- A machine whose data are given has them in its fields. -/
theorem eq_of_data {registers : Vector Cell registerCount} {condition : UInt8}
    {memory : Vector Cell memorySize} (h : after.data = ⟨registers, condition, memory⟩) :
    after.registers = registers ∧ after.condition = condition ∧ after.memory = memory :=
  Data.mk.inj h

theorem cell_of_registers {r r' : Register} {cell : Cell}
    (h : after.registers = m.registers.set r cell r.isLt) :
    after.cell r' = if r = r' then cell else m.cell r' := by
  unfold Machine.cell
  rw [h]
  by_cases heq : r = r'
  · subst heq
    simp
  · have hne : (r : Nat) ≠ r' := fun h => heq (Fin.ext h)
    simp [heq, Vector.getElem_set_ne, hne]

namespace Worked

variable (h : Worked m op operand after)

include h

/-- Only `store` writes a memory cell. -/
theorem memory_eq (hop : op ≠ .store) : after.memory = m.memory := by
  cases h with
  | stored hstore => exact absurd hstore hop
  | idle _ hdata | written _ hdata | compared _ _ hdata | widened _ _ hdata | narrowed _ _ hdata =>
      exact (eq_of_data hdata).2.2

theorem memory_store (hop : op = .store) :
    ∃ (address : UInt16) (haddress : address.toNat < memorySize), operand = .u16 address ∧
      after.memory = m.memory.set address.toNat (m.cell 0) := by
  subst hop
  cases h with
  | stored _ hoperand haddress hdata => exact ⟨_, haddress, hoperand, (eq_of_data hdata).2.2⟩
  | idle hop | written hop | compared hop | widened hop | narrowed hop => cases hop

theorem cell_eq {r : Register} (hr : op.written? operand ≠ some r) : after.cell r = m.cell r := by
  cases h with
  | written hwritten hdata =>
      rw [cell_of_registers (eq_of_data hdata).1, if_neg]
      rintro rfl
      exact hr hwritten
  | idle _ hdata | compared _ _ hdata | widened _ _ hdata | narrowed _ _ hdata
  | stored _ _ _ hdata =>
      simp only [Machine.cell, (eq_of_data hdata).1]

/-- An operation that writes a register leaves its data no other way. -/
theorem condition_written {r : Register} (hr : op.written? operand = some r) :
    after.condition = op.conditionOf (after.cell r) := by
  cases h with
  | written hwritten hdata =>
      obtain rfl := Option.some.inj (hwritten.symm.trans hr)
      rw [cell_of_registers (eq_of_data hdata).1, if_pos rfl, (eq_of_data hdata).2.1]
  | idle hop => exact absurd (hr.symm.trans (Opcode.written?_of_leavesData hop operand)) nofun
  | compared hop => exact absurd (hr.symm.trans (Opcode.written?_of_compares hop operand)) nofun
  | widened hop | narrowed hop | stored hop =>
      subst hop
      cases hr

theorem condition_compared (hop : op.compares = true) :
    ∃ r, operand.namedRegister? 1 = some r ∧
      after.condition = Condition.ofOrdering? (m.order? op r) := by
  cases h with
  | compared _ hnamed hdata => exact ⟨_, hnamed, (eq_of_data hdata).2.1⟩
  | idle hidle => exact absurd (hop.symm.trans (Opcode.compares_of_leavesData hidle)) nofun
  | written hwritten =>
      exact absurd (hwritten.symm.trans (Opcode.written?_of_compares hop operand)) nofun
  | widened hop' | narrowed hop' | stored hop' =>
      subst hop'
      cases hop

theorem atMostOne (hop : (op.written? operand).isSome = true ∨ op.compares = true) :
    Condition.AtMostOne after.condition := by
  rcases hop with hwritten | hcompares
  · obtain ⟨r, hr⟩ := Option.isSome_iff_exists.mp hwritten
    rw [h.condition_written hr]
    exact op.atMostOne_conditionOf _
  · obtain ⟨r, -, hcondition⟩ := h.condition_compared hcompares
    rw [hcondition]
    exact Condition.atMostOne_ofOrdering? _

theorem condition_or (hop : op = .or) :
    ∃ mask, operand = .u8 mask ∧ after.condition = (m.condition ||| mask) &&& 7 := by
  subst hop
  cases h with
  | widened _ hoperand hdata => exact ⟨_, hoperand, (eq_of_data hdata).2.1⟩
  | idle hop | written hop | compared hop | narrowed hop | stored hop => cases hop

theorem condition_and (hop : op = .and) :
    ∃ mask, operand = .u8 mask ∧ after.condition = (m.condition &&& mask) &&& 7 := by
  subst hop
  cases h with
  | narrowed _ hoperand hdata => exact ⟨_, hoperand, (eq_of_data hdata).2.1⟩
  | idle hop | written hop | compared hop | widened hop | stored hop => cases hop

theorem condition_eq (hwritten : op.written? operand = none) (hcompares : op.compares = false)
    (hor : op ≠ .or) (hand : op ≠ .and) : after.condition = m.condition := by
  cases h with
  | idle _ hdata | stored _ _ _ hdata => exact (eq_of_data hdata).2.1
  | written h' => exact absurd (hwritten.symm.trans h') nofun
  | compared h' => exact absurd (hcompares.symm.trans h') nofun
  | widened hop => exact absurd hop hor
  | narrowed hop => exact absurd hop hand

end Worked

/-- An operation that transfers no control leaves the calls as they are. -/
theorem callsAfter_of_data (hop : op.transfersControl = false) : m.callsAfter op = m.calls := by
  cases op with
  | call | ret => cases hop
  | _ => rfl

theorem Runs.calls_eq (hruns : m.Runs op operand) (h : m.step = .ok after) :
    after.calls = m.callsAfter op := by
  obtain ⟨middle, transfer, hexecute, hfollow⟩ := hruns.exists_execute h
  rw [(follow_keeps hfollow).2]
  cases executed_of_execute hexecute with
  | proceed hop hsame => rw [callsAfter_of_data hop, hsame.calls_eq]
  | halt hop => rw [hop]; rfl
  | leave hop hcalls => rw [hop, callsAfter, hcalls]; rfl
  | ret hop hcalls => rw [hop, callsAfter, hcalls]; rfl
  | call hop => rw [hop]; rfl
  | jump hop => rw [hop]; rfl

theorem Ends.step_eq (hends : m.Ends) (h : m.step = .ok after) :
    after = { m with phase := .halted } := by
  obtain ⟨operand, hruns⟩ := hends
  have hexecute : ∃ op, m.Runs op operand ∧ m.execute op operand = .ok (m, .halt) := by
    rcases hruns with hruns | ⟨hruns, hcalls⟩
    · exact ⟨.halt, hruns, rfl⟩
    · exact ⟨.ret, hruns, by simp only [execute, hcalls]⟩
  obtain ⟨op, hruns, hexecute⟩ := hexecute
  rw [hruns.step_of_ok hexecute] at h
  exact (Except.ok.inj h).symm

theorem phase_eq_of_not_ends (hends : ¬ m.Ends) (h : m.step = .ok after) :
    after.phase = m.phase := by
  cases stepped_of_step h with
  | proceed _ _ hsame => exact hsame.phase_eq
  | halt hruns => exact absurd ⟨_, .inl hruns⟩ hends
  | leave hruns hcalls => exact absurd ⟨_, .inr ⟨hruns, hcalls⟩⟩ hends
  | ret | call | jump => rfl

/-- A step that succeeds touches nothing but what its instruction names, whatever the instruction
and whatever machine executes it. -/
theorem step_touches (h : m.step = .ok after) : m.Touched after where
  program := by
    have hsame := step_sameProgram h
    exact ⟨hsame.id, hsame.name, hsame.code, hsame.callLimit, (step_phase h).1⟩
  passed i hfetch hpassed := by
    rw [step_of_passed hfetch hpassed] at h
    exact (Except.ok.inj h).symm
  stored _ hruns := (hruns.worked h).memory_store rfl
  memory hstore := by
    obtain ⟨op, operand, hruns⟩ | rfl := runs_or_passed h
    · exact (hruns.worked h).memory_eq fun hop => hstore operand (hop ▸ hruns)
    · rfl
  registers _ _ hruns _ hr := (hruns.worked h).cell_eq hr
  written _ _ _ hruns hr := (hruns.worked h).condition_written hr
  compared _ _ hruns hop := (hruns.worked h).condition_compared hop
  single _ _ hruns hop := (hruns.worked h).atMostOne hop
  widened _ hruns := (hruns.worked h).condition_or rfl
  narrowed _ hruns := (hruns.worked h).condition_and rfl
  condition _ _ hruns := (hruns.worked h).condition_eq
  calls _ _ hruns := hruns.calls_eq h
  ended hends := hends.step_eq h
  phase hends := phase_eq_of_not_ends hends h

/-- A machine in front of a `store` to the last cell there is, whose predicate is met. The upper half
of r0 is in use. -/
def storing : Machine :=
  { fresh 0 .empty #[⟨Opcode.store.code, Condition.zero, .u16 16383⟩] 0 with
    registers := (Vector.replicate registerCount 0).set 0 9223372036854775813
    condition := Condition.zero }

/-- All of r0 is written, and neither a register nor the condition changes. -/
theorem step_touches_store :
    ∃ after, storing.step = .ok after ∧ storing.Touched after ∧
      after.memory = storing.memory.set 16383 9223372036854775813 ∧
      (∀ r, after.cell r = storing.cell r) ∧ after.condition = Condition.zero := by
  have hruns : storing.Runs .store (.u16 16383) := ⟨_, rfl, by decide, rfl, rfl⟩
  obtain ⟨after, hstep⟩ : ∃ after, storing.step = .ok after := ⟨_, by rfl⟩
  have htouched : storing.Touched after := step_touches hstep
  obtain ⟨address, haddress, hoperand, hmemory⟩ := htouched.stored _ hruns
  cases hoperand
  exact ⟨after, hstep, htouched, hmemory, fun r => htouched.registers _ _ hruns r nofun,
    htouched.condition _ _ hruns rfl rfl nofun nofun⟩

end Machine

end TickMachine
