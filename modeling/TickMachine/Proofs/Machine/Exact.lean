import Mathlib.Data.Int.ModEq
import Mathlib.Logic.Function.Basic
import TickMachine.Proofs.Machine.Frame
import TickMachine.Proofs.Machine.Pace
import TickMachine.Proofs.Machine.Typed

/-! # Integer programs

A straight line of instructions on integers and whole cells computes what a machine over unbounded
integers computes, up to multiples of 2 ^ 32. Every instruction of such a program writes one place,
a register or a memory cell; the cell it writes is congruent to the integer that the exact machine
writes there if the places it reads are congruent. So one step keeps the congruence of all places,
and a run does by induction on its length.
-/

namespace TickMachine

/-! ## Instructions on integers -/

theorem one_lt_registerCount : 1 < registerCount :=
  Nat.succ_lt_succ (Nat.succ_pos 6)

/-- The register r1, the second one of an operation on two registers if no other is named. -/
def Register.other : Register :=
  ⟨1, one_lt_registerCount⟩

/-- What an instruction can write: a general register or a memory cell. -/
inductive Place
  | register (r : Register)
  | memory (address : Fin memorySize)
deriving DecidableEq

/-- An instruction of an integer program. The operand register may be left out where the operation
has a default for it. -/
inductive IntegerInstruction
  | loadInt (value : Int32)
  | get (r : Register)
  | put (r : Register)
  | load (address : Fin memorySize)
  | store (address : Fin memorySize)
  | mul (r : Option Register)
  | inc (r : Option Register)
  | add (r : Option Register)
  | sub (r : Option Register)
  | neg (r : Option Register)

namespace IntegerInstruction

def opcode : IntegerInstruction → Opcode
  | loadInt _ => .loadInt
  | get _ => .get
  | put _ => .put
  | load _ => .load
  | store _ => .store
  | mul _ => .mulInt
  | inc _ => .incInt
  | add _ => .addInt
  | sub _ => .subInt
  | neg _ => .negInt

/-- The operand that names a register. -/
def registerOperand (r : Register) : Operand :=
  .u8 (.ofNat r)

def addressOperand (address : Fin memorySize) : Operand :=
  .u16 (.ofNat address)

theorem toNat_ofNat_register (r : Register) : (UInt8.ofNat r).toNat = r :=
  UInt8.toNat_ofNat_of_lt (Nat.lt_trans r.isLt (by decide))

theorem toNat_ofNat_address (address : Fin memorySize) : (UInt16.ofNat address).toNat = address :=
  UInt16.toNat_ofNat_of_lt (Nat.lt_trans address.isLt (by decide))

def operand : IntegerInstruction → Operand
  | loadInt value => .i32 value
  | get r | put r => registerOperand r
  | load address | store address => addressOperand address
  | mul r | inc r | add r | sub r | neg r => (r.map registerOperand).getD .none

/-- The instruction as it stands in a program, without a predicate. -/
def instruction (x : IntegerInstruction) : Instruction :=
  ⟨x.opcode.code, 0, x.operand⟩

/-- The place that the instruction writes. -/
def place : IntegerInstruction → Place
  | loadInt _ | get _ | load _ | mul _ | add _ | sub _ => .register .result
  | put r => .register r
  | inc r | neg r => .register (r.getD .result)
  | store address => .memory address

/-- The instruction computes what it writes, and does not copy a cell. -/
def computes : IntegerInstruction → Bool
  | get _ | put _ | load _ | store _ => false
  | _ => true

end IntegerInstruction

/-- The operations of integer programs. -/
def Opcode.integer : List Opcode :=
  [loadInt, get, put, load, store, mulInt, incInt, addInt, subInt, negInt]

/-- The instruction always runs and has an operation on integers with a valid operand. -/
structure Instruction.Integral (i : Instruction) : Prop where
  unconditional : i.flags = 0
  operation : ∃ op ∈ Opcode.integer, i.opcode? = some op ∧ op.operandKind.Fits i.operand
  address : ∀ address, i.operand = .u16 address → address.toNat < memorySize

/-! ## The exact machine -/

/-- The state of a machine over unbounded integers, with an integer in every place. -/
abbrev IntegerState := Place → Int

namespace IntegerInstruction

/-- What the instruction writes, computed exactly. -/
def value (state : IntegerState) : IntegerInstruction → Int
  | loadInt value => value.toInt
  | get r => state (.register r)
  | put _ | store _ => state (.register .result)
  | load address => state (.memory address)
  | mul r => state (.register .result) * state (.register (r.getD .other))
  | inc r => state (.register (r.getD .result)) + 1
  | add r => state (.register .result) + state (.register (r.getD .other))
  | sub r => state (.register .result) - state (.register (r.getD .other))
  | neg r => - state (.register (r.getD .result))

/-- The state with what the instruction writes in its place. -/
def execute (state : IntegerState) (x : IntegerInstruction) : IntegerState :=
  Function.update state x.place (x.value state)

/-- The state behind a list of instructions. -/
def executeAll (state : IntegerState) (program : List IntegerInstruction) : IntegerState :=
  program.foldl execute state

/-- The last of the instructions that writes the place. -/
def lastWriter? (executed : List IntegerInstruction) (p : Place) : Option IntegerInstruction :=
  executed.reverse.find? fun x => x.place = p

theorem executeAll_concat (state : IntegerState) (program : List IntegerInstruction)
    (x : IntegerInstruction) :
    executeAll state (program ++ [x]) = execute (executeAll state program) x := by
  simp only [executeAll, List.foldl_append, List.foldl_cons, List.foldl_nil]

theorem lastWriter?_concat (executed : List IntegerInstruction) (x : IntegerInstruction)
    (p : Place) :
    lastWriter? (executed ++ [x]) p = if x.place = p then some x else lastWriter? executed p := by
  unfold lastWriter?
  rw [List.reverse_concat, List.find?_cons]
  by_cases h : x.place = p
  · simp [h]
  · simp [h]

end IntegerInstruction

/-- The condition bit of the sign of an integer. -/
def Condition.ofSign (n : Int) : UInt8 :=
  if 0 < n then positive else if n = 0 then zero else negative

theorem Condition.ofInt_eq_ofSign (n : Int) : ofInt n = ofSign n := by
  unfold ofInt ofSign
  rcases lt_trichotomy n 0 with h | h | h
  · rw [compare_lt_iff_lt.mpr h, if_neg h.not_gt, if_neg h.ne]
    rfl
  · rw [compare_eq_iff_eq.mpr h, if_neg h.not_gt, if_pos h]
    rfl
  · rw [compare_gt_iff_gt.mpr h, if_pos h]
    rfl

/-- A word read as a signed integer is its balanced remainder. -/
theorem signedWord_eq_bmod (word : UInt32) : signedWord word = (word.toNat : Int).bmod (2 ^ 32) :=
  BitVec.toInt_eq_toNat_bmod word.toBitVec

namespace Machine

variable {m after : Machine} {x : IntegerInstruction}

/-- The cell in a place. -/
def content (m : Machine) : Place → Cell
  | .register r => m.cell r
  | .memory address => m.memory[address]

/-- Every cell is congruent to the integer in its place. -/
def Congruent (m : Machine) (state : IntegerState) : Prop :=
  ∀ p, ((m.content p).toNat : Int) ≡ state p [ZMOD 2 ^ 32]

/-! ## What an instruction writes -/

/-- The cell that the instruction writes. -/
def cellOf (m : Machine) : IntegerInstruction → Cell
  | .loadInt value => value.toUInt32.toUInt64
  | .get r => m.cell r
  | .put _ | .store _ => m.cell .result
  | .load address => m.memory[address]
  | .mul r => (m.word .result * m.word (r.getD .other)).toUInt64
  | .inc r => (m.word (r.getD .result) + 1).toUInt64
  | .add r => (m.word .result + m.word (r.getD .other)).toUInt64
  | .sub r => (m.word .result - m.word (r.getD .other)).toUInt64
  | .neg r => (- m.word (r.getD .result)).toUInt64

/-- The data with a cell in one place. A register that is written decides the condition. -/
def dataWith (m : Machine) (p : Place) (cell : Cell) : Data :=
  match p with
  | .register r =>
    ⟨m.registers.set r cell r.isLt, Condition.ofInt (signedWord cell.toUInt32), m.memory⟩
  | .memory address => ⟨m.registers, m.condition, m.memory.set address cell address.isLt⟩

theorem operandRegister_registerOperand (m : Machine) (r : Register) (default : Option Register) :
    m.operandRegister (IntegerInstruction.registerOperand r) default = .ok r := by
  rw [IntegerInstruction.registerOperand, operandRegister_u8,
    IntegerInstruction.toNat_ofNat_register]
  exact dif_pos r.isLt

theorem operandRegister_getD (m : Machine) (r : Option Register) (default : Register) :
    m.operandRegister ((r.map IntegerInstruction.registerOperand).getD .none) (some default) =
      .ok (r.getD default) := by
  cases r with
  | none => rfl
  | some r => exact m.operandRegister_registerOperand r _

/-- An instruction of an integer program is executed and writes its cell to its place. -/
theorem exists_execute_integer (m : Machine) (x : IntegerInstruction) :
    ∃ after, m.execute x.opcode x.operand = .ok (after, .next) ∧
      after.data = m.dataWith x.place (m.cellOf x) := by
  cases x with
  | loadInt value => exact ⟨_, rfl, m.setWord_data _ _⟩
  | get r =>
      refine ⟨_, ?_, m.setCell_data 0 (m.cell r)⟩
      simp only [execute, IntegerInstruction.opcode, IntegerInstruction.operand,
        operandRegister_registerOperand, proceed]
  | put r =>
      refine ⟨_, ?_, m.setCell_data r (m.cell 0)⟩
      simp only [execute, IntegerInstruction.opcode, IntegerInstruction.operand,
        operandRegister_registerOperand, proceed]
  | load address =>
      refine ⟨_, ?_, m.setCell_data 0 m.memory[address]⟩
      simp only [execute, IntegerInstruction.opcode, IntegerInstruction.operand,
        IntegerInstruction.addressOperand, IntegerInstruction.toNat_ofNat_address, cellAt, proceed]
      rw [Vector.getElem?_eq_getElem address.isLt]
      rfl
  | store address =>
      refine ⟨{ m with memory := m.memory.set address (m.cell 0) address.isLt }, ?_, rfl⟩
      simp only [execute, IntegerInstruction.opcode, IntegerInstruction.operand,
        IntegerInstruction.addressOperand, IntegerInstruction.toNat_ofNat_address, setCellAt,
        address.isLt, dif_pos, proceed]
  | mul r | add r | sub r =>
      refine ⟨_, ?_, m.setWord_data 0 _⟩
      simp only [execute, IntegerInstruction.opcode, IntegerInstruction.operand, binaryInt,
        operandRegister_getD, proceed]
      rfl
  | inc r | neg r =>
      refine ⟨_, ?_, m.setWord_data (r.getD 0) _⟩
      simp only [execute, IntegerInstruction.opcode, IntegerInstruction.operand, unaryInt,
        operandRegister_getD, proceed]
      rfl

/-- What a step with the instruction comes to. -/
structure Wrote (m : Machine) (x : IntegerInstruction) (after : Machine) : Prop where
  content : after.content = Function.update m.content x.place (m.cellOf x)
  condition : ∀ r, x.place = .register r →
    after.condition = Condition.ofInt (signedWord (after.word r))
  counter : after.counter = m.counter + 1
  code : after.code = m.code
  phase : after.phase = m.phase

theorem content_of_data {p : Place} {cell : Cell} (h : after.data = m.dataWith p cell) :
    after.content = Function.update m.content p cell := by
  funext q
  rw [Function.update_apply]
  cases p with
  | register r =>
      obtain ⟨hregisters, -, hmemory⟩ := eq_of_data h
      cases q with
      | register r' =>
          simp only [content, cell_of_registers hregisters, Place.register.injEq, eq_comm]
      | memory address => simp [content, hmemory]
  | memory address =>
      obtain ⟨hregisters, -, hmemory⟩ := eq_of_data h
      cases q with
      | register r => simp [content, Machine.cell, hregisters]
      | memory address' =>
          simp only [content, hmemory, Place.memory.injEq, Fin.getElem_fin, Fin.ext_iff]
          rw [Vector.getElem_set]
          simp only [eq_comm]

theorem runs_of_instruction (hfetch : m.code[m.counter]? = some x.instruction) :
    m.Runs x.opcode x.operand :=
  ⟨x.instruction, hfetch, by simp [admits, IntegerInstruction.instruction],
    Opcode.ofByte?_code _, rfl⟩

/-- An instruction of an integer program at the counter is executed in one step. -/
theorem exists_step_integer (hfetch : m.code[m.counter]? = some x.instruction) :
    ∃ after, m.step = .ok after ∧ m.Wrote x after := by
  obtain ⟨middle, hexecute, hdata⟩ := m.exists_execute_integer x
  have hruns : m.Runs x.opcode x.operand := runs_of_instruction hfetch
  have hop : x.opcode.transfersControl = false := by cases x <;> rfl
  obtain ⟨-, hsame⟩ := m.execute_dataOnly x.operand hop middle .next hexecute
  have hcontent := content_of_data hdata
  refine ⟨{ middle with counter := middle.counter + 1 }, hruns.step_of_ok hexecute, ?_⟩
  refine ⟨hcontent, fun r hplace => ?_, congrArg (· + 1) hsame.counter_eq, hsame.code_eq,
    hsame.phase_eq⟩
  have hcell : middle.cell r = m.cellOf x := by
    have := congrFun hcontent (.register r)
    rwa [hplace, Function.update_self] at this
  rw [hplace] at hdata
  change middle.condition = Condition.ofInt (signedWord (middle.cell r).toUInt32)
  rw [hcell]
  exact (eq_of_data hdata).2.1

/-! ## Congruence -/

theorem modEq_toUInt32 (cell : Cell) :
    ((cell.toUInt32.toNat : Nat) : Int) ≡ (cell.toNat : Int) [ZMOD 2 ^ 32] := by
  rw [UInt64.toNat_toUInt32, Int.natCast_mod]
  exact Int.mod_modEq _ _

theorem modEq_word_mul (a b : UInt32) :
    ((a * b).toNat : Int) ≡ a.toNat * b.toNat [ZMOD 2 ^ 32] := by
  rw [UInt32.toNat_mul, Int.natCast_mod, Int.natCast_mul]
  exact Int.mod_modEq _ _

theorem modEq_word_add (a b : UInt32) :
    ((a + b).toNat : Int) ≡ a.toNat + b.toNat [ZMOD 2 ^ 32] := by
  rw [UInt32.toNat_add, Int.natCast_mod, Int.natCast_add]
  exact Int.mod_modEq _ _

theorem modEq_word_neg (a : UInt32) : ((-a).toNat : Int) ≡ -a.toNat [ZMOD 2 ^ 32] := by
  have ha : a.toNat ≤ UInt32.size := Nat.le_of_lt a.toNat_lt
  rw [UInt32.toNat_neg, Int.natCast_mod, Int.natCast_sub ha]
  refine (Int.mod_modEq _ _).trans (Int.modEq_iff_dvd.mpr ⟨-1, ?_⟩)
  simp only [UInt32.size]
  omega

theorem modEq_word_ofInt (value : Int32) :
    (value.toUInt32.toNat : Int) ≡ value.toInt [ZMOD 2 ^ 32] := by
  have hvalue : value.toInt = (value.toUInt32.toNat : Int).bmod (2 ^ 32) :=
    BitVec.toInt_eq_toNat_bmod value.toBitVec
  rw [hvalue]
  exact Int.bmod_emod.symm

/-- An instruction that reads congruent cells writes a congruent cell. -/
theorem Congruent.cellOf {state : IntegerState} (h : m.Congruent state) (x : IntegerInstruction) :
    ((m.cellOf x).toNat : Int) ≡ x.value state [ZMOD 2 ^ 32] := by
  have hword (r : Register) : ((m.word r).toNat : Int) ≡ state (.register r) [ZMOD 2 ^ 32] :=
    (modEq_toUInt32 (m.cell r)).trans (h (.register r))
  cases x with
  | get r => exact h (.register r)
  | put | store => exact h (.register 0)
  | load address => exact h (.memory address)
  | loadInt value =>
      rw [Machine.cellOf, UInt32.toNat_toUInt64]
      exact modEq_word_ofInt value
  | mul r =>
      rw [Machine.cellOf, UInt32.toNat_toUInt64]
      exact (modEq_word_mul _ _).trans ((hword 0).mul (hword _))
  | add r =>
      rw [Machine.cellOf, UInt32.toNat_toUInt64]
      exact (modEq_word_add _ _).trans ((hword 0).add (hword _))
  | inc r =>
      rw [Machine.cellOf, UInt32.toNat_toUInt64]
      exact (modEq_word_add _ _).trans ((hword _).add_right 1)
  | sub r =>
      rw [Machine.cellOf, UInt32.toNat_toUInt64, UInt32.sub_eq_add_neg]
      exact ((modEq_word_add _ _).trans ((hword 0).add ((modEq_word_neg _).trans (hword _).neg)))
  | neg r =>
      rw [Machine.cellOf, UInt32.toNat_toUInt64]
      exact (modEq_word_neg _).trans (hword _).neg

/-- One step keeps the congruence of all places. -/
theorem Congruent.wrote {state : IntegerState} (h : m.Congruent state) (hwrote : m.Wrote x after) :
    after.Congruent (x.execute state) := by
  intro p
  rw [hwrote.content, IntegerInstruction.execute, Function.update_apply, Function.update_apply]
  split
  · exact h.cellOf x
  · exact h p

/-- Congruent places are equal when both are read as signed integers. -/
theorem Congruent.bmod_word {state : IntegerState} (h : m.Congruent state) (r : Register) :
    ((m.word r).toNat : Int).bmod (2 ^ 32) = (state (.register r)).bmod (2 ^ 32) := by
  have hword : ((m.word r).toNat : Int) % (2 ^ 32 : Nat) = state (.register r) % (2 ^ 32 : Nat) :=
    (modEq_toUInt32 (m.cell r)).trans (h (.register r))
  rw [← Int.emod_bmod, hword, Int.emod_bmod]

/-- What is computed has no more than 32 bits. -/
theorem cellOf_lt (m : Machine) (hx : x.computes = true) : (m.cellOf x).toNat < 2 ^ 32 := by
  cases x with
  | get | put | load | store => cases hx
  | loadInt | mul | inc | add | sub | neg => exact UInt32.toNat_lt _

/-! ## Runs -/

/-- The machine after a number of steps, whether it is running or not. -/
def steps : Nat → Machine → Except Fault Machine
  | 0, m => .ok m
  | n + 1, m => m.steps n >>= step

/-- What becomes of a machine behind the instructions that were executed, beside the exact one. -/
structure Exact (m : Machine) (state : IntegerState) (executed : List IntegerInstruction)
    (after : Machine) : Prop where
  congruent : after.Congruent (IntegerInstruction.executeAll state executed)
  /-- What an operation computed last in a register has no upper half. -/
  upper : ∀ r x, IntegerInstruction.lastWriter? executed (.register r) = some x →
    x.computes = true → (after.cell r).toNat < 2 ^ 32
  /-- Every instruction but `store` writes a register, whose lower half decides the condition. -/
  condition : ∀ before x, executed = before ++ [x] → (∀ address, x ≠ .store address) →
    ∃ r, x.place = .register r ∧
      after.condition = Condition.ofSign (((after.word r).toNat : Int).bmod (2 ^ 32))
  counter : after.counter = m.counter + executed.length
  code : after.code = m.code
  phase : after.phase = m.phase

variable {state : IntegerState} {executed program : List IntegerInstruction}

theorem Exact.refl (h : m.Congruent state) : m.Exact state [] m where
  congruent := h
  upper _ _ := nofun
  condition _ _ hconcat := absurd hconcat.symm (List.concat_ne_nil _ _)
  counter := rfl
  code := rfl
  phase := rfl

/-- Every instruction but `store` writes a register. -/
theorem exists_register (hx : ∀ address, x ≠ .store address) : ∃ r, x.place = .register r := by
  cases x with
  | store address => exact absurd rfl (hx address)
  | loadInt | get | put | load | mul | inc | add | sub | neg => exact ⟨_, rfl⟩

/-- One more instruction. -/
theorem Exact.step {middle : Machine} (h : m.Exact state executed middle)
    (hwrote : middle.Wrote x after) : m.Exact state (executed ++ [x]) after where
  congruent := by
    rw [IntegerInstruction.executeAll_concat]
    exact h.congruent.wrote hwrote
  upper r y hlast hcomputes := by
    have hcell : after.cell r =
        Function.update middle.content x.place (middle.cellOf x) (.register r) :=
      congrFun hwrote.content (.register r)
    rw [hcell, Function.update_apply]
    rw [IntegerInstruction.lastWriter?_concat] at hlast
    by_cases hplace : x.place = .register r
    · rw [if_pos hplace] at hlast
      cases hlast
      rw [if_pos hplace.symm]
      exact middle.cellOf_lt hcomputes
    · rw [if_neg hplace] at hlast
      rw [if_neg (Ne.symm hplace)]
      exact h.upper r y hlast hcomputes
  condition before y hconcat hy := by
    obtain ⟨-, rfl⟩ := List.append_singleton_inj.mp hconcat
    obtain ⟨r, hplace⟩ := exists_register hy
    refine ⟨r, hplace, ?_⟩
    rw [hwrote.condition r hplace, Condition.ofInt_eq_ofSign, signedWord_eq_bmod]
  counter := by
    rw [hwrote.counter, h.counter, List.length_append, List.length_singleton, Nat.add_assoc]
  code := hwrote.code.trans h.code
  phase := hwrote.phase.trans h.phase

/-- The instruction at the counter behind a part of a program is the next one of the program. -/
theorem Exact.fetch {n : Nat} (h : m.Exact state (program.take n) after)
    (hcode : program.map IntegerInstruction.instruction <+: m.code.toList.drop m.counter)
    (hn : n < program.length) : after.code[after.counter]? = some program[n].instruction := by
  have hmap : n < (program.map IntegerInstruction.instruction).length := by
    rwa [List.length_map]
  have hget := hcode.getElem hmap
  rw [List.getElem_map, List.getElem_drop] at hget
  rw [h.code, h.counter, List.length_take_of_le (Nat.le_of_lt hn), hget, Array.getElem_toList,
    Array.getElem?_eq_getElem]

theorem exists_steps_integer (hcongruent : m.Congruent state)
    (hcode : program.map IntegerInstruction.instruction <+: m.code.toList.drop m.counter) {n : Nat}
    (hn : n ≤ program.length) :
    ∃ after, m.steps n = .ok after ∧ m.Exact state (program.take n) after := by
  induction n with
  | zero => exact ⟨m, rfl, Exact.refl hcongruent⟩
  | succ n ih =>
      obtain ⟨middle, hsteps, hexact⟩ := ih (Nat.le_of_succ_le hn)
      obtain ⟨after, hstep, hwrote⟩ := exists_step_integer (hexact.fetch hcode hn)
      refine ⟨after, ?_, ?_⟩
      · rw [steps, hsteps]
        exact hstep
      · rw [List.take_succ_eq_append_getElem hn]
        exact hexact.step hwrote

/-- A running machine does in a run what it does in as many steps, if it is running behind each. -/
theorem run_eq_steps (hruns : m.isRunning = true) {n : Nat}
    (h : ∀ k ≤ n, ∃ after, m.steps k = .ok after ∧ after.isRunning = true) :
    m.run n = m.steps n := by
  rw [run_eq_pace hruns]
  induction n with
  | zero => rfl
  | succ n ih =>
      obtain ⟨middle, hsteps, hmiddle⟩ := h n (Nat.le_succ n)
      rw [pace_add, ih fun k hk => h k (Nat.le_succ_of_le hk), steps, hsteps]
      change (if middle.isRunning = true then middle.step else .ok middle) >>= pace 0 = middle.step
      rw [if_pos hmiddle]
      exact bind_pure middle.step

/-! ## Integer programs -/

end Machine

namespace IntegerInstruction

theorem registerOperand_ofNat {index : UInt8} (hindex : index.toNat < registerCount) :
    registerOperand ⟨index.toNat, hindex⟩ = .u8 index :=
  congrArg Operand.u8 UInt8.ofNat_toNat

theorem addressOperand_ofNat {address : UInt16} (haddress : address.toNat < memorySize) :
    addressOperand ⟨address.toNat, haddress⟩ = .u16 address :=
  congrArg Operand.u16 UInt16.ofNat_toNat

theorem fits_registerOperand (r : Register) : OperandKind.register.Fits (registerOperand r) := by
  refine .register ?_
  rw [toNat_ofNat_register]
  exact r.isLt

theorem fits_getD (r : Option Register) :
    OperandKind.optionalRegister.Fits ((r.map registerOperand).getD .none) := by
  cases r with
  | none => exact .omitted
  | some r =>
      cases fits_registerOperand r with
      | register hindex => exact .optionalRegister hindex

theorem exists_getD {operand : Operand} (h : OperandKind.optionalRegister.Fits operand) :
    ∃ r : Option Register, (r.map registerOperand).getD .none = operand := by
  cases h with
  | omitted => exact ⟨none, rfl⟩
  | optionalRegister hindex => exact ⟨some ⟨_, hindex⟩, registerOperand_ofNat hindex⟩

/-- Every operation on integers with a valid operand is one of the instructions. -/
theorem exists_instruction {op : Opcode} {operand : Operand} (hop : op ∈ Opcode.integer)
    (hfits : op.operandKind.Fits operand)
    (haddress : ∀ address, operand = .u16 address → address.toNat < memorySize) :
    ∃ x : IntegerInstruction, x.opcode = op ∧ x.operand = operand := by
  cases op with
  | loadInt =>
      cases hfits with
      | immediate n => exact ⟨loadInt n, rfl, rfl⟩
  | get =>
      cases hfits with
      | register hindex => exact ⟨get ⟨_, hindex⟩, rfl, registerOperand_ofNat hindex⟩
  | put =>
      cases hfits with
      | register hindex => exact ⟨put ⟨_, hindex⟩, rfl, registerOperand_ofNat hindex⟩
  | load =>
      cases hfits with
      | address a => exact ⟨load ⟨_, haddress a rfl⟩, rfl, addressOperand_ofNat _⟩
  | store =>
      cases hfits with
      | address a => exact ⟨store ⟨_, haddress a rfl⟩, rfl, addressOperand_ofNat _⟩
  | mulInt =>
      obtain ⟨r, hr⟩ := exists_getD hfits
      exact ⟨mul r, rfl, hr⟩
  | incInt =>
      obtain ⟨r, hr⟩ := exists_getD hfits
      exact ⟨inc r, rfl, hr⟩
  | addInt =>
      obtain ⟨r, hr⟩ := exists_getD hfits
      exact ⟨add r, rfl, hr⟩
  | subInt =>
      obtain ⟨r, hr⟩ := exists_getD hfits
      exact ⟨sub r, rfl, hr⟩
  | negInt =>
      obtain ⟨r, hr⟩ := exists_getD hfits
      exact ⟨neg r, rfl, hr⟩
  | _ => simp [Opcode.integer] at hop

theorem integral_instruction (x : IntegerInstruction) : x.instruction.Integral where
  unconditional := rfl
  operation := by
    refine ⟨x.opcode, ?_, Opcode.ofByte?_code _, ?_⟩
    · cases x <;> simp [opcode, Opcode.integer]
    · cases x with
      | loadInt value => exact .immediate value
      | get r | put r => exact fits_registerOperand r
      | load address | store address => exact .address _
      | mul r | inc r | add r | sub r | neg r => exact fits_getD r
  address address h := by
    cases x with
    | load place | store place =>
        cases h
        rw [toNat_ofNat_address]
        exact place.isLt
    | mul r | inc r | add r | sub r | neg r => cases r <;> cases h
    | _ => cases h

end IntegerInstruction

/-- The instructions that always run and have an operation on integers with a valid operand are
those of integer programs. -/
theorem Instruction.integral_iff {i : Instruction} :
    i.Integral ↔ ∃ x : IntegerInstruction, x.instruction = i := by
  constructor
  · rintro ⟨hflags, ⟨op, hmem, hop, hfits⟩, haddress⟩
    obtain ⟨x, rfl, hoperand⟩ := IntegerInstruction.exists_instruction hmem hfits haddress
    obtain ⟨code, flags, operand⟩ := i
    obtain rfl : x.opcode.code = code := Opcode.code_of_ofByte? hop
    refine ⟨x, ?_⟩
    rw [IntegerInstruction.instruction, hoperand, ← hflags]
  · rintro ⟨x, rfl⟩
    exact x.integral_instruction

namespace Machine

/-- A straight line of instructions on integers never fails and computes exact arithmetic modulo
2 ^ 32: behind any number of its instructions every cell is congruent to the integer that exact
execution leaves in its place. What was computed has no upper half, and the condition is the sign of
what was written last. A running machine gets there in a turn. -/
theorem integer_program_exact (m : Machine) (program : List IntegerInstruction)
    (state : IntegerState)
    (hcode : program.map IntegerInstruction.instruction <+: m.code.toList.drop m.counter)
    (hcongruent : m.Congruent state) :
    (∀ i : Instruction, i.Integral ↔ ∃ x : IntegerInstruction, x.instruction = i) ∧
    ∀ n ≤ program.length, ∃ after, m.steps n = .ok after ∧
      (m.isRunning = true → m.run n = .ok after) ∧ m.Exact state (program.take n) after := by
  refine ⟨fun i => Instruction.integral_iff, fun n hn => ?_⟩
  obtain ⟨after, hsteps, hexact⟩ := exists_steps_integer hcongruent hcode hn
  refine ⟨after, hsteps, fun hruns => ?_, hexact⟩
  rw [run_eq_steps hruns, hsteps]
  intro k hk
  obtain ⟨between, hbetween, hexact⟩ := exists_steps_integer hcongruent hcode (hk.trans hn)
  refine ⟨between, hbetween, ?_⟩
  rwa [isRunning, hexact.phase]

/-- The address of the last memory cell. -/
def lastAddress : Fin memorySize :=
  ⟨16383, by decide⟩

/-- Keeps r0 in memory, negates the least integer, squares it and adds what was kept. -/
def wrapping : List IntegerInstruction :=
  [.store lastAddress, .loadInt (-2147483648), .neg none, .put .other, .mul none,
   .load lastAddress, .add none]

/-- A running machine in front of the program, with the upper half of r0 in use. -/
def wrappingMachine : Machine :=
  { fresh 0 .empty (wrapping.map IntegerInstruction.instruction).toArray 0 with
    registers := (Vector.replicate registerCount 0).set Register.result 9223372036854775813
      Register.result.isLt
    phase := .running }

theorem wrappingMachine_congruent :
    wrappingMachine.Congruent (Function.update 0 (.register 0) 5) := by
  intro p
  cases p with
  | register r =>
      revert r
      decide
  | memory address =>
      have hzero : wrappingMachine.content (.memory address) = 0 := Vector.getElem_replicate _
      rw [hzero]
      rfl

/-- The exact machine negates the least integer to 2 ^ 31, which the cell holds as well. Read as a
signed integer it is negative. -/
theorem integer_program_exact_wraps :
    ∃ after, wrappingMachine.run 3 = .ok after ∧
      after.Congruent (IntegerInstruction.executeAll (Function.update 0 (.register 0) 5)
        (wrapping.take 3)) ∧
      (after.cell 0).toNat < 2 ^ 32 ∧ after.condition = Condition.negative := by
  obtain ⟨after, -, hrun, hexact⟩ := (integer_program_exact wrappingMachine wrapping _
    (List.prefix_refl _) wrappingMachine_congruent).2 3 (by decide)
  obtain ⟨r, hr, hcondition⟩ := hexact.condition (wrapping.take 2) (.neg none) rfl nofun
  cases hr
  refine ⟨after, hrun rfl, hexact.congruent, hexact.upper 0 (.neg none) rfl rfl, ?_⟩
  rw [hcondition, hexact.congruent.bmod_word]
  decide

end Machine

end TickMachine
