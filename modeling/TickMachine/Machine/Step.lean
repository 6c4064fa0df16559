import TickMachine.Log
import TickMachine.Machine.Basic

/-! # Steps

What a machine does for one instruction, and for the instructions of one tick. An instruction whose
predicate shares no bit with the condition register is passed over, and so is one with an unknown
code. A transfer of control out of the program fails at the instruction that makes it, so the
counter stays within the program.
-/

namespace TickMachine

/-- Where control goes behind an instruction. -/
inductive Transfer
  | next
  | jump (target : Nat)
  | halt
deriving DecidableEq, Repr

namespace Machine

/-- What executing an instruction comes to: the machine without its counter moved, and the
transfer of control. -/
abbrev Effect := Except Fault (Machine × Transfer)

/-- Goes on with the next instruction. -/
def proceed (m : Machine) : Effect := .ok (m, .next)

def refuse (m : Machine) (cause : FaultCause) : Effect := .error (m.fault cause)

/-- The register an operand names, or the default if it names none. -/
def operandRegister (m : Machine) (operand : Operand) (default : Option Register) :
    Except Fault Register :=
  match operand, default with
  | .u8 index, _ => m.register? index.toNat
  | .none, some r => .ok r
  | _, _ => .error (m.fault .invalidOperand)

/-- Replaces r0 by its combination with the operand register, by default r1. -/
def binaryInt (m : Machine) (operand : Operand) (f : UInt32 → UInt32 → UInt32) : Effect :=
  match m.operandRegister operand (some 1) with
  | .error fault => .error fault
  | .ok r => (m.setWord 0 (f (m.word 0) (m.word r))).proceed

/-- Changes the operand register, by default r0. -/
def unaryInt (m : Machine) (operand : Operand) (f : UInt32 → UInt32) : Effect :=
  match m.operandRegister operand (some 0) with
  | .error fault => .error fault
  | .ok r => (m.setWord r (f (m.word r))).proceed

/-- Sets the condition to the order of r0 and the operand register, by default r1. -/
def compareWith (m : Machine) (operand : Operand) (order : Register → Option Ordering) :
    Effect :=
  match m.operandRegister operand (some 1) with
  | .error fault => .error fault
  | .ok r => (m.setCondition (Condition.ofOrdering? (order r))).proceed

/-- Replaces r0 by its combination with the operand register, by default r1. -/
def binarySingle (m : Machine) (operand : Operand) (f : Single → Single → Single) : Effect :=
  match m.operandRegister operand (some 1) with
  | .error fault => .error fault
  | .ok r => (m.setSingle 0 (f (m.single 0) (m.single r))).proceed

/-- Changes the operand register, by default r0. -/
def unarySingle (m : Machine) (operand : Operand) (f : Single → Single) : Effect :=
  match m.operandRegister operand (some 0) with
  | .error fault => .error fault
  | .ok r => (m.setSingle r (f (m.single r))).proceed

/-- Executes an operation. -/
def execute (m : Machine) (op : Opcode) (operand : Operand) : Effect :=
  match op with
  | .nop => m.proceed
  | .ret =>
    match m.calls with
    | [] => .ok (m, .halt)
    | target :: calls => .ok ({ m with calls := calls }, .jump target)
  | .halt => .ok (m, .halt)
  | .call =>
    match operand with
    | .u32 target =>
      if m.callLimit ≤ m.calls.length then m.refuse .callStackOverflow
      else .ok ({ m with calls := (m.counter + 1) :: m.calls }, .jump target.toNat)
    | _ => m.refuse .invalidOperand
  | .jump =>
    match operand with
    | .u32 target => .ok (m, .jump target.toNat)
    | _ => m.refuse .invalidOperand
  | .or =>
    match operand with
    | .u8 mask => (m.setCondition (m.condition ||| mask)).proceed
    | _ => m.refuse .invalidOperand
  | .and =>
    match operand with
    | .u8 mask => (m.setCondition (m.condition &&& mask)).proceed
    | _ => m.refuse .invalidOperand
  | .loadInt =>
    match operand with
    | .i32 value => (m.setWord 0 value.toUInt32).proceed
    | _ => m.refuse .invalidOperand
  | .loadFloat =>
    match operand with
    | .f32 value => (m.setSingle 0 value).proceed
    | _ => m.refuse .invalidOperand
  | .get =>
    match m.operandRegister operand none with
    | .error fault => .error fault
    | .ok r => (m.setCell 0 (m.cell r)).proceed
  | .put =>
    match m.operandRegister operand none with
    | .error fault => .error fault
    | .ok r => (m.setCell r (m.cell 0)).proceed
  | .load =>
    match operand with
    | .u16 address =>
      match m.cellAt address.toNat with
      | .error fault => .error fault
      | .ok cell => (m.setCell 0 cell).proceed
    | _ => m.refuse .invalidOperand
  | .store =>
    match operand with
    | .u16 address =>
      match m.setCellAt address.toNat (m.cell 0) with
      | .error fault => .error fault
      | .ok m => m.proceed
    | _ => m.refuse .invalidOperand
  | .mulInt => m.binaryInt operand (· * ·)
  | .incInt => m.unaryInt operand (· + 1)
  | .addInt => m.binaryInt operand (· + ·)
  | .subInt => m.binaryInt operand (· - ·)
  | .negInt => m.unaryInt operand (- ·)
  | .cmpInt =>
    m.compareWith operand fun r => some (compare (signedWord (m.word 0)) (signedWord (m.word r)))
  | .mulFloat => m.binarySingle operand (· * ·)
  | .incFloat => m.unarySingle operand (· + Single.one)
  | .addFloat => m.binarySingle operand (· + ·)
  | .subFloat => m.binarySingle operand (· - ·)
  | .negFloat => m.unarySingle operand (- ·)
  | .cmpFloat => m.compareWith operand fun r => (m.single 0).compare? (m.single r)

/-- Whether the condition register satisfies an instruction's predicate. -/
def admits (m : Machine) (i : Instruction) : Bool :=
  i.flags = 0 || i.flags &&& m.condition ≠ 0

/-- Executes an instruction, or passes over it. -/
def perform (m : Machine) (i : Instruction) : Effect :=
  if m.admits i then
    match i.opcode? with
    | some op => m.execute op i.operand
    | none => m.proceed
  else m.proceed

/-- Moves control. -/
def follow (m : Machine) : Transfer → Except Fault Machine
  | .next => .ok { m with counter := m.counter + 1 }
  | .jump target =>
    if target < m.code.size then .ok { m with counter := target }
    else .error (m.fault .overrun)
  | .halt => .ok { m with phase := .halted }

/-- Executes the instruction at the counter. -/
def step (m : Machine) : Except Fault Machine :=
  match m.code[m.counter]? with
  | none => .error (m.fault .overrun)
  | some i =>
    match m.perform i with
    | .error fault => .error fault
    | .ok (m, transfer) => m.follow transfer

/-- Executes up to the given number of instructions, as long as the machine is running. -/
def run : Nat → Machine → Except Fault Machine
  | 0, m => .ok m
  | budget + 1, m =>
    match m.step with
    | .error fault => .error fault
    | .ok m => if m.isRunning then run budget m else .ok m

/-- The part of a machine in one tick. At least one instruction is executed if it is running. -/
def tick (budget : Nat) (m : Machine) : Except Fault Machine :=
  if m.isRunning then run (max budget 1) { m with ticks := m.ticks + 1 } else .ok m

/-- What is logged when a machine has left a phase for its present one. -/
def phaseEvent (m : Machine) (left : Phase) : Event :=
  .debug s!"program '{m.name.text}' {left.label} -> {m.phase.label}"

/-- What is logged in front of the instruction at the counter: a warning if its code is unknown
and it is not passed over. -/
def notices (m : Machine) : List Event :=
  match m.code[m.counter]? with
  | some i =>
    if m.admits i && i.opcode?.isNone then
      let place := s!"program '{m.name.text}' at instruction {m.counter}"
      [.warn s!"{place}: invalid opcode {Instruction.codeText i.code} ignored"]
    else []
  | none => []

/-- What is logged while a running machine executes up to the given number of instructions. -/
def runEvents : Nat → Machine → List Event
  | 0, _ => []
  | budget + 1, m =>
    let before := m.notices
    match m.step with
    | .error fault => before ++ [.error fault.message]
    | .ok m =>
      if m.isRunning then before ++ runEvents budget m
      else before ++ [m.phaseEvent .running]

/-- What is logged about a machine in one tick. -/
def tickEvents (budget : Nat) (m : Machine) : List Event :=
  if m.isRunning then runEvents (max budget 1) { m with ticks := m.ticks + 1 } else []

end Machine

end TickMachine
