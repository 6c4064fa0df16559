import TickMachine.Instruction.Basic
import TickMachine.Instruction.Register
import TickMachine.Machine.Fault
import TickMachine.Text.Bounded

/-! # Machines

A loaded program with its registers, memory and call stack. Cells have 64 bits; arithmetic works on
the lower half of a cell, read as a signed integer or as a single precision number.
-/

namespace TickMachine

/-- The greatest length of a program's name in bytes. -/
def maxProgramNameSize : Nat := 16

/-- The number of memory cells of a machine. -/
def memorySize : Nat := 16384

/-- The content of a register or memory cell. -/
abbrev Cell := UInt64

/-- Where a machine is in its life. -/
inductive Phase
  /-- Loaded or reset, not started. -/
  | loaded
  /-- Executes instructions on each tick. -/
  | running
  /-- Paused; can be resumed. -/
  | frozen
  /-- Finished; has to be reset to run again. -/
  | halted
deriving DecidableEq, Repr

def Phase.label : Phase → String
  | loaded => "Loaded"
  | running => "Running"
  | frozen => "Frozen"
  | halted => "Halted"

/-- A loaded program. -/
structure Machine where
  id : Nat
  name : BoundedText maxProgramNameSize
  code : Array Instruction
  /-- The greatest height of the call stack. -/
  callLimit : Nat
  registers : Vector Cell registerCount
  /-- The index of the next instruction. -/
  counter : Nat
  condition : UInt8
  memory : Vector Cell memorySize
  /-- The instructions to return to, innermost call first. -/
  calls : List Nat
  /-- The number of ticks in which the machine was running, which has no bound here. -/
  ticks : Nat
  phase : Phase
deriving DecidableEq

/-- The lower half of a cell as a signed integer. -/
def signedWord (word : UInt32) : Int :=
  word.toInt32.toInt

namespace Machine

/-- A machine that was not started yet. -/
def fresh (id : Nat) (name : BoundedText maxProgramNameSize) (code : Array Instruction)
    (callLimit : Nat) : Machine where
  id := id
  name := name
  code := code
  callLimit := callLimit
  registers := Vector.replicate registerCount 0
  counter := 0
  condition := 0
  memory := Vector.replicate memorySize 0
  calls := []
  ticks := 0
  phase := .loaded

/-- Clears the registers, the memory and the call stack and forgets the ticks. -/
def reset (m : Machine) : Machine :=
  { m with
    registers := Vector.replicate registerCount 0
    counter := 0
    condition := 0
    memory := Vector.replicate memorySize 0
    calls := []
    ticks := 0
    phase := .loaded }

def isRunning (m : Machine) : Bool :=
  m.phase = .running

/-- A failure at the current instruction. -/
def fault (m : Machine) (cause : FaultCause) : Fault :=
  ⟨cause, m.name.text, m.counter⟩

/-- The content of a register. -/
def cell (m : Machine) (r : Register) : Cell :=
  m.registers[r]

/-- The lower half of a register. -/
def word (m : Machine) (r : Register) : UInt32 :=
  (m.cell r).toUInt32

/-- The lower half of a register as a number. -/
def single (m : Machine) (r : Register) : Single :=
  ⟨m.word r⟩

/-- Sets the condition register, which holds no bits but the condition bits. -/
def setCondition (m : Machine) (bits : UInt8) : Machine :=
  { m with condition := bits &&& Condition.all }

/-- Copies a whole cell into a register. The condition is that of its lower half as an integer. -/
def setCell (m : Machine) (r : Register) (cell : Cell) : Machine :=
  let m := { m with registers := m.registers.set r cell }
  m.setCondition (Condition.ofInt (signedWord cell.toUInt32))

/-- Writes an integer into a register, with its condition. The upper half becomes zero. -/
def setWord (m : Machine) (r : Register) (value : UInt32) : Machine :=
  let m := { m with registers := m.registers.set r value.toUInt64 }
  m.setCondition (Condition.ofInt (signedWord value))

/-- Writes a number into a register, with its condition. The upper half becomes zero. -/
def setSingle (m : Machine) (r : Register) (value : Single) : Machine :=
  let m := { m with registers := m.registers.set r value.bits.toUInt64 }
  m.setCondition (Condition.ofSingle value)

/-- The general register with the given index. -/
def register? (m : Machine) (index : Nat) : Except Fault Register :=
  if h : index < registerCount then .ok ⟨index, h⟩
  else .error (m.fault (.invalidRegister index))

/-- The content of the general register with the given index. -/
def readRegister (m : Machine) (index : Nat) : Except Fault Cell :=
  (m.register? index).map m.cell

/-- The content of the memory cell at an address. -/
def cellAt (m : Machine) (address : Nat) : Except Fault Cell :=
  match m.memory[address]? with
  | some cell => .ok cell
  | none => .error (m.fault (.memoryOutOfBounds address))

/-- Writes the memory cell at an address. -/
def setCellAt (m : Machine) (address : Nat) (cell : Cell) : Except Fault Machine :=
  if h : address < memorySize then .ok { m with memory := m.memory.set address cell }
  else .error (m.fault (.memoryOutOfBounds address))

/-- Starts a loaded machine or resumes a frozen one. It needs an instruction to run. -/
def start (m : Machine) : Except Fault Machine :=
  match m.phase with
  | .loaded | .frozen =>
    if m.code.isEmpty then .error (m.fault .emptyProgram)
    else .ok { m with phase := .running }
  | .running | .halted => .error (m.fault .notReady)

/-- Pauses a running machine. -/
def freeze (m : Machine) : Except Fault Machine :=
  match m.phase with
  | .running => .ok { m with phase := .frozen }
  | _ => .error (m.fault .notReady)

end Machine

end TickMachine
