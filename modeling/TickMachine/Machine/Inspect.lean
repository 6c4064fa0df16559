import TickMachine.Machine.Basic
import TickMachine.Text.Quoted

/-! # Machines as text -/

namespace TickMachine.Machine

/-- All registers: the general ones, the counter and the condition. -/
def allRegisters (m : Machine) : List Cell :=
  m.registers.toList ++ [.ofNat m.counter, m.condition.toUInt64]

/-- A sequence of numbers between brackets. -/
def numbersText (numbers : List Nat) : String :=
  "[" ++ ", ".intercalate (numbers.map toString) ++ "]"

/-- A machine in one line, without memory and with the number of its instructions only. The
outermost call stands first. -/
def text (m : Machine) : String :=
  let fields : List (String × String) :=
    [("id", s!"ProgramId({m.id})"),
     ("name", Text.quoted m.name.text),
     ("state", m.phase.label),
     ("registers", numbersText (m.allRegisters.map UInt64.toNat)),
     ("call_stack", numbersText m.calls.reverse),
     ("tick_count", toString m.ticks),
     ("instructions", toString m.code.size)]
  let body := ", ".intercalate (fields.map fun (name, value) => s!"{name}: {value}")
  "VMProgram \x7b " ++ body ++ " \x7d"

end TickMachine.Machine
