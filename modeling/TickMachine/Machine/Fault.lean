/-! # Runtime errors -/

namespace TickMachine

/-- Why a machine or a request about one failed. -/
inductive FaultCause
  /-- The phase of the machine does not allow the request. -/
  | notReady
  | emptyProgram
  | unknownProgram
  /-- Control left the program. -/
  | overrun
  | memoryOutOfBounds (address : Nat)
  | invalidRegister (index : Nat)
  /-- The operand is not the one the operation works with. -/
  | invalidOperand
  | callStackOverflow
deriving DecidableEq, Repr

def FaultCause.message : FaultCause → String
  | notReady => "Program state is not ready"
  | emptyProgram => "Program has no instructions"
  | unknownProgram => "Unknown program"
  | overrun => "Program counter past the last instruction"
  | memoryOutOfBounds address => s!"Memory address {address} out of bounds"
  | invalidRegister index => s!"Invalid register r{index}"
  | invalidOperand => "Invalid operand"
  | callStackOverflow => "Call stack overflow"

/-- A failure with the name of the program and the instruction it was at. -/
structure Fault where
  cause : FaultCause
  program : String
  instruction : Nat
deriving DecidableEq, Repr

def Fault.message (f : Fault) : String :=
  s!"program '{f.program}' at instruction {f.instruction}: {f.cause.message}"

end TickMachine
