/-! # Errors of the assembler -/

namespace TickMachine

/-- What is wrong with a line of assembly. -/
inductive AssemblyCause
  /-- The line is neither a label nor an instruction. -/
  | badLine (text : String)
  | duplicateLabel (name : String)
  | undefinedLabel (name : String)
  | invalidLabel (text : String)
  | missingOperand (mnemonic : String)
  | unexpectedOperand (text : String)
  | invalidOperand (text : String)
  | invalidCondition (text : String)
  /-- There are more instructions than 32 bits can count. -/
  | tooManyInstructions
deriving DecidableEq, Repr

def AssemblyCause.message : AssemblyCause → String
  | badLine text => s!"Syntax error: '{text}'"
  | duplicateLabel name => s!"Duplicate label '{name}'"
  | undefinedLabel name => s!"Undefined label '{name}'"
  | invalidLabel text => s!"Invalid label name '{text}'"
  | missingOperand mnemonic => s!"Missing operand for '{mnemonic}'"
  | unexpectedOperand text => s!"Unexpected operand '{text}'"
  | invalidOperand text => s!"Invalid operand '{text}'"
  | invalidCondition text =>
    s!"Invalid condition '{text}', expected a combination of p, z and n"
  | tooManyInstructions => "Too many instructions"

/-- A mistake with the number of its line, counted from 1 in 32 bits. -/
structure AssemblyError where
  cause : AssemblyCause
  line : UInt32
deriving DecidableEq, Repr

def AssemblyError.message (e : AssemblyError) : String :=
  s!"line {e.line}: {e.cause.message}"

end TickMachine
