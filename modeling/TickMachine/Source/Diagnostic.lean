import TickMachine.Source.Statement
import TickMachine.Source.Token

/-! # Diagnostics of the parser -/

namespace TickMachine

/-- The greatest number of blocks around a statement. -/
def nestingLimit : Nat := 64

/-- What the grammar asks for at a place. -/
inductive Expectation
  | token (kind : TokenKind)
  | statement
  | typeName
  | argumentName
  | expression
deriving DecidableEq, Repr

def Expectation.name : Expectation → String
  | token kind => kind.name
  | statement => "statement"
  | typeName => "type name"
  | argumentName => "argument name"
  | expression => "expression"

/-- How much a diagnostic weighs. After an error a statement is skipped, after a warning nothing. -/
inductive Severity
  | warning
  | error
deriving DecidableEq, Repr

/-- What is wrong with a source. -/
inductive DiagnosticCause
  | unexpectedToken (expected : Expectation) (found : String)
  /-- The end of a block names another block. -/
  | nameMismatch (expected found : String)
  | invalidNumber (text : String)
  | nameTooLong (name : String)
  | nestingTooDeep
deriving DecidableEq, Repr

namespace DiagnosticCause

def message : DiagnosticCause → String
  | unexpectedToken expected found => s!"Expected {expected.name}, found {found}"
  | nameMismatch expected found => s!"Block '{expected}' closed by 'end {found}'"
  | invalidNumber text => s!"Invalid numeric value '{text}'"
  | nameTooLong name => s!"Name '{name}' exceeds {maxNameSize} bytes"
  | nestingTooDeep => s!"Modules nested deeper than {nestingLimit} levels"

end DiagnosticCause

/-- A mistake with the place of the token that shows it. -/
structure Diagnostic where
  cause : DiagnosticCause
  severity : Severity
  file : String
  position : Position
deriving DecidableEq, Repr

namespace Diagnostic

def message (d : Diagnostic) : String :=
  s!"{d.file}:{d.position.text}: {d.cause.message}"

/-- The error with the given cause at a token. -/
def ofToken (cause : DiagnosticCause) (t : Token) : Diagnostic :=
  ⟨cause, .error, t.file, t.position⟩

/-- The warning with the given cause at a token. -/
def warning (cause : DiagnosticCause) (t : Token) : Diagnostic :=
  ⟨cause, .warning, t.file, t.position⟩

/-- The token does not fit the grammar. -/
def unexpected (expected : Expectation) (t : Token) : Diagnostic :=
  ofToken (.unexpectedToken expected t.mention) t

end Diagnostic

end TickMachine
