import TickMachine.Binary.Double
import TickMachine.Source.Position
import TickMachine.Text.Bounded

/-! # Statements of the declaration language -/

namespace TickMachine

/-- The greatest length of a declared name in bytes. -/
def maxNameSize : Nat := 64

/-- The name of a variable, type, procedure, argument or block. -/
abbrev Name := BoundedText maxNameSize

/-- A literal or an identifier. -/
inductive Expression
  | integer (value : Int) (position : Position)
  | decimal (value : Double) (position : Position)
  | identifier (name : String) (position : Position)
deriving DecidableEq, Repr

def Expression.text : Expression → String
  | integer value _ => toString value
  | decimal value _ => value.plain
  | identifier name _ => name

inductive Visibility
  | «private»
  | «public»
deriving DecidableEq, Repr, Inhabited

/-- The bounds of an array: `()` or `(size)`. -/
inductive ArraySize
  | unsized
  | sized (size : Expression)
deriving DecidableEq, Repr

/-- A declared variable or type: `name (size) type modifiers`. -/
structure Declarator where
  position : Position
  name : Name
  typeName : String
  array : Option ArraySize := none
  visibility : Visibility := .private
  isConstant : Bool := false
  isTypedef : Bool := false
  initial : Option Expression := none
deriving DecidableEq, Repr

/-- An argument of a procedure; its type may be left out. -/
structure Argument where
  name : Name
  typeName : Option String
deriving DecidableEq, Repr

/-- A declared procedure: `proc name(arguments) type`. -/
structure Procedure where
  position : Position
  name : Name
  visibility : Visibility
  returnType : String
  arguments : List Argument
deriving DecidableEq, Repr

/-- The end of a block: `end name;`, the name may be left out. -/
structure BlockEnd where
  position : Position
  name : Option String
deriving DecidableEq, Repr

inductive Statement
  /-- `decl` with one declarator and those chained to it. -/
  | decl (first : Declarator) (chained : List Declarator)
  | procedure (procedure : Procedure)
  /-- `name: do; body end name;`. The end is missing only after a mistake. -/
  | block (position : Position) (name : Name) (body : List Statement) (closing : Option BlockEnd)
deriving Repr

/-- The statements of a source outside of all blocks. -/
abbrev Program := List Statement

end TickMachine
