import TickMachine.Source.Parser
import TickMachine.Text.Numeral

/-! # Phrases

The parsers for the parts of a statement. A statement is recognised by its first token, which is
taken before its parser is called.
-/

namespace TickMachine

/-- Integer literals fit 64 bits with a sign. -/
def integerLiteral? (text : String) : Option Int :=
  (Text.integer? text.toList).filter fun n => Int64.minValue.toInt ≤ n ∧ n ≤ Int64.maxValue.toInt

/-- The text of a token as a name. -/
def Token.name? (t : Token) : Except Diagnostic Name :=
  match BoundedText.ofString t.text.text with
  | .ok name => .ok name
  | .error _ => .error (.ofToken (.nameTooLong t.text.text) t)

/-- A word after the type of a declarator. -/
inductive Modifier
  | typedef
  | const
  | «public»
  | initial (value : Expression)
deriving DecidableEq, Repr

/-- Adds a modifier to a declarator. Of several initial values the last one counts. -/
def Declarator.modify (d : Declarator) : Modifier → Declarator
  | .typedef => { d with isTypedef := true }
  | .const => { d with isConstant := true }
  | .public => { d with visibility := .public }
  | .initial value => { d with initial := some value }

namespace Parser

open TokenKind (keyword symbol)

/-- Turns the token's text into a name, or complains about its length. -/
def name (t : Token) : Parser Name :=
  match t.name? with
  | .ok name => return name
  | .error d => fail d

/-- A literal or an identifier. -/
def expression : Parser Expression := do
  let t ← current
  let value? ← match t.kind with
    | .int => pure ((integerLiteral? t.text.text).map (.integer · t.position))
    | .dec => pure ((Double.ofChars? t.text.text.toList).map (.decimal · t.position))
    | .ident => pure (some (.identifier t.text.text t.position))
    | _ => unexpected .expression
  advance
  match value? with
  | some value => return value
  | none => fail (.ofToken (.invalidNumber t.text.text) t)

/-- The name of a built-in or user defined type. -/
def typeName : Parser String := do
  let t ← current
  match t.kind with
  | .typeName | .ident =>
    advance
    return t.text.text
  | _ => unexpected .typeName

/-- The bounds of an array behind the opening parenthesis. -/
def arraySize : Parser ArraySize := do
  if (← current).kind = symbol .rightParen then
    advance
    return .unsized
  else
    let size ← expression
    let _ ← expect (symbol .rightParen)
    return .sized size

/-- The bounds of an array in parentheses, if there are any. -/
def array : Parser (Option ArraySize) := do
  match ← accept (symbol .leftParen) with
  | some _ => some <$> arraySize
  | none => return none

/-- The modifier that the kind of a token starts. -/
def modifier : TokenKind → Option (Parser Modifier)
  | keyword .typedef => some (return .typedef)
  | keyword .const => some (return .const)
  | keyword .public => some (return .public)
  | keyword .initial => some do
    let _ ← expect (symbol .leftParen)
    let value ← expression
    let _ ← expect (symbol .rightParen)
    return .initial value
  | _ => none

/-- `name [(size)] type modifiers` -/
def declarator : Parser Declarator := do
  let t ← expect .ident
  let array ← array
  let type ← typeName
  let name ← name t
  let modifiers ← many modifier
  let plain : Declarator := { position := t.position, name, typeName := type, array }
  return modifiers.foldl Declarator.modify plain

/-- A further declarator behind a comma. The word `decl` may be repeated. -/
def chained : TokenKind → Option (Parser Declarator)
  | symbol .comma => some do
    let _ ← accept (keyword .decl)
    declarator
  | _ => none

/-- The declarators behind `decl`, up to the semicolon. -/
def declaration : Parser Statement := do
  let first ← declarator
  let others ← many chained
  let _ ← expect (symbol .semicolon)
  return .decl first others

/-- The name of a type, if there is one. -/
def typeName? : Parser (Option String) := do
  match (← current).kind with
  | .typeName | .ident => some <$> typeName
  | _ => return none

/-- `name [type]` -/
def argument : Parser Argument := do
  let t ← expectAs .ident .argumentName
  let type ← typeName?
  let name ← name t
  return ⟨name, type⟩

/-- A further argument behind a comma. -/
def nextArgument : TokenKind → Option (Parser Argument)
  | symbol .comma => some argument
  | _ => none

/-- The arguments of a procedure behind the opening parenthesis, with the closing one. -/
def arguments : Parser (List Argument) := do
  if (← current).kind = symbol .rightParen then
    advance
    return []
  else
    let first ← argument
    let others ← many nextArgument
    let _ ← expect (symbol .rightParen)
    return first :: others

/-- The visibility behind the type of a procedure. -/
def visibility : Parser Visibility := do
  match ← accept (keyword .public) with
  | some _ => return .public
  | none => return .private

/-- The procedure behind `proc`, up to the semicolon. Its own name is looked at last. -/
def procedure : Parser Statement := do
  let t ← expect .ident
  let _ ← expect (symbol .leftParen)
  let arguments ← arguments
  let returnType ← typeName
  let visibility ← visibility
  let _ ← expect (symbol .semicolon)
  let name ← name t
  return .procedure { position := t.position, name, visibility, returnType, arguments }

/-- The rest of a block header behind the block's name, which the given token holds. -/
def blockHeader (t : Token) : Parser Name := do
  let _ ← expect (symbol .colon)
  let _ ← expect (keyword .do)
  let _ ← expect (symbol .semicolon)
  name t

/-- The rest of a block end behind `end`, with the token of its name if there is one. -/
def blockEnd : Parser (Option Token) := do
  let t? ← accept .ident
  let _ ← expect (symbol .semicolon)
  return t?

end Parser

end TickMachine
