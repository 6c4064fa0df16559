import TickMachine.Assembly.Error
import TickMachine.Text.Blank

/-! # Lines of assembly

A line holds a label, an instruction or nothing, with a comment behind a semicolon. Labels and
mnemonics are identifiers; a label ends with a colon.
-/

namespace TickMachine.Assembly

/-- The space inside of a line. -/
def isSpace (c : Char) : Bool :=
  c == ' ' || c == '\t'

def isIdentifierStart (c : Char) : Bool :=
  c.isAlpha || c == '_'

def isIdentifierRest (c : Char) : Bool :=
  c.isAlphanum || c == '_'

/-- The longest identifier at the front of a text, and what is behind it. -/
def identifier? : List Char → Option (List Char × List Char)
  | [] => none
  | c :: cs =>
    if isIdentifierStart c then
      some (c :: cs.takeWhile isIdentifierRest, cs.dropWhile isIdentifierRest)
    else none

/-- An instruction as it is written: `mnemonic[.condition] [operand]`. -/
structure WrittenInstruction where
  mnemonic : List Char
  condition : Option (List Char)
  operand : Option (List Char)
deriving DecidableEq, Repr

/-- A line that is not empty. -/
inductive Line
  | label (name : String)
  | instruction (written : WrittenInstruction)
deriving DecidableEq, Repr

/-- The line without its comment and the blank characters around it. -/
def bare (raw : List Char) : List Char :=
  Text.trim (raw.takeWhile (· ≠ ';'))

/-- Reads what is in front of the colon of a label. -/
def readLabel (text : List Char) : Except AssemblyCause Line :=
  match identifier? text with
  | some (name, rest) =>
    if rest.all isSpace then .ok (.label (String.ofList name))
    else .error (.invalidLabel (String.ofList (Text.trim text)))
  | none => .error (.invalidLabel (String.ofList (Text.trim text)))

/-- The condition behind a point, if there is a point. -/
def splitCondition : List Char → Option (List Char) × List Char
  | '.' :: cs => (some (cs.takeWhile Char.isAlphanum), cs.dropWhile Char.isAlphanum)
  | cs => (none, cs)

/-- Reads a bare line that does not end with a colon. -/
def readInstruction (text : List Char) : Except AssemblyCause Line :=
  match identifier? text with
  | none => .error (.badLine (String.ofList text))
  | some (mnemonic, rest) =>
    let (condition, rest) := splitCondition rest
    match rest with
    | [] => .ok (.instruction ⟨mnemonic, condition, none⟩)
    | c :: _ =>
      if isSpace c then
        .ok (.instruction ⟨mnemonic, condition, some (Text.trim (rest.dropWhile isSpace))⟩)
      else .error (.badLine (String.ofList text))

/-- Reads a bare line. -/
def readLine (text : List Char) : Except AssemblyCause Line :=
  if text.getLast? = some ':' then readLabel text.dropLast else readInstruction text

end TickMachine.Assembly
