import TickMachine.Source.Token
import TickMachine.Text.Blank

/-! # Lexemes

What stands at the front of a text, and how many characters of it belong together. The first
character decides which rule applies, and every rule takes as much as it can.
-/

namespace TickMachine

/-- Why a text is no token. -/
inductive LexFault
  | unterminatedString
  | unterminatedComment
  | malformedNumber
  | tokenTooLong
deriving DecidableEq, Repr

def LexFault.message : LexFault → String
  | unterminatedString => "Unterminated string literal"
  | unterminatedComment => "Unterminated block comment"
  | malformedNumber => "Numeric literal contains more than one '.'"
  | tokenTooLong => s!"Token exceeds {maxTokenSize} bytes"

/-- What a piece of a text is. -/
inductive Lexeme
  /-- Whitespace or a comment. -/
  | gap
  /-- A character that starts no lexeme. -/
  | stray (c : Char)
  | token (kind : TokenKind) (text : BoundedText maxTokenSize)
  | fault (cause : LexFault)
deriving DecidableEq, Repr

namespace Lexeme

def isFault : Lexeme → Bool
  | fault _ => true
  | _ => false

/-- A token, unless its text is too long for one. -/
def ofText (kind : TokenKind) (text : List Char) : Lexeme :=
  match BoundedText.ofString (String.ofList text) with
  | .ok text => token kind text
  | .error _ => fault .tokenTooLong

/-- Spaces between tokens. Other blank characters are strays. -/
def isSpace (c : Char) : Bool :=
  c == ' ' || c == '\t' || c == '\r' || c == '\n'

def isWordChar (c : Char) : Bool :=
  c.isAlpha || c == '_'

def isNumberChar (c : Char) : Bool :=
  c.isDigit || c == '.'

/-- A run of digits and points is a number when it has at most one point. -/
def ofNumber (text : List Char) : Lexeme :=
  match text.count '.' with
  | 0 => ofText .int text
  | 1 => ofText .dec text
  | _ => fault .malformedNumber

/-- The number of characters in front of the end of a block comment. -/
def commentLength? : List Char → Option Nat
  | [] => none
  | '*' :: '/' :: _ => some 0
  | _ :: cs => (commentLength? cs).map (· + 1)

/-- The lexeme at the front of a text and its length. -/
def scan : List Char → Lexeme × Nat
  | [] => (gap, 0)
  | '/' :: '/' :: rest => (gap, 2 + (rest.takeWhile (· ≠ '\n')).length)
  | '/' :: '*' :: rest =>
    match commentLength? rest with
    | some n => (gap, 2 + n + 2)
    | none => (fault .unterminatedComment, 2 + rest.length)
  | '\'' :: rest =>
    let content := rest.takeWhile (· ≠ '\'')
    if content.length < rest.length then (ofText .str content, 1 + content.length + 1)
    else (fault .unterminatedString, 1)
  | c :: rest =>
    let cs := c :: rest
    if isSpace c then (gap, (cs.takeWhile isSpace).length)
    else if isWordChar c then
      let word := cs.takeWhile isWordChar
      (ofText (.ofWord (String.ofList word)) word, word.length)
    else if c.isDigit then
      let number := cs.takeWhile isNumberChar
      (ofNumber number, number.length)
    else match Symbol.atFront? cs with
      | some s => (ofText (.symbol s) s.spelling, s.spelling.length)
      | none => (stray c, 1)

/-- The lexeme at the front of a text and the number of characters it uses up. A fault spoils the
text up to the next blank character. -/
def take (cs : List Char) : Lexeme × Nat :=
  let (lexeme, length) := scan cs
  if lexeme.isFault then (lexeme, max length (cs.takeWhile (!Text.isBlank ·)).length)
  else (lexeme, length)

end Lexeme

end TickMachine
