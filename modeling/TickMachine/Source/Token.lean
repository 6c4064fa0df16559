import TickMachine.Source.Keyword
import TickMachine.Source.Position
import TickMachine.Source.Symbol
import TickMachine.Text.Bounded

/-! # Tokens -/

namespace TickMachine

/-- The greatest length of a token text in bytes. -/
def maxTokenSize : Nat := 128

inductive TokenKind
  /-- The end of the source. -/
  | eof
  | int
  | dec
  | str
  | ident
  | typeName
  /-- Stands for text that is no token, when the lexer goes on after a mistake. -/
  | error
  | keyword (k : Keyword)
  | symbol (s : Symbol)
deriving DecidableEq, Repr

namespace TokenKind

/-- The kind of a word: reserved words have their own, any other word is an identifier. -/
def ofWord (word : String) : TokenKind :=
  match Keyword.ofWord? word with
  | some k => keyword k
  | none => if word ∈ typeNames then typeName else ident

def isKeyword : TokenKind → Bool
  | keyword _ => true
  | _ => false

/-- The name of the kind in messages. -/
def name : TokenKind → String
  | eof => "end of file"
  | int => "integer literal"
  | dec => "decimal literal"
  | str => "string literal"
  | ident => "identifier"
  | typeName => "type name"
  | error => "invalid input"
  | keyword k => k.spelling
  | symbol s => String.ofList s.spelling

end TokenKind

/-- A token with the place it comes from. The text of a string literal is without its quotes. -/
structure Token where
  kind : TokenKind
  text : BoundedText maxTokenSize
  file : String
  position : Position
deriving DecidableEq, Repr

namespace Token

/-- The token at the end of a source. -/
def eof (file : String) (position : Position) : Token :=
  ⟨.eof, .empty, file, position⟩

/-- The token in messages. -/
def mention (t : Token) : String :=
  match t.kind with
  | .int | .dec | .ident | .typeName | .error => s!"{t.kind.name}({t.text.text})"
  | .str => s!"'{t.text.text}'"
  | _ => t.kind.name

end Token

end TickMachine
