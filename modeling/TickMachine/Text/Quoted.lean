import TickMachine.Text.Extender
import TickMachine.Text.Unprintable

/-! # Quoted texts

Writing a character or a text between quotes so that every character can be seen: the quote, the
backslash and the usual controls have short escapes, characters that cannot be shown alone are
written by their code point in braces.
-/

namespace TickMachine.Text

/-- A character as the hexadecimal number of its code point, in braces behind `\u`. -/
def codePointEscape (c : Char) : List Char :=
  ['\\', 'u', '{'] ++ Nat.toDigits 16 c.toNat ++ ['}']

/-- A character as it stands between two of the given quotes. -/
def escape (quote c : Char) : List Char :=
  match c with
  | '\x00' => ['\\', '0']
  | '\t' => ['\\', 't']
  | '\r' => ['\\', 'r']
  | '\n' => ['\\', 'n']
  | '\\' => ['\\', '\\']
  | c =>
    if c = quote then ['\\', c]
    else if isExtender c || isUnprintable c then codePointEscape c
    else [c]

/-- A text between double quotes. -/
def quoted (text : String) : String :=
  String.ofList (['"'] ++ text.toList.flatMap (escape '"') ++ ['"'])

/-- A character between single quotes. -/
def quotedChar (c : Char) : String :=
  String.ofList (['\''] ++ escape '\'' c ++ ['\''])

end TickMachine.Text
