import TickMachine.Text.Numeral
import TickMachine.Text.Quoted

/-! # Text for a terminal

A text may hold controls on which a terminal would act: ring, step back, clear its page, or take
what follows as a command. Here these are written as escapes, so that the text is only shown.
-/

namespace TickMachine.Text

/-- The controls within ASCII on which a terminal acts and that no text layout needs: bell,
backspace, form feed, escape and delete. -/
def terminalControls : List Char := ['\x07', '\x08', '\x0c', '\x1b', '\x7f']

/-- A character as a terminal may get it: of the controls within ASCII those on which it acts, and
all beyond, are escaped. -/
def shieldChar (c : Char) : List Char :=
  if terminalControls.contains c then ['\\', 'x'] ++ hexByte (.ofNat c.toNat)
  else if 0x80 ≤ c.toNat ∧ c.toNat ≤ 0x9f then codePointEscape c
  else [c]

/-- A text as a terminal may get it. -/
def shielded (text : String) : String :=
  String.ofList (text.toList.flatMap shieldChar)

end TickMachine.Text
