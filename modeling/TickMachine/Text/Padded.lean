/-! # Padded texts

Filling a text with spaces up to a width counted in characters. A longer text is left whole.
-/

namespace TickMachine.Text

/-- The text at the right end of a field of the given width. -/
def padLeft (width : Nat) (text : String) : String :=
  String.ofList (text.toList.leftpad width ' ')

/-- The text at the left end of a field of the given width. -/
def padRight (width : Nat) (text : String) : String :=
  String.ofList (text.toList.rightpad width ' ')

end TickMachine.Text
