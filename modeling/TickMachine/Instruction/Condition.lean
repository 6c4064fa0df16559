import TickMachine.Binary.Single

/-! # Condition bits

Three bits say how a result compares with zero. They are held by a machine's condition register
and predicate instructions.
-/

namespace TickMachine.Condition

def positive : UInt8 := 1

def zero : UInt8 := 2

def negative : UInt8 := 4

/-- All condition bits. -/
def all : UInt8 := 7

/-- The bit of an ordering, the left side seen from the right. There is none for values that are
not comparable. -/
def ofOrdering? : Option Ordering → UInt8
  | some .gt => positive
  | some .eq => zero
  | some .lt => negative
  | none => 0

/-- The bit of an integer. -/
def ofInt (n : Int) : UInt8 :=
  ofOrdering? (some (compare n 0))

/-- The bit of a number; a NaN has none. -/
def ofSingle (x : Single) : UInt8 :=
  ofOrdering? (x.compare? .zero)

/-- The bit that a letter stands for, in either case. -/
def ofLetter? (c : Char) : Option UInt8 :=
  match c.toLower with
  | 'p' => some positive
  | 'z' => some zero
  | 'n' => some negative
  | _ => none

/-- Reads at least one letter; order and repetition do not matter. -/
def ofLetters? (cs : List Char) : Option UInt8 :=
  if cs.isEmpty then none else (cs.mapM ofLetter?).map fun bits => bits.foldl (· ||| ·) 0

/-- The letters of the condition bits of a byte. -/
def letters (bits : UInt8) : String :=
  let letter (bit : UInt8) (c : Char) : List Char := if bits &&& bit = 0 then [] else [c]
  String.ofList (letter positive 'p' ++ letter zero 'z' ++ letter negative 'n')

end TickMachine.Condition
