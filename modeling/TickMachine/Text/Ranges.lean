/-! # Character ranges

Sets of characters written as ascending lists of disjoint inclusive ranges of code points.
-/

namespace TickMachine.Text

/-- Whether a code point lies in one of the ascending ranges. -/
def inRanges : List (Nat × Nat) → Nat → Bool
  | [], _ => false
  | (low, high) :: rest, n => if n < low then false else n ≤ high || inRanges rest n

end TickMachine.Text
