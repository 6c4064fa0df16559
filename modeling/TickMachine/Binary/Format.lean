/-! # Binary floating point formats

A format of the usual interchange kind: one sign bit, a biased exponent field and a fraction
field. Values are handled as bit patterns, so every statement about them is one about numbers.
Patterns are ordered like the values they stand for: the magnitude, read as a natural number,
grows with the value, infinity comes above all finite values and the NaNs above infinity.
-/

namespace TickMachine

/-- The widths of the two fields behind the sign bit. -/
structure FloatFormat where
  fractionBits : Nat
  exponentBits : Nat
deriving DecidableEq, Repr

namespace FloatFormat

/-- The format of 32 bits. -/
def single : FloatFormat := ⟨23, 8⟩

/-- The format of 64 bits. -/
def double : FloatFormat := ⟨52, 11⟩

variable (f : FloatFormat)

/-- The weight of the sign bit. -/
def signWeight : Nat := Nat.pow 2 (f.fractionBits + f.exponentBits)

/-- The leading bit of a significand, which no pattern holds. It is also the number of magnitudes
with one exponent field. -/
def hiddenBit : Nat := Nat.pow 2 f.fractionBits

/-- The magnitude of infinity. -/
def infinity : Nat := (Nat.pow 2 f.exponentBits - 1) * f.hiddenBit

/-- The magnitude of the quiet NaN without payload. -/
def quietNan : Nat := f.infinity + f.hiddenBit / 2

/-- A bit pattern without its sign. -/
def magnitude (bits : Nat) : Nat := bits % f.signWeight

def isNegative (bits : Nat) : Bool := f.signWeight ≤ bits

def isNan (bits : Nat) : Bool := f.infinity < f.magnitude bits

/-- Puts the sign in front of a magnitude. -/
def withSign (negative : Bool) (magnitude : Nat) : Nat :=
  if negative then f.signWeight + magnitude else magnitude

/-- The exponent of the last place of the smallest values. -/
def leastExponent : Int := 2 - Nat.pow 2 (f.exponentBits - 1) - f.fractionBits

/-- The integer `m` of a finite magnitude `m * 2 ^ e`. -/
def significand (magnitude : Nat) : Nat :=
  if magnitude < f.hiddenBit then magnitude
  else f.hiddenBit + magnitude % f.hiddenBit

/-- The exponent `e` of a finite magnitude `m * 2 ^ e`. The two lowest exponent fields share the
smallest exponent. -/
def exponent (magnitude : Nat) : Int :=
  f.leastExponent + (magnitude / f.hiddenBit - 1 : Nat)

/-- The place of a pattern in the order of values: both zeros are at 0. -/
def rank (bits : Nat) : Int :=
  if f.isNegative bits then -(f.magnitude bits : Int) else f.magnitude bits

/-- Compares two patterns by value. A NaN is not comparable with anything. -/
def compare? (a b : Nat) : Option Ordering :=
  if f.isNan a || f.isNan b then none else some (compare (f.rank a) (f.rank b))

end FloatFormat

end TickMachine
