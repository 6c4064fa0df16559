import TickMachine.Binary.Format
import TickMachine.Text.Numeral

/-! # Decimal numbers and their rounding

Decimal numbers as they are written in sources, and the binary pattern nearest to one. All
arithmetic is exact; a value halfway between two patterns goes to the even one, and a value beyond
the largest finite pattern by half a step or more goes to infinity.
-/

namespace TickMachine

/-- The number `digits * 10 ^ exponent`, with a sign that zero may carry too. -/
structure Decimal where
  negative : Bool
  digits : Nat
  exponent : Int
deriving DecidableEq, Repr

/-- The whole number nearest to a quotient, the even one of two equally near. -/
def roundHalfEven (numerator denominator : Nat) : Nat :=
  let q := numerator / denominator
  let r := numerator % denominator
  if 2 * r < denominator ∨ (2 * r = denominator ∧ q % 2 = 0) then q else q + 1

namespace Decimal

open Text

/-- Cuts off the digits in front and, if there is a point behind them, those behind the point. -/
def spanDigits (cs : List Char) : List Char × List Char × List Char :=
  let whole := cs.takeWhile Char.isDigit
  match cs.dropWhile Char.isDigit with
  | '.' :: rest => (whole, rest.takeWhile Char.isDigit, rest.dropWhile Char.isDigit)
  | rest => (whole, [], rest)

/-- Reads an exponent, which may be left out. -/
def exponent? : List Char → Option Int
  | [] => some 0
  | 'e' :: rest | 'E' :: rest => integer? rest
  | _ => none

/-- Reads `digits[.digits]` or `.digits`, an optional sign in front and an optional exponent
behind, and nothing else. -/
def ofChars? (cs : List Char) : Option Decimal := do
  let (negative, cs) := splitSign cs
  let (whole, fraction, rest) := spanDigits cs
  let digits ← natural? (whole ++ fraction)
  let exponent ← exponent? rest
  return ⟨negative, digits, exponent - fraction.length⟩

/-- Exponents outside of `-reach ≤ e ≤ reach` leave every supported format. -/
def reach : Int := 400

/-- The exponent of the lowest power of two at or below a positive quotient. -/
def floorLog2 (numerator denominator : Nat) : Int :=
  let e : Int := numerator.log2 - denominator.log2
  let atMost : Bool :=
    if e < 0 then denominator ≤ numerator * Nat.pow 2 (-e).toNat
    else denominator * Nat.pow 2 e.toNat ≤ numerator
  if atMost then e else e - 1

/-- The magnitude nearest to a positive quotient. -/
def roundQuotient (f : FloatFormat) (numerator denominator : Nat) : Nat :=
  let e := max f.leastExponent (floorLog2 numerator denominator - f.fractionBits)
  let rounded :=
    if e < 0 then roundHalfEven (numerator * Nat.pow 2 (-e).toNat) denominator
    else roundHalfEven numerator (denominator * Nat.pow 2 e.toNat)
  min f.infinity (rounded + (e - f.leastExponent).toNat * f.hiddenBit)

/-- The magnitude nearest to the number without its sign. -/
def roundMagnitude (f : FloatFormat) (d : Decimal) : Nat :=
  if d.digits = 0 then 0
  else if reach < d.exponent then f.infinity
  else if d.exponent + (Nat.toDigits 10 d.digits).length < -reach then 0
  else if d.exponent < 0 then roundQuotient f d.digits (Nat.pow 10 (-d.exponent).toNat)
  else roundQuotient f (d.digits * Nat.pow 10 d.exponent.toNat) 1

/-- The bit pattern nearest to the number. -/
def round (f : FloatFormat) (d : Decimal) : Nat :=
  f.withSign d.negative (roundMagnitude f d)

end Decimal

end TickMachine
