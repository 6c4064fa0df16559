import TickMachine.Binary.Decimal
import TickMachine.Binary.Layout

/-! # Double precision numbers

Numbers of 64 bits, kept as their bit pattern.
-/

namespace TickMachine

/-- A double precision number. Equality is equality of patterns, not of values. -/
structure Double where
  bits : UInt64
deriving DecidableEq, Repr, Inhabited

namespace Double

def ofMagnitude (negative : Bool) (magnitude : Nat) : Double :=
  ⟨.ofNat (FloatFormat.double.withSign negative magnitude)⟩

/-- The nearest number to a decimal number. -/
def ofDecimal (d : Decimal) : Double := ⟨.ofNat (d.round .double)⟩

/-- Reads a decimal number, `nan`, `inf` or `infinity`; the words stand in any case and may have
a sign. -/
def ofChars? (cs : List Char) : Option Double :=
  let (negative, word) := Text.splitSign cs
  match String.ofList (word.map Char.toLower) with
  | "nan" => some (ofMagnitude negative FloatFormat.double.quietNan)
  | "inf" | "infinity" => some (ofMagnitude negative FloatFormat.double.infinity)
  | _ => (Decimal.ofChars? cs).map ofDecimal

/-- The text in which the number is recognisable as one with a fraction. -/
def literal (x : Double) : String := FloatLayout.literal.text .double x.bits.toNat

/-- The text without an exponent, in which a whole number looks like an integer. -/
def plain (x : Double) : String := FloatLayout.plain.text .double x.bits.toNat

end Double

end TickMachine
