import TickMachine.Binary.Decimal
import TickMachine.Binary.Layout

/-! # Single precision numbers

Numbers of 32 bits, kept as their bit pattern.
-/

namespace TickMachine

/-- A single precision number. Equality is equality of patterns, not of values. -/
structure Single where
  bits : UInt32
deriving DecidableEq, Repr, Inhabited

namespace Single

def ofMagnitude (negative : Bool) (magnitude : Nat) : Single :=
  ⟨.ofNat (FloatFormat.single.withSign negative magnitude)⟩

def zero : Single := ⟨0⟩

def one : Single := ⟨0x3f800000⟩

def isNan (x : Single) : Bool := FloatFormat.single.isNan x.bits.toNat

/-- The nearest number to a decimal number. -/
def ofDecimal (d : Decimal) : Single := ⟨.ofNat (d.round .single)⟩

/-- Reads a decimal number, `nan` or `inf`; the two words stand in any case and without a sign. -/
def ofChars? (cs : List Char) : Option Single :=
  match String.ofList (cs.map Char.toLower) with
  | "nan" => some (ofMagnitude false FloatFormat.single.quietNan)
  | "inf" => some (ofMagnitude false FloatFormat.single.infinity)
  | _ => (Decimal.ofChars? cs).map ofDecimal

/-- The order of values: the two zeros are equal and a NaN is not comparable. -/
def compare? (x y : Single) : Option Ordering :=
  FloatFormat.single.compare? x.bits.toNat y.bits.toNat

/-- The text in which the number is recognisable as one with a fraction. -/
def literal (x : Single) : String := FloatLayout.literal.text .single x.bits.toNat

def toFloat (x : Single) : Float32 := .ofBits x.bits

def ofFloat (x : Float32) : Single := ⟨x.toBits⟩

instance : Add Single := ⟨fun x y => ofFloat (x.toFloat + y.toFloat)⟩

instance : Sub Single := ⟨fun x y => ofFloat (x.toFloat - y.toFloat)⟩

instance : Mul Single := ⟨fun x y => ofFloat (x.toFloat * y.toFloat)⟩

/-- Negation flips the sign bit. -/
instance : Neg Single := ⟨fun x => ⟨x.bits ^^^ 0x80000000⟩⟩

end Single

end TickMachine
