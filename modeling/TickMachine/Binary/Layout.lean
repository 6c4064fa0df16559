import TickMachine.Binary.Shortest

/-! # Layouts of floating point numbers

How the shortest digits of a number are set: with a decimal point in place, or with one digit
before the point and an exponent behind.
-/

namespace TickMachine

/-- The decisions of a way to write numbers. -/
structure FloatLayout where
  /-- Whether a number whose leading digit has this exponent is written without an exponent. -/
  positional : Int → Bool
  /-- Whether a whole number in positional form gets a fraction of zero. -/
  keepsFraction : Bool

namespace FloatLayout

/-- Numbers from `0.0001` up to below `1e16` are positional and show that they are not integers,
all others have an exponent. -/
def literal : FloatLayout := ⟨fun e => -4 ≤ e && e < 16, true⟩

/-- All numbers are positional, whole numbers look like integers. -/
def plain : FloatLayout := ⟨fun _ => true, false⟩

/-- Sets digits so that `point` of them stand before the decimal point. -/
def setPositional (layout : FloatLayout) (digits : List Char) (point : Int) : List Char :=
  let whole := if layout.keepsFraction then ['.', '0'] else []
  if point ≤ 0 then ['0', '.'] ++ List.replicate (-point).toNat '0' ++ digits
  else if digits.length ≤ point then
    digits ++ List.replicate (point.toNat - digits.length) '0' ++ whole
  else digits.take point.toNat ++ ['.'] ++ digits.drop point.toNat

/-- Sets the first digit before the point and all others behind it. -/
def setScientific (digits : List Char) (exponent : Int) : List Char :=
  let mantissa := match digits with
    | [] => []
    | [d] => [d]
    | d :: rest => d :: '.' :: rest
  mantissa ++ ['e'] ++ (toString exponent).toList

/-- The text of a finite magnitude. -/
def magnitudeText (layout : FloatLayout) (f : FloatFormat) (magnitude : Nat) : List Char :=
  if magnitude = 0 then '0' :: (if layout.keepsFraction then ['.', '0'] else [])
  else
    let (n, exponent) := shortestDigits f magnitude
    let digits := Nat.toDigits 10 n
    let point := digits.length + exponent
    if layout.positional (point - 1) then layout.setPositional digits point
    else setScientific digits (point - 1)

/-- The text of a bit pattern. A NaN is written without its sign. -/
def text (layout : FloatLayout) (f : FloatFormat) (bits : Nat) : String :=
  if f.isNan bits then "NaN"
  else
    let magnitude := f.magnitude bits
    let body := if magnitude = f.infinity then "inf".toList else layout.magnitudeText f magnitude
    String.ofList (if f.isNegative bits then '-' :: body else body)

end FloatLayout

end TickMachine
