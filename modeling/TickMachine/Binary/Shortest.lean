import TickMachine.Binary.Format

/-! # Shortest decimal digits

The decimal number with the fewest digits among those that round to a given pattern, and of these
the one nearest to its value. Everything is scaled to whole numbers: a pattern `m * 2 ^ e` and the
two points halfway to its neighbours are multiples of one power of ten, so the search for the
coarsest decimal grid with a point between them needs no fractions.
-/

namespace TickMachine

/-- A value between the ends of the interval that rounds to it, as multiples of `10 ^ unit`. The
ends belong to the interval iff `closed`. -/
structure Rounding where
  low : Nat
  value : Nat
  high : Nat
  closed : Bool
  unit : Int
deriving Repr

namespace Rounding

/-- The interval of a positive finite magnitude. Below a power of two the neighbour is only half
as far away. -/
def ofMagnitude (f : FloatFormat) (magnitude : Nat) : Rounding :=
  let m := f.significand magnitude
  let e := f.exponent magnitude - 2
  let lowGap :=
    if magnitude % f.hiddenBit = 0 ∧ 2 * f.hiddenBit ≤ magnitude then 1 else 2
  let scale := if e < 0 then Nat.pow 5 (-e).toNat else Nat.pow 2 e.toNat
  { low := (4 * m - lowGap) * scale
    value := 4 * m * scale
    high := (4 * m + 2) * scale
    closed := m % 2 = 0
    unit := min e 0 }

def contains (r : Rounding) (n : Nat) : Bool :=
  if r.closed then r.low ≤ n && n ≤ r.high else r.low < n && n < r.high

/-- The point of the grid of multiples of `10 ^ places` that is nearest to the value, if one lies
in the interval. Of two equally near points it is the upper one. -/
def nearest? (r : Rounding) (places : Nat) : Option Nat :=
  let step := Nat.pow 10 places
  let n := r.value / step
  let below := n * step
  let above := (n + 1) * step
  match r.contains below, r.contains above with
  | true, true => some (if r.value - below < above - r.value then n else n + 1)
  | true, false => some n
  | false, true => some (n + 1)
  | false, false => none

/-- The point of the coarsest grid with one in the interval, from the given number of places
down, with that number. The finest grid holds the value itself. -/
def coarsest (r : Rounding) : Nat → Nat × Nat
  | 0 => (r.value, 0)
  | places + 1 => match r.nearest? (places + 1) with
    | some n => (n, places + 1)
    | none => r.coarsest places

end Rounding

/-- Digits and exponent of the shortest number that rounds to a positive finite magnitude. -/
def shortestDigits (f : FloatFormat) (magnitude : Nat) : Nat × Int :=
  let r := Rounding.ofMagnitude f magnitude
  let (digits, places) := r.coarsest (r.high.log2 / 3 + 1)
  (digits, r.unit + places)

end TickMachine
