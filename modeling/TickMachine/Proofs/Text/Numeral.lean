import Mathlib.Data.Option.Basic
import TickMachine.Text.Numeral

/-! # Reading numerals back

Decimal numerals as they are written for numbers are read as these numbers.
-/

namespace TickMachine.Text

/-- The decimal digits of a number. -/
def decimal (n : Nat) : List Char :=
  Nat.toDigits 10 n

theorem toList_toString_nat (n : Nat) : (toString n).toList = decimal n := by
  rw [Nat.toString_eq_repr, Nat.toList_repr, decimal]

theorem decimal_ne_nil (n : Nat) : decimal n ≠ [] :=
  Nat.toDigits_ne_nil

theorem isDigit_of_mem_decimal {n : Nat} : ∀ c ∈ decimal n, c.isDigit = true :=
  fun _ hc => Nat.isDigit_of_mem_toDigits (by decide) (by decide) hc

theorem digit?_of_isDigit {c : Char} (h : c.isDigit = true) :
    digit? c = some (c.toNat - '0'.toNat) := by
  have hc : '0' ≤ c ∧ c ≤ '9' := by
    rw [Char.isDigit, Bool.and_eq_true, decide_eq_true_iff, decide_eq_true_iff] at h
    exact h
  rw [digit?, if_pos hc]

theorem mapM_digit? {cs : List Char} (h : ∀ c ∈ cs, c.isDigit = true) :
    cs.mapM digit? = some (cs.map fun c => c.toNat - '0'.toNat) := by
  induction cs with
  | nil => rfl
  | cons c cs ih =>
      obtain ⟨hc, hcs⟩ := List.forall_mem_cons.mp h
      rw [List.mapM_cons, digit?_of_isDigit hc, ih hcs]
      rfl

/-- The number denoted by digits is found as the library finds it. -/
theorem ofDigits_map (cs : List Char) :
    ofDigits 10 (cs.map fun c => c.toNat - '0'.toNat) = Nat.ofDigitChars 10 cs 0 := by
  rw [ofDigits, List.foldl_map, Nat.ofDigitChars_eq_foldl]
  simp only [Nat.mul_comm]

/-- Digits are read as the number that they denote. -/
theorem natural?_of_isDigit {cs : List Char} (hne : cs ≠ []) (h : ∀ c ∈ cs, c.isDigit = true) :
    natural? cs = some (Nat.ofDigitChars 10 cs 0) := by
  have hsome : cs.isEmpty = false := by simpa using hne
  rw [natural?, hsome, mapM_digit? h, Option.map_some, ofDigits_map]
  rfl

theorem natural?_decimal (n : Nat) : natural? (decimal n) = some n := by
  rw [natural?_of_isDigit (decimal_ne_nil n) isDigit_of_mem_decimal, decimal,
    Nat.ofDigitChars_ten_toDigits]

/-- A numeral begins with a digit, not with a sign. -/
theorem splitSign_of_isDigit {cs : List Char} (h : ∀ c ∈ cs.head?, c.isDigit = true) :
    splitSign cs = (false, cs) := by
  unfold splitSign
  split
  · cases h '-' rfl
  · cases h '+' rfl
  · rfl

theorem integer?_of_isDigit {cs : List Char} (hne : cs ≠ []) (h : ∀ c ∈ cs, c.isDigit = true) :
    integer? cs = some (Nat.ofDigitChars 10 cs 0 : Int) := by
  rw [integer?, splitSign_of_isDigit fun c hc => h c (List.mem_of_mem_head? hc)]
  simp [natural?_of_isDigit hne h]

theorem isDigit_head_decimal (n : Nat) : ∀ c ∈ (decimal n).head?, c.isDigit = true :=
  fun c hc => isDigit_of_mem_decimal c (List.mem_of_mem_head? hc)

theorem integer?_decimal (n : Nat) : integer? (decimal n) = some (n : Int) := by
  rw [integer?, splitSign_of_isDigit (isDigit_head_decimal n)]
  simp [natural?_decimal]

theorem integer?_neg_decimal (n : Nat) : integer? ('-' :: decimal n) = some (-n : Int) := by
  simp [integer?, splitSign, natural?_decimal]

/-- An integer is written as a numeral, with a minus in front if it is negative. -/
theorem toList_toString_int (n : Int) :
    (toString n).toList = decimal n.toNat ∧ 0 ≤ n ∨
      (toString n).toList = '-' :: decimal n.natAbs ∧ n < 0 := by
  cases n with
  | ofNat n => exact .inl ⟨toList_toString_nat n, Int.natCast_nonneg n⟩
  | negSucc n =>
      refine .inr ⟨?_, Int.negSucc_lt_zero n⟩
      change ("-" ++ Nat.repr (n + 1)).toList = _
      rw [String.toList_append, Nat.toList_repr]
      rfl

theorem integer?_toString (n : Int) : integer? (toString n).toList = some n := by
  rcases toList_toString_int n with ⟨hdigits, hn⟩ | ⟨hdigits, hn⟩
  · rw [hdigits, integer?_decimal, Int.toNat_of_nonneg hn]
  · rw [hdigits, integer?_neg_decimal, Int.ofNat_natAbs_of_nonpos (Int.le_of_lt hn), Int.neg_neg]

end TickMachine.Text
