import Mathlib.Algebra.Order.Field.Basic
import Mathlib.Algebra.Order.Field.Power
import Mathlib.Data.Rat.Cast.Order
import Mathlib.Order.Monotone.Basic
import Mathlib.Tactic.FieldSimp
import Mathlib.Tactic.Linarith
import Mathlib.Tactic.NormNum
import Mathlib.Tactic.Positivity
import Mathlib.Tactic.Ring
import TickMachine.Binary.Decimal

/-! # The nearest binary number

Which bit pattern a decimal number is rounded to is said here with rational numbers: the nearest of
all, the even one of two equally near, and infinity for what is nearest to a pattern beyond all
finite ones. The rounding of a quotient is shown to find it without fractions.
-/

namespace TickMachine

/-- The nearer one of the two whole numbers around a number, of which the lower one is given, or the
even one where both are as near. -/
inductive NearestWhole (n : Nat) (x : ℚ) : Nat → Prop
  | down (h : x - n < n + 1 - x ∨ x - n = n + 1 - x ∧ n % 2 = 0) : NearestWhole n x n
  | up (h : n + 1 - x < x - n ∨ n + 1 - x = x - n ∧ (n + 1) % 2 = 0) : NearestWhole n x (n + 1)

namespace FloatFormat

variable (f : FloatFormat)

/-- The value of a magnitude. Infinity and what is above it have the values that would be next if
the exponents went on. -/
def value (m : Nat) : ℚ :=
  f.significand m * 2 ^ f.exponent m

/-- The magnitude is the nearest of all to the number, and even if another one is as near. -/
structure Nearest (x : ℚ) (m : Nat) : Prop where
  le : ∀ other, |f.value m - x| ≤ |f.value other - x|
  even : ∀ other ≠ m, |f.value other - x| = |f.value m - x| → m % 2 = 0

variable {f} {m n k : Nat} {x : ℚ}

/-! ## Magnitudes in their order -/

theorem hiddenBit_pos (f : FloatFormat) : 0 < f.hiddenBit :=
  Nat.pow_pos (by decide)

theorem two_zpow_pos (e : Int) : (0 : ℚ) < 2 ^ e :=
  zpow_pos (by norm_num) e

theorem value_of_lt (h : m < f.hiddenBit) : f.value m = m * 2 ^ f.leastExponent := by
  have hexponent : f.exponent m = f.leastExponent := by
    rw [exponent, Nat.div_eq_of_lt h]
    exact Int.add_zero _
  rw [value, significand, if_pos h, hexponent]

@[simp] theorem value_zero (f : FloatFormat) : f.value 0 = 0 := by
  rw [value_of_lt f.hiddenBit_pos, Nat.cast_zero, zero_mul]

/-- Above the hidden bit the exponent counts how often the hidden bit goes into the magnitude. -/
theorem value_hiddenBit_add (h : n < f.hiddenBit) (k : Nat) :
    f.value (n + (k + 1) * f.hiddenBit) = (f.hiddenBit + n : Nat) * 2 ^ (f.leastExponent + k) := by
  have hle : ¬ n + (k + 1) * f.hiddenBit < f.hiddenBit := by
    rw [Nat.add_one_mul]
    omega
  have hsignificand : f.significand (n + (k + 1) * f.hiddenBit) = f.hiddenBit + n := by
    rw [significand, if_neg hle, Nat.add_mul_mod_self_right, Nat.mod_eq_of_lt h]
  have hexponent : f.exponent (n + (k + 1) * f.hiddenBit) = f.leastExponent + k := by
    rw [exponent, Nat.add_mul_div_right _ _ f.hiddenBit_pos, Nat.div_eq_of_lt h, Nat.zero_add,
      Nat.add_sub_cancel]
  rw [value, hsignificand, hexponent]

/-- A significand with its exponent, also one that needs one bit more. -/
theorem value_add (hn : n ≤ 2 * f.hiddenBit) (hk : f.hiddenBit ≤ n ∨ k = 0) :
    f.value (n + k * f.hiddenBit) = n * 2 ^ (f.leastExponent + k) := by
  rcases Nat.lt_or_ge n f.hiddenBit with hlow | hlow
  · obtain rfl : k = 0 := hk.resolve_left (Nat.not_le_of_lt hlow)
    rw [Nat.zero_mul, Nat.add_zero, value_of_lt hlow]
    simp
  · obtain ⟨r, rfl⟩ := Nat.exists_eq_add_of_le hlow
    rcases Nat.lt_or_ge r f.hiddenBit with hr | hr
    · have hsplit : f.hiddenBit + r + k * f.hiddenBit = r + (k + 1) * f.hiddenBit := by ring
      rw [hsplit, value_hiddenBit_add hr]
    · -- the next power of two, which has the next exponent
      obtain rfl : r = f.hiddenBit := by omega
      have hsplit : f.hiddenBit + f.hiddenBit + k * f.hiddenBit =
          0 + (k + 1 + 1) * f.hiddenBit := by ring
      rw [hsplit, value_hiddenBit_add f.hiddenBit_pos, Nat.add_zero]
      have hexponent : f.leastExponent + (k + 1 : Nat) = f.leastExponent + k + 1 := by
        rw [Int.natCast_add, Int.add_assoc]
        rfl
      rw [hexponent, zpow_add_one₀ (by norm_num)]
      push_cast
      ring

/-- Every magnitude has a significand, which may lack the hidden bit only with the least
exponent. -/
theorem exists_significand (f : FloatFormat) (m : Nat) :
    ∃ n k, m = n + k * f.hiddenBit ∧ n < 2 * f.hiddenBit ∧ (f.hiddenBit ≤ n ∨ k = 0) := by
  rcases Nat.lt_or_ge m f.hiddenBit with hlow | hlow
  · exact ⟨m, 0, by omega, by omega, .inr rfl⟩
  · obtain ⟨r, rfl⟩ := Nat.exists_eq_add_of_le hlow
    have hmod := Nat.mod_lt r f.hiddenBit_pos
    refine ⟨f.hiddenBit + r % f.hiddenBit, r / f.hiddenBit, ?_, by omega, .inl (by omega)⟩
    rw [Nat.add_assoc, Nat.mod_add_div']

theorem value_lt_value_succ (f : FloatFormat) (m : Nat) : f.value m < f.value (m + 1) := by
  obtain ⟨n, k, rfl, hn, hk⟩ := f.exists_significand m
  have hsucc : n + k * f.hiddenBit + 1 = n + 1 + k * f.hiddenBit := by omega
  rw [hsucc, value_add (Nat.le_of_lt hn) hk, value_add hn (hk.imp_left Nat.le_succ_of_le)]
  exact mul_lt_mul_of_pos_right (by exact_mod_cast n.lt_succ_self) (two_zpow_pos _)

theorem value_strictMono (f : FloatFormat) : StrictMono f.value :=
  strictMono_nat_of_lt_succ f.value_lt_value_succ

/-! ## Nearest magnitudes -/

/-- What is nearer than one distance, or as near and preferred, is so to all that is farther. -/
theorem near_trans {a b c : ℚ} {preferred : Prop} (h : a < b ∨ a = b ∧ preferred) (hle : b ≤ c) :
    a < c ∨ a = c ∧ preferred := by
  rcases h with hlt | ⟨rfl, hpreferred⟩
  · exact .inl (lt_of_lt_of_le hlt hle)
  · exact (lt_or_eq_of_le hle).imp_right fun heq => ⟨heq, hpreferred⟩

theorem nearest_of_forall (h : ∀ other ≠ m, |f.value m - x| < |f.value other - x| ∨
    |f.value m - x| = |f.value other - x| ∧ m % 2 = 0) : f.Nearest x m := by
  constructor
  · intro other
    rcases eq_or_ne other m with rfl | hne
    · exact le_refl _
    · exact (h other hne).elim le_of_lt fun htie => le_of_eq htie.1
  · intro other hne heq
    exact ((h other hne).resolve_left (ne_of_gt · heq)).2

/-- The magnitude below the number is nearest if the next one is not: no other one could be. -/
theorem nearest_of_near_below (hlow : f.value m ≤ x)
    (h : x - f.value m < f.value (m + 1) - x ∨
      x - f.value m = f.value (m + 1) - x ∧ m % 2 = 0) : f.Nearest x m := by
  refine nearest_of_forall fun other hne => ?_
  rw [abs_sub_comm, abs_of_nonneg (sub_nonneg.mpr hlow)]
  rcases Nat.lt_or_gt_of_ne hne with hother | hother
  · left
    rw [abs_sub_comm]
    exact lt_of_lt_of_le (sub_lt_sub_left (f.value_strictMono hother) x) (le_abs_self _)
  · have hle := f.value_strictMono.monotone (Nat.succ_le_of_lt hother)
    exact near_trans h (le_trans (sub_le_sub_right hle x) (le_abs_self _))

/-- Likewise the magnitude above the number. -/
theorem nearest_of_near_above (hhigh : x ≤ f.value (m + 1))
    (h : f.value (m + 1) - x < x - f.value m ∨
      f.value (m + 1) - x = x - f.value m ∧ (m + 1) % 2 = 0) : f.Nearest x (m + 1) := by
  refine nearest_of_forall fun other hne => ?_
  rw [abs_of_nonneg (sub_nonneg.mpr hhigh)]
  rcases Nat.lt_or_gt_of_ne hne with hother | hother
  · have hle := f.value_strictMono.monotone (Nat.le_of_lt_succ hother)
    rw [abs_sub_comm]
    exact near_trans h (le_trans (sub_le_sub_left hle x) (le_abs_self _))
  · left
    exact lt_of_lt_of_le (sub_lt_sub_right (f.value_strictMono hother) x) (le_abs_self _)

theorem nearest_zero (hx : 0 ≤ x) (h : 2 * x ≤ f.value 1) : f.Nearest x 0 := by
  refine nearest_of_near_below (by rwa [value_zero]) ?_
  rw [value_zero, sub_zero, Nat.zero_add]
  rcases lt_or_eq_of_le h with hlt | htie
  · exact .inl (by linarith)
  · exact .inr ⟨by linarith, rfl⟩

/-- A number beyond all finite magnitudes is nearest to none of them. -/
theorem Nearest.infinity_le (h : f.Nearest x m)
    (hx : f.value f.infinity ≤ x) : f.infinity ≤ m := by
  by_contra hlt
  have hless := f.value_strictMono (Nat.not_le.mp hlt)
  have hle := h.le f.infinity
  rw [abs_sub_comm, abs_of_nonneg (by linarith), abs_sub_comm, abs_of_nonneg (by linarith)] at hle
  linarith

/-- Two even magnitudes have another one between them, so no number is halfway between nearest
ones. -/
theorem Nearest.not_lt {m' : Nat} (h : f.Nearest x m) (h' : f.Nearest x m') : ¬ m < m' := by
  intro hlt
  have hsame : |f.value m - x| = |f.value m' - x| := le_antisymm (h.le m') (h'.le m)
  have heven := h.even m' (Nat.ne_of_gt hlt) hsame.symm
  have heven' := h'.even m (Nat.ne_of_lt hlt) hsame
  have hfirst : f.value m < f.value (m + 1) := f.value_lt_value_succ m
  have hsecond : f.value (m + 1) < f.value m' := f.value_strictMono (by omega)
  -- the number is in the middle, and the magnitude between them is nearer
  have hmiddle : x - f.value m = f.value m' - x := by
    rcases abs_eq_abs.mp hsame with hequal | hequal <;> linarith
  have hnearer := h.le (m + 1)
  rw [abs_sub_comm, abs_of_nonneg (by linarith)] at hnearer
  rcases le_abs.mp hnearer with hle | hle <;> linarith

theorem Nearest.unique {m' : Nat} (h : f.Nearest x m) (h' : f.Nearest x m') : m = m' :=
  Nat.le_antisymm (Nat.not_lt.mp (h'.not_lt h)) (Nat.not_lt.mp (h.not_lt h'))

theorem even_hiddenBit (hf : 0 < f.fractionBits) : f.hiddenBit % 2 = 0 := by
  obtain ⟨bits, hbits⟩ := Nat.exists_eq_succ_of_ne_zero (Nat.ne_of_gt hf)
  rw [hiddenBit, hbits, Nat.pow_eq, Nat.pow_succ]
  exact Nat.mul_mod_left _ _

theorem cast_hiddenBit (f : FloatFormat) : (f.hiddenBit : ℚ) = 2 ^ (f.fractionBits : Int) := by
  rw [hiddenBit, Nat.pow_eq, Nat.cast_pow, zpow_natCast]
  rfl

/-- Multiplied by a power of two, the whole number nearest to a number is the significand nearest to
it. -/
theorem nearest_scaled (hf : 0 < f.fractionBits) {y : ℚ} {rounded : Nat}
    (hn : n < 2 * f.hiddenBit) (hk : f.hiddenBit ≤ n ∨ k = 0) (hlow : n ≤ y) (hhigh : y < n + 1)
    (h : NearestWhole n y rounded) :
    f.Nearest (y * 2 ^ (f.leastExponent + k)) (rounded + k * f.hiddenBit) := by
  have hunit := two_zpow_pos (f.leastExponent + k)
  have hvalue := value_add (Nat.le_of_lt hn) hk
  have hnext := value_add (n := n + 1) hn (hk.imp_left Nat.le_succ_of_le)
  rw [Nat.add_right_comm] at hnext
  push_cast at hnext
  have heven {i : Nat} (hi : i % 2 = 0) : (i + k * f.hiddenBit) % 2 = 0 := by
    rw [Nat.add_mod, hi, Nat.mul_mod, even_hiddenBit hf, Nat.mul_zero]
  cases h with
  | down hnear =>
      refine nearest_of_near_below ?_ ?_
      · rw [hvalue]
        exact mul_le_mul_of_nonneg_right hlow (le_of_lt hunit)
      · rw [hvalue, hnext, ← sub_mul, ← sub_mul]
        refine hnear.imp (fun hlt => mul_lt_mul_of_pos_right hlt hunit) fun htie => ?_
        exact ⟨congrArg (· * _) htie.1, heven htie.2⟩
  | up hnear =>
      rw [Nat.add_right_comm]
      refine nearest_of_near_above ?_ ?_
      · rw [hnext]
        exact mul_le_mul_of_nonneg_right (le_of_lt hhigh) (le_of_lt hunit)
      · rw [hvalue, hnext, ← sub_mul, ← sub_mul]
        refine hnear.imp (fun hlt => mul_lt_mul_of_pos_right hlt hunit) fun htie => ?_
        refine ⟨congrArg (· * _) htie.1, ?_⟩
        rw [Nat.add_right_comm]
        exact heven htie.2

end FloatFormat

/-! ## Rounding a quotient -/

theorem roundHalfEven_spec (numerator : Nat) {denominator : Nat} (h : 0 < denominator) :
    let x : ℚ := numerator / denominator
    let q := numerator / denominator
    (q : ℚ) ≤ x ∧ x < q + 1 ∧ NearestWhole q x (roundHalfEven numerator denominator) := by
  intro x q
  have hpos : (0 : ℚ) < denominator := by exact_mod_cast h
  obtain ⟨r, hr⟩ : ∃ r, numerator % denominator = r := ⟨_, rfl⟩
  have hx : x = q + r / denominator := by
    have hsum : (numerator : ℚ) = denominator * q + r := by
      exact_mod_cast hr ▸ (Nat.div_add_mod numerator denominator).symm
    rw [eq_comm, ← mul_left_inj' (ne_of_gt hpos), add_mul, div_mul_cancel₀ _ (ne_of_gt hpos),
      div_mul_cancel₀ _ (ne_of_gt hpos), hsum, mul_comm]
  have hnonneg : (0 : ℚ) ≤ r / denominator := by positivity
  have hless : (r : ℚ) / denominator < 1 :=
    (div_lt_one hpos).mpr (by exact_mod_cast hr ▸ Nat.mod_lt numerator h)
  -- twice the rest is compared with the denominator
  have hbelow : (r : ℚ) / denominator < 1 / 2 ↔ 2 * r < denominator := by
    rw [div_lt_div_iff₀ hpos (by norm_num), one_mul, mul_comm]
    exact_mod_cast Iff.rfl
  have hhalf : (r : ℚ) / denominator = 1 / 2 ↔ 2 * r = denominator := by
    rw [div_eq_div_iff (ne_of_gt hpos) (by norm_num), one_mul, mul_comm]
    exact_mod_cast Iff.rfl
  refine ⟨by linarith, by linarith, ?_⟩
  rw [roundHalfEven, hr]
  split
  next hdown =>
    rw [← hbelow, ← hhalf] at hdown
    exact .down (hdown.imp (fun hlow => by linarith) (And.imp_left fun htie => by linarith))
  next hup =>
    rw [← hbelow, ← hhalf, not_or, not_and] at hup
    refine .up ?_
    rcases lt_or_eq_of_le (not_lt.mp hup.1) with hhigh | htie
    · exact .inl (by linarith)
    · have hodd := hup.2 htie.symm
      exact .inr ⟨by linarith, by omega⟩

namespace Decimal

variable {f : FloatFormat} {numerator denominator : Nat} {e : Int}

open FloatFormat (two_zpow_pos)

/-- Dividing by a power of two takes no fractions: a negative power goes to the numerator. -/
theorem div_two_zpow_of_neg (numerator denominator : Nat) (he : e < 0) :
    (numerator / denominator : ℚ) / 2 ^ e =
      (numerator * Nat.pow 2 (-e).toNat : Nat) / denominator := by
  have hpower : (2 : ℚ) ^ (-e) = (Nat.pow 2 (-e).toNat : Nat) := by
    rw [Nat.pow_eq, Nat.cast_pow, ← zpow_natCast, Int.toNat_of_nonneg (by omega)]
    rfl
  rw [div_eq_mul_inv _ ((2 : ℚ) ^ e), ← zpow_neg, hpower, Nat.cast_mul, div_mul_eq_mul_div]

theorem div_two_zpow_of_nonneg (numerator denominator : Nat) (he : 0 ≤ e) :
    (numerator / denominator : ℚ) / 2 ^ e =
      numerator / (denominator * Nat.pow 2 e.toNat : Nat) := by
  have hpower : (2 : ℚ) ^ e = (Nat.pow 2 e.toNat : Nat) := by
    rw [Nat.pow_eq, Nat.cast_pow, ← zpow_natCast, Int.toNat_of_nonneg he]
    rfl
  rw [hpower, Nat.cast_mul, div_div]

/-- The logarithms of both parts enclose a quotient between two powers. -/
theorem log2_sub_log2_spec (hn : 0 < numerator) (hd : 0 < denominator)
    (he : (numerator.log2 : Int) - denominator.log2 = e) :
    (2 : ℚ) ^ (e - 1) ≤ numerator / denominator ∧
      (numerator / denominator : ℚ) < 2 ^ (e + 1) := by
  have hpos : (0 : ℚ) < denominator := by exact_mod_cast hd
  have htwo : (2 : ℚ) ≠ 0 := by norm_num
  have hpower {m : Nat} (hm : 0 < m) :
      (2 : ℚ) ^ (m.log2 : Int) ≤ m ∧ (m : ℚ) < 2 ^ ((m.log2 : Int) + 1) := by
    constructor
    · rw [zpow_natCast]
      exact_mod_cast Nat.log2_self_le (Nat.ne_of_gt hm)
    · rw [← Nat.cast_succ, zpow_natCast]
      exact_mod_cast Nat.lt_log2_self
  obtain ⟨hnlow, hnhigh⟩ := hpower hn
  obtain ⟨hdlow, hdhigh⟩ := hpower hd
  constructor
  · rw [le_div_iff₀ hpos]
    calc (2 : ℚ) ^ (e - 1) * denominator
        ≤ 2 ^ (e - 1) * 2 ^ ((denominator.log2 : Int) + 1) :=
          mul_le_mul_of_nonneg_left (le_of_lt hdhigh) (le_of_lt (two_zpow_pos _))
      _ = 2 ^ (numerator.log2 : Int) := by
          rw [← zpow_add₀ htwo, ← he]
          congr 1
          ring
      _ ≤ numerator := hnlow
  · rw [div_lt_iff₀ hpos]
    calc (numerator : ℚ)
        < 2 ^ ((numerator.log2 : Int) + 1) := hnhigh
      _ = 2 ^ (e + 1) * 2 ^ (denominator.log2 : Int) := by
          rw [← zpow_add₀ htwo, ← he]
          congr 1
          ring
      _ ≤ 2 ^ (e + 1) * denominator :=
          mul_le_mul_of_nonneg_left hdlow (le_of_lt (two_zpow_pos _))

theorem floorLog2_spec (hn : 0 < numerator) (hd : 0 < denominator) :
    (2 : ℚ) ^ floorLog2 numerator denominator ≤ numerator / denominator ∧
      (numerator / denominator : ℚ) < 2 ^ (floorLog2 numerator denominator + 1) := by
  obtain ⟨e, he⟩ : ∃ e : Int, (numerator.log2 : Int) - denominator.log2 = e := ⟨_, rfl⟩
  obtain ⟨hlow, hhigh⟩ := log2_sub_log2_spec hn hd he
  have hatMost : (if e < 0 then decide (denominator ≤ numerator * Nat.pow 2 (-e).toNat)
      else decide (denominator * Nat.pow 2 e.toNat ≤ numerator)) = true ↔
      (2 : ℚ) ^ e ≤ numerator / denominator := by
    rw [← one_le_div (two_zpow_pos e)]
    split
    next hneg =>
      rw [div_two_zpow_of_neg _ _ hneg, one_le_div (by exact_mod_cast hd), decide_eq_true_iff,
        Nat.cast_le]
    next hnonneg =>
      have hpos : 0 < denominator * Nat.pow 2 e.toNat := Nat.mul_pos hd (Nat.pow_pos (by decide))
      rw [div_two_zpow_of_nonneg _ _ (Int.not_lt.mp hnonneg), one_le_div (by exact_mod_cast hpos),
        decide_eq_true_iff, Nat.cast_le]
  have hfloor : floorLog2 numerator denominator =
      if (2 : ℚ) ^ e ≤ numerator / denominator then e else e - 1 := by
    rw [floorLog2, he]
    simp only [hatMost]
  rw [hfloor]
  split
  next hle => exact ⟨hle, hhigh⟩
  next hlt =>
    rw [Int.sub_add_cancel]
    exact ⟨hlow, not_le.mp hlt⟩

/-- The magnitude nearest to a positive quotient is found, or infinity if it is not finite. -/
theorem exists_nearest_roundQuotient (hf : 0 < f.fractionBits) (hn : 0 < numerator)
    (hd : 0 < denominator) : ∃ m, f.Nearest (numerator / denominator) m ∧
      roundQuotient f numerator denominator = min f.infinity m := by
  obtain ⟨hlow, hhigh⟩ := floorLog2_spec hn hd
  obtain ⟨e, he⟩ :
      ∃ e, max f.leastExponent (floorLog2 numerator denominator - f.fractionBits) = e := ⟨_, rfl⟩
  obtain ⟨k, hk⟩ : ∃ k, (e - f.leastExponent).toNat = k := ⟨_, rfl⟩
  have hsum : e = f.leastExponent + k := by omega
  -- the quotient is scaled so that its whole part is a significand
  obtain ⟨a, b, hb, hscaled, hrounded⟩ : ∃ a b : Nat, 0 < b ∧
      (numerator / denominator : ℚ) / 2 ^ e = a / b ∧
      roundQuotient f numerator denominator =
        min f.infinity (roundHalfEven a b + k * f.hiddenBit) := by
    unfold roundQuotient
    simp only [he, hk]
    split
    next hneg => exact ⟨_, _, hd, div_two_zpow_of_neg _ _ hneg, rfl⟩
    next hnonneg =>
      exact ⟨_, _, Nat.mul_pos hd (Nat.pow_pos (by decide)),
        div_two_zpow_of_nonneg _ _ (Int.not_lt.mp hnonneg), rfl⟩
  obtain ⟨hfloor, hceil, hnear⟩ := roundHalfEven_spec a hb
  refine ⟨_, ?_, hrounded⟩
  have hquotient : (numerator / denominator : ℚ) = a / b * 2 ^ (f.leastExponent + k) := by
    rw [← hscaled, hsum, div_mul_cancel₀ _ (ne_of_gt (two_zpow_pos _))]
  rw [hquotient]
  refine FloatFormat.nearest_scaled hf ?_ ?_ hfloor hceil hnear
  · have hless : (a / b : ℚ) < 2 * f.hiddenBit := by
      rw [← hscaled, div_lt_iff₀ (two_zpow_pos e), f.cast_hiddenBit]
      calc (numerator / denominator : ℚ)
          < 2 ^ (floorLog2 numerator denominator + 1) := hhigh
        _ ≤ 2 ^ (1 + f.fractionBits + e) := zpow_le_zpow_right₀ (by norm_num) (by omega)
        _ = 2 * 2 ^ (f.fractionBits : Int) * 2 ^ e := by
            rw [zpow_add₀ (by norm_num), zpow_add₀ (by norm_num), zpow_one]
    exact_mod_cast lt_of_le_of_lt hfloor hless
  · rcases Nat.eq_zero_or_pos k with hzero | hpos
    · exact .inr hzero
    · left
      have hexponent : floorLog2 numerator denominator = f.fractionBits + e := by omega
      have hge : (f.hiddenBit : ℚ) ≤ a / b := by
        rw [← hscaled, le_div_iff₀ (two_zpow_pos e), f.cast_hiddenBit, ← zpow_add₀ (by norm_num),
          ← hexponent]
        exact hlow
      have hlt : (f.hiddenBit : ℚ) < (a / b + 1 : Nat) := by
        push_cast
        exact lt_of_le_of_lt hge hceil
      exact Nat.le_of_lt_succ (by exact_mod_cast hlt)

/-! ## Rounding a decimal number -/

/-- The number without its sign. -/
def absolute (d : Decimal) : ℚ :=
  d.digits * 10 ^ d.exponent

end Decimal

namespace FloatFormat

/-- The bit pattern that a decimal number is rounded to: its sign and the nearest magnitude, or
infinity if that is not finite. -/
def Rounds (f : FloatFormat) (d : Decimal) (bits : Nat) : Prop :=
  ∃ m, f.Nearest d.absolute m ∧ bits = f.withSign d.negative (min f.infinity m)

/-- The exponents that rounding leaves out of account are out of the reach of the format: the lesser
ones leave less than half of the least magnitude, the greater ones go beyond all finite ones. -/
structure InReach (f : FloatFormat) : Prop where
  fractionBits_pos : 0 < f.fractionBits
  infinity_le : f.value f.infinity ≤ 10 ^ (Decimal.reach + 1)
  le_value_one : 2 * 10 ^ (-Decimal.reach - 1) ≤ f.value 1

variable {f : FloatFormat}

theorem two_zpow_le_ten_zpow {a b : Nat} (h : 2 ^ a ≤ 10 ^ b) :
    (2 : ℚ) ^ (a : Int) ≤ 10 ^ (b : Int) := by
  rw [zpow_natCast, zpow_natCast]
  exact_mod_cast h

theorem two_mul_ten_zpow_le_two_zpow {a b : Nat} (h : 2 ^ (a + 1) ≤ 10 ^ b) :
    (2 : ℚ) * 10 ^ (-b : Int) ≤ 2 ^ (-a : Int) := by
  have hinverse : (10 : ℚ) ^ (-b : Int) ≤ 2 ^ (-(a + 1 : Nat) : Int) := by
    rw [zpow_neg, zpow_neg]
    exact inv_anti₀ (two_zpow_pos _) (two_zpow_le_ten_zpow h)
  calc (2 : ℚ) * 10 ^ (-b : Int)
      ≤ 2 * 2 ^ (-(a + 1 : Nat) : Int) := mul_le_mul_of_nonneg_left hinverse (by norm_num)
    _ = 2 ^ (-a : Int) := by
        rw [← zpow_one_add₀ (by norm_num)]
        congr 1
        omega

theorem value_infinity (hf : 0 < f.exponentBits) : f.value f.infinity =
    2 ^ (f.fractionBits + (f.leastExponent + (Nat.pow 2 f.exponentBits - 2 : Nat)) : Int) := by
  obtain ⟨bits, hbits⟩ := Nat.exists_eq_succ_of_ne_zero (Nat.ne_of_gt hf)
  have hpower : 2 ≤ Nat.pow 2 f.exponentBits := by
    rw [hbits, Nat.pow_eq, Nat.pow_succ]
    exact Nat.le_mul_of_pos_left 2 (Nat.pow_pos (by decide))
  have hinfinity : f.infinity = 0 + (Nat.pow 2 f.exponentBits - 2 + 1) * f.hiddenBit := by
    rw [infinity, Nat.zero_add]
    congr 1
    omega
  rw [hinfinity, value_hiddenBit_add f.hiddenBit_pos, Nat.add_zero, cast_hiddenBit,
    ← zpow_add₀ (by norm_num)]

/-- The reach of a format in powers of two: its infinity and its least magnitude. -/
theorem inReach_of_pow_le {a b c : Nat} (hfraction : 1 < f.hiddenBit)
    (hexponent : 0 < f.exponentBits)
    (ha : f.fractionBits + (f.leastExponent + (Nat.pow 2 f.exponentBits - 2 : Nat)) = (a : Int))
    (hb : f.leastExponent = -(b : Int)) (hc : Decimal.reach + 1 = c) (hhigh : 2 ^ a ≤ 10 ^ c)
    (hlow : 2 ^ (b + 1) ≤ 10 ^ c) : f.InReach where
  fractionBits_pos := by
    by_contra hzero
    rw [hiddenBit, Nat.eq_zero_of_not_pos hzero] at hfraction
    exact absurd hfraction (by decide)
  infinity_le := by
    rw [value_infinity hexponent, ha, hc]
    exact two_zpow_le_ten_zpow hhigh
  le_value_one := by
    have hreach : -Decimal.reach - 1 = -(c : Int) := by omega
    rw [value_of_lt hfraction, hb, hreach, Nat.cast_one, one_mul]
    exact two_mul_ten_zpow_le_two_zpow hlow

theorem inReach_single : single.InReach :=
  inReach_of_pow_le (a := 128) (b := 149) (c := 401) (by decide) (by decide) (by decide)
    (by decide) (by decide) (by decide +kernel) (by decide +kernel)

theorem inReach_double : double.InReach :=
  inReach_of_pow_le (a := 1024) (b := 1074) (c := 401) (by decide) (by decide) (by decide)
    (by decide) (by decide) (by decide +kernel) (by decide +kernel)

end FloatFormat

namespace Decimal

variable {f : FloatFormat}

theorem ten_zpow_pos (e : Int) : (0 : ℚ) < 10 ^ e :=
  zpow_pos (by norm_num) e

theorem absolute_lt (d : Decimal) :
    d.absolute < 10 ^ (d.exponent + (Nat.toDigits 10 d.digits).length) := by
  have hdigits : (d.digits : ℚ) < 10 ^ ((Nat.toDigits 10 d.digits).length : Int) := by
    rw [zpow_natCast]
    exact_mod_cast (Nat.length_toDigits_le_iff (by decide) Nat.length_toDigits_pos).mp (le_refl _)
  rw [zpow_add₀ (by norm_num), mul_comm]
  exact mul_lt_mul_of_pos_right hdigits (ten_zpow_pos _)

theorem exists_nearest_roundMagnitude (hf : f.InReach) (d : Decimal) :
    ∃ m, f.Nearest d.absolute m ∧ d.roundMagnitude f = min f.infinity m := by
  have hnearest (hpos : 0 < d.digits) : ∃ m, f.Nearest d.absolute m ∧
      (if d.exponent < 0 then roundQuotient f d.digits (Nat.pow 10 (-d.exponent).toNat)
        else roundQuotient f (d.digits * Nat.pow 10 d.exponent.toNat) 1) = min f.infinity m := by
    split
    next hneg =>
      have hquotient : d.absolute = d.digits / (Nat.pow 10 (-d.exponent).toNat : Nat) := by
        rw [absolute, Nat.pow_eq, Nat.cast_pow, ← zpow_natCast, Int.toNat_of_nonneg (by omega),
          zpow_neg, div_inv_eq_mul]
        rfl
      rw [hquotient]
      exact exists_nearest_roundQuotient hf.fractionBits_pos hpos (Nat.pow_pos (by decide))
    next hnonneg =>
      have hquotient : d.absolute = (d.digits * Nat.pow 10 d.exponent.toNat : Nat) / (1 : Nat) := by
        rw [absolute, Nat.pow_eq, Nat.cast_one, div_one, Nat.cast_mul, Nat.cast_pow,
          ← zpow_natCast, Int.toNat_of_nonneg (by omega)]
        rfl
      rw [hquotient]
      exact exists_nearest_roundQuotient hf.fractionBits_pos
        (Nat.mul_pos hpos (Nat.pow_pos (by decide))) (by decide)
  have hnonneg : 0 ≤ d.absolute := mul_nonneg (Nat.cast_nonneg _) (le_of_lt (ten_zpow_pos _))
  unfold roundMagnitude
  split
  next hzero =>
    have habsolute : d.absolute = 0 := by
      rw [absolute, hzero, Nat.cast_zero, zero_mul]
    refine ⟨0, FloatFormat.nearest_zero hnonneg ?_, (Nat.min_zero _).symm⟩
    rw [habsolute, mul_zero, ← f.value_zero]
    exact le_of_lt (f.value_lt_value_succ 0)
  next hne =>
    have hpos := Nat.pos_of_ne_zero hne
    split
    next hhigh =>
      obtain ⟨m, hm, -⟩ := hnearest hpos
      refine ⟨m, hm, (Nat.min_eq_left (hm.infinity_le ?_)).symm⟩
      have hone : (1 : ℚ) ≤ d.digits := by exact_mod_cast hpos
      calc f.value f.infinity
          ≤ 10 ^ (reach + 1) := hf.infinity_le
        _ ≤ 10 ^ d.exponent := zpow_le_zpow_right₀ (by norm_num) hhigh
        _ ≤ d.absolute := le_mul_of_one_le_left (le_of_lt (ten_zpow_pos _)) hone
    next =>
      split
      next hlow =>
        refine ⟨0, FloatFormat.nearest_zero hnonneg ?_, (Nat.min_zero _).symm⟩
        have hpower : d.absolute ≤ 10 ^ (-reach - 1) :=
          (le_of_lt d.absolute_lt).trans (zpow_le_zpow_right₀ (by norm_num) (by omega))
        exact (mul_le_mul_of_nonneg_left hpower (by norm_num)).trans hf.le_value_one
      next => exact hnearest hpos

/-- Rounding finds the bit pattern that a decimal number is to be rounded to. -/
theorem round_eq_iff (hf : f.InReach) {d : Decimal} {bits : Nat} :
    d.round f = bits ↔ f.Rounds d bits := by
  obtain ⟨m, hm, hround⟩ := exists_nearest_roundMagnitude hf d
  rw [round, hround]
  constructor
  · rintro rfl
    exact ⟨m, hm, rfl⟩
  · rintro ⟨m', hm', rfl⟩
    rw [hm.unique hm']

end Decimal

end TickMachine
