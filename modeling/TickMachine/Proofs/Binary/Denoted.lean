import Mathlib.Data.String.Basic
import TickMachine.Binary.Double
import TickMachine.Binary.Single
import TickMachine.Proofs.Binary.Nearest
import TickMachine.Proofs.Binary.Written

/-! # Texts that stand for binary numbers

Words stand for the values that have no digits, decimal numbers for the binary number that they are
rounded to. Which texts these are and which numbers they stand for is said without the readers of
the two formats, which are then shown to find these numbers and nothing else.
-/

namespace TickMachine

open Text (Sign exists_sign)

/-! ## Bit patterns -/

namespace FloatFormat

variable {f : FloatFormat} {m : Nat}

theorem infinity_lt_signWeight (f : FloatFormat) : f.infinity < f.signWeight := by
  have hpower : f.signWeight = Nat.pow 2 f.exponentBits * f.hiddenBit := by
    rw [signWeight, hiddenBit, Nat.pow_eq, Nat.pow_eq, Nat.pow_eq, Nat.add_comm, Nat.pow_add]
  have hpos : 0 < Nat.pow 2 f.exponentBits := Nat.pow_pos (by decide)
  rw [hpower, infinity]
  exact Nat.mul_lt_mul_of_pos_right (Nat.sub_lt hpos Nat.one_pos) f.hiddenBit_pos

theorem withSign_lt (negative : Bool) (h : m < f.signWeight) :
    f.withSign negative m < 2 * f.signWeight := by
  cases negative with
  | false => exact Nat.lt_of_lt_of_le h (by omega)
  | true =>
      change f.signWeight + m < _
      omega

theorem Rounds.lt {d : Decimal} {bits : Nat} (h : f.Rounds d bits) : bits < 2 * f.signWeight := by
  obtain ⟨m, -, rfl⟩ := h
  exact withSign_lt _ (Nat.lt_of_le_of_lt (Nat.min_le_left _ _) f.infinity_lt_signWeight)

end FloatFormat

/-! ## Single precision -/

namespace Single

variable {text : List Char} {x : Single}

/-- The number that a text stands for. -/
inductive Denotes (text : List Char) (x : Single) : Prop
  | nan (hword : text.map Char.toLower = "nan".toList)
      (hx : x.bits.toNat = FloatFormat.single.withSign false FloatFormat.single.quietNan)
  | infinity (hword : text.map Char.toLower = "inf".toList)
      (hx : x.bits.toNat = FloatFormat.single.withSign false FloatFormat.single.infinity)
  | decimal {d : Decimal} (hwritten : d.Written text)
      (hx : FloatFormat.single.Rounds d x.bits.toNat)

theorem mk_ofNat_eq_iff {bits : Nat} (h : bits < 2 ^ 32) :
    ⟨.ofNat bits⟩ = x ↔ x.bits.toNat = bits := by
  constructor
  · rintro rfl
    exact UInt32.toNat_ofNat_of_lt h
  · rintro rfl
    rw [UInt32.ofNat_toNat]

theorem ofDecimal_eq_iff {d : Decimal} :
    ofDecimal d = x ↔ FloatFormat.single.Rounds d x.bits.toNat := by
  have hround : FloatFormat.single.Rounds d (d.round .single) :=
    (Decimal.round_eq_iff FloatFormat.inReach_single).mp rfl
  rw [ofDecimal, mk_ofNat_eq_iff hround.lt, eq_comm,
    Decimal.round_eq_iff FloatFormat.inReach_single]

/-- The reader finds what a text stands for. -/
theorem ofChars?_eq_some_iff : ofChars? text = some x ↔ Denotes text x := by
  unfold ofChars?
  constructor
  · intro h
    split at h
    next hword =>
      rw [Option.some.injEq, ofMagnitude, mk_ofNat_eq_iff (by decide)] at h
      exact .nan (String.ofList_eq.mp hword) h
    next hword =>
      rw [Option.some.injEq, ofMagnitude, mk_ofNat_eq_iff (by decide)] at h
      exact .infinity (String.ofList_eq.mp hword) h
    next =>
      obtain ⟨d, hd, hx⟩ := Option.map_eq_some_iff.mp h
      exact .decimal (Decimal.ofChars?_eq_some_iff.mp hd) (ofDecimal_eq_iff.mp hx)
  · intro h
    cases h with
    | nan hword hx =>
        rw [hword]
        exact congrArg some ((mk_ofNat_eq_iff (by decide)).mpr hx)
    | infinity hword hx =>
        rw [hword]
        exact congrArg some ((mk_ofNat_eq_iff (by decide)).mpr hx)
    | @decimal d hwritten hx =>
        split
        next hword =>
          exact absurd (String.ofList_eq.mp hword) (hwritten.toLower_ne (by decide) _)
        next hword =>
          exact absurd (String.ofList_eq.mp hword) (hwritten.toLower_ne (by decide) _)
        next =>
          rw [Decimal.ofChars?_eq_some_iff.mpr hwritten, Option.map_some, ofDecimal_eq_iff.mpr hx]

theorem ofChars?_eq_none_iff : ofChars? text = none ↔ ∀ x, ¬ Denotes text x := by
  simp only [Option.eq_none_iff_forall_ne_some, ne_eq, ofChars?_eq_some_iff]

end Single

/-! ## Double precision -/

namespace Double

variable {text : List Char} {x : Double}

/-- The number that a text stands for. -/
inductive Denotes (text : List Char) (x : Double) : Prop
  | nan {sign word : List Char} {negative : Bool} (hsign : Sign sign negative)
      (htext : text = sign ++ word) (hword : word.map Char.toLower = "nan".toList)
      (hx : x.bits.toNat = FloatFormat.double.withSign negative FloatFormat.double.quietNan)
  | infinity {sign word : List Char} {negative : Bool} (hsign : Sign sign negative)
      (htext : text = sign ++ word)
      (hword : word.map Char.toLower = "inf".toList ∨ word.map Char.toLower = "infinity".toList)
      (hx : x.bits.toNat = FloatFormat.double.withSign negative FloatFormat.double.infinity)
  | decimal {d : Decimal} (hwritten : d.Written text)
      (hx : FloatFormat.double.Rounds d x.bits.toNat)

theorem mk_ofNat_eq_iff {bits : Nat} (h : bits < 2 ^ 64) :
    ⟨.ofNat bits⟩ = x ↔ x.bits.toNat = bits := by
  constructor
  · rintro rfl
    exact UInt64.toNat_ofNat_of_lt h
  · rintro rfl
    rw [UInt64.ofNat_toNat]

theorem ofMagnitude_eq_iff {negative : Bool} {m : Nat} (h : m < FloatFormat.double.signWeight) :
    ofMagnitude negative m = x ↔ x.bits.toNat = FloatFormat.double.withSign negative m := by
  rw [ofMagnitude, mk_ofNat_eq_iff (FloatFormat.withSign_lt negative h)]

theorem ofDecimal_eq_iff {d : Decimal} :
    ofDecimal d = x ↔ FloatFormat.double.Rounds d x.bits.toNat := by
  have hround : FloatFormat.double.Rounds d (d.round .double) :=
    (Decimal.round_eq_iff FloatFormat.inReach_double).mp rfl
  rw [ofDecimal, mk_ofNat_eq_iff hround.lt, eq_comm,
    Decimal.round_eq_iff FloatFormat.inReach_double]

/-- A sign in front of a word is split off. -/
theorem splitSign_of_toLower {sign word letters : List Char} {letter : Char} {negative : Bool}
    (hsign : Sign sign negative) (hword : word.map Char.toLower = letter :: letters)
    (hletter : letter ∉ Decimal.frontChars) :
    Text.splitSign (sign ++ word) = (negative, word) := by
  have hhead {c : Char} (hc : word.head? = some c) : c.toLower = letter := by
    have hfirst := congrArg List.head? hword
    rw [List.head?_map, hc] at hfirst
    exact Option.some.inj hfirst
  refine hsign.splitSign (fun hplus => hletter ?_) fun hminus => hletter ?_
  · rw [← hhead hplus]
    decide
  · rw [← hhead hminus]
    decide

/-- The reader finds what a text stands for. -/
theorem ofChars?_eq_some_iff : ofChars? text = some x ↔ Denotes text x := by
  unfold ofChars?
  constructor
  · intro h
    obtain ⟨sign, hsign, htext⟩ := exists_sign text
    dsimp only at h
    split at h
    next hword =>
      rw [Option.some.injEq, ofMagnitude_eq_iff (by decide)] at h
      exact .nan hsign htext (String.ofList_eq.mp hword) h
    next hword =>
      rw [Option.some.injEq, ofMagnitude_eq_iff (by decide)] at h
      exact .infinity hsign htext (.inl (String.ofList_eq.mp hword)) h
    next hword =>
      rw [Option.some.injEq, ofMagnitude_eq_iff (by decide)] at h
      exact .infinity hsign htext (.inr (String.ofList_eq.mp hword)) h
    next =>
      obtain ⟨d, hd, hx⟩ := Option.map_eq_some_iff.mp h
      exact .decimal (Decimal.ofChars?_eq_some_iff.mp hd) (ofDecimal_eq_iff.mp hx)
  · intro h
    cases h with
    | nan hsign htext hword hx =>
        rw [htext, splitSign_of_toLower hsign hword (by decide)]
        dsimp only
        rw [hword]
        exact congrArg some ((ofMagnitude_eq_iff (by decide)).mpr hx)
    | infinity hsign htext hword hx =>
        have hinfinity := congrArg some ((ofMagnitude_eq_iff (by decide)).mpr hx)
        rcases hword with hword | hword
        · rw [htext, splitSign_of_toLower hsign hword (by decide)]
          dsimp only
          rw [hword]
          exact hinfinity
        · rw [htext, splitSign_of_toLower hsign hword (by decide)]
          dsimp only
          rw [hword]
          exact hinfinity
    | decimal hwritten hx =>
        rw [Decimal.ofChars?_eq_some_iff.mpr hwritten, Option.map_some, ofDecimal_eq_iff.mpr hx]
        obtain ⟨hsign, hmantissa, -⟩ := hwritten
        rw [hmantissa.splitSign hsign]
        dsimp only
        split
        next hword =>
          exact absurd (String.ofList_eq.mp hword) (hmantissa.toLower_ne (by decide) _ _)
        next hword =>
          exact absurd (String.ofList_eq.mp hword) (hmantissa.toLower_ne (by decide) _ _)
        next hword =>
          exact absurd (String.ofList_eq.mp hword) (hmantissa.toLower_ne (by decide) _ _)
        next => rfl

end Double

end TickMachine
