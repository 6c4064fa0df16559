import TickMachine.Proofs.Assembly.Mistakes

/-! # What operands stand for

The operand of a kind that a text stands for, said with the numerals and the names of a source and
without the readers of operands. The readers find this operand, and where there is none they
complain about the text.
-/

namespace TickMachine

/-- The operand of the kind is a whole number, or may be written as one. -/
def OperandKind.isInteger : OperandKind → Bool
  | .none | .float => false
  | _ => true

namespace Assembly

open Text

variable {base n : Nat} {text digits : List Char} {c : Char}

/-! ## What operands stand for -/

/-- The operand of the kind that a text stands for: the integer of a numeral as it is, a register
with or without the `r`, the place of a label or the bits of a condition. -/
inductive StandsFor (labels : Labels) (text : List Char) : OperandKind → Operand → Prop
  | immediate {value : Int32} (hvalue : Numeral text value.toInt) :
      StandsFor labels text .immediate (.i32 value)
  | address {value : UInt16} (hvalue : Numeral text value.toNat) :
      StandsFor labels text .address (.u16 value)
  | target {value : UInt32} (hvalue : Numeral text value.toNat) :
      StandsFor labels text .target (.u32 value)
  | label {place : Nat} (hname : IsIdentifier text)
      (hplace : labels.lookup (String.ofList text) = some place) :
      StandsFor labels text .target (.u32 (.ofNat place))
  | mask {value : UInt8} (hvalue : Numeral text value.toNat) (hbits : value.toNat ≤ 7) :
      StandsFor labels text .mask (.u8 value)
  | letters {bits : UInt8} (hletters : IsCondition text)
      (hbits : Condition.ofLetters? text = some bits) : StandsFor labels text .mask (.u8 bits)
  | register {kind : OperandKind} {digits : List Char} {value : UInt8}
      (hkind : kind = .register ∨ kind = .optionalRegister)
      (htext : text = digits ∨ text = 'r' :: digits ∨ text = 'R' :: digits)
      (hvalue : Digits 10 digits value.toNat) (hindex : value.toNat ≤ 7) :
      StandsFor labels text kind (.u8 value)

section StandsFor

variable {labels : Labels} {text : List Char} {operand : Operand} {low high : Int}

theorem map_bounded?_eq_some_iff {make : Int → Operand} :
    (bounded? low high text).map make = some operand ↔
      ∃ v, Numeral text v ∧ (low ≤ v ∧ v ≤ high) ∧ make v = operand := by
  simp only [Option.map_eq_some_iff, bounded?_eq_some_iff, integer?_eq_some_iff, and_assoc]

theorem readKind_immediate_iff :
    readKind .immediate labels text = .ok operand ↔ StandsFor labels text .immediate operand := by
  refine (orInvalid_eq_ok_iff _).trans (map_bounded?_eq_some_iff.trans ?_)
  constructor
  · rintro ⟨v, hv, ⟨hlow, hhigh⟩, rfl⟩
    have hword : (Int32.ofInt v).toInt = v :=
      Int32.toInt_ofInt_of_le hlow (Int.lt_of_le_of_lt hhigh (by decide))
    exact .immediate (hword.symm ▸ hv)
  · intro h
    cases h with
    | immediate hvalue =>
        exact ⟨_, hvalue, ⟨Int32.minValue_le_toInt _, Int32.toInt_le _⟩,
          congrArg _ (Int32.ofInt_toInt _)⟩
    | register hkind => simp at hkind

theorem readKind_address_iff :
    readKind .address labels text = .ok operand ↔ StandsFor labels text .address operand := by
  refine (orInvalid_eq_ok_iff _).trans (map_bounded?_eq_some_iff.trans ?_)
  constructor
  · rintro ⟨v, hv, ⟨hlow, hhigh⟩, rfl⟩
    obtain ⟨n, rfl⟩ := Int.eq_ofNat_of_zero_le hlow
    have hword : (UInt16.ofNat n).toNat = n :=
      UInt16.toNat_ofNat_of_lt (Nat.lt_of_le_of_lt (Int.ofNat_le.mp hhigh) (by decide))
    exact .address (hword.symm ▸ hv)
  · intro h
    cases h with
    | @address value hvalue =>
        have hle : value.toNat ≤ UInt16.size - 1 := Nat.le_sub_one_of_lt value.toNat_lt
        exact ⟨_, hvalue, ⟨Int.natCast_nonneg _, Int.ofNat_le.mpr hle⟩,
          congrArg _ UInt16.ofNat_toNat⟩
    | register hkind => simp at hkind

theorem integer?_of_isIdentifier (h : IsIdentifier text) : integer? text = none := by
  cases h with
  | intro hstart =>
      apply integer?_of_le
      rcases isIdentifierStart_iff.mp hstart with halpha | rfl
      · rw [isAlpha_iff] at halpha
        omega
      · decide

theorem readKind_target_iff :
    readKind .target labels text = .ok operand ↔ StandsFor labels text .target operand := by
  change readTarget labels text = .ok operand ↔ _
  by_cases hname : IsIdentifier text
  · rw [readTarget_of_isIdentifier hname]
    constructor
    · rintro ⟨place, hplace, rfl⟩
      exact .label hname hplace
    · intro h
      cases h with
      | label _ hplace => exact ⟨_, hplace, rfl⟩
      | target hvalue =>
          rw [← integer?_eq_some_iff, integer?_of_isIdentifier hname] at hvalue
          cases hvalue
      | register hkind => simp at hkind
  · have hnumber : readTarget labels text = .ok operand ↔
        (bounded? 0 (UInt32.size - 1 : Nat) text).map (fun n => .u32 (.ofNat n.toNat)) =
          some operand := by
      rw [readTarget_of_not_isIdentifier hname]
      cases bounded? 0 (UInt32.size - 1 : Nat) text <;> simp
    refine hnumber.trans (map_bounded?_eq_some_iff.trans ?_)
    constructor
    · rintro ⟨v, hv, ⟨hlow, hhigh⟩, rfl⟩
      obtain ⟨n, rfl⟩ := Int.eq_ofNat_of_zero_le hlow
      have hword : (UInt32.ofNat n).toNat = n :=
        UInt32.toNat_ofNat_of_lt (Nat.lt_of_le_of_lt (Int.ofNat_le.mp hhigh) (by decide))
      exact .target (hword.symm ▸ hv)
    · intro h
      cases h with
      | @target value hvalue =>
          have hle : value.toNat ≤ UInt32.size - 1 := Nat.le_sub_one_of_lt value.toNat_lt
          exact ⟨_, hvalue, ⟨Int.natCast_nonneg _, Int.ofNat_le.mpr hle⟩,
            congrArg _ UInt32.ofNat_toNat⟩
      | label hidentifier => exact absurd hidentifier hname
      | register hkind => simp at hkind

theorem mask?_eq_some_iff {bits : UInt8} :
    mask? text = some bits ↔ (Numeral text bits.toNat ∧ bits.toNat ≤ 7) ∨
      (IsCondition text ∧ Condition.ofLetters? text = some bits) := by
  unfold mask?
  cases hn : integer? text with
  | none =>
      have hnumeral : ¬ Numeral text bits.toNat := by
        rw [← integer?_eq_some_iff, hn]
        nofun
      simp only [hnumeral, false_and, false_or]
      refine ⟨fun h => ⟨?_, h⟩, fun h => h.2⟩
      by_contra hno
      rw [ofLetters?_eq_none_iff.mpr hno] at h
      cases h
  | some n =>
      have hcondition : ¬ IsCondition text := by
        intro hcondition
        rw [integer?_of_isCondition hcondition] at hn
        cases hn
      simp only [hcondition, false_and, or_false, ← integer?_eq_some_iff, hn, Option.some.injEq]
      constructor
      · intro h
        split at h
        next hrange =>
          cases h
          have hword : (UInt8.ofNat n.toNat).toNat = n.toNat :=
            UInt8.toNat_ofNat_of_lt (by rw [UInt8.size]; omega)
          omega
        next => cases h
      · rintro ⟨rfl, hle⟩
        rw [if_pos (by omega)]
        exact congrArg some UInt8.ofNat_toNat

theorem readKind_mask_iff :
    readKind .mask labels text = .ok operand ↔ StandsFor labels text .mask operand := by
  refine (orInvalid_eq_ok_iff _).trans (Option.map_eq_some_iff.trans ?_)
  constructor
  · rintro ⟨bits, hbits, rfl⟩
    rcases mask?_eq_some_iff.mp hbits with ⟨hvalue, hle⟩ | ⟨hletters, hletter⟩
    · exact .mask hvalue hle
    · exact .letters hletters hletter
  · intro h
    cases h with
    | mask hvalue hle => exact ⟨_, mask?_eq_some_iff.mpr (.inl ⟨hvalue, hle⟩), rfl⟩
    | letters hletters hbits => exact ⟨_, mask?_eq_some_iff.mpr (.inr ⟨hletters, hbits⟩), rfl⟩
    | register hkind => simp at hkind

theorem register?_eq_some_iff {n : Nat} :
    register? text = some n ↔
      ∃ digits, (text = digits ∨ text = 'r' :: digits ∨ text = 'R' :: digits) ∧
        Digits 10 digits n ∧ n ≤ 7 := by
  have hfilter (digits : List Char) :
      (natural? digits).filter (· < registerCount) = some n ↔ Digits 10 digits n ∧ n ≤ 7 := by
    rw [Option.filter_eq_some_iff, natural?_eq_some_iff, decide_eq_true_iff, Nat.lt_succ_iff]
  have hletter {digits : List Char} {c : Char} (h : Digits 10 (c :: digits) n) :
      c ≠ 'r' ∧ c ≠ 'R' := by
    constructor <;> rintro rfl <;> exact absurd List.mem_cons_self (h.not_mem (by decide))
  unfold register?
  split
  next digits =>
    rw [hfilter]
    refine ⟨fun h => ⟨digits, .inr (.inl rfl), h⟩, ?_⟩
    rintro ⟨_, rfl | heq | heq, h⟩
    · exact absurd rfl (hletter h.1).1
    · cases heq
      exact h
    · cases heq
  next digits =>
    rw [hfilter]
    refine ⟨fun h => ⟨digits, .inr (.inr rfl), h⟩, ?_⟩
    rintro ⟨_, rfl | heq | heq, h⟩
    · exact absurd rfl (hletter h.1).2
    · cases heq
    · cases heq
      exact h
  next hr hR =>
    rw [hfilter]
    refine ⟨fun h => ⟨text, .inl rfl, h⟩, ?_⟩
    rintro ⟨digits, rfl | heq | heq, h⟩
    · exact h
    · exact absurd heq (hr digits)
    · exact absurd heq (hR digits)

theorem readKind_register_iff {kind : OperandKind}
    (hkind : kind = .register ∨ kind = .optionalRegister) :
    readKind kind labels text = .ok operand ↔ StandsFor labels text kind operand := by
  have hread : readKind kind labels text = .ok operand ↔
      (register? text).map (fun n => Operand.u8 (.ofNat n)) = some operand := by
    rcases hkind with rfl | rfl <;> exact orInvalid_eq_ok_iff _
  rw [hread, Option.map_eq_some_iff]
  constructor
  · rintro ⟨n, hn, rfl⟩
    obtain ⟨digits, htext, hdigits, hle⟩ := register?_eq_some_iff.mp hn
    have hword : (UInt8.ofNat n).toNat = n :=
      UInt8.toNat_ofNat_of_lt (Nat.lt_of_le_of_lt hle (by decide))
    exact .register hkind htext (hword.symm ▸ hdigits) (hword.symm ▸ hle)
  · intro h
    cases h with
    | register _ htext hvalue hindex =>
        exact ⟨_, register?_eq_some_iff.mpr ⟨_, htext, hvalue, hindex⟩,
          congrArg _ UInt8.ofNat_toNat⟩
    | _ => simp at hkind

/-- What is read is what the text stands for. -/
theorem readKind_eq_ok_iff_standsFor {kind : OperandKind} (hkind : kind.isInteger = true) :
    readKind kind labels text = .ok operand ↔ StandsFor labels text kind operand := by
  cases kind with
  | none | float => cases hkind
  | target => exact readKind_target_iff
  | mask => exact readKind_mask_iff
  | immediate => exact readKind_immediate_iff
  | address => exact readKind_address_iff
  | register => exact readKind_register_iff (.inl rfl)
  | optionalRegister => exact readKind_register_iff (.inr rfl)

theorem readTarget_of_undefined (hname : IsIdentifier text)
    (hlookup : labels.lookup (String.ofList text) = none) :
    readTarget labels text = .error (.undefinedLabel (String.ofList text)) := by
  rw [readTarget, identifier?_eq_some_nil_iff.mpr ⟨hname, rfl⟩]
  simp only [hlookup]

/-- What is no identifier and no number in the range is complained about as it is. -/
theorem readTarget_of_unread (h : ∀ operand, readTarget labels text ≠ .ok operand)
    (hname : ¬ IsIdentifier text) :
    readTarget labels text = .error (.invalidOperand (String.ofList text)) := by
  rw [readTarget_of_not_isIdentifier hname] at h ⊢
  cases hbounded : bounded? 0 (UInt32.size - 1 : Nat) text with
  | none => rfl
  | some n =>
      rw [hbounded] at h
      exact absurd rfl (h _)

theorem readKind_eq_error {kind : OperandKind} (hkind : kind.isInteger = true)
    (htarget : kind ≠ .target) (h : ∀ operand, readKind kind labels text ≠ .ok operand) :
    readKind kind labels text = .error (.invalidOperand (String.ofList text)) := by
  cases hread : readKind kind labels text with
  | ok operand => exact absurd hread (h operand)
  | error cause =>
      have hnone : kind ≠ .none := by
        rintro rfl
        cases hkind
      rw [((readKind_eq_error_iff hnone htarget labels).mp hread).2]

end StandsFor

/-- The range of the numerals that are operands of the kind. -/
def numeralRange? : OperandKind → Option (Int × Int)
  | .immediate => some (-2147483648, 2147483647)
  | .address => some (0, 65535)
  | .target => some (0, 4294967295)
  | .mask => some (0, 7)
  | _ => none

/-- An integer that a numeral stands for is the operand, so it is within the range. -/
theorem StandsFor.range {kind : OperandKind} {labels : Labels} {text : List Char}
    {operand : Operand} {v low high : Int} (h : StandsFor labels text kind operand)
    (hv : Numeral text v) (hrange : numeralRange? kind = some (low, high)) :
    low ≤ v ∧ v ≤ high := by
  have hsome : integer? text = some v := integer?_eq_some_iff.mpr hv
  cases h with
  | @immediate value hvalue =>
      cases hrange
      rw [hv.unique hvalue]
      exact ⟨value.le_toInt, Int.le_of_lt_add_one value.toInt_lt⟩
  | @address value hvalue =>
      cases hrange
      have hlt := value.toNat_lt
      rw [hv.unique hvalue]
      omega
  | @target value hvalue =>
      cases hrange
      have hlt := value.toNat_lt
      rw [hv.unique hvalue]
      omega
  | @mask value hvalue hbits =>
      cases hrange
      rw [hv.unique hvalue]
      omega
  | label hname =>
      rw [integer?_of_isIdentifier hname] at hsome
      cases hsome
  | letters hletters =>
      rw [integer?_of_isCondition hletters] at hsome
      cases hsome
  | register hkind => rcases hkind with rfl | rfl <;> cases hrange

/-- An integer within the range is an operand. -/
theorem exists_standsFor {kind : OperandKind} {text : List Char} {v low high : Int}
    (labels : Labels) (hv : Numeral text v) (hrange : numeralRange? kind = some (low, high))
    (hlow : low ≤ v) (hhigh : v ≤ high) : ∃ operand, StandsFor labels text kind operand := by
  cases kind with
  | none | float | register | optionalRegister => cases hrange
  | immediate =>
      cases hrange
      have hword : (Int32.ofInt v).toInt = v :=
        Int32.toInt_ofInt_of_le hlow (Int.lt_add_one_of_le hhigh)
      exact ⟨_, .immediate (hword.symm ▸ hv)⟩
  | address =>
      cases hrange
      obtain ⟨n, rfl⟩ := Int.eq_ofNat_of_zero_le hlow
      have hword : (UInt16.ofNat n).toNat = n :=
        UInt16.toNat_ofNat_of_lt (by rw [UInt16.size]; omega)
      exact ⟨_, .address (hword.symm ▸ hv)⟩
  | target =>
      cases hrange
      obtain ⟨n, rfl⟩ := Int.eq_ofNat_of_zero_le hlow
      have hword : (UInt32.ofNat n).toNat = n :=
        UInt32.toNat_ofNat_of_lt (by rw [UInt32.size]; omega)
      exact ⟨_, .target (hword.symm ▸ hv)⟩
  | mask =>
      cases hrange
      obtain ⟨n, rfl⟩ := Int.eq_ofNat_of_zero_le hlow
      have hword : (UInt8.ofNat n).toNat = n :=
        UInt8.toNat_ofNat_of_lt (by rw [UInt8.size]; omega)
      exact ⟨_, .mask (hword.symm ▸ hv) (by omega)⟩

end Assembly

end TickMachine
