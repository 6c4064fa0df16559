import Mathlib.Data.List.TakeWhile
import TickMachine.Proofs.Assembly.Operands

/-! # Reading numerals with checked words

The assembler does not need integers of any size: a numeral can be scanned from left to right into a
word, each multiplication and addition checked, where hexadecimal digits that do not fit are given
up for the decimal numeral in front of the `x`. Such a scanner reads the same operands. The number
found behind each digit grows, so the checks on the way fail only where the last one does.
-/

namespace TickMachine.Assembly

open Text

/-! ## Scanners -/

/-- Takes something from the front of a text and leaves the rest of it. -/
abbrev Scanner (α : Type) := List Char → Option (α × List Char)

namespace Scanner

variable {α β : Type}

/-- What is scanned if nothing is left of the text. -/
def complete (scanner : Scanner α) (cs : List Char) : Option α :=
  match scanner cs with
  | some (a, []) => some a
  | _ => none

/-- The second scanner is asked where the first one finds nothing, whatever is left behind it. -/
def orElse (first second : Scanner α) : Scanner α :=
  fun cs => (first cs).or (second cs)

def map (f : α → β) (scanner : Scanner α) : Scanner β :=
  fun cs => (scanner cs).map fun (a, rest) => (f a, rest)

/-- The range of a word. -/
structure Range where
  low : Int
  high : Int

/-- A result of checked arithmetic: there is none if it does not fit the word. -/
def Range.checked (range : Range) (n : Int) : Option Int :=
  if range.low ≤ n ∧ n ≤ range.high then some n else none

/-- One more digit behind a number, which is multiplied by the base first. Digits of a negative
number are subtracted. -/
def Range.push (range : Range) (base : Nat) (negative : Bool) (n : Int) (digit : Nat) :
    Option Int :=
  (range.checked (n * base)).bind fun n =>
    range.checked (if negative then n - digit else n + digit)

/-- The longest run of digits at the front, at least one, as a number. -/
def run (digit? : Char → Option Nat) (base : Nat) (range : Range) (negative : Bool) :
    Scanner Int := fun cs =>
  let digits := cs.takeWhile fun c => (digit? c).isSome
  if digits.isEmpty then none
  else
    ((digits.filterMap digit?).foldlM (range.push base negative) 0).map
      (·, cs.dropWhile fun c => (digit? c).isSome)

def int64 : Range := ⟨-9223372036854775808, 9223372036854775807⟩

def uint8 : Range := ⟨0, 255⟩

/-- Decimal digits behind an optional sign. -/
def decimal : Scanner Int := fun cs =>
  run digit? 10 int64 (splitSign cs).1 (splitSign cs).2

/-- Hexadecimal digits behind `0x`. -/
def hexadecimal : Scanner Int
  | '0' :: 'x' :: cs | '0' :: 'X' :: cs => run hexDigit? 16 int64 false cs
  | _ => none

def integer : Scanner Int :=
  hexadecimal.orElse decimal

/-- The index of a register, behind an optional `r`. -/
def register : Scanner Int
  | 'r' :: cs | 'R' :: cs => run digit? 10 uint8 false cs
  | cs => run digit? 10 uint8 false cs

/-- The byte of a number that is no more than condition bits. -/
def maskOf? (n : Int) : Option UInt8 :=
  (uint8.checked n).bind fun n =>
    let bits := UInt8.ofNat n.toNat
    if bits &&& ~~~Condition.all = 0 then some bits else none

/-- Condition bits as a number or as letters. What is found may be no bits. -/
def mask : Scanner (Option UInt8) :=
  (integer.map maskOf?).orElse fun cs =>
    some (Condition.ofLetters? (cs.takeWhile Char.isAlphanum), cs.dropWhile Char.isAlphanum)

end Scanner

/-- The operand that is scanned for a kind, apart from labels. -/
def scanOperand? (kind : OperandKind) (cs : List Char) : Option Operand :=
  match kind with
  | .none | .float => none
  | .target =>
    ((Scanner.integer.complete cs).bind (Scanner.Range.checked ⟨0, 4294967295⟩)).map fun n =>
      .u32 (.ofNat n.toNat)
  | .mask => (Scanner.mask.complete cs).join.map .u8
  | .immediate =>
    ((Scanner.integer.complete cs).bind (Scanner.Range.checked ⟨-2147483648, 2147483647⟩)).map
      fun n => .i32 (.ofInt n)
  | .address =>
    ((Scanner.integer.complete cs).bind (Scanner.Range.checked ⟨0, 65535⟩)).map fun n =>
      .u16 (.ofNat n.toNat)
  | .register | .optionalRegister =>
    ((Scanner.register.complete cs).filter fun n => n < (registerCount : Int)).map fun n =>
      .u8 (.ofNat n.toNat)

/-- Scans the operand of a kind that is no label. -/
def scanPlain (kind : OperandKind) (cs : List Char) : Except AssemblyCause Operand :=
  match scanOperand? kind cs with
  | some operand => .ok operand
  | none => .error (.invalidOperand (String.ofList cs))

/-- Scans the operand of a kind; where an instruction is asked for an identifier is a label. -/
def scanKind (kind : OperandKind) (labels : Labels) (cs : List Char) :
    Except AssemblyCause Operand :=
  match kind with
  | .target =>
    match Scanner.complete identifier? cs with
    | some name =>
      match labels.lookup (String.ofList name) with
      | some index => .ok (.u32 (.ofNat index))
      | none => .error (.undefinedLabel (String.ofList name))
    | none => scanPlain .target cs
  | kind => scanPlain kind cs

namespace Scanner

variable {α : Type} {range : Range} {base m n : Nat} {negative : Bool} {cs : List Char}
  {digit? : Char → Option Nat}

/-! ## Checked arithmetic -/

/-- Zero fits the word. -/
def Range.Proper (range : Range) : Prop :=
  range.low ≤ 0 ∧ 0 ≤ range.high

theorem proper_int64 : int64.Proper := by
  simp [Range.Proper, int64]

theorem proper_uint8 : uint8.Proper := by
  simp [Range.Proper, uint8]

theorem Range.checked_eq_some_iff {v w : Int} :
    range.checked v = some w ↔ (range.low ≤ v ∧ v ≤ range.high) ∧ v = w := by
  simp [Range.checked]

theorem Range.checked_eq_none_iff {v : Int} :
    range.checked v = none ↔ ¬ (range.low ≤ v ∧ v ≤ range.high) := by
  simp [Range.checked]

/-- What does not fit the word does not fit with more digits either. -/
theorem Range.checked_eq_none_of_le (hrange : range.Proper) (hle : m ≤ n)
    (h : range.checked (signed negative m) = none) : range.checked (signed negative n) = none := by
  obtain ⟨hlow, hhigh⟩ := hrange
  rw [Range.checked_eq_none_iff] at h ⊢
  cases negative with
  | false =>
      simp only [signed, Bool.false_eq_true, if_false] at h ⊢
      omega
  | true =>
      simp only [signed, if_true] at h ⊢
      omega

/-- A checked digit is a check of the number with the digit. -/
theorem Range.push_signed (hrange : range.Proper) (digit : Nat) :
    range.push base negative (signed negative n) digit =
      range.checked (signed negative (n * base + digit)) := by
  have hmul : signed negative n * base = signed negative (n * base) := by
    cases negative <;> simp [signed]
  rw [Range.push, hmul]
  cases hchecked : range.checked (signed negative (n * base)) with
  | none =>
      rw [Option.bind_none, Range.checked_eq_none_of_le hrange (Nat.le_add_right _ _) hchecked]
  | some v =>
      obtain ⟨-, rfl⟩ := Range.checked_eq_some_iff.mp hchecked
      rw [Option.bind_some]
      congr 1
      cases negative
      · simp [signed]
      · simp [signed]
        omega

theorem le_foldl_digits (hbase : 0 < base) (digits : List Nat) (n : Nat) :
    n ≤ digits.foldl (fun n d => n * base + d) n := by
  induction digits generalizing n with
  | nil => exact Nat.le_refl n
  | cons d digits ih =>
      calc n ≤ n * base := Nat.le_mul_of_pos_right n hbase
        _ ≤ n * base + d := Nat.le_add_right _ _
        _ ≤ _ := ih _

/-- Checking digit by digit is checking the number that they stand for. -/
theorem Range.foldlM_push (hrange : range.Proper) (hbase : 0 < base) (digits : List Nat)
    (hn : range.checked (signed negative n) = some (signed negative n)) :
    digits.foldlM (range.push base negative) (signed negative n) =
      range.checked (signed negative (digits.foldl (fun n d => n * base + d) n)) := by
  induction digits generalizing n with
  | nil => exact hn.symm
  | cons d digits ih =>
      rw [List.foldlM_cons, Range.push_signed hrange, List.foldl_cons]
      cases hchecked : range.checked (signed negative (n * base + d)) with
      | none =>
          exact (Range.checked_eq_none_of_le hrange (le_foldl_digits hbase _ _) hchecked).symm
      | some v =>
          obtain ⟨-, rfl⟩ := Range.checked_eq_some_iff.mp hchecked
          exact ih hchecked

/-! ## Runs of digits -/

/-- What leaves something of the text does not scan it completely. -/
theorem complete_eq_none {scanner : Scanner α} (h : ∀ a, scanner cs ≠ some (a, [])) :
    scanner.complete cs = none := by
  unfold complete
  split
  next a hscanned => exact absurd hscanned (h a)
  next => rfl

theorem complete_eq_some_iff {scanner : Scanner α} {a : α} :
    scanner.complete cs = some a ↔ scanner cs = some (a, []) := by
  unfold complete
  split
  next b hscanned => simp [hscanned]
  next hscanned =>
    simp only [reduceCtorEq, false_iff]
    exact fun h => hscanned a h

theorem foldlM_push_zero (hrange : range.Proper) (hbase : 0 < base) (digits : List Nat) :
    digits.foldlM (range.push base negative) 0 =
      range.checked (signed negative (ofDigits base digits)) := by
  have hzero : signed negative 0 = 0 := by cases negative <;> rfl
  have hchecked : range.checked (signed negative 0) = some (signed negative 0) := by
    rw [hzero]
    exact Range.checked_eq_some_iff.mpr ⟨hrange, rfl⟩
  have hfold := Range.foldlM_push hrange hbase digits hchecked
  rwa [hzero] at hfold

/-- A run that is the whole text is the number of its digits, if it fits. -/
theorem complete_run (hrange : range.Proper) (hbase : 0 < base) (cs : List Char) :
    (run digit? base range negative).complete cs =
      (if cs.isEmpty then none else (cs.mapM digit?).map (ofDigits base)).bind
        fun n => range.checked (signed negative n) := by
  by_cases hdigits : ∀ c ∈ cs, (digit? c).isSome
  · have hrun : cs.takeWhile (fun c => (digit? c).isSome) = cs :=
      List.takeWhile_eq_self_iff.mpr hdigits
    have hrest : cs.dropWhile (fun c => (digit? c).isSome) = [] :=
      List.dropWhile_eq_nil_iff.mpr hdigits
    simp only [complete, run, hrun, hrest, mapM_of_forall_isSome hdigits,
      foldlM_push_zero hrange hbase]
    by_cases hempty : cs.isEmpty
    · rw [if_pos hempty, if_pos hempty]
      rfl
    · rw [if_neg hempty, if_neg hempty, Option.map_some, Option.bind_some]
      cases range.checked (signed negative (ofDigits base (cs.filterMap digit?))) <;> rfl
  · have hrest : cs.dropWhile (fun c => (digit? c).isSome) ≠ [] :=
      mt List.dropWhile_eq_nil_iff.mp hdigits
    have hnone : cs.mapM digit? = none := by
      rw [← Option.not_isSome_iff_eq_none, mapM_isSome_iff]
      exact hdigits
    rw [hnone, Option.map_none, ite_self, Option.bind_none]
    refine complete_eq_none fun a ha => ?_
    unfold run at ha
    simp only at ha
    split at ha
    next => cases ha
    next =>
      obtain ⟨_, _, heq⟩ := Option.map_eq_some_iff.mp ha
      exact hrest (Prod.mk.inj heq).2

theorem complete_decimal (cs : List Char) :
    decimal.complete cs = (Text.integer? cs).bind int64.checked := by
  have hrun : decimal.complete cs =
      (run digit? 10 int64 (splitSign cs).1).complete (splitSign cs).2 := rfl
  rw [hrun, complete_run proper_int64 (by decide), Text.integer?_eq, Option.bind_map]
  rfl

/-! ## Numbers -/

theorem complete_orElse_of_none {first second : Scanner α} (h : first cs = none) :
    (first.orElse second).complete cs = second.complete cs := by
  simp only [complete, orElse, h, Option.none_or]

theorem complete_orElse_of_some {first second : Scanner α} (h : (first cs).isSome) :
    (first.orElse second).complete cs = first.complete cs := by
  simp only [complete, orElse, Option.or_of_isSome h]

theorem complete_of_none {scanner : Scanner α} (h : scanner cs = none) :
    scanner.complete cs = none := by
  rw [complete, h]

/-- Behind `0x` the decimal scanner is of no help: it leaves the `x`. -/
theorem complete_integer_hexadecimal {x : Char} {digits : List Char} (hx : x = 'x' ∨ x = 'X') :
    integer.complete ('0' :: x :: digits) =
      (integer? ('0' :: x :: digits)).bind int64.checked := by
  have hrun : hexadecimal.complete ('0' :: x :: digits) =
      (run hexDigit? 16 int64 false).complete digits := by
    rcases hx with rfl | rfl <;> rfl
  have hinteger : integer? ('0' :: x :: digits) = (hexadecimal? digits).map Int.ofNat := by
    rcases hx with rfl | rfl <;> rfl
  have hchecked : hexadecimal.complete ('0' :: x :: digits) =
      (integer? ('0' :: x :: digits)).bind int64.checked := by
    rw [hrun, hinteger, complete_run proper_int64 (by decide), Option.bind_map]
    rfl
  cases hscanned : hexadecimal ('0' :: x :: digits) with
  | some found =>
      rw [integer, complete_orElse_of_some (by rw [hscanned]; rfl), hchecked]
  | none =>
      have hdecimal : Text.integer? ('0' :: x :: digits) = none := by
        refine Option.eq_none_iff_forall_ne_some.mpr fun v hv => ?_
        obtain ⟨sign, _, run, n, hsign, hdigits, htext, -⟩ := Text.integer?_eq_some_iff.mp hv
        have hletter : x.toLower ∉ digitChars.take 10 := by
          rcases hx with rfl | rfl <;> decide
        cases hsign with
        | none =>
            rw [List.nil_append] at htext
            exact hdigits.not_mem hletter (by simp [← htext])
        | plus => cases htext
        | minus => cases htext
      rw [integer, complete_orElse_of_none hscanned, complete_decimal, hdecimal, ← hchecked,
        complete_of_none hscanned]
      rfl

theorem complete_integer (cs : List Char) :
    integer.complete cs = (integer? cs).bind int64.checked := by
  unfold integer?
  split
  next digits => exact complete_integer_hexadecimal (.inl rfl)
  next digits => exact complete_integer_hexadecimal (.inr rfl)
  next hx hX =>
    have hnone : hexadecimal cs = none := by
      unfold hexadecimal
      split
      next digits => exact absurd rfl (hx digits)
      next digits => exact absurd rfl (hX digits)
      next => rfl
    rw [integer, complete_orElse_of_none hnone, complete_decimal]

/-- A range within that of the scanner is all that is checked. -/
theorem complete_integer_bind_checked {range : Range} (hlow : int64.low ≤ range.low)
    (hhigh : range.high ≤ int64.high) (cs : List Char) :
    (integer.complete cs).bind range.checked = bounded? range.low range.high cs := by
  rw [complete_integer, bounded?]
  cases integer? cs with
  | none => rfl
  | some n =>
      rw [Option.bind_some, Option.filter_some]
      by_cases hn : range.low ≤ n ∧ n ≤ range.high
      · have hword : int64.checked n = some n :=
          Range.checked_eq_some_iff.mpr ⟨⟨hlow.trans hn.1, hn.2.trans hhigh⟩, rfl⟩
        rw [hword, Option.bind_some, if_pos (decide_eq_true hn)]
        exact Range.checked_eq_some_iff.mpr ⟨hn, rfl⟩
      · rw [if_neg (by simpa using hn)]
        cases hword : int64.checked n with
        | none => rfl
        | some v =>
            obtain ⟨-, rfl⟩ := Range.checked_eq_some_iff.mp hword
            exact Range.checked_eq_none_iff.mpr hn

theorem filter_checked_uint8 (n : Nat) :
    (uint8.checked (signed false n)).filter (fun n => n < (registerCount : Int)) =
      ((some n).filter (· < registerCount)).map Int.ofNat := by
  have hsigned : signed false n = n := rfl
  rw [hsigned, Option.filter_some]
  by_cases hn : n < registerCount
  · have hword : uint8.checked n = some (n : Int) := by
      have hlt : n < 8 := hn
      refine Range.checked_eq_some_iff.mpr ⟨?_, rfl⟩
      simp only [uint8]
      omega
    rw [hword, Option.filter_some, if_pos (by simpa using hn), if_pos (by simpa using hn)]
    rfl
  · rw [if_neg (by simpa using hn), Option.map_none]
    cases hword : uint8.checked n with
    | none => rfl
    | some v =>
        obtain ⟨-, rfl⟩ := Range.checked_eq_some_iff.mp hword
        rw [Option.filter_some, if_neg (by simpa using hn)]

theorem complete_register (cs : List Char) :
    (register.complete cs).filter (fun n => n < (registerCount : Int)) =
      (register? cs).map Int.ofNat := by
  have hrun (digits : List Char) :
      ((run digit? 10 uint8 false).complete digits).filter (fun n => n < (registerCount : Int)) =
        ((natural? digits).filter (· < registerCount)).map Int.ofNat := by
    rw [complete_run proper_uint8 (by decide)]
    change ((natural? digits).bind fun n => uint8.checked (signed false n)).filter _ = _
    cases natural? digits with
    | none => rfl
    | some n => exact filter_checked_uint8 n
  unfold register?
  split
  next digits => exact hrun digits
  next digits => exact hrun digits
  next hr hR =>
    have hregister : register cs = run digit? 10 uint8 false cs := by
      unfold register
      split
      next digits => exact absurd rfl (hr digits)
      next digits => exact absurd rfl (hR digits)
      next => rfl
    have hcomplete : register.complete cs = (run digit? 10 uint8 false).complete cs := by
      rw [complete, hregister, complete]
    rw [hcomplete]
    exact hrun cs

/-! ## Masks -/

theorem and_not_all_eq_zero_iff (bits : UInt8) :
    bits &&& ~~~Condition.all = 0 ↔ bits.toNat ≤ 7 := by
  have hall : ∀ n < 256, UInt8.ofNat n &&& ~~~Condition.all = 0 ↔ n ≤ 7 := by decide +kernel
  have hbits := hall bits.toNat bits.toNat_lt
  rwa [UInt8.ofNat_toNat] at hbits

theorem maskOf?_eq (n : Int) :
    maskOf? n = if 0 ≤ n ∧ n ≤ 7 then some (.ofNat n.toNat) else none := by
  unfold maskOf?
  cases hword : uint8.checked n with
  | none =>
      rw [Option.bind_none, if_neg]
      have hout := Range.checked_eq_none_iff.mp hword
      simp only [uint8] at hout
      omega
  | some v =>
      obtain ⟨⟨hlow, hhigh⟩, rfl⟩ := Range.checked_eq_some_iff.mp hword
      simp only [uint8] at hlow hhigh
      have hbits : (UInt8.ofNat n.toNat).toNat = n.toNat :=
        UInt8.toNat_ofNat_of_lt (by rw [UInt8.size]; omega)
      simp only [Option.bind_some, and_not_all_eq_zero_iff, hbits]
      by_cases hn : n ≤ 7
      · rw [if_pos (by omega), if_pos ⟨hlow, hn⟩]
      · rw [if_neg (by omega), if_neg (by omega)]

/-- The letters of a condition are no number to the scanner. -/
theorem integer_of_isCondition (h : IsCondition cs) : integer cs = none := by
  obtain ⟨c, cs, rfl⟩ := List.exists_cons_of_ne_nil h.1
  have hc : 58 ≤ c.toNat := Nat.le_trans (by decide) (le_of_toLower_mem (h.2 c List.mem_cons_self))
  have hhexadecimal : hexadecimal (c :: cs) = none := by
    unfold hexadecimal
    split
    next heq =>
      cases heq
      exact absurd hc (by decide)
    next heq =>
      cases heq
      exact absurd hc (by decide)
    next => rfl
  have hdecimal : decimal (c :: cs) = none := by
    simp [decimal, splitSign_of_le hc, run, digit?_of_le hc]
  rw [integer, orElse, hhexadecimal, hdecimal, Option.or_none]

/-- The longest run of letters and digits, read as a condition. -/
theorem join_complete_letters (cs : List Char) :
    (complete (fun cs => some (Condition.ofLetters? (cs.takeWhile Char.isAlphanum),
      cs.dropWhile Char.isAlphanum)) cs).join = Condition.ofLetters? cs := by
  by_cases hall : ∀ c ∈ cs, c.isAlphanum = true
  · have hword : cs.takeWhile Char.isAlphanum = cs := List.takeWhile_eq_self_iff.mpr hall
    have hrest : cs.dropWhile Char.isAlphanum = [] := List.dropWhile_eq_nil_iff.mpr hall
    simp only [complete, hword, hrest]
    rfl
  · have hrest : cs.dropWhile Char.isAlphanum ≠ [] := mt List.dropWhile_eq_nil_iff.mp hall
    have hletters : Condition.ofLetters? cs = none :=
      ofLetters?_eq_none_iff.mpr fun hcondition => hall hcondition.isAlphanum
    rw [hletters, complete_eq_none]
    · rfl
    · exact fun bits hbits => hrest (Prod.mk.inj (Option.some.inj hbits)).2

/-- Where no number is scanned, there are letters or nothing. -/
theorem mask?_of_complete_integer (h : integer.complete cs = none) :
    mask? cs = Condition.ofLetters? cs := by
  rw [complete_integer] at h
  unfold mask?
  cases hn : integer? cs with
  | none => rfl
  | some n =>
      rw [hn, Option.bind_some, Range.checked_eq_none_iff] at h
      have hletters : Condition.ofLetters? cs = none := by
        refine ofLetters?_eq_none_iff.mpr fun hcondition => ?_
        rw [integer?_of_isCondition hcondition] at hn
        cases hn
      simp only [int64] at h
      simp only [hletters]
      exact if_neg (by omega)

theorem complete_mask (cs : List Char) : (mask.complete cs).join = mask? cs := by
  cases hinteger : integer cs with
  | none =>
      have hnone : integer.map maskOf? cs = none := by rw [map, hinteger, Option.map_none]
      rw [mask, complete_orElse_of_none hnone, join_complete_letters,
        mask?_of_complete_integer (complete_of_none hinteger)]
  | some found =>
      obtain ⟨n, rest⟩ := found
      have hfound : integer.map maskOf? cs = some (maskOf? n, rest) := by
        rw [map, hinteger, Option.map_some]
      rw [mask, complete_orElse_of_some (by rw [hfound]; rfl), complete, hfound]
      cases rest with
      | nil =>
          have hcomplete : integer.complete cs = some n := complete_eq_some_iff.mpr hinteger
          rw [complete_integer, Option.bind_eq_some_iff] at hcomplete
          obtain ⟨v, hv, hchecked⟩ := hcomplete
          obtain ⟨-, rfl⟩ := Range.checked_eq_some_iff.mp hchecked
          simp only [mask?, hv, maskOf?_eq]
          rfl
      | cons c rest =>
          have hcomplete : integer.complete cs = none := by
            rw [complete, hinteger]
          have hletters : Condition.ofLetters? cs = none := by
            refine ofLetters?_eq_none_iff.mpr fun hcondition => ?_
            rw [integer_of_isCondition hcondition] at hinteger
            cases hinteger
          rw [mask?_of_complete_integer hcomplete, hletters]
          rfl

end Scanner

/-! ## Operands -/

section Operands

variable {kind : OperandKind} {labels : Labels} {cs : List Char}

theorem complete_identifier?_eq_some_iff {name : List Char} :
    Scanner.complete identifier? cs = some name ↔ IsIdentifier cs ∧ name = cs :=
  Scanner.complete_eq_some_iff.trans identifier?_eq_some_nil_iff

theorem scanPlain_target (cs : List Char) :
    scanPlain .target cs =
      match bounded? 0 (UInt32.size - 1 : Nat) cs with
      | some n => .ok (.u32 (.ofNat n.toNat))
      | none => .error (.invalidOperand (String.ofList cs)) := by
  have hbounded : (Scanner.integer.complete cs).bind (Scanner.Range.checked ⟨0, 4294967295⟩) =
      bounded? 0 (UInt32.size - 1 : Nat) cs :=
    Scanner.complete_integer_bind_checked (by decide) (by decide) cs
  rw [scanPlain, scanOperand?, hbounded]
  cases bounded? 0 (UInt32.size - 1 : Nat) cs <;> rfl

/-- Scanned with checked words, the operand is what is read. -/
theorem scanKind_eq (hkind : kind.isInteger = true) (labels : Labels) (cs : List Char) :
    scanKind kind labels cs = readKind kind labels cs := by
  cases kind with
  | none | float => cases hkind
  | target =>
      change _ = readTarget labels cs
      rw [scanKind]
      by_cases hname : IsIdentifier cs
      · have hscanned := complete_identifier?_eq_some_iff.mpr ⟨hname, rfl⟩
        have hread := identifier?_eq_some_nil_iff.mpr ⟨hname, rfl⟩
        cases hlookup : labels.lookup (String.ofList cs) <;>
          simp only [hscanned, readTarget, hread, hlookup]
      · have hnone : Scanner.complete identifier? cs = none :=
          Option.eq_none_iff_forall_ne_some.mpr fun name hsome =>
            hname (complete_identifier?_eq_some_iff.mp hsome).1
        rw [hnone, readTarget_of_not_isIdentifier hname]
        exact scanPlain_target cs
  | mask =>
      rw [scanKind, scanPlain, scanOperand?, Scanner.complete_mask]
      · rfl
      · rintro ⟨⟩
  | immediate | address =>
      rw [scanKind, scanPlain, scanOperand?,
        Scanner.complete_integer_bind_checked (by decide) (by decide)]
      · rfl
      · rintro ⟨⟩
  | register | optionalRegister =>
      rw [scanKind, scanPlain, scanOperand?, Scanner.complete_register, Option.map_map]
      · rfl
      · rintro ⟨⟩

end Operands

/-! ## Exactness -/

/-- The operand of an operation is read from the text as it stands there. -/
structure ReadsExactly (op : Opcode) (labels : Labels) (text : List Char) : Prop where
  /-- What is read is what the text stands for, a numeral for the integer itself. -/
  denotes : ∀ operand, readOperand op labels (some text) = .ok operand ↔
    StandsFor labels text op.operandKind operand
  /-- A numeral is read where its integer is in the range of the operand. -/
  range : ∀ v low high, Numeral text v → numeralRange? op.operandKind = some (low, high) →
    ((∃ operand, readOperand op labels (some text) = .ok operand) ↔ low ≤ v ∧ v ≤ high)
  /-- A text stands for one integer at most. -/
  unique : ∀ v v', Numeral text v → Numeral text v' → v = v'
  /-- Any other text is refused. -/
  invalid : (∀ operand, ¬ StandsFor labels text op.operandKind operand) →
    ¬ (op.operandKind = .target ∧ IsIdentifier text) →
    readOperand op labels (some text) = .error (.invalidOperand (String.ofList text))
  undefined : op.operandKind = .target → IsIdentifier text →
    labels.lookup (String.ofList text) = none →
    readOperand op labels (some text) = .error (.undefinedLabel (String.ofList text))
  /-- The same is scanned with words of 64 and of 8 bits and checked arithmetic. -/
  scanned : scanKind op.operandKind labels text = readOperand op labels (some text)

/-- Operands that are whole numbers are read exactly from texts of any length. -/
theorem readOperand_exact {op : Opcode} (hop : op.operandKind.isInteger = true) (labels : Labels)
    (text : List Char) : ReadsExactly op labels text where
  denotes operand := by
    rw [readOperand_some]
    exact readKind_eq_ok_iff_standsFor hop
  range v low high hv hrange := by
    simp only [readOperand_some, readKind_eq_ok_iff_standsFor hop]
    exact ⟨fun ⟨_, h⟩ => h.range hv hrange, fun ⟨hlow, hhigh⟩ =>
      exists_standsFor labels hv hrange hlow hhigh⟩
  unique _ _ := Numeral.unique
  invalid hnone hlabel := by
    have hread : ∀ operand, readKind op.operandKind labels text ≠ .ok operand :=
      fun operand hok => hnone operand ((readKind_eq_ok_iff_standsFor hop).mp hok)
    rw [readOperand_some]
    by_cases htarget : op.operandKind = .target
    · rw [htarget] at hread hlabel ⊢
      exact readTarget_of_unread hread fun hname => hlabel ⟨rfl, hname⟩
    · exact readKind_eq_error hop htarget hread
  undefined htarget hname hlookup := by
    rw [readOperand_some, htarget]
    exact readTarget_of_undefined hname hlookup
  scanned := by
    rw [readOperand_some, scanKind_eq hop]

/-- Digits that fit no word of 64 bits are a number all the same, and not one modulo a power of
two. -/
theorem readOperand_exact_wide :
    Opcode.jump.operandKind.isInteger = true ∧
      Numeral "0xfffffffffffffffff".toList 295147905179352825855 ∧
      ¬ ∃ operand, readOperand .jump [] (some "0xfffffffffffffffff".toList) = .ok operand := by
  have hexact : ReadsExactly .jump [] "0xfffffffffffffffff".toList := readOperand_exact rfl [] _
  have hv : Numeral "0xfffffffffffffffff".toList 295147905179352825855 :=
    integer?_eq_some_iff.mp (by decide)
  refine ⟨rfl, hv, ?_⟩
  rw [hexact.range _ _ _ hv rfl]
  decide

end TickMachine.Assembly
