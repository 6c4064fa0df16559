import Mathlib.Data.Bool.AllAny
import Mathlib.Data.Nat.Digits.Defs
import Mathlib.Tactic.IntervalCases
import TickMachine.Proofs.Text.Numeral

/-! # Digits and signs

What is written with the digits of a base, and with a sign in front of it, and the number that it
stands for. That is said here without the readers of numbers, which are then shown to accept these
texts and nothing else.
-/

namespace TickMachine.Text

variable {base n : Nat} {text digits : List Char} {c : Char}

/-! ## Letters in lower case -/

/-- In lower case the letters from A to Z are others, and no other character is. -/
theorem toNat_toLower (c : Char) :
    c.toLower.toNat = if 65 ≤ c.toNat ∧ c.toNat ≤ 90 then c.toNat + 32 else c.toNat := by
  unfold Char.toLower
  split
  next hupper =>
    have hle : 65 ≤ c.toNat ∧ c.toNat ≤ 90 :=
      ⟨UInt32.le_iff_toNat_le.mp hupper.1, UInt32.le_iff_toNat_le.mp hupper.2⟩
    rw [if_pos hle]
    change (c.val + 32).toNat = c.toNat + 32
    rw [UInt32.toNat_add]
    exact Nat.mod_eq_of_lt (by rw [Char.toNat_val]; simp; omega)
  next hupper =>
    rw [if_neg fun hle => hupper
      ⟨UInt32.le_iff_toNat_le.mpr hle.1, UInt32.le_iff_toNat_le.mpr hle.2⟩]

/-! ## Digits -/

/-- The digits of all bases in the order of their values. -/
def digitChars : List Char :=
  "0123456789abcdef".toList

/-- The value of a digit, in either case. -/
def digitValue (c : Char) : Nat :=
  digitChars.idxOf c.toLower

/-- The text is written with digits of the base, at least one, and stands for the number. -/
structure Digits (base : Nat) (text : List Char) (n : Nat) : Prop where
  ne_nil : text ≠ []
  digits : ∀ c ∈ text, c.toLower ∈ digitChars.take base
  value : n = Nat.ofDigits base (text.map digitValue).reverse

/-- The value of a digit of the base. -/
def digitOf? (base : Nat) (c : Char) : Option Nat :=
  if c.toLower ∈ digitChars.take base then some (digitValue c) else none

theorem isSome_digitOf?_iff : (digitOf? base c).isSome ↔ c.toLower ∈ digitChars.take base := by
  unfold digitOf?
  split
  next h => simp [h]
  next h => simp [h]

/-- The hexadecimal digits in both cases. -/
def hexadecimalChars : List Char :=
  "0123456789ABCDEFabcdef".toList

theorem mem_hexadecimalChars_iff : c ∈ hexadecimalChars ↔
    (48 ≤ c.toNat ∧ c.toNat ≤ 57) ∨ (65 ≤ c.toNat ∧ c.toNat ≤ 70) ∨
      (97 ≤ c.toNat ∧ c.toNat ≤ 102) := by
  constructor
  · have hall : ∀ c ∈ hexadecimalChars, (48 ≤ c.toNat ∧ c.toNat ≤ 57) ∨
        (65 ≤ c.toNat ∧ c.toNat ≤ 70) ∨ (97 ≤ c.toNat ∧ c.toNat ≤ 102) :=
      List.all_iff_forall_prop.mp (by decide)
    exact hall c
  · intro h
    rw [← Char.ofNat_toNat c]
    generalize c.toNat = k at h
    rcases h with ⟨hlow, hhigh⟩ | ⟨hlow, hhigh⟩ | ⟨hlow, hhigh⟩ <;> interval_cases k <;> decide

theorem mem_hexadecimalChars_of_toLower (h : c.toLower ∈ digitChars) : c ∈ hexadecimalChars := by
  have hall : ∀ d ∈ digitChars, (48 ≤ d.toNat ∧ d.toNat ≤ 57) ∨ (97 ≤ d.toNat ∧ d.toNat ≤ 102) :=
    List.all_iff_forall_prop.mp (by decide)
  have hrange := hall _ h
  rw [toNat_toLower] at hrange
  rw [mem_hexadecimalChars_iff]
  split at hrange <;> omega

theorem digitOf?_of_not_mem (h : c ∉ hexadecimalChars) : digitOf? base c = none := by
  refine if_neg fun hmem => h (mem_hexadecimalChars_of_toLower ?_)
  exact List.mem_of_mem_take hmem

theorem char_le_iff {c d : Char} : c ≤ d ↔ c.toNat ≤ d.toNat :=
  UInt32.le_iff_toNat_le

theorem digit?_eq (c : Char) : digit? c = digitOf? 10 c := by
  by_cases h : c ∈ hexadecimalChars
  · have hall : ∀ c ∈ hexadecimalChars, digit? c = digitOf? 10 c :=
      List.all_iff_forall_prop.mp (by decide)
    exact hall c h
  · rw [digitOf?_of_not_mem h]
    rw [mem_hexadecimalChars_iff, not_or] at h
    simp only [digit?, char_le_iff, Char.reduceToNat]
    exact if_neg h.1

theorem hexDigit?_eq (c : Char) : hexDigit? c = digitOf? 16 c := by
  by_cases h : c ∈ hexadecimalChars
  · have hall : ∀ c ∈ hexadecimalChars, hexDigit? c = digitOf? 16 c :=
      List.all_iff_forall_prop.mp (by decide)
    exact hall c h
  · rw [digitOf?_of_not_mem h]
    rw [mem_hexadecimalChars_iff, not_or, not_or] at h
    obtain ⟨hdigit, hupper, hlower⟩ := h
    simp only [hexDigit?, char_le_iff, Char.reduceToNat]
    rw [if_neg hdigit, if_neg hlower, if_neg hupper]

/-- The decimal digits are those that the library knows. -/
theorem isDigit_iff_mem_digitChars : c.isDigit = true ↔ c.toLower ∈ digitChars.take 10 := by
  rw [← isSome_digitOf?_iff, ← digit?_eq, digit?, Char.isDigit, Bool.and_eq_true,
    decide_eq_true_iff, decide_eq_true_iff]
  split
  next h => exact iff_of_true h rfl
  next h => exact iff_of_false h Bool.false_ne_true

/-! ## Runs of digits -/

theorem mapM_isSome_iff {α β : Type} {f : α → Option β} {as : List α} :
    (as.mapM f).isSome ↔ ∀ a ∈ as, (f a).isSome := by
  induction as with
  | nil => simp
  | cons a as ih =>
      rw [List.mapM_cons, List.forall_mem_cons, ← ih]
      cases f a with
      | none => simp
      | some b => cases as.mapM f <;> simp

theorem ofDigits_eq (base : Nat) (values : List Nat) :
    ofDigits base values = Nat.ofDigits base values.reverse := by
  rw [Nat.ofDigits_eq_foldr, List.foldr_reverse, ofDigits]
  congr 1
  funext n d
  rw [Nat.mul_comm, Nat.add_comm]
  rfl

theorem mapM_digitOf? (h : ∀ c ∈ text, c.toLower ∈ digitChars.take base) :
    text.mapM (digitOf? base) = some (text.map digitValue) := by
  induction text with
  | nil => rfl
  | cons c cs ih =>
      obtain ⟨hc, hcs⟩ := List.forall_mem_cons.mp h
      have hdigit : digitOf? base c = some (digitValue c) := if_pos hc
      rw [List.mapM_cons, hdigit, ih hcs]
      rfl

/-- What is read digit by digit is what is written with digits of the base. -/
theorem mapM_eq_some_iff_digits :
    (if text.isEmpty then none else (text.mapM (digitOf? base)).map (ofDigits base)) = some n ↔
      Digits base text n := by
  by_cases hdigits : ∀ c ∈ text, c.toLower ∈ digitChars.take base
  · rw [mapM_digitOf? hdigits, Option.map_some, ofDigits_eq]
    split
    next hempty =>
      simp only [reduceCtorEq, false_iff]
      exact fun h => h.ne_nil (List.isEmpty_iff.mp hempty)
    next hempty =>
      rw [Option.some.injEq]
      have hne : text ≠ [] := fun hnil => hempty (List.isEmpty_iff.mpr hnil)
      exact ⟨fun h => ⟨hne, hdigits, h.symm⟩, fun h => h.value.symm⟩
  · have hnone : text.mapM (digitOf? base) = none := by
      rw [← Option.not_isSome_iff_eq_none, mapM_isSome_iff]
      simpa only [isSome_digitOf?_iff] using hdigits
    rw [hnone, Option.map_none, ite_self]
    exact iff_of_false nofun fun h => hdigits h.digits

theorem natural?_eq_some_iff : natural? text = some n ↔ Digits 10 text n := by
  rw [natural?, funext digit?_eq]
  exact mapM_eq_some_iff_digits

theorem hexadecimal?_eq_some_iff : hexadecimal? text = some n ↔ Digits 16 text n := by
  rw [hexadecimal?, funext hexDigit?_eq]
  exact mapM_eq_some_iff_digits

/-- What is written with decimal digits is written with those that the library knows. -/
theorem digits_iff_isDigit :
    Digits 10 text n ↔
      text ≠ [] ∧ (∀ c ∈ text, c.isDigit = true) ∧ n = Nat.ofDigitChars 10 text 0 := by
  constructor
  · intro h
    have hdigits : ∀ c ∈ text, c.isDigit = true :=
      fun c hc => isDigit_iff_mem_digitChars.mpr (h.digits c hc)
    have hvalue := (natural?_eq_some_iff.mpr h).symm.trans (natural?_of_isDigit h.ne_nil hdigits)
    exact ⟨h.ne_nil, hdigits, Option.some.inj hvalue⟩
  · rintro ⟨hne, hdigits, rfl⟩
    exact natural?_eq_some_iff.mp (natural?_of_isDigit hne hdigits)

/-- A character that is no decimal digit is not in a decimal numeral without sign. -/
theorem Digits.not_mem (h : Digits 10 text n) (hc : c.toLower ∉ digitChars.take 10) : c ∉ text :=
  fun hmem => hc (h.digits c hmem)

/-! ## Signs -/

/-- A sign in front of a number, which may be left out. -/
inductive Sign : List Char → Bool → Prop
  | none : Sign [] false
  | plus : Sign ['+'] false
  | minus : Sign ['-'] true

/-- A natural number with its sign. -/
def signed (negative : Bool) (n : Nat) : Int :=
  if negative then -n else n

/-- Every text has one sign that is split off. -/
theorem exists_sign (text : List Char) :
    ∃ sign, Sign sign (splitSign text).1 ∧ text = sign ++ (splitSign text).2 := by
  unfold splitSign
  split
  next digits => exact ⟨['-'], .minus, rfl⟩
  next digits => exact ⟨['+'], .plus, rfl⟩
  next => exact ⟨[], .none, rfl⟩

/-- A sign is split off what has no other sign behind it. -/
theorem Sign.splitSign {sign : List Char} {negative : Bool} (h : Sign sign negative)
    (hplus : text.head? ≠ some '+') (hminus : text.head? ≠ some '-') :
    splitSign (sign ++ text) = (negative, text) := by
  cases h with
  | none =>
      rw [List.nil_append]
      unfold Text.splitSign
      split
      next => exact absurd rfl hminus
      next => exact absurd rfl hplus
      next => rfl
  | plus => rfl
  | minus => rfl

theorem Sign.splitSign_of_isDigit {sign : List Char} {negative : Bool} (h : Sign sign negative)
    (hdigit : ∀ c ∈ text.head?, c.isDigit = true) :
    Text.splitSign (sign ++ text) = (negative, text) :=
  h.splitSign (fun hplus => nomatch hdigit '+' hplus) fun hminus => nomatch hdigit '-' hminus

theorem integer?_eq (text : List Char) :
    integer? text = (natural? (splitSign text).2).map (signed (splitSign text).1) := by
  rw [integer?]
  obtain ⟨negative, digits⟩ := splitSign text
  cases hn : natural? digits with
  | none => simp [hn]
  | some n => simp [hn, signed]

/-- Integers are read of digits behind an optional sign. -/
theorem integer?_eq_some_iff {v : Int} :
    integer? text = some v ↔ ∃ sign negative digits n, Sign sign negative ∧ Digits 10 digits n ∧
      text = sign ++ digits ∧ v = signed negative n := by
  rw [integer?_eq, Option.map_eq_some_iff]
  constructor
  · rintro ⟨n, hn, rfl⟩
    obtain ⟨sign, hsign, htext⟩ := exists_sign text
    exact ⟨sign, _, _, n, hsign, natural?_eq_some_iff.mp hn, htext, rfl⟩
  · rintro ⟨sign, negative, digits, n, hsign, hdigits, rfl, rfl⟩
    have hhead : ∀ c ∈ digits.head?, c.isDigit = true :=
      fun c hc => (digits_iff_isDigit.mp hdigits).2.1 c (List.mem_of_mem_head? hc)
    rw [hsign.splitSign_of_isDigit hhead]
    exact ⟨n, natural?_eq_some_iff.mpr hdigits, rfl⟩

end TickMachine.Text
