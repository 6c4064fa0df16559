import TickMachine.Proofs.Binary.Denoted
import TickMachine.Proofs.Source.Classes
import TickMachine.Proofs.Source.Steps

/-! # The values of number tokens

The text of an integer token is a run of digits, that of a decimal token has one point among them,
behind at least one digit. So integers have the values that their digits denote, as far as these fit
64 bits, and all decimals have values.
-/

namespace TickMachine

open Text

/-- The number that the digits of a text denote. -/
def Token.number (t : Token) : Nat :=
  Nat.ofDigitChars 10 t.text.text.toList 0

theorem integerLiteral?_of_isDigit {text : String} (hne : text.toList ≠ [])
    (h : ∀ c ∈ text.toList, c.isDigit = true) :
    integerLiteral? text =
      if Nat.ofDigitChars 10 text.toList 0 < 2 ^ 63 then
        some (Nat.ofDigitChars 10 text.toList 0 : Int)
      else none := by
  rw [integerLiteral?, integer?_of_isDigit hne h]
  have hmin : Int64.minValue.toInt = -2 ^ 63 := rfl
  have hmax : Int64.maxValue.toInt = 2 ^ 63 - 1 := rfl
  simp only [Option.filter_some, hmin, hmax, decide_eq_true_eq]
  congr 1
  rw [eq_iff_iff]
  omega

/-- Digits with a point behind at least one of them are a decimal number. -/
theorem exists_written_point {whole fraction : List Char} (hne : whole ≠ [])
    (h : ∀ c ∈ whole ++ fraction, c.isDigit = true) :
    ∃ d : Decimal, d.Written (whole ++ '.' :: fraction) := by
  have hdigits : Digits 10 (whole ++ fraction) (Nat.ofDigitChars 10 (whole ++ fraction) 0) :=
    digits_iff_isDigit.mpr ⟨List.append_ne_nil_of_left_ne_nil hne fraction, h, rfl⟩
  have hwritten := Decimal.Written.intro .none (.point hdigits) .none
  rw [List.append_nil] at hwritten
  exact ⟨_, hwritten⟩

theorem isSome_double {cs : List Char} {d : Decimal} (h : d.Written cs) :
    (Double.ofChars? cs).isSome = true := by
  rw [Option.isSome_iff_exists]
  exact ⟨_, Double.ofChars?_eq_some_iff.mpr (.decimal h (Double.ofDecimal_eq_iff.mp rfl))⟩

/-! ## Tokens of a source -/

namespace Lexed

variable {policy : ErrorPolicy} {source file : String} {lexed : Lexed} {t : Token}

/-- An integer token is written with digits only, at least one of them. -/
theorem int_digits (h : ofSource policy source file = .ok lexed) (hmem : t ∈ lexed.tokens)
    (hkind : t.kind = .int) :
    t.text.text.toList ≠ [] ∧ ∀ c ∈ t.text.text.toList, c.isDigit = true := by
  have hlexical := lexical_of_mem h hmem (by simp [hkind]) (by simp [hkind])
  rw [hkind] at hlexical
  cases hlexical with
  | integer hne hdigits => exact ⟨hne, hdigits⟩

/-- An integer token has the value that its digits denote, if it is less than 2 ^ 63. -/
theorem expressionOf?_int (h : ofSource policy source file = .ok lexed) (hmem : t ∈ lexed.tokens)
    (hkind : t.kind = .int) : Parser.expressionOf? t =
      if t.number < 2 ^ 63 then some (.integer t.number t.position) else none := by
  obtain ⟨hne, hdigits⟩ := int_digits h hmem hkind
  simp only [Parser.expressionOf?, hkind, integerLiteral?_of_isDigit hne hdigits]
  change Option.map _ (if t.number < 2 ^ 63 then _ else _) = _
  split
  next => rfl
  next => rfl

/-- A decimal token has a value, and there is a point in its text. -/
theorem dec_value (h : ofSource policy source file = .ok lexed) (hmem : t ∈ lexed.tokens)
    (hkind : t.kind = .dec) :
    (Parser.expressionOf? t).isSome = true ∧ '.' ∈ t.text.text.toList := by
  have hlexical := lexical_of_mem h hmem (by simp [hkind]) (by simp [hkind])
  rw [hkind] at hlexical
  generalize hcs : t.text.text.toList = cs at hlexical
  cases hlexical with
  | decimal hne hdigits =>
      refine ⟨?_, by simp⟩
      simp only [Parser.expressionOf?, hkind, hcs, Option.isSome_map]
      obtain ⟨d, hd⟩ := exists_written_point hne hdigits
      exact isSome_double hd

end Lexed

end TickMachine
