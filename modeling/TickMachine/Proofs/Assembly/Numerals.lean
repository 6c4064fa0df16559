import TickMachine.Assembly.Operand
import TickMachine.Proofs.Text.Digits

/-! # Numerals of a source

A numeral is written with the digits of its base, behind a sign or behind `0x`, and stands for the
number that these denote. That is said here without the reader of numerals, which is then shown to
accept the numerals and nothing else, and to find the number that they stand for.
-/

namespace TickMachine.Assembly

open Text

variable {text : List Char}

/-- The text is a numeral that stands for the integer: decimal digits behind an optional sign, or
hexadecimal digits behind `0x`. -/
inductive Numeral : List Char → Int → Prop
  | decimal {digits : List Char} {n : Nat} (h : Digits 10 digits n) : Numeral digits n
  | plus {digits : List Char} {n : Nat} (h : Digits 10 digits n) : Numeral ('+' :: digits) n
  | minus {digits : List Char} {n : Nat} (h : Digits 10 digits n) : Numeral ('-' :: digits) (-n)
  | hexadecimal {x : Char} {digits : List Char} {n : Nat} (hx : x = 'x' ∨ x = 'X')
      (h : Digits 16 digits n) : Numeral ('0' :: x :: digits) n

theorem integer?_eq_some_iff {v : Int} : integer? text = some v ↔ Numeral text v := by
  have hx (x : Char) (hx : x = 'x' ∨ x = 'X') : x.toLower ∉ digitChars.take 10 := by
    rcases hx with rfl | rfl <;> decide
  constructor
  · intro h
    unfold integer? at h
    split at h
    next digits =>
      obtain ⟨n, hn, rfl⟩ := Option.map_eq_some_iff.mp h
      exact .hexadecimal (.inl rfl) (hexadecimal?_eq_some_iff.mp hn)
    next digits =>
      obtain ⟨n, hn, rfl⟩ := Option.map_eq_some_iff.mp h
      exact .hexadecimal (.inr rfl) (hexadecimal?_eq_some_iff.mp hn)
    next =>
      obtain ⟨sign, negative, digits, n, hsign, hdigits, rfl, rfl⟩ :=
        Text.integer?_eq_some_iff.mp h
      cases hsign with
      | none => exact .decimal hdigits
      | plus => exact .plus hdigits
      | minus => exact .minus hdigits
  · intro h
    -- only the digits of a decimal numeral could be taken for something else
    have hother (hdecimal : ∀ x digits, text = '0' :: x :: digits → ¬ (x = 'x' ∨ x = 'X')) :
        integer? text = Text.integer? text := by
      unfold integer?
      split
      next digits => exact absurd (.inl rfl) (hdecimal 'x' digits rfl)
      next digits => exact absurd (.inr rfl) (hdecimal 'X' digits rfl)
      next => rfl
    cases h with
    | @decimal _ n h =>
        rw [hother, Text.integer?_eq_some_iff]
        · exact ⟨[], false, text, n, .none, h, rfl, rfl⟩
        · rintro x digits rfl hx'
          exact absurd (by simp) (h.not_mem (hx x hx'))
    | @plus digits n h =>
        rw [hother nofun, Text.integer?_eq_some_iff]
        exact ⟨_, _, digits, n, .plus, h, rfl, rfl⟩
    | @minus digits n h =>
        rw [hother nofun, Text.integer?_eq_some_iff]
        exact ⟨_, _, digits, n, .minus, h, rfl, rfl⟩
    | hexadecimal hx h =>
        rcases hx with rfl | rfl
        · simp [integer?, hexadecimal?_eq_some_iff.mpr h]
        · simp [integer?, hexadecimal?_eq_some_iff.mpr h]

/-- A text stands for one integer at most. -/
theorem Numeral.unique {v v' : Int} (h : Numeral text v) (h' : Numeral text v') : v = v' := by
  rw [← integer?_eq_some_iff] at h h'
  exact Option.some.inj (h.symm.trans h')

end TickMachine.Assembly
