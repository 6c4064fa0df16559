import TickMachine.Binary.Decimal
import TickMachine.Proofs.Text.Cutting
import TickMachine.Proofs.Text.Digits

/-! # Decimal numbers as they are written

The grammar of decimal numbers: a sign, digits with a point among them, and an exponent, of which
only some digit has to be there. The reader of decimal numbers is shown to accept the texts of the
grammar and nothing else, and to find the numbers that they denote.
-/

namespace TickMachine.Decimal

open Text

variable {cs rest : List Char} {n places : Nat}

/-- The digits of a number, as many of them behind a point as the last argument says. -/
inductive Mantissa : List Char → Nat → Nat → Prop
  | whole {digits : List Char} {n : Nat} (hdigits : Digits 10 digits n) : Mantissa digits n 0
  | point {whole fraction : List Char} {n : Nat} (hdigits : Digits 10 (whole ++ fraction) n) :
      Mantissa (whole ++ '.' :: fraction) n fraction.length

/-- An exponent, which may be left out. -/
inductive Exponent : List Char → Int → Prop
  | none : Exponent [] 0
  | some {letter : Char} {sign digits : List Char} {negative : Bool} {n : Nat}
      (hletter : letter = 'e' ∨ letter = 'E') (hsign : Sign sign negative)
      (hdigits : Digits 10 digits n) : Exponent (letter :: (sign ++ digits)) (signed negative n)

/-- A decimal number as it is written. -/
inductive Written : List Char → Decimal → Prop
  | intro {sign mantissa exponent : List Char} {negative : Bool} {n places : Nat} {e : Int}
      (hsign : Sign sign negative) (hmantissa : Mantissa mantissa n places)
      (hexponent : Exponent exponent e) :
      Written (sign ++ (mantissa ++ exponent)) ⟨negative, n, e - places⟩

/-! ## The parts -/

theorem exponent?_eq_some_iff {e : Int} : exponent? cs = some e ↔ Exponent cs e := by
  constructor
  · intro h
    unfold exponent? at h
    split at h
    next =>
      cases h
      exact .none
    next rest =>
      obtain ⟨sign, negative, digits, n, hsign, hdigits, rfl, rfl⟩ := integer?_eq_some_iff.mp h
      exact .some (.inl rfl) hsign hdigits
    next rest =>
      obtain ⟨sign, negative, digits, n, hsign, hdigits, rfl, rfl⟩ := integer?_eq_some_iff.mp h
      exact .some (.inr rfl) hsign hdigits
    next => cases h
  · intro h
    cases h with
    | none => rfl
    | some hletter hsign hdigits =>
        have hread := integer?_eq_some_iff.mpr ⟨_, _, _, _, hsign, hdigits, rfl, rfl⟩
        rcases hletter with rfl | rfl
        · exact hread
        · exact hread

/-- Neither a digit nor a point stands in front of an exponent. -/
theorem Exponent.head? {e : Int} (h : Exponent cs e) :
    ∀ c ∈ cs.head?, c.isDigit = false ∧ c ≠ '.' := by
  cases h with
  | none => exact nofun
  | some hletter =>
      rintro _ ⟨⟩
      rcases hletter with rfl | rfl <;> decide

theorem Mantissa.exists_digits {mantissa : List Char} (h : Mantissa mantissa n places)
    (hrest : ∀ c ∈ rest.head?, c.isDigit = false ∧ c ≠ '.') :
    ∃ whole fraction, spanDigits (mantissa ++ rest) = (whole, fraction, rest) ∧
      Digits 10 (whole ++ fraction) n ∧ fraction.length = places := by
  have hdigit : ∀ c ∈ rest.head?, c.isDigit = false := fun c hc => (hrest c hc).1
  cases h with
  | whole hdigits =>
      refine ⟨mantissa, [], ?_, by rwa [List.append_nil], rfl⟩
      have hall := (digits_iff_isDigit.mp hdigits).2.1
      rw [spanDigits, takeWhile_append_stop hall hdigit, dropWhile_append_stop hall hdigit]
      split
      next => exact absurd rfl (hrest '.' rfl).2
      next => rfl
  | @point whole fraction n hdigits =>
      refine ⟨whole, fraction, ?_, hdigits, rfl⟩
      have hall := (digits_iff_isDigit.mp hdigits).2.1
      have hwhole : ∀ c ∈ whole, c.isDigit = true := fun c hc => hall c (by simp [hc])
      have hfraction : ∀ c ∈ fraction, c.isDigit = true := fun c hc => hall c (by simp [hc])
      have hpoint : ∀ c ∈ ('.' :: fraction ++ rest).head?, c.isDigit = false := by
        rintro _ ⟨⟩
        rfl
      rw [List.append_assoc, spanDigits, takeWhile_append_stop hwhole hpoint,
        dropWhile_append_stop hwhole hpoint, List.cons_append]
      change (whole, (fraction ++ rest).takeWhile _, (fraction ++ rest).dropWhile _) = _
      rw [takeWhile_append_stop hfraction hdigit, dropWhile_append_stop hfraction hdigit]

theorem exists_mantissa {whole fraction : List Char} (h : spanDigits cs = (whole, fraction, rest))
    (hdigits : Digits 10 (whole ++ fraction) n) :
    ∃ mantissa, Mantissa mantissa n fraction.length ∧ cs = mantissa ++ rest := by
  obtain ⟨front, back, rfl, hfront, hback⟩ := exists_span Char.isDigit cs
  rw [spanDigits, takeWhile_append_stop hfront hback, dropWhile_append_stop hfront hback] at h
  split at h
  next behind =>
    cases h
    refine ⟨_, .point hdigits, ?_⟩
    rw [List.append_assoc, List.cons_append, List.takeWhile_append_dropWhile]
  next =>
    cases h
    rw [List.append_nil] at hdigits
    exact ⟨_, .whole hdigits, rfl⟩

/-- A number is written with a digit or a point behind its sign. -/
theorem Mantissa.exists_head? {mantissa : List Char} (h : Mantissa mantissa n places)
    (rest : List Char) :
    ∃ c, (mantissa ++ rest).head? = some c ∧ (c.isDigit = true ∨ c = '.') := by
  cases h with
  | whole hdigits =>
      obtain ⟨hne, hall, -⟩ := digits_iff_isDigit.mp hdigits
      obtain ⟨c, cs, rfl⟩ := List.exists_cons_of_ne_nil hne
      exact ⟨c, rfl, .inl (hall c List.mem_cons_self)⟩
  | @point whole fraction n hdigits =>
      have hall := (digits_iff_isDigit.mp hdigits).2.1
      cases whole with
      | nil => exact ⟨'.', rfl, .inr rfl⟩
      | cons c whole => exact ⟨c, rfl, .inl (hall c List.mem_cons_self)⟩

theorem Mantissa.splitSign {sign mantissa : List Char} {negative : Bool}
    (h : Mantissa mantissa n places) (hsign : Sign sign negative) :
    Text.splitSign (sign ++ (mantissa ++ rest)) = (negative, mantissa ++ rest) := by
  obtain ⟨c, hc, hdigit⟩ := h.exists_head? rest
  rw [hsign.splitSign]
  · rw [hc]
    rintro ⟨⟩
    exact absurd hdigit (by decide)
  · rw [hc]
    rintro ⟨⟩
    exact absurd hdigit (by decide)

/-- The characters that a number may begin with. -/
def frontChars : List Char :=
  '+' :: '-' :: '.' :: digitChars.take 10

/-- No word begins as a number does. -/
theorem Mantissa.toLower_ne {mantissa : List Char} (h : Mantissa mantissa n places) {letter : Char}
    (hletter : letter ∉ frontChars) (rest word : List Char) :
    (mantissa ++ rest).map Char.toLower ≠ letter :: word := by
  obtain ⟨c, hc, hdigit⟩ := h.exists_head? rest
  intro heq
  have hlower : c.toLower = letter := by
    have hhead := congrArg List.head? heq
    rw [List.head?_map, hc] at hhead
    exact Option.some.inj hhead
  refine hletter (hlower ▸ ?_)
  rcases hdigit with hdigit | rfl
  · have hmem := isDigit_iff_mem_digitChars.mp hdigit
    exact List.mem_cons_of_mem _ (List.mem_cons_of_mem _ (List.mem_cons_of_mem _ hmem))
  · decide

theorem Written.toLower_ne {d : Decimal} (h : d.Written cs) {letter : Char}
    (hletter : letter ∉ frontChars) (word : List Char) :
    cs.map Char.toLower ≠ letter :: word := by
  obtain ⟨hsign, hmantissa, -⟩ := h
  cases hsign with
  | none => exact hmantissa.toLower_ne hletter _ word
  | plus =>
      rintro ⟨⟩
      exact hletter (by decide)
  | minus =>
      rintro ⟨⟩
      exact hletter (by decide)

/-! ## The whole number -/

/-- The reader accepts the decimal numbers and finds what they denote. -/
theorem ofChars?_eq_some_iff {d : Decimal} : ofChars? cs = some d ↔ Written cs d := by
  constructor
  · intro h
    obtain ⟨sign, hsign, hcs⟩ := exists_sign cs
    unfold ofChars? at h
    generalize splitSign cs = split at h hsign hcs
    obtain ⟨negative, body⟩ := split
    rcases hspan : spanDigits body with ⟨whole, fraction, rest⟩
    simp only [hspan] at h
    obtain ⟨n, hn, h⟩ := Option.bind_eq_some_iff.mp h
    obtain ⟨e, he, h⟩ := Option.bind_eq_some_iff.mp h
    obtain ⟨mantissa, hmantissa, rfl⟩ := exists_mantissa hspan (natural?_eq_some_iff.mp hn)
    cases h
    rw [hcs]
    exact ⟨hsign, hmantissa, exponent?_eq_some_iff.mp he⟩
  · rintro ⟨hsign, hmantissa, hexponent⟩
    obtain ⟨whole, fraction, hspan, hdigits, rfl⟩ := hmantissa.exists_digits hexponent.head?
    unfold ofChars?
    rw [hmantissa.splitSign hsign]
    simp only [hspan, natural?_eq_some_iff.mpr hdigits, exponent?_eq_some_iff.mpr hexponent]
    rfl

end TickMachine.Decimal
