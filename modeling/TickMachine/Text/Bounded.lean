/-! # Bounded texts

Texts of at most `max` bytes in UTF-8. Names and token texts are stored this way.
-/

namespace TickMachine

/-- A text of at most `max` bytes. -/
structure BoundedText (max : Nat) where
  text : String
  fits : text.utf8ByteSize ≤ max

/-- A text was longer than its bound. -/
structure TooLong where
  text : String
  max : Nat
deriving DecidableEq, Repr

namespace TooLong

/-- The length in bytes of the refused text. -/
def size (e : TooLong) : Nat := e.text.utf8ByteSize

def message (e : TooLong) : String :=
  s!"'{e.text}' is {e.size} bytes long, at most {e.max} are allowed"

end TooLong

namespace BoundedText

variable {max : Nat}

theorem ext {a b : BoundedText max} (h : a.text = b.text) : a = b := by
  cases a; cases b; cases h; rfl

instance : DecidableEq (BoundedText max) := fun a b =>
  if h : a.text = b.text then isTrue (ext h) else isFalse fun hab => h (hab ▸ rfl)

instance : Repr (BoundedText max) := ⟨fun b n => reprPrec b.text n⟩

/-- The empty text is within every bound. -/
def empty : BoundedText max := ⟨"", by simp⟩

instance : Inhabited (BoundedText max) := ⟨empty⟩

/-- Accepts a text of at most `max` bytes. -/
def ofString (text : String) : Except TooLong (BoundedText max) :=
  if h : text.utf8ByteSize ≤ max then .ok ⟨text, h⟩ else .error ⟨text, max⟩

theorem ofString_eq_ok_iff {text : String} {b : BoundedText max} :
    ofString text = .ok b ↔ b.text = text := by
  unfold ofString
  split
  next h =>
    constructor
    · rintro ⟨⟩; rfl
    · intro hb; exact congrArg _ (ext hb.symm)
  next h =>
    constructor
    · rintro ⟨⟩
    · intro hb; exact absurd (hb ▸ b.fits) h

theorem ofString_eq_error_iff {text : String} {e : TooLong} :
    (ofString text : Except TooLong (BoundedText max)) = .error e ↔
      max < text.utf8ByteSize ∧ e = ⟨text, max⟩ := by
  unfold ofString
  split
  next h => simp [Nat.not_lt.mpr h]
  next h => simp [Nat.lt_of_not_le h, eq_comm]

end BoundedText

namespace Text

/-- The longest prefix that takes at most `max` bytes. -/
def takeBytes : Nat → List Char → List Char
  | _, [] => []
  | max, c :: cs => if c.utf8Size ≤ max then c :: takeBytes (max - c.utf8Size) cs else []

theorem takeBytes_prefix (max : Nat) (cs : List Char) : takeBytes max cs <+: cs := by
  induction cs generalizing max with
  | nil => exact List.prefix_refl []
  | cons c cs ih =>
    unfold takeBytes
    split
    · exact (List.prefix_cons_inj c).mpr (ih _)
    · exact List.nil_prefix

theorem utf8ByteSize_takeBytes (max : Nat) (cs : List Char) :
    (String.ofList (takeBytes max cs)).utf8ByteSize ≤ max := by
  induction cs generalizing max with
  | nil => simp [takeBytes]
  | cons c cs ih =>
    unfold takeBytes
    split
    next h =>
      have := ih (max - c.utf8Size)
      rw [String.ofList_cons, String.utf8ByteSize_append, String.utf8ByteSize_singleton]
      omega
    next => simp

/-- The character behind the prefix would go beyond the bound. -/
theorem lt_utf8ByteSize_takeBytes {max : Nat} {cs rest : List Char} {c : Char}
    (h : cs = takeBytes max cs ++ c :: rest) :
    max < (String.ofList (takeBytes max cs ++ [c])).utf8ByteSize := by
  induction cs generalizing max with
  | nil => simp [takeBytes] at h
  | cons d cs ih =>
    unfold takeBytes at h ⊢
    split at h
    next hfits =>
      have := ih (List.cons.inj h).2
      rw [if_pos hfits, List.cons_append, String.ofList_cons, String.utf8ByteSize_append,
        String.utf8ByteSize_singleton]
      omega
    next hfits =>
      obtain ⟨rfl, _⟩ := List.cons.inj h
      rw [if_neg hfits, List.nil_append, String.ofList_cons, String.utf8ByteSize_append,
        String.utf8ByteSize_singleton]
      omega

end Text

/-- The longest prefix of a text that fits the bound. -/
def BoundedText.ofPrefix {max : Nat} (cs : List Char) : BoundedText max :=
  ⟨String.ofList (Text.takeBytes max cs), Text.utf8ByteSize_takeBytes max cs⟩

end TickMachine
