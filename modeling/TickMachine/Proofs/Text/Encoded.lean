import TickMachine.Proofs.Text.Cutting

/-! # Lines of bytes

A text in UTF-8 is cut into lines byte by byte as the text itself is character by character: the
bytes of a line end stand for nothing else.
-/

namespace TickMachine.Text

/-! ## Plain elements -/

section Plain

variable {α : Type} [DecidableEq α] {feed ret : α}

/-- What is no line end is put in front of the first line as a whole. -/
theorem lines_append_plain {front : List α} (hne : front ≠ [])
    (hplain : ∀ x ∈ front, x ≠ feed ∧ x ≠ ret) (xs : List α) :
    lines feed ret (front ++ xs) = match lines feed ret xs with
      | [] => [front]
      | line :: others => (front ++ line) :: others := by
  induction front with
  | nil => exact absurd rfl hne
  | cons x front ih =>
      obtain ⟨⟨hfeed, hret⟩, hfront⟩ := List.forall_mem_cons.mp hplain
      rw [List.cons_append, lines, if_neg hfeed, if_neg fun h => hret h.1]
      by_cases hnil : front = []
      · subst hnil
        rw [List.nil_append]
        cases lines feed ret xs <;> rfl
      · rw [ih hnil hfront]
        cases lines feed ret xs <;> rfl

/-- A return is part of the line end only in front of a feed. -/
theorem lines_return (hne : ret ≠ feed) (xs : List α) :
    lines feed ret (ret :: xs) =
      if xs.head? = some feed then lines feed ret xs else consLine ret (lines feed ret xs) := by
  rw [lines, if_neg hne]
  simp only [true_and]

end Plain

/-! ## Encoded characters -/

theorem fromUTF8?_eq_some_iff {bytes : ByteArray} {text : String} :
    String.fromUTF8? bytes = some text ↔ text.toUTF8 = bytes := by
  unfold String.fromUTF8?
  constructor
  · intro h
    split at h
    · cases h
      rfl
    · cases h
  · rintro rfl
    exact dif_pos text.isValidUTF8

/-- The bytes of a text. -/
def encoded (cs : List Char) : List UInt8 :=
  cs.flatMap String.utf8EncodeChar

theorem toUTF8_ofList (cs : List Char) : (String.ofList cs).toUTF8.data.toList = encoded cs := by
  simp [String.toUTF8, encoded, List.utf8Encode]

/-- The bytes of a text are read back as the text. -/
theorem fromUTF8?_encoded (cs : List Char) :
    String.fromUTF8? ⟨(encoded cs).toArray⟩ = some (String.ofList cs) := by
  rw [fromUTF8?_eq_some_iff, ← toUTF8_ofList, Array.toArray_toList]

/-- A byte of seven bits stands for a character alone. -/
theorem utf8EncodeChar_of_mem {c : Char} {b : UInt8} (hb : b.toNat < 128)
    (h : b ∈ String.utf8EncodeChar c) : c.toNat = b.toNat ∧ String.utf8EncodeChar c = [b] := by
  have hnot : ∀ n, 128 ≤ n % 256 → b ≠ UInt8.ofNat n := by
    rintro n hn rfl
    rw [UInt8.toNat_ofNat'] at hb
    omega
  unfold String.utf8EncodeChar at h ⊢
  dsimp only at h ⊢
  split
  next hsmall =>
    rw [if_pos hsmall] at h
    obtain rfl := List.mem_singleton.mp h
    refine ⟨?_, rfl⟩
    show c.val.toNat = _
    rw [UInt8.toNat_ofNat']
    exact (Nat.mod_eq_of_lt (by omega)).symm
  next hlarge =>
    -- all bytes of a longer encoding have eight bits
    rw [if_neg hlarge] at h
    split at h
    next =>
      simp only [List.mem_cons, List.not_mem_nil, or_false] at h
      rcases h with h | h <;> exact absurd h (hnot _ (by omega))
    next =>
      split at h
      next =>
        simp only [List.mem_cons, List.not_mem_nil, or_false] at h
        rcases h with h | h | h <;> exact absurd h (hnot _ (by omega))
      next =>
        simp only [List.mem_cons, List.not_mem_nil, or_false] at h
        rcases h with h | h | h | h <;> exact absurd h (hnot _ (by omega))

theorem utf8EncodeChar_ne_nil (c : Char) : String.utf8EncodeChar c ≠ [] := by
  unfold String.utf8EncodeChar
  dsimp only
  split
  · exact List.cons_ne_nil _ _
  · split
    · exact List.cons_ne_nil _ _
    · split <;> exact List.cons_ne_nil _ _

/-- A character other than a line end has no byte of a line end. -/
theorem utf8EncodeChar_plain {c : Char} (hfeed : c ≠ '\n') (hret : c ≠ '\r') :
    ∀ b ∈ String.utf8EncodeChar c, b ≠ 0x0a ∧ b ≠ 0x0d := by
  intro b hb
  constructor
  · rintro rfl
    exact hfeed (Char.toNat_inj.mp (utf8EncodeChar_of_mem (by decide) hb).1)
  · rintro rfl
    exact hret (Char.toNat_inj.mp (utf8EncodeChar_of_mem (by decide) hb).1)

theorem head?_encoded (cs : List Char) : (encoded cs).head? = some 0x0a ↔ cs.head? = some '\n' := by
  cases cs with
  | nil => simp [encoded]
  | cons c cs =>
      rw [encoded, List.flatMap_cons, List.head?_append_of_ne_nil _ (utf8EncodeChar_ne_nil c)]
      constructor
      · intro h
        have hmem : 0x0a ∈ String.utf8EncodeChar c := List.mem_of_head? h
        have hc : c = '\n' := Char.toNat_inj.mp (utf8EncodeChar_of_mem (by decide) hmem).1
        rw [hc]
        rfl
      · intro h
        obtain rfl : c = '\n' := Option.some.inj h
        rfl

/-- The lines of the bytes of a text are the bytes of its lines. -/
theorem lines_encoded (cs : List Char) :
    lines 0x0a 0x0d (encoded cs) = (textLines cs).map encoded := by
  unfold textLines
  induction cs with
  | nil => rfl
  | cons c cs ih =>
      have hcons : encoded (c :: cs) = String.utf8EncodeChar c ++ encoded cs := List.flatMap_cons
      rw [hcons]
      by_cases hfeed : c = '\n'
      · subst hfeed
        rw [lines_feed, List.map_cons, ← ih]
        exact lines_feed 0x0a 0x0d (encoded cs)
      by_cases hret : c = '\r'
      · subst hret
        show lines 0x0a 0x0d (0x0d :: encoded cs) = _
        rw [lines_return (by decide), lines_return hfeed, ih]
        simp only [head?_encoded]
        split
        · rfl
        · cases lines '\n' '\r' cs <;> rfl
      · rw [lines_append_plain (utf8EncodeChar_ne_nil c) (utf8EncodeChar_plain hfeed hret), ih,
        lines,
          if_neg hfeed, if_neg fun h => hret h.1]
        cases lines '\n' '\r' cs with
        | nil => simp [consLine, encoded]
        | cons line others => simp [consLine, encoded]

end TickMachine.Text
