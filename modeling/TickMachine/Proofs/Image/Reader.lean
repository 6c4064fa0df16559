import TickMachine.Image.Codec

/-! # Readers that undo writers

A byte reader undoes a writer when it accepts exactly the written forms of certain values, each
followed by whatever may come, and gives the value back. Both directions are in one equivalence:
what was written is read, and nothing else is.
-/

namespace TickMachine.ByteReader

variable {α β : Type}

/-! ## Runs of composed readers -/

theorem pure_eq_ok_iff {a b : α} {bytes rest : List UInt8} :
    (pure a : ByteReader α) bytes = .ok (b, rest) ↔ a = b ∧ bytes = rest := by
  change Except.ok (a, bytes) = Except.ok (b, rest) ↔ _
  rw [Except.ok.injEq, Prod.mk.injEq]

theorem throw_ne_ok {e : ImageError} {a : α} {bytes rest : List UInt8} :
    (throw e : ByteReader α) bytes ≠ .ok (a, rest) := by
  intro h
  cases h

theorem bind_eq_ok_iff {reader : ByteReader α} {next : α → ByteReader β} {b : β}
    {bytes rest : List UInt8} :
    (reader >>= next) bytes = .ok (b, rest) ↔
      ∃ a middle, reader bytes = .ok (a, middle) ∧ next a middle = .ok (b, rest) := by
  have hbind : (reader >>= next) bytes = reader bytes >>= fun p => next p.1 p.2 := rfl
  rw [hbind]
  cases reader bytes with
  | error e => simp [bind, Except.bind]
  | ok p =>
      constructor
      · exact fun h => ⟨p.1, p.2, rfl, h⟩
      · rintro ⟨a, middle, hp, h⟩
        cases hp
        exact h

theorem bind_of_eq_ok {reader : ByteReader α} {next : α → ByteReader β} {a : α}
    {bytes middle : List UInt8} (h : reader bytes = .ok (a, middle)) :
    (reader >>= next) bytes = next a middle := by
  have hbind : (reader >>= next) bytes = reader bytes >>= fun p => next p.1 p.2 := rfl
  rw [hbind, h]
  rfl

theorem bind_of_eq_error {reader : ByteReader α} {next : α → ByteReader β} {e : ImageError}
    {bytes : List UInt8} (h : reader bytes = .error e) : (reader >>= next) bytes = .error e := by
  have hbind : (reader >>= next) bytes = reader bytes >>= fun p => next p.1 p.2 := rfl
  rw [hbind, h]
  rfl

theorem map_eq_ok_iff {reader : ByteReader α} {f : α → β} {b : β} {bytes rest : List UInt8} :
    (f <$> reader) bytes = .ok (b, rest) ↔ ∃ a, reader bytes = .ok (a, rest) ∧ f a = b := by
  rw [← bind_pure_comp, bind_eq_ok_iff]
  simp only [pure_eq_ok_iff]
  constructor
  · rintro ⟨a, middle, hread, hb, rfl⟩
    exact ⟨a, hread, hb⟩
  · rintro ⟨a, hread, hb⟩
    exact ⟨a, rest, hread, hb, rfl⟩

/-- A reader behind a check runs where the check finds nothing wrong. -/
theorem check_eq_ok_iff {wrong : Prop} [Decidable wrong] {e : ImageError}
    {skipped : α → ByteReader β} {reader : ByteReader β} {b : β} {bytes rest : List UInt8} :
    (if wrong then throw e >>= skipped else reader) bytes = .ok (b, rest) ↔
      ¬ wrong ∧ reader bytes = .ok (b, rest) := by
  split
  next hwrong =>
    simp only [bind_eq_ok_iff, throw_ne_ok, false_and, exists_false, hwrong, not_true]
  next hright => simp only [hright, not_false_eq_true, true_and]

/-! ## Undoing a writer -/

/-- The reader accepts exactly the written forms of the values of which `valid` holds. -/
def Undoes (reader : ByteReader α) (valid : α → Prop) (write : α → List UInt8) : Prop :=
  ∀ bytes a rest, reader bytes = .ok (a, rest) ↔ valid a ∧ bytes = write a ++ rest

theorem take_undoes (n : Nat) : (take n).Undoes (fun xs => xs.length = n) id := by
  intro bytes xs rest
  unfold take
  cases hsplit : Bytes.split? n bytes with
  | none =>
      simp only [reduceCtorEq, id_eq, false_iff, not_and]
      rintro hlength rfl
      rw [Bytes.split?_eq_some_iff.mpr ⟨rfl, hlength⟩] at hsplit
      cases hsplit
  | some p =>
      obtain ⟨rfl, hlength⟩ := Bytes.split?_eq_some_iff.mp hsplit
      simp only [Except.ok.injEq, id_eq]
      constructor
      · intro h
        rw [Prod.ext_iff] at h
        obtain ⟨rfl, rfl⟩ := h
        exact ⟨hlength, rfl⟩
      · rintro ⟨hxs, happend⟩
        exact Prod.ext_iff.mpr (List.append_inj happend (hlength.trans hxs.symm))

/-- Integers of a fixed width are read as they are written, and no other integers are read. -/
theorem integer_undoes (width : Nat) :
    (integer width).Undoes (fun n => n < Nat.pow 256 width) (Bytes.ofNat width) := by
  intro bytes n rest
  rw [integer, map_eq_ok_iff]
  constructor
  · rintro ⟨front, htake, rfl⟩
    obtain ⟨rfl, rfl⟩ := (take_undoes width _ _ _).mp htake
    refine ⟨?_, by rw [Bytes.ofNat_toNat, id]⟩
    have hwritten := Bytes.toNat_ofNat front.length (Bytes.toNat front)
    rw [Bytes.ofNat_toNat] at hwritten
    rw [hwritten]
    exact Nat.mod_lt _ (Nat.pow_pos (by decide))
  · rintro ⟨hlt, rfl⟩
    have hlength : (Bytes.ofNat width n).length = width := Bytes.length_ofNat width n
    refine ⟨Bytes.ofNat width n, (take_undoes width _ _ _).mpr ⟨hlength, rfl⟩, ?_⟩
    rw [Bytes.toNat_ofNat, Nat.mod_eq_of_lt hlt]

/-- A reader of values undoes the writer of what the values are made into, if each of these is made
from a value in one way only as far as writing can tell. -/
theorem Undoes.map {reader : ByteReader α} {valid : α → Prop} {write : α → List UInt8}
    (hreader : reader.Undoes valid write) {make : α → β} {valid' : β → Prop}
    {write' : β → List UInt8} (hvalid : ∀ b, valid' b ↔ ∃ a, valid a ∧ make a = b)
    (hwrite : ∀ a, valid a → write' (make a) = write a) :
    (make <$> reader).Undoes valid' write' := by
  intro bytes b rest
  simp only [map_eq_ok_iff, hreader _ _ _, hvalid]
  constructor
  · rintro ⟨a, ⟨ha, rfl⟩, rfl⟩
    exact ⟨⟨a, ha, rfl⟩, by rw [hwrite a ha]⟩
  · rintro ⟨⟨a, ha, rfl⟩, rfl⟩
    exact ⟨a, ⟨ha, by rw [hwrite a ha]⟩, rfl⟩

end TickMachine.ByteReader
