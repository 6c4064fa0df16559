import Mathlib.Data.List.Forall2
import TickMachine.Proofs.Image.Codec

/-! # Texts there is no room for

A text operand that is too long is written as far as its room goes. Where the room ends between two
characters, the front of the text is read back; where it ends within a character, what was written
is not valid and the image is refused.
-/

namespace TickMachine

open Text (fromUTF8?_eq_some_iff)

/-! ## What is left of a text -/

/-- What is read back of an operand: the operand, or the front of a text that fills the room. -/
inductive Operand.Stored : Operand → Operand → Prop
  | whole {operand : Operand} (h : operand.Storable) : Stored operand operand
  | front {front back : String} (hover : 65535 < (front ++ back).utf8ByteSize)
      (hsize : front.utf8ByteSize = 65535) : Stored (.str (front ++ back)) (.str front)

/-- What is read back of an instruction. -/
structure Instruction.Stored (i stored : Instruction) : Prop where
  code_eq : stored.code = i.code
  flags_eq : stored.flags = i.flags
  operand : i.operand.Stored stored.operand

theorem toUTF8_append (front back : String) : (front ++ back).toUTF8.data.toList =
    front.toUTF8.data.toList ++ back.toUTF8.data.toList := by
  simp only [String.toUTF8_eq_toByteArray, String.toByteArray_append, ByteArray.data_append,
    Array.toList_append]

/-- If the first bytes of a text are a text, then the text can be cut behind them. -/
theorem exists_append_of_fromUTF8? {text front : String} {n : Nat} (hle : n ≤ text.utf8ByteSize)
    (h : String.fromUTF8? ⟨(text.toUTF8.data.toList.take n).toArray⟩ = some front) :
    ∃ front back, text = front ++ back ∧ front.utf8ByteSize = n := by
  have hbytes : text.toByteArray.extract 0 n = ⟨(text.toUTF8.data.toList.take n).toArray⟩ := by
    apply ByteArray.ext
    rw [ByteArray.data_extract, ← Array.toList_inj, Array.toList_extract,
      List.extract_eq_take_drop]
    rfl
  have hvalid : (text.toByteArray.extract 0 n).IsValidUTF8 := by
    rw [hbytes, ← fromUTF8?_eq_some_iff.mp h]
    exact front.isValidUTF8
  obtain ⟨front, back, rfl, hsize⟩ := String.Pos.Raw.isValid_iff_exists_append.mp
    (String.Pos.Raw.isValid_iff_isValidUTF8_extract_zero.mpr ⟨hle, hvalid⟩)
  exact ⟨front, back, rfl, (congrArg String.Pos.Raw.byteIdx hsize).symm⟩

namespace Operand.Stored

variable {operand stored : Operand}

theorem storable (h : operand.Stored stored) : stored.Storable := by
  cases h with
  | whole h => exact h
  | front _ hsize => exact Nat.le_of_eq hsize

/-- An operand is written as what is read back of it. -/
theorem payload_eq (h : operand.Stored stored) : operand.payload = stored.payload := by
  cases h with
  | whole => rfl
  | @front front back hover hsize =>
      have hlength : front.toUTF8.data.toList.length = 65535 := hsize
      simp only [payload, maxStringSize]
      rw [toUTF8_append, List.take_append_of_le_length (Nat.le_of_eq hlength.symm)]

theorem tag_eq (h : operand.Stored stored) : operand.tag = stored.tag := by
  cases h <;> rfl

end Operand.Stored

/-- Only of a text with no cut where its room ends nothing is read back. -/
theorem Operand.exists_str_of_not_stored {operand : Operand} (h : ∀ stored, ¬ operand.Stored stored) :
    ∃ text, operand = .str text ∧ 65535 < text.utf8ByteSize ∧
      ∀ front back, text = front ++ back → front.utf8ByteSize ≠ 65535 := by
  have hstorable : ¬ operand.Storable := fun hstorable => h operand (.whole hstorable)
  cases operand with
  | str text =>
      have hover : 65535 < text.utf8ByteSize := Nat.lt_of_not_le hstorable
      refine ⟨text, rfl, hover, ?_⟩
      rintro front back rfl hsize
      exact h _ (.front hover hsize)
  | _ => exact absurd trivial hstorable

/-! ## One character over and over -/

theorem utf8ByteSize_replicate (n : Nat) (c : Char) :
    (String.ofList (List.replicate n c)).utf8ByteSize = n * c.utf8Size := by
  induction n with
  | zero => simp
  | succ n ih =>
      rw [List.replicate_succ, String.ofList_cons, String.utf8ByteSize_append,
        String.utf8ByteSize_singleton, ih, Nat.succ_mul, Nat.add_comm]

/-- A text of one character over and over has no cut but behind a multiple of its size. -/
theorem Operand.not_stored_replicate {n : Nat} {c : Char} (hover : 65535 < n * c.utf8Size)
    (hcut : ¬ c.utf8Size ∣ 65535) (operand : Operand) :
    ¬ (Operand.str (String.ofList (List.replicate n c))).Stored operand := by
  intro h
  generalize htext : Operand.str (String.ofList (List.replicate n c)) = written at h
  cases h with
  | whole hstorable =>
      subst htext
      rw [Operand.Storable, utf8ByteSize_replicate] at hstorable
      exact absurd hover (Nat.not_lt_of_le hstorable)
  | @front front back _ hsize =>
      have hchars : List.replicate n c = front.toList ++ back.toList := by
        rw [← String.toList_append, ← Operand.str.inj htext, String.toList_ofList]
      obtain ⟨_, hfront, _⟩ := List.replicate_eq_append_iff.mp hchars
      rw [← String.ofList_toList (s := front), hfront, utf8ByteSize_replicate] at hsize
      exact hcut ⟨_, (Nat.mul_comm _ _).trans hsize |>.symm⟩

/-! ## Instructions -/

theorem Instruction.Stored.encode_eq {i stored : Instruction} (h : i.Stored stored) :
    i.encode = stored.encode := by
  rw [encode, encode, h.code_eq, h.flags_eq, h.operand.tag_eq, h.operand.payload_eq]

/-- Something is read back of an instruction unless nothing is of its operand. -/
theorem Instruction.exists_stored_or (i : Instruction) :
    (∃ stored, i.Stored stored) ∨ ∀ operand, ¬ i.operand.Stored operand := by
  by_cases h : ∃ operand, i.operand.Stored operand
  · obtain ⟨operand, hoperand⟩ := h
    exact .inl ⟨⟨i.code, i.flags, operand⟩, rfl, rfl, hoperand⟩
  · exact .inr (not_exists.mp h)

/-! ## Reading -/

namespace ByteReader

theorem instruction_of_stored {i stored : Instruction} (h : i.Stored stored) (rest : List UInt8) :
    instruction (i.encode ++ rest) = .ok (stored, rest) :=
  (instruction_undoes _ _ _).mpr ⟨h.operand.storable, by rw [h.encode_eq]⟩

/-- A text without a cut where its room ends is refused. -/
theorem string_of_no_cut {text : String} (hover : 65535 < text.utf8ByteSize)
    (hcut : ∀ front back, text = front ++ back → front.utf8ByteSize ≠ 65535)
    (rest : List UInt8) : string ((Operand.str text).payload ++ rest) = .error .invalidString := by
  have hlength : (text.toUTF8.data.toList.take 65535).length = 65535 :=
    List.length_take_of_le (Nat.le_of_lt hover)
  have hnone : String.fromUTF8? ⟨(text.toUTF8.data.toList.take 65535).toArray⟩ = none := by
    cases hread : String.fromUTF8? ⟨(text.toUTF8.data.toList.take 65535).toArray⟩ with
    | none => rfl
    | some front =>
        obtain ⟨front, back, happend, hsize⟩ :=
          exists_append_of_fromUTF8? (Nat.le_of_lt hover) hread
        exact absurd hsize (hcut front back happend)
  have hsize : integer 2 ((Operand.str text).payload ++ rest) =
      .ok (65535, text.toUTF8.data.toList.take 65535 ++ rest) := by
    refine (integer_undoes 2 _ _ _).mpr ⟨by decide, ?_⟩
    simp only [Operand.payload, maxStringSize]
    rw [hlength, List.append_assoc]
  have htake : take 65535 (text.toUTF8.data.toList.take 65535 ++ rest) =
      .ok (text.toUTF8.data.toList.take 65535, rest) :=
    (take_undoes 65535 _ _ _).mpr ⟨hlength, rfl⟩
  rw [string, bind_of_eq_ok hsize, bind_of_eq_ok htake, hnone]
  rfl

theorem instruction_of_not_stored {i : Instruction} (h : ∀ operand, ¬ i.operand.Stored operand)
    (rest : List UInt8) : instruction (i.encode ++ rest) = .error .invalidString := by
  obtain ⟨code, flags, operand⟩ := i
  obtain ⟨text, rfl, hover, hcut⟩ := Operand.exists_str_of_not_stored h
  have hhead : take 3 (Instruction.encode ⟨code, flags, .str text⟩ ++ rest) =
      .ok ([code, flags, 8], (Operand.str text).payload ++ rest) :=
    (take_undoes 3 _ _ _).mpr ⟨rfl, rfl⟩
  have hoperand : operand 8 ((Operand.str text).payload ++ rest) = .error .invalidString := by
    change (Operand.str <$> string) _ = _
    rw [← bind_pure_comp]
    exact bind_of_eq_error (string_of_no_cut hover hcut rest)
  rw [instruction, bind_of_eq_ok hhead]
  exact bind_of_eq_error hoperand

/-- Instructions are refused at the first one of which nothing is read back. -/
theorem instructions_of_not_stored {is : List Instruction} {i : Instruction} (hi : i ∈ is)
    (h : ∀ operand, ¬ i.operand.Stored operand) (rest : List UInt8) :
    instructions is.length (is.flatMap Instruction.encode ++ rest) = .error .invalidString := by
  induction is with
  | nil => cases hi
  | cons first others ih =>
      rw [List.length_cons, instructions, List.flatMap_cons, List.append_assoc]
      rcases first.exists_stored_or with ⟨stored, hstored⟩ | hnone
      · have hothers : i ∈ others := by
          rcases List.mem_cons.mp hi with rfl | hothers
          · exact absurd hstored.operand (h _)
          · exact hothers
        rw [bind_of_eq_ok (instruction_of_stored hstored _)]
        exact bind_of_eq_error (ih hothers)
      · exact bind_of_eq_error (instruction_of_not_stored hnone _)

/-- Behind the header the instructions are read that it counts. -/
theorem image_encode {image : Image} (hlength : image.instructions.length < 4294967296) :
    ByteReader.image image.encode =
      (do return ⟨← instructions image.instructions.length⟩ : ByteReader Image)
        (image.instructions.flatMap Instruction.encode) := by
  rw [Image.encode_eq_encodeWith, Image.encodeWith, ByteReader.image,
    bind_of_eq_ok (magic_eq_ok_iff.mpr rfl),
    bind_of_eq_ok ((integer_undoes 2 _ imageVersion _).mpr ⟨by decide, rfl⟩), if_neg (by decide)]
  dsimp only
  rw [bind_of_eq_ok ((integer_undoes 2 _ 1 _).mpr ⟨by decide, rfl⟩), if_neg (by decide),
    bind_of_eq_ok ((integer_undoes 4 _ _ _).mpr ⟨hlength, rfl⟩)]

end ByteReader

/-! ## Images -/

namespace Image

variable {image read : Image}

theorem encode_eq_of_stored
    (h : List.Forall₂ Instruction.Stored image.instructions read.instructions) :
    image.encode = read.encode := by
  have hbytes : image.instructions.flatMap Instruction.encode =
      read.instructions.flatMap Instruction.encode := by
    generalize image.instructions = is at h
    generalize read.instructions = stored at h
    induction h with
    | nil => rfl
    | cons hfirst _ ih => rw [List.flatMap_cons, List.flatMap_cons, hfirst.encode_eq, ih]
  rw [encode, encode, h.length_eq, hbytes]
  rfl

theorem storable_of_stored (hlength : image.instructions.length < 4294967296)
    (h : List.Forall₂ Instruction.Stored image.instructions read.instructions) :
    read.Storable where
  length_lt := h.length_eq ▸ hlength
  operands := by
    generalize image.instructions = is at h
    generalize read.instructions = stored at h
    induction h with
    | nil => simp
    | cons hfirst _ ih => exact List.forall_mem_cons.mpr ⟨hfirst.operand.storable, ih⟩

theorem decode_of_stored (hlength : image.instructions.length < 4294967296)
    (h : List.Forall₂ Instruction.Stored image.instructions read.instructions) :
    decode image.encode = .ok read := by
  rw [encode_eq_of_stored h, encode_eq_encodeWith]
  refine decode_eq_ok_iff.mpr ⟨[], ByteReader.image_eq_ok_iff.mpr
    ⟨storable_of_stored hlength h, 1, Nat.le_refl 1, by decide, ?_⟩⟩
  rw [List.append_nil]

theorem decode_of_not_stored (hlength : image.instructions.length < 4294967296)
    {i : Instruction} (hi : i ∈ image.instructions) (h : ∀ operand, ¬ i.operand.Stored operand) :
    decode image.encode = .error .invalidString := by
  have hread := ByteReader.instructions_of_not_stored hi h []
  rw [List.append_nil] at hread
  rw [decode, ByteReader.image_encode hlength, ByteReader.bind_of_eq_error hread]
  rfl

/-- Something is read back of an image unless nothing is of one of its operands. -/
theorem exists_stored_or (image : Image) :
    (∃ read : Image, List.Forall₂ Instruction.Stored image.instructions read.instructions) ∨
      ∃ i ∈ image.instructions, ∀ operand, ¬ i.operand.Stored operand := by
  obtain ⟨is⟩ := image
  induction is with
  | nil => exact .inl ⟨⟨[]⟩, .nil⟩
  | cons first others ih =>
      rcases first.exists_stored_or with ⟨stored, hstored⟩ | hnone
      · rcases ih with ⟨read, hread⟩ | ⟨i, hi, hnone⟩
        · exact .inl ⟨⟨stored :: read.instructions⟩, .cons hstored hread⟩
        · exact .inr ⟨i, List.mem_cons_of_mem _ hi, hnone⟩
      · exact .inr ⟨first, List.mem_cons_self, hnone⟩

/-- An image is read back from its own bytes with every text as far as its room goes. It cannot be
read where the room of a text ends within a character, and then the text is what is wrong. -/
theorem decode_encode_stored {image : Image}
    (hlength : image.instructions.length < 4294967296) :
    (∀ read : Image, decode image.encode = .ok read ↔
      List.Forall₂ Instruction.Stored image.instructions read.instructions) ∧
    ∀ e, decode image.encode = .error e ↔ e = .invalidString ∧
      ∃ i ∈ image.instructions, ∀ operand, ¬ i.operand.Stored operand := by
  rcases image.exists_stored_or with ⟨found, hfound⟩ | ⟨i, hi, hnone⟩
  · have hdecode : decode image.encode = .ok found := decode_of_stored hlength hfound
    refine ⟨fun read => ⟨fun h => ?_, decode_of_stored hlength⟩, fun e => ⟨fun h => ?_, ?_⟩⟩
    · rw [hdecode] at h
      cases h
      exact hfound
    · rw [hdecode] at h
      cases h
    · rintro ⟨_, i, hi, hnone⟩
      rw [decode_of_not_stored hlength hi hnone] at hdecode
      cases hdecode
  · have hdecode : decode image.encode = .error .invalidString :=
      decode_of_not_stored hlength hi hnone
    refine ⟨fun read => ⟨fun h => ?_, fun h => ?_⟩, fun e => ⟨fun h => ?_, ?_⟩⟩
    · rw [hdecode] at h
      cases h
    · rw [decode_of_stored hlength h] at hdecode
      cases hdecode
    · rw [hdecode] at h
      cases h
      exact ⟨rfl, i, hi, hnone⟩
    · rintro ⟨rfl, _⟩
      exact hdecode

/-- Two texts that are too long: of the first one the front is read back, the second one has no cut
where its room ends. -/
theorem decode_encode_stored_long :
    let front := String.ofList (List.replicate 65535 'a')
    let whole : Image := ⟨[⟨0, 0, .str (front ++ "é")⟩, ⟨2, 5, .none⟩]⟩
    let broken : Image := ⟨[⟨2, 5, .none⟩, ⟨0, 0, .str (String.ofList (List.replicate 32768 'é'))⟩]⟩
    whole.instructions.length < 4294967296 ∧ broken.instructions.length < 4294967296 ∧
      decode whole.encode = .ok ⟨[⟨0, 0, .str front⟩, ⟨2, 5, .none⟩]⟩ ∧
      decode broken.encode = .error .invalidString := by
  intro front whole broken
  have hfront : front.utf8ByteSize = 65535 := utf8ByteSize_replicate 65535 'a'
  have hover : 65535 < (front ++ "é").utf8ByteSize := by
    rw [String.utf8ByteSize_append, hfront]
    decide
  have hwhole : whole.instructions.length < 4294967296 := by decide
  have hbroken : broken.instructions.length < 4294967296 := by decide
  refine ⟨hwhole, hbroken, ((decode_encode_stored hwhole).1 _).mpr ?_,
    ((decode_encode_stored hbroken).2 _).mpr ⟨rfl, _, List.mem_cons_of_mem _ List.mem_cons_self,
      Operand.not_stored_replicate (by decide) (by decide)⟩⟩
  exact .cons ⟨rfl, rfl, .front hover hfront⟩ (.cons ⟨rfl, rfl, .whole trivial⟩ .nil)

/-- A text of characters of two bytes that is one byte too long makes an image that cannot be
read. -/
theorem not_decode_encode_long :
    let text := String.ofList (List.replicate 32768 'é')
    let image : Image := ⟨[⟨0, 0, .str text⟩]⟩
    image.instructions.length < 4294967296 ∧ text.utf8ByteSize = 65536 ∧
      decode image.encode = .error .invalidString ∧
      ¬ ∃ read, decode image.encode = .ok read := by
  intro text image
  have hlength : image.instructions.length < 4294967296 := by decide
  have hdecode : decode image.encode = .error .invalidString :=
    decode_of_not_stored hlength List.mem_cons_self
      (Operand.not_stored_replicate (by decide) (by decide))
  refine ⟨hlength, utf8ByteSize_replicate 32768 'é', hdecode, ?_⟩
  rintro ⟨read, hread⟩
  rw [hdecode] at hread
  cases hread

end Image

end TickMachine
