import TickMachine.Proofs.Image.Reader
import TickMachine.Proofs.Text.Encoded

/-! # The image format in both directions

Reading undoes writing for operands, instructions and lists of them. An image is read from its own
bytes, from these with another admissible number of sections, and from nothing else; what follows
the last instruction is left over.
-/

namespace TickMachine

open Text (fromUTF8?_eq_some_iff)

/-! ## What there is room for -/

/-- A text operand is written whole. -/
def Operand.Storable : Operand → Prop
  | .str text => text.utf8ByteSize ≤ 65535
  | _ => True

/-- The image is written without loss: its length has 32 bits and no text is cut off. -/
structure Image.Storable (image : Image) : Prop where
  length_lt : image.instructions.length < 4294967296
  operands : ∀ i ∈ image.instructions, i.operand.Storable

/-- The bytes of an image that says it has the given number of sections. -/
def Image.encodeWith (sections : Nat) (image : Image) : List UInt8 :=
  Image.magic ++ (Bytes.ofNat 2 imageVersion ++ (Bytes.ofNat 2 sections ++
    (Bytes.ofNat 4 image.instructions.length ++ image.instructions.flatMap Instruction.encode)))

/-! ## Texts -/

theorem length_toUTF8 (text : String) : text.toUTF8.data.toList.length = text.utf8ByteSize := rfl

/-- A text that there is room for is written whole, behind its size. -/
theorem Operand.payload_str {text : String} (hsize : text.utf8ByteSize ≤ 65535) :
    (Operand.str text).payload =
      Bytes.ofNat 2 text.utf8ByteSize ++ text.toUTF8.data.toList := by
  simp only [payload, maxStringSize]
  rw [List.take_of_length_le (by rwa [length_toUTF8]), length_toUTF8]

namespace ByteReader

theorem string_undoes :
    string.Undoes (fun text => text.utf8ByteSize ≤ 65535)
      (fun text => Bytes.ofNat 2 text.utf8ByteSize ++ text.toUTF8.data.toList) := by
  intro bytes text rest
  simp only [string, bind_eq_ok_iff, integer_undoes 2 _ _ _, take_undoes _ _ _ _]
  constructor
  · rintro ⟨size, middle, ⟨hsize, rfl⟩, front, after, ⟨hlength, rfl⟩, hread⟩
    cases hdecoded : String.fromUTF8? ⟨front.toArray⟩ with
    | none =>
        rw [hdecoded] at hread
        exact absurd hread throw_ne_ok
    | some decoded =>
        rw [hdecoded] at hread
        obtain ⟨rfl, rfl⟩ := pure_eq_ok_iff.mp hread
        -- a text has one encoding only, so the size that was read is its own
        have hbytes : decoded.toUTF8.data.toList = front := by
          rw [fromUTF8?_eq_some_iff.mp hdecoded]
        have hsize' : decoded.utf8ByteSize = size := by
          rw [← length_toUTF8, hbytes, hlength]
        rw [hsize', hbytes, List.append_assoc]
        exact ⟨Nat.le_of_lt_succ hsize, rfl⟩
  · rintro ⟨hle, rfl⟩
    refine ⟨text.utf8ByteSize, text.toUTF8.data.toList ++ rest,
      ⟨Nat.lt_succ_of_le hle, List.append_assoc _ _ _⟩,
      text.toUTF8.data.toList, rest, ⟨length_toUTF8 text, rfl⟩, ?_⟩
    rw [Array.toArray_toList, fromUTF8?_eq_some_iff.mpr rfl]
    rfl

/-! ## Operands -/

/-- A number is read by its tag as it is written, if it is what its lowest bytes say and the tag
is that of its kind of operand. -/
theorem number_undoes {α : Type} {width : Nat} {tag : UInt8} {value : α → Nat} {make : Nat → α}
    {c : α → Operand} (hlt : ∀ a, value a < Nat.pow 256 width) (hmake : ∀ a, make (value a) = a)
    (hvalue : ∀ n, n < Nat.pow 256 width → value (make n) = n)
    (htag : ∀ operand : Operand, operand.tag = tag ∧ operand.Storable ↔ ∃ a, c a = operand)
    (hpayload : ∀ a, (c a).payload = Bytes.ofNat width (value a)) :
    Undoes (do return c (make (← integer width)))
      (fun operand => operand.tag = tag ∧ operand.Storable) Operand.payload := by
  rw [bind_pure_comp]
  refine (integer_undoes width).map ?_ ?_
  · intro operand
    rw [htag]
    constructor
    · rintro ⟨a, rfl⟩
      exact ⟨value a, hlt a, by rw [hmake]⟩
    · rintro ⟨n, _, rfl⟩
      exact ⟨make n, rfl⟩
  · intro n hn
    rw [hpayload, hvalue n hn]

/-- The operand that a tag announces is read as it is written, and no other is read. -/
theorem operand_undoes (tag : UInt8) :
    (operand tag).Undoes (fun operand => operand.tag = tag ∧ operand.Storable)
      Operand.payload := by
  unfold operand
  -- one tag after the other; what is left are the tags of no operand
  split
  next h =>
    obtain rfl : tag = 0 := UInt8.toNat_inj.mp h
    intro bytes operand rest
    rw [pure_eq_ok_iff]
    cases operand <;> simp [Operand.tag, Operand.Storable, Operand.payload]
  next h =>
    obtain rfl : tag = 1 := UInt8.toNat_inj.mp h
    refine number_undoes (c := .u8) (fun v => v.toNat_lt) (fun _ => UInt8.ofNat_toNat)
      (fun _ hn => UInt8.toNat_ofNat_of_lt' hn) ?_ (fun _ => rfl)
    intro operand
    cases operand <;> simp [Operand.tag, Operand.Storable]
  next h =>
    obtain rfl : tag = 2 := UInt8.toNat_inj.mp h
    refine number_undoes (c := .i8) (fun v => v.toUInt8.toNat_lt) (fun _ => by simp)
      (fun _ hn => UInt8.toNat_ofNat_of_lt' hn) ?_ (fun _ => rfl)
    intro operand
    cases operand <;> simp [Operand.tag, Operand.Storable]
  next h =>
    obtain rfl : tag = 3 := UInt8.toNat_inj.mp h
    refine number_undoes (c := .u16) (fun v => v.toNat_lt) (fun _ => UInt16.ofNat_toNat)
      (fun _ hn => UInt16.toNat_ofNat_of_lt' hn) ?_ (fun _ => rfl)
    intro operand
    cases operand <;> simp [Operand.tag, Operand.Storable]
  next h =>
    obtain rfl : tag = 4 := UInt8.toNat_inj.mp h
    refine number_undoes (c := .i16) (fun v => v.toUInt16.toNat_lt) (fun _ => by simp)
      (fun _ hn => UInt16.toNat_ofNat_of_lt' hn) ?_ (fun _ => rfl)
    intro operand
    cases operand <;> simp [Operand.tag, Operand.Storable]
  next h =>
    obtain rfl : tag = 5 := UInt8.toNat_inj.mp h
    refine number_undoes (c := .u32) (fun v => v.toNat_lt) (fun _ => UInt32.ofNat_toNat)
      (fun _ hn => UInt32.toNat_ofNat_of_lt' hn) ?_ (fun _ => rfl)
    intro operand
    cases operand <;> simp [Operand.tag, Operand.Storable]
  next h =>
    obtain rfl : tag = 6 := UInt8.toNat_inj.mp h
    refine number_undoes (c := .i32) (fun v => v.toUInt32.toNat_lt) (fun _ => by simp)
      (fun _ hn => UInt32.toNat_ofNat_of_lt' hn) ?_ (fun _ => rfl)
    intro operand
    cases operand <;> simp [Operand.tag, Operand.Storable]
  next h =>
    obtain rfl : tag = 7 := UInt8.toNat_inj.mp h
    refine number_undoes (c := .f32) (fun v => v.bits.toNat_lt) (fun _ => by simp)
      (fun _ hn => UInt32.toNat_ofNat_of_lt' hn) ?_ (fun _ => rfl)
    intro operand
    cases operand <;> simp [Operand.tag, Operand.Storable]
  next h =>
    obtain rfl : tag = 8 := UInt8.toNat_inj.mp h
    refine string_undoes.map ?_ fun _ => Operand.payload_str
    intro operand
    cases operand <;> simp [Operand.tag, Operand.Storable]
  next =>
    intro bytes operand rest
    simp only [throw_ne_ok, false_iff, not_and, and_imp]
    rintro rfl
    cases operand <;> contradiction

/-! ## Instructions -/

theorem instruction_undoes :
    instruction.Undoes (fun i => i.operand.Storable) Instruction.encode := by
  intro bytes i rest
  simp only [instruction, bind_eq_ok_iff, take_undoes _ _ _ _]
  constructor
  · rintro ⟨head, middle, ⟨hlength, rfl⟩, hread⟩
    match head, hlength, hread with
    | [code, flags, tag], _, hread =>
        simp only [bind_eq_ok_iff, pure_eq_ok_iff, operand_undoes _ _ _ _] at hread
        obtain ⟨operand, after, ⟨⟨rfl, hstorable⟩, rfl⟩, rfl, rfl⟩ := hread
        exact ⟨hstorable, rfl⟩
  · rintro ⟨hstorable, rfl⟩
    refine ⟨[i.code, i.flags, i.operand.tag], i.operand.payload ++ rest, ⟨rfl, rfl⟩, ?_⟩
    simp only [bind_eq_ok_iff, pure_eq_ok_iff, operand_undoes _ _ _ _]
    exact ⟨i.operand, rest, ⟨⟨rfl, hstorable⟩, rfl⟩, rfl, rfl⟩

theorem instructions_undoes (n : Nat) :
    (instructions n).Undoes (fun is => is.length = n ∧ ∀ i ∈ is, i.operand.Storable)
      (List.flatMap Instruction.encode) := by
  induction n with
  | zero =>
      intro bytes is rest
      rw [instructions, pure_eq_ok_iff]
      constructor
      · rintro ⟨rfl, rfl⟩
        exact ⟨⟨rfl, by simp⟩, rfl⟩
      · rintro ⟨⟨hlength, _⟩, rfl⟩
        obtain rfl := List.eq_nil_of_length_eq_zero hlength
        exact ⟨rfl, rfl⟩
  | succ n ih =>
      intro bytes is rest
      simp only [instructions, bind_eq_ok_iff, pure_eq_ok_iff, instruction_undoes _ _ _, ih _ _ _]
      constructor
      · rintro ⟨first, _, ⟨hfirst, rfl⟩, others, _, ⟨⟨rfl, hothers⟩, rfl⟩, rfl, rfl⟩
        refine ⟨⟨rfl, List.forall_mem_cons.mpr ⟨hfirst, hothers⟩⟩, ?_⟩
        rw [List.flatMap_cons, List.append_assoc]
      · rintro ⟨⟨hlength, hall⟩, rfl⟩
        cases is with
        | nil => cases hlength
        | cons first others =>
            obtain ⟨hfirst, hothers⟩ := List.forall_mem_cons.mp hall
            refine ⟨first, others.flatMap Instruction.encode ++ rest, ⟨hfirst, ?_⟩, others, rest,
              ⟨⟨Nat.succ.inj hlength, hothers⟩, rfl⟩, rfl, rfl⟩
            rw [List.flatMap_cons, List.append_assoc]

/-! ## Images -/

theorem magic_eq_ok_iff {bytes rest : List UInt8} :
    magic bytes = .ok ((), rest) ↔ bytes = Image.magic ++ rest := by
  unfold magic
  cases hsplit : Bytes.split? Image.magic.length bytes with
  | none =>
      simp only [reduceCtorEq, false_iff]
      rintro rfl
      rw [Bytes.split?_eq_some_iff.mpr ⟨rfl, rfl⟩] at hsplit
      cases hsplit
  | some p =>
      obtain ⟨front, after⟩ := p
      obtain ⟨rfl, hlength⟩ := Bytes.split?_eq_some_iff.mp hsplit
      dsimp only
      constructor
      · intro h
        by_cases hmagic : front = Image.magic
        · rw [if_pos hmagic] at h
          cases h
          rw [hmagic]
        · rw [if_neg hmagic] at h
          cases h
      · intro h
        obtain ⟨hmagic, hrest⟩ := List.append_inj h hlength
        rw [if_pos hmagic, hrest]

theorem image_eq_ok_iff {bytes rest : List UInt8} {image : Image} :
    ByteReader.image bytes = .ok (image, rest) ↔ image.Storable ∧
      ∃ sections, 1 ≤ sections ∧ sections ≤ 15 ∧ bytes = image.encodeWith sections ++ rest := by
  simp only [ByteReader.image, bind_eq_ok_iff, check_eq_ok_iff, pure_eq_ok_iff,
    integer_undoes _ _ _ _, instructions_undoes _ _ _ _]
  constructor
  · rintro ⟨⟨⟩, _, hmagic, version, _, ⟨hversion, rfl⟩, hknown, sections, _, ⟨hsections, rfl⟩,
      hcounted, count, _, ⟨hcount, rfl⟩, is, _, ⟨⟨rfl, hstorable⟩, rfl⟩, rfl, rfl⟩
    obtain rfl := magic_eq_ok_iff.mp hmagic
    -- a version that is neither too old nor too new is the only one there is
    obtain rfl : version = imageVersion := by
      unfold imageVersion at hknown ⊢
      omega
    refine ⟨⟨hcount, hstorable⟩, sections, ?_, ?_, ?_⟩
    · omega
    · unfold sectionLimit at hcounted
      omega
    · simp only [Image.encodeWith, List.append_assoc]
  · rintro ⟨hstorable, sections, hpos, hle, rfl⟩
    refine ⟨(), _, magic_eq_ok_iff.mpr ?_, imageVersion, _, ⟨by decide, rfl⟩, by decide,
      sections, _, ⟨?_, rfl⟩, ?_, image.instructions.length, _, ⟨hstorable.length_lt, rfl⟩,
      image.instructions, rest, ⟨⟨rfl, hstorable.operands⟩, rfl⟩, rfl, rfl⟩
    · simp only [Image.encodeWith, List.append_assoc]
    · exact Nat.lt_of_le_of_lt hle (by decide)
    · unfold sectionLimit
      omega

end ByteReader

namespace Image

theorem encode_eq_encodeWith (image : Image) : image.encode = image.encodeWith 1 := by
  simp only [encode, encodeWith, List.append_assoc]
  rfl

/-- The bytes in front of the number of sections and those behind it do not depend on it. -/
theorem encodeWith_eq (sections : Nat) (image : Image) : image.encodeWith sections =
    image.encode.take 6 ++ (Bytes.ofNat 2 sections ++ image.encode.drop 8) := by
  rw [encode_eq_encodeWith]
  rfl

theorem decode_eq_ok_iff {bytes : List UInt8} {image : Image} :
    decode bytes = .ok image ↔ ∃ rest, ByteReader.image bytes = .ok (image, rest) := by
  unfold decode
  cases ByteReader.image bytes with
  | error e => simp [Functor.map, Except.map]
  | ok p => simp [Functor.map, Except.map, Prod.ext_iff]

/-- An image is read from exactly the bytes that are its own but for an admissible number of
sections, with anything behind them. So its own bytes are read whatever follows them, and writing
what was read gives the bytes that were taken back, except for the number of sections. -/
theorem decode_encode_exact (image : Image) :
    (∀ bytes, decode bytes = .ok image ↔ image.Storable ∧
      ∃ sections trailing, 1 ≤ sections ∧ sections ≤ 15 ∧ bytes =
        image.encode.take 6 ++ (Bytes.ofNat 2 sections ++ image.encode.drop 8) ++ trailing) ∧
    (image.Storable → ∀ trailing, decode (image.encode ++ trailing) = .ok image) ∧
    ∀ bytes trailing, ByteReader.image bytes = .ok (image, trailing) →
      ∃ taken, bytes = taken ++ trailing ∧ taken.length = image.encode.length ∧
        taken.take 6 = image.encode.take 6 ∧ taken.drop 8 = image.encode.drop 8 := by
  refine ⟨fun bytes => ?_, fun hstorable trailing => ?_, fun bytes trailing hread => ?_⟩
  · simp only [decode_eq_ok_iff, ByteReader.image_eq_ok_iff, encodeWith_eq]
    constructor
    · rintro ⟨rest, hstorable, sections, hpos, hle, rfl⟩
      exact ⟨hstorable, sections, rest, hpos, hle, rfl⟩
    · rintro ⟨hstorable, sections, trailing, hpos, hle, rfl⟩
      exact ⟨trailing, hstorable, sections, hpos, hle, rfl⟩
  · rw [encode_eq_encodeWith]
    exact decode_eq_ok_iff.mpr ⟨trailing, ByteReader.image_eq_ok_iff.mpr
      ⟨hstorable, 1, Nat.le_refl 1, by decide, rfl⟩⟩
  · obtain ⟨_, sections, _, _, rfl⟩ := ByteReader.image_eq_ok_iff.mp hread
    refine ⟨_, rfl, ?_, ?_, ?_⟩ <;> rw [encode_eq_encodeWith]
    · simp [encodeWith]
    · rfl
    · rfl

/-- An image with a text, an unknown code and a NaN, its bytes with three sections and two more
bytes behind them. -/
theorem decode_encode_exact_mixed :
    let image : Image := ⟨[⟨7, 0, .str "é"⟩, ⟨200, 255, .f32 ⟨0x7fc00001⟩⟩]⟩
    let bytes : List UInt8 :=
      [0x59, 0x41, 0x4e, 0x47, 1, 0, 3, 0, 2, 0, 0, 0, 7, 0, 8, 2, 0, 0xc3, 0xa9,
        200, 255, 7, 1, 0, 0xc0, 0x7f]
    image.Storable ∧ decode (image.encode ++ [1, 2]) = .ok image ∧
      ByteReader.image (bytes ++ [1, 2]) = .ok (image, [1, 2]) ∧
      ∃ taken, bytes ++ [1, 2] = taken ++ [1, 2] ∧ taken.length = image.encode.length ∧
        taken.take 6 = image.encode.take 6 ∧ taken.drop 8 = image.encode.drop 8 := by
  intro image bytes
  have htext : "é".utf8ByteSize ≤ 65535 := by decide
  have hstorable : image.Storable := ⟨by decide, by simpa [image, Operand.Storable] using htext⟩
  have hread : ByteReader.image (bytes ++ [1, 2]) = .ok (image, [1, 2]) := rfl
  obtain ⟨_, hown, htaken⟩ := decode_encode_exact image
  exact ⟨hstorable, hown hstorable [1, 2], hread, htaken _ _ hread⟩

end Image

end TickMachine
