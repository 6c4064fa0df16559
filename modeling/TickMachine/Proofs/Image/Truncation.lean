import TickMachine.Proofs.Image.Codec

/-! # Images that end too early

A reader looks at no bytes but those it takes, and it complains of the end where one of them is
missing. So an image that was cut off is not read as a shorter one, nor taken for one that is
damaged: as long as its magic is whole, only the end is wrong with it.
-/

namespace TickMachine

namespace Bytes

theorem split?_eq_none_iff {α : Type} {n : Nat} {xs : List α} :
    split? n xs = none ↔ xs.length < n := by
  constructor
  · intro hnone
    by_contra hle
    have hfront : (xs.take n).length = n := List.length_take_of_le (Nat.le_of_not_lt hle)
    rw [split?_eq_some_iff.mpr ⟨(List.take_append_drop n xs).symm, hfront⟩] at hnone
    cases hnone
  · intro hlt
    cases hsplit : split? n xs with
    | none => rfl
    | some p =>
        obtain ⟨hxs, hlength⟩ := split?_eq_some_iff.mp hsplit
        rw [hxs, List.length_append, hlength] at hlt
        exact absurd hlt (Nat.not_lt_of_le (Nat.le_add_right n _))

end Bytes

namespace ByteReader

variable {α β : Type} {reader : ByteReader α} {next : α → ByteReader β} {a : α} {b : β}
  {e : ImageError} {bytes : List UInt8}

/-! ## What a reader takes -/

/-- The reader takes these bytes for the value, whatever comes behind them. Without all of them it
complains of the end. -/
structure Takes (reader : ByteReader α) (taken : List UInt8) (a : α) : Prop where
  whole : ∀ more, reader (taken ++ more) = .ok (a, more)
  short : ∀ front, front <+: taken → front ≠ taken → reader front = .error .truncated

/-- Whatever the reader gives, it takes the bytes for it. -/
def Demands (reader : ByteReader α) : Prop :=
  ∀ bytes a rest, reader bytes = .ok (a, rest) →
    ∃ taken, bytes = taken ++ rest ∧ reader.Takes taken a

/-- The bytes for two values, one behind the other, may be missing within the first ones or within
the second ones. -/
theorem Takes.bind {first second : List UInt8} (hfirst : reader.Takes first a)
    (hsecond : (next a).Takes second b) : (reader >>= next).Takes (first ++ second) b where
  whole more := by
    rw [List.append_assoc, bind_of_eq_ok (hfirst.whole _), hsecond.whole]
  short front hfront hne := by
    by_cases hlength : first.length ≤ front.length
    · obtain ⟨back, rfl⟩ : first <+: front :=
        List.prefix_of_prefix_length_le (List.prefix_append first second) hfront hlength
      rw [bind_of_eq_ok (hfirst.whole back)]
      refine hsecond.short back ((List.prefix_append_right_inj first).mp hfront) ?_
      rintro rfl
      exact hne rfl
    · have hwithin : front <+: first :=
        List.prefix_of_prefix_length_le hfront (List.prefix_append first second)
          (Nat.le_of_not_le hlength)
      refine bind_of_eq_error (hfirst.short front hwithin ?_)
      rintro rfl
      exact hlength (Nat.le_refl _)

/-! ## Readers that demand what they take -/

theorem demands_pure (a : α) : Demands (pure a) := by
  intro bytes b rest h
  obtain ⟨rfl, rfl⟩ := pure_eq_ok_iff.mp h
  refine ⟨[], rfl, fun more => rfl, fun front hfront hne => ?_⟩
  exact absurd (List.prefix_nil.mp hfront) hne

theorem demands_throw (e : ImageError) : Demands (throw e : ByteReader α) :=
  fun _ _ _ h => absurd h throw_ne_ok

theorem Demands.bind (hreader : reader.Demands) (hnext : ∀ a, (next a).Demands) :
    (reader >>= next).Demands := by
  intro bytes b rest h
  obtain ⟨a, middle, hread, hthen⟩ := bind_eq_ok_iff.mp h
  obtain ⟨first, rfl, hfirst⟩ := hreader bytes a middle hread
  obtain ⟨second, rfl, hsecond⟩ := hnext a middle b rest hthen
  exact ⟨first ++ second, (List.append_assoc _ _ _).symm, hfirst.bind hsecond⟩

theorem Demands.map (hreader : reader.Demands) (f : α → β) : (f <$> reader).Demands := by
  rw [← bind_pure_comp]
  exact hreader.bind fun a => demands_pure (f a)

/-- A check in front of a reader takes nothing. -/
theorem Demands.check {wrong : Prop} [Decidable wrong] {skipped : β → ByteReader α}
    (hreader : reader.Demands) :
    (if wrong then throw e >>= skipped else reader).Demands := by
  intro bytes a rest h
  obtain ⟨hright, hread⟩ := check_eq_ok_iff.mp h
  rw [if_neg hright]
  exact hreader bytes a rest hread

theorem demands_take (n : Nat) : (take n).Demands := by
  intro bytes taken rest h
  obtain ⟨hlength, rfl⟩ := (take_undoes n bytes taken rest).mp h
  refine ⟨taken, rfl, fun more => (take_undoes n _ _ _).mpr ⟨hlength, rfl⟩, ?_⟩
  intro front hfront hne
  have hlt : front.length < n := by
    refine Nat.lt_of_le_of_ne (hlength ▸ hfront.length_le) fun heq => hne ?_
    exact hfront.eq_of_length (heq.trans hlength.symm)
  rw [take, Bytes.split?_eq_none_iff.mpr hlt]

theorem demands_integer (width : Nat) : (integer width).Demands :=
  (demands_take width).map _

theorem demands_string : string.Demands := by
  refine (demands_integer 2).bind fun size => (demands_take size).bind fun bytes => ?_
  split
  · exact demands_pure _
  · exact demands_throw _

/-- An operand that is a number demands the bytes of the number. -/
theorem demands_number (width : Nat) (make : Nat → Operand) :
    Demands (do return make (← integer width)) :=
  (demands_integer width).bind fun n => demands_pure (make n)

theorem demands_operand (tag : UInt8) : (operand tag).Demands := by
  unfold operand
  split
  · exact demands_pure _
  · exact demands_number 1 _
  · exact demands_number 1 _
  · exact demands_number 2 _
  · exact demands_number 2 _
  · exact demands_number 4 _
  · exact demands_number 4 _
  · exact demands_number 4 _
  · exact demands_string.map _
  · exact demands_throw _

theorem demands_instruction : instruction.Demands := by
  refine (demands_take 3).bind fun head => ?_
  split
  · exact (demands_operand _).bind fun _ => demands_pure _
  · exact demands_throw _

theorem demands_instructions (n : Nat) : (instructions n).Demands := by
  induction n with
  | zero => exact demands_pure []
  | succ n ih =>
      exact demands_instruction.bind fun first => ih.bind fun others => demands_pure _

/-! ## Images -/

/-- Behind the magic an image demands all of its bytes. -/
theorem exists_image_eq_bind :
    ∃ body : ByteReader Image, image = (magic >>= fun _ => body) ∧ body.Demands := by
  refine ⟨_, rfl, ?_⟩
  refine (demands_integer 2).bind fun version => .check ?_
  refine (demands_integer 2).bind fun sections => .check ?_
  exact (demands_integer 4).bind fun count =>
    (demands_instructions count).bind fun is => demands_pure _

/-- Less than the magic is no magic. -/
theorem magic_of_short (h : bytes.length < 4) : magic bytes = .error .badMagic := by
  have hsplit : Bytes.split? Image.magic.length bytes = none := Bytes.split?_eq_none_iff.mpr h
  rw [magic, hsplit]

/-- Where an image ends too early, either its magic is not whole or the end is what is wrong. -/
theorem image_of_short {rest front : List UInt8} {found : Image}
    (h : image bytes = .ok (found, rest)) (hfront : front <+: bytes)
    (hshort : front.length + rest.length < bytes.length) :
    image front = .error (if front.length < 4 then .badMagic else .truncated) := by
  obtain ⟨body, himage, hdemands⟩ := exists_image_eq_bind
  rw [himage] at h ⊢
  obtain ⟨⟨⟩, middle, hmagic, hbody⟩ := bind_eq_ok_iff.mp h
  obtain ⟨taken, rfl, htaken⟩ := hdemands middle found rest hbody
  obtain rfl := magic_eq_ok_iff.mp hmagic
  split
  next hlt => exact bind_of_eq_error (magic_of_short hlt)
  next hge =>
    have hlength : Image.magic.length ≤ front.length := Nat.le_of_not_lt hge
    obtain ⟨back, rfl⟩ : Image.magic <+: front :=
      List.prefix_of_prefix_length_le (List.prefix_append _ _) hfront hlength
    rw [bind_of_eq_ok (magic_eq_ok_iff.mpr rfl)]
    simp only [List.length_append] at hshort
    have hlt : back.length < taken.length := by omega
    -- what is left ends before the bytes do that the rest of the image takes
    have hback : back <+: taken :=
      List.prefix_of_prefix_length_le ((List.prefix_append_right_inj _).mp hfront)
        (List.prefix_append taken rest) (Nat.le_of_lt hlt)
    exact htaken.short back hback fun heq => absurd (congrArg List.length heq) (Nat.ne_of_lt hlt)

end ByteReader

namespace Image

/-- The number of bytes of an image: twelve in front of the instructions, and the instructions. -/
def size (image : Image) : Nat :=
  12 + (image.instructions.flatMap Instruction.encode).length

theorem length_encodeWith (sections : Nat) (image : Image) :
    (image.encodeWith sections).length = image.size := by
  simp only [encodeWith, size, List.length_append, Bytes.length_ofNat]
  exact (Nat.add_assoc 4 2 _).symm.trans (by omega)

theorem decode_of_eq_error {bytes : List UInt8} {e : ImageError}
    (h : ByteReader.image bytes = .error e) : decode bytes = .error e := by
  rw [decode, h]
  rfl

/-- Bytes of which an image is read begin with as many bytes as the image has. When they are cut off
within these, no image is read any more: either the magic is not whole, or the end comes too
early. -/
theorem decode_take {bytes : List UInt8} {image : Image} (h : decode bytes = .ok image) :
    image.size ≤ bytes.length ∧ ByteReader.image bytes = .ok (image, bytes.drop image.size) ∧
      ∀ n < image.size,
        decode (bytes.take n) = .error (if n < 4 then .badMagic else .truncated) := by
  obtain ⟨rest, hread⟩ := decode_eq_ok_iff.mp h
  obtain ⟨_, sections, _, _, rfl⟩ := ByteReader.image_eq_ok_iff.mp hread
  have hsize : (image.encodeWith sections).length = image.size := length_encodeWith sections image
  refine ⟨?_, ?_, fun n hn => ?_⟩
  · rw [List.length_append, hsize]
    exact Nat.le_add_right _ _
  · rw [← hsize, List.drop_left]
    exact hread
  · have hlength : ((image.encodeWith sections ++ rest).take n).length = n := by
      rw [List.length_take, List.length_append]
      omega
    have hshort := ByteReader.image_of_short hread (List.take_prefix n _)
      (by rw [hlength, List.length_append, hsize]; omega)
    rw [hlength] at hshort
    exact decode_of_eq_error hshort

/-- An image with a text of two bytes and a number behind it, cut off within the magic, within the
text and behind the tag of the number. -/
theorem decode_take_mixed :
    let image : Image := ⟨[⟨7, 0, .str "é"⟩, ⟨4, 1, .u32 300⟩]⟩
    let bytes : List UInt8 :=
      [0x59, 0x41, 0x4e, 0x47, 1, 0, 3, 0, 2, 0, 0, 0, 7, 0, 8, 2, 0, 0xc3, 0xa9,
        4, 1, 5, 0x2c, 1, 0, 0, 1, 2]
    decode bytes = .ok image ∧ image.size = 26 ∧ image.size ≤ bytes.length ∧
      decode (bytes.take 3) = .error .badMagic ∧
      decode (bytes.take 18) = .error .truncated ∧
      decode (bytes.take 22) = .error .truncated := by
  intro image bytes
  have hread : decode bytes = .ok image := rfl
  have hsize : image.size = 26 := by decide
  obtain ⟨hle, _, hshort⟩ := decode_take hread
  rw [hsize] at hshort
  exact ⟨hread, hsize, hle, hshort 3 (by decide), hshort 18 (by decide), hshort 22 (by decide)⟩

end Image

end TickMachine
