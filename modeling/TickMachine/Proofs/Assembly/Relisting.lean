import TickMachine.Proofs.Assembly.Listing

/-! # Assembling the listing of what was assembled

The assembler writes no instruction that its own listing does not spell, with one exception: an
empty set of condition bits can be written as a zero, but is listed without any letter. The listing
of such an instruction lacks its operand, and is refused on its line.
-/

namespace TickMachine

/-- The operation of an instruction whose operand is the empty set of condition bits. -/
def Instruction.emptyMask? (i : Instruction) : Option Opcode :=
  i.opcode?.filter fun op => op.operandKind = .mask ∧ i.operand = .u8 0

namespace Assembly

open Text

variable {i : Instruction} {op : Opcode} {source : String} {image : Image}

theorem emptyMask?_eq_some_iff : i.emptyMask? = some op ↔
    i.opcode? = some op ∧ op.operandKind = .mask ∧ i.operand = .u8 0 := by
  rw [Instruction.emptyMask?, Option.filter_eq_some_iff, decide_eq_true_iff]

/-! ## Sources with an instruction on each line -/

/-- The line holds the instruction. -/
def HoldsInstruction (raw : List Char) (written : WrittenInstruction) : Prop :=
  lineOf? raw = some (.instruction written)

theorem filterMap_instruction {raws : List (List Char)} {written : List WrittenInstruction}
    (h : List.Forall₂ HoldsInstruction raws written) (number : Nat → UInt32) :
    (raws.mapIdx fun index raw => (number index, raw)).filterMap
        (fun line => ((lineOf? line.2).bind Line.instruction?).map (line.1, ·)) =
      written.mapIdx fun index line => (number index, line) := by
  induction h generalizing number with
  | nil => rfl
  | @cons raw line raws written hfirst _ ih =>
      rw [HoldsInstruction] at hfirst
      rw [List.mapIdx_cons, List.mapIdx_cons, List.filterMap_cons, hfirst,
        ih fun index => number (index + 1)]
      rfl

theorem linesOf_of_instructions {written : List WrittenInstruction}
    (h : List.Forall₂ HoldsInstruction (textLines source.toList) written) :
    linesOf source = written.map .instruction := by
  rw [linesOf]
  generalize textLines source.toList = raws at h
  induction h with
  | nil => rfl
  | cons hfirst _ ih => rw [List.filterMap_cons_some hfirst, ih, List.map_cons]

theorem places_map_instruction (count : Nat) (written : List WrittenInstruction) :
    places count (written.map .instruction) = [] := by
  induction written generalizing count with
  | nil => rfl
  | cons first others ih => exact ih (count + 1)

/-- Without labels the first pass finds the instruction of each line. -/
theorem draft_of_instructions {written : List WrittenInstruction}
    (h : List.Forall₂ HoldsInstruction (textLines source.toList) written)
    (hcount : written.length < UInt32.size) :
    draft source =
      .ok ⟨[], (written.mapIdx fun index line => (lineNumber index, line)).reverse⟩ := by
  have hlines : linesOf source = written.map .instruction := linesOf_of_instructions h
  refine draft_eq_ok_iff.mpr ⟨fun raw hraw => ?_, ?_, ?_, ?_⟩
  · obtain ⟨index, hindex, rfl⟩ := List.getElem_of_mem hraw
    have hline := h.get hindex (h.length_eq ▸ hindex)
    exact .inr ⟨_, (lineOf?_eq_some_iff.mp hline).2⟩
  · rw [hlines, labelsIn_map_instruction]
    exact List.nodup_nil
  · rw [hlines, instructionsIn_map_instruction]
    exact hcount
  · have hlabels : (Draft.empty.extend (numberedLines source)).labels = [] := by
      rw [extend_labels, hlines, labelTable, places_map_instruction]
      rfl
    have hwritten : (Draft.empty.extend (numberedLines source)).written =
        (written.mapIdx fun index line => (lineNumber index, line)).reverse := by
      rw [← filterMap_instruction h lineNumber]
      exact List.append_nil _
    rw [← hlabels, ← hwritten]

/-! ## The lines of a listing -/

/-- What is assembled from the lines of listed instructions, of which the first one has the given
index. -/
def relisted : Nat → List Instruction → Except AssemblyError (List Instruction)
  | _, [] => .ok []
  | index, i :: others =>
    match i.emptyMask? with
    | some op => .error ⟨.missingOperand op.mnemonic, lineNumber index⟩
    | none => (i :: ·) <$> relisted (index + 1) others

theorem relisted_of_readable {instructions : List Instruction}
    (h : ∀ i ∈ instructions, i.emptyMask? = none) (index : Nat) :
    relisted index instructions = .ok instructions := by
  induction instructions generalizing index with
  | nil => rfl
  | cons first others ih =>
      obtain ⟨hfirst, hothers⟩ := List.forall_mem_cons.mp h
      rw [relisted, hfirst]
      simp only [ih hothers]
      rfl

/-- The first empty set of condition bits is refused on its line. -/
theorem relisted_of_emptyMask {before : List Instruction}
    (hbefore : ∀ i ∈ before, i.emptyMask? = none) (h : i.emptyMask? = some op)
    (after : List Instruction) (index : Nat) :
    relisted index (before ++ i :: after) =
      .error ⟨.missingOperand op.mnemonic, lineNumber (index + before.length)⟩ := by
  induction before generalizing index with
  | nil => rw [List.nil_append, relisted, h]; rfl
  | cons first others ih =>
      obtain ⟨hfirst, hothers⟩ := List.forall_mem_cons.mp hbefore
      rw [List.cons_append, relisted, hfirst]
      simp only [ih hothers]
      rw [List.length_cons, Nat.add_right_comm]
      rfl

/-- The instruction is listed as a line that holds an instruction, which is encoded to it unless it
lacks the operand. -/
structure Relists (i : Instruction) (written : WrittenInstruction) : Prop where
  oneLine : OneLine i.text.toList
  holds : HoldsInstruction i.text.toList written
  encodes : ∀ labels, encodeInstruction labels written =
    match i.emptyMask? with
    | some op => .error (.missingOperand op.mnemonic)
    | none => .ok i

theorem mapM_encodeLine {instructions : List Instruction} {written : List WrittenInstruction}
    (h : List.Forall₂ Relists instructions written) (start : Nat) :
    (written.mapIdx fun index line => (lineNumber (index + start), line)).mapM (encodeLine []) =
      relisted start instructions := by
  induction h generalizing start with
  | nil => rfl
  | @cons i line instructions written hfirst _ ih =>
      have hothers := ih (start + 1)
      simp only [← Nat.add_assoc, Nat.add_right_comm _ start 1] at hothers
      rw [List.mapIdx_cons, List.mapM_cons, hothers, encodeLine, hfirst.encodes, relisted,
        Nat.zero_add]
      cases i.emptyMask? with
      | some op => rfl
      | none => rfl

theorem relists_of_listable (h : i.Listable) : ∃ written, Relists i written := by
  obtain ⟨_, _, honeLine, _⟩ := exists_spells h
  obtain ⟨written, hline, hencodes⟩ := lineOf?_text h
  obtain ⟨_, op, hop, _, _, hmask⟩ := h
  have hnone : i.emptyMask? = none := by
    rw [Option.eq_none_iff_forall_ne_some]
    intro other hother
    obtain ⟨hop', hkind, hzero⟩ := emptyMask?_eq_some_iff.mp hother
    rw [hop] at hop'
    cases hop'
    exact hmask hkind hzero
  refine ⟨written, honeLine, hline, fun labels => ?_⟩
  rw [hnone]
  exact hencodes labels

/-- An empty set of condition bits is listed as a blank behind the mnemonic and the condition. -/
theorem relists_of_emptyMask (h : i.emptyMask? = some op) (hflags : i.flags ≤ Condition.all) :
    ∃ written, Relists i written := by
  obtain ⟨hop, hkind, hoperand⟩ := emptyMask?_eq_some_iff.mp h
  obtain ⟨condition, hcondition, hletters, hreadCondition⟩ := conditionText_cases hflags
  have hblank : (Instruction.operandText (some op.operandKind) i.operand).toList = [' '] := by
    rw [hkind, hoperand]
    rfl
  have htext := toList_text hop hcondition
  rw [hblank, ← List.append_assoc] at htext
  have hspells : Spells (op.mnemonic.toList ++ conditionText condition)
      ⟨op.mnemonic.toList, condition, none⟩ :=
    ⟨isIdentifier_mnemonic op, hletters, [], (List.append_nil _).symm ▸ rfl, .nothing⟩
  have honeLine : OneLine (op.mnemonic.toList ++ conditionText condition) := by
    have hempty : OneLine (op.mnemonic.toList ++ (conditionText condition ++ [])) :=
      oneLine_text hletters ⟨List.not_mem_nil, List.not_mem_nil⟩
    rwa [List.append_nil] at hempty
  have hspace : AllBlank [' '] := by simp [AllBlank, isBlank]
  -- the blank in front of the missing letters is trimmed away
  have htail : IsTail ([' '] ++ []) := .intro hspace (by simp)
  have hbare : bare i.text.toList = op.mnemonic.toList ++ conditionText condition :=
    bare_eq_iff.mpr ⟨[], [' '], by rw [htext, List.nil_append], allBlank_nil, htail,
      hspells.trimmed, honeLine.semicolon⟩
  refine ⟨⟨op.mnemonic.toList, condition, none⟩, ?_, ?_, fun labels => ?_⟩
  · rw [htext]
    exact honeLine.append ⟨by decide, by decide⟩
  · rw [HoldsInstruction, lineOf?_eq_some_iff, hbare]
    exact ⟨hspells.ne_nil, hspells.readLine (by simp)⟩
  · have hmissing : readOperand op labels none = .error (.missingOperand op.mnemonic) := by
      unfold readOperand
      rw [hkind]
    simp only [encodeInstruction, ofMnemonic?_mnemonic, h]
    rw [bind_of_eq_ok hreadCondition, hmissing]
    rfl

/-! ## Assembled instructions -/

theorem Encodes.flags_le {labels : Labels} {written : WrittenInstruction}
    (h : Encodes labels written i) : i.flags ≤ Condition.all := by
  cases h with
  | unknown => exact Condition.and_all_le 0
  | @known op flags operand => exact Condition.and_all_le flags

/-- Whatever is assembled is listed as an instruction, if it is no float. -/
theorem exists_relists (h : Image.ofAssembly source = .ok image) (hi : i ∈ image.instructions)
    (hfloat : ∀ value, i.operand ≠ .f32 value) : ∃ written, Relists i written := by
  obtain ⟨_, _, hencodes⟩ := exists_encodes h hi
  cases hmask : i.emptyMask? with
  | some op => exact relists_of_emptyMask hmask hencodes.flags_le
  | none =>
      obtain ⟨op, hop, hfits⟩ := hencodes.wellTyped
      refine relists_of_listable ⟨hencodes.flags_le, op, hop, hfits, fun hkind => ?_,
        fun hkind hzero => ?_⟩
      · rw [hkind] at hfits
        generalize i.operand = operand at hfits hfloat
        cases hfits with
        | float value => exact hfloat value rfl
      · have hsome := emptyMask?_eq_some_iff.mpr ⟨hop, hkind, hzero⟩
        rw [hmask] at hsome
        cases hsome

/-! ## Listings -/

/-- Without the indices a listing has the texts of the instructions as its lines. -/
theorem toList_withoutIndices (h : ∀ i ∈ image.instructions, '\n' ∉ i.text.toList) :
    (withoutIndices image.listing).toList =
      (image.instructions.map (·.text.toList)).flatMap (· ++ ['\n']) := by
  have htexts : ∀ text ∈ image.instructions.map (·.text.toList), '\n' ∉ text :=
    List.forall_mem_map.mpr h
  rw [withoutIndices, splitOn_listing h, joinLines, String.toList_ofList,
    ← splitOn_flatMap htexts, List.intercalate_splitOn]

theorem exists_written_of_relists {instructions : List Instruction}
    (h : ∀ i ∈ instructions, ∃ written, Relists i written) :
    ∃ written, List.Forall₂ Relists instructions written := by
  induction instructions with
  | nil => exact ⟨[], .nil⟩
  | cons first others ih =>
      obtain ⟨⟨line, hline⟩, hothers⟩ := List.forall_mem_cons.mp h
      obtain ⟨written, hwritten⟩ := ih hothers
      exact ⟨line :: written, .cons hline hwritten⟩

/-- The lines of a listing hold the instructions, with returns at their ends or without. -/
theorem holdsInstruction_of_relists {instructions : List Instruction}
    {written : List WrittenInstruction} {lines : List (List Char)}
    (h : List.Forall₂ Relists instructions written)
    (hlines : List.Forall₂ (IsLineOf '\r') lines (instructions.map (·.text.toList))) :
    List.Forall₂ HoldsInstruction lines written := by
  induction h generalizing lines with
  | nil =>
      cases hlines
      exact .nil
  | cons hfirst _ ih =>
      cases hlines with
      | cons hline hothers =>
          refine .cons ?_ (ih hothers)
          rw [HoldsInstruction, lineOf?_congr (bare_of_isLineOf hline).symm]
          exact hfirst.holds

/-- The listing of instructions that it shows one by one is assembled one by one. -/
theorem ofAssembly_of_relists (h : ∀ i ∈ image.instructions, ∃ written, Relists i written)
    (hcount : image.instructions.length < UInt32.size) :
    Image.ofAssembly (withoutIndices image.listing) =
      Image.mk <$> relisted 0 image.instructions := by
  have hfeed : ∀ i ∈ image.instructions, '\n' ∉ i.text.toList := by
    intro i hi
    obtain ⟨_, hrelists⟩ := h i hi
    exact hrelists.oneLine.feed
  obtain ⟨written, hwritten⟩ := exists_written_of_relists h
  have hlines : List.Forall₂ HoldsInstruction
      (textLines (withoutIndices image.listing).toList) written := by
    rw [toList_withoutIndices hfeed]
    exact holdsInstruction_of_relists hwritten (lines_flatMap (List.forall_mem_map.mpr hfeed))
  rw [hwritten.length_eq] at hcount
  rw [Image.ofAssembly, bind_of_eq_ok (draft_of_instructions hlines hcount), Draft.encode,
    List.reverse_reverse, ← mapM_encodeLine hwritten 0]
  rfl

/-- The listing of what was assembled without floats is assembled to the same, unless an operand is
an empty set of condition bits. The first such operand is missing on its line. -/
theorem ofAssembly_relisted (h : Image.ofAssembly source = .ok image)
    (hfloat : ∀ i ∈ image.instructions, ∀ value, i.operand ≠ .f32 value) :
    ((∀ i ∈ image.instructions, i.emptyMask? = none) →
      Image.ofAssembly (withoutIndices image.listing) = .ok image) ∧
    ∀ before i after op, image.instructions = before ++ i :: after →
      (∀ other ∈ before, other.emptyMask? = none) → i.emptyMask? = some op →
      ∃ line, Image.ofAssembly (withoutIndices image.listing) =
        .error ⟨.missingOperand op.mnemonic, line⟩ ∧ line.toNat = before.length + 1 := by
  have hcount := length_lt_of_ofAssembly h
  have hlisting := ofAssembly_of_relists (fun i hi => exists_relists h hi (hfloat i hi)) hcount
  refine ⟨fun hreadable => ?_, fun before i after op hsplit hbefore hmask => ?_⟩
  · rw [hlisting, relisted_of_readable hreadable]
    rfl
  · rw [hlisting, hsplit, relisted_of_emptyMask hbefore hmask, Nat.zero_add]
    refine ⟨_, rfl, ?_⟩
    rw [hsplit, List.length_append, List.length_cons] at hcount
    rw [toNat_lineNumber, Nat.mod_eq_of_lt (by omega)]

/-- Condition bits as letters in any order and as a number, and an empty set of them. -/
theorem ofAssembly_relisted_masks :
    let source := "a:\n  LDI 0x10\n  and ZPz ; c\n  or.n 5\n  jmp a"
    let image : Image := ⟨[⟨7, 0, .i32 16⟩, ⟨6, 0, .u8 3⟩, ⟨5, 4, .u8 5⟩, ⟨4, 0, .u32 0⟩]⟩
    let cleared : Image := ⟨[⟨7, 0, .i32 1⟩, ⟨5, 1, .u8 0⟩]⟩
    Image.ofAssembly source = .ok image ∧
      withoutIndices image.listing = "ldi 16\nand pz\nor.n pn\njmp 0\n" ∧
      Image.ofAssembly (withoutIndices image.listing) = .ok image ∧
      Image.ofAssembly "ldi 1\nor.p 0" = .ok cleared ∧
      ∃ line, Image.ofAssembly (withoutIndices cleared.listing) =
        .error ⟨.missingOperand "or", line⟩ ∧ line.toNat = 2 := by
  intro source image cleared
  have hassembled : Image.ofAssembly source = .ok image := by decide +kernel
  have hcleared : Image.ofAssembly "ldi 1\nor.p 0" = .ok cleared := by decide +kernel
  obtain ⟨hsame, _⟩ := ofAssembly_relisted hassembled (by simp [image])
  obtain ⟨_, hmissing⟩ := ofAssembly_relisted hcleared (by simp [cleared])
  exact ⟨hassembled, by decide +kernel, hsame (by decide +kernel), hcleared,
    hmissing [⟨7, 0, .i32 1⟩] ⟨5, 1, .u8 0⟩ [] .or rfl (by decide +kernel) (by decide +kernel)⟩

/-- Not everything that is assembled is listed in a way that can be assembled. -/
theorem not_assembled_of_listing :
    ¬ ∀ (source : String) (image : Image), Image.ofAssembly source = .ok image →
      (∀ i ∈ image.instructions, ∀ value, i.operand ≠ .f32 value) →
        Image.ofAssembly (withoutIndices image.listing) = .ok image := by
  intro h
  have hsame := h "or 0" ⟨[⟨5, 0, .u8 0⟩]⟩ (by decide +kernel) (by simp)
  exact absurd hsame (by decide +kernel)

end Assembly

end TickMachine
