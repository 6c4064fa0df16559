import TickMachine.Proofs.Assembly.Encoding

/-! # Doing without labels

A source is freed of its labels when their lines are taken out and every call and jump to a label
is written with the number of instruction lines in front of the label. The two passes number the
instructions alike, so the same image is assembled: the lines that are taken out hold no
instruction, and in the lines that are changed only the operand is.
-/

namespace TickMachine.Assembly

open Text

/-! ## The source without labels -/

/-- The line with another operand; comment and blank characters stay where they are. -/
def replaceOperand (raw operand new : List Char) : List Char :=
  let code := trimRight (raw.takeWhile (· ≠ ';'))
  code.take (code.length - operand.length) ++ (new ++ raw.drop code.length)

/-- The label that a call or jump goes to, and its place. -/
def destination? (lines : List Line) (written : WrittenInstruction) :
    Option (List Char × Nat) :=
  match Opcode.ofMnemonic? written.mnemonic with
  | some .call | some .jump =>
    written.operand.bind fun name => (place? lines (String.ofList name)).map (name, ·)
  | _ => none

/-- What is left of a line: nothing of the line of a label, and places instead of labels in calls
and jumps. -/
def withoutLabel? (lines : List Line) (raw : List Char) : Option (List Char) :=
  match lineOf? raw with
  | some (.label _) => none
  | some (.instruction written) =>
    match destination? lines written with
    | some (name, place) => some (replaceOperand raw name (decimal place))
    | none => some raw
  | none => some raw

/-- The lines that are left of a source. -/
def remaining (source : String) : List (List Char) :=
  (source.toList.splitOn '\n').filterMap (withoutLabel? (linesOf source))

/-- The source with places instead of labels. -/
def withoutLabels (source : String) : String :=
  joinLines (remaining source)

/-- The instruction line with the place instead of the label. -/
def WrittenInstruction.placed (lines : List Line) (written : WrittenInstruction) :
    WrittenInstruction :=
  match destination? lines written with
  | some (_, place) => { written with operand := some (decimal place) }
  | none => written

variable {lines : List Line} {raw name new : List Char} {written : WrittenInstruction}

/-! ## One line -/

theorem replaceOperand_eq {front head operand back : List Char} (hfront : AllBlank front)
    (hback : IsTail back) (hne : operand ≠ []) (htrimmed : Trimmed operand)
    (hsemicolon : ';' ∉ head ++ operand) :
    replaceOperand (front ++ (head ++ operand ++ back)) operand new =
      front ++ (head ++ new ++ back) := by
  obtain @⟨blanks, comment, hblanks, hcomment⟩ := hback
  have hcode : trimRight (front ++ (head ++ operand ++ blanks)) = front ++ head ++ operand := by
    rw [← List.append_assoc front, ← List.append_assoc front]
    apply trimRight_append hblanks
    rw [List.getLast?_append_of_ne_nil _ hne]
    exact htrimmed.last
  have hlength : (front ++ head ++ operand).length - operand.length = (front ++ head).length := by
    rw [List.length_append, Nat.add_sub_cancel]
  have hraw : front ++ (head ++ operand ++ (blanks ++ comment)) =
      front ++ head ++ operand ++ (blanks ++ comment) := by
    simp only [List.append_assoc]
  simp only [replaceOperand]
  rw [takeWhile_code hfront hsemicolon hblanks hcomment, hcode, hlength, List.take_left, hraw,
    List.drop_left]
  simp only [List.append_assoc]

/-- A line with another operand is read as the instruction with this operand. -/
theorem lineOf?_replaceOperand (h : lineOf? raw = some (.instruction written))
    (hname : written.operand = some name) (hnew : IsPlain new) :
    lineOf? (replaceOperand raw name new) =
      some (.instruction { written with operand := some new }) := by
  obtain ⟨_, hread⟩ := lineOf?_eq_some_iff.mp h
  obtain ⟨front, back, hraw, hfront, hback, htext, hsemicolon⟩ :=
    bare_eq_iff.mp (rfl : bare raw = bare raw)
  obtain ⟨_, hmnemonic, hcondition, rest, hparts, hrest⟩ :=
    (readLine_eq_instruction_iff htext).mp hread
  rw [hname] at hrest
  cases hrest with
  | @operand gap _ hspace hgap hne htrimmed =>
      rw [← List.append_assoc _ gap, ← List.append_assoc written.mnemonic] at hparts
      rw [hparts] at hraw hsemicolon
      have hspells : Spells (written.mnemonic ++ (conditionText written.condition ++ gap) ++ new)
          { written with operand := some new } :=
        ⟨hmnemonic, hcondition, gap ++ new, by simp only [List.append_assoc],
          .operand hspace hgap hnew.ne_nil hnew.trimmed⟩
      have hnewSemicolon :
          ';' ∉ written.mnemonic ++ (conditionText written.condition ++ gap) ++ new := by
        rw [List.mem_append, not_or] at hsemicolon ⊢
        exact ⟨hsemicolon.1, hnew.not_mem (.inr (.inl rfl))⟩
      have hbare := bare_eq_iff.mpr
        ⟨front, back, rfl, hfront, hback, hspells.trimmed, hnewSemicolon⟩
      rw [hraw, replaceOperand_eq hfront hback hne htrimmed hsemicolon, lineOf?_eq_some_iff, hbare]
      refine ⟨hspells.ne_nil, hspells.readLine ?_⟩
      rintro _ ⟨⟩ hcolon
      exact hnew.not_mem (.inr (.inr rfl)) (List.mem_of_getLast? hcolon)

theorem destination?_eq_some_iff {place : Nat} :
    destination? lines written = some (name, place) ↔
      (∃ op, Opcode.ofMnemonic? written.mnemonic = some op ∧ op.operandKind = .target) ∧
        written.operand = some name ∧ place? lines (String.ofList name) = some place := by
  have hbind : (written.operand.bind fun name =>
        (place? lines (String.ofList name)).map (name, ·)) = some (name, place) ↔
      written.operand = some name ∧ place? lines (String.ofList name) = some place := by
    simp only [Option.bind_eq_some_iff, Option.map_eq_some_iff, Prod.mk.injEq]
    constructor
    · rintro ⟨_, hname, _, hplace, rfl, rfl⟩
      exact ⟨hname, hplace⟩
    · rintro ⟨hname, hplace⟩
      exact ⟨name, hname, place, hplace, rfl, rfl⟩
  unfold destination?
  cases hop : Opcode.ofMnemonic? written.mnemonic with
  | none => simp
  | some op => cases op <;> simp [hbind, Opcode.operandKind]

theorem lineOf?_withoutLabel? (lines : List Line) (raw : List Char) :
    (withoutLabel? lines raw).bind lineOf? =
      ((lineOf? raw).bind Line.instruction?).map (.instruction ∘ .placed lines) := by
  unfold withoutLabel?
  cases hline : lineOf? raw with
  | none => exact hline
  | some line =>
      cases line with
      | label name => rfl
      | instruction written =>
          simp only [Line.instruction?, Option.bind_some, Option.map_some, Function.comp_apply,
            WrittenInstruction.placed]
          cases hdestination : destination? lines written with
          | none => exact hline
          | some destination =>
              obtain ⟨name, place⟩ := destination
              obtain ⟨_, hname, _⟩ := destination?_eq_some_iff.mp hdestination
              exact lineOf?_replaceOperand hline hname (isPlain_decimal place)

theorem not_mem_replaceOperand {c : Char} (hraw : c ∉ raw) (hnew : c ∉ new) :
    c ∉ replaceOperand raw name new := by
  simp only [replaceOperand, List.mem_append, not_or]
  refine ⟨fun hmem => hraw ?_, hnew, fun hmem => hraw (List.mem_of_mem_drop hmem)⟩
  have hmem := List.mem_of_mem_take hmem
  obtain ⟨back, hcode, _⟩ := exists_trimRight (raw.takeWhile (· ≠ ';'))
  have hmem : c ∈ raw.takeWhile (· ≠ ';') := by
    rw [hcode]
    exact List.mem_append_left back hmem
  exact (List.takeWhile_prefix _).subset hmem

/-- What is left of a line is the line, or the line of an instruction with another operand. -/
theorem withoutLabel?_cases {left : List Char} (h : withoutLabel? lines raw = some left) :
    left = raw ∨ ∃ name place line, left = replaceOperand raw name (decimal place) ∧
      lineOf? left = some line := by
  unfold withoutLabel? at h
  split at h
  next => cases h
  next written hline =>
    split at h
    next name place hdestination =>
      cases h
      obtain ⟨_, hname, _⟩ := destination?_eq_some_iff.mp hdestination
      exact .inr ⟨name, place, _, rfl, lineOf?_replaceOperand hline hname (isPlain_decimal place)⟩
    next =>
      cases h
      exact .inl rfl
  next =>
    cases h
    exact .inl rfl

/-! ## All lines -/

section Lines

variable (source : String)

theorem not_mem_remaining : ∀ raw ∈ remaining source, '\n' ∉ raw := by
  intro left hleft
  obtain ⟨raw, hraw, hwithout⟩ := List.mem_filterMap.mp hleft
  have hfeed : '\n' ∉ raw := not_mem_of_mem_splitOn hraw
  rcases withoutLabel?_cases hwithout with rfl | ⟨name, place, _, rfl, _⟩
  · exact hfeed
  · exact not_mem_replaceOperand hfeed ((isPlain_decimal place).not_mem (.inl rfl))

theorem readable_remaining (hreadable : ∀ raw ∈ textLines source.toList, Readable raw) :
    ∀ raw ∈ remaining source, Readable raw := by
  intro left hleft
  obtain ⟨raw, hraw, hwithout⟩ := List.mem_filterMap.mp hleft
  rcases withoutLabel?_cases hwithout with rfl | ⟨_, _, line, _, hline⟩
  · exact (forall_readable_textLines_iff source.toList).mp hreadable left hraw
  · exact .inr ⟨line, (lineOf?_eq_some_iff.mp hline).2⟩

/-- The source without labels holds the instructions of the source, with places instead of labels,
and nothing else. -/
theorem linesOf_withoutLabels :
    linesOf (withoutLabels source) =
      ((instructionsIn (linesOf source)).map (.placed (linesOf source))).map .instruction := by
  rw [withoutLabels, linesOf_joinLines (not_mem_remaining source), remaining,
    List.filterMap_filterMap]
  simp only [lineOf?_withoutLabel?]
  rw [← List.map_filterMap, ← List.filterMap_filterMap, ← filterMap_lineOf?_textLines,
    List.map_map]
  rfl

end Lines

/-! ## Instructions -/

theorem readKind_congr {kind : OperandKind} (h : kind ≠ .target) (labels labels' : Labels)
    (cs : List Char) : readKind kind labels cs = readKind kind labels' cs := by
  cases kind with
  | target => exact absurd rfl h
  | _ => rfl

section Encoding

variable {op : Opcode} {operand : Operand}

/-- The place of a label is read as the label was. -/
theorem readTarget_place {place : Nat} (hnodup : (labelsIn lines).Nodup)
    (hname : IsIdentifier name) (hplace : place? lines (String.ofList name) = some place)
    (hlt : place < UInt32.size) (h : readTarget (labelTable lines) name = .ok operand)
    (labels : Labels) : readTarget labels (decimal place) = .ok operand := by
  obtain ⟨found, hlookup, rfl⟩ := (readTarget_of_isIdentifier hname).mp h
  rw [lookup_labelTable hnodup, hplace] at hlookup
  cases hlookup
  exact readTarget_decimal labels hlt

/-- An operand that is no label is read without labels. -/
theorem readKind_of_destination?_eq_none {cs : List Char} (hnodup : (labelsIn lines).Nodup)
    (hop : Opcode.ofMnemonic? written.mnemonic = some op) (hoperand : written.operand = some cs)
    (hnone : destination? lines written = none)
    (h : readKind op.operandKind (labelTable lines) cs = .ok operand) (labels : Labels) :
    readKind op.operandKind labels cs = .ok operand := by
  by_cases htarget : op.operandKind = .target
  · rw [htarget] at h ⊢
    change readTarget _ cs = _ at h ⊢
    by_cases hidentifier : IsIdentifier cs
    · -- then it is the label of the table that it was read as
      obtain ⟨place, hlookup, _⟩ := (readTarget_of_isIdentifier hidentifier).mp h
      rw [lookup_labelTable hnodup] at hlookup
      rw [destination?_eq_some_iff.mpr ⟨⟨op, hop, htarget⟩, hoperand, hlookup⟩] at hnone
      cases hnone
    · rw [readTarget_of_not_isIdentifier hidentifier] at h ⊢
      exact h
  · rw [readKind_congr htarget labels (labelTable lines)]
    exact h

/-- With the place instead of the label an instruction is encoded as before, whatever labels there
are. -/
theorem Encodes.placed {i : Instruction} (h : Encodes (labelTable lines) written i)
    (hnodup : (labelsIn lines).Nodup)
    (hidentifiers : ∀ label, .label label ∈ lines → IsIdentifier label.toList)
    (hlength : (instructionsIn lines).length < UInt32.size) (labels : Labels) :
    Encodes labels (written.placed lines) i := by
  unfold WrittenInstruction.placed
  cases h with
  | unknown hop =>
      have hnone : destination? lines written = none := by rw [destination?, hop]
      rw [hnone]
      exact .unknown hop
  | @known op flags operand hop hflags hoperand =>
      cases hdestination : destination? lines written with
      | none =>
          refine .known hop hflags (readOperand_eq_ok_iff.mpr ?_)
          rcases readOperand_eq_ok_iff.mp hoperand with homitted | ⟨cs, hcs, hkind⟩
          · exact .inl homitted
          · exact .inr ⟨cs, hcs,
              readKind_of_destination?_eq_none hnodup hop hcs hdestination hkind labels⟩
      | some destination =>
          obtain ⟨name, place⟩ := destination
          obtain ⟨⟨op', hop', htarget⟩, hname, hplace⟩ := destination?_eq_some_iff.mp hdestination
          obtain rfl : op = op' := Option.some.inj (hop.symm.trans hop')
          have hidentifier : IsIdentifier name := by
            have hlabel := hidentifiers _ (place?_isSome_iff.mp (Option.isSome_of_mem hplace))
            rwa [String.toList_ofList] at hlabel
          have hlt : place < UInt32.size := Nat.lt_of_le_of_lt (place?_le hplace) hlength
          have hread : readTarget (labelTable lines) name = .ok operand := by
            rcases readOperand_eq_ok_iff.mp hoperand with ⟨hnone, _⟩ | ⟨cs, hcs, hkind⟩
            · rw [hname] at hnone
              cases hnone
            · rw [hname] at hcs
              cases hcs
              rw [htarget] at hkind
              exact hkind
          refine .known hop hflags (readOperand_eq_ok_iff.mpr (.inr ⟨decimal place, rfl, ?_⟩))
          rw [htarget]
          exact readTarget_place hnodup hidentifier hplace hlt hread labels

end Encoding

/-- A source without its labels is assembled to the same image. No place is too great for an index
of 32 bits, as an assembled source holds no more instructions than these can count. -/
theorem ofAssembly_withoutLabels {source : String} {image : Image}
    (hassembled : Image.ofAssembly source = .ok image) :
    labelsIn (linesOf (withoutLabels source)) = [] ∧
      Image.ofAssembly (withoutLabels source) = .ok image := by
  obtain ⟨hreadable, hnodup, hcount, hencoded⟩ := ofAssembly_eq_ok_iff.mp hassembled
  have hlabels : labelsIn (linesOf (withoutLabels source)) = [] := by
    rw [linesOf_withoutLabels, labelsIn_map_instruction]
  refine ⟨hlabels, ofAssembly_eq_ok_iff.mpr ⟨?_, ?_, ?_, ?_⟩⟩
  · exact forall_readable_joinLines (not_mem_remaining source) (readable_remaining source hreadable)
  · rw [hlabels]
    exact List.nodup_nil
  · rw [linesOf_withoutLabels, instructionsIn_map_instruction, List.length_map]
    exact hcount
  · have hidentifiers : ∀ label, .label label ∈ linesOf source → IsIdentifier label.toList :=
      fun label => isIdentifier_of_mem_linesOf
    generalize labelTable (linesOf (withoutLabels source)) = labels
    rw [linesOf_withoutLabels, instructionsIn_map_instruction, List.forall₂_map_left_iff]
    refine hencoded.imp fun written i h => ?_
    have hencodes := encodeInstruction_eq_ok_iff.mp h
    exact encodeInstruction_eq_ok_iff.mpr (hencodes.placed hnodup hidentifiers hcount labels)

/-- Labels in front of and behind their use, two for one place, one at the end, and an instruction
with an unknown mnemonic that counts as well. -/
theorem ofAssembly_withoutLabels_outline :
    let source := "a: ; first\n  rest 1\nb:\nc :\n\n  jmp.p b ; b\n  CALL end\n  nop\nend:"
    let image : Image := ⟨[⟨0, 0, .none⟩, ⟨4, 1, .u32 1⟩, ⟨3, 0, .u32 4⟩, ⟨0, 0, .none⟩]⟩
    Image.ofAssembly source = .ok image ∧
      withoutLabels source = "  rest 1\n\n  jmp.p 1 ; b\n  CALL 4\n  nop" ∧
      Image.ofAssembly (withoutLabels source) = .ok image := by
  intro source image
  have hassembled : Image.ofAssembly source = .ok image := by decide +kernel
  exact ⟨hassembled, by decide +kernel, (ofAssembly_withoutLabels hassembled).2⟩

end TickMachine.Assembly
