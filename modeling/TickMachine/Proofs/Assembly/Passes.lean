import Mathlib.Data.List.Nodup
import TickMachine.Assembly.Basic
import TickMachine.Proofs.Attempts

/-! # What the two passes come to

The first pass succeeds when every line can be read, no label stands twice and the instructions can
be counted, and then each label stands for the number of instruction lines in front of it. The
second pass encodes the instruction lines one by one, each with the finished table of labels. Both
are put together in one equivalence, `ofAssembly_eq_ok_iff`, so that nothing else has to be known of
the passes.
-/

namespace TickMachine.Assembly

/-! ## Lines -/

/-- What a line of a source holds. There is nothing on an empty line, and a line that cannot be read
counts for nothing. -/
def lineOf? (raw : List Char) : Option Line :=
  if (bare raw).isEmpty then none else (readLine (bare raw)).toOption

/-- The line is empty or holds something that can be read. -/
def Readable (raw : List Char) : Prop :=
  bare raw = [] ∨ ∃ line, readLine (bare raw) = .ok line

theorem lineOf?_eq_some_iff {raw : List Char} {line : Line} :
    lineOf? raw = some line ↔ bare raw ≠ [] ∧ readLine (bare raw) = .ok line := by
  unfold lineOf?
  by_cases htext : bare raw = []
  · simp [htext]
  · cases hread : readLine (bare raw) with
    | error cause => simp [htext, Except.toOption]
    | ok held => simp [htext, Except.toOption]

/-- What the lines of a source hold, one after the other. -/
def linesOf (source : String) : List Line :=
  (Text.textLines source.toList).filterMap lineOf?

def Line.label? : Line → Option String
  | .label name => some name
  | .instruction _ => none

def Line.instruction? : Line → Option WrittenInstruction
  | .label _ => none
  | .instruction written => some written

/-- The labels among lines. -/
def labelsIn (lines : List Line) : List String :=
  lines.filterMap Line.label?

/-- The instructions among lines. -/
def instructionsIn (lines : List Line) : List WrittenInstruction :=
  lines.filterMap Line.instruction?

/-- The number of instruction lines in front of the line of a label. -/
def place? (lines : List Line) (name : String) : Option Nat :=
  if .label name ∈ lines then
    some (instructionsIn (lines.takeWhile (· ≠ .label name))).length
  else none

theorem mem_instructionsIn {lines : List Line} {written : WrittenInstruction} :
    written ∈ instructionsIn lines ↔ .instruction written ∈ lines := by
  simp only [instructionsIn, List.mem_filterMap]
  constructor
  · rintro ⟨line, hmem, hinstruction⟩
    cases line with
    | label name => cases hinstruction
    | instruction other =>
        cases hinstruction
        exact hmem
  · exact fun hmem => ⟨_, hmem, rfl⟩

theorem mem_labelsIn {lines : List Line} {name : String} :
    name ∈ labelsIn lines ↔ .label name ∈ lines := by
  simp only [labelsIn, List.mem_filterMap]
  constructor
  · rintro ⟨line, hmem, hlabel⟩
    cases line with
    | label other =>
        cases hlabel
        exact hmem
    | instruction written => cases hlabel
  · exact fun hmem => ⟨_, hmem, rfl⟩

@[simp] theorem place?_label_self (name : String) (lines : List Line) :
    place? (.label name :: lines) name = some 0 := by
  simp [place?, instructionsIn]

theorem place?_label_of_ne {other name : String} (h : other ≠ name) (lines : List Line) :
    place? (.label other :: lines) name = place? lines name := by
  have hne : Line.label other ≠ .label name := fun heq => h (Line.label.inj heq)
  simp only [place?, List.mem_cons, hne.symm, false_or]
  rw [List.takeWhile_cons_of_pos (by simpa using hne)]
  rfl

@[simp] theorem place?_instruction (written : WrittenInstruction) (lines : List Line)
    (name : String) :
    place? (.instruction written :: lines) name = (place? lines name).map (· + 1) := by
  have hne : Line.instruction written ≠ .label name := Line.noConfusion
  simp only [place?, List.mem_cons, hne.symm, false_or]
  rw [List.takeWhile_cons_of_pos (by simp)]
  split <;> rfl

theorem place?_isSome_iff {lines : List Line} {name : String} :
    (place? lines name).isSome ↔ .label name ∈ lines := by
  unfold place?
  split
  next h => simp [h]
  next h => simp [h]

theorem instructionsIn_append (front back : List Line) :
    instructionsIn (front ++ back) = instructionsIn front ++ instructionsIn back :=
  List.filterMap_append

theorem place?_append {front : List Line} {name : String} (hfront : .label name ∉ front)
    (back : List Line) :
    place? (front ++ .label name :: back) name = some (instructionsIn front).length := by
  have htake : (front ++ .label name :: back).takeWhile (· ≠ .label name) = front := by
    rw [List.takeWhile_append_of_pos, List.takeWhile_cons_of_neg (by simp), List.append_nil]
    intro line hline
    rw [decide_eq_true_iff]
    rintro rfl
    exact hfront hline
  rw [place?, if_pos (by simp), htake]

theorem place?_le {lines : List Line} {name : String} {place : Nat}
    (h : place? lines name = some place) : place ≤ (instructionsIn lines).length := by
  obtain ⟨front, back, rfl, hfront⟩ :=
    List.eq_append_cons_of_mem (place?_isSome_iff.mp (Option.isSome_of_mem h))
  rw [place?_append hfront] at h
  cases h
  rw [instructionsIn_append, List.length_append]
  exact Nat.le_add_right _ _

@[simp] theorem labelsIn_map_instruction (written : List WrittenInstruction) :
    labelsIn (written.map .instruction) = [] := by
  induction written with
  | nil => rfl
  | cons first others ih => exact ih

@[simp] theorem instructionsIn_map_instruction (written : List WrittenInstruction) :
    instructionsIn (written.map .instruction) = written := by
  induction written with
  | nil => rfl
  | cons first others ih => exact congrArg (first :: ·) ih

/-! ## The first pass -/

/-- The labels of lines, with some instructions in front of all of them. -/
def places : Nat → List Line → Labels
  | _, [] => []
  | count, .label name :: lines => (name, count) :: places count lines
  | count, .instruction _ :: lines => places (count + 1) lines

theorem map_fst_places (count : Nat) (lines : List Line) :
    (places count lines).map Prod.fst = labelsIn lines := by
  induction lines generalizing count with
  | nil => rfl
  | cons line lines ih =>
      cases line with
      | label name => exact congrArg (name :: ·) (ih count)
      | instruction written => exact ih (count + 1)

theorem lookup_places (count : Nat) (lines : List Line) (name : String) :
    (places count lines).lookup name = (place? lines name).map (count + ·) := by
  induction lines generalizing count with
  | nil => rfl
  | cons line lines ih =>
      cases line with
      | label other =>
          by_cases h : other = name
          · subst h
            simp [places]
          · have hne : (name == other) = false := by simp [Ne.symm h]
            rw [place?_label_of_ne h, places, List.lookup_cons, hne]
            exact ih count
      | instruction written =>
          rw [places, ih, place?_instruction, Option.map_map]
          congr 1
          funext n
          exact Nat.add_right_comm count 1 n

/-- The table of labels of all lines, the last one first. -/
def labelTable (lines : List Line) : Labels :=
  (places 0 lines).reverse

theorem map_fst_labelTable (lines : List Line) :
    (labelTable lines).map Prod.fst = (labelsIn lines).reverse := by
  rw [labelTable, List.map_reverse, map_fst_places]

/-- The table holds the labels of the lines and no others. -/
theorem lookup_labelTable_eq_none_iff {lines : List Line} {name : String} :
    (labelTable lines).lookup name = none ↔ .label name ∉ lines := by
  rw [← mem_labelsIn, ← List.mem_reverse, ← map_fst_labelTable, List.mem_map,
    List.lookup_eq_none_iff]
  constructor
  · rintro h ⟨entry, hentry, rfl⟩
    simpa using h entry hentry
  · intro h entry hentry
    rw [bne_iff_ne]
    rintro rfl
    exact h ⟨entry, hentry, rfl⟩

/-- Among distinct keys the order does not matter. -/
theorem lookup_reverse {table : Labels} (hnodup : (table.map Prod.fst).Nodup) (name : String) :
    table.reverse.lookup name = table.lookup name := by
  cases h : table.lookup name with
  | none =>
      rw [List.lookup_eq_none_iff] at h ⊢
      exact fun entry hentry => h entry (List.mem_reverse.mp hentry)
  | some place =>
      obtain ⟨front, back, rfl, _⟩ := List.lookup_eq_some_iff.mp h
      rw [List.lookup_eq_some_iff]
      refine ⟨back.reverse, front.reverse, by simp, fun entry hentry => ?_⟩
      rw [List.map_append, List.map_cons, List.nodup_append] at hnodup
      have hfresh : name ∉ back.map Prod.fst := (List.nodup_cons.mp hnodup.2.1).1
      rw [bne_iff_ne]
      rintro rfl
      exact hfresh (List.mem_map_of_mem (List.mem_reverse.mp hentry))

theorem lookup_labelTable {lines : List Line} (hnodup : (labelsIn lines).Nodup) (name : String) :
    (labelTable lines).lookup name = place? lines name := by
  have hkeys : ((places 0 lines).map Prod.fst).Nodup := by rwa [map_fst_places]
  rw [labelTable, lookup_reverse hkeys, lookup_places]
  simp

namespace Draft

/-- No label stands twice, and the instructions can be counted in 32 bits. -/
structure Sound (draft : Draft) : Prop where
  labels : (draft.labels.map Prod.fst).Nodup
  count : draft.written.length < UInt32.size

theorem sound_empty : empty.Sound := ⟨List.nodup_nil, by decide⟩

/-- The draft when all lines have been read. -/
def extend (draft : Draft) (numbered : List (UInt32 × List Char)) : Draft where
  labels :=
    (places draft.written.length (numbered.filterMap fun line => lineOf? line.2)).reverse ++
      draft.labels
  written :=
    (numbered.filterMap fun line =>
      ((lineOf? line.2).bind Line.instruction?).map (line.1, ·)).reverse ++ draft.written

variable {draft : Draft} {number : UInt32} {raw : List Char}

theorem addLine_empty (h : bare raw = []) : draft.addLine (number, raw) = .ok draft := by
  simp [addLine, h]

theorem addLine_label {name : String} (htext : bare raw ≠ [])
    (h : readLine (bare raw) = .ok (.label name)) :
    draft.addLine (number, raw) = (draft.addLabel name).mapError (⟨·, number⟩) := by
  simp [addLine, htext, h, bind, Except.bind]

theorem addLine_instruction {written : WrittenInstruction} (htext : bare raw ≠ [])
    (h : readLine (bare raw) = .ok (.instruction written)) :
    draft.addLine (number, raw) =
      (draft.addInstruction number written).mapError (⟨·, number⟩) := by
  simp [addLine, htext, h, bind, Except.bind]

theorem addLine_unreadable {cause : AssemblyCause} (htext : bare raw ≠ [])
    (h : readLine (bare raw) = .error cause) :
    draft.addLine (number, raw) = .error ⟨cause, number⟩ := by
  simp [addLine, htext, h, bind, Except.bind, Except.mapError]

/-- What is in a draft already stays there. -/
theorem length_written_le_extend (draft : Draft) (numbered : List (UInt32 × List Char)) :
    draft.written.length ≤ (draft.extend numbered).written.length := by
  rw [extend, List.length_append]
  exact Nat.le_add_left _ _

theorem nodup_labels_of_extend {numbered : List (UInt32 × List Char)}
    (h : ((draft.extend numbered).labels.map Prod.fst).Nodup) :
    (draft.labels.map Prod.fst).Nodup := by
  rw [extend, List.map_append, List.nodup_append] at h
  exact h.2.1

/-- Reading on with a sound draft ends with one only where each step leads to one. -/
theorem Sound.of_extend {numbered : List (UInt32 × List Char)} (h : (draft.extend numbered).Sound) :
    draft.Sound where
  labels := nodup_labels_of_extend h.labels
  count := Nat.lt_of_le_of_lt (length_written_le_extend draft numbered) h.count

/-- The draft behind one more label. -/
def withLabel (draft : Draft) (name : String) : Draft :=
  { draft with labels := (name, draft.written.length) :: draft.labels }

/-- The draft behind one more instruction. -/
def withInstruction (draft : Draft) (number : UInt32) (written : WrittenInstruction) : Draft :=
  { draft with written := (number, written) :: draft.written }

/-- The draft behind one more line. -/
def withLine (draft : Draft) (number : UInt32) : Line → Draft
  | .label name => draft.withLabel name
  | .instruction written => draft.withInstruction number written

theorem addLabel_cases (h : draft.Sound) (name : String) :
    (draft.addLabel name = .ok (draft.withLabel name) ∧ (draft.withLabel name).Sound) ∨
      (draft.addLabel name = .error (.duplicateLabel name) ∧
        ¬ (draft.withLabel name).Sound) := by
  cases hlookup : draft.labels.lookup name with
  | none =>
      have hfresh : name ∉ draft.labels.map Prod.fst := by
        intro hmem
        obtain ⟨entry, hentry, rfl⟩ := List.mem_map.mp hmem
        simpa using List.lookup_eq_none_iff.mp hlookup entry hentry
      rw [addLabel, hlookup]
      exact .inl ⟨rfl, List.nodup_cons.mpr ⟨hfresh, h.labels⟩, h.count⟩
  | some place =>
      obtain ⟨front, back, hlabels, _⟩ := List.lookup_eq_some_iff.mp hlookup
      rw [addLabel, hlookup]
      refine .inr ⟨rfl, fun hsound => ?_⟩
      have hnodup := hsound.labels
      simp [withLabel, hlabels] at hnodup

theorem addInstruction_cases (h : draft.Sound) (number : UInt32) (written : WrittenInstruction) :
    (draft.addInstruction number written = .ok (draft.withInstruction number written) ∧
        (draft.withInstruction number written).Sound) ∨
      (draft.addInstruction number written = .error .tooManyInstructions ∧
        ¬ (draft.withInstruction number written).Sound) := by
  by_cases hcount : draft.written.length + 1 < UInt32.size
  · rw [addInstruction, if_pos hcount]
    exact .inl ⟨rfl, h.labels, hcount⟩
  · rw [addInstruction, if_neg hcount]
    exact .inr ⟨rfl, fun hsound => hcount hsound.count⟩

/-- A line that can be read is added where this leaves a sound draft, and refused where it would
not. -/
theorem addLine_cases {line : Line} (h : draft.Sound) (number : UInt32)
    (hline : lineOf? raw = some line) :
    (draft.addLine (number, raw) = .ok (draft.withLine number line) ∧
        (draft.withLine number line).Sound) ∨
      ((∃ e, draft.addLine (number, raw) = .error e) ∧
        ¬ (draft.withLine number line).Sound) := by
  obtain ⟨htext, hread⟩ := lineOf?_eq_some_iff.mp hline
  cases line with
  | label name =>
      rw [addLine_label htext hread]
      rcases addLabel_cases h name with ⟨hadd, hnext⟩ | ⟨hadd, hnext⟩
      · exact .inl ⟨by rw [hadd]; rfl, hnext⟩
      · exact .inr ⟨⟨_, by rw [hadd]; rfl⟩, hnext⟩
  | instruction written =>
      rw [addLine_instruction htext hread]
      rcases addInstruction_cases h number written with ⟨hadd, hnext⟩ | ⟨hadd, hnext⟩
      · exact .inl ⟨by rw [hadd]; rfl, hnext⟩
      · exact .inr ⟨⟨_, by rw [hadd]; rfl⟩, hnext⟩

theorem extend_cons_of_none (h : lineOf? raw = none) (numbered : List (UInt32 × List Char)) :
    draft.extend ((number, raw) :: numbered) = draft.extend numbered := by
  simp [extend, h]

theorem extend_cons_of_some {line : Line} (h : lineOf? raw = some line)
    (numbered : List (UInt32 × List Char)) :
    draft.extend ((number, raw) :: numbered) = (draft.withLine number line).extend numbered := by
  cases line with
  | label name => simp [extend, withLine, withLabel, h, places, Line.instruction?]
  | instruction written => simp [extend, withLine, withInstruction, h, places, Line.instruction?]

/-- The first pass gives what the lines hold, unless one cannot be read, a label stands twice or
there are more instructions than can be counted. -/
theorem foldlM_addLine_eq_ok_iff {numbered : List (UInt32 × List Char)} {start final : Draft}
    (hstart : start.Sound) :
    numbered.foldlM addLine start = .ok final ↔
      (∀ line ∈ numbered, Readable line.2) ∧ final.Sound ∧ final = start.extend numbered := by
  induction numbered generalizing start with
  | nil =>
      simp only [List.foldlM_nil, pure, Except.pure, Except.ok.injEq, extend, places,
        List.filterMap_nil, List.reverse_nil, List.nil_append, List.not_mem_nil, false_implies,
        implies_true, true_and]
      constructor
      · rintro rfl
        exact ⟨hstart, rfl⟩
      · rintro ⟨_, rfl⟩
        rfl
  | cons line rest ih =>
      obtain ⟨number, raw⟩ := line
      simp only [List.foldlM_cons, List.forall_mem_cons]
      by_cases htext : bare raw = []
      · have hline : lineOf? raw = none := by simp [lineOf?, htext]
        have hreadable : Readable raw := .inl htext
        rw [addLine_empty htext, extend_cons_of_none hline]
        simp only [hreadable, true_and]
        exact ih hstart
      · cases hread : readLine (bare raw) with
        | error cause =>
            have hreadable : ¬ Readable raw := by simp [Readable, htext, hread]
            rw [addLine_unreadable htext hread]
            simp [hreadable, bind, Except.bind]
        | ok line =>
            have hline : lineOf? raw = some line := lineOf?_eq_some_iff.mpr ⟨htext, hread⟩
            have hreadable : Readable raw := .inr ⟨line, hread⟩
            simp only [hreadable, true_and]
            rw [extend_cons_of_some hline]
            rcases addLine_cases hstart number hline with ⟨hadd, hnext⟩ | ⟨⟨e, hadd⟩, hnext⟩
            · rw [hadd]
              exact ih hnext
            · rw [hadd]
              refine iff_of_false nofun ?_
              rintro ⟨_, hsound, rfl⟩
              exact hnext hsound.of_extend

end Draft

/-! ## The second pass -/

theorem encode_eq_ok_iff {draft : Draft} {instructions : List Instruction} :
    draft.encode = .ok instructions ↔
      List.Forall₂ (fun written i => encodeInstruction draft.labels written = .ok i)
        (draft.written.reverse.map Prod.snd) instructions := by
  simp only [Draft.encode, mapM_eq_ok_iff, encodeLine, mapError_eq_ok_iff,
    List.forall₂_map_left_iff]

/-! ## Both passes -/

theorem toNat_lineNumber (index : Nat) : (lineNumber index).toNat = (index + 1) % UInt32.size := by
  rw [lineNumber, UInt32.toNat_add, UInt32.toNat_ofNat']
  exact Nat.mod_add_mod index _ 1

/-- Lines with their numbers. -/
def numbered (raws : List (List Char)) : List (UInt32 × List Char) :=
  raws.mapIdx fun index raw => (lineNumber index, raw)

theorem numbered_concat (raws : List (List Char)) (raw : List Char) :
    numbered (raws ++ [raw]) = numbered raws ++ [(lineNumber raws.length, raw)] :=
  List.mapIdx_concat

theorem map_snd_numbered (raws : List (List Char)) : (numbered raws).map Prod.snd = raws := by
  apply List.ext_getElem?
  intro index
  simp only [numbered, List.getElem?_map, List.getElem?_mapIdx, Option.map_map]
  exact Option.map_id'

theorem filterMap_numbered (raws : List (List Char)) :
    (numbered raws).filterMap (fun line => lineOf? line.2) = raws.filterMap lineOf? := by
  rw [← map_snd_numbered raws, List.filterMap_map, map_snd_numbered]
  rfl

theorem extend_numbered_labels (raws : List (List Char)) :
    (Draft.empty.extend (numbered raws)).labels = labelTable (raws.filterMap lineOf?) := by
  simp only [Draft.extend, Draft.empty, List.length_nil, List.append_nil, filterMap_numbered]
  rfl

theorem extend_labels (source : String) :
    (Draft.empty.extend (numberedLines source)).labels = labelTable (linesOf source) :=
  extend_numbered_labels (Text.textLines source.toList)

/-- The instructions of lines with their line numbers. -/
def writtenIn (raws : List (List Char)) : List (UInt32 × WrittenInstruction) :=
  (numbered raws).filterMap fun line =>
    ((lineOf? line.2).bind Line.instruction?).map (line.1, ·)

theorem extend_written (source : String) :
    (Draft.empty.extend (numberedLines source)).written.reverse =
      writtenIn (Text.textLines source.toList) := by
  simp only [Draft.extend, Draft.empty, List.append_nil, List.reverse_reverse]
  rfl

theorem map_snd_writtenIn (raws : List (List Char)) :
    (writtenIn raws).map Prod.snd = instructionsIn (raws.filterMap lineOf?) := by
  simp only [writtenIn, instructionsIn, List.map_filterMap, ← filterMap_numbered,
    List.filterMap_filterMap]
  congr 1
  funext line
  cases lineOf? line.2 with
  | none => rfl
  | some held => cases held <;> rfl

theorem length_extend_written (source : String) :
    (Draft.empty.extend (numberedLines source)).written.length =
      (instructionsIn (linesOf source)).length := by
  rw [← List.length_reverse, extend_written, ← List.length_map, map_snd_writtenIn, linesOf]

theorem sound_extend_iff {source : String} :
    (Draft.empty.extend (numberedLines source)).Sound ↔
      (labelsIn (linesOf source)).Nodup ∧
        (instructionsIn (linesOf source)).length < UInt32.size := by
  rw [← length_extend_written, ← List.nodup_reverse, ← map_fst_labelTable, ← extend_labels]
  exact ⟨fun h => ⟨h.labels, h.count⟩, fun h => ⟨h.1, h.2⟩⟩

theorem draft_eq_ok_iff {source : String} {final : Draft} :
    draft source = .ok final ↔ (∀ raw ∈ Text.textLines source.toList, Readable raw) ∧
      (labelsIn (linesOf source)).Nodup ∧
      (instructionsIn (linesOf source)).length < UInt32.size ∧
      final = Draft.empty.extend (numberedLines source) := by
  have hreadable : (∀ line ∈ numberedLines source, Readable line.2) ↔
      ∀ raw ∈ Text.textLines source.toList, Readable raw := by
    rw [← map_snd_numbered (Text.textLines source.toList), List.forall_mem_map]
    rfl
  rw [draft, Draft.foldlM_addLine_eq_ok_iff Draft.sound_empty, hreadable]
  constructor
  · rintro ⟨hlines, hsound, rfl⟩
    obtain ⟨hnodup, hcount⟩ := sound_extend_iff.mp hsound
    exact ⟨hlines, hnodup, hcount, rfl⟩
  · rintro ⟨hlines, hnodup, hcount, rfl⟩
    exact ⟨hlines, sound_extend_iff.mpr ⟨hnodup, hcount⟩, rfl⟩

/-- A source is assembled where all of its lines can be read, no label stands twice, the
instructions can be counted in 32 bits and every one can be encoded; the instructions are those of
the instruction lines in their order. -/
theorem ofAssembly_eq_ok_iff {source : String} {image : Image} :
    Image.ofAssembly source = .ok image ↔
      (∀ raw ∈ Text.textLines source.toList, Readable raw) ∧
      (labelsIn (linesOf source)).Nodup ∧
      (instructionsIn (linesOf source)).length < UInt32.size ∧
      List.Forall₂
        (fun written i => encodeInstruction (labelTable (linesOf source)) written = .ok i)
        (instructionsIn (linesOf source)) image.instructions := by
  have hencode : ∀ instructions,
      (Draft.empty.extend (numberedLines source)).encode = .ok instructions ↔
        List.Forall₂
          (fun written i => encodeInstruction (labelTable (linesOf source)) written = .ok i)
          (instructionsIn (linesOf source)) instructions := by
    intro instructions
    rw [encode_eq_ok_iff, extend_labels, extend_written, map_snd_writtenIn]
    rfl
  constructor
  · intro h
    obtain ⟨final, hdraft, h⟩ := of_bind_eq_ok h
    obtain ⟨instructions, hinstructions, h⟩ := of_bind_eq_ok h
    cases h
    obtain ⟨hlines, hnodup, hcount, rfl⟩ := draft_eq_ok_iff.mp hdraft
    exact ⟨hlines, hnodup, hcount, (hencode _).mp hinstructions⟩
  · rintro ⟨hlines, hnodup, hcount, hinstructions⟩
    rw [Image.ofAssembly, bind_of_eq_ok (draft_eq_ok_iff.mpr ⟨hlines, hnodup, hcount, rfl⟩),
      bind_of_eq_ok ((hencode _).mpr hinstructions)]
    rfl

/-- What is assembled has no more instructions than 32 bits can count. -/
theorem length_lt_of_ofAssembly {source : String} {image : Image}
    (h : Image.ofAssembly source = .ok image) : image.instructions.length < UInt32.size := by
  obtain ⟨_, _, hcount, hencoded⟩ := ofAssembly_eq_ok_iff.mp h
  rwa [← hencoded.length_eq]

end TickMachine.Assembly
