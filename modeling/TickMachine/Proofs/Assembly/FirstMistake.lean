import Mathlib.Data.List.Induction
import TickMachine.Proofs.Assembly.Mistakes

/-! # The mistake that is reported

Each pass stops at the first line with a mistake and reports the mistake with the number of this
line. The second pass only comes to look at a line where the first one found no mistake at all, and
a source without mistakes is assembled.
-/

namespace TickMachine.Assembly

open Text

/-! ## The first line with a mistake -/

section First

variable {wrong : List (List Char) → List Char → AssemblyCause → Prop} {raws : List (List Char)}
  {raw : List Char} {cause : AssemblyCause} {number : Nat} {e : AssemblyError}

/-- No line has a mistake, where `wrong` says which mistakes a line has behind others. -/
def Flawless (wrong : List (List Char) → List Char → AssemblyCause → Prop)
    (raws : List (List Char)) : Prop :=
  ∀ front raw back, raws = front ++ raw :: back → ∀ cause, ¬ wrong front raw cause

/-- A mistake of the first line with a mistake, and the number of this line. -/
def FirstMistake (wrong : List (List Char) → List Char → AssemblyCause → Prop)
    (raws : List (List Char)) (cause : AssemblyCause) (number : Nat) : Prop :=
  ∃ front raw back, raws = front ++ raw :: back ∧ Flawless wrong front ∧
    wrong front raw cause ∧ number = front.length + 1

theorem flawless_nil : Flawless wrong [] := by
  intro front raw back h
  cases front <;> cases h

theorem not_firstMistake_nil : ¬ FirstMistake wrong [] cause number := by
  rintro ⟨front, raw, back, h, _⟩
  cases front <;> cases h

/-- Where a sequence is parted at an element, this is the last element or one in front of it. -/
theorem concat_eq_append_cons {front back : List (List Char)} {raw' : List Char}
    (h : raws ++ [raw] = front ++ raw' :: back) :
    (raws = front ∧ raw = raw') ∨ ∃ others, raws = front ++ raw' :: others := by
  rcases List.eq_nil_or_concat back with rfl | ⟨others, last, rfl⟩
  · obtain ⟨hraws, hraw⟩ := List.append_inj' h rfl
    exact .inl ⟨hraws, List.singleton_inj.mp hraw⟩
  · rw [List.concat_eq_append, ← List.cons_append, ← List.append_assoc] at h
    exact .inr ⟨others, (List.append_inj' h rfl).1⟩

theorem flawless_concat_iff :
    Flawless wrong (raws ++ [raw]) ↔ Flawless wrong raws ∧ ∀ cause, ¬ wrong raws raw cause := by
  constructor
  · intro h
    refine ⟨fun front raw' back hraws => h front raw' (back ++ [raw]) ?_, h raws raw [] rfl⟩
    rw [hraws, List.append_assoc, List.cons_append]
  · rintro ⟨hraws, hlast⟩ front raw' back h
    rcases concat_eq_append_cons h with ⟨rfl, rfl⟩ | ⟨others, h⟩
    · exact hlast
    · exact hraws front raw' others h

theorem firstMistake_concat_iff :
    FirstMistake wrong (raws ++ [raw]) cause number ↔
      FirstMistake wrong raws cause number ∨
        (Flawless wrong raws ∧ wrong raws raw cause ∧ number = raws.length + 1) := by
  constructor
  · rintro ⟨front, raw', back, h, hfront, hwrong, hline⟩
    rcases concat_eq_append_cons h with ⟨rfl, rfl⟩ | ⟨others, h⟩
    · exact .inr ⟨hfront, hwrong, hline⟩
    · exact .inl ⟨front, raw', others, h, hfront, hwrong, hline⟩
  · rintro (⟨front, raw', back, hraws, hmistake⟩ | ⟨hraws, hwrong, hline⟩)
    · refine ⟨front, raw', back ++ [raw], ?_, hmistake⟩
      rw [hraws, List.append_assoc, List.cons_append]
    · exact ⟨raws, raw, [], rfl, hraws, hwrong, hline⟩

/-- Where there is a mistake there is a first one. -/
theorem flawless_iff :
    Flawless wrong raws ↔ ∀ cause number, ¬ FirstMistake wrong raws cause number := by
  induction raws using List.reverseRecOn with
  | nil => exact ⟨fun _ _ _ => not_firstMistake_nil, fun _ => flawless_nil⟩
  | append_singleton raws raw ih =>
      rw [flawless_concat_iff]
      simp only [firstMistake_concat_iff, not_or]
      constructor
      · rintro ⟨hraws, hlast⟩ cause number
        exact ⟨ih.mp hraws cause number, fun ⟨_, hwrong, _⟩ => hlast cause hwrong⟩
      · intro h
        have hraws : Flawless wrong raws := ih.mpr fun cause number => (h cause number).1
        exact ⟨hraws, fun cause hwrong => (h cause (raws.length + 1)).2 ⟨hraws, hwrong, rfl⟩⟩

/-- The error tells a mistake of the first line with a mistake, and the number of this line in 32
bits. -/
def Reports (wrong : List (List Char) → List Char → AssemblyCause → Prop)
    (raws : List (List Char)) (e : AssemblyError) : Prop :=
  ∃ number, FirstMistake wrong raws e.cause number ∧ e.line = .ofNat number

theorem not_reports_nil : ¬ Reports wrong [] e :=
  fun ⟨_, hmistake, _⟩ => not_firstMistake_nil hmistake

theorem reports_concat_iff :
    Reports wrong (raws ++ [raw]) e ↔
      Reports wrong raws e ∨
        (Flawless wrong raws ∧ wrong raws raw e.cause ∧ e.line = lineNumber raws.length) := by
  simp only [Reports, firstMistake_concat_iff, or_and_right, exists_or]
  refine or_congr_right ⟨?_, ?_⟩
  · rintro ⟨_, ⟨hraws, hwrong, rfl⟩, hline⟩
    exact ⟨hraws, hwrong, hline.trans (UInt32.ofNat_add _ 1)⟩
  · rintro ⟨hraws, hwrong, hline⟩
    exact ⟨_, ⟨hraws, hwrong, rfl⟩, hline.trans (UInt32.ofNat_add _ 1).symm⟩

theorem Flawless.not_reports (h : Flawless wrong raws) : ¬ Reports wrong raws e :=
  fun ⟨number, hmistake, _⟩ => flawless_iff.mp h e.cause number hmistake

theorem flawless_of_not_reports (h : ∀ e, ¬ Reports wrong raws e) : Flawless wrong raws :=
  flawless_iff.mpr fun cause number hmistake => h ⟨cause, .ofNat number⟩ ⟨number, hmistake, rfl⟩

/-- The attempt goes through lines one after the other and stops at a mistake. -/
structure Scans (wrong : List (List Char) → List Char → AssemblyCause → Prop) {β : Type}
    (attempt : List (List Char) → Except AssemblyError β) : Prop where
  start : ∃ b, attempt [] = .ok b
  stop : ∀ raws raw e, attempt raws = .error e → attempt (raws ++ [raw]) = .error e
  next : ∀ raws raw e b, attempt raws = .ok b →
    (attempt (raws ++ [raw]) = .error e ↔
      wrong raws raw e.cause ∧ e.line = lineNumber raws.length)

variable {β : Type} {attempt : List (List Char) → Except AssemblyError β}

theorem Scans.eq_error_iff (h : Scans wrong attempt) :
    attempt raws = .error e ↔ Reports wrong raws e := by
  -- from the back, as the last line is looked at only when those in front are without mistakes
  induction raws using List.reverseRecOn generalizing e with
  | nil =>
      obtain ⟨b, hb⟩ := h.start
      simp [hb, not_reports_nil]
  | append_singleton raws raw ih =>
      rw [reports_concat_iff, ← ih]
      cases hraws : attempt raws with
      | error e' =>
          have hflaw : ¬ Flawless wrong raws := fun hflawless =>
            hflawless.not_reports (ih.mp hraws)
          rw [h.stop raws raw e' hraws]
          simp only [hflaw, false_and, or_false]
      | ok b =>
          have hflawless : Flawless wrong raws := flawless_of_not_reports fun e hreports => by
            rw [← ih, hraws] at hreports
            cases hreports
          rw [h.next raws raw e b hraws]
          simp only [reduceCtorEq, false_or, hflawless, true_and]

theorem Scans.exists_ok_iff (h : Scans wrong attempt) :
    (∃ b, attempt raws = .ok b) ↔ Flawless wrong raws := by
  constructor
  · rintro ⟨b, hb⟩
    refine flawless_of_not_reports fun e hreports => ?_
    rw [h.eq_error_iff.mpr hreports] at hb
    cases hb
  · intro hflawless
    cases hattempt : attempt raws with
    | ok b => exact ⟨b, rfl⟩
    | error e => exact absurd (h.eq_error_iff.mp hattempt) hflawless.not_reports

end First

/-! ## The passes -/

variable {lines : List Line} {source : String} {e : AssemblyError}

/-- The label stands on one of the lines in front. -/
theorem lookup_extend_numbered {front : List (List Char)} {name : String} :
    (Draft.empty.extend (numbered front)).labels.lookup name = none ↔
      ∀ earlier ∈ front, ¬ SpellsLabel (bare earlier) name := by
  rw [extend_numbered_labels, lookup_labelTable_eq_none_iff, List.mem_filterMap]
  simp only [lineOf?_eq_label_iff, not_exists, not_and]

theorem length_extend_numbered (front : List (List Char)) :
    (Draft.empty.extend (numbered front)).written.length =
      (instructionsIn (front.filterMap lineOf?)).length := by
  rw [← map_snd_writtenIn, List.length_map, writtenIn, Draft.extend, List.length_append,
    List.length_reverse]
  rfl

/-- The first pass stops at a line that it objects to. -/
theorem scans_addLine : Scans Refused fun raws => (numbered raws).foldlM Draft.addLine .empty where
  start := ⟨.empty, rfl⟩
  stop raws raw e h := by
    simp only [numbered_concat, List.foldlM_append, h]
    rfl
  next raws raw e draft h := by
    obtain ⟨_, _, rfl⟩ := (Draft.foldlM_addLine_eq_ok_iff Draft.sound_empty).mp h
    rw [← addLine_eq_error_iff (fun name => lookup_extend_numbered) (length_extend_numbered raws)]
    simp only [numbered_concat, List.foldlM_append, h]
    rw [bind_of_eq_ok rfl, List.foldlM_cons]
    simp only [List.foldlM_nil, bind_pure]

/-- What the second pass objects to in a line: the instruction that it spells is miswritten. -/
def MiswrittenLine (lines : List Line) (_front : List (List Char)) (raw : List Char)
    (cause : AssemblyCause) : Prop :=
  ∃ written, (bare raw).getLast? ≠ some ':' ∧ Spells (bare raw) written ∧
    Miswritten lines written cause

theorem miswrittenLine_iff {front : List (List Char)} {raw : List Char} {cause : AssemblyCause} :
    MiswrittenLine lines front raw cause ↔
      ∃ written, lineOf? raw = some (.instruction written) ∧ Miswritten lines written cause := by
  simp only [MiswrittenLine, lineOf?_eq_instruction_iff, and_assoc]

theorem writtenIn_concat (raws : List (List Char)) (raw : List Char) :
    writtenIn (raws ++ [raw]) = writtenIn raws ++
      (((lineOf? raw).bind Line.instruction?).map (lineNumber raws.length, ·)).toList := by
  rw [writtenIn, numbered_concat, List.filterMap_append, List.filterMap_cons]
  cases (lineOf? raw).bind Line.instruction? <;> rfl

theorem bind_instruction?_eq_some_iff {held : Option Line} {written : WrittenInstruction} :
    held.bind Line.instruction? = some written ↔ held = some (.instruction written) := by
  cases held with
  | none => simp
  | some line => cases line <;> simp [Line.instruction?]

theorem encodeLine_eq_error_iff {number : UInt32} {written : WrittenInstruction} :
    encodeLine (labelTable lines) (number, written) = .error e ↔
      Miswritten lines written e.cause ∧ e.line = number := by
  rw [encodeLine, mapError_eq_error_iff, encodeInstruction_eq_error_iff]

/-- The second pass stops at a line with an instruction that is miswritten. -/
theorem scans_encodeLine (lines : List Line) :
    Scans (MiswrittenLine lines) fun raws =>
      (writtenIn raws).mapM (encodeLine (labelTable lines)) where
  start := ⟨[], rfl⟩
  stop raws raw e h := by
    simp only [writtenIn_concat, List.mapM_append, h]
    rfl
  next raws raw e instructions h := by
    rw [miswrittenLine_iff]
    simp only [writtenIn_concat, List.mapM_append, h, ← bind_instruction?_eq_some_iff]
    rw [bind_of_eq_ok rfl]
    cases (lineOf? raw).bind Line.instruction? with
    | none => simp [pure, Except.pure, bind, Except.bind]
    | some written =>
        simp only [Option.map_some, Option.toList_some, List.mapM_cons, List.mapM_nil,
          Option.some.injEq, exists_eq_left', ← encodeLine_eq_error_iff]
        cases encodeLine (labelTable lines) (lineNumber raws.length, written) with
        | ok i => simp
        | error other => simp

/-! ## Both passes -/

theorem draft_eq_error_iff :
    draft source = .error e ↔ Reports Refused (textLines source.toList) e :=
  scans_addLine.eq_error_iff

theorem exists_draft_iff :
    (∃ final, draft source = .ok final) ↔ Flawless Refused (textLines source.toList) :=
  scans_addLine.exists_ok_iff

theorem encode_of_draft {final : Draft} (h : draft source = .ok final) :
    final.encode =
      (writtenIn (textLines source.toList)).mapM (encodeLine (labelTable (linesOf source))) := by
  obtain ⟨_, _, _, rfl⟩ := draft_eq_ok_iff.mp h
  rw [Draft.encode, extend_written, extend_labels]

theorem ofAssembly_eq_error_iff :
    Image.ofAssembly source = .error e ↔
      Reports Refused (textLines source.toList) e ∨
        (Flawless Refused (textLines source.toList) ∧
          Reports (MiswrittenLine (linesOf source)) (textLines source.toList) e) := by
  have hsecond := scans_encodeLine (linesOf source)
  rw [← draft_eq_error_iff, ← exists_draft_iff, ← hsecond.eq_error_iff]
  constructor
  · intro h
    rcases of_bind_eq_error h with hdraft | ⟨final, hdraft, h⟩
    · exact .inl hdraft
    · rcases of_bind_eq_error h with hencode | ⟨instructions, _, h⟩
      · rw [encode_of_draft hdraft] at hencode
        exact .inr ⟨⟨final, hdraft⟩, hencode⟩
      · cases h
  · rintro (hdraft | ⟨⟨final, hdraft⟩, hencode⟩)
    · rw [Image.ofAssembly, hdraft]
      rfl
    · rw [← encode_of_draft hdraft] at hencode
      rw [Image.ofAssembly, bind_of_eq_ok hdraft, hencode]
      rfl

theorem exists_ofAssembly_iff :
    (∃ image, Image.ofAssembly source = .ok image) ↔
      Flawless Refused (textLines source.toList) ∧
        Flawless (MiswrittenLine (linesOf source)) (textLines source.toList) := by
  have hsecond := scans_encodeLine (linesOf source)
  rw [← exists_draft_iff, ← hsecond.exists_ok_iff]
  constructor
  · rintro ⟨image, h⟩
    obtain ⟨final, hdraft, h⟩ := of_bind_eq_ok h
    obtain ⟨instructions, hencode, _⟩ := of_bind_eq_ok h
    rw [encode_of_draft hdraft] at hencode
    exact ⟨⟨final, hdraft⟩, instructions, hencode⟩
  · rintro ⟨⟨final, hdraft⟩, instructions, hencode⟩
    rw [← encode_of_draft hdraft] at hencode
    refine ⟨⟨instructions⟩, ?_⟩
    rw [Image.ofAssembly, bind_of_eq_ok hdraft, bind_of_eq_ok hencode]
    rfl

/-- The line is neither empty nor ends as a label does. -/
def HasInstruction (raw : List Char) : Prop :=
  bare raw ≠ [] ∧ (bare raw).getLast? ≠ some ':'

instance : DecidablePred HasInstruction :=
  fun raw => inferInstanceAs (Decidable (bare raw ≠ [] ∧ (bare raw).getLast? ≠ some ':'))

/-- Where all lines can be read, the instructions are those of the lines that have one. -/
theorem forall₂_hasInstruction {raws : List (List Char)} (hreadable : ∀ raw ∈ raws, Readable raw)
    {R : WrittenInstruction → Instruction → Prop} {instructions : List Instruction}
    (h : List.Forall₂ R (instructionsIn (raws.filterMap lineOf?)) instructions) :
    List.Forall₂ (fun raw i => ∃ written, Spells (bare raw) written ∧ R written i)
      (raws.filter HasInstruction) instructions := by
  induction raws generalizing instructions with
  | nil =>
      cases h
      exact .nil
  | cons raw raws ih =>
      obtain ⟨hraw, hraws⟩ := List.forall_mem_cons.mp hreadable
      cases hline : lineOf? raw with
      | none =>
          have hno : ¬ HasInstruction raw := by
            rintro ⟨hne, _⟩
            rcases hraw with hnil | ⟨line, hread⟩
            · exact hne hnil
            · rw [lineOf?_eq_some_iff.mpr ⟨hne, hread⟩] at hline
              cases hline
          rw [List.filterMap_cons_none hline] at h
          rw [List.filter_cons_of_neg (by simpa using hno)]
          exact ih hraws h
      | some line =>
          rw [List.filterMap_cons_some hline] at h
          cases line with
          | label name =>
              have hno : ¬ HasInstruction raw := fun hhas =>
                hhas.2 (lineOf?_eq_label_iff.mp hline).getLast?
              rw [List.filter_cons_of_neg (by simpa using hno)]
              exact ih hraws h
          | instruction written =>
              obtain ⟨hlast, hspells⟩ := lineOf?_eq_instruction_iff.mp hline
              have hhas : HasInstruction raw := ⟨hspells.ne_nil, hlast⟩
              rw [List.filter_cons_of_pos (by simpa using hhas)]
              cases h with
              | cons hfirst hothers => exact .cons ⟨written, hspells, hfirst⟩ (ih hraws hothers)

/-! ## Sources with countable instructions -/

section Few

variable (hfew : (instructionsIn (linesOf source)).length < UInt32.size)
include hfew

/-- The first pass objects to a line because it is misread, as none is one instruction too many. -/
theorem refused_iff_misread {front back : List (List Char)} {raw : List Char}
    {cause : AssemblyCause} (hlines : textLines source.toList = front ++ raw :: back) :
    Refused front raw cause ↔ Misread front raw cause := by
  refine ⟨fun h => ?_, .misread⟩
  rcases h with hmisread | ⟨hlast, hspells, hcount⟩
  · exact hmisread
  · have hline := lineOf?_eq_instruction_iff.mpr ⟨hlast, hspells⟩
    rw [linesOf, hlines, List.filterMap_append, List.filterMap_cons_some hline,
      instructionsIn_append, List.length_append] at hfew
    change (instructionsIn (front.filterMap lineOf?)).length +
      ((instructionsIn (back.filterMap lineOf?)).length + 1) < UInt32.size at hfew
    omega

theorem flawless_refused_iff {front back : List (List Char)}
    (hlines : textLines source.toList = front ++ back) :
    Flawless Refused front ↔ Flawless Misread front := by
  have hwhere {first : List (List Char)} {raw : List Char} {others : List (List Char)}
      (hfront : front = first ++ raw :: others) :
      textLines source.toList = first ++ raw :: (others ++ back) := by
    rw [hlines, hfront, List.append_assoc, List.cons_append]
  constructor
  · intro h first raw others hfront cause hmisread
    exact h first raw others hfront cause (.misread hmisread)
  · intro h first raw others hfront cause hrefused
    exact h first raw others hfront cause
      ((refused_iff_misread hfew (hwhere hfront)).mp hrefused)

theorem firstMistake_refused_iff {cause : AssemblyCause} {number : Nat} :
    FirstMistake Refused (textLines source.toList) cause number ↔
      FirstMistake Misread (textLines source.toList) cause number := by
  constructor
  · rintro ⟨front, raw, back, hlines, hfront, hwrong, hnumber⟩
    exact ⟨front, raw, back, hlines, (flawless_refused_iff hfew hlines).mp hfront,
      (refused_iff_misread hfew hlines).mp hwrong, hnumber⟩
  · rintro ⟨front, raw, back, hlines, hfront, hwrong, hnumber⟩
    exact ⟨front, raw, back, hlines, (flawless_refused_iff hfew hlines).mpr hfront,
      .misread hwrong, hnumber⟩

end Few

/-- What is reported about a source: the first line that is misread, or else the first one with an
instruction that is miswritten. -/
def Reported (source : String) (cause : AssemblyCause) (number : Nat) : Prop :=
  FirstMistake Misread (textLines source.toList) cause number ∨
    (Flawless Misread (textLines source.toList) ∧
      FirstMistake (MiswrittenLine (linesOf source)) (textLines source.toList) cause number)

/-- The number that is reported is that of a line. -/
theorem Reported.number_le {cause : AssemblyCause} {number : Nat}
    (h : Reported source cause number) : number ≤ (textLines source.toList).length := by
  have hle {wrong : List (List Char) → List Char → AssemblyCause → Prop}
      (hmistake : FirstMistake wrong (textLines source.toList) cause number) :
      number ≤ (textLines source.toList).length := by
    obtain ⟨front, raw, back, hlines, _, _, rfl⟩ := hmistake
    rw [hlines, List.length_append, List.length_cons]
    omega
  rcases h with hmistake | ⟨_, hmistake⟩
  · exact hle hmistake
  · exact hle hmistake

theorem ofAssembly_eq_error_iff_reported
    (hfew : (instructionsIn (linesOf source)).length < UInt32.size) :
    Image.ofAssembly source = .error e ↔
      ∃ number, Reported source e.cause number ∧ e.line = .ofNat number := by
  have hflawless := flawless_refused_iff hfew (List.append_nil (textLines source.toList)).symm
  rw [ofAssembly_eq_error_iff, hflawless]
  simp only [Reports, firstMistake_refused_iff hfew, Reported, or_and_right, exists_or, and_assoc,
    exists_and_left]

/-- What assembling a source comes to. If a line cannot be read or repeats a label, the first such
line is reported, else the first line with an instruction that is miswritten; its number is told in
32 bits, so it is the number itself unless there are more lines. Without such lines the source is
assembled, each line with an instruction by itself, and each label stands for the number of
instructions in front of it. -/
theorem ofAssembly_determined {source : String}
    (hfew : (instructionsIn (linesOf source)).length < 4294967296) :
    (∀ e, Image.ofAssembly source = .error e ↔
      ∃ number, Reported source e.cause number ∧ e.line.toNat = number % 4294967296) ∧
    ((textLines source.toList).length < 4294967296 →
      ∀ e, Image.ofAssembly source = .error e ↔ Reported source e.cause e.line.toNat) ∧
    ((∃ image, Image.ofAssembly source = .ok image) ↔
      Flawless Misread (textLines source.toList) ∧
        Flawless (MiswrittenLine (linesOf source)) (textLines source.toList)) ∧
    ∀ image, Image.ofAssembly source = .ok image →
      List.Forall₂
          (fun raw i => ∃ written, Spells (bare raw) written ∧
            Encodes (labelTable (linesOf source)) written i)
          ((textLines source.toList).filter HasInstruction) image.instructions ∧
        ∀ name, (labelTable (linesOf source)).lookup name = place? (linesOf source) name := by
  have hnumber (line : UInt32) (number : Nat) :
      line = .ofNat number ↔ line.toNat = number % 4294967296 := by
    rw [← UInt32.toNat_inj, UInt32.toNat_ofNat']
  have hflawless := flawless_refused_iff hfew (List.append_nil (textLines source.toList)).symm
  refine ⟨fun e => ?_, fun hlines e => ?_, ?_, fun image h => ?_⟩
  · simp only [ofAssembly_eq_error_iff_reported hfew, hnumber]
  · simp only [ofAssembly_eq_error_iff_reported hfew, hnumber]
    constructor
    · rintro ⟨number, hreported, hline⟩
      rw [Nat.mod_eq_of_lt (Nat.lt_of_le_of_lt hreported.number_le hlines)] at hline
      rwa [hline]
    · intro hreported
      exact ⟨_, hreported, (Nat.mod_eq_of_lt e.line.toNat_lt).symm⟩
  · rw [exists_ofAssembly_iff, hflawless]
  · obtain ⟨hreadable, hnodup, _, hencoded⟩ := ofAssembly_eq_ok_iff.mp h
    refine ⟨forall₂_hasInstruction hreadable ?_, lookup_labelTable hnodup⟩
    exact hencoded.imp fun written i => encodeInstruction_eq_ok_iff.mp

/-- An operand that is not needed stands in front of a label that is none, and the label is
reported; an unknown mnemonic is no mistake, whatever stands behind it. -/
theorem ofAssembly_determined_passes :
    let wrong := "jmp end\nnop 1\nend here:"
    let right := "frob.q what\njmp end\nend:"
    (instructionsIn (linesOf wrong)).length < 4294967296 ∧
      (textLines wrong.toList).length < 4294967296 ∧
      FirstMistake Misread (textLines wrong.toList) (.invalidLabel "end here") 3 ∧
      (instructionsIn (linesOf right)).length < 4294967296 ∧
      Flawless (MiswrittenLine (linesOf right)) (textLines right.toList) := by
  intro wrong right
  have hwrong : (instructionsIn (linesOf wrong)).length < 4294967296 := by decide +kernel
  have hright : (instructionsIn (linesOf right)).length < 4294967296 := by decide +kernel
  have hlines : (textLines wrong.toList).length < 4294967296 := by decide +kernel
  obtain ⟨-, herror, -⟩ := ofAssembly_determined hwrong
  obtain ⟨-, -, hok, -⟩ := ofAssembly_determined hright
  refine ⟨hwrong, hlines, ?_, hright, ?_⟩
  · rcases (herror hlines ⟨.invalidLabel "end here", 3⟩).mp (by decide +kernel) with
      hmisread | ⟨_, _, _, _, _, _, ⟨written, _, _, hmiswritten⟩, _⟩
    · exact hmisread
    · cases hmiswritten with
      | operand _ _ hmisfit =>
          generalize written.operand = operand at hmisfit
          cases hmisfit
  · exact (hok.mp ⟨⟨[⟨0, 0, .none⟩, ⟨4, 0, .u32 2⟩]⟩, by decide +kernel⟩).2

/-! ## Sources with more lines than are counted -/

/-- Empty lines, and behind them one that is no instruction. -/
def blankThenWrong (count : Nat) : String :=
  String.ofList (List.replicate count '\n' ++ ['?'])

theorem textLines_blankThenWrong (count : Nat) :
    textLines (blankThenWrong count).toList = List.replicate count [] ++ [['?']] := by
  rw [blankThenWrong, String.toList_ofList, textLines]
  induction count with
  | zero => rfl
  | succ count ih =>
      rw [List.replicate_succ, List.cons_append, lines_feed, ih, List.replicate_succ,
        List.cons_append]

theorem linesOf_blankThenWrong (count : Nat) : linesOf (blankThenWrong count) = [] := by
  rw [linesOf, textLines_blankThenWrong]
  induction count with
  | zero => decide +kernel
  | succ count ih => exact ih

theorem firstMistake_blankThenWrong (count : Nat) :
    FirstMistake Misread (textLines (blankThenWrong count).toList) (.badLine "?") (count + 1) := by
  rw [textLines_blankThenWrong]
  refine ⟨List.replicate count [], ['?'], [], rfl, ?_, ?_, ?_⟩
  · intro front raw back hblank cause hmisread
    have hraw : raw ∈ List.replicate count [] := by
      rw [hblank]
      exact List.mem_append_right front List.mem_cons_self
    rw [List.eq_of_mem_replicate hraw] at hmisread
    exact hmisread.ne_nil rfl
  · exact misread_of_readLine (by decide) rfl
  · rw [List.length_replicate]

/-- Numbers of 32 bits do not tell the line behind so many others. -/
theorem not_reported_behind_blanks :
    ¬ ∀ source : String, (instructionsIn (linesOf source)).length < 4294967296 →
      ∀ e, Image.ofAssembly source = .error e → Reported source e.cause e.line.toNat := by
  intro h
  have hfew : (instructionsIn (linesOf (blankThenWrong 4294967296))).length < 4294967296 := by
    rw [linesOf_blankThenWrong]
    decide
  have hmistake := firstMistake_blankThenWrong 4294967296
  have herror : Image.ofAssembly (blankThenWrong 4294967296) = .error ⟨.badLine "?", 1⟩ :=
    (ofAssembly_eq_error_iff_reported hfew).mpr ⟨_, .inl hmistake, rfl⟩
  rcases h _ hfew _ herror with ⟨front, raw, back, hlines, _, hwrong, hnumber⟩ | ⟨hflawless, _⟩
  · -- the first line would be misread, which is empty
    rw [List.eq_nil_of_length_eq_zero (Nat.succ.inj hnumber).symm, List.nil_append,
      textLines_blankThenWrong] at hlines
    rw [← (List.cons.inj hlines).1] at hwrong
    exact hwrong.ne_nil rfl
  · exact flawless_iff.mp hflawless _ _ hmistake

end TickMachine.Assembly
