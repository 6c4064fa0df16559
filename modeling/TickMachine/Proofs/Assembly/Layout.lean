import Mathlib.Data.Multiset.Fold
import Mathlib.Logic.Relation
import TickMachine.Proofs.Assembly.Mistakes

/-! # Layout and spelling

A source that is assembled can be laid out and spelled in other ways: with other empty lines,
comments and space at the ends of lines, with mnemonics in other case, and with the letters of
conditions in other order, number and case. Every such edit changes one segment between the feeds,
so that the lines hold the same labels in the same places, and instructions that are encoded alike.
-/

namespace TickMachine.Assembly

open Text

variable {front gap back letters letters' : List Char} {written written' : WrittenInstruction}

/-! ## The case of letters -/

theorem toLower_eq_underscore_iff {c : Char} : c.toLower = '_' ↔ c = '_' := by
  rw [← Char.toNat_inj, ← Char.toNat_inj, toNat_toLower]
  simp only [Char.reduceToNat]
  split <;> omega

theorem isIdentifierStart_toLower (c : Char) :
    isIdentifierStart c.toLower = isIdentifierStart c := by
  rw [Bool.eq_iff_iff, isIdentifierStart_iff, isIdentifierStart_iff, isAlpha_toLower,
    toLower_eq_underscore_iff]

theorem isIdentifierRest_toLower (c : Char) :
    isIdentifierRest c.toLower = isIdentifierRest c := by
  rw [Bool.eq_iff_iff, isIdentifierRest_iff, isIdentifierRest_iff, isAlphanum_toLower,
    toLower_eq_underscore_iff]

theorem isIdentifier_map_toLower {word : List Char} :
    IsIdentifier (word.map Char.toLower) ↔ IsIdentifier word := by
  have hrest (cs : List Char) : (∀ d ∈ cs.map Char.toLower, isIdentifierRest d = true) ↔
      ∀ d ∈ cs, isIdentifierRest d = true := by
    simp only [List.forall_mem_map, isIdentifierRest_toLower]
  cases word with
  | nil => exact Iff.rfl
  | cons c cs =>
      constructor
      · rintro ⟨hstart, hcs⟩
        rw [isIdentifierStart_toLower] at hstart
        exact .intro hstart ((hrest cs).mp hcs)
      · rintro ⟨hstart, hcs⟩
        rw [← isIdentifierStart_toLower] at hstart
        exact .intro hstart ((hrest cs).mpr hcs)

/-- The words differ in the case of their letters only. -/
def SameWord (word word' : List Char) : Prop :=
  word.map Char.toLower = word'.map Char.toLower

theorem SameWord.isIdentifier {word word' : List Char} (h : SameWord word word')
    (hword : IsIdentifier word) : IsIdentifier word' := by
  rw [← isIdentifier_map_toLower, ← h]
  exact isIdentifier_map_toLower.mpr hword

theorem SameWord.ofMnemonic?_eq {word word' : List Char} (h : SameWord word word') :
    Opcode.ofMnemonic? word = Opcode.ofMnemonic? word' := by
  rw [Opcode.ofMnemonic?, h, Opcode.ofMnemonic?]

/-! ## Sets of letters -/

/-- The same letters, whatever their order, number and case. -/
def SameLetters (letters letters' : List Char) : Prop :=
  ∀ c, c ∈ letters.map Char.toLower ↔ c ∈ letters'.map Char.toLower

/-- What does not depend on the case of a character holds of all characters or of all of the same
letters. -/
theorem SameLetters.forall_iff (h : SameLetters letters letters') {p : Char → Prop}
    (hp : ∀ c, p c.toLower ↔ p c) : (∀ c ∈ letters, p c) ↔ ∀ c ∈ letters', p c := by
  have hmap (cs : List Char) : (∀ c ∈ cs.map Char.toLower, p c) ↔ ∀ c ∈ cs, p c := by
    simp only [List.forall_mem_map, hp]
  rw [← hmap letters, ← hmap letters']
  exact forall_congr' fun c => imp_congr_left (h c)

theorem SameLetters.ne_nil_iff (h : SameLetters letters letters') :
    letters ≠ [] ↔ letters' ≠ [] := by
  rw [not_iff_not, List.eq_nil_iff_forall_not_mem, List.eq_nil_iff_forall_not_mem]
  exact h.forall_iff fun _ => Iff.rfl

theorem SameLetters.isCondition_iff (h : SameLetters letters letters') :
    IsCondition letters ↔ IsCondition letters' := by
  refine and_congr h.ne_nil_iff (h.forall_iff fun c => ?_)
  rw [toLower_toLower]

/-- The bits of the letters, each with its place in the list. -/
def letterBits (letters : List Char) : List UInt8 :=
  letters.filterMap Condition.ofLetter?

theorem ofLetters?_of_isCondition (h : IsCondition letters) :
    Condition.ofLetters? letters = some ((letterBits letters).foldl (· ||| ·) 0) := by
  have hsome : ∀ c ∈ letters, (Condition.ofLetter? c).isSome := fun c hc =>
    ofLetter?_isSome_iff.mpr (h.2 c hc)
  rw [Condition.ofLetters?, if_neg (mt List.isEmpty_iff.mp h.1), mapM_of_forall_isSome hsome]
  rfl

theorem ofLetter?_toLower (c : Char) : Condition.ofLetter? c.toLower = Condition.ofLetter? c := by
  rw [Condition.ofLetter?, toLower_toLower, Condition.ofLetter?]

theorem SameLetters.mem_letterBits (h : SameLetters letters letters') (bit : UInt8) :
    bit ∈ letterBits letters ↔ bit ∈ letterBits letters' := by
  have hmap (cs : List Char) :
      bit ∈ letterBits cs ↔ ∃ c ∈ cs.map Char.toLower, Condition.ofLetter? c = some bit := by
    simp only [letterBits, List.mem_filterMap, List.mem_map, exists_exists_and_eq_and,
      ofLetter?_toLower]
  rw [hmap, hmap]
  exact exists_congr fun c => and_congr_left' (h c)

/-- Bits are united to the same whatever their order and number. -/
theorem foldl_or_congr {bits bits' : List UInt8} (h : ∀ bit, bit ∈ bits ↔ bit ∈ bits') :
    bits.foldl (· ||| ·) 0 = bits'.foldl (· ||| ·) 0 := by
  have hdedup : (bits : Multiset UInt8).dedup = (bits' : Multiset UInt8).dedup :=
    Multiset.dedup_ext.mpr h
  rw [← Multiset.coe_fold_l, ← Multiset.coe_fold_l, ← Multiset.fold_dedup_idem, hdedup,
    Multiset.fold_dedup_idem]

/-- The same letters are the same condition, or both none. -/
theorem SameLetters.ofLetters?_eq (h : SameLetters letters letters') :
    Condition.ofLetters? letters = Condition.ofLetters? letters' := by
  by_cases hcondition : IsCondition letters
  · rw [ofLetters?_of_isCondition hcondition,
      ofLetters?_of_isCondition (h.isCondition_iff.mp hcondition),
      foldl_or_congr h.mem_letterBits]
  · rw [ofLetters?_eq_none_iff.mpr hcondition,
      ofLetters?_eq_none_iff.mpr (mt h.isCondition_iff.mpr hcondition)]

/-! ## Instructions that are spelled in another way -/

/-- The instruction is spelled in another way: with another case of its mnemonic, or with the same
letters as its condition or as the mask of `or` and `and`. -/
inductive Respelled : WrittenInstruction → WrittenInstruction → Prop
  | mnemonic {word word' : List Char} {condition operand : Option (List Char)}
      (hcase : SameWord word word') :
      Respelled ⟨word, condition, operand⟩ ⟨word', condition, operand⟩
  | condition {word letters letters' : List Char} {operand : Option (List Char)}
      (hletters : SameLetters letters letters') :
      Respelled ⟨word, some letters, operand⟩ ⟨word, some letters', operand⟩
  | mask {word letters letters' : List Char} {condition : Option (List Char)} {op : Opcode}
      (hword : Opcode.ofMnemonic? word = some op) (hop : op = .or ∨ op = .and)
      (hmask : IsCondition letters) (hletters : SameLetters letters letters') :
      Respelled ⟨word, condition, some letters⟩ ⟨word, condition, some letters'⟩

theorem mask?_of_isCondition (h : IsCondition letters) :
    mask? letters = Condition.ofLetters? letters := by
  rw [mask?, integer?_of_isCondition h]

theorem readKind_mask_eq_ok_iff {labels : Labels} {cs : List Char} {operand : Operand} :
    readKind .mask labels cs = .ok operand ↔ (mask? cs).map Operand.u8 = some operand :=
  orInvalid_eq_ok_iff _

theorem readCondition_eq_ok_iff {flags : UInt8} :
    readCondition (some letters) = .ok flags ↔ Condition.ofLetters? letters = some flags := by
  rw [readCondition]
  cases Condition.ofLetters? letters with
  | none => simp
  | some found => simp

theorem readOperand_mask {op : Opcode} {labels : Labels} {operand : Operand}
    (hop : op = .or ∨ op = .and) (hmask : IsCondition letters)
    (hletters : SameLetters letters letters')
    (h : readOperand op labels (some letters) = .ok operand) :
    readOperand op labels (some letters') = .ok operand := by
  have hkind : op.operandKind = .mask := by rcases hop with rfl | rfl <;> rfl
  have hsame : mask? letters' = mask? letters := by
    rw [mask?_of_isCondition hmask, mask?_of_isCondition (hletters.isCondition_iff.mp hmask),
      hletters.ofLetters?_eq]
  rcases readOperand_eq_ok_iff.mp h with ⟨hnone, _⟩ | ⟨_, ⟨rfl⟩, hread⟩
  · cases hnone
  · refine readOperand_eq_ok_iff.mpr (.inr ⟨letters', rfl, ?_⟩)
    rw [hkind, readKind_mask_eq_ok_iff] at hread ⊢
    rwa [hsame]

/-- Spelled in another way an instruction is encoded to the same. -/
theorem Respelled.encodes {labels : Labels} {i : Instruction} (h : Respelled written written')
    (hencodes : Encodes labels written i) : Encodes labels written' i := by
  cases h with
  | mnemonic hcase =>
      cases hencodes with
      | unknown hop => exact .unknown (hcase.ofMnemonic?_eq ▸ hop)
      | known hop hflags hoperand => exact .known (hcase.ofMnemonic?_eq ▸ hop) hflags hoperand
  | condition hletters =>
      cases hencodes with
      | unknown hop => exact .unknown hop
      | known hop hflags hoperand =>
          refine .known hop ?_ hoperand
          rw [readCondition_eq_ok_iff] at hflags ⊢
          rwa [← hletters.ofLetters?_eq]
  | mask hword hor hmask hletters =>
      cases hencodes with
      | unknown hop => exact .unknown hop
      | known hop hflags hoperand =>
          obtain rfl := Option.some.inj (hword.symm.trans hop)
          exact .known hop hflags (readOperand_mask hor hmask hletters hoperand)

/-! ## Lines with an instruction -/

theorem behind_some_iff {operand : List Char} :
    Behind (gap ++ operand) (some operand) ↔
      (∃ c ∈ gap.head?, isSpace c = true) ∧ AllBlank gap ∧ operand ≠ [] ∧ Trimmed operand := by
  constructor
  · intro h
    generalize hrest : gap ++ operand = rest at h
    cases h with
    | operand hspace hgap hne htrimmed =>
        obtain rfl := List.append_cancel_right hrest
        exact ⟨hspace, hgap, hne, htrimmed⟩
  · rintro ⟨hspace, hgap, hne, htrimmed⟩
    exact .operand hspace hgap hne htrimmed

theorem Behind.allBlank {operand : Option (List Char)}
    (h : Behind (gap ++ operand.getD []) operand) : AllBlank gap := by
  cases operand with
  | none =>
      generalize hrest : gap ++ none.getD [] = rest at h
      cases h
      rw [(List.append_eq_nil_iff.mp hrest).1]
      exact allBlank_nil
  | some operand => exact (behind_some_iff.mp h).2.1

/-- The instruction, written out with a gap in front of its operand. -/
def WrittenInstruction.text (gap : List Char) (written : WrittenInstruction) : List Char :=
  written.mnemonic ++ (conditionText written.condition ++ (gap ++ written.operand.getD []))

/-- The instruction fills a line, with what stands in front of it, in the gap and behind it. -/
structure WrittenInstruction.Fills (written : WrittenInstruction) (front gap back : List Char) :
    Prop where
  front : AllBlank front
  mnemonic : IsIdentifier written.mnemonic
  condition : ∀ letters ∈ written.condition, ∀ c ∈ letters, c.isAlphanum = true
  operand : Behind (gap ++ written.operand.getD []) written.operand
  /-- The operand does not run into a comment and does not end as a label does. -/
  code : ∀ operand ∈ written.operand, ';' ∉ operand ∧ operand.getLast? ≠ some ':'
  back : IsTail back

namespace WrittenInstruction.Fills

theorem spells (h : written.Fills front gap back) : Spells (written.text gap) written :=
  ⟨h.mnemonic, h.condition, _, rfl, h.operand⟩

theorem allBlank_gap (h : written.Fills front gap back) : AllBlank gap :=
  h.operand.allBlank

theorem not_mem_text (h : written.Fills front gap back) : ';' ∉ written.text gap := by
  have hword {cs : List Char} (hcs : ∀ c ∈ cs, isIdentifierRest c = true) : ';' ∉ cs :=
    fun hmem => nomatch hcs ';' hmem
  have hgap : ';' ∉ gap := fun hmem => nomatch h.allBlank_gap ';' hmem
  simp only [text, List.mem_append, not_or]
  refine ⟨hword h.mnemonic.isIdentifierRest, ?_, hgap, ?_⟩
  · cases hcondition : written.condition with
    | none => exact List.not_mem_nil
    | some letters =>
        refine List.not_mem_cons_of_ne_of_not_mem nofun (hword fun c hc => ?_)
        exact isIdentifierRest_of_isAlphanum (h.condition letters hcondition c hc)
  · cases hoperand : written.operand with
    | none => exact List.not_mem_nil
    | some operand => exact (h.code operand hoperand).1

/-- What is on the line is read as the instruction. -/
theorem lineOf?_eq (h : written.Fills front gap back) :
    lineOf? (front ++ (written.text gap ++ back)) = some (.instruction written) := by
  have hbare : bare (front ++ (written.text gap ++ back)) = written.text gap :=
    bare_eq_iff.mpr ⟨front, back, rfl, h.front, h.back, h.spells.trimmed, h.not_mem_text⟩
  rw [lineOf?_eq_some_iff, hbare]
  exact ⟨h.spells.ne_nil, h.spells.readLine fun operand hoperand => (h.code operand hoperand).2⟩

end WrittenInstruction.Fills

theorem IsCondition.isPlain (h : IsCondition letters) : IsPlain letters where
  ne_nil := h.1
  chars c hc := .inl (isIdentifierRest_of_isAlphanum (h.isAlphanum c hc))

/-- Spelled in another way the instruction fills the line as before. -/
theorem Respelled.fills (h : Respelled written written') (hfills : written.Fills front gap back) :
    written'.Fills front gap back := by
  cases h with
  | mnemonic hcase => exact { hfills with mnemonic := hcase.isIdentifier hfills.mnemonic }
  | condition hletters =>
      refine { hfills with condition := ?_ }
      rintro _ ⟨⟩
      refine (hletters.forall_iff fun c => ?_).mp (hfills.condition _ rfl)
      rw [isAlphanum_toLower]
  | @mask _ _ letters _ _ _ _ hmask hletters =>
      have hplain : IsPlain letters := (hletters.isCondition_iff.mp hmask).isPlain
      obtain ⟨hspace, hgap, -⟩ := behind_some_iff.mp hfills.operand
      refine { hfills with
        operand := behind_some_iff.mpr ⟨hspace, hgap, hplain.ne_nil, hplain.trimmed⟩
        code := ?_ }
      rintro _ ⟨⟩
      exact ⟨hplain.not_mem (.inr (.inl rfl)),
        fun hlast => hplain.not_mem (.inr (.inr rfl)) (List.mem_of_getLast? hlast)⟩

/-! ## Edits of a line -/

/-- The line is written in another way. -/
inductive LineEdit : List Char → List Char → Prop
  /-- A comment is appended, also behind another comment. -/
  | comment (line text : List Char) : LineEdit line (line ++ ';' :: text)
  | pad {left right : List Char} (line : List Char) (hleft : ∀ c ∈ left, isSpace c = true)
      (hright : ∀ c ∈ right, isSpace c = true) : LineEdit line (left ++ (line ++ right))
  | unpad {left right : List Char} (line : List Char) (hleft : ∀ c ∈ left, isSpace c = true)
      (hright : ∀ c ∈ right, isSpace c = true) : LineEdit (left ++ (line ++ right)) line
  | respell {front gap back : List Char} {written written' : WrittenInstruction}
      (hfills : written.Fills front gap back) (h : Respelled written written') :
      LineEdit (front ++ (written.text gap ++ back)) (front ++ (written'.text gap ++ back))

/-- The lines hold the same label, or instructions of which the second one is encoded to what the
first one is. -/
inductive Line.Alike : Line → Line → Prop
  | label (name : String) : Alike (.label name) (.label name)
  | instruction {written written' : WrittenInstruction}
      (h : ∀ labels i, Encodes labels written i → Encodes labels written' i) :
      Alike (.instruction written) (.instruction written')

theorem Line.Alike.refl (line : Line) : line.Alike line := by
  cases line with
  | label name => exact .label name
  | instruction written => exact .instruction fun _ _ h => h

/-- The second line can be read where the first one can, and holds what is like it. -/
structure HoldsAlike (raw raw' : List Char) : Prop where
  readable : Readable raw → Readable raw'
  line : Option.Rel Line.Alike (lineOf? raw) (lineOf? raw')

theorem holdsAlike_of_bare_eq {raw raw' : List Char} (h : bare raw = bare raw') :
    HoldsAlike raw raw' where
  readable := (readable_congr h).mp
  line := by
    rw [lineOf?_congr h]
    cases lineOf? raw' with
    | none => exact .none
    | some line => exact .some (.refl line)

theorem bare_pad {left right : List Char} (line : List Char) (hleft : ∀ c ∈ left, isSpace c = true)
    (hright : ∀ c ∈ right, isSpace c = true) : bare (left ++ (line ++ right)) = bare line := by
  rw [bare_append_left fun c hc => isBlank_of_isSpace (hleft c hc),
    bare_append_tail (isTail_of_allBlank fun c hc => isBlank_of_isSpace (hright c hc))]

theorem isTail_comment (text : List Char) : IsTail (';' :: text) :=
  @IsTail.intro [] _ allBlank_nil fun _ h => (Option.some.inj h).symm

theorem LineEdit.holdsAlike {line line' : List Char} (h : LineEdit line line') :
    HoldsAlike line line' := by
  cases h with
  | comment _ text => exact holdsAlike_of_bare_eq (bare_append_tail (isTail_comment text) line).symm
  | pad _ hleft hright => exact holdsAlike_of_bare_eq (bare_pad line hleft hright).symm
  | unpad _ hleft hright => exact holdsAlike_of_bare_eq (bare_pad line' hleft hright)
  | respell hfills hrespelled =>
      have hline' := (hrespelled.fills hfills).lineOf?_eq
      refine ⟨fun _ => .inr ⟨_, (lineOf?_eq_some_iff.mp hline').2⟩, ?_⟩
      rw [hfills.lineOf?_eq, hline']
      exact .some (.instruction fun _ _ => hrespelled.encodes)

theorem HoldsAlike.append_tail {raw raw' tail : List Char} (h : HoldsAlike raw raw')
    (htail : IsTail tail) : HoldsAlike (raw ++ tail) (raw' ++ tail) where
  readable hreadable :=
    (readable_congr (bare_append_tail htail raw')).mpr
      (h.readable ((readable_congr (bare_append_tail htail raw)).mp hreadable))
  line := by
    rw [lineOf?_congr (bare_append_tail htail raw), lineOf?_congr (bare_append_tail htail raw')]
    exact h.line

/-! ## Lines that hold what is like them -/

section Lines

variable {lines lines' : List Line}

theorem places_eq_of_alike (h : List.Forall₂ Line.Alike lines lines') (count : Nat) :
    places count lines = places count lines' := by
  induction h generalizing count with
  | nil => rfl
  | cons hfirst _ ih =>
      cases hfirst with
      | label name => exact congrArg ((name, count) :: ·) (ih count)
      | instruction => exact ih (count + 1)

theorem labelsIn_eq_of_alike (h : List.Forall₂ Line.Alike lines lines') :
    labelsIn lines = labelsIn lines' := by
  rw [← map_fst_places 0, places_eq_of_alike h, map_fst_places]

theorem forall₂_instructionsIn (h : List.Forall₂ Line.Alike lines lines') :
    List.Forall₂ (fun written written' => ∀ labels i, Encodes labels written i →
      Encodes labels written' i) (instructionsIn lines) (instructionsIn lines') := by
  induction h with
  | nil => exact .nil
  | cons hfirst _ ih =>
      cases hfirst with
      | label => exact ih
      | instruction hencodes => exact .cons hencodes ih

/-- Instructions that are encoded alike come to the same program. -/
theorem forall₂_encodes {labels : Labels} {instructions : List Instruction}
    {written written' : List WrittenInstruction}
    (h : List.Forall₂ (fun written written' => ∀ labels i, Encodes labels written i →
      Encodes labels written' i) written written')
    (hencoded : List.Forall₂ (fun written i => encodeInstruction labels written = .ok i) written
      instructions) :
    List.Forall₂ (fun written i => encodeInstruction labels written = .ok i) written'
      instructions := by
  induction h generalizing instructions with
  | nil => exact hencoded
  | cons hfirst _ ih =>
      cases hencoded with
      | cons hi hothers =>
          refine .cons ?_ (ih hothers)
          exact encodeInstruction_eq_ok_iff.mpr
            (hfirst labels _ (encodeInstruction_eq_ok_iff.mp hi))

end Lines

/-- The lines can be read where the others can, and hold what is like them. -/
structure HoldAlike (raws raws' : List (List Char)) : Prop where
  readable : (∀ raw ∈ raws, Readable raw) → ∀ raw ∈ raws', Readable raw
  lines : List.Forall₂ Line.Alike (raws.filterMap lineOf?) (raws'.filterMap lineOf?)

theorem HoldAlike.ofAssembly {raws raws' : List (List Char)} {image : Image}
    (h : HoldAlike raws raws') (hraws : ∀ raw ∈ raws, '\n' ∉ raw)
    (hraws' : ∀ raw ∈ raws', '\n' ∉ raw)
    (hassembled : Image.ofAssembly (joinLines raws) = .ok image) :
    Image.ofAssembly (joinLines raws') = .ok image := by
  rw [ofAssembly_eq_ok_iff, forall_readable_joinLines_iff hraws, linesOf_joinLines hraws]
    at hassembled
  obtain ⟨hreadable, hnodup, hcount, hencoded⟩ := hassembled
  have hinstructions := forall₂_instructionsIn h.lines
  rw [ofAssembly_eq_ok_iff, forall_readable_joinLines_iff hraws', linesOf_joinLines hraws',
    ← labelsIn_eq_of_alike h.lines, labelTable, ← places_eq_of_alike h.lines,
    ← hinstructions.length_eq]
  exact ⟨h.readable hreadable, hnodup, hcount, forall₂_encodes hinstructions hencoded⟩

/-! ## Edits of a source -/

/-- The source is laid out or spelled in another way. -/
inductive Edit (source : String) : String → Prop
  /-- An empty line, or one with a comment only, is inserted at any place. -/
  | insert {front back : List (List Char)} {line : List Char}
      (hsource : segments source = front ++ back) (hline : '\n' ∉ line) (hempty : IsTail line) :
      Edit source (joinLines (front ++ line :: back))
  | delete {front back : List (List Char)} {line : List Char}
      (hsource : segments source = front ++ line :: back) (hempty : IsTail line) :
      Edit source (joinLines (front ++ back))
  /-- A line is edited, in front of the return at its end if there is one. -/
  | change {front back : List (List Char)} {line line' ending : List Char}
      (hsource : segments source = front ++ (line ++ ending) :: back) (hline' : '\n' ∉ line')
      (hending : ending = [] ∨ ending = ['\r']) (hedit : LineEdit line line') :
      Edit source (joinLines (front ++ (line' ++ ending) :: back))

theorem bare_of_isTail {raw : List Char} (h : IsTail raw) : bare raw = [] :=
  bare_append_tail h []

theorem forall₂_alike_refl (lines : List Line) : List.Forall₂ Line.Alike lines lines :=
  List.forall₂_same.mpr fun line _ => .refl line

section Places

variable (front back : List (List Char))

theorem filterMap_lineOf?_of_isTail {line : List Char} (hempty : IsTail line) :
    (front ++ line :: back).filterMap lineOf? = (front ++ back).filterMap lineOf? := by
  have hnone : lineOf? line = none := by
    rw [lineOf?, bare_of_isTail hempty]
    rfl
  rw [List.filterMap_append, List.filterMap_append, List.filterMap_cons_none hnone]

theorem holdAlike_insert {line : List Char} (hempty : IsTail line) :
    HoldAlike (front ++ back) (front ++ line :: back) where
  readable := by
    simp only [List.forall_mem_append, List.forall_mem_cons]
    exact fun ⟨hfront, hback⟩ => ⟨hfront, .inl (bare_of_isTail hempty), hback⟩
  lines := by
    rw [filterMap_lineOf?_of_isTail front back hempty]
    exact forall₂_alike_refl _

theorem holdAlike_delete {line : List Char} (hempty : IsTail line) :
    HoldAlike (front ++ line :: back) (front ++ back) where
  readable := by
    simp only [List.forall_mem_append, List.forall_mem_cons]
    exact fun ⟨hfront, _, hback⟩ => ⟨hfront, hback⟩
  lines := by
    rw [filterMap_lineOf?_of_isTail front back hempty]
    exact forall₂_alike_refl _

theorem holdAlike_change {raw raw' : List Char} (h : HoldsAlike raw raw') :
    HoldAlike (front ++ raw :: back) (front ++ raw' :: back) where
  readable := by
    simp only [List.forall_mem_append, List.forall_mem_cons]
    exact fun ⟨hfront, hraw, hback⟩ => ⟨hfront, h.readable hraw, hback⟩
  lines := by
    have hline := h.line
    rw [List.filterMap_append, List.filterMap_append, List.filterMap_cons, List.filterMap_cons]
    refine List.rel_append (forall₂_alike_refl _) ?_
    generalize lineOf? raw = held at hline ⊢
    generalize lineOf? raw' = held' at hline ⊢
    cases hline with
    | none => exact forall₂_alike_refl _
    | some halike => exact .cons halike (forall₂_alike_refl _)

end Places

/-- The lines of a source are edited so that they hold what is like the lines before. -/
theorem Edit.exists_holdAlike {source source' : String} (h : Edit source source') :
    ∃ raws', source' = joinLines raws' ∧ (∀ raw ∈ raws', '\n' ∉ raw) ∧
      HoldAlike (segments source) raws' := by
  have hlines := @not_mem_segments source
  cases h with
  | @insert front back line hsource hline hempty =>
      rw [hsource] at hlines ⊢
      refine ⟨_, rfl, ?_, holdAlike_insert front back hempty⟩
      simp only [List.forall_mem_append, List.forall_mem_cons] at hlines ⊢
      exact ⟨hlines.1, hline, hlines.2⟩
  | @delete front back line hsource hempty =>
      rw [hsource] at hlines ⊢
      refine ⟨_, rfl, ?_, holdAlike_delete front back hempty⟩
      simp only [List.forall_mem_append, List.forall_mem_cons] at hlines ⊢
      exact ⟨hlines.1, hlines.2.2⟩
  | @change front back line line' ending hsource hline' hending hedit =>
      have htail : IsTail ending := by
        rcases hending with rfl | rfl
        · exact isTail_nil
        · exact isTail_return
      have hfeed : '\n' ∉ ending := by
        rcases hending with rfl | rfl <;> decide
      rw [hsource] at hlines ⊢
      refine ⟨_, rfl, ?_, holdAlike_change front back (hedit.holdsAlike.append_tail htail)⟩
      simp only [List.forall_mem_append, List.forall_mem_cons] at hlines ⊢
      exact ⟨hlines.1, fun hmem => (List.mem_append.mp hmem).elim hline' hfeed, hlines.2.2⟩

theorem Edit.ofAssembly {source source' : String} {image : Image} (h : Edit source source')
    (hassembled : Image.ofAssembly source = .ok image) :
    Image.ofAssembly source' = .ok image := by
  obtain ⟨raws', rfl, hlines, halike⟩ := h.exists_holdAlike
  rw [← joinLines_segments source] at hassembled
  exact halike.ofAssembly not_mem_segments hlines hassembled

/-- A source that is assembled is assembled to the same image after any number of edits of its
layout and spelling. -/
theorem ofAssembly_of_edits {source source' : String} {image : Image}
    (hedits : Relation.ReflTransGen Edit source source')
    (hassembled : Image.ofAssembly source = .ok image) :
    Image.ofAssembly source' = .ok image := by
  induction hedits with
  | refl => exact hassembled
  | tail _ hedit ih => exact hedit.ofAssembly ih

/-- The instruction `or pz` of the source below, as it fills its line. -/
theorem fills_or :
    (⟨"or".toList, none, some "pz".toList⟩ : WrittenInstruction).Fills [] [' '] [] where
  front := allBlank_nil
  mnemonic := .intro rfl (List.forall_mem_singleton.mpr rfl)
  condition := nofun
  operand := by
    refine behind_some_iff.mpr ⟨⟨' ', rfl, rfl⟩, ?_, by decide, ?_, ?_⟩
    · simp [AllBlank, isBlank]
    · rintro _ ⟨⟩
      rfl
    · rintro _ ⟨⟩
      rfl
  code := by
    rintro _ ⟨⟩
    decide
  back := isTail_nil

/-- A comment line is put in front, the letters of a mask are written in another way in front of a
return, and a comment is appended to the last line. -/
theorem ofAssembly_of_edits_outline :
    let source := "or pz\r\njmp.np 0"
    let edited := "; again\nor ZpZ\r\njmp.np 0;;"
    let image : Image := ⟨[⟨5, 0, .u8 3⟩, ⟨4, 5, .u32 0⟩]⟩
    Image.ofAssembly source = .ok image ∧ Relation.ReflTransGen Edit source edited ∧
      Image.ofAssembly edited = .ok image := by
  intro source edited image
  have hassembled : Image.ofAssembly source = .ok image := by decide +kernel
  have hletters : SameLetters "pz".toList "ZpZ".toList := by
    intro c
    change c ∈ ['p', 'z'] ↔ c ∈ ['z', 'p', 'z']
    simp
    tauto
  have hmask : IsCondition "pz".toList :=
    ⟨by decide, List.forall_mem_cons.mpr ⟨by decide, List.forall_mem_singleton.mpr (by decide)⟩⟩
  have hfirst : Edit source (joinLines ["; again".toList, "or pz\r".toList, "jmp.np 0".toList]) :=
    @Edit.insert _ [] _ _ (by decide +kernel) (by decide) (isTail_comment _)
  have hsecond : Edit (joinLines ["; again".toList, "or pz\r".toList, "jmp.np 0".toList])
      (joinLines ["; again".toList, "or ZpZ\r".toList, "jmp.np 0".toList]) :=
    @Edit.change _ ["; again".toList] ["jmp.np 0".toList] "or pz".toList "or ZpZ".toList ['\r']
      (by decide +kernel) (by decide) (.inr rfl)
      (.respell fills_or (.mask rfl (.inl rfl) hmask hletters))
  have hthird : Edit (joinLines ["; again".toList, "or ZpZ\r".toList, "jmp.np 0".toList])
      (joinLines ["; again".toList, "or ZpZ\r".toList, "jmp.np 0;;".toList]) :=
    @Edit.change _ ["; again".toList, "or ZpZ\r".toList] [] "jmp.np 0".toList
      "jmp.np 0;;".toList [] (by decide +kernel) (by decide) (.inl rfl) (.comment _ _)
  have hedits : Relation.ReflTransGen Edit source edited := by
    have hedited :
        joinLines ["; again".toList, "or ZpZ\r".toList, "jmp.np 0;;".toList] = edited := by
      decide +kernel
    rw [← hedited]
    exact .head hfirst (.head hsecond (.single hthird))
  exact ⟨hassembled, hedits, ofAssembly_of_edits hedits hassembled⟩

end TickMachine.Assembly
