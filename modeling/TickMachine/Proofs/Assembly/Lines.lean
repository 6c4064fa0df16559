import TickMachine.Proofs.Assembly.Passes
import TickMachine.Proofs.Text.Cutting
import TickMachine.Proofs.Text.Digits

/-! # How lines are spelled

A bare text is read as an instruction exactly when it is put together of a mnemonic, a condition
and an operand behind a gap; a line of a source has the bare text and around it blank characters
and a comment. So a line can be taken apart, changed in one of its parts and read again.
-/

namespace TickMachine.Assembly

open Text

variable {raw text rest name : List Char} {written : WrittenInstruction}

/-! ## Characters -/

theorem isBlank_of_isSpace {c : Char} (h : isSpace c = true) : isBlank c = true := by
  have hc : c = ' ' ∨ c = '\t' := by simpa [isSpace] using h
  rcases hc with rfl | rfl <;> decide

theorem isAlphanum_iff {c : Char} : c.isAlphanum = true ↔ c.isAlpha = true ∨ c.isDigit = true :=
  Bool.or_eq_true_iff

theorem isIdentifierStart_iff {c : Char} :
    isIdentifierStart c = true ↔ c.isAlpha = true ∨ c = '_' := by
  rw [isIdentifierStart, Bool.or_eq_true, beq_iff_eq]

theorem isIdentifierRest_iff {c : Char} :
    isIdentifierRest c = true ↔ c.isAlphanum = true ∨ c = '_' := by
  rw [isIdentifierRest, Bool.or_eq_true, beq_iff_eq]

theorem isIdentifierRest_of_isAlphanum {c : Char} (h : c.isAlphanum = true) :
    isIdentifierRest c = true :=
  isIdentifierRest_iff.mpr (.inl h)

theorem isIdentifierRest_of_start {c : Char} (h : isIdentifierStart c = true) :
    isIdentifierRest c = true := by
  rcases isIdentifierStart_iff.mp h with halpha | rfl
  · exact isIdentifierRest_of_isAlphanum (isAlphanum_iff.mpr (.inl halpha))
  · decide

theorem toLower_toLower (c : Char) : c.toLower.toLower = c.toLower := by
  apply Char.toNat_inj.mp
  simp only [toNat_toLower]
  split_ifs <;> omega

/-- Whether a character is a letter, or a digit, does not depend on its case. -/
theorem isAlpha_toLower (c : Char) : c.toLower.isAlpha = c.isAlpha := by
  rw [Bool.eq_iff_iff, isAlpha_iff, isAlpha_iff, toNat_toLower]
  split <;> omega

theorem isDigit_toLower (c : Char) : c.toLower.isDigit = c.isDigit := by
  rw [Bool.eq_iff_iff, Char.isDigit_iff_toNat, Char.isDigit_iff_toNat, toNat_toLower]
  simp only [Char.reduceToNat]
  split <;> omega

theorem isAlphanum_toLower (c : Char) : c.toLower.isAlphanum = c.isAlphanum := by
  rw [Char.isAlphanum, isAlpha_toLower, isDigit_toLower, Char.isAlphanum]

/-- Letters, digits and the underscore are apart from the characters that cut a line. -/
theorem toNat_of_isIdentifierRest {c : Char} (h : isIdentifierRest c = true) :
    (48 ≤ c.toNat ∧ c.toNat ≤ 57) ∨ (65 ≤ c.toNat ∧ c.toNat ≤ 122) := by
  rcases isIdentifierRest_iff.mp h with halphanum | rfl
  · rw [isAlphanum_iff, isAlpha_iff, Char.isDigit_iff_toNat] at halphanum
    simp only [Char.reduceToNat] at halphanum
    omega
  · decide

theorem isBlank_of_isIdentifierRest {c : Char} (h : isIdentifierRest c = true) :
    isBlank c = false := by
  have hrange := toNat_of_isIdentifierRest h
  simp only [isBlank, Bool.or_eq_false_iff, Bool.and_eq_false_iff, decide_eq_false_iff_not,
    beq_eq_false_iff_ne]
  omega

theorem isIdentifierRest_of_isSpace {c : Char} (h : isSpace c = true) :
    isIdentifierRest c = false := by
  cases hrest : isIdentifierRest c with
  | false => rfl
  | true =>
      have hblank := isBlank_of_isIdentifierRest hrest
      rw [isBlank_of_isSpace h] at hblank
      cases hblank

theorem isAlphanum_of_isSpace {c : Char} (h : isSpace c = true) : c.isAlphanum = false := by
  have hword := isIdentifierRest_of_isSpace h
  rw [isIdentifierRest, Bool.or_eq_false_iff] at hword
  exact hword.1

/-! ## Identifiers -/

/-- The word is an identifier. -/
inductive IsIdentifier : List Char → Prop
  | intro {c : Char} {cs : List Char} (hstart : isIdentifierStart c = true)
      (hrest : ∀ d ∈ cs, isIdentifierRest d = true) : IsIdentifier (c :: cs)

theorem IsIdentifier.ne_nil (h : IsIdentifier name) : name ≠ [] := by
  cases h
  exact List.cons_ne_nil _ _

theorem IsIdentifier.isIdentifierRest (h : IsIdentifier name) :
    ∀ c ∈ name, isIdentifierRest c = true := by
  cases h with
  | intro hstart hrest => exact List.forall_mem_cons.mpr ⟨isIdentifierRest_of_start hstart, hrest⟩

/-- What is found at the front of a text is the longest identifier there. -/
theorem identifier?_eq_some_iff :
    identifier? text = some (name, rest) ↔
      IsIdentifier name ∧ text = name ++ rest ∧ ∀ c ∈ rest.head?, isIdentifierRest c = false := by
  constructor
  · intro h
    cases text with
    | nil => cases h
    | cons c cs =>
        by_cases hstart : isIdentifierStart c = true
        · rw [identifier?, if_pos hstart] at h
          cases h
          refine ⟨.intro hstart fun d hd => List.all_eq_true.mp List.all_takeWhile d hd, ?_,
            head?_dropWhile_stop _ cs⟩
          rw [List.cons_append, List.takeWhile_append_dropWhile]
        · rw [identifier?, if_neg hstart] at h
          cases h
  · rintro ⟨hname, rfl, hstop⟩
    cases hname with
    | intro hstart hrest =>
        rw [List.cons_append, identifier?, if_pos hstart, takeWhile_append_stop hrest hstop,
          dropWhile_append_stop hrest hstop]

/-! ## Labels -/

/-- The text is the label, written out: its name, some space and the colon. -/
structure SpellsLabel (text : List Char) (label : String) : Prop where
  name : IsIdentifier label.toList
  parts : ∃ gap, text = label.toList ++ (gap ++ [':']) ∧ ∀ c ∈ gap, isSpace c = true

theorem SpellsLabel.getLast? {label : String} (h : SpellsLabel text label) :
    text.getLast? = some ':' := by
  obtain ⟨_, gap, rfl, _⟩ := h
  rw [← List.append_assoc, List.getLast?_concat]

/-- In front of the colon of a label its name is read, or the text is complained about. -/
theorem readLabel_cases (text : List Char) :
    (∃ label, readLabel text = .ok (.label label)) ∨
      readLabel text = .error (.invalidLabel (String.ofList (trim text))) := by
  unfold readLabel
  split
  next =>
    split
    · exact .inl ⟨_, rfl⟩
    · exact .inr rfl
  next => exact .inr rfl

/-- A text that does not end with a colon is read as an instruction or complained about. -/
theorem readInstruction_cases (text : List Char) :
    (∃ written, readInstruction text = .ok (.instruction written)) ∨
      readInstruction text = .error (.badLine (String.ofList text)) := by
  unfold readInstruction
  split
  next => exact .inr rfl
  next =>
    simp only
    split
    next => exact .inl ⟨_, rfl⟩
    next =>
      split
      · exact .inl ⟨_, rfl⟩
      · exact .inr rfl

/-- A text is read as the label that it spells. -/
theorem readLine_eq_label_iff {label : String} :
    readLine text = .ok (.label label) ↔ SpellsLabel text label := by
  constructor
  · intro h
    unfold readLine at h
    split at h
    next hlast =>
      obtain ⟨front, rfl⟩ := List.getLast?_eq_some_iff.mp hlast
      rw [List.dropLast_concat, readLabel] at h
      split at h
      next word gap hword =>
        obtain ⟨hname, rfl, _⟩ := identifier?_eq_some_iff.mp hword
        split at h
        next hgap =>
          cases h
          refine ⟨?_, gap, ?_, List.all_eq_true.mp hgap⟩
          · rwa [String.toList_ofList]
          · rw [String.toList_ofList, List.append_assoc]
        next => cases h
      next => cases h
    next =>
      rcases readInstruction_cases text with ⟨written, hread⟩ | hread
      · rw [hread] at h
        cases h
      · rw [hread] at h
        cases h
  · intro h
    rw [readLine, if_pos h.getLast?]
    obtain ⟨hname, gap, rfl, hgap⟩ := h
    have hword : identifier? (label.toList ++ gap) = some (label.toList, gap) := by
      refine identifier?_eq_some_iff.mpr ⟨hname, rfl, fun c hc => ?_⟩
      exact isIdentifierRest_of_isSpace (hgap c (List.mem_of_mem_head? hc))
    rw [← List.append_assoc, List.dropLast_concat, readLabel, hword]
    simp only [List.all_eq_true.mpr hgap, if_true, String.ofList_toList]

/-! ## Instructions -/

/-- A condition with the point in front of it. -/
def conditionText : Option (List Char) → List Char
  | none => []
  | some letters => '.' :: letters

/-- What stands behind mnemonic and condition: nothing, or an operand and a gap in front of it. The
gap begins with a space, other blank characters may follow. -/
inductive Behind : List Char → Option (List Char) → Prop
  | nothing : Behind [] none
  | operand {gap operand : List Char} (hspace : ∃ c ∈ gap.head?, isSpace c = true)
      (hgap : AllBlank gap) (hne : operand ≠ []) (htrimmed : Trimmed operand) :
      Behind (gap ++ operand) (some operand)

/-- The text is the instruction, written out. -/
structure Spells (text : List Char) (written : WrittenInstruction) : Prop where
  mnemonic : IsIdentifier written.mnemonic
  condition : ∀ letters ∈ written.condition, ∀ c ∈ letters, c.isAlphanum = true
  parts : ∃ rest, text = written.mnemonic ++ (conditionText written.condition ++ rest) ∧
    Behind rest written.operand

theorem splitCondition_eq (cs : List Char) :
    cs = conditionText (splitCondition cs).1 ++ (splitCondition cs).2 ∧
      ∀ letters ∈ (splitCondition cs).1, ∀ c ∈ letters, c.isAlphanum = true := by
  unfold splitCondition
  split
  next cs =>
    refine ⟨congrArg ('.' :: ·) List.takeWhile_append_dropWhile.symm, ?_⟩
    rintro _ ⟨⟩ c hc
    exact List.all_eq_true.mp List.all_takeWhile c hc
  next => exact ⟨rfl, fun _ h => nomatch h⟩

theorem Behind.head {operand : Option (List Char)} (h : Behind rest operand) :
    ∀ c ∈ rest.head?, isSpace c = true := by
  cases h with
  | nothing => exact fun _ h => nomatch h
  | operand hspace =>
      obtain ⟨c, hc, hspace⟩ := hspace
      intro d hd
      rw [List.head?_append, Option.mem_def.mp hc] at hd
      cases hd
      exact hspace

theorem splitCondition_append {condition : Option (List Char)}
    (hcondition : ∀ letters ∈ condition, ∀ c ∈ letters, c.isAlphanum = true)
    (hrest : ∀ c ∈ rest.head?, isSpace c = true) :
    splitCondition (conditionText condition ++ rest) = (condition, rest) := by
  cases condition with
  | none =>
      cases rest with
      | nil => rfl
      | cons c cs =>
          have hspace : isSpace c = true := hrest c rfl
          have hpoint : c ≠ '.' := by
            rintro rfl
            cases hspace
          simp only [conditionText, List.nil_append]
          unfold splitCondition
          split
          next heq => exact absurd (List.cons.inj heq).1 hpoint
          next => rfl
  | some letters =>
      have hletters : ∀ c ∈ letters, c.isAlphanum = true := hcondition letters rfl
      have hstop : ∀ c ∈ rest.head?, c.isAlphanum = false := by
        exact fun c hc => isAlphanum_of_isSpace (hrest c hc)
      simp only [conditionText, List.cons_append, splitCondition,
        takeWhile_append_stop hletters hstop, dropWhile_append_stop hletters hstop]

theorem trim_dropWhile_isSpace (cs : List Char) : trim (cs.dropWhile isSpace) = trim cs := by
  have hleft : trimLeft (cs.dropWhile isSpace) = trimLeft cs := by
    induction cs with
    | nil => rfl
    | cons c cs ih =>
        by_cases hspace : isSpace c = true
        · have hblank : isBlank c = true := isBlank_of_isSpace hspace
          rw [List.dropWhile_cons_of_pos hspace, ih]
          simp [trimLeft, hblank]
        · rw [List.dropWhile_cons_of_neg hspace]
  rw [trim, trim, hleft]

/-- What is read behind a mnemonic and a condition that end with a space. -/
theorem behind_trim {c : Char} {cs : List Char} (hspace : isSpace c = true)
    (hlast : ∀ d ∈ (c :: cs).getLast?, isBlank d = false) :
    Behind (c :: cs) (some (trim ((c :: cs).dropWhile isSpace))) := by
  rw [trim_dropWhile_isSpace, trim_eq_trimLeft hlast]
  obtain ⟨gap, hcs, hgap⟩ := exists_trimLeft (c :: cs)
  have hhead := trimLeft_head (c :: cs)
  generalize trimLeft (c :: cs) = operand at hcs hhead
  rw [hcs] at hlast ⊢
  refine .operand ⟨c, ?_, hspace⟩ hgap ?_ ⟨hhead, ?_⟩
  · cases gap with
    | nil =>
        subst hcs
        have hblank := hhead c rfl
        rw [isBlank_of_isSpace hspace] at hblank
        cases hblank
    | cons d gap => exact congrArg some (List.cons.inj hcs).1.symm
  · rintro rfl
    rw [List.append_nil] at hcs hlast
    subst hcs
    have hmem := List.getLast_mem (List.cons_ne_nil c cs)
    have hblank := hlast _ (List.getLast?_eq_some_getLast (List.cons_ne_nil c cs))
    rw [hgap _ hmem] at hblank
    cases hblank
  · exact fun d hd => hlast d (List.mem_getLast?_append_of_mem_getLast? hd)

theorem readInstruction_eq_ok (htext : Trimmed text) {line : Line}
    (h : readInstruction text = .ok line) :
    ∃ written, line = .instruction written ∧ Spells text written := by
  unfold readInstruction at h
  split at h
  next => cases h
  next mnemonic rest hmnemonic =>
    obtain ⟨hidentifier, rfl, _⟩ := identifier?_eq_some_iff.mp hmnemonic
    obtain ⟨hrest, hcondition⟩ := splitCondition_eq rest
    simp only at h
    split at h
    next hnil =>
      cases h
      rw [hnil] at hrest
      exact ⟨_, rfl, hidentifier, hcondition, [], by rw [← hrest], .nothing⟩
    next c cs hcons =>
      split at h
      next hspace =>
        cases h
        rw [hcons] at hrest
        refine ⟨_, rfl, hidentifier, hcondition, c :: cs, by rw [← hrest], ?_⟩
        rw [hcons]
        apply behind_trim hspace
        intro d hd
        apply htext.last
        rw [hrest]
        exact List.mem_getLast?_append_of_mem_getLast?
          (List.mem_getLast?_append_of_mem_getLast? hd)
      next => cases h

theorem readInstruction_of_spells (h : Spells text written) :
    readInstruction text = .ok (.instruction written) := by
  obtain ⟨hmnemonic, hcondition, rest, rfl, hrest⟩ := h
  have hsplit := splitCondition_append hcondition hrest.head
  have hidentifier : identifier? (written.mnemonic ++ (conditionText written.condition ++ rest)) =
      some (written.mnemonic, conditionText written.condition ++ rest) := by
    apply identifier?_eq_some_iff.mpr ⟨hmnemonic, rfl, ?_⟩
    intro c hc
    cases hcond : written.condition with
    | none =>
        rw [hcond] at hc
        exact isIdentifierRest_of_isSpace (hrest.head c hc)
    | some letters =>
        rw [hcond] at hc
        cases hc
        decide
  rw [readInstruction, hidentifier]
  simp only [hsplit]
  obtain ⟨mnemonic, condition, operand⟩ := written
  cases hrest with
  | nothing => rfl
  | @operand gap operand hspace hgap hne htrimmed =>
      obtain ⟨c, hc, hspace⟩ := hspace
      obtain ⟨gap, rfl⟩ := List.head?_eq_some_iff.mp hc
      have htrim : trim (c :: gap ++ operand) = operand :=
        trim_eq_iff.mpr ⟨c :: gap, [], by rw [List.append_nil], hgap, allBlank_nil, htrimmed⟩
      rw [← trim_dropWhile_isSpace] at htrim
      simp only [List.cons_append] at htrim ⊢
      rw [if_pos hspace, htrim]

/-- A trimmed text is read as the instruction that it spells. -/
theorem readLine_eq_instruction_iff (htext : Trimmed text) :
    readLine text = .ok (.instruction written) ↔
      text.getLast? ≠ some ':' ∧ Spells text written := by
  unfold readLine
  split
  next hcolon =>
    constructor
    · intro h
      unfold readLabel at h
      split at h
      · split at h <;> cases h
      · cases h
    · rintro ⟨hlast, _⟩
      exact absurd hcolon hlast
  next hlast =>
    constructor
    · intro h
      obtain ⟨_, heq, hspells⟩ := readInstruction_eq_ok htext h
      cases heq
      exact ⟨hlast, hspells⟩
    · rintro ⟨_, hspells⟩
      exact readInstruction_of_spells hspells

/-! ## Texts that spell an instruction -/

/-- The word is written with letters, digits, underscores and signs, as numbers, registers,
condition bits and labels are. -/
structure IsPlain (word : List Char) : Prop where
  ne_nil : word ≠ []
  chars : ∀ c ∈ word, isIdentifierRest c = true ∨ c = '-'

theorem IsPlain.isBlank {word : List Char} (h : IsPlain word) :
    ∀ c ∈ word, isBlank c = false := by
  intro c hc
  rcases h.chars c hc with hc | rfl
  · exact isBlank_of_isIdentifierRest hc
  · decide

theorem IsPlain.trimmed {word : List Char} (h : IsPlain word) : Trimmed word where
  head c hc := h.isBlank c (List.mem_of_mem_head? hc)
  last c hc := h.isBlank c (List.mem_of_getLast? hc)

/-- The characters that cut lines are not in a plain word. -/
theorem IsPlain.not_mem {word : List Char} (h : IsPlain word) {c : Char}
    (hc : c = '\n' ∨ c = ';' ∨ c = ':') : c ∉ word := by
  intro hmem
  rcases h.chars c hmem with hword | rfl
  · rcases hc with rfl | rfl | rfl <;> cases hword
  · rcases hc with hc | hc | hc <;> cases hc

/-- The last character comes from the operand, or else it is no blank and no colon. -/
theorem Spells.getLast? (h : Spells text written) :
    ∀ c ∈ text.getLast?, (∃ operand ∈ written.operand, c ∈ operand.getLast?) ∨
      (isIdentifierRest c = true ∨ c = '.') := by
  obtain ⟨hmnemonic, hcondition, rest, rfl, hrest⟩ := h
  intro c hc
  cases hoperand : written.operand with
  | none =>
      rw [hoperand] at hrest
      cases hrest
      rw [List.append_nil] at hc
      right
      rcases List.mem_append.mp (List.mem_of_getLast? hc) with hmem | hmem
      · exact .inl (hmnemonic.isIdentifierRest c hmem)
      · cases hletters : written.condition with
        | none =>
            rw [hletters] at hmem
            cases hmem
        | some letters =>
            rw [hletters] at hmem
            rcases List.mem_cons.mp hmem with rfl | hmem
            · exact .inr rfl
            · exact .inl (isIdentifierRest_of_isAlphanum (hcondition letters hletters c hmem))
  | some operand =>
      rw [hoperand] at hrest
      cases hrest with
      | @operand gap _ _ _ hne _ =>
          rw [← List.append_assoc, ← List.append_assoc, List.getLast?_append_of_ne_nil _ hne] at hc
          exact .inl ⟨operand, rfl, hc⟩

theorem Spells.trimmed (h : Spells text written) : Trimmed text where
  head := by
    obtain ⟨hmnemonic, _, rest, rfl, _⟩ := h
    intro c hc
    obtain ⟨d, cs, hcs⟩ := List.exists_cons_of_ne_nil hmnemonic.ne_nil
    have hd : isIdentifierRest d = true :=
      hmnemonic.isIdentifierRest d (hcs ▸ List.mem_cons_self)
    rw [hcs] at hc
    cases hc
    exact isBlank_of_isIdentifierRest hd
  last := by
    intro c hc
    rcases h.getLast? c hc with ⟨operand, hoperand, hlast⟩ | hword | rfl
    · obtain ⟨_, _, rest, _, hrest⟩ := h
      rw [Option.mem_def.mp hoperand] at hrest
      cases hrest with
      | operand _ _ _ htrimmed => exact htrimmed.last c hlast
    · exact isBlank_of_isIdentifierRest hword
    · decide

/-- What spells an instruction is read as it, unless the operand ends as a label does. -/
theorem Spells.readLine (h : Spells text written)
    (hcolon : ∀ operand ∈ written.operand, operand.getLast? ≠ some ':') :
    readLine text = .ok (.instruction written) := by
  refine (readLine_eq_instruction_iff h.trimmed).mpr ⟨fun hlast => ?_, h⟩
  rcases h.getLast? ':' hlast with ⟨operand, hoperand, hend⟩ | hword | hpoint
  · exact hcolon operand hoperand hend
  · cases hword
  · cases hpoint

theorem Spells.ne_nil (h : Spells text written) : text ≠ [] := by
  obtain ⟨hmnemonic, _, rest, rfl, _⟩ := h
  exact List.append_ne_nil_of_left_ne_nil hmnemonic.ne_nil _

/-! ## Lines of a source -/

/-- What may stand behind the text of a line: blank characters and then a comment. -/
inductive IsTail : List Char → Prop
  | intro {blanks comment : List Char} (hblanks : AllBlank blanks)
      (hcomment : ∀ c ∈ comment.head?, c = ';') : IsTail (blanks ++ comment)

theorem isTail_nil : IsTail [] :=
  @IsTail.intro [] [] allBlank_nil nofun

theorem isTail_of_allBlank {blanks : List Char} (h : AllBlank blanks) : IsTail blanks := by
  rw [← List.append_nil blanks]
  exact .intro h nofun

theorem isTail_return : IsTail ['\r'] :=
  isTail_of_allBlank (by simp [AllBlank, isBlank])

theorem IsTail.append {front back : List Char} (hfront : IsTail front) (hback : IsTail back) :
    IsTail (front ++ back) := by
  obtain @⟨blanks, comment, hblanks, hcomment⟩ := hfront
  cases comment with
  | nil =>
      obtain @⟨blanks', comment, hblanks', hcomment⟩ := hback
      rw [List.append_nil, ← List.append_assoc]
      exact .intro (hblanks.append hblanks') hcomment
  | cons c comment =>
      rw [List.append_assoc]
      exact .intro hblanks hcomment

/-- What stands in front of the comment. -/
theorem takeWhile_code {front blanks comment : List Char} (hfront : AllBlank front)
    (hsemicolon : ';' ∉ text) (hblanks : AllBlank blanks)
    (hcomment : ∀ c ∈ comment.head?, c = ';') :
    (front ++ (text ++ (blanks ++ comment))).takeWhile (· ≠ ';') = front ++ (text ++ blanks) := by
  have hblank : ∀ c, isBlank c = true → c ≠ ';' := by
    rintro c hc rfl
    cases hc
  rw [← List.append_assoc text, ← List.append_assoc front]
  apply takeWhile_append_stop
  · intro c hc
    have hc : c ∈ front ∨ c ∈ text ∨ c ∈ blanks := by simpa using hc
    rw [decide_eq_true_eq]
    rcases hc with hc | hc | hc
    · exact hblank c (hfront c hc)
    · rintro rfl
      exact hsemicolon hc
    · exact hblank c (hblanks c hc)
  · intro c hc
    simpa using hcomment c hc

/-- The text of a line is what stands between blank characters in front of the comment. -/
theorem bare_eq_iff :
    bare raw = text ↔
      ∃ front back, raw = front ++ (text ++ back) ∧ AllBlank front ∧ IsTail back ∧
        Trimmed text ∧ ';' ∉ text := by
  constructor
  · intro h
    have hraw : raw.takeWhile (· ≠ ';') ++ raw.dropWhile (· ≠ ';') = raw :=
      List.takeWhile_append_dropWhile
    have hcode : ∀ c ∈ raw.takeWhile (· ≠ ';'), c ≠ ';' := by
      intro c hc
      simpa using List.all_eq_true.mp List.all_takeWhile c hc
    have hcomment := head?_dropWhile_stop (· ≠ ';') raw
    obtain ⟨front, blanks, htake, hfront, hblanks, htext⟩ := trim_eq_iff.mp h
    rw [htake] at hraw hcode
    refine ⟨front, blanks ++ raw.dropWhile (· ≠ ';'), ?_, hfront, .intro hblanks ?_, htext, ?_⟩
    · simpa only [List.append_assoc] using hraw.symm
    · intro c hc
      simpa using hcomment c hc
    · exact fun hmem => hcode ';' (by simp [hmem]) rfl
  · rintro ⟨front, back, rfl, hfront, ⟨hblanks, hcomment⟩, htext, hsemicolon⟩
    exact (congrArg trim (takeWhile_code hfront hsemicolon hblanks hcomment)).trans
      (trim_eq_iff.mpr ⟨front, _, rfl, hfront, hblanks, htext⟩)

theorem trimmed_bare (raw : List Char) : Trimmed (bare raw) := by
  obtain ⟨_, _, _, _, _, htext, _⟩ := bare_eq_iff.mp (rfl : bare raw = bare raw)
  exact htext

/-- A line holds the label that it spells. -/
theorem lineOf?_eq_label_iff {label : String} :
    lineOf? raw = some (.label label) ↔ SpellsLabel (bare raw) label := by
  rw [lineOf?_eq_some_iff, readLine_eq_label_iff]
  refine ⟨fun h => h.2, fun h => ⟨fun hnil => ?_, h⟩⟩
  have hlast := h.getLast?
  rw [hnil] at hlast
  cases hlast

theorem isIdentifier_of_mem_linesOf {source label : String} (h : .label label ∈ linesOf source) :
    IsIdentifier label.toList := by
  obtain ⟨raw, _, hline⟩ := List.mem_filterMap.mp h
  exact (lineOf?_eq_label_iff.mp hline).name

/-- A line that does not end with a colon holds the instruction that it spells. -/
theorem lineOf?_eq_instruction_iff :
    lineOf? raw = some (.instruction written) ↔
      (bare raw).getLast? ≠ some ':' ∧ Spells (bare raw) written := by
  rw [lineOf?_eq_some_iff, readLine_eq_instruction_iff (trimmed_bare raw)]
  exact ⟨fun h => h.2, fun h => ⟨h.2.ne_nil, h⟩⟩

/-- Blank characters and a comment behind a line do not matter. -/
theorem bare_append_tail {back : List Char} (hback : IsTail back) (raw : List Char) :
    bare (raw ++ back) = bare raw := by
  obtain ⟨front, tail, hraw, hfront, htail, htext⟩ := bare_eq_iff.mp (rfl : bare raw = _)
  refine bare_eq_iff.mpr ⟨front, tail ++ back, ?_, hfront, htail.append hback, htext⟩
  rw [← List.append_assoc _ tail, ← List.append_assoc front, ← hraw]

/-- Blank characters in front of a line do not matter. -/
theorem bare_append_left {left : List Char} (hleft : AllBlank left) (raw : List Char) :
    bare (left ++ raw) = bare raw := by
  obtain ⟨front, tail, hraw, hfront, htail, htext⟩ := bare_eq_iff.mp (rfl : bare raw = _)
  refine bare_eq_iff.mpr ⟨left ++ front, tail, ?_, hleft.append hfront, htail, htext⟩
  rw [List.append_assoc, ← hraw]

/-- A return at the end of a line does not matter. -/
theorem bare_of_isLineOf {line piece : List Char} (h : IsLineOf '\r' line piece) :
    bare piece = bare line := by
  rcases h with rfl | rfl
  · rfl
  · exact bare_append_tail isTail_return line

theorem lineOf?_congr {raw' : List Char} (h : bare raw = bare raw') :
    lineOf? raw = lineOf? raw' := by
  rw [lineOf?, h, lineOf?]

theorem readable_congr {raw' : List Char} (h : bare raw = bare raw') :
    Readable raw ↔ Readable raw' := by
  rw [Readable, h, Readable]

/-! ## Sources put together of lines -/

/-- The source with the given lines. -/
def joinLines (raws : List (List Char)) : String :=
  String.ofList (['\n'].intercalate raws)

/-- Lines hold the same as the segments between the feeds. -/
theorem filterMap_lineOf?_eq {raws pieces : List (List Char)}
    (h : List.Forall₂ (IsLineOf '\r') raws pieces) :
    raws.filterMap lineOf? = pieces.filterMap lineOf? := by
  induction h with
  | nil => rfl
  | cons hfirst _ ih =>
      rw [List.filterMap_cons, List.filterMap_cons, ih, lineOf?_congr (bare_of_isLineOf hfirst)]

theorem forall_readable_iff {raws pieces : List (List Char)}
    (h : List.Forall₂ (IsLineOf '\r') raws pieces) :
    (∀ raw ∈ raws, Readable raw) ↔ ∀ piece ∈ pieces, Readable piece := by
  induction h with
  | nil => exact Iff.rfl
  | cons hfirst _ ih =>
      rw [List.forall_mem_cons, List.forall_mem_cons, ih, readable_congr (bare_of_isLineOf hfirst)]

theorem filterMap_lineOf?_textLines (cs : List Char) :
    (textLines cs).filterMap lineOf? = (cs.splitOn '\n').filterMap lineOf? := by
  obtain ⟨pad, hpad, hlines⟩ := lines_splitOn '\n' '\r' cs
  have hnone : pad.filterMap lineOf? = [] := by
    rcases hpad with rfl | rfl <;> rfl
  rw [← filterMap_lineOf?_eq hlines, List.filterMap_append, hnone, List.append_nil, textLines]

theorem forall_readable_textLines_iff (cs : List Char) :
    (∀ raw ∈ textLines cs, Readable raw) ↔ ∀ raw ∈ cs.splitOn '\n', Readable raw := by
  obtain ⟨pad, hpad, hlines⟩ := lines_splitOn '\n' '\r' cs
  have hnone : ∀ raw ∈ pad, Readable raw := by
    intro raw hraw
    rcases hpad with rfl | rfl
    · cases hraw
    · rw [List.mem_singleton.mp hraw]
      exact .inl rfl
  rw [← forall_readable_iff hlines, List.forall_mem_append, textLines]
  exact ⟨fun h => ⟨h, hnone⟩, fun h => h.1⟩

theorem linesOf_joinLines {raws : List (List Char)} (hraws : ∀ raw ∈ raws, '\n' ∉ raw) :
    linesOf (joinLines raws) = raws.filterMap lineOf? := by
  rw [linesOf, joinLines, String.toList_ofList, filterMap_lineOf?_textLines]
  by_cases hnil : raws = []
  · -- a source without lines still has one empty segment
    subst hnil
    rfl
  · rw [List.splitOn_intercalate '\n' hraws hnil]

theorem forall_readable_joinLines_iff {raws : List (List Char)}
    (hraws : ∀ raw ∈ raws, '\n' ∉ raw) :
    (∀ raw ∈ textLines (joinLines raws).toList, Readable raw) ↔ ∀ raw ∈ raws, Readable raw := by
  rw [joinLines, String.toList_ofList, forall_readable_textLines_iff]
  by_cases hnil : raws = []
  · subst hnil
    have hempty : ∀ raw ∈ ([] : List Char).splitOn '\n', Readable raw := by
      intro raw hraw
      rw [List.mem_singleton.mp hraw]
      exact .inl rfl
    exact iff_of_true hempty nofun
  · rw [List.splitOn_intercalate '\n' hraws hnil]

theorem forall_readable_joinLines {raws : List (List Char)} (hraws : ∀ raw ∈ raws, '\n' ∉ raw)
    (hreadable : ∀ raw ∈ raws, Readable raw) :
    ∀ raw ∈ textLines (joinLines raws).toList, Readable raw :=
  (forall_readable_joinLines_iff hraws).mpr hreadable

/-- The segments of a source between its feeds. -/
def segments (source : String) : List (List Char) :=
  source.toList.splitOn '\n'

theorem joinLines_segments (source : String) : joinLines (segments source) = source := by
  rw [joinLines, segments, List.intercalate_splitOn, String.ofList_toList]

theorem not_mem_segments {source : String} : ∀ raw ∈ segments source, '\n' ∉ raw :=
  fun _ => not_mem_of_mem_splitOn

end TickMachine.Assembly
