import TickMachine.Proofs.Assembly.Encoding
import TickMachine.Proofs.Assembly.Numerals
import TickMachine.Proofs.Binary.Denoted

/-! # What can be wrong with a line

The first pass objects to a line that spells nothing, to a label that stands on an earlier line
already, and to one instruction more than can be counted. The second pass looks at the instructions
with known mnemonics: their condition has to be one, and they need the operand that their operation
works with. What is objected to is said here from the spelling alone, and the passes are shown to
object to exactly this.
-/

namespace TickMachine.Assembly

open Text

variable {front : List (List Char)} {raw text : List Char} {lines : List Line}
  {written : WrittenInstruction} {op : Opcode} {cause : AssemblyCause}

/-! ## Lines that cannot be read -/

/-- What the first pass objects to in a line behind others. -/
inductive Misread (front : List (List Char)) (raw : List Char) : AssemblyCause → Prop
  | instruction (hne : bare raw ≠ []) (hlast : (bare raw).getLast? ≠ some ':')
      (hspells : ∀ written, ¬ Spells (bare raw) written) :
      Misread front raw (.badLine (String.ofList (bare raw)))
  | label (hlast : (bare raw).getLast? = some ':')
      (hspells : ∀ name, ¬ SpellsLabel (bare raw) name) :
      Misread front raw (.invalidLabel (String.ofList (trim (bare raw).dropLast)))
  | duplicate {name : String} {earlier : List Char} (hspells : SpellsLabel (bare raw) name)
      (hearlier : earlier ∈ front) (hsame : SpellsLabel (bare earlier) name) :
      Misread front raw (.duplicateLabel name)

/-- A line that is objected to is not empty. -/
theorem Misread.ne_nil (h : Misread front raw cause) : bare raw ≠ [] := by
  have hcolon (hlast : (bare raw).getLast? = some ':') : bare raw ≠ [] := by
    intro hnil
    rw [hnil] at hlast
    cases hlast
  cases h with
  | instruction hne => exact hne
  | label hlast => exact hcolon hlast
  | duplicate hspells => exact hcolon hspells.getLast?

theorem readLine_of_not_spells (hlast : (bare raw).getLast? ≠ some ':')
    (hspells : ∀ written, ¬ Spells (bare raw) written) :
    readLine (bare raw) = .error (.badLine (String.ofList (bare raw))) := by
  rcases readInstruction_cases (bare raw) with ⟨written, hread⟩ | hread
  · have hok : readLine (bare raw) = .ok (.instruction written) := by
      rw [readLine, if_neg hlast, hread]
    exact absurd ((readLine_eq_instruction_iff (trimmed_bare raw)).mp hok).2 (hspells written)
  · rw [readLine, if_neg hlast, hread]

theorem readLine_of_not_spellsLabel (hlast : text.getLast? = some ':')
    (hspells : ∀ name, ¬ SpellsLabel text name) :
    readLine text = .error (.invalidLabel (String.ofList (trim text.dropLast))) := by
  rcases readLabel_cases text.dropLast with ⟨name, hread⟩ | hread
  · have hok : readLine text = .ok (.label name) := by
      rw [readLine, if_pos hlast, hread]
    exact absurd (readLine_eq_label_iff.mp hok) (hspells name)
  · rw [readLine, if_pos hlast, hread]

/-- A text that cannot be read spells nothing. -/
theorem misread_of_readLine (hne : bare raw ≠ []) (h : readLine (bare raw) = .error cause) :
    Misread front raw cause := by
  by_cases hlast : (bare raw).getLast? = some ':'
  · have hspells (name : String) : ¬ SpellsLabel (bare raw) name := by
      intro hspells
      rw [readLine_eq_label_iff.mpr hspells] at h
      cases h
    rw [readLine_of_not_spellsLabel hlast hspells] at h
    cases h
    exact .label hlast hspells
  · have hspells (written : WrittenInstruction) : ¬ Spells (bare raw) written := by
      intro hspells
      rw [(readLine_eq_instruction_iff (trimmed_bare raw)).mpr ⟨hlast, hspells⟩] at h
      cases h
    rw [readLine_of_not_spells hlast hspells] at h
    cases h
    exact .instruction hne hlast hspells

/-- The line is misread, or it holds one instruction more than can be counted in 32 bits. -/
inductive Refused (front : List (List Char)) (raw : List Char) : AssemblyCause → Prop
  | misread {cause : AssemblyCause} (h : Misread front raw cause) : Refused front raw cause
  | uncounted {written : WrittenInstruction} (hlast : (bare raw).getLast? ≠ some ':')
      (hspells : Spells (bare raw) written)
      (hcount : UInt32.size ≤ (instructionsIn (front.filterMap lineOf?)).length + 1) :
      Refused front raw .tooManyInstructions

theorem Refused.ne_nil (h : Refused front raw cause) : bare raw ≠ [] := by
  cases h with
  | misread h => exact h.ne_nil
  | uncounted _ hspells => exact hspells.ne_nil

/-- What a line is refused for can be told from what it reads as. -/
theorem refused_iff_of_unreadable {found : AssemblyCause} (hne : bare raw ≠ [])
    (hread : readLine (bare raw) = .error found) : Refused front raw cause ↔ cause = found := by
  have hnone {line : Line} : readLine (bare raw) ≠ .ok line := by
    rw [hread]
    exact nofun
  constructor
  · rintro (hmisread | ⟨hlast, hspells⟩)
    · cases hmisread with
      | instruction _ hlast hspells =>
          exact Except.error.inj ((readLine_of_not_spells hlast hspells).symm.trans hread)
      | label hlast hspells =>
          exact Except.error.inj ((readLine_of_not_spellsLabel hlast hspells).symm.trans hread)
      | duplicate hspells => exact absurd (readLine_eq_label_iff.mpr hspells) hnone
    · have hok := (readLine_eq_instruction_iff (trimmed_bare raw)).mpr ⟨hlast, hspells⟩
      exact absurd hok hnone
  · rintro rfl
    exact .misread (misread_of_readLine hne hread)

theorem refused_iff_of_instruction (hread : readLine (bare raw) = .ok (.instruction written)) :
    Refused front raw cause ↔
      UInt32.size ≤ (instructionsIn (front.filterMap lineOf?)).length + 1 ∧
        cause = .tooManyInstructions := by
  obtain ⟨hlast, hspells⟩ := (readLine_eq_instruction_iff (trimmed_bare raw)).mp hread
  constructor
  · rintro (hmisread | ⟨-, -, hcount⟩)
    · cases hmisread with
      | instruction _ _ hno => exact absurd hspells (hno written)
      | label hcolon => exact absurd hcolon hlast
      | duplicate hlabel => exact absurd hlabel.getLast? hlast
    · exact ⟨hcount, rfl⟩
  · rintro ⟨hcount, rfl⟩
    exact .uncounted hlast hspells hcount

theorem refused_iff_of_label {name : String} (hread : readLine (bare raw) = .ok (.label name)) :
    Refused front raw cause ↔
      (∃ earlier ∈ front, SpellsLabel (bare earlier) name) ∧ cause = .duplicateLabel name := by
  have hspells := readLine_eq_label_iff.mp hread
  constructor
  · rintro (hmisread | ⟨hlast⟩)
    · cases hmisread with
      | instruction _ hlast => exact absurd hspells.getLast? hlast
      | label _ hno => exact absurd hspells (hno name)
      | duplicate hother hearlier hsame =>
          cases (readLine_eq_label_iff.mpr hother).symm.trans hread
          exact ⟨⟨_, hearlier, hsame⟩, rfl⟩
    · exact absurd hspells.getLast? hlast
  · rintro ⟨⟨earlier, hearlier, hsame⟩, rfl⟩
    exact .misread (.duplicate hspells hearlier hsame)

/-- An error is told with the number of the line. -/
theorem mapError_eq_error_iff {α : Type} {x : Except AssemblyCause α} {number : UInt32}
    {e : AssemblyError} :
    x.mapError (⟨·, number⟩) = .error e ↔ x = .error e.cause ∧ e.line = number := by
  obtain ⟨cause, line⟩ := e
  cases x with
  | ok a => simp [Except.mapError]
  | error found => simp [Except.mapError, eq_comm]

theorem addLabel_eq_error_iff {draft : Draft} {name : String} :
    draft.addLabel name = .error cause ↔
      draft.labels.lookup name ≠ none ∧ cause = .duplicateLabel name := by
  rw [Draft.addLabel]
  cases draft.labels.lookup name with
  | none => simp
  | some place => simp [eq_comm]

theorem addInstruction_eq_error_iff {draft : Draft} {number : UInt32} :
    draft.addInstruction number written = .error cause ↔
      UInt32.size ≤ draft.written.length + 1 ∧ cause = .tooManyInstructions := by
  rw [Draft.addInstruction]
  split
  next hcount => simp [hcount]
  next hcount => simp [Nat.le_of_not_lt hcount, eq_comm]

/-- The first pass, with the labels of the lines in front and their instructions counted, objects to
a line exactly for these reasons. -/
theorem addLine_eq_error_iff {draft : Draft} {number : UInt32} {e : AssemblyError}
    (hlabels : ∀ name, draft.labels.lookup name = none ↔
      ∀ earlier ∈ front, ¬ SpellsLabel (bare earlier) name)
    (hcount : draft.written.length = (instructionsIn (front.filterMap lineOf?)).length) :
    draft.addLine (number, raw) = .error e ↔ Refused front raw e.cause ∧ e.line = number := by
  by_cases hne : bare raw = []
  · rw [Draft.addLine_empty hne]
    exact iff_of_false nofun fun h => h.1.ne_nil hne
  cases hread : readLine (bare raw) with
  | error found =>
      obtain ⟨cause, line⟩ := e
      rw [Draft.addLine_unreadable hne hread, refused_iff_of_unreadable hne hread]
      simp [eq_comm]
  | ok line =>
      cases line with
      | instruction written =>
          rw [Draft.addLine_instruction hne hread, mapError_eq_error_iff,
            addInstruction_eq_error_iff, refused_iff_of_instruction hread, hcount]
      | label name =>
          have hstands : draft.labels.lookup name ≠ none ↔
              ∃ earlier ∈ front, SpellsLabel (bare earlier) name := by
            rw [ne_eq, hlabels]
            push Not
            exact Iff.rfl
          rw [Draft.addLine_label hne hread, mapError_eq_error_iff, addLabel_eq_error_iff,
            refused_iff_of_label hread, hstands]

/-! ## Conditions -/

/-- The letters are a condition: at least one, each for positive, zero or negative. -/
def IsCondition (letters : List Char) : Prop :=
  letters ≠ [] ∧ ∀ c ∈ letters, c.toLower ∈ ['p', 'z', 'n']

theorem ofLetter?_isSome_iff {c : Char} :
    (Condition.ofLetter? c).isSome ↔ c.toLower ∈ ['p', 'z', 'n'] := by
  unfold Condition.ofLetter?
  split
  next heq => simp [heq]
  next heq => simp [heq]
  next heq => simp [heq]
  next hp hz hn => simpa using ⟨hp, hz, hn⟩

theorem mapM_of_forall_isSome {α β : Type} {f : α → Option β} {as : List α}
    (h : ∀ a ∈ as, (f a).isSome) : as.mapM f = some (as.filterMap f) := by
  induction as with
  | nil => rfl
  | cons a as ih =>
      obtain ⟨ha, has⟩ := List.forall_mem_cons.mp h
      obtain ⟨b, hb⟩ := Option.isSome_iff_exists.mp ha
      rw [List.mapM_cons, ih has, hb, List.filterMap_cons_some hb]
      rfl

theorem ofLetters?_eq_none_iff {letters : List Char} :
    Condition.ofLetters? letters = none ↔ ¬ IsCondition letters := by
  rw [← Option.not_isSome_iff_eq_none, not_iff_not, Condition.ofLetters?, IsCondition]
  split
  next hempty => simp [List.isEmpty_iff.mp hempty]
  next hempty =>
    rw [Option.isSome_map, mapM_isSome_iff]
    simp only [ofLetter?_isSome_iff]
    exact ⟨fun h => ⟨fun hnil => hempty (List.isEmpty_iff.mpr hnil), h⟩, fun h => h.2⟩

theorem IsCondition.isAlphanum {letters : List Char} (h : IsCondition letters) :
    ∀ c ∈ letters, c.isAlphanum = true := by
  intro c hc
  have hletter := h.2 c hc
  rw [← isAlphanum_toLower]
  simp only [List.mem_cons, List.not_mem_nil, or_false] at hletter
  rcases hletter with hletter | hletter | hletter <;> rw [hletter] <;> rfl

theorem readCondition_eq_error_iff {condition : Option (List Char)} :
    readCondition condition = .error cause ↔
      ∃ letters ∈ condition, ¬ IsCondition letters ∧
        cause = .invalidCondition (String.ofList letters) := by
  cases condition with
  | none => simp [readCondition]
  | some letters =>
      simp only [Option.mem_def, Option.some.injEq, exists_eq_left']
      rw [← ofLetters?_eq_none_iff, readCondition]
      cases Condition.ofLetters? letters with
      | none => simp [eq_comm]
      | some flags => simp

theorem exists_readCondition {condition : Option (List Char)}
    (h : ∀ letters ∈ condition, IsCondition letters) :
    ∃ flags, readCondition condition = .ok flags := by
  cases hread : readCondition condition with
  | ok flags => exact ⟨flags, rfl⟩
  | error cause =>
      obtain ⟨letters, hletters, hnone, _⟩ := readCondition_eq_error_iff.mp hread
      exact absurd (h letters hletters) hnone

/-! ## Operands -/

/-- The text is no whole number within the bounds. -/
def NoNumber (low high : Int) (text : List Char) : Prop :=
  ∀ n, Numeral text n → n < low ∨ high < n

/-- The text is no index of a general register, also without the `r` that it may begin with. -/
def NoRegister (text : List Char) : Prop :=
  ∀ digits n, text = digits ∨ text = 'r' :: digits ∨ text = 'R' :: digits →
    Digits 10 digits n → registerCount ≤ n

/-- The text is no operand of the kind, whatever the labels are. -/
def NoOperand (text : List Char) : OperandKind → Prop
  | .none => False
  | .target => ¬ IsIdentifier text ∧ NoNumber 0 4294967295 text
  | .mask => NoNumber 0 7 text ∧ ¬ IsCondition text
  | .immediate => NoNumber (-2147483648) 2147483647 text
  | .float => ∀ x, ¬ Single.Denotes text x
  | .address => NoNumber 0 65535 text
  | .register | .optionalRegister => NoRegister text

theorem bounded?_eq_none_iff {low high : Int} :
    bounded? low high text = none ↔ NoNumber low high text := by
  simp only [Option.eq_none_iff_forall_ne_some, ne_eq, bounded?_eq_some_iff, NoNumber,
    integer?_eq_some_iff]
  refine forall_congr' fun n => ?_
  rw [not_and]
  refine imp_congr_right fun _ => ?_
  omega

/-- Digits and signs stand in front of all letters. -/
theorem le_of_toLower_mem {c : Char} (h : c.toLower ∈ ['p', 'z', 'n']) : 65 ≤ c.toNat := by
  by_contra hlt
  have hlower : c.toLower = c := by
    refine dif_neg fun hupper => hlt ?_
    exact UInt32.le_iff_toNat_le.mp hupper.1
  rw [hlower] at h
  simp only [List.mem_cons, List.not_mem_nil, or_false] at h
  rcases h with rfl | rfl | rfl <;> exact hlt (by decide)

theorem digit?_of_le {c : Char} (h : 58 ≤ c.toNat) : digit? c = none := by
  refine if_neg fun hrange => ?_
  have hle : c.toNat ≤ 57 := UInt32.le_iff_toNat_le.mp hrange.2
  omega

theorem natural?_of_le {c : Char} {cs : List Char} (h : 58 ≤ c.toNat) :
    natural? (c :: cs) = none := by
  simp [natural?, digit?_of_le h]

theorem splitSign_of_le {c : Char} {cs : List Char} (h : 58 ≤ c.toNat) :
    splitSign (c :: cs) = (false, c :: cs) := by
  unfold splitSign
  split
  next heq =>
    cases heq
    exact absurd h (by decide)
  next heq =>
    cases heq
    exact absurd h (by decide)
  next => rfl

theorem integer?_of_le {c : Char} {cs : List Char} (h : 58 ≤ c.toNat) :
    integer? (c :: cs) = none := by
  unfold integer?
  split
  next heq =>
    cases heq
    exact absurd h (by decide)
  next heq =>
    cases heq
    exact absurd h (by decide)
  next => simp [Text.integer?, splitSign_of_le h, natural?_of_le h]

/-- The letters of a condition are no number. -/
theorem integer?_of_isCondition (h : IsCondition text) : integer? text = none := by
  obtain ⟨hne, hletters⟩ := h
  obtain ⟨c, cs, rfl⟩ := List.exists_cons_of_ne_nil hne
  have hc := le_of_toLower_mem (hletters c List.mem_cons_self)
  exact integer?_of_le (by omega)

theorem mask?_eq_none_iff : mask? text = none ↔ NoNumber 0 7 text ∧ ¬ IsCondition text := by
  unfold mask?
  cases hn : integer? text with
  | none =>
      have hnumber : NoNumber 0 7 text := by
        intro n hsome
        rw [← integer?_eq_some_iff, hn] at hsome
        cases hsome
      simp only [ofLetters?_eq_none_iff, hnumber, true_and]
  | some n =>
      have hletters : ¬ IsCondition text := by
        intro hcondition
        rw [integer?_of_isCondition hcondition] at hn
        cases hn
      simp only [hletters, not_false_eq_true, and_true, NoNumber, ← integer?_eq_some_iff, hn,
        Option.some.injEq, forall_eq']
      split
      next hrange =>
        simp only [reduceCtorEq, false_iff]
        omega
      next hrange =>
        simp only [true_iff]
        omega

/-- Behind the letter only its digits can be an index. -/
theorem noRegister_cons_iff {c : Char} {digits : List Char} (hc : c = 'r' ∨ c = 'R') :
    NoRegister (c :: digits) ↔ ∀ n, Digits 10 digits n → registerCount ≤ n := by
  constructor
  · intro h n hn
    refine h digits n ?_ hn
    rcases hc with rfl | rfl
    · exact .inr (.inl rfl)
    · exact .inr (.inr rfl)
  · intro h other n htext hn
    rcases htext with rfl | heq | heq
    · have hletter : c.toLower ∉ digitChars.take 10 := by
        rcases hc with rfl | rfl <;> decide
      exact absurd List.mem_cons_self (hn.not_mem hletter)
    · cases heq
      exact h n hn
    · cases heq
      exact h n hn

theorem register?_eq_none_iff : register? text = none ↔ NoRegister text := by
  have hfilter (digits : List Char) : (natural? digits).filter (· < registerCount) = none ↔
      ∀ n, Digits 10 digits n → registerCount ≤ n := by
    simp only [← natural?_eq_some_iff]
    cases natural? digits with
    | none => simp
    | some n => simp
  unfold register?
  split
  next digits => rw [hfilter, noRegister_cons_iff (.inl rfl)]
  next digits => rw [hfilter, noRegister_cons_iff (.inr rfl)]
  next hr hR =>
    rw [hfilter]
    constructor
    · intro h digits n htext hn
      rcases htext with rfl | heq | heq
      · exact h n hn
      · exact (hr digits heq).elim
      · exact (hR digits heq).elim
    · exact fun h n hn => h text n (.inl rfl) hn

/-- A text that is read in the place of an instruction is the name of a label or a number. -/
theorem readTarget_eq_error_iff :
    readTarget (labelTable lines) text = .error cause ↔
      (IsIdentifier text ∧ .label (String.ofList text) ∉ lines ∧
        cause = .undefinedLabel (String.ofList text)) ∨
      (NoOperand text .target ∧ cause = .invalidOperand (String.ofList text)) := by
  simp only [NoOperand]
  by_cases hname : IsIdentifier text
  · rw [← lookup_labelTable_eq_none_iff, readTarget, identifier?_eq_some_nil_iff.mpr ⟨hname, rfl⟩]
    cases hlookup : (labelTable lines).lookup (String.ofList text) with
    | none => simp [hlookup, hname, eq_comm]
    | some place => simp [hlookup, hname]
  · rw [readTarget_of_not_isIdentifier hname, ← bounded?_eq_none_iff]
    cases bounded? 0 4294967295 text with
    | none => simp [hname, eq_comm]
    | some n => simp [hname]

/-- The text of an operand that is not looked up among labels is complained about where it is no
operand of the kind. -/
theorem readKind_eq_error_iff {kind : OperandKind} (hnone : kind ≠ .none)
    (htarget : kind ≠ .target) (labels : Labels) :
    readKind kind labels text = .error cause ↔
      NoOperand text kind ∧ cause = .invalidOperand (String.ofList text) := by
  have hfound {α : Type} {make : α → Operand} (found : Option α) {no : Prop}
      (hno : found = none ↔ no) :
      found.map make = none ∧ cause = .invalidOperand (String.ofList text) ↔
        no ∧ cause = .invalidOperand (String.ofList text) := by
    rw [Option.map_eq_none_iff, hno]
  cases kind with
  | none => exact absurd rfl hnone
  | target => exact absurd rfl htarget
  | mask => exact (orInvalid_eq_error_iff _).trans (hfound _ mask?_eq_none_iff)
  | immediate => exact (orInvalid_eq_error_iff _).trans (hfound _ bounded?_eq_none_iff)
  | float => exact (orInvalid_eq_error_iff _).trans (hfound _ Single.ofChars?_eq_none_iff)
  | address => exact (orInvalid_eq_error_iff _).trans (hfound _ bounded?_eq_none_iff)
  | register | optionalRegister =>
      exact (orInvalid_eq_error_iff _).trans (hfound _ register?_eq_none_iff)

/-- What is wrong with the operand that stands behind an operation. -/
inductive Misfit (lines : List Line) (op : Opcode) : Option (List Char) → AssemblyCause → Prop
  | missing (hnone : op.operandKind ≠ .none) (hoptional : op.operandKind ≠ .optionalRegister) :
      Misfit lines op none (.missingOperand op.mnemonic)
  | unexpected {text : List Char} (hkind : op.operandKind = .none) :
      Misfit lines op (some text) (.unexpectedOperand (String.ofList text))
  | undefined {text : List Char} (hkind : op.operandKind = .target) (hname : IsIdentifier text)
      (hlabel : .label (String.ofList text) ∉ lines) :
      Misfit lines op (some text) (.undefinedLabel (String.ofList text))
  | invalid {text : List Char} (hoperand : NoOperand text op.operandKind) :
      Misfit lines op (some text) (.invalidOperand (String.ofList text))

theorem readOperand_none (labels : Labels) :
    readOperand op labels none =
      if op.operandKind = .none ∨ op.operandKind = .optionalRegister then .ok .none
      else .error (.missingOperand op.mnemonic) := by
  unfold readOperand
  cases op.operandKind <;> rfl

theorem readOperand_some (labels : Labels) (text : List Char) :
    readOperand op labels (some text) = readKind op.operandKind labels text := by
  unfold readOperand
  cases op.operandKind <;> rfl

/-- What the second pass objects to in the operand of an operation. -/
theorem readOperand_eq_error_iff {operand : Option (List Char)} :
    readOperand op (labelTable lines) operand = .error cause ↔ Misfit lines op operand cause := by
  cases operand with
  | none =>
      rw [readOperand_none]
      split
      next hkind =>
        simp only [reduceCtorEq, false_iff]
        rintro ⟨hnone, hoptional⟩
        exact hkind.elim hnone hoptional
      next hkind =>
        rw [not_or] at hkind
        constructor
        · rintro ⟨⟩
          exact .missing hkind.1 hkind.2
        · rintro ⟨⟩
          rfl
  | some text =>
      rw [readOperand_some]
      by_cases hnone : op.operandKind = .none
      · constructor
        · intro h
          rw [hnone] at h
          cases h
          exact .unexpected hnone
        · intro h
          cases h with
          | unexpected => rw [hnone, readKind]
          | undefined hkind =>
              rw [hnone] at hkind
              cases hkind
          | invalid hoperand =>
              rw [hnone] at hoperand
              exact hoperand.elim
      by_cases htarget : op.operandKind = .target
      · rw [htarget, readKind, readTarget_eq_error_iff]
        constructor
        · rintro (⟨hname, hlabel, rfl⟩ | ⟨hoperand, rfl⟩)
          · exact .undefined htarget hname hlabel
          · exact .invalid (htarget ▸ hoperand)
        · intro h
          cases h with
          | unexpected hkind => exact absurd hkind hnone
          | undefined _ hname hlabel => exact .inl ⟨hname, hlabel, rfl⟩
          | invalid hoperand => exact .inr ⟨htarget ▸ hoperand, rfl⟩
      rw [readKind_eq_error_iff hnone htarget]
      constructor
      · rintro ⟨hoperand, rfl⟩
        exact .invalid hoperand
      · intro h
        cases h with
        | unexpected hkind => exact absurd hkind hnone
        | undefined hkind => exact absurd hkind htarget
        | invalid hoperand => exact ⟨hoperand, rfl⟩

/-! ## Instructions -/

/-- What the second pass objects to in an instruction with a known mnemonic: first of all its
condition. -/
inductive Miswritten (lines : List Line) (written : WrittenInstruction) : AssemblyCause → Prop
  | condition {op : Opcode} {letters : List Char}
      (hop : Opcode.ofMnemonic? written.mnemonic = some op)
      (hletters : written.condition = some letters) (hno : ¬ IsCondition letters) :
      Miswritten lines written (.invalidCondition (String.ofList letters))
  | operand {op : Opcode} {cause : AssemblyCause}
      (hop : Opcode.ofMnemonic? written.mnemonic = some op)
      (hletters : ∀ letters ∈ written.condition, IsCondition letters)
      (hmisfit : Misfit lines op written.operand cause) : Miswritten lines written cause

theorem encodeInstruction_eq_error_iff :
    encodeInstruction (labelTable lines) written = .error cause ↔
      Miswritten lines written cause := by
  constructor
  · intro h
    unfold encodeInstruction at h
    split at h
    next => cases h
    next op hop =>
      rcases of_bind_eq_error h with hcondition | ⟨flags, hflags, h⟩
      · obtain ⟨letters, hletters, hno, rfl⟩ := readCondition_eq_error_iff.mp hcondition
        exact .condition hop hletters hno
      · rcases of_bind_eq_error h with hoperand | ⟨operand, _, h⟩
        · refine .operand hop (fun letters hletters => ?_) (readOperand_eq_error_iff.mp hoperand)
          by_contra hno
          have herror := readCondition_eq_error_iff.mpr ⟨letters, hletters, hno, rfl⟩
          rw [hflags] at herror
          cases herror
        · cases h
  · intro h
    unfold encodeInstruction
    cases h with
    | condition hop hletters hno =>
        have herror := readCondition_eq_error_iff.mpr ⟨_, hletters, hno, rfl⟩
        simp only [hop, herror]
        rfl
    | operand hop hletters hmisfit =>
        obtain ⟨flags, hflags⟩ := exists_readCondition hletters
        simp only [hop, hflags]
        rw [bind_of_eq_ok rfl, readOperand_eq_error_iff.mpr hmisfit]
        rfl

end TickMachine.Assembly
