import TickMachine.Proofs.Source.Inside
import TickMachine.Proofs.Source.Numbers

/-! # Where literals come from

Every expression of a program stands for one of the tokens, and every complaint about a number is
about a token that has no value. A parser ensures of a value that its expressions stand for tokens,
and of a diagnostic that it is about one. The combinators keep this, so there is one lemma for each
parser, and induction on what stands inside of a block for the rest.
-/

namespace TickMachine

open TokenKind (keyword symbol)

/-! ## The expressions of a program -/

def ArraySize.expressions : ArraySize → List Expression
  | .unsized => []
  | .sized size => [size]

/-- The size of the array and the initial value. -/
def Declarator.expressions (d : Declarator) : List Expression :=
  d.array.toList.flatMap ArraySize.expressions ++ d.initial.toList

mutual

def Statement.expressions : Statement → List Expression
  | .decl first chained => (first :: chained).flatMap Declarator.expressions
  | .procedure _ => []
  | .block _ _ body _ => Program.expressions body

/-- All expressions of a program, at any depth. -/
def Program.expressions : List Statement → List Expression
  | [] => []
  | s :: ss => s.expressions ++ Program.expressions ss

end

def Item.expressions : Item → List Expression
  | .statement s => s.expressions
  | .opening .. => []

/-! ## What parsers ensure -/

/-- The expressions stand for tokens among those given. -/
def StandFor (given : List Token) (es : List Expression) : Prop :=
  ∀ e ∈ es, ∃ t ∈ given, Parser.expressionOf? t = some e

theorem standFor_nil (given : List Token) : StandFor given [] := nofun

theorem standFor_append {given : List Token} {es es' : List Expression} :
    StandFor given (es ++ es') ↔ StandFor given es ∧ StandFor given es' :=
  List.forall_mem_append

theorem standFor_flatMap {α : Type} {given : List Token} {as : List α} {f : α → List Expression} :
    StandFor given (as.flatMap f) ↔ ∀ a ∈ as, StandFor given (f a) := by
  simp only [StandFor, List.mem_flatMap]
  exact ⟨fun h a ha e he => h e ⟨a, ha, he⟩, fun h e ⟨a, ha, he⟩ => h a ha e he⟩

/-- The token is a literal without a value, and the diagnostic says so. -/
structure Token.Misread (t : Token) (d : Diagnostic) : Prop where
  literal : t.kind = .int ∨ t.kind = .dec
  valueless : Parser.expressionOf? t = none
  named : d = .ofToken (.invalidNumber t.text.text) t

/-- If the diagnostic is about a number, it is about one of the given tokens that has no value. -/
def Diagnostic.Blames (given : List Token) (d : Diagnostic) : Prop :=
  ∀ text, d.cause = .invalidNumber text → ∃ t ∈ given, t.Misread d

/-- What is answered is a value as it is asked for, or a diagnostic that is about one of the given
tokens if it is about a number. -/
def Answered {α : Type} (given : List Token) (good : α → Prop) : Except Diagnostic α → Prop
  | .ok a => good a
  | .error d => d.Blames given

theorem Answered.ok {α : Type} {given : List Token} {good : α → Prop}
    {answer : Except Diagnostic α} (h : Answered given good answer) {a : α}
    (hanswer : answer = .ok a) : good a := by
  rwa [hanswer] at h

theorem Answered.error {α : Type} {given : List Token} {good : α → Prop}
    {answer : Except Diagnostic α} (h : Answered given good answer) {d : Diagnostic}
    (hanswer : answer = .error d) : d.Blames given := by
  rwa [hanswer] at h

namespace Parser

variable {α β : Type} {given : List Token} {good : α → Prop} {better : β → Prop} {p : Parser α}

/-- On tokens among those given the parser answers so. -/
def Ensures (given : List Token) (p : Parser α) (good : α → Prop) : Prop :=
  ∀ eof tokens, eof.kind = .eof → tokens ⊆ given → Answered given good (p eof tokens).result

theorem ensures_pure {a : α} (h : good a) : Ensures given (pure a) good := fun _ _ _ _ => h

theorem ensures_fail {d : Diagnostic} (h : d.Blames given) : Ensures given (fail d) good :=
  fun _ _ _ _ => h

theorem ensures_current : Ensures given current fun _ => True := fun _ _ _ _ => trivial

theorem ensures_advance : Ensures given advance fun _ => True := by
  intro eof tokens _ _
  unfold advance
  split
  · trivial
  · split <;> trivial

theorem Ensures.bind {f : α → Parser β} (hp : Ensures given p good)
    (hf : ∀ a, good a → Ensures given (f a) better) : Ensures given (p >>= f) better := by
  intro eof tokens heof hgiven
  have hanswered := hp eof tokens heof hgiven
  show Answered given better (Parser.bind p f eof tokens).result
  unfold Parser.bind
  rcases hread : p eof tokens with ⟨d | a, mid, suffix⟩
  · exact hanswered.error (congrArg Reading.result hread)
  · have ha : good a := hanswered.ok (congrArg Reading.result hread)
    exact hf a ha eof mid heof (List.Subset.trans suffix.subset hgiven)

theorem Ensures.map {f : α → β} (hp : Ensures given p good) (hf : ∀ a, good a → better (f a)) :
    Ensures given (f <$> p) better :=
  hp.bind fun a ha => ensures_pure (hf a ha)

/-- A repetition ensures of all its items what each of them ensures. -/
theorem ensures_many {item : TokenKind → Option (Parser α)}
    (hitem : ∀ kind p, item kind = some p → Ensures given p good) :
    Ensures given (many item) fun as => ∀ a ∈ as, good a := by
  intro eof tokens heof hgiven
  -- induction on how many tokens are left: every item takes at least the one in front
  induction hn : tokens.length using Nat.strongRecOn generalizing tokens with
  | ind n ih =>
  cases tokens with
  | nil =>
      rw [many]
      exact List.forall_mem_nil good
  | cons t ts =>
      have hts : ts ⊆ given := (List.cons_subset.mp hgiven).2
      cases hkind : item t.kind with
      | none =>
          rw [(many_of_stop heof hkind).1]
          exact List.forall_mem_nil good
      | some p =>
          have hanswered := hitem _ p hkind eof ts heof hts
          cases hread : (p eof ts).result with
          | error d =>
              rw [(many_of_item_error hkind ⟨hread, rfl⟩).1]
              exact hanswered.error hread
          | ok a =>
              rw [(many_of_item hkind ⟨hread, rfl⟩ ⟨rfl, rfl⟩).1]
              have hsuffix := (p eof ts).suffix
              have hshorter : (p eof ts).rest.length < n := hn ▸ Nat.lt_succ_of_le hsuffix.length_le
              have hrest : (p eof ts).rest ⊆ given := List.Subset.trans hsuffix.subset hts
              have hothers := ih _ hshorter (p eof ts).rest hrest rfl
              cases hresult : (many item eof (p eof ts).rest).result with
              | error d => exact hothers.error hresult
              | ok as =>
                  exact List.forall_mem_cons.mpr ⟨hanswered.ok hread, hothers.ok hresult⟩

/-! ## The parsers of phrases -/

theorem blames_unexpected (expected : Expectation) (t : Token) :
    (Diagnostic.unexpected expected t).Blames given := nofun

theorem ensures_unexpected {expected : Expectation} :
    Ensures given (unexpected expected : Parser α) good :=
  ensures_current.bind fun t _ => ensures_fail (blames_unexpected expected t)

theorem ensures_accept {kind : TokenKind} : Ensures given (accept kind) fun _ => True := by
  refine ensures_current.bind fun t _ => ?_
  split
  · exact ensures_advance.bind fun _ _ => ensures_pure trivial
  · exact ensures_pure trivial

theorem ensures_expectAs {kind : TokenKind} {expected : Expectation} :
    Ensures given (expectAs kind expected) fun _ => True := by
  refine ensures_accept.bind fun t? _ => ?_
  cases t? with
  | some t => exact ensures_pure trivial
  | none => exact ensures_unexpected

theorem ensures_expect {kind : TokenKind} : Ensures given (expect kind) fun _ => True :=
  ensures_expectAs

theorem ensures_name (t : Token) : Ensures given (name t) fun _ => True := by
  unfold name
  split
  next => exact ensures_pure trivial
  next d hd =>
    obtain ⟨-, rfl⟩ := Token.name?_eq_error_iff.mp hd
    exact ensures_fail nofun

/-- A literal or an identifier is read from the token that it stands for. -/
theorem ensures_expression :
    Ensures given expression fun e => StandFor given [e] := by
  rw [expression_eq_step]
  intro eof tokens heof hgiven
  by_cases htakes : (front eof tokens).kind = .int ∨ (front eof tokens).kind = .dec ∨
      (front eof tokens).kind = .ident
  · cases tokens with
    | nil => simp [front_nil, heof] at htakes
    | cons t ts =>
    rw [front_cons] at htakes
    have ht : t ∈ given := hgiven List.mem_cons_self
    have hend : t.kind ≠ .eof := by
      intro heq
      simp [heq] at htakes
    rw [(step_of_takes hend (decide_eq_true htakes) ⟨rfl, rfl⟩).1]
    cases hvalue : expressionOf? t with
    | some e => exact List.forall_mem_singleton.mpr ⟨t, ht, hvalue⟩
    | none =>
        -- an identifier stands for itself, so what has no value is a number
        have hliteral : t.kind = .int ∨ t.kind = .dec := by
          rcases htakes with hkind | hkind | hkind
          · exact .inl hkind
          · exact .inr hkind
          · simp [expressionOf?, hkind] at hvalue
        exact fun _ _ => ⟨t, ht, hliteral, hvalue, rfl⟩
  · rw [(step_of_not_takes (decide_eq_false htakes) ⟨rfl, rfl⟩).1]
    exact ensures_unexpected eof tokens heof hgiven

theorem ensures_typeName : Ensures given typeName fun _ => True := by
  refine ensures_current.bind fun t _ => ?_
  split
  case h_3 => exact ensures_unexpected
  all_goals exact ensures_advance.bind fun _ _ => ensures_pure trivial

theorem ensures_arraySize :
    Ensures given arraySize fun size => StandFor given size.expressions := by
  refine ensures_current.bind fun t _ => ?_
  split
  · exact ensures_advance.bind fun _ _ => ensures_pure (standFor_nil given)
  · exact ensures_expression.bind fun _ h => ensures_expect.bind fun _ _ => ensures_pure h

theorem ensures_array : Ensures given array fun array? =>
    StandFor given (array?.toList.flatMap ArraySize.expressions) := by
  refine ensures_accept.bind fun t? _ => ?_
  cases t? with
  | some t =>
      refine ensures_arraySize.map fun size h => ?_
      simpa using h
  | none => exact ensures_pure (standFor_nil given)

theorem ensures_modifier {kind : TokenKind} {p : Parser Modifier} (h : modifier kind = some p) :
    Ensures given p fun m => StandFor given m.initial?.toList := by
  unfold modifier at h
  split at h
  case h_4 =>
    cases h
    exact ensures_expect.bind fun _ _ => ensures_expression.bind fun _ h =>
      ensures_expect.bind fun _ _ => ensures_pure h
  case h_5 => cases h
  all_goals
    cases h
    exact ensures_pure (standFor_nil given)

theorem ensures_declarator :
    Ensures given declarator fun d => StandFor given d.expressions := by
  refine ensures_expect.bind fun t _ => ensures_array.bind fun array harray =>
    ensures_typeName.bind fun _ _ => (ensures_name t).bind fun _ _ =>
      (ensures_many fun _ _ => ensures_modifier).bind fun ms hms => ensures_pure ?_
  rw [Declarator.foldl_modify]
  refine standFor_append.mpr ⟨harray, fun e he => ?_⟩
  -- the initial value is that of one of the modifiers
  rw [Option.or_none, Option.mem_toList] at he
  obtain ⟨m, hm, hinitial⟩ := List.mem_filterMap.mp (List.mem_of_getLast? he)
  exact hms m hm e (Option.mem_toList.mpr hinitial)

theorem ensures_chained {kind : TokenKind} {p : Parser Declarator} (h : chained kind = some p) :
    Ensures given p fun d => StandFor given d.expressions := by
  unfold chained at h
  split at h
  next =>
    cases h
    exact ensures_accept.bind fun _ _ => ensures_declarator
  next => cases h

theorem ensures_declaration :
    Ensures given declaration fun s => StandFor given s.expressions := by
  refine ensures_declarator.bind fun first hfirst =>
    (ensures_many fun _ _ => ensures_chained).bind fun chained hchained =>
      ensures_expect.bind fun _ _ => ensures_pure ?_
  exact standFor_flatMap.mpr (List.forall_mem_cons.mpr ⟨hfirst, hchained⟩)

theorem ensures_typeName? : Ensures given typeName? fun _ => True := by
  refine ensures_current.bind fun t _ => ?_
  split
  case h_3 => exact ensures_pure trivial
  all_goals exact ensures_typeName.map fun _ _ => trivial

theorem ensures_argument : Ensures given argument fun _ => True :=
  ensures_expectAs.bind fun t _ => ensures_typeName?.bind fun _ _ =>
    (ensures_name t).bind fun _ _ => ensures_pure trivial

theorem ensures_nextArgument {kind : TokenKind} {p : Parser Argument}
    (h : nextArgument kind = some p) : Ensures given p fun _ => True := by
  unfold nextArgument at h
  split at h
  next =>
    cases h
    exact ensures_argument
  next => cases h

theorem ensures_arguments : Ensures given arguments fun _ => True := by
  refine ensures_current.bind fun t _ => ?_
  split
  · exact ensures_advance.bind fun _ _ => ensures_pure trivial
  · exact ensures_argument.bind fun _ _ =>
      (ensures_many fun _ _ => ensures_nextArgument).bind fun _ _ =>
        ensures_expect.bind fun _ _ => ensures_pure trivial

theorem ensures_visibility : Ensures given visibility fun _ => True := by
  refine ensures_accept.bind fun t? _ => ?_
  cases t? with
  | some t => exact ensures_pure trivial
  | none => exact ensures_pure trivial

theorem ensures_procedure :
    Ensures given procedure fun s => StandFor given s.expressions :=
  ensures_expect.bind fun t _ => ensures_expect.bind fun _ _ => ensures_arguments.bind fun _ _ =>
    ensures_typeName.bind fun _ _ => ensures_visibility.bind fun _ _ =>
      ensures_expect.bind fun _ _ => (ensures_name t).bind fun _ _ =>
        ensures_pure (standFor_nil given)

theorem ensures_blockHeader (t : Token) : Ensures given (blockHeader t) fun _ => True :=
  ensures_expect.bind fun _ _ => ensures_expect.bind fun _ _ => ensures_expect.bind fun _ _ =>
    ensures_name t

theorem ensures_blockEnd : Ensures given blockEnd fun _ => True :=
  ensures_accept.bind fun _ _ => ensures_expect.bind fun _ _ => ensures_pure trivial

end Parser

/-! ## What programs are read from -/

namespace Parse

variable {given : List Token} {eof : Token}

theorem answered_ofReading {α : Type} {good : α → Prop} {p : Parser α} {make : α → Item}
    (hp : Parser.Ensures given p good)
    (hmake : ∀ a, good a → StandFor given (make a).expressions) (heof : eof.kind = .eof)
    {t : Token} {ts : List Token} (hgiven : t :: ts ⊆ given) :
    Answered given (fun item => StandFor given item.expressions)
      (Step.ofReading make (p eof ts) : Step (t :: ts)).result := by
  have hanswered := hp eof ts heof (List.cons_subset.mp hgiven).2
  cases hread : (p eof ts).result with
  | ok a =>
      rw [(ofReading_ok hread make).1]
      exact hmake a (hanswered.ok hread)
  | error d =>
      rw [(ofReading_error hread make).1]
      exact hanswered.error hread

theorem answered_readItem (heof : eof.kind = .eof) (depth : Nat) {t : Token} {ts : List Token}
    (ht : t.kind ≠ .eof) (hgiven : t :: ts ⊆ given) :
    Answered given (fun item => StandFor given item.expressions)
      (readItem depth eof t ts ht).result := by
  unfold readItem
  split
  next =>
    refine answered_ofReading Parser.ensures_declaration ?_ heof hgiven
    exact fun s hs => hs
  next =>
    refine answered_ofReading Parser.ensures_procedure ?_ heof hgiven
    exact fun s hs => hs
  next =>
    split
    · split
      · intro text hcause
        cases hcause
      · exact answered_ofReading (Parser.ensures_blockHeader t) (fun _ _ => standFor_nil given)
          heof hgiven
    · exact Parser.blames_unexpected .statement t
  next => exact Parser.blames_unexpected .statement t

theorem blames_mismatch {f : Frame} {t? : Option Token} {d : Diagnostic}
    (h : f.mismatch? t? = some d) : d.Blames given := by
  unfold Frame.mismatch? at h
  split at h
  next =>
    split at h
    · cases h
    · cases h
      exact nofun
  next => cases h

/-- All expressions inside of a block stand for tokens there, and all that is noted about numbers is
about tokens there. -/
theorem Inside.literals (heof : eof.kind = .eof) {names : List Name} {tokens rest : List Token}
    {body : List Statement} {closing : Option BlockEnd} {noted : List Diagnostic}
    (h : Inside eof names tokens body closing noted rest) (hgiven : tokens ⊆ given) :
    StandFor given (Program.expressions body) ∧ ∀ d ∈ noted, d.Blames given := by
  induction h with
  | finished _ => exact ⟨standFor_nil given, nofun⟩
  | missing _ =>
      exact ⟨standFor_nil given,
        List.forall_mem_singleton.mpr (Parser.blames_unexpected _ _)⟩
  | closed _ _ =>
      exact ⟨standFor_nil given, fun d hd => blames_mismatch (Option.mem_toList.mp hd)⟩
  | @spoiled name names t ts rest d _ hread =>
      have hanswered := Parser.ensures_blockEnd eof ts heof (List.cons_subset.mp hgiven).2
      exact ⟨standFor_nil given, List.forall_mem_singleton.mpr (hanswered.error hread.1)⟩
  | @statement names t ts mid _ s _ _ _ ht _ hread _ ih =>
      have hsuffix := suffix_readItem names.length eof t ts ht
      have hanswered := answered_readItem heof names.length ht hgiven
      obtain ⟨hothers, hnoted⟩ := ih (List.Subset.trans (hread.2 ▸ hsuffix).subset hgiven)
      exact ⟨standFor_append.mpr ⟨hanswered.ok hread.1, hothers⟩, hnoted⟩
  | @block names t ts front mid _ _ _ _ _ _ _ _ _ ht _ hread within _ ihwithin ihothers =>
      have hsuffix := suffix_readItem names.length eof t ts ht
      have hfront : front ⊆ given := List.Subset.trans (hread.2 ▸ hsuffix).subset hgiven
      obtain ⟨hinner, hinnerNoted⟩ := ihwithin hfront
      obtain ⟨hothers, hnoted⟩ := ihothers (List.Subset.trans within.suffix.subset hfront)
      exact ⟨standFor_append.mpr ⟨hinner, hothers⟩,
        List.forall_mem_append.mpr ⟨hinnerNoted, hnoted⟩⟩
  | @skipped names t ts _ d _ _ _ ht _ hread _ ih =>
      have hsuffix := suffix_readItem names.length eof t ts ht
      have hanswered := answered_readItem heof names.length ht hgiven
      obtain ⟨hothers, hnoted⟩ := ih (List.Subset.trans hsuffix.subset hgiven)
      exact ⟨hothers, List.forall_mem_cons.mpr ⟨hanswered.error hread, hnoted⟩⟩

end Parse

/-- The token is an integer literal, written with digits only. -/
structure Token.IsInteger (t : Token) : Prop where
  kind : t.kind = .int
  nonempty : t.text.text.toList ≠ []
  digits : ∀ c ∈ t.text.text.toList, c.isDigit = true

/-- Only an integer literal stands for an integer. -/
theorem Parser.int_of_expressionOf? {t : Token} {value : Int} {position : Position}
    (h : expressionOf? t = some (.integer value position)) : t.kind = .int := by
  unfold expressionOf? at h
  split at h
  next hkind => exact hkind
  next => simp at h
  next => cases h
  next => cases h

namespace Lexed

variable {policy : ErrorPolicy} {source file : String} {lexed : Lexed}

theorem isInteger_of_int (h : ofSource policy source file = .ok lexed) {t : Token}
    (hmem : t ∈ lexed.tokens) (hkind : t.kind = .int) : t.IsInteger :=
  have ⟨hne, hdigits⟩ := int_digits h hmem hkind
  ⟨hkind, hne, hdigits⟩

/-- A literal of a source without a value is an integer of at least 2 ^ 63. -/
theorem int_of_misread (h : ofSource policy source file = .ok lexed) {t : Token} {d : Diagnostic}
    (hmem : t ∈ lexed.tokens) (hmisread : t.Misread d) : t.kind = .int ∧ 2 ^ 63 ≤ t.number := by
  rcases hmisread.literal with hkind | hkind
  · refine ⟨hkind, Nat.le_of_not_lt fun hlt => ?_⟩
    have hvalue := hmisread.valueless
    rw [expressionOf?_int h hmem hkind, if_pos hlt] at hvalue
    cases hvalue
  · have hvalue := (dec_value h hmem hkind).1
    rw [hmisread.valueless] at hvalue
    cases hvalue

/-- Integers are exact, wherever they stand and whatever is skipped around them: each is at the
place of a literal and has the value that the digits there denote. The only numbers complained about
are integers of at least 2 ^ 63; no decimal is. -/
theorem integers_exact (h : ofSource policy source file = .ok lexed) :
    let parsed := Parsed.recovered lexed.tokens
    (∀ (value : Int) (position : Position),
      .integer value position ∈ Program.expressions parsed.program →
      ∃ t ∈ lexed.tokens, t.IsInteger ∧ t.position = position ∧ value = t.number ∧
        0 ≤ value ∧ value ≤ 2 ^ 63 - 1) ∧
    (∀ d ∈ parsed.diagnostics, ∀ text, d.cause = .invalidNumber text →
      ∃ t ∈ lexed.tokens, t.IsInteger ∧ d = .ofToken (.invalidNumber t.text.text) t ∧
        2 ^ 63 ≤ t.number) ∧
    ∀ t ∈ lexed.tokens, t.kind = .dec →
      ∀ d ∈ parsed.diagnostics, d.cause ≠ .invalidNumber t.text.text := by
  intro parsed
  obtain ⟨closing, rest, hinside⟩ := Parsed.exists_inside lexed.tokens
  obtain ⟨hstand, hblames⟩ :=
    hinside.literals (endToken_kind lexed.tokens) (List.Subset.refl lexed.tokens)
  have hcomplaint : ∀ d ∈ parsed.diagnostics, ∀ text, d.cause = .invalidNumber text →
      ∃ t ∈ lexed.tokens, t.IsInteger ∧ d = .ofToken (.invalidNumber t.text.text) t ∧
        2 ^ 63 ≤ t.number := by
    intro d hd text hcause
    obtain ⟨t, hmem, hmisread⟩ := hblames d hd text hcause
    obtain ⟨hkind, hlarge⟩ := int_of_misread h hmem hmisread
    exact ⟨t, hmem, isInteger_of_int h hmem hkind, hmisread.named, hlarge⟩
  refine ⟨fun value position hexpression => ?_, hcomplaint, fun t hmem hkind d hd hcause => ?_⟩
  · obtain ⟨t, hmem, hvalue⟩ := hstand _ hexpression
    have hkind := Parser.int_of_expressionOf? hvalue
    rw [expressionOf?_int h hmem hkind] at hvalue
    split at hvalue
    next hsmall =>
      cases hvalue
      exact ⟨t, hmem, isInteger_of_int h hmem hkind, rfl, rfl, by omega, by omega⟩
    next => cases hvalue
  · -- the text of an integer has no point
    obtain ⟨u, -, hinteger, rfl, -⟩ := hcomplaint d hd _ hcause
    have hsame : u.text.text = t.text.text := DiagnosticCause.invalidNumber.inj hcause
    have hpoint := hinteger.digits '.' (hsame ▸ (dec_value h hmem hkind).2)
    cases hpoint

/-- The greatest integer as the size of an array in a block, behind a mistake; a decimal without
digits behind its point; and the first integer that is too large. -/
theorem integers_exact_limits :
    let source := "m: do; decl ; decl x (009223372036854775807) int; end m;" ++
      " decl y float initial(7.); decl z int initial(9223372036854775808);"
    ∃ lexed, ofSource .recover source "f" = .ok lexed ∧
      let parsed := Parsed.recovered lexed.tokens
      (∃ t ∈ lexed.tokens, t.IsInteger ∧ t.position = ⟨1, 23⟩ ∧ t.number = 2 ^ 63 - 1) ∧
      (∃ t ∈ lexed.tokens, t.IsInteger ∧ 2 ^ 63 ≤ t.number ∧
        .ofToken (.invalidNumber t.text.text) t ∈ parsed.diagnostics) ∧
      ∀ d ∈ parsed.diagnostics, d.cause ≠ .invalidNumber "7." := by
  intro source
  obtain ⟨lexed, hlexed, hgreatest, hlarge, hdecimal⟩ :
      ∃ lexed, ofSource .recover source "f" = .ok lexed ∧
        .integer 9223372036854775807 ⟨1, 23⟩ ∈
          Program.expressions (Parsed.recovered lexed.tokens).program ∧
        (∃ d ∈ (Parsed.recovered lexed.tokens).diagnostics,
          d.cause = .invalidNumber "9223372036854775808") ∧
        ∃ t ∈ lexed.tokens, t.kind = .dec ∧ t.text.text = "7." :=
    ⟨_, rfl, by decide +kernel, by decide +kernel, by decide +kernel⟩
  obtain ⟨hvalues, hcomplaints, hdecimals⟩ := integers_exact hlexed
  obtain ⟨t, hmem, hinteger, hposition, hvalue, -⟩ := hvalues _ _ hgreatest
  obtain ⟨d, hd, hcause⟩ := hlarge
  obtain ⟨u, humem, huinteger, rfl, hunumber⟩ := hcomplaints d hd _ hcause
  obtain ⟨v, hvmem, hvkind, hvtext⟩ := hdecimal
  exact ⟨lexed, hlexed, ⟨t, hmem, hinteger, hposition, by omega⟩,
    ⟨u, humem, huinteger, hunumber, hd⟩, hvtext ▸ hdecimals v hvmem hvkind⟩

end Lexed

end TickMachine
