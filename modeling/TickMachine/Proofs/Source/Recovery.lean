import TickMachine.Proofs.Source.Program
import TickMachine.Proofs.Source.Turns

/-! # What a mistake costs

Outside of blocks a mistake costs the statement it is in and nothing else. Inside of a statement no
parser takes a semicolon, so wherever it stops, the next semicolon is that of the statement itself;
and what it answers does not depend on the statements behind.
-/

namespace TickMachine

open TokenKind (keyword symbol)

/-! ## Clauses -/

/-- Cuts tokens behind every semicolon. -/
def clauses : List Token → List (List Token)
  | [] => []
  | t :: ts =>
    if t.kind = symbol .semicolon then [t] :: clauses ts
    else match clauses ts with
      | [] => [[t]]
      | c :: cs => (t :: c) :: cs

theorem flatten_clauses (tokens : List Token) : (clauses tokens).flatten = tokens := by
  induction tokens with
  | nil => rfl
  | cons t ts ih =>
      unfold clauses
      split
      · rw [List.flatten_cons, ih, List.singleton_append]
      · split
        next hnone =>
          rw [hnone] at ih
          rw [← ih]
          rfl
        next c cs hcons =>
          rw [hcons] at ih
          rw [← ih]
          rfl

theorem IsClause.cons {c : List Token} (h : IsClause c) {t : Token}
    (ht : t.kind ≠ symbol .semicolon) : IsClause (t :: c) := by
  obtain ⟨us, semicolon, rfl, hsemicolon, hus⟩ := h
  exact ⟨t :: us, semicolon, rfl, hsemicolon, List.forall_mem_cons.mpr ⟨ht, hus⟩⟩

/-- Where the tokens end with a semicolon, all that is cut off are clauses. -/
theorem isClause_of_mem {tokens : List Token}
    (hlast : ∀ t ∈ tokens.getLast?, t.kind = symbol .semicolon) :
    ∀ c ∈ clauses tokens, IsClause c := by
  induction tokens with
  | nil => exact nofun
  | cons t ts ih =>
      by_cases ht : t.kind = symbol .semicolon
      · have hts : ∀ u ∈ ts.getLast?, u.kind = symbol .semicolon := fun u hu =>
          hlast u (by rw [List.getLast?_cons, hu]; rfl)
        rw [clauses, if_pos ht]
        exact List.forall_mem_cons.mpr ⟨⟨[], t, rfl, ht, nofun⟩, ih hts⟩
      · have hne : ts ≠ [] := by
          rintro rfl
          exact ht (hlast t rfl)
        have hts := ih fun u hu => hlast u (by rw [List.getLast?_cons, hu]; rfl)
        have hflatten := flatten_clauses ts
        rw [clauses, if_neg ht]
        cases hclauses : clauses ts with
        | nil =>
            rw [hclauses] at hflatten
            exact absurd hflatten.symm hne
        | cons c cs =>
            rw [hclauses] at hts
            obtain ⟨hc, hcs⟩ := List.forall_mem_cons.mp hts
            exact List.forall_mem_cons.mpr ⟨hc.cons ht, hcs⟩

/-! ## Parsers that end with their clause -/

/-- A token that no block starts with and that is no semicolon, nor too long a name. -/
structure Token.IsPlain (t : Token) : Prop where
  inner : Parser.Inner t.kind
  ne_do : t.kind ≠ keyword .do
  short : t.kind = .ident → t.text.text.utf8ByteSize ≤ maxNameSize

namespace Parser

variable {α β : Type} {us : List Token} {semicolon : Token}

/-- In front of the semicolon the parser answers with the result, whatever is behind it: with a
value it takes the semicolon, and with a diagnostic it stops somewhere in front of it. -/
inductive Closes (p : Parser α) (us : List Token) (semicolon : Token) : Except Diagnostic α → Prop
  | value {a : α} (h : ∀ eof rest, eof.kind = .eof →
      p.Answers eof (us ++ semicolon :: rest) (.ok a) rest) : Closes p us semicolon (.ok a)
  | mistake {d : Diagnostic} {vs : List Token} (hvs : vs <:+ us) (h : ∀ eof rest, eof.kind = .eof →
      p.Answers eof (us ++ semicolon :: rest) (.error d) (vs ++ semicolon :: rest)) :
      Closes p us semicolon (.error d)

/-- A parser of the inside of a statement stops in front of the semicolon, whatever is behind it. -/
theorem Built.stays {p : Parser α} (hp : Built Inner p) (us : List Token)
    (hsemicolon : semicolon.kind = symbol .semicolon) :
    ∃ result vs, vs <:+ us ∧ ∀ eof rest, eof.kind = .eof →
      p.Answers eof (us ++ semicolon :: rest) result (vs ++ semicolon :: rest) := by
  have heof : (Token.eof "" .start).kind = .eof := rfl
  obtain ⟨taken, result, behind, hsplit, hread⟩ :=
    hp.exists_reads (fun h => h.1 rfl) heof (us ++ [semicolon])
  have hnot : semicolon ∉ taken := fun h => (hread.kinds semicolon h).2 hsemicolon
  obtain ⟨vs, rfl, rfl⟩ : ∃ vs, us = taken ++ vs ∧ behind = vs ++ [semicolon] := by
    rcases List.append_eq_append_iff.mp hsplit with ⟨last, rfl, hlast⟩ | h
    · obtain ⟨rfl, rfl⟩ | ⟨rfl, -⟩ := List.append_eq_singleton_iff.mp hlast.symm
      · exact ⟨[], by simp, rfl⟩
      · exact absurd (List.mem_append_right us (List.mem_singleton.mpr rfl)) hnot
    · exact h
  refine ⟨result, vs, List.suffix_append taken vs, fun eof rest heof' => ?_⟩
  rw [List.append_assoc]
  exact hread.answers eof _ heof' (front_append vs rfl)

/-- A parser that closes the tokens another one leaves closes the tokens behind it. -/
theorem Closes.bind {p : Parser α} {f : α → Parser β} {a : α} {vs : List Token}
    {result : Except Diagnostic β} (hp : ∀ eof rest, eof.kind = .eof →
      p.Answers eof (us ++ semicolon :: rest) (.ok a) (vs ++ semicolon :: rest)) (hvs : vs <:+ us)
    (hf : Closes (f a) vs semicolon result) : Closes (p >>= f) us semicolon result := by
  cases hf with
  | value h => exact .value fun eof rest heof => (hp eof rest heof).bind (h eof rest heof)
  | mistake hws h =>
      exact .mistake (hws.trans hvs) fun eof rest heof => (hp eof rest heof).bind (h eof rest heof)

/-- The parser ends with every clause of plain tokens. -/
def Ends (semicolon : Token) (p : Parser α) : Prop :=
  ∀ us : List Token, (∀ t ∈ us, t.IsPlain) → ∃ result, Closes p us semicolon result

/-- What is read in front of a parser that ends with the clause. -/
theorem Built.ends {p : Parser α} {f : α → Parser β} (hp : Built Inner p)
    (hsemicolon : semicolon.kind = symbol .semicolon) (hf : ∀ a, Ends semicolon (f a)) :
    Ends semicolon (p >>= f) := by
  intro us hus
  obtain ⟨result, vs, hvs, hstays⟩ := hp.stays us hsemicolon
  cases result with
  | error d =>
      exact ⟨.error d, .mistake hvs fun eof rest heof => (hstays eof rest heof).bind_error f⟩
  | ok a =>
      obtain ⟨result, hcloses⟩ := hf a vs fun t ht => hus t (hvs.subset ht)
      exact ⟨result, .bind hstays hvs hcloses⟩

theorem unexpected_answers {expected : Expectation} {eof : Token} {tokens : List Token} :
    (unexpected expected : Parser α).Answers eof tokens
      (.error (.unexpected expected (front eof tokens))) tokens := by
  have hcurrent : current.Answers eof tokens (.ok (front eof tokens)) tokens := ⟨rfl, rfl⟩
  exact hcurrent.bind ⟨rfl, rfl⟩

theorem expect_refuses {kind : TokenKind} {eof t : Token} {ts : List Token} (ht : t.kind ≠ kind) :
    (expect kind).Answers eof (t :: ts) (.error (.unexpected (.token kind) t)) (t :: ts) := by
  have haccept : (step (· = kind) (fun t => pure (some t)) fun _ => pure none).Answers eof (t :: ts)
      (.ok none) (t :: ts) :=
    step_of_not_takes (by simp [ht]) ⟨rfl, rfl⟩
  simp only [step, decide_eq_true_eq] at haccept
  exact Answers.bind (p := accept kind) haccept unexpected_answers

/-- The token asked for may be one of the clause; what is read behind it may depend on it. -/
theorem ends_expect {kind : TokenKind} {f : Token → Parser β} (hkind : kind ≠ .eof)
    (hsemicolon : semicolon.kind ≠ kind)
    (hf : ∀ t : Token, t.kind = kind → t.IsPlain → Ends semicolon (f t)) :
    Ends semicolon (expect kind >>= f) := by
  intro us hus
  cases us with
  | nil =>
      exact ⟨_, .mistake (List.suffix_refl []) fun eof rest _ =>
        (expect_refuses hsemicolon).bind_error f⟩
  | cons u us =>
      obtain ⟨hu, hus⟩ := List.forall_mem_cons.mp hus
      by_cases hfront : u.kind = kind
      · have htakes : ∀ eof rest, eof.kind = .eof →
            (expect kind).Answers eof (u :: us ++ semicolon :: rest) (.ok u)
              (us ++ semicolon :: rest) :=
          fun eof rest heof => (yields_expect_iff heof hkind).mpr ⟨hfront, rfl⟩
        obtain ⟨result, hcloses⟩ := hf u hfront hu us hus
        exact ⟨result, .bind htakes (List.suffix_cons u us) hcloses⟩
      · exact ⟨_, .mistake (List.suffix_refl _) fun eof rest _ =>
          (expect_refuses hfront).bind_error f⟩

/-- At the end of a statement its semicolon is asked for. -/
theorem ends_semicolon {f : Token → Parser β} {b : β}
    (hsemicolon : semicolon.kind = symbol .semicolon) (hf : f semicolon = pure b) :
    Ends semicolon (expect (symbol .semicolon) >>= f) := by
  intro us hus
  cases us with
  | nil =>
      refine ⟨.ok b, .value fun eof rest heof => ?_⟩
      have htakes :
          (expect (symbol .semicolon)).Answers eof (semicolon :: rest) (.ok semicolon) rest :=
        (yields_expect_symbol_iff heof).mpr ⟨hsemicolon, rfl⟩
      exact htakes.bind (hf ▸ ⟨rfl, rfl⟩)
  | cons u us =>
      exact ⟨_, .mistake (List.suffix_refl _) fun eof rest _ =>
        (expect_refuses (hus u List.mem_cons_self).inner.2).bind_error f⟩

theorem name_of_short {t : Token} (h : t.text.text.utf8ByteSize ≤ maxNameSize) :
    name t = pure ⟨t.text.text, h⟩ := by
  unfold name
  have hname : t.name? = .ok ⟨t.text.text, h⟩ := Token.name?_eq_ok_iff.mpr rfl
  rw [hname]

theorem declaration_ends (hsemicolon : semicolon.kind = symbol .semicolon) :
    Ends semicolon declaration :=
  built_declarator.ends hsemicolon fun _ =>
    (Built.many (fun _ _ h => (built_chained h).1) fun _ _ h => (built_chained h).2).ends hsemicolon
      fun _ => ends_semicolon hsemicolon rfl

/-- The name of the procedure is looked at behind the semicolon, where it is found to be short. -/
theorem procedure_ends (hsemicolon : semicolon.kind = symbol .semicolon) :
    Ends semicolon procedure :=
  ends_expect nofun (by simp [hsemicolon]) fun t ht hplain =>
    (built_expect ⟨nofun, nofun⟩ (by simp)).ends hsemicolon fun _ =>
      built_arguments.ends hsemicolon fun _ => built_typeName.ends hsemicolon fun _ =>
        built_visibility.ends hsemicolon fun _ =>
          ends_semicolon hsemicolon (by rw [name_of_short (hplain.short ht)]; rfl)

/-- No block starts without its word. -/
theorem blockHeader_closes (hsemicolon : semicolon.kind = symbol .semicolon)
    (hus : ∀ u ∈ us, u.IsPlain) {t : Token} (ht : t.kind = .ident) :
    ∃ d, Closes (blockHeader t) us semicolon (.error d) := by
  have hends : Ends semicolon (blockHeader t) :=
    (built_expect ⟨nofun, nofun⟩ (by simp)).ends hsemicolon fun _ =>
      ends_expect nofun (by simp [hsemicolon]) fun u hu hplain => absurd hu hplain.ne_do
  obtain ⟨result, hcloses⟩ := hends us hus
  cases hcloses with
  | mistake hvs h => exact ⟨_, .mistake hvs h⟩
  | value h =>
      have heof : (Token.eof "" .start).kind = .eof := rfl
      obtain ⟨ws, hphrase, hws⟩ := (yields_blockHeader_iff heof ht).mp (h _ [] heof)
      cases hphrase with
      | @intro _ colon word _ _ _ _ _ opens _ =>
          have hword : word ∈ us ++ [semicolon] := by simp [hws]
          rcases List.mem_append.mp hword with hword | hword
          · exact absurd opens (hus word hword).ne_do
          · rw [List.mem_singleton.mp hword, hsemicolon] at opens
            cases opens

end Parser

/-! ## A clause is one turn -/

namespace Parse

open TickMachine.Parser (Closes Ends front)

variable {eof semicolon t : Token} {us ts rest : List Token}

theorem skipStatement_append (hsemicolon : semicolon.kind = symbol .semicolon)
    (hus : ∀ t ∈ us, Parser.Inner t.kind) : skipStatement (us ++ semicolon :: rest) = rest := by
  induction us with
  | nil => rw [List.nil_append, skipStatement, if_neg (by simp [hsemicolon]), if_pos hsemicolon]
  | cons u us ih =>
      obtain ⟨hu, hus⟩ := List.forall_mem_cons.mp hus
      rw [List.cons_append, skipStatement, if_neg hu.1, if_neg hu.2, ih hus]

/-- A step ends behind the semicolon, after a mistake too. -/
theorem ofReading_of_closes {α : Type} {p : Parser α} {result : Except Diagnostic α}
    (h : Closes p us semicolon result) (hsemicolon : semicolon.kind = symbol .semicolon)
    (hus : ∀ t ∈ us, Parser.Inner t.kind) (heof : eof.kind = .eof) (make : α → Item) :
    let s : Step (t :: (us ++ semicolon :: rest)) :=
      .ofReading make (p eof (us ++ semicolon :: rest))
    s.result = result.map make ∧ s.rest = rest := by
  cases h with
  | @value a h =>
      obtain ⟨hresult, hrest⟩ := h eof rest heof
      obtain ⟨hstep, hleft⟩ := ofReading_ok (t := t) hresult make
      exact ⟨hstep, hleft.trans hrest⟩
  | @mistake d vs hvs h =>
      obtain ⟨hresult, hrest⟩ := h eof rest heof
      obtain ⟨hstep, hskipped⟩ := ofReading_error (t := t) hresult make
      refine ⟨hstep, hskipped.trans ?_⟩
      rw [hrest, skipStatement_append hsemicolon fun t ht => hus t (hvs.subset ht)]

/-- A clause of plain tokens is a statement, or a mistake that costs just the clause. -/
theorem exists_item (hsemicolon : semicolon.kind = symbol .semicolon) (hus : ∀ t ∈ us, t.IsPlain) :
    ∃ result : Except Diagnostic Statement, ∀ eof rest t ts ht, eof.kind = .eof →
      us ++ semicolon :: rest = t :: ts →
        (readItem 0 eof t ts ht).result = result.map .statement ∧
          (readItem 0 eof t ts ht).rest = rest := by
  have hskipped : ∀ rest, skipStatement (us ++ semicolon :: rest) = rest :=
    fun rest => skipStatement_append hsemicolon fun t ht => (hus t ht).inner
  cases us with
  | nil =>
      refine ⟨.error (.unexpected .statement semicolon), fun eof rest t ts ht _ h => ?_⟩
      obtain ⟨rfl, rfl⟩ := List.cons.inj h
      rw [readItem_skip (by simp [hsemicolon]) (by simp [hsemicolon]) (by simp [hsemicolon])]
      exact ⟨rfl, hskipped rest⟩
  | cons u us =>
      obtain ⟨hu, hus⟩ := List.forall_mem_cons.mp hus
      have hinner : ∀ t ∈ us, Parser.Inner t.kind := fun t ht => (hus t ht).inner
      by_cases hdecl : u.kind = keyword .decl
      · obtain ⟨result, hcloses⟩ := Parser.declaration_ends hsemicolon us hus
        refine ⟨result, fun eof rest t ts ht heof h => ?_⟩
        obtain ⟨rfl, rfl⟩ := List.cons.inj h
        rw [readItem_decl hdecl]
        exact ofReading_of_closes hcloses hsemicolon hinner heof _
      by_cases hproc : u.kind = keyword .proc
      · obtain ⟨result, hcloses⟩ := Parser.procedure_ends hsemicolon us hus
        refine ⟨result, fun eof rest t ts ht heof h => ?_⟩
        obtain ⟨rfl, rfl⟩ := List.cons.inj h
        rw [readItem_proc hproc]
        exact ofReading_of_closes hcloses hsemicolon hinner heof _
      by_cases hheader : u.kind = .ident ∧ (front semicolon us).kind = symbol .colon
      · obtain ⟨d, hcloses⟩ := Parser.blockHeader_closes hsemicolon hus hheader.1
        refine ⟨.error d, fun eof rest t ts ht heof h => ?_⟩
        obtain ⟨rfl, rfl⟩ := List.cons.inj (List.cons_append ▸ h)
        have hcolon : (front eof (us ++ semicolon :: rest)).kind = symbol .colon := by
          cases us <;> exact hheader.2
        rw [readItem_header hheader.1 hcolon (by decide)]
        exact ofReading_of_closes hcloses hsemicolon hinner heof _
      · refine ⟨.error (.unexpected .statement u), fun eof rest t ts ht _ h => ?_⟩
        obtain ⟨rfl, rfl⟩ := List.cons.inj (List.cons_append ▸ h)
        have hplain : u.kind = .ident →
            (front eof (us ++ semicolon :: rest)).kind ≠ symbol .colon := by
          intro hident hcolon
          refine hheader ⟨hident, ?_⟩
          cases us <;> exact hcolon
        rw [readItem_skip hdecl hproc hplain]
        exact ⟨rfl, hskipped rest⟩

/-- How a run goes on behind a clause that was read outside of all blocks. -/
def behind (policy : ErrorPolicy) (result : Except Diagnostic Statement)
    (go : List Statement → Parse) (done : List Statement) : Parse :=
  match result with
  | .ok s => go (s :: done)
  | .error d => after policy (some d) (go done)

theorem exists_run_clause {c : List Token} (hc : IsClause c)
    (hplain : ∀ t ∈ c, t.kind ≠ symbol .semicolon → t.IsPlain) :
    ∃ result : Except Diagnostic Statement, (∀ d, result = .error d → d.severity = .error) ∧
      ∀ policy eof done rest, eof.kind = .eof → run policy eof [] done (c ++ rest) =
        behind policy result (fun done => run policy eof [] done rest) done := by
  obtain ⟨us, semicolon, rfl, hsemicolon, hus⟩ := hc
  have hus : ∀ t ∈ us, t.IsPlain := fun t ht => hplain t (List.mem_append_left _ ht) (hus t ht)
  obtain ⟨result, hitem⟩ := exists_item hsemicolon hus
  have hfront : ∀ rest, ∃ t ts, us ++ semicolon :: rest = t :: ts ∧ t.kind ≠ .eof := by
    intro rest
    cases us with
    | nil => exact ⟨semicolon, rest, rfl, by simp [hsemicolon]⟩
    | cons u us => exact ⟨u, _, rfl, (hus u List.mem_cons_self).inner.1⟩
  refine ⟨result, ?_, ?_⟩
  · rintro d rfl
    have heof : (Token.eof "" .start).kind = .eof := rfl
    obtain ⟨t, ts, htokens, ht⟩ := hfront []
    exact (complaint_readItem heof (hitem _ [] t ts ht heof htokens).1).severity
  · intro policy eof done rest heof
    obtain ⟨t, ts, htokens, ht⟩ := hfront rest
    obtain ⟨hresult, hrest⟩ := hitem eof rest t ts ht heof htokens
    rw [List.append_assoc, List.singleton_append, htokens, run_cons heof ts ht,
      turn_item ht (by simp)]
    rcases hread : readItem 0 eof t ts ht with ⟨item, left, shorter⟩
    rw [hread] at hresult hrest
    subst hresult hrest
    cases result with
    | error d => rfl
    | ok s => rfl

end Parse

/-! ## The whole -/

/-- The statement that the tokens are, if they are one without mistakes. -/
def soleStatement? (tokens : List Token) : Option Statement :=
  match Program.ofTokens tokens with
  | .ok [s] => some s
  | _ => none

/-- The mistake that the strict parser stops at. -/
def mistake? (tokens : List Token) : Option Diagnostic :=
  match Program.ofTokens tokens with
  | .error d => some d
  | .ok _ => none

/-- A clause alone is a statement or a mistake, and among others it costs or gives just that. -/
theorem exists_recover_clause {c : List Token} (hc : IsClause c)
    (hplain : ∀ t ∈ c, t.kind ≠ symbol .semicolon → t.IsPlain) :
    ∃ result : Except Diagnostic Statement, Program.ofTokens c = result.map ([·]) ∧
      ∀ eof done rest, eof.kind = .eof → Parse.run .recover eof [] done (c ++ rest) =
        Parse.behind .recover result (fun done => Parse.run .recover eof [] done rest) done := by
  obtain ⟨result, hseverity, hrun⟩ := Parse.exists_run_clause hc hplain
  refine ⟨result, ?_, hrun .recover⟩
  have hwhole := hrun .abort (endToken c) [] [] (endToken_kind c)
  rw [List.append_nil] at hwhole
  rw [Program.ofTokens_eq_result, Parse.ofTokens, hwhole]
  cases result with
  | ok s =>
      rw [Parse.behind, Parse.run_end frontKind_nil]
      rfl
  | error d =>
      rw [Parse.behind, Parse.after_error (hseverity d rfl)]
      rfl

/-- Going on after mistakes, a run of clauses gives the statements of some and the mistakes of the
others. -/
theorem run_clauses {eof : Token} (heof : eof.kind = .eof) {cs : List (List Token)}
    (hcs : ∀ c ∈ cs, IsClause c)
    (hplain : ∀ t ∈ cs.flatten, t.kind ≠ symbol .semicolon → t.IsPlain) (done : List Statement) :
    Parse.run .recover eof [] done cs.flatten =
      ⟨cs.filterMap mistake?, .ok (done.reverse ++ cs.filterMap soleStatement?)⟩ := by
  induction cs generalizing done with
  | nil => simp [Parse.run, Parse.finish]
  | cons c cs ih =>
      obtain ⟨hc, hcs⟩ := List.forall_mem_cons.mp hcs
      rw [List.flatten_cons] at hplain ⊢
      obtain ⟨hplainc, hplain⟩ := List.forall_mem_append.mp hplain
      obtain ⟨result, halone, hrun⟩ := exists_recover_clause hc hplainc
      rw [hrun eof done cs.flatten heof]
      cases result with
      | ok s =>
          have hstatement : soleStatement? c = some s := by
            simp [soleStatement?, halone, Except.map]
          have hmistake : mistake? c = none := by simp [mistake?, halone, Except.map]
          rw [Parse.behind, ih hcs hplain, List.filterMap_cons_some hstatement,
            List.filterMap_cons_none hmistake, List.reverse_cons, List.append_assoc,
            List.singleton_append]
      | error d =>
          have hstatement : soleStatement? c = none := by simp [soleStatement?, halone, Except.map]
          have hmistake : mistake? c = some d := by simp [mistake?, halone, Except.map]
          rw [Parse.behind, ih hcs hplain, List.filterMap_cons_none hstatement,
            List.filterMap_cons_some hmistake]
          rfl

/-- Recovery costs exactly the statements with mistakes. Where tokens end with a semicolon and hold
no block, no end of source and no name that is too long, they are cut into clauses, of which each is
a statement or a mistake; the statements that parsing goes on with are those of the clauses that are
statements, and the diagnostics are those of the others. -/
theorem Parsed.recovered_clauses (tokens : List Token)
    (hdo : ∀ t ∈ tokens, t.kind ≠ keyword .do) (heof : ∀ t ∈ tokens, t.kind ≠ .eof)
    (hlast : ∀ t ∈ tokens.getLast?, t.kind = symbol .semicolon)
    (hshort : ∀ t ∈ tokens, t.kind = .ident → t.text.text.utf8ByteSize ≤ maxNameSize) :
    (clauses tokens).flatten = tokens ∧
      (∀ c ∈ clauses tokens, IsClause c ∧
        ((∃ s, Program.ofTokens c = .ok [s]) ∨ ∃ d, Program.ofTokens c = .error d)) ∧
      (Parsed.recovered tokens).program = (clauses tokens).filterMap soleStatement? ∧
      (Parsed.recovered tokens).diagnostics = (clauses tokens).filterMap mistake? := by
  have hflatten := flatten_clauses tokens
  have hclauses := isClause_of_mem hlast
  have hplain : ∀ t ∈ (clauses tokens).flatten, t.kind ≠ symbol .semicolon → t.IsPlain := by
    intro t ht hsemicolon
    rw [hflatten] at ht
    exact ⟨⟨heof t ht, hsemicolon⟩, hdo t ht, hshort t ht⟩
  have hrun := run_clauses (endToken_kind tokens) hclauses hplain []
  rw [hflatten] at hrun
  refine ⟨hflatten, fun c hc => ⟨hclauses c hc, ?_⟩, ?_⟩
  · obtain ⟨result, halone, -⟩ := exists_recover_clause (hclauses c hc) fun t ht =>
      hplain t (List.mem_flatten_of_mem hc ht)
    rw [halone]
    cases result with
    | ok s => exact .inl ⟨s, rfl⟩
    | error d => exact .inr ⟨d, rfl⟩
  · unfold recovered Parse.ofTokens
    rw [hrun]
    exact ⟨rfl, rfl⟩

/-- Of four clauses the second lacks a name and the third ends a block that is not there. -/
theorem Parsed.recovered_clauses_spoiled :
    let lexed := Lexed.tokensOf "decl x int; decl (3) int;\nend x; proc f(a int) int public;" "a"
    let tokens := (lexed.toOption.getD []).dropLast
    (∀ t ∈ tokens, t.kind ≠ keyword .do) ∧ (∀ t ∈ tokens, t.kind ≠ .eof) ∧
      (∀ t ∈ tokens.getLast?, t.kind = symbol .semicolon) ∧
      (∀ t ∈ tokens, t.kind = .ident → t.text.text.utf8ByteSize ≤ maxNameSize) ∧
      (clauses tokens).map List.length = [4, 6, 3, 9] ∧
      (Parsed.recovered tokens).program.length = 2 ∧
      (Parsed.recovered tokens).diagnostics =
        [⟨.unexpectedToken (.token .ident) "(", .error, "a", ⟨1, 18⟩⟩,
         ⟨.unexpectedToken .statement "end", .error, "a", ⟨2, 1⟩⟩] := by
  intro lexed tokens
  have hdo : ∀ t ∈ tokens, t.kind ≠ keyword .do := by decide +kernel
  have heof : ∀ t ∈ tokens, t.kind ≠ .eof := by decide +kernel
  have hlast : ∀ t ∈ tokens.getLast?, t.kind = symbol .semicolon := by decide +kernel
  have hshort : ∀ t ∈ tokens, t.kind = .ident → t.text.text.utf8ByteSize ≤ maxNameSize := by
    decide +kernel
  obtain ⟨-, -, hprogram, hdiagnostics⟩ := recovered_clauses tokens hdo heof hlast hshort
  refine ⟨hdo, heof, hlast, hshort, by decide +kernel, ?_, hdiagnostics.trans ?_⟩
  · rw [hprogram]
    decide +kernel
  · decide +kernel

end TickMachine
