import TickMachine.Proofs.Attempts
import TickMachine.Proofs.Source.Phrases
import TickMachine.Source.Parsing

/-! # The strict parser and its grammar

The strict parser accepts exactly the programs of the grammar. The parser keeps its open blocks on a
stack, the grammar nests them; what connects the two is `Completes`, which says of a stack that the
tokens that are left finish all of its blocks, the innermost one first.
-/

namespace TickMachine

open TokenKind (keyword symbol)

variable {eof : Token} {tokens rest : List Token}

/-- A statement, or the header of a block, inside of `depth` blocks. -/
inductive ItemPhrase (depth : Nat) : List Token → Item → Prop
  | declaration {us : List Token} {s : Statement} (inner : DeclarationPhrase us s) :
      ItemPhrase depth us (.statement s)
  | procedure {us : List Token} {s : Statement} (inner : ProcedurePhrase us s) :
      ItemPhrase depth us (.statement s)
  | opening {us : List Token} {position : Position} {name : Name} (shallow : depth < nestingLimit)
      (header : HeaderPhrase us position name) : ItemPhrase depth us (.opening position name)

namespace Step

/-- The step reads an item and goes on at `rest`. -/
def Reads (s : Step tokens) (item : Item) (rest : List Token) : Prop :=
  s.result = .ok item ∧ s.rest = rest

theorem reads_ofReading_iff {α : Type} {make : α → Item} {p : Parser α} {t : Token}
    {ts : List Token} {item : Item} :
    Reads (ofReading make (p eof ts) : Step (t :: ts)) item rest ↔
      ∃ a, p.Yields eof ts a rest ∧ item = make a := by
  unfold Reads ofReading Parser.Yields
  rcases p eof ts with ⟨_ | a, mid, suffix⟩
  -- the step skips a statement only after a diagnostic, which is no item
  · simp
  · simp only [Except.ok.injEq]
    constructor
    · rintro ⟨rfl, rfl⟩
      exact ⟨a, ⟨rfl, rfl⟩, rfl⟩
    · rintro ⟨_, ⟨rfl, rfl⟩, rfl⟩
      exact ⟨rfl, rfl⟩

theorem not_reads_skip {t : Token} {ts : List Token} {ht : t.kind ≠ .eof} {d : Diagnostic}
    {item : Item} : ¬ Reads (skip ht d : Step (t :: ts)) item rest := by
  rintro ⟨⟨⟩, -⟩

end Step

/-- One step of the parser takes one item. -/
theorem readItem_reads_iff (heof : eof.kind = .eof) {depth : Nat} {t : Token} {ts : List Token}
    {ht : t.kind ≠ .eof} {item : Item} :
    (readItem depth eof t ts ht).Reads item rest ↔
      ∃ us, ItemPhrase depth (t :: us) item ∧ ts = us ++ rest := by
  unfold readItem
  constructor
  · intro h
    split at h
    next hword =>
      obtain ⟨s, hs, rfl⟩ := Step.reads_ofReading_iff.mp h
      obtain ⟨us, inner, rfl⟩ := (Parser.yields_declaration_iff heof hword).mp hs
      exact ⟨us, .declaration inner, rfl⟩
    next hword =>
      obtain ⟨s, hs, rfl⟩ := Step.reads_ofReading_iff.mp h
      obtain ⟨us, inner, rfl⟩ := (Parser.yields_procedure_iff heof hword).mp hs
      exact ⟨us, .procedure inner, rfl⟩
    next hident =>
      split at h
      · split at h
        · exact absurd h Step.not_reads_skip
        · next hdepth =>
          obtain ⟨name, hname, rfl⟩ := Step.reads_ofReading_iff.mp h
          obtain ⟨us, header, rfl⟩ := (Parser.yields_blockHeader_iff heof hident).mp hname
          exact ⟨us, .opening (Nat.lt_of_not_le hdepth) header, rfl⟩
      · exact absurd h Step.not_reads_skip
    next => exact absurd h Step.not_reads_skip
  · rintro ⟨us, hphrase, rfl⟩
    -- the first token of the phrase selects the branch
    cases hphrase with
    | @declaration s inner =>
        obtain ⟨_, _, ⟨⟩, hword⟩ := inner.front
        simp only [hword]
        exact Step.reads_ofReading_iff.mpr
          ⟨s, (Parser.yields_declaration_iff heof hword).mpr ⟨us, inner, rfl⟩, rfl⟩
    | @procedure s inner =>
        obtain ⟨_, _, ⟨⟩, hword⟩ := inner.front
        simp only [hword]
        exact Step.reads_ofReading_iff.mpr
          ⟨s, (Parser.yields_procedure_iff heof hword).mpr ⟨us, inner, rfl⟩, rfl⟩
    | @opening position name shallow header =>
        obtain ⟨_, colon, ts, ⟨⟩, hident, hcolon, rfl⟩ := header.front
        have hmarked : ((colon :: ts ++ rest).head?.getD eof).kind = symbol .colon := hcolon
        simp only [hident]
        rw [if_pos hmarked, if_neg (Nat.not_le_of_lt shallow)]
        exact Step.reads_ofReading_iff.mpr
          ⟨name, (Parser.yields_blockHeader_iff heof hident).mpr ⟨_, header, rfl⟩, rfl⟩

namespace Parse

/-- The strict parser answers with the program if it goes on with these tokens. -/
def Accepts (eof : Token) (frames : List Frame) (done : List Statement) (tokens : List Token)
    (program : Program) : Prop :=
  (run .abort eof frames done tokens).result = .ok program

variable {frames : List Frame} {done : List Statement} {program : Program}

theorem accepts_end_iff (hend : frontKind tokens = .eof) :
    Accepts eof frames done tokens program ↔ frames = [] ∧ program = done.reverse := by
  have hfinish : ∀ t, (finish .abort t frames done).result = .ok program ↔
      frames = [] ∧ program = done.reverse := by
    intro t
    cases frames with
    | nil => simp [finish, eq_comm]
    | cons f fs => simp [finish]
  unfold Accepts
  cases tokens with
  | nil =>
      rw [run]
      exact hfinish eof
  | cons t ts =>
      have ht : t.kind = .eof := hend
      rw [run, dif_pos ht]
      exact hfinish t

/-- The end of the innermost block is taken with the word in front. A wrong name is noted only. -/
theorem accepts_close_iff (heof : eof.kind = .eof) {f : Frame} {t : Token} {ts : List Token}
    (ht : t.kind = keyword .end) :
    Accepts eof (f :: frames) done (t :: ts) program ↔
      ∃ us closing rest, EndPhrase (t :: us) closing ∧ ts = us ++ rest ∧
        Accepts eof frames (f.close done (some closing)) rest program := by
  have hclose : Accepts eof (f :: frames) done (t :: ts) program ↔
      ∃ closing rest, (∃ t? : Option Token, Parser.blockEnd.Yields eof ts t? rest ∧
          closing = ⟨t.position, t?.map (·.text.text)⟩) ∧
        Accepts eof frames (f.close done (some closing)) rest program := by
    unfold Accepts Parser.Yields
    rw [run, dif_neg (by simp [ht])]
    simp only [ht]
    split
    -- a warning about the name is noted in front of the others and changes no result
    · next t? mid suffix heq =>
      constructor
      · intro h
        refine ⟨_, mid, ⟨t?, ⟨by rw [heq], by rw [heq]⟩, rfl⟩, ?_⟩
        cases hwarning : f.mismatch? t? with
        | none => simpa only [hwarning] using h
        | some warning => simpa only [hwarning, note] using h
      · rintro ⟨_, _, ⟨_, ⟨hresult, rfl⟩, rfl⟩, h⟩
        rw [heq] at hresult h
        cases hresult
        cases f.mismatch? t? with
        | none => exact h
        | some warning => exact h
    · next d mid suffix heq =>
      simp only [heq, reduceCtorEq, false_and, exists_false]
  simp only [hclose, Parser.yields_blockEnd_iff heof ht]
  constructor
  · rintro ⟨closing, rest, ⟨us, footer, rfl⟩, h⟩
    exact ⟨us, closing, rest, footer, rfl, h⟩
  · rintro ⟨us, closing, rest, footer, rfl, h⟩
    exact ⟨closing, rest, ⟨us, footer, rfl⟩, h⟩

/-- The strict parser answers with the program if it goes on behind the item. -/
def AcceptsBehind (eof : Token) (frames : List Frame) (done : List Statement) (item : Item)
    (tokens : List Token) (program : Program) : Prop :=
  match item with
  | .statement s => Accepts eof frames (s :: done) tokens program
  | .opening position name => Accepts eof (⟨position, name, done⟩ :: frames) [] tokens program

/-- Where no block ends, the next item is taken. -/
theorem accepts_item_iff (heof : eof.kind = .eof) {t : Token} {ts : List Token}
    (ht : t.kind ≠ .eof) (hend : t.kind = keyword .end → frames = []) :
    Accepts eof frames done (t :: ts) program ↔
      ∃ us item rest, ItemPhrase frames.length (t :: us) item ∧ ts = us ++ rest ∧
        AcceptsBehind eof frames done item rest program := by
  have hread : Accepts eof frames done (t :: ts) program ↔
      ∃ item rest, (readItem frames.length eof t ts ht).Reads item rest ∧
        AcceptsBehind eof frames done item rest program := by
    unfold Accepts AcceptsBehind Step.Reads
    rw [run, dif_neg ht]
    split
    next f fs hkind => exact absurd (hend hkind) (List.cons_ne_nil f fs)
    split
    next s mid shorter heq =>
      rw [heq]
      constructor
      · intro h
        exact ⟨.statement s, mid, ⟨rfl, rfl⟩, h⟩
      · rintro ⟨_, _, ⟨⟨⟩, rfl⟩, h⟩
        exact h
    next position name mid shorter heq =>
      rw [heq]
      constructor
      · intro h
        exact ⟨.opening position name, mid, ⟨rfl, rfl⟩, h⟩
      · rintro ⟨_, _, ⟨⟨⟩, rfl⟩, h⟩
        exact h
    next d mid shorter heq =>
      rw [heq]
      constructor
      · rintro ⟨⟩
      · rintro ⟨_, _, ⟨⟨⟩, -⟩, -⟩
  simp only [hread, readItem_reads_iff heof]
  constructor
  · rintro ⟨item, rest, ⟨us, hphrase, rfl⟩, h⟩
    exact ⟨us, item, rest, hphrase, rfl, h⟩
  · rintro ⟨us, item, rest, hphrase, rfl, h⟩
    exact ⟨item, rest, ⟨us, hphrase, rfl⟩, h⟩

/-! ## What is left finishes the open blocks -/

/-- The tokens that are left finish the innermost block, whose statements so far are `done`, and
after it those around it. Outside of all blocks they go on up to the end of the source. -/
def Completes : List Frame → List Statement → List Token → Program → Prop
  | [], done, tokens, program => ∃ us ss rest, BodyPhrase 0 us ss ∧ tokens = us ++ rest ∧
      frontKind rest = .eof ∧ program = done.reverse ++ ss
  | f :: fs, done, tokens, program => ∃ us ss vs closing rest,
      BodyPhrase (fs.length + 1) us ss ∧ EndPhrase vs closing ∧ tokens = us ++ (vs ++ rest) ∧
        Completes fs (f.close (ss.reverse ++ done) (some closing)) rest program

/-- A statement in front of what finishes the open blocks finishes them too. -/
theorem Completes.cons {us : List Token} {s : Statement} (hs : StatementPhrase frames.length us s)
    (h : Completes frames (s :: done) tokens program) :
    Completes frames done (us ++ tokens) program := by
  cases frames with
  | nil =>
      obtain ⟨vs, ss, rest, hbody, rfl, hrest, rfl⟩ := h
      exact ⟨us ++ vs, s :: ss, rest, .cons hs hbody, by simp, hrest, by simp⟩
  | cons f fs =>
      obtain ⟨vs, ss, ws, closing, rest, hbody, footer, rfl, h⟩ := h
      refine ⟨us ++ vs, s :: ss, ws, closing, rest, .cons hs hbody, footer, by simp, ?_⟩
      rwa [List.reverse_cons, List.append_assoc, List.singleton_append]

/-- What finishes a block just opened is the rest of a block statement. -/
theorem Completes.of_opening {us : List Token} {position : Position} {name : Name}
    (shallow : frames.length < nestingLimit) (header : HeaderPhrase us position name)
    (h : Completes (⟨position, name, done⟩ :: frames) [] tokens program) :
    Completes frames done (us ++ tokens) program := by
  obtain ⟨vs, ss, ws, closing, rest, hbody, footer, rfl, h⟩ := h
  have hblock := StatementPhrase.block shallow header hbody footer
  rw [List.append_nil, Frame.close, List.reverse_reverse] at h
  have := Completes.cons hblock h
  rwa [List.append_assoc, List.append_assoc] at this

theorem length_lt_cons_append (t : Token) (us rest : List Token) :
    rest.length < (t :: (us ++ rest)).length := by
  rw [List.length_cons, List.length_append]
  omega

theorem Completes.of_accepts (heof : eof.kind = .eof)
    (h : Accepts eof frames done tokens program) : Completes frames done tokens program := by
  -- induction on how many tokens are left: every step takes at least the one in front
  induction hn : tokens.length using Nat.strongRecOn generalizing frames done tokens with
  | ind n ih =>
  by_cases hend : frontKind tokens = .eof
  · obtain ⟨rfl, rfl⟩ := (accepts_end_iff hend).mp h
    exact ⟨[], [], tokens, .nil, rfl, hend, by simp⟩
  · obtain ⟨t, ts, rfl, ht⟩ : ∃ t ts, tokens = t :: ts ∧ t.kind ≠ .eof := by
      cases tokens with
      | nil => exact absurd rfl hend
      | cons t ts => exact ⟨t, ts, rfl, hend⟩
    by_cases hclose : t.kind = keyword .end ∧ frames ≠ []
    · obtain ⟨f, fs, rfl⟩ := List.exists_cons_of_ne_nil hclose.2
      obtain ⟨us, closing, rest, footer, rfl, hothers⟩ := (accepts_close_iff heof hclose.1).mp h
      have hshorter := hn ▸ length_lt_cons_append t us rest
      exact ⟨[], [], t :: us, closing, rest, .nil, footer, rfl, ih _ hshorter hothers rfl⟩
    · obtain ⟨us, item, rest, hphrase, rfl, hbehind⟩ :=
        (accepts_item_iff heof ht fun hkind => by simpa [hkind] using hclose).mp h
      have hshorter := hn ▸ length_lt_cons_append t us rest
      rw [← List.cons_append]
      cases hphrase with
      | declaration inner => exact .cons (.declaration inner) (ih _ hshorter hbehind rfl)
      | procedure inner => exact .cons (.procedure inner) (ih _ hshorter hbehind rfl)
      | opening shallow header => exact .of_opening shallow header (ih _ hshorter hbehind rfl)

/-! ## What finishes the open blocks is accepted -/

mutual

theorem Accepts.of_statement (heof : eof.kind = .eof) {depth : Nat} {frames : List Frame}
    {done : List Statement} {us tokens : List Token} {s : Statement}
    (hs : StatementPhrase depth us s) (hdepth : frames.length = depth)
    (h : Accepts eof frames (s :: done) tokens program) :
    Accepts eof frames done (us ++ tokens) program := by
  cases hs with
  | declaration inner =>
      obtain ⟨t, ts, rfl, ht⟩ := inner.front
      exact (accepts_item_iff heof (by simp [ht]) (by simp [ht])).mpr
        ⟨ts, .statement s, tokens, .declaration inner, rfl, h⟩
  | procedure inner =>
      obtain ⟨t, ts, rfl, ht⟩ := inner.front
      exact (accepts_item_iff heof (by simp [ht]) (by simp [ht])).mpr
        ⟨ts, .statement s, tokens, .procedure inner, rfl, h⟩
  | @block _ us vs ws position name body closing shallow header inner footer =>
      -- read from behind: the end closes the block, whose body was read inside of its frame
      obtain ⟨t, colon, ts, rfl, ht, -, -⟩ := header.front
      obtain ⟨word, rs, rfl, hword⟩ := footer.front
      have hclosed : Accepts eof (⟨position, name, done⟩ :: frames) (body.reverse ++ [])
          (word :: (rs ++ tokens)) program := by
        refine (accepts_close_iff heof hword).mpr ⟨rs, closing, tokens, footer, rfl, ?_⟩
        rwa [List.append_nil, Frame.close, List.reverse_reverse]
      have hinner := Accepts.of_body heof inner (congrArg (· + 1) hdepth) hclosed
      rw [List.append_assoc, List.append_assoc]
      exact (accepts_item_iff heof (by simp [ht]) (by simp [ht])).mpr
        ⟨colon :: ts, .opening position name, _, .opening (hdepth ▸ shallow) header, rfl, hinner⟩

theorem Accepts.of_body (heof : eof.kind = .eof) {depth : Nat} {frames : List Frame}
    {done : List Statement} {us tokens : List Token} {ss : List Statement}
    (hss : BodyPhrase depth us ss) (hdepth : frames.length = depth)
    (h : Accepts eof frames (ss.reverse ++ done) tokens program) :
    Accepts eof frames done (us ++ tokens) program := by
  cases hss with
  | nil => exact h
  | cons first others =>
      rw [List.reverse_cons, List.append_assoc, List.singleton_append] at h
      rw [List.append_assoc]
      exact Accepts.of_statement heof first hdepth (Accepts.of_body heof others hdepth h)

end

/-- The statements of a source are a program without a block that is still open. -/
theorem Accepts.of_program (heof : eof.kind = .eof) {us : List Token}
    (hbody : BodyPhrase 0 us program) (hend : frontKind rest = .eof) :
    Accepts eof [] [] (us ++ rest) program :=
  Accepts.of_body heof hbody rfl ((accepts_end_iff hend).mpr ⟨rfl, by simp⟩)

/-- The program the strict parser answers with is the one the grammar gives to the tokens in front
of the end of the source. -/
theorem accepts_iff_bodyPhrase (heof : eof.kind = .eof) :
    Accepts eof [] [] tokens program ↔
      BodyPhrase 0 (tokens.takeWhile (·.kind ≠ .eof)) program := by
  constructor
  · intro h
    obtain ⟨us, ss, rest, hbody, rfl, hrest, rfl⟩ := Completes.of_accepts heof h
    have htake : (us ++ rest).takeWhile (·.kind ≠ .eof) = us := by
      rw [hbody.solid.takeWhile_append]
      cases rest with
      | nil => simp
      | cons t ts => simp [show t.kind = .eof from hrest]
    rwa [htake]
  · intro h
    have hend : frontKind (tokens.dropWhile (·.kind ≠ .eof)) = .eof := by
      cases hrest : tokens.dropWhile (·.kind ≠ .eof) with
      | nil => rfl
      | cons t ts =>
          have := List.head?_dropWhile_not (fun t : Token => decide (t.kind ≠ .eof)) tokens
          rw [hrest] at this
          simpa using this
    rw [← List.takeWhile_append_dropWhile (p := (·.kind ≠ .eof)) (l := tokens)]
    exact Accepts.of_program heof h hend

end Parse

/-- The grammar gives no list of tokens two meanings. -/
theorem BodyPhrase.unique {us : List Token} {p q : Program} (hp : BodyPhrase 0 us p)
    (hq : BodyPhrase 0 us q) : p = q := by
  have heof : (Token.eof "" .start).kind = .eof := rfl
  have hp := Parse.Accepts.of_program heof hp frontKind_nil
  have hq := Parse.Accepts.of_program heof hq frontKind_nil
  exact Except.ok.inj (hp.symm.trans hq)

theorem endToken_kind (tokens : List Token) : (endToken tokens).kind = .eof := by
  unfold endToken
  split
  next t _ =>
    dsimp only
    split
    · assumption
    · rfl
  next => rfl

theorem Program.ofTokens_eq_result (tokens : List Token) :
    Program.ofTokens tokens = (Parse.ofTokens .abort tokens).result := by
  unfold Program.ofTokens Parsed.ofTokens
  dsimp only
  cases (Parse.ofTokens .abort tokens).result with
  | error d => rfl
  | ok program => rfl

theorem Program.ofTokens_iff_accepts {tokens : List Token} {program : Program} :
    Program.ofTokens tokens = .ok program ↔
      Parse.Accepts (endToken tokens) [] [] tokens program := by
  rw [Program.ofTokens_eq_result]
  rfl

/-- Tokens without an end of the source among them are read as a whole. -/
theorem Program.bodyPhrase_of_ofTokens {tokens : List Token} (hsolid : Solid tokens)
    {program : Program} (h : Program.ofTokens tokens = .ok program) :
    BodyPhrase 0 tokens program := by
  have htake := hsolid.takeWhile_append []
  rw [List.append_nil, List.takeWhile_nil, List.append_nil] at htake
  rwa [Program.ofTokens_iff_accepts, Parse.accepts_iff_bodyPhrase (endToken_kind _), htake] at h

/-- A source is accepted if both stages accept it. -/
theorem Program.exists_of_ofSource {source file : String} {program : Program}
    (h : Program.ofSource source file = .ok program) :
    ∃ lexed, Lexed.ofSource .abort source file = .ok lexed ∧
      Program.ofTokens lexed.tokens = .ok program := by
  obtain ⟨tokens, hlexed, hparsed⟩ := of_bind_eq_ok h
  have hlexed : (Lexed.ofSource .abort source file).map Lexed.tokens = .ok tokens :=
    mapError_eq_ok_iff.mp hlexed
  cases hresult : Lexed.ofSource .abort source file with
  | error e =>
      rw [hresult] at hlexed
      cases hlexed
  | ok lexed =>
      rw [hresult] at hlexed
      obtain rfl := Except.ok.inj hlexed
      exact ⟨lexed, rfl, mapError_eq_ok_iff.mp hparsed⟩

/-- The strict parser accepts exactly the token lists of its grammar, and answers with what the
grammar says they denote. Nothing from the first end of source on counts. -/
theorem Program.ofTokens_eq_ok_iff (tokens : List Token) (program : Program) :
    Program.ofTokens tokens = .ok program ↔
      BodyPhrase 0 (tokens.takeWhile (·.kind ≠ .eof)) program := by
  rw [ofTokens_eq_result]
  exact Parse.accepts_iff_bodyPhrase (endToken_kind tokens)

end TickMachine
