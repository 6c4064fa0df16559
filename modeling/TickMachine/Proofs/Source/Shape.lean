import TickMachine.Proofs.Source.Descent

/-! # The shape of what is read

Whatever the tokens are, the parser never has more blocks open than may be nested, and the tree it
answers with is well-formed. Errors make it leave out statements and the ends of blocks, but nothing
gets to a place where it should not stand.
-/

namespace TickMachine

open TokenKind (keyword)
open Parse (Inside)

/-! ## Open blocks -/

namespace Parse

variable {eof : Token} {frames : List Frame} {done : List Statement} {tokens : List Token}

/-- The parser gets from these open blocks, statements and tokens to others by taking turns. -/
inductive Reaches (eof : Token) (frames : List Frame) (done : List Statement)
    (tokens : List Token) : List Frame → List Statement → List Token → Prop
  | start : Reaches eof frames done tokens frames done tokens
  | turn {fs : List Frame} {ss : List Statement} {t : Token} {ts : List Token}
      (before : Reaches eof frames done tokens fs ss (t :: ts)) (ht : t.kind ≠ .eof) :
      Reaches eof frames done tokens (turn eof fs ss t ts ht).frames (turn eof fs ss t ts ht).done
        (turn eof fs ss t ts ht).rest

/-- A turn opens a block only if there may be one more. -/
theorem length_frames_turn (heof : eof.kind = .eof) {t : Token} {ts : List Token}
    (ht : t.kind ≠ .eof) (h : frames.length ≤ nestingLimit) :
    (Parse.turn eof frames done t ts ht).frames.length ≤ nestingLimit := by
  by_cases hclose : t.kind = keyword .end ∧ frames ≠ []
  · obtain ⟨hkind, hne⟩ := hclose
    obtain ⟨f, fs, rfl⟩ := List.exists_cons_of_ne_nil hne
    have hless : fs.length ≤ nestingLimit := Nat.le_of_succ_le h
    rw [turn_close ht hkind]
    cases (Parser.blockEnd eof ts).result with
    | ok name? => exact hless
    | error d => exact hless
  · rw [turn_item ht fun f fs hkind hcons => hclose ⟨hkind, by simp [hcons]⟩]
    cases hread : (readItem frames.length eof t ts ht).result with
    | error d => rwa [itemTurn_error hread]
    | ok item =>
        cases item with
        | statement s => rwa [itemTurn_statement hread]
        | opening position name =>
            rw [itemTurn_opening hread]
            exact shallow_of_opening heof ⟨hread, rfl⟩

theorem Reaches.length_frames (heof : eof.kind = .eof) {fs : List Frame} {ss : List Statement}
    {rest : List Token} (h : Reaches eof frames done tokens fs ss rest)
    (hframes : frames.length ≤ nestingLimit) : fs.length ≤ nestingLimit := by
  induction h with
  | start => exact hframes
  | turn _ ht ih => exact length_frames_turn heof ht ih

end Parse

/-! ## What stands in the tree -/

theorem Statement.IsLeaf.fits {s : Statement} (h : s.IsLeaf) (depth : Nat) : s.Fits depth := by
  cases s with
  | decl first chained => exact .decl first chained
  | procedure p => exact .procedure p
  | block position name body closing => cases h

theorem Statement.IsLeaf.closed {s : Statement} (h : s.IsLeaf) : s.Closed := by
  cases s with
  | decl first chained => exact .decl first chained
  | procedure p => exact .procedure p
  | block position name body closing => cases h

section Insides

variable {eof : Token} {names : List Name} {tokens rest : List Token} {body : List Statement}
  {closing : Option BlockEnd} {noted : List Diagnostic}

/-- No block is opened inside of too many others. -/
theorem Parse.Inside.fits (heof : eof.kind = .eof)
    (h : Inside eof names tokens body closing noted rest) : ∀ s ∈ body, s.Fits names.length := by
  induction h with
  | finished _ => exact List.forall_mem_nil _
  | missing _ => exact List.forall_mem_nil _
  | closed _ _ => exact List.forall_mem_nil _
  | spoiled _ _ => exact List.forall_mem_nil _
  | statement _ hread _ ih =>
      exact List.forall_mem_cons.mpr ⟨(isLeaf_of_statement heof hread).fits _, ih⟩
  | block _ hread _ _ ihwithin ihothers =>
      exact List.forall_mem_cons.mpr
        ⟨.block (shallow_of_opening heof hread) ihwithin, ihothers⟩
  | skipped _ _ _ ih => exact ih

/-- A block lacks its end only after an error. -/
theorem Parse.Inside.closed_of_no_error (heof : eof.kind = .eof)
    (h : Inside eof names tokens body closing noted rest)
    (hnoted : ∀ d ∈ noted, d.severity ≠ .error) :
    (∀ s ∈ body, s.Closed) ∧ (names ≠ [] → ∃ e, closing = some e) := by
  induction h with
  | finished _ => exact ⟨List.forall_mem_nil _, fun hne => absurd rfl hne⟩
  | missing _ => exact absurd rfl (hnoted _ (List.mem_singleton.mpr rfl))
  | closed _ _ => exact ⟨List.forall_mem_nil _, fun _ => ⟨_, rfl⟩⟩
  | spoiled _ hread =>
      have hd := (Parser.built_blockEnd.complaint (by simp) heof hread).severity
      exact absurd hd (hnoted _ (List.mem_singleton.mpr rfl))
  | statement _ hread _ ih =>
      obtain ⟨hbody, hclosing⟩ := ih hnoted
      exact ⟨List.forall_mem_cons.mpr ⟨(isLeaf_of_statement heof hread).closed, hbody⟩, hclosing⟩
  | block _ _ _ _ ihwithin ihothers =>
      obtain ⟨hinnerNoted, hnoted⟩ := List.forall_mem_append.mp hnoted
      obtain ⟨hinner, hend⟩ := ihwithin hinnerNoted
      obtain ⟨hbody, hclosing⟩ := ihothers hnoted
      obtain ⟨e, rfl⟩ := hend (List.cons_ne_nil _ _)
      exact ⟨List.forall_mem_cons.mpr ⟨.block e hinner, hbody⟩, hclosing⟩
  | @skipped names t ts rest d body closing noted ht hitem hread _ _ =>
      exact absurd (complaint_readItem heof hread).severity (hnoted d List.mem_cons_self)

end Insides

namespace Parsed

/-- What the parser answers with is well-formed, after errors too, and where there was no error no
block lacks its end. It is what the recursive descent comes to, which counts the blocks around it
right all the while. It never has more of them open than may be nested, and nor has the parser. -/
theorem ofTokens_wellFormed (policy : ErrorPolicy) (tokens : List Token) :
    let descent := descend policy (endToken tokens) [] 0 tokens
    (descent.result.map fun children => (Node.root children, descent.noted)) =
        (ofTokens policy tokens).map (fun parsed => (parsed.program.tree, parsed.diagnostics)) ∧
      (∀ look ∈ descent.looks, look.counted = look.blocks ∧ look.blocks ≤ nestingLimit) ∧
      (∀ frames done rest, Parse.Reaches (endToken tokens) [] [] tokens frames done rest →
        frames.length ≤ nestingLimit) ∧
      ∀ parsed, ofTokens policy tokens = .ok parsed →
        parsed.program.tree.outline = parsed.program.outline ∧ parsed.program.tree.WellFormed ∧
          ((∀ d ∈ parsed.diagnostics, d.severity ≠ .error) → parsed.program.tree.Closed) := by
  obtain ⟨hsame, hlooks⟩ := descend_eq policy tokens
  have heof := endToken_kind tokens
  refine ⟨hsame, hlooks, fun _ _ _ h => h.length_frames heof (Nat.zero_le _), ?_⟩
  intro parsed hparsed
  obtain ⟨closing, rest, h⟩ := exists_inside tokens
  rw [← eq_recovered_of_ofTokens hparsed] at h
  exact ⟨parsed.program.outline_tree, Program.wellFormed_tree (h.fits heof), fun hnone =>
    Program.closed_tree (h.closed_of_no_error heof hnone).1⟩

/-- Blocks are left by a spoiled end and by the end of the source, and one by an end of another
name, which is no error. -/
theorem ofTokens_wellFormed_spoiled :
    let tokensOf (source : String) := (Lexed.tokensOf source "a").toOption.getD []
    let spoiled := tokensOf "m: do; n: do; end 3; decl x int, y; p: do;"
    let mistaken := tokensOf "m: do; n: do; end m; end;"
    (∃ parsed, ofTokens .recover spoiled = .ok parsed ∧ parsed.diagnostics.length = 4 ∧
        parsed.program.tree.WellFormed) ∧
      ∃ parsed, ofTokens .abort mistaken = .ok parsed ∧ parsed.diagnostics.length = 1 ∧
        (∀ d ∈ parsed.diagnostics, d.severity ≠ .error) ∧ parsed.program.tree.WellFormed ∧
          parsed.program.tree.Closed := by
  intro tokensOf spoiled mistaken
  constructor
  · have hparsed := ofTokens_recover spoiled
    obtain ⟨-, hformed, -⟩ := (ofTokens_wellFormed .recover spoiled).2.2.2 _ hparsed
    exact ⟨_, hparsed, by decide +kernel, hformed⟩
  · obtain ⟨parsed, hparsed⟩ :=
      isOk_iff.mp (by decide +kernel : (ofTokens .abort mistaken).isOk = true)
    obtain ⟨-, hformed, hclosed⟩ := (ofTokens_wellFormed .abort mistaken).2.2.2 parsed hparsed
    have hsame := eq_recovered_of_ofTokens hparsed
    have hnone : ∀ d ∈ parsed.diagnostics, d.severity ≠ .error := by
      rw [hsame]
      decide +kernel
    have hone : parsed.diagnostics.length = 1 := by
      rw [hsame]
      decide +kernel
    exact ⟨parsed, hparsed, hone, hnone, hformed, hclosed hnone⟩

end Parsed

end TickMachine
