import TickMachine.Proofs.Source.Inside
import TickMachine.Proofs.Source.Names

/-! # Programs behind one another

No statement of a program looks behind its own semicolon or end, and behind it the parser stands as
in front of it. So a program may stand in front of any tokens: what is read of both is what is read
of the one and then of the other, and so is what is noted.
-/

namespace TickMachine

open TokenKind (keyword symbol)
open Parse (Inside)

/-- Inside of that many blocks the tokens are read as the statements, with the diagnostics noted,
and what follows is read as it is without them. -/
def ReadAs (depth : Nat) (us : List Token) (ss : List Statement) (noted : List Diagnostic) :
    Prop :=
  ∀ ⦃eof : Token⦄, eof.kind = .eof → ∀ ⦃names : List Name⦄, names.length = depth →
    ∀ ⦃tokens body closing others rest⦄, Inside eof names tokens body closing others rest →
      Inside eof names (us ++ tokens) (ss ++ body) closing (noted ++ others) rest

namespace ReadAs

variable {depth : Nat} {us vs ws : List Token}

theorem nil : ReadAs depth [] [] [] :=
  fun _ _ _ _ _ _ _ _ _ hothers => hothers

theorem append {ss rs : List Statement} {noted more : List Diagnostic}
    (hus : ReadAs depth us ss noted) (hvs : ReadAs depth vs rs more) :
    ReadAs depth (us ++ vs) (ss ++ rs) (noted ++ more) := by
  intro eof heof names hnames tokens body closing others rest hothers
  simp only [List.append_assoc]
  exact hus heof hnames (hvs heof hnames hothers)

/-- A statement without statements of its own. -/
theorem of_item {t : Token} {s : Statement} (h : ItemPhrase depth (t :: us) (.statement s))
    (ht : t.kind ≠ .eof) (hend : t.kind ≠ keyword .end) : ReadAs depth (t :: us) [s] [] := by
  intro eof heof names hnames tokens body closing others rest hothers
  subst hnames
  have hread : (readItem names.length eof t (us ++ tokens) ht).Reads (.statement s) tokens :=
    (readItem_reads_iff heof).mpr ⟨us, h, rfl⟩
  exact .statement (fun hkind => absurd hkind hend) hread hothers

end ReadAs

/-- The end of a block is read as such in any block, and what it notes depends on the name only. -/
theorem EndPhrase.exists_inside {us : List Token} {closing : BlockEnd} (h : EndPhrase us closing)
    (name : Name) : ∃ noted, ∀ ⦃eof : Token⦄, eof.kind = .eof → ∀ names rest,
      Inside eof (name :: names) (us ++ rest) [] (some closing) noted rest := by
  let f : Frame := ⟨.start, name, []⟩
  cases h with
  | @unnamed word semicolon kind ends =>
      refine ⟨(f.mismatch? none).toList, fun eof heof names rest => ?_⟩
      have hread : Parser.blockEnd.Yields eof (semicolon :: rest) none rest :=
        (Parser.yields_blockEnd_tokens_iff heof).mpr ⟨nofun, semicolon, ends, rfl⟩
      exact .closed (f := f) kind hread
  | @named word t semicolon kind ident ends =>
      refine ⟨(f.mismatch? (some t)).toList, fun eof heof names rest => ?_⟩
      have hread : Parser.blockEnd.Yields eof (t :: semicolon :: rest) (some t) rest :=
        (Parser.yields_blockEnd_tokens_iff heof).mpr
          ⟨by rintro _ ⟨⟩; exact ident, semicolon, ends, rfl⟩
      exact .closed (f := f) kind hread

/-- A block is read from its header to its end, with what stands between as its statements. -/
theorem ReadAs.block {depth : Nat} {us vs ws : List Token} {position : Position} {name : Name}
    {body : List Statement} {closing : BlockEnd} {noted : List Diagnostic}
    (shallow : depth < nestingLimit) (header : HeaderPhrase us position name)
    (inner : ReadAs (depth + 1) vs body noted) (footer : EndPhrase ws closing) :
    ∃ more, ReadAs depth (us ++ vs ++ ws) [.block position name body (some closing)] more := by
  obtain ⟨warnings, hend⟩ := footer.exists_inside name
  refine ⟨noted ++ warnings, fun eof heof names hnames tokens others closed more rest hothers => ?_⟩
  subst hnames
  obtain ⟨t, colon, ts, rfl, ident, -, -⟩ := header.front
  have ht : t.kind ≠ .eof := by simp [ident]
  have hread : (readItem names.length eof t (colon :: ts ++ (vs ++ (ws ++ tokens))) ht).Reads
      (.opening position name) (vs ++ (ws ++ tokens)) :=
    (readItem_reads_iff heof).mpr ⟨colon :: ts, .opening shallow header, rfl⟩
  have hwithin := inner heof (List.length_cons ..) (hend heof names tokens)
  rw [List.append_nil] at hwithin
  simp only [List.append_assoc]
  rw [← List.append_assoc noted]
  exact .block (fun hkind => absurd hkind (by simp [ident])) hread hwithin hothers

mutual

theorem StatementPhrase.exists_readAs {depth : Nat} {us : List Token} {s : Statement}
    (h : StatementPhrase depth us s) : ∃ noted, ReadAs depth us [s] noted := by
  cases h with
  | declaration inner =>
      obtain ⟨t, ts, rfl, ht⟩ := inner.front
      exact ⟨[], .of_item (.declaration inner) (by simp [ht]) (by simp [ht])⟩
  | procedure inner =>
      obtain ⟨t, ts, rfl, ht⟩ := inner.front
      exact ⟨[], .of_item (.procedure inner) (by simp [ht]) (by simp [ht])⟩
  | block shallow header inner footer =>
      obtain ⟨noted, hinner⟩ := inner.exists_readAs
      exact hinner.block shallow header footer

/-- The statements of the grammar are read as they are meant, and what is noted on the way does not
depend on where they stand. -/
theorem BodyPhrase.exists_readAs {depth : Nat} {us : List Token} {ss : List Statement}
    (h : BodyPhrase depth us ss) : ∃ noted, ReadAs depth us ss noted := by
  cases h with
  | nil => exact ⟨[], .nil⟩
  | cons first others =>
      obtain ⟨noted, hfirst⟩ := first.exists_readAs
      obtain ⟨more, hothers⟩ := others.exists_readAs
      exact ⟨noted ++ more, hfirst.append hothers⟩

end

namespace Parsed

/-- What is read of the last tokens is read of them alone: their end stands for that of all. -/
theorem recovered_of_inside_suffix {us tokens : List Token} (hsuffix : us <:+ tokens)
    {body : List Statement} {closing : Option BlockEnd} {noted : List Diagnostic}
    {rest : List Token} (h : Inside (endToken tokens) [] us body closing noted rest) :
    recovered us = ⟨body, noted⟩ := by
  have hrun := h.run_outside (endToken_kind tokens)
  rw [Parse.run_endToken .recover hsuffix] at hrun
  rw [recovered_of_result (congrArg Parse.result hrun), hrun]

/-- A program in front of any tokens adds its statements and its diagnostics to theirs, and changes
nothing about them. -/
theorem recovered_append {a : List Token} {program : Program} (hsolid : ∀ t ∈ a, t.kind ≠ .eof)
    (ha : Program.ofTokens a = .ok program) (b : List Token) :
    recovered (a ++ b) = ⟨(recovered a).program ++ (recovered b).program,
      (recovered a).diagnostics ++ (recovered b).diagnostics⟩ := by
  obtain ⟨noted, hread⟩ := (Program.bodyPhrase_of_ofTokens hsolid ha).exists_readAs
  have halone : Inside (endToken a) [] a program none noted [] := by
    simpa using hread (endToken_kind a) List.length_nil (.finished frontKind_nil)
  obtain ⟨body, closing, more, rest, hbehind⟩ := Parse.exists_inside (endToken (a ++ b)) [] b
  have hboth := hread (endToken_kind (a ++ b)) List.length_nil hbehind
  rw [recovered_of_inside hboth, recovered_of_inside halone,
    recovered_of_inside_suffix (List.suffix_append a b) hbehind]

/-- Behind blocks that are closed by wrong names an end is as misplaced as it is alone. -/
theorem recovered_append_spoiled :
    let source := "m: do; n: do; decl x int; end m; end n;"
    let a := ((Lexed.tokensOf source "a").toOption.getD []).dropLast
    let b := (Lexed.tokensOf "end m; decl 3; p: do; decl y int;" "b").toOption.getD []
    (∀ t ∈ a, t.kind ≠ .eof) ∧ (∃ program, Program.ofTokens a = .ok program) ∧
      (recovered a).program.length = 1 ∧ (recovered a).diagnostics.length = 2 ∧
      (recovered b).program.length = 1 ∧ (recovered b).diagnostics.length = 3 ∧
      recovered (a ++ b) = ⟨(recovered a).program ++ (recovered b).program,
        (recovered a).diagnostics ++ (recovered b).diagnostics⟩ := by
  intro source a b
  have hsolid : ∀ t ∈ a, t.kind ≠ .eof := by decide +kernel
  obtain ⟨program, ha⟩ := isOk_iff.mp (by decide +kernel : (Program.ofTokens a).isOk = true)
  exact ⟨hsolid, ⟨program, ha⟩, by decide +kernel, by decide +kernel, by decide +kernel,
    by decide +kernel, recovered_append hsolid ha b⟩

end Parsed

end TickMachine
