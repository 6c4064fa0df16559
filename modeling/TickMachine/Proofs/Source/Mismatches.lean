import TickMachine.Proofs.Source.Inside
import TickMachine.Proofs.Source.Losses

/-! # Ends with a wrong name

A warning is noted for an end that has another name than its block, when that end is read. An end
that is kept in the program has been read without an error, and one that is spoiled is not kept. So
the warnings can be told from the program.
-/

namespace TickMachine

open TokenKind (keyword symbol)
open Parse (Inside)

/-- What is wrong with the end of the block of the given name: it has another name. -/
def BlockEnd.mismatch? (name : Name) (e : BlockEnd) : Option DiagnosticCause :=
  match e.name with
  | some found => if found = name.text then none else some (.nameMismatch name.text found)
  | none => none

mutual

/-- The ends of the blocks in a statement, in the order of the source, with the names of these
blocks. -/
def Statement.ends : Statement → List (Name × BlockEnd)
  | .decl _ _ => []
  | .procedure _ => []
  | .block _ name body closing => Program.ends body ++ closing.toList.map (name, ·)

/-- The ends of the blocks in statements that stand one after the other. -/
def Program.ends : Program → List (Name × BlockEnd)
  | [] => []
  | s :: ss => s.ends ++ Program.ends ss

end

/-- The ends inside of the innermost of the blocks with these names, its own with them. -/
def endsInside (names : List Name) (body : List Statement) (closing : Option BlockEnd) :
    List (Name × BlockEnd) :=
  match names with
  | [] => Program.ends body
  | name :: _ => Program.ends body ++ closing.toList.map (name, ·)

theorem Statement.ends_block (position : Position) (name : Name) (names : List Name)
    (body : List Statement) (closing : Option BlockEnd) :
    (block position name body closing).ends = endsInside (name :: names) body closing := rfl

theorem endsInside_cons (names : List Name) (s : Statement) (body : List Statement)
    (closing : Option BlockEnd) :
    endsInside names (s :: body) closing = s.ends ++ endsInside names body closing := by
  cases names with
  | nil => rfl
  | cons name names => exact List.append_assoc ..

theorem Statement.IsLeaf.ends_eq_nil {s : Statement} (h : s.IsLeaf) : s.ends = [] := by
  cases s with
  | decl first chained => rfl
  | procedure p => rfl
  | block position name body closing => cases h

/-! ## The warnings -/

/-- What the warnings among diagnostics are about. -/
def warned (noted : List Diagnostic) : List DiagnosticCause :=
  (noted.filter (·.severity = .warning)).map (·.cause)

theorem warned_append (noted more : List Diagnostic) :
    warned (noted ++ more) = warned noted ++ warned more := by
  rw [warned, List.filter_append, List.map_append]
  rfl

theorem warned_cons_of_error {d : Diagnostic} (hd : d.severity = .error) (noted : List Diagnostic) :
    warned (d :: noted) = warned noted := by
  rw [warned, List.filter_cons_of_neg (by simp [hd])]
  rfl

/-- What is noted about an end can be told from the end. -/
theorem Frame.warned_mismatch? (f : Frame) (p : Position) (t? : Option Token) :
    warned (f.mismatch? t?).toList =
      (BlockEnd.mismatch? f.name ⟨p, t?.map (·.text.text)⟩).toList := by
  cases t? with
  | none => rfl
  | some t =>
      unfold mismatch? BlockEnd.mismatch?
      dsimp only [Option.map_some]
      split
      · rfl
      · rfl

section Insides

variable {eof : Token} {names : List Name} {tokens rest : List Token} {body : List Statement}
  {closing : Option BlockEnd} {noted : List Diagnostic}

/-- The warnings are one for each end with a wrong name, in the order of these ends. -/
theorem Parse.Inside.warned_eq (heof : eof.kind = .eof)
    (h : Inside eof names tokens body closing noted rest) :
    warned noted = (endsInside names body closing).filterMap fun (name, e) => e.mismatch? name := by
  induction h with
  | finished _ => rfl
  | missing _ => rfl
  | @closed f names t ts rest name? _ _ =>
      rw [Frame.warned_mismatch? f t.position]
      cases hwrong : BlockEnd.mismatch? f.name ⟨t.position, name?.map (·.text.text)⟩ with
      | none => simp [endsInside, Program.ends, hwrong]
      | some cause => simp [endsInside, Program.ends, hwrong]
  | spoiled _ hread =>
      rw [warned_cons_of_error (Parser.built_blockEnd.complaint (by simp) heof hread).severity]
      rfl
  | statement _ hread _ ih =>
      rw [ih, endsInside_cons, (isLeaf_of_statement heof hread).ends_eq_nil, List.nil_append]
  | @block names t ts front mid rest position name inner body innerClosing closing innerNoted
      noted ht _ _ _ _ ihwithin ihothers =>
      rw [warned_append, ihwithin, ihothers, endsInside_cons,
        Statement.ends_block position name names, List.filterMap_append]
  | @skipped names t ts rest d body closing noted ht _ hread _ ih =>
      rw [warned_cons_of_error (complaint_readItem heof hread).severity, ih]

/-- Every diagnostic is the warning about a wrong name behind an end, or an error about something
else. -/
theorem Parse.Inside.isMismatch_or_isMistake (heof : eof.kind = .eof)
    (h : Inside eof names tokens body closing noted rest) :
    ∀ d ∈ noted, d.IsMismatch ∨ d.IsMistake := by
  induction h with
  | finished _ => exact nofun
  | missing _ => exact List.forall_mem_singleton.mpr (.inr (isMistake_unexpected _ _))
  | closed _ _ => exact fun d hd => .inl (isMismatch (Option.mem_toList.mp hd))
  | spoiled _ hread =>
      have hd := Parser.built_blockEnd.complaint (by simp) heof hread
      exact List.forall_mem_singleton.mpr (.inr hd.isMistake)
  | statement _ _ _ ih => exact ih
  | block _ _ _ _ ihwithin ihothers => exact List.forall_mem_append.mpr ⟨ihwithin, ihothers⟩
  | skipped _ hread _ ih =>
      exact List.forall_mem_cons.mpr ⟨.inr (complaint_readItem heof hread).isMistake, ih⟩

/-! ## The ends in the source -/

/-- The ends of blocks as they are written, spoiled ones too. -/
def endings : List Token → List BlockEnd
  | [] => []
  | t :: ts =>
    if t.kind = keyword .end then
      ⟨t.position, (ts.head?.filter (·.kind = .ident)).map (·.text.text)⟩ :: endings ts
    else endings ts

theorem endings_sublist_cons (t : Token) (ts : List Token) :
    (endings ts).Sublist (endings (t :: ts)) := by
  rw [endings]
  split
  · exact List.sublist_cons_self _ _
  · exact List.Sublist.refl _

theorem endings_sublist_of_suffix {us vs : List Token} (h : us <:+ vs) :
    (endings us).Sublist (endings vs) := by
  obtain ⟨ts, rfl⟩ := h
  induction ts with
  | nil => exact List.Sublist.refl _
  | cons t ts ih => exact ih.trans (endings_sublist_cons t (ts ++ us))

/-- The ends that are kept are read off the source one behind the other. -/
theorem Parse.Inside.ends_sublist (heof : eof.kind = .eof)
    (h : Inside eof names tokens body closing noted rest) :
    ((endsInside names body closing).map (·.2) ++ endings rest).Sublist (endings tokens) := by
  induction h with
  | finished _ => exact List.Sublist.refl _
  | missing _ => exact List.Sublist.refl _
  | @closed f names t ts rest name? hkind hread =>
      obtain ⟨hident, semicolon, hends, rfl⟩ := (Parser.yields_blockEnd_tokens_iff heof).mp hread
      have hwritten :
          (name?.toList ++ semicolon :: rest).head?.filter (·.kind = .ident) = name? := by
        cases name? with
        | none => simp [hends]
        | some t => simp [hident t rfl]
      rw [endings, if_pos hkind, hwritten]
      have hbehind : semicolon :: rest <:+ name?.toList ++ semicolon :: rest :=
        List.suffix_append _ _
      exact (endings_sublist_of_suffix ((List.suffix_cons _ _).trans hbehind)).cons_cons _
  | @spoiled name names t ts rest d hkind hread =>
      have hsuffix := (Parser.blockEnd eof ts).suffix
      rw [hread.2] at hsuffix
      exact endings_sublist_of_suffix
        (((skipStatement_suffix rest).trans hsuffix).trans (List.suffix_cons t ts))
  | @statement names t ts mid rest s body closing noted ht _ hread _ ih =>
      rw [endsInside_cons, (isLeaf_of_statement heof hread).ends_eq_nil, List.nil_append]
      obtain ⟨us, -, rfl⟩ := (readItem_reads_iff heof).mp hread
      exact ih.trans (endings_sublist_of_suffix (List.suffix_append (t :: us) mid))
  | @block names t ts front mid rest position name inner body innerClosing closing innerNoted
      noted ht _ hread _ _ ihwithin ihothers =>
      obtain ⟨us, -, rfl⟩ := (readItem_reads_iff heof).mp hread
      rw [endsInside_cons, Statement.ends_block position name names, List.map_append,
        List.append_assoc]
      have hfront := endings_sublist_of_suffix (List.suffix_append (t :: us) front)
      exact ((ihothers.append_left _).trans ihwithin).trans hfront
  | @skipped names t ts rest d body closing noted ht _ hread _ ih =>
      obtain ⟨front, mid, hsplit, -, hskip⟩ := Parse.exists_skip_readItem heof hread
      rw [hskip] at ih
      refine ih.trans (endings_sublist_of_suffix ?_)
      rw [hsplit]
      exact (skipStatement_suffix mid).trans (List.suffix_append front mid)

end Insides

namespace Parsed

/-- The severity of a diagnostic tells what it is about: the warnings are about wrong names behind
ends, the errors about all else. -/
theorem isMismatch_or_isMistake {tokens : List Token} :
    ∀ d ∈ (recovered tokens).diagnostics, d.IsMismatch ∨ d.IsMistake := by
  obtain ⟨closing, rest, hinside⟩ := exists_inside tokens
  exact hinside.isMismatch_or_isMistake (endToken_kind tokens)

/-- What stops the parser is an error, and one that it would have noted going on. -/
theorem isMistake_of_error {policy : ErrorPolicy} {tokens : List Token} {d : Diagnostic}
    (h : ofTokens policy tokens = .error d) : d.IsMistake ∧ d ∈ (recovered tokens).diagnostics := by
  obtain ⟨hrecover, habort⟩ := ofTokens_policies tokens
  cases policy with
  | recover =>
      rw [hrecover] at h
      cases h
  | abort =>
      rw [habort] at h
      cases hfind : (recovered tokens).diagnostics.find? (·.severity = .error) with
      | none =>
          rw [hfind] at h
          cases h
      | some found =>
          rw [hfind] at h
          cases h
          have hmem := List.mem_of_find?_eq_some hfind
          have hseverity : d.severity = .error := by simpa using List.find?_some hfind
          refine ⟨?_, hmem⟩
          rcases isMismatch_or_isMistake d hmem with hwarning | hmistake
          · cases hseverity.symm.trans hwarning.severity
          · exact hmistake

/-- The warnings are, in order, one for each end in the program that has another name than its
block, with both names. All other diagnostics are errors. The ends are those of the source, in its
order, but for those that were spoiled or skipped. -/
theorem ofTokens_warnings {policy : ErrorPolicy} {tokens : List Token} {parsed : Parsed}
    (h : ofTokens policy tokens = .ok parsed) :
    let ends := parsed.program.ends
    (parsed.diagnostics.filter (·.severity = .warning)).map (·.cause) =
        ends.filterMap (fun (name, e) => e.mismatch? name) ∧
      (∀ d ∈ parsed.diagnostics, d.severity = .error ↔
        ∀ expected found, d.cause ≠ .nameMismatch expected found) ∧
      (ends.map (·.2)).Sublist (endings tokens) := by
  intro ends
  obtain ⟨closing, rest, hinside⟩ := exists_inside tokens
  rw [← eq_recovered_of_ofTokens h] at hinside
  have heof := endToken_kind tokens
  refine ⟨hinside.warned_eq heof, fun d hd => ?_, ?_⟩
  · rcases hinside.isMismatch_or_isMistake heof d hd with hwarning | hmistake
    · obtain ⟨expected, found, hcause⟩ := hwarning.cause
      rw [hwarning.severity]
      exact iff_of_false nofun fun hother => hother expected found hcause
    · exact iff_of_true hmistake.severity hmistake.cause
  · exact (List.sublist_append_left _ _).trans (hinside.ends_sublist heof)

/-- Of four wrong names behind ends two are warned of: one end is spoiled, and one closes no block.
The end of the inner block is named first, though its block was opened last. -/
theorem ofTokens_warnings_nested :
    let source := "m: do; n: do; end a; p: do; end b 3; q: do; end q; end c; end d;"
    let tokens := (Lexed.tokensOf source "f").toOption.getD []
    ∃ parsed, ofTokens .recover tokens = .ok parsed ∧
      (parsed.diagnostics.filter (·.severity = .warning)).map (·.cause) =
        [.nameMismatch "n" "a", .nameMismatch "m" "c"] ∧
      (endings tokens).length = 5 ∧ parsed.program.ends.length = 3 ∧
      (parsed.program.ends.map (·.2)).Sublist (endings tokens) := by
  intro source tokens
  have hparsed := ofTokens_recover tokens
  obtain ⟨hwarnings, -, hsublist⟩ := ofTokens_warnings hparsed
  exact ⟨_, hparsed, hwarnings.trans (by decide +kernel), by decide +kernel, by decide +kernel,
    hsublist⟩

end Parsed

end TickMachine
