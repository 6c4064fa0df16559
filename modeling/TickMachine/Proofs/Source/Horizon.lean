import TickMachine.Proofs.Source.Losses

/-! # What the parser does not look at

The parser stops at the first end of source, and lookahead does not cross it: what stands behind it
makes no difference. Where the tokens run out without one, they are read as if one stood right
behind the last of them. None of the loops goes round more often than there are tokens in front of
the end, and once more to see it.
-/

namespace TickMachine

open TokenKind (symbol)

/-- All that is left is behind the end of source that the token stands for: it is in front, or the
tokens have run out and it is given apart. -/
structure ShowsEnd (z eof : Token) (tail : List Token) : Prop where
  kind : eof.kind = .eof
  front : Parser.front eof tail = z

namespace ShowsEnd

variable {z eof : Token} {tail : List Token}

theorem cons (heof : eof.kind = .eof) (v : List Token) : ShowsEnd z eof (z :: v) := ⟨heof, rfl⟩

theorem frontKind_eq (h : ShowsEnd z eof tail) (hz : z.kind = .eof) : frontKind tail = .eof := by
  rw [← Parser.kind_front h.kind, ← hz, ← h.front]
  rfl

/-- Wherever tokens in front of the end are left, the token in front is the same. -/
theorem front_append (h : ShowsEnd z eof tail) (us : List Token) :
    Parser.front eof (us ++ tail) = Parser.front z us := by
  rw [Parser.front_append us (h.front.trans (Parser.front_nil z).symm), List.append_nil]

end ShowsEnd

/-! ## Reading in front of the end -/

theorem Solid.of_suffix {us vs : List Token} (hvs : Solid vs) (h : us <:+ vs) : Solid us :=
  fun t ht => hvs t (h.subset ht)

/-- A statement is skipped up to the end of the source at most. -/
theorem Solid.skipStatement_append {us tail : List Token} (hus : Solid us)
    (htail : frontKind tail = .eof) :
    skipStatement (us ++ tail) = skipStatement us ++ tail := by
  induction us with
  | nil => exact skipStatement_of_end htail
  | cons u us ih =>
      obtain ⟨hu, hus⟩ := List.forall_mem_cons.mp hus
      rw [List.cons_append, skipStatement, skipStatement, if_neg hu, if_neg hu]
      split
      · rfl
      · exact ih hus

/-- A parser takes tokens in front of the end only, and answers the same whatever is behind it. -/
theorem Parser.Built.answers_append {α : Type} {p : Parser α} (hp : p.Built (· ≠ .eof))
    {z eof : Token} {tail : List Token} (hz : z.kind = .eof) (h : ShowsEnd z eof tail)
    (ts : List Token) :
    p.Answers eof (ts ++ tail) (p z ts).result ((p z ts).rest ++ tail) := by
  obtain ⟨taken, result, rest, rfl, hread⟩ := hp.exists_reads (by simp) hz ts
  obtain ⟨hresult, hrest⟩ := hread.answers z rest hz rfl
  rw [hresult, hrest, List.append_assoc]
  exact hread.answers eof (rest ++ tail) h.kind (h.front_append rest)

namespace Parse

variable {z eof : Token} {tail : List Token}

/-! ## Turns in front of the end -/

/-- The turn with more tokens left behind the others. -/
def Turn.before (T : Turn) (tail : List Token) : Turn :=
  { T with rest := T.rest ++ tail }

/-- Two steps come to the same, but the second one leaves more tokens behind the others. -/
structure SameStep {us vs : List Token} (tail : List Token) (s : Step us) (s' : Step vs) :
    Prop where
  result : s'.result = s.result
  rest : s'.rest = s.rest ++ tail

theorem SameStep.itemTurn {us vs : List Token} {s : Step us} {s' : Step vs}
    (h : SameStep tail s s') (frames : List Frame) (done : List Statement) :
    itemTurn frames done s' = (itemTurn frames done s).before tail := by
  obtain ⟨hresult, hrest⟩ := h
  cases hread : s.result with
  | error d =>
      rw [itemTurn_error hread, itemTurn_error (hresult.trans hread), hrest]
      rfl
  | ok item =>
      cases item with
      | statement value =>
          rw [itemTurn_statement hread, itemTurn_statement (hresult.trans hread), hrest]
          rfl
      | opening position name =>
          rw [itemTurn_opening hread, itemTurn_opening (hresult.trans hread), hrest]
          rfl

section Turns

variable {t : Token} {ts : List Token} (hts : Solid ts) (hz : z.kind = .eof)
  (h : ShowsEnd z eof tail)

include hts hz h

theorem sameStep_ofReading {α : Type} {p : Parser α} (hp : p.Built (· ≠ .eof)) (make : α → Item) :
    SameStep tail (Step.ofReading make (p z ts) : Step (t :: ts))
      (Step.ofReading make (p eof (ts ++ tail)) : Step (t :: (ts ++ tail))) := by
  obtain ⟨hresult, hrest⟩ := hp.answers_append hz h ts
  cases hread : (p z ts).result with
  | ok a =>
      obtain ⟨hvalue, hleft⟩ := ofReading_ok (t := t) hread make
      obtain ⟨hvalue', hleft'⟩ := ofReading_ok (t := t) (hresult.trans hread) make
      exact ⟨hvalue'.trans hvalue.symm, by rw [hleft', hleft, hrest]⟩
  | error d =>
      obtain ⟨hvalue, hleft⟩ := ofReading_error (t := t) hread make
      obtain ⟨hvalue', hleft'⟩ := ofReading_error (t := t) (hresult.trans hread) make
      have hsolid : Solid (p z ts).rest := hts.of_suffix (p z ts).suffix
      have hskip := hsolid.skipStatement_append (h.frontKind_eq hz)
      exact ⟨hvalue'.trans hvalue.symm, by rw [hleft', hleft, hrest, hskip]⟩

theorem sameStep_skip (ht : t.kind ≠ .eof) (d : Diagnostic) :
    SameStep tail (Step.skip ht d : Step (t :: ts)) (Step.skip ht d : Step (t :: (ts ++ tail))) :=
  have hsolid : Solid (t :: ts) := List.forall_mem_cons.mpr ⟨ht, hts⟩
  ⟨rfl, hsolid.skipStatement_append (h.frontKind_eq hz)⟩

/-- An item is read, or skipped, in front of the end. Whether a name starts a block is seen at the
token behind it, at most at the end. -/
theorem sameStep_readItem (depth : Nat) (ht : t.kind ≠ .eof) :
    SameStep tail (readItem depth z t ts ht) (readItem depth eof t (ts ++ tail) ht) := by
  unfold readItem
  split
  next => exact sameStep_ofReading hts hz h Parser.built_declaration _
  next => exact sameStep_ofReading hts hz h Parser.built_procedure _
  next =>
    have hpeek : (ts ++ tail).head?.getD eof = ts.head?.getD z := h.front_append ts
    rw [hpeek]
    split
    · split
      · exact sameStep_skip hts hz h ht _
      · exact sameStep_ofReading hts hz h (Parser.built_blockHeader t) _
    · exact sameStep_skip hts hz h ht _
  next => exact sameStep_skip hts hz h ht _

/-- A turn in front of the end comes to the same whatever is behind it, and leaves that. -/
theorem turn_append (frames : List Frame) (done : List Statement) (ht : t.kind ≠ .eof) :
    turn eof frames done t (ts ++ tail) ht = (turn z frames done t ts ht).before tail := by
  by_cases hclose : t.kind = .keyword .end ∧ frames ≠ []
  · obtain ⟨hkind, hne⟩ := hclose
    obtain ⟨f, fs, rfl⟩ := List.exists_cons_of_ne_nil hne
    obtain ⟨hresult, hrest⟩ := Parser.built_blockEnd.answers_append hz h ts
    have hsolid : Solid (Parser.blockEnd z ts).rest :=
      hts.of_suffix (Parser.blockEnd z ts).suffix
    have hskip := hsolid.skipStatement_append (h.frontKind_eq hz)
    rw [turn_close ht hkind, turn_close ht hkind, hresult, hrest, hskip]
    cases (Parser.blockEnd z ts).result with
    | ok name? => rfl
    | error d => rfl
  · have hitem : ∀ f fs, t.kind = .keyword .end → frames ≠ f :: fs :=
      fun f fs hkind hframes => hclose ⟨hkind, by simp [hframes]⟩
    rw [turn_item ht hitem, turn_item ht hitem]
    exact (sameStep_readItem hts hz h frames.length ht).itemTurn frames done

end Turns

/-! ## Runs -/

/-- What is behind the first end of source makes no difference to a run, nor does whether the end is
among the tokens or given apart. -/
theorem run_append (policy : ErrorPolicy) {z eof : Token} {us tail : List Token} (hus : Solid us)
    (hz : z.kind = .eof) (h : ShowsEnd z eof tail) (frames : List Frame) (done : List Statement) :
    run policy eof frames done (us ++ tail) = run policy z frames done us := by
  induction frames, done, us using turn_induction z with
  | ends frames done us hend =>
      have hnone : frontKind (us ++ []) = .eof := by rwa [List.append_nil]
      obtain rfl := hus.eq_nil hnone
      rw [List.nil_append, run_end (h.frontKind_eq hz), run_end frontKind_nil, h.front,
        Parser.front_nil]
  | turns frames done t ts ht ih =>
      have hrest := ih (hus.of_suffix (suffix_turn z frames done t ts ht))
      rw [List.cons_append, run_cons h.kind _ ht, run_cons hz ts ht,
        turn_append (List.forall_mem_cons.mp hus).2 hz h frames done ht]
      exact congrArg (after policy _) hrest

end Parse

/-! ## Loops that are allowed so many rounds -/

/-- Skips a statement in at most `n` rounds. -/
def skipWithin : Nat → List Token → Option (List Token)
  | 0, _ => none
  | _ + 1, [] => some []
  | n + 1, t :: ts =>
    if t.kind = .eof then some (t :: ts)
    else if t.kind = .symbol .semicolon then some ts
    else skipWithin n ts

/-- One round for each token in front of the end, and one more to see the end, are enough. -/
theorem skipWithin_eq {us tail : List Token} {n : Nat} (hus : Solid us)
    (htail : frontKind tail = .eof) (hn : us.length < n) :
    skipWithin n (us ++ tail) = some (skipStatement (us ++ tail)) := by
  induction us generalizing n with
  | nil =>
      obtain ⟨n, rfl⟩ := Nat.exists_eq_add_one_of_ne_zero (Nat.ne_zero_of_lt hn)
      rw [List.nil_append, skipStatement_of_end htail]
      cases tail with
      | nil => rfl
      | cons t ts => exact if_pos htail
  | cons u us ih =>
      obtain ⟨n, rfl⟩ := Nat.exists_eq_add_one_of_ne_zero (Nat.ne_zero_of_lt hn)
      obtain ⟨hu, hus⟩ := List.forall_mem_cons.mp hus
      rw [List.cons_append, skipWithin, skipStatement, if_neg hu, if_neg hu]
      split
      · rfl
      · exact ih hus (Nat.lt_of_succ_lt_succ hn)

namespace Parser

variable {α : Type}

/-- What a parser answers and the tokens it leaves. -/
def outcome (p : Parser α) (eof : Token) (tokens : List Token) :
    Except Diagnostic α × List Token :=
  ((p eof tokens).result, (p eof tokens).rest)

/-- Reads items, as `many` does, in at most `n` rounds. -/
def manyWithin (item : TokenKind → Option (Parser α)) (eof : Token) :
    Nat → List Token → Option (Except Diagnostic (List α) × List Token)
  | 0, _ => none
  | _ + 1, [] => some (.ok [], [])
  | n + 1, t :: ts =>
    match item t.kind with
    | none => some (.ok [], t :: ts)
    | some p =>
      match p.outcome eof ts with
      | (.error d, rest) => some (.error d, rest)
      | (.ok a, rest) => (manyWithin item eof n rest).map fun r => (r.1.map (a :: ·), r.2)

/-- Every item takes the token in front at least, and no token from the end on. -/
theorem manyWithin_eq {item : TokenKind → Option (Parser α)}
    (hitem : ∀ kind p, item kind = some p → Inner kind ∧ p.Built Inner) {z eof : Token}
    {us tail : List Token} {n : Nat} (hus : Solid us) (hz : z.kind = .eof)
    (h : ShowsEnd z eof tail) (hn : us.length < n) :
    manyWithin item eof n (us ++ tail) = some ((many item).outcome eof (us ++ tail)) := by
  induction n generalizing us with
  | zero => exact absurd hn (Nat.not_lt_zero _)
  | succ n ih =>
    unfold outcome
    cases hfront : item (frontKind (us ++ tail)) with
    | none =>
        have hstop : (many item).Yields eof (us ++ tail) [] (us ++ tail) :=
          (yields_many_stop_iff hfront).mpr ⟨rfl, rfl⟩
        rw [hstop.1, hstop.2]
        cases htokens : us ++ tail with
        | nil => rfl
        | cons t ts =>
            rw [htokens] at hfront
            have ht : item t.kind = none := hfront
            rw [manyWithin, ht]
    | some p =>
        obtain ⟨hkind, hinner⟩ := hitem _ p hfront
        cases us with
        | nil => exact absurd (h.frontKind_eq hz) hkind.1
        | cons u us =>
            have hu : item u.kind = some p := hfront
            have hleft := (p z us).suffix
            have hp : p.Built (· ≠ .eof) := hinner.mono fun _ hkind => hkind.1
            obtain ⟨hresult, hrest⟩ := hp.answers_append hz h us
            rw [List.cons_append, manyWithin, hu]
            dsimp only [outcome]
            rw [hresult, hrest]
            cases hread : (p z us).result with
            | error d =>
                have hmany := many_of_item_error hu ⟨hresult.trans hread, hrest⟩
                rw [hmany.1, hmany.2]
            | ok a =>
                have hless : (p z us).rest.length < n :=
                  Nat.lt_of_le_of_lt hleft.length_le (Nat.lt_of_succ_lt_succ hn)
                have hsolid := (List.forall_mem_cons.mp hus).2
                have hmany := many_of_item hu ⟨hresult.trans hread, hrest⟩ ⟨rfl, rfl⟩
                rw [hmany.1, hmany.2]
                dsimp only
                rw [ih (Solid.of_suffix hsolid hleft) hless]
                rfl

end Parser

namespace Parse

/-- Reads the tokens that are left in at most `n` turns, the last of which sees the end. Those
behind an error count too, even if the policy is to stop at it. -/
def runWithin (policy : ErrorPolicy) (eof : Token) :
    Nat → List Frame → List Statement → List Token → Option Parse
  | 0, _, _, _ => none
  | _ + 1, frames, done, [] => some (finish policy eof frames done)
  | n + 1, frames, done, t :: ts =>
    if ht : t.kind = .eof then some (finish policy t frames done)
    else
      let next := turn eof frames done t ts ht
      (runWithin policy eof n next.frames next.done next.rest).map (after policy next.noted)

/-- Every turn takes the token in front at least, and no token from the end on. -/
theorem runWithin_eq (policy : ErrorPolicy) {z eof : Token} {us tail : List Token} {n : Nat}
    (hus : Solid us) (hz : z.kind = .eof) (h : ShowsEnd z eof tail) (hn : us.length < n)
    (frames : List Frame) (done : List Statement) :
    runWithin policy eof n frames done (us ++ tail) =
      some (run policy eof frames done (us ++ tail)) := by
  induction n generalizing us frames done with
  | zero => exact absurd hn (Nat.not_lt_zero _)
  | succ n ih =>
    cases us with
    | nil =>
        have hend := h.frontKind_eq hz
        rw [List.nil_append, run_end hend]
        cases tail with
        | nil => rfl
        | cons t ts => exact dif_pos hend
    | cons t ts =>
        obtain ⟨ht, hts⟩ := List.forall_mem_cons.mp hus
        have hless := length_turn z frames done t ts ht
        have hsolid := hus.of_suffix (suffix_turn z frames done t ts ht)
        rw [List.cons_append, run_cons h.kind _ ht, runWithin, dif_neg ht,
          turn_append hts hz h frames done ht]
        dsimp only [Turn.before]
        rw [ih hsolid (by omega)]
        rfl

end Parse

/-! ## Programs -/

/-- The token is the end of a source right behind the tokens: on the line of the last one, as many
columns further as its text has bytes. Behind no tokens it is the start of a file without a name. -/
inductive EndsBehind : List Token → Token → Prop
  | nothing : EndsBehind [] (.eof "" .start)
  | last {us : List Token} {t : Token} {column : UInt32}
      (hcolumn : column.toNat = t.position.column.toNat + t.text.text.utf8ByteSize) :
      EndsBehind (us ++ [t]) (.eof t.file ⟨t.position.line, column⟩)

theorem EndsBehind.endToken_eq {us : List Token} {z : Token} (h : EndsBehind us z)
    (hus : Solid us) : endToken us = z := by
  cases h with
  | nothing => rfl
  | @last us t column hcolumn =>
      have ht : t.kind ≠ .eof := hus t (by simp)
      have hsum : t.position.column + UInt32.ofNat t.text.text.utf8ByteSize = column := by
        rw [← UInt32.toNat_inj, UInt32.toNat_add, hcolumn, UInt32.toNat_ofNat', Nat.add_mod_mod,
          ← hcolumn]
        exact Nat.mod_eq_of_lt column.toNat_lt
      unfold endToken
      rw [List.getLast?_concat]
      dsimp only
      rw [if_neg ht, hsum]

namespace Parse

/-- No loop of the parser goes round more than `n` times while it reads these tokens and sees the
end in front of the tail: neither the one over the statements nor, wherever it starts, the one that
skips a statement or one of those inside of a statement. -/
structure Halts (policy : ErrorPolicy) (us tail : List Token) (n : Nat) : Prop where
  turns : runWithin policy (endToken (us ++ tail)) n [] [] (us ++ tail) =
    some (ofTokens policy (us ++ tail))
  skips : ∀ vs, vs <:+ us → skipWithin n (vs ++ tail) = some (skipStatement (vs ++ tail))
  modifiers : ∀ vs, vs <:+ us →
    Parser.manyWithin Parser.modifier (endToken (us ++ tail)) n (vs ++ tail) =
      some ((Parser.many Parser.modifier).outcome (endToken (us ++ tail)) (vs ++ tail))
  declarators : ∀ vs, vs <:+ us →
    Parser.manyWithin Parser.chained (endToken (us ++ tail)) n (vs ++ tail) =
      some ((Parser.many Parser.chained).outcome (endToken (us ++ tail)) (vs ++ tail))
  arguments : ∀ vs, vs <:+ us →
    Parser.manyWithin Parser.nextArgument (endToken (us ++ tail)) n (vs ++ tail) =
      some ((Parser.many Parser.nextArgument).outcome (endToken (us ++ tail)) (vs ++ tail))

/-- Whether the end is among the tokens or not, as many rounds as there are tokens in front of it,
and one more, are enough. -/
theorem halts (policy : ErrorPolicy) {us tail : List Token} (hus : Solid us)
    (htail : frontKind tail = .eof) {n : Nat} (hn : us.length < n) : Halts policy us tail n := by
  have heof := endToken_kind (us ++ tail)
  have hz := (Parser.kind_front heof).trans htail
  have h : ShowsEnd (Parser.front (endToken (us ++ tail)) tail) (endToken (us ++ tail)) tail :=
    ⟨heof, rfl⟩
  have hsuffix : ∀ vs, vs <:+ us → Solid vs ∧ vs.length < n := fun vs hvs =>
    ⟨hus.of_suffix hvs, Nat.lt_of_le_of_lt hvs.length_le hn⟩
  exact {
    turns := runWithin_eq policy hus hz h hn [] []
    skips := fun vs hvs => skipWithin_eq (hsuffix vs hvs).1 htail (hsuffix vs hvs).2
    modifiers := fun vs hvs => Parser.manyWithin_eq (fun _ _ => Parser.built_modifier)
      (hsuffix vs hvs).1 hz h (hsuffix vs hvs).2
    declarators := fun vs hvs => Parser.manyWithin_eq (fun _ _ => Parser.built_chained)
      (hsuffix vs hvs).1 hz h (hsuffix vs hvs).2
    arguments := fun vs hvs => Parser.manyWithin_eq (fun _ _ => Parser.built_nextArgument)
      (hsuffix vs hvs).1 hz h (hsuffix vs hvs).2 }

theorem ofTokens_append (policy : ErrorPolicy) {u : List Token} (hu : Solid u) {z : Token}
    (hz : z.kind = .eof) (v : List Token) :
    ofTokens policy (u ++ z :: v) = run policy z [] [] u :=
  run_append policy hu hz (.cons (endToken_kind _) v) [] []

end Parse

namespace Parsed

/-- The parser does not depend on tokens at or behind the first end of source, beyond that it is
there, and needs none: tokens without one are read as if one stood right behind the last of them.
It comes to an end on all these tokens, whatever they break off inside of. -/
theorem ofTokens_reads_to_end {u : List Token} (hu : Solid u) {z : Token} (hz : z.kind = .eof)
    (v : List Token) (policy : ErrorPolicy) :
    (ofTokens policy (u ++ z :: v) = ofTokens policy (u ++ [z]) ∧
        events policy (u ++ z :: v) = events policy (u ++ [z])) ∧
      (∀ z₀, EndsBehind u z₀ → ofTokens policy u = ofTokens policy (u ++ [z₀]) ∧
        events policy u = events policy (u ++ [z₀])) ∧
      ∀ tail, frontKind tail = .eof → ∀ n, u.length < n → Parse.Halts policy u tail n := by
  refine ⟨?_, fun z₀ hbehind => ?_, fun tail htail n hn => Parse.halts policy hu htail hn⟩
  · have hrun : Parse.ofTokens policy (u ++ z :: v) = Parse.ofTokens policy (u ++ [z]) := by
      rw [Parse.ofTokens_append policy hu hz, Parse.ofTokens_append policy hu hz]
    exact ⟨by rw [ofTokens, ofTokens, hrun], by rw [events, events, hrun]⟩
  · have hz₀ : z₀.kind = .eof := hbehind.endToken_eq hu ▸ endToken_kind u
    have hrun : Parse.ofTokens policy u = Parse.ofTokens policy (u ++ [z₀]) := by
      rw [Parse.ofTokens_append policy hu hz₀, Parse.ofTokens, hbehind.endToken_eq hu]
    exact ⟨by rw [ofTokens, ofTokens, ← hrun], by rw [events, events, ← hrun]⟩

/-- Tokens that break off behind `decl`: what is missing there is asked for at the end right behind
it, and no other end is seen. -/
theorem ofTokens_reads_to_end_decl :
    let word : Token := ⟨.keyword .decl, ⟨"decl", by decide⟩, "a", ⟨3, 2⟩⟩
    let z : Token := .eof "b" .start
    let z₀ : Token := .eof "a" ⟨3, 6⟩
    ofTokens .recover [word, z, word, z₀] = ofTokens .recover [word, z] ∧
      ofTokens .recover [word] = ofTokens .recover [word, z₀] ∧
      ofTokens .recover [word] = .ok ⟨[], [.unexpected (.token .ident) z₀]⟩ := by
  intro word z z₀
  have hword : Solid [word] := List.forall_mem_singleton.mpr nofun
  have hbehind : EndsBehind ([] ++ [word]) z₀ := .last rfl
  obtain ⟨⟨hstops, -⟩, hneeds, hhalts⟩ :=
    ofTokens_reads_to_end hword (z := z) rfl [word, z₀] .recover
  have hrun : Parse.runWithin .recover z₀ 2 [] [] [word] =
      some ⟨[.unexpected (.token .ident) z₀], .ok []⟩ := rfl
  have hturns := (hhalts [] rfl 2 (by decide)).turns
  have hresult : Parse.ofTokens .recover [word] = _ := Option.some.inj (hturns.symm.trans hrun)
  exact ⟨hstops, (hneeds z₀ hbehind).1, by rw [ofTokens, hresult]; rfl⟩

end Parsed

end TickMachine
