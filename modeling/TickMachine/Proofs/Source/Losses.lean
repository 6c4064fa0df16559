import TickMachine.Proofs.Source.Balance
import TickMachine.Proofs.Source.Faults
import TickMachine.Proofs.Source.Policies

/-! # Open blocks and what is skipped

The parser opens and closes blocks one after the other, and at the end of the source it misses the
ends of those that are open. Counting headers and ends gives the same number, but for the headers
and ends among the tokens that are skipped because of mistakes.
-/

namespace TickMachine

open TokenKind (keyword symbol)

/-- How many blocks the tokens open more than they close. -/
def surplus (us : List Token) : Int :=
  openings us - closings us

theorem surplus_nil : surplus [] = 0 := rfl

theorem surplus_append {us : List Token} (h : EndsClause us) (vs : List Token) :
    surplus (us ++ vs) = surplus us + surplus vs := by
  unfold surplus
  rw [openings_append h, closings_append]
  omega

/-- The word that closes a block counts for one. -/
theorem surplus_cons_end {t : Token} (ht : t.kind = keyword .end) (us : List Token) :
    surplus (t :: us) = surplus us - 1 := by
  have hclosings : closings (t :: us) = closings us + 1 :=
    List.countP_cons_of_pos (by simp [ht])
  unfold surplus
  rw [openings_cons_of_ne us (by simp [ht]), hclosings]
  omega

theorem PartsClause.surplus {us : List Token} (h : PartsClause us) : surplus us = 0 := by
  unfold TickMachine.surplus
  rw [h.balanced.1, h.balanced.2]
  rfl

theorem HeaderPhrase.surplus {us : List Token} {position : Position} {name : Name}
    (h : HeaderPhrase us position name) : surplus us = 1 := by
  unfold TickMachine.surplus
  rw [h.balanced.1, h.balanced.2]
  rfl

theorem EndPhrase.surplus {us : List Token} {closing : BlockEnd} (h : EndPhrase us closing) :
    surplus us = -1 := by
  unfold TickMachine.surplus
  rw [h.balanced.1, h.balanced.2]
  rfl

theorem ItemPhrase.sound {depth : Nat} {us : List Token} {item : Item}
    (h : ItemPhrase depth us item) : Sound us := by
  cases h with
  | declaration inner => exact inner.partsClause.sound
  | procedure inner => exact inner.partsClause.sound
  | opening _ header => exact header.sound

/-! ## Tokens in front of the end of the source -/

section Tokens

variable {us vs front mid tail : List Token}

/-- What is taken is in front of the end of the source. -/
theorem Solid.exists_append (hfront : Solid front) (htail : frontKind tail = .eof)
    (h : us ++ tail = front ++ mid) : ∃ vs, us = front ++ vs ∧ mid = vs ++ tail := by
  rcases List.append_eq_append_iff.mp h with ⟨as, rfl, rfl⟩ | h
  · cases as with
    | nil => exact ⟨[], by simp, rfl⟩
    | cons a as => exact absurd htail (hfront a (by simp))
  · exact h

/-- Where the end of the source is in front, none of the tokens before it is left. -/
theorem Solid.eq_nil (hus : Solid us) (h : frontKind (us ++ tail) = .eof) : us = [] := by
  cases us with
  | nil => rfl
  | cons u us => exact absurd h (hus u List.mem_cons_self)

theorem skipStatement_of_end (htail : frontKind tail = .eof) : skipStatement tail = tail := by
  cases tail with
  | nil => rfl
  | cons t ts => exact if_pos htail

/-- Where tokens end with a semicolon, what is skipped does too. -/
theorem exists_skipStatement (hvs : Solid vs) (hends : EndsClause vs)
    (htail : frontKind tail = .eof) :
    ∃ skipped behind, vs = skipped ++ behind ∧ skipStatement (vs ++ tail) = behind ++ tail ∧
      EndsClause skipped ∧ (skipped = [] → vs = []) := by
  induction vs with
  | nil => exact ⟨[], [], rfl, skipStatement_of_end htail, endsClause_nil, fun _ => rfl⟩
  | cons v vs ih =>
      obtain ⟨hv, hvs⟩ := List.forall_mem_cons.mp hvs
      rw [List.cons_append, skipStatement, if_neg hv]
      by_cases hsemicolon : v.kind = symbol .semicolon
      · rw [if_pos hsemicolon]
        refine ⟨[v], vs, rfl, rfl, ?_, fun h => absurd h (List.cons_ne_nil v [])⟩
        rintro t ⟨⟩
        exact hsemicolon
      · rw [if_neg hsemicolon]
        have hends : EndsClause ([v] ++ vs) := hends
        obtain ⟨skipped, behind, rfl, hskip, hskipped, hnone⟩ := ih hvs hends.of_append
        refine ⟨v :: skipped, behind, rfl, hskip, ?_, fun h => absurd h (List.cons_ne_nil v _)⟩
        -- the semicolon at the end is still to come, so more than this token is skipped
        have hne : skipped ≠ [] := by
          intro hnil
          rw [hnone hnil] at hends
          exact hsemicolon (hends v rfl)
        exact hskipped.prepend hne [v]

theorem exists_skipped (hus : Solid us) (hends : EndsClause us) (htail : frontKind tail = .eof)
    (hfront : Solid front) (h : us ++ tail = front ++ mid) :
    ∃ skipped behind, us = front ++ skipped ++ behind ∧ skipStatement mid = behind ++ tail ∧
      EndsClause (front ++ skipped) := by
  obtain ⟨vs, rfl, rfl⟩ := hfront.exists_append htail h
  obtain ⟨skipped, behind, rfl, hskip, hskipped, hnone⟩ :=
    exists_skipStatement (solid_append.mp hus).2 hends.of_append htail
  refine ⟨skipped, behind, (List.append_assoc ..).symm, hskip, ?_⟩
  by_cases hnil : skipped = []
  · rwa [hnone hnil, List.append_nil, ← List.append_nil front, ← hnil] at hends
  · exact hskipped.prepend hnil front

end Tokens

/-! ## What is missed -/

/-- The end of the source stands where the end of a block should. -/
def Diagnostic.IsMissingEnd (d : Diagnostic) : Prop :=
  d.cause = .unexpectedToken (.token (keyword .end)) TokenKind.eof.name

instance : DecidablePred Diagnostic.IsMissingEnd := fun d =>
  inferInstanceAs (Decidable (d.cause = _))

theorem Complaint.not_isMissingEnd {d : Diagnostic} (h : Complaint d) : ¬ d.IsMissingEnd := by
  intro hmissing
  cases h with
  | unexpected asked => exact asked (DiagnosticCause.unexpectedToken.inj hmissing).1
  | invalidNumber => cases hmissing
  | nameTooLong _ => cases hmissing
  | nestingTooDeep => cases hmissing

theorem Diagnostic.IsMismatch.not_isMissingEnd {d : Diagnostic} (h : d.IsMismatch) :
    ¬ d.IsMissingEnd := by
  obtain ⟨expected, found, hcause⟩ := h.cause
  intro hmissing
  cases hcause.symm.trans hmissing

theorem isMissingEnd_unexpected {t : Token} (ht : t.kind = .eof) :
    (Diagnostic.unexpected (.token (keyword .end)) t).IsMissingEnd := by
  unfold Diagnostic.IsMissingEnd Diagnostic.unexpected Diagnostic.ofToken Token.mention
  simp [ht]

namespace Parse

variable {eof : Token} {frames : List Frame} {done : List Statement}

theorem countP_finish {t : Token} (ht : t.kind = .eof) (frames : List Frame)
    (done : List Statement) :
    (finish .recover t frames done).noted.countP (·.IsMissingEnd) = frames.length := by
  induction frames generalizing done with
  | nil => rfl
  | cons f fs ih =>
      have hcons : (finish .recover t (f :: fs) done).noted =
          .unexpected (.token (keyword .end)) t ::
            (finish .recover t fs (f.close done none)).noted := rfl
      rw [hcons, List.countP_cons_of_pos (by simpa using isMissingEnd_unexpected ht), ih,
        List.length_cons]

/-! ## What is lost -/

/-- The tokens that are lost in a turn: all that it takes if it notes an error, but not the word
that closes a block. -/
def Turn.lost (frames : List Frame) (tokens : List Token) (next : Turn) : List Token :=
  if next.noted.any (·.severity = .error) then
    let taken := tokens.take (tokens.length - next.rest.length)
    if next.frames.length < frames.length then taken.tail else taken
  else []

/-- The tokens that are lost in a run that goes on after errors. -/
def lost (eof : Token) (frames : List Frame) (done : List Statement) : List Token → List Token
  | [] => []
  | t :: ts =>
    if ht : t.kind = .eof then []
    else
      let next := turn eof frames done t ts ht
      next.lost frames (t :: ts) ++ lost eof next.frames next.done next.rest
termination_by tokens => tokens.length
decreasing_by exact length_turn eof frames done t ts ht

theorem lost_end {tokens : List Token} (hend : frontKind tokens = .eof) :
    lost eof frames done tokens = [] := by
  cases tokens with
  | nil => rw [lost]
  | cons t ts => rw [lost, dif_pos (show t.kind = .eof from hend)]

theorem lost_cons {t : Token} (ts : List Token) (ht : t.kind ≠ .eof) :
    lost eof frames done (t :: ts) =
      (turn eof frames done t ts ht).lost frames (t :: ts) ++
        lost eof (turn eof frames done t ts ht).frames (turn eof frames done t ts ht).done
          (turn eof frames done t ts ht).rest := by
  rw [lost, dif_neg ht]

/-! ## One turn -/

/-- What a turn does to the tokens in front of the end of the source. It takes the first of them, up
to a semicolon, and the number of open blocks changes by their surplus less that of what is lost. -/
structure Turn.Takes (frames : List Frame) (us tail : List Token) (next : Turn)
    (taken behind : List Token) : Prop where
  split : us = taken ++ behind
  rest : next.rest = behind ++ tail
  ends : EndsClause taken
  lost : EndsClause (next.lost frames (us ++ tail))
  balance : (next.frames.length : Int) + surplus (next.lost frames (us ++ tail)) =
    frames.length + surplus taken
  noted : ∀ d ∈ next.noted, ¬ d.IsMissingEnd

section Turns

variable {us tail front mid taken behind : List Token} {next : Turn}

/-- Without an error nothing is lost. -/
theorem Turn.takes_of_no_error (hsplit : us = taken ++ behind) (hrest : next.rest = behind ++ tail)
    (hends : EndsClause taken)
    (hframes : (next.frames.length : Int) = frames.length + surplus taken)
    (hnoted : ∀ d ∈ next.noted, d.IsMismatch) :
    next.Takes frames us tail taken behind := by
  have hlost : next.lost frames (us ++ tail) = [] := by
    unfold Turn.lost
    rw [if_neg]
    cases hd : next.noted with
    | none => simp
    | some d => simp [(hnoted d hd).severity]
  exact
    { split := hsplit
      rest := hrest
      ends := hends
      lost := hlost ▸ endsClause_nil
      balance := by rw [hlost, surplus_nil, Int.add_zero, hframes]
      noted := fun d hd => (hnoted d hd).not_isMissingEnd }

/-- After an error all is lost that is taken, apart from the word that closes a block. -/
theorem Turn.lost_of_error {d : Diagnostic} (hsplit : us = taken ++ behind)
    (hrest : next.rest = behind ++ tail) (hnoted : next.noted = some d)
    (hd : d.severity = .error) :
    next.lost frames (us ++ tail) =
      if next.frames.length < frames.length then taken.tail else taken := by
  have htaken : (us ++ tail).take ((us ++ tail).length - next.rest.length) = taken := by
    subst hsplit
    rw [hrest]
    simp
  unfold Turn.lost
  rw [if_pos (by simp [hnoted, hd])]
  dsimp only
  rw [htaken]

theorem Turn.exists_takes_of_error {d : Diagnostic} (hus : Solid us) (hends : EndsClause us)
    (htail : frontKind tail = .eof) (hfront : Solid front) (h : us ++ tail = front ++ mid)
    (hrest : next.rest = skipStatement mid) (hnoted : next.noted = some d) (hd : Complaint d)
    (hframes : next.frames = frames) :
    ∃ taken behind, next.Takes frames us tail taken behind := by
  obtain ⟨skipped, behind, hsplit, hskip, htaken⟩ := exists_skipped hus hends htail hfront h
  have hrest := hrest.trans hskip
  have hlost : next.lost frames (us ++ tail) = front ++ skipped := by
    rw [Turn.lost_of_error hsplit hrest hnoted hd.severity, hframes, if_neg (Nat.lt_irrefl _)]
  exact ⟨front ++ skipped, behind,
    { split := hsplit
      rest := hrest
      ends := htaken
      lost := hlost ▸ htaken
      balance := by rw [hlost, hframes]
      noted := by
        rw [hnoted]
        rintro _ ⟨⟩
        exact hd.not_isMissingEnd }⟩

/-- The end of a block closes it, even if the rest of it is spoiled. -/
theorem Turn.exists_takes_of_end_error {d : Diagnostic} {f : Frame} {t : Token} (hus : Solid us)
    (hends : EndsClause us) (htail : frontKind tail = .eof) (hfront : Solid (t :: front))
    (ht : t.kind = keyword .end) (h : us ++ tail = t :: front ++ mid)
    (hrest : next.rest = skipStatement mid) (hnoted : next.noted = some d) (hd : Complaint d)
    (hframes : frames = f :: next.frames) :
    ∃ taken behind, next.Takes frames us tail taken behind := by
  obtain ⟨skipped, behind, hsplit, hskip, htaken⟩ := exists_skipped hus hends htail hfront h
  have hrest := hrest.trans hskip
  have hlost : next.lost frames (us ++ tail) = front ++ skipped := by
    rw [Turn.lost_of_error hsplit hrest hnoted hd.severity, hframes, List.length_cons,
      if_pos (Nat.lt_succ_self _)]
    rfl
  -- the word in front is not lost, and closes the block that the turn leaves
  have hsurplus := surplus_cons_end ht (front ++ skipped)
  have htaken : EndsClause ([t] ++ (front ++ skipped)) := htaken
  exact ⟨t :: front ++ skipped, behind,
    { split := hsplit
      rest := hrest
      ends := htaken
      lost := hlost ▸ htaken.of_append
      balance := by
        rw [hlost, hframes, List.length_cons, List.cons_append, hsurplus]
        omega
      noted := by
        rw [hnoted]
        rintro _ ⟨⟩
        exact hd.not_isMissingEnd }⟩

/-- What a parser takes is in front of the end of the source. -/
theorem exists_left {α : Type} {p : Parser α} (hp : p.Built (· ≠ .eof)) (heof : eof.kind = .eof)
    (ts : List Token) : ∃ front, ts = front ++ (p eof ts).rest ∧ Solid front := by
  obtain ⟨front, result, rest, rfl, hread⟩ := hp.exists_reads (by simp) heof ts
  refine ⟨front, ?_, hread.kinds⟩
  rw [(hread.answers eof rest heof rfl).2]

section Items

variable {depth : Nat} {t : Token} {ts : List Token} {ht : t.kind ≠ .eof} {d : Diagnostic}

theorem exists_skip_ofReading {α : Type} {p : Parser α} (hp : p.Built (· ≠ .eof))
    (heof : eof.kind = .eof) (ht : t.kind ≠ .eof) {make : α → Item}
    (h : (Step.ofReading make (p eof ts) : Step (t :: ts)).result = .error d) :
    ∃ front mid, t :: ts = front ++ mid ∧ Solid front ∧
      (Step.ofReading make (p eof ts) : Step (t :: ts)).rest = skipStatement mid := by
  obtain ⟨front, hsplit, hfront⟩ := exists_left hp heof ts
  refine ⟨t :: front, (p eof ts).rest, congrArg (t :: ·) hsplit,
    List.forall_mem_cons.mpr ⟨ht, hfront⟩, ?_⟩
  cases hresult : (p eof ts).result with
  | ok a => cases h.symm.trans (ofReading_ok hresult make).1
  | error e => exact (ofReading_error hresult make).2

/-- Behind a mistake the statement is skipped. -/
theorem exists_skip_readItem (heof : eof.kind = .eof)
    (h : (readItem depth eof t ts ht).result = .error d) :
    ∃ front mid, t :: ts = front ++ mid ∧ Solid front ∧
      (readItem depth eof t ts ht).rest = skipStatement mid := by
  have hskip : ∃ front mid, t :: ts = front ++ mid ∧ Solid front ∧
      skipStatement (t :: ts) = skipStatement mid := ⟨[], t :: ts, rfl, nofun, rfl⟩
  unfold readItem at h ⊢
  split at h
  next => exact exists_skip_ofReading Parser.built_declaration heof ht h
  next => exact exists_skip_ofReading Parser.built_procedure heof ht h
  next =>
    split
    · split
      · exact hskip
      · next hcolon hdepth =>
        rw [if_pos hcolon, if_neg hdepth] at h
        exact exists_skip_ofReading (Parser.built_blockHeader t) heof ht h
    · exact hskip
  next => exact hskip

end Items

/-- Every turn keeps the balance. -/
theorem exists_takes_turn (heof : eof.kind = .eof) (frames : List Frame) (done : List Statement)
    (hus : Solid us) (hends : EndsClause us) (htail : frontKind tail = .eof) {t : Token}
    {ts : List Token} (ht : t.kind ≠ .eof) (h : us ++ tail = t :: ts) :
    ∃ taken behind, (turn eof frames done t ts ht).Takes frames us tail taken behind := by
  -- a block is closed only where one is open; outside of all blocks its end is read as an item
  by_cases hclose : t.kind = keyword .end ∧ frames ≠ []
  · obtain ⟨hkind, hne⟩ := hclose
    obtain ⟨f, fs, rfl⟩ := List.exists_cons_of_ne_nil hne
    rw [turn_close ht hkind]
    cases hresult : (Parser.blockEnd eof ts).result with
    | ok t? =>
        obtain ⟨us', hphrase, hsplit⟩ := (Parser.yields_blockEnd_iff heof hkind).mp
          ⟨t?, ⟨hresult, rfl⟩, rfl⟩
        obtain ⟨vs, rfl, hrest⟩ := Solid.exists_append hphrase.sound.solid htail
          (h.trans (congrArg (t :: ·) hsplit))
        refine ⟨_, vs, Turn.takes_of_no_error rfl hrest hphrase.isClause.endsClause ?_ ?_⟩
        · rw [hphrase.surplus, List.length_cons]
          dsimp only
          omega
        · exact fun d hd => isMismatch hd
    | error d =>
        obtain ⟨front, hsplit, hfront⟩ := exists_left Parser.built_blockEnd heof ts
        have hd := Parser.built_blockEnd.complaint (by simp) heof ⟨hresult, rfl⟩
        exact Turn.exists_takes_of_end_error hus hends htail
          (List.forall_mem_cons.mpr ⟨ht, hfront⟩) hkind (h.trans (congrArg (t :: ·) hsplit)) rfl
          rfl hd rfl
  · rw [turn_item ht fun f fs hkind hframes => hclose ⟨hkind, by simp [hframes]⟩]
    cases hresult : (readItem frames.length eof t ts ht).result with
    | ok item =>
        obtain ⟨us', hphrase, hsplit⟩ := (readItem_reads_iff heof).mp ⟨hresult, rfl⟩
        obtain ⟨vs, rfl, hrest⟩ := Solid.exists_append hphrase.sound.solid htail
          (h.trans (congrArg (t :: ·) hsplit))
        refine ⟨t :: us', vs, ?_⟩
        cases hphrase with
        | declaration inner =>
            rw [itemTurn_statement hresult]
            exact Turn.takes_of_no_error rfl hrest inner.partsClause.isClause.endsClause
              (by simp [inner.partsClause.surplus]) nofun
        | procedure inner =>
            rw [itemTurn_statement hresult]
            exact Turn.takes_of_no_error rfl hrest inner.partsClause.isClause.endsClause
              (by simp [inner.partsClause.surplus]) nofun
        | opening _ header =>
            rw [itemTurn_opening hresult]
            exact Turn.takes_of_no_error rfl hrest header.endsClause (by simp [header.surplus])
              nofun
    | error d =>
        obtain ⟨front, mid, hsplit, hfront, hskip⟩ := exists_skip_readItem heof hresult
        rw [itemTurn_error hresult]
        exact Turn.exists_takes_of_error hus hends htail hfront (h.trans hsplit) hskip rfl
          (complaint_readItem heof hresult) rfl

end Turns

/-! ## A run -/

/-- At the end of a run that goes on after errors, as many ends are missed as the tokens open blocks
more than they close, up to what is lost. -/
theorem countP_run (heof : eof.kind = .eof) (frames : List Frame) (done : List Statement)
    {us tail : List Token} (hus : Solid us) (hends : EndsClause us)
    (htail : frontKind tail = .eof) :
    ((run .recover eof frames done (us ++ tail)).noted.countP (·.IsMissingEnd) : Int) +
      surplus (lost eof frames done (us ++ tail)) = frames.length + surplus us := by
  generalize htokens : us ++ tail = tokens
  -- what the open blocks and the tokens that are left add up to is the same in front of every turn
  induction frames, done, tokens using turn_induction eof generalizing us with
  | ends frames done tokens hend =>
      subst htokens
      obtain rfl := hus.eq_nil hend
      have hfront : (Parser.front eof ([] ++ tail)).kind = .eof :=
        (Parser.kind_front heof).trans hend
      rw [run_end hend, lost_end hend, countP_finish hfront]
  | turns frames done t ts ht ih =>
      obtain ⟨taken, behind, htakes⟩ :=
        exists_takes_turn heof frames done hus hends htail ht htokens
      have hsplit := htakes.split
      subst hsplit
      have hrest := ih (solid_append.mp hus).2 hends.of_append htakes.rest.symm
      have hbalance := htakes.balance
      have hlost := htakes.lost
      rw [htokens] at hbalance hlost
      have hnoted : (turn eof frames done t ts ht).noted.toList.countP (·.IsMissingEnd) = 0 :=
        List.countP_eq_zero.mpr fun d hd => by simpa using htakes.noted d (Option.mem_toList.mp hd)
      rw [run_cons heof ts ht, lost_cons ts ht, noted_after_recover, List.countP_append, hnoted,
        surplus_append hlost, surplus_append htakes.ends]
      omega

end Parse

namespace Parsed

/-- The tokens that are lost where parsing goes on after errors. -/
def lost (tokens : List Token) : List Token :=
  Parse.lost (endToken tokens) [] [] tokens

/-- The number of blocks whose ends are missed. -/
def missing (tokens : List Token) : Nat :=
  (recovered tokens).diagnostics.countP (·.IsMissingEnd)

theorem missing_eq_zero_iff {tokens : List Token} :
    missing tokens = 0 ↔ ∀ d ∈ (recovered tokens).diagnostics, ¬ d.IsMissingEnd := by
  unfold missing
  simp [List.countP_eq_zero]

theorem missing_add_surplus {us tail : List Token} (hus : Solid us) (hends : EndsClause us)
    (htail : frontKind tail = .eof) :
    (missing (us ++ tail) : Int) + surplus (lost (us ++ tail)) = surplus us := by
  have heof := endToken_kind (us ++ tail)
  obtain ⟨program, hprogram⟩ := Parse.run_recover heof [] [] (us ++ tail)
  have hcount := Parse.countP_run heof [] [] hus hends htail
  unfold missing lost
  rw [recovered_of_result hprogram, Parse.ofTokens]
  simpa using hcount

/-- Counting headers and ends agrees with the parser on whether a block is open, up to what is lost:
they count for as many open blocks as the ends the parser misses and those that the lost tokens open
more than they close. Where no header and no end is lost, a source that ends with a semicolon is at
a boundary exactly if no end is missed. -/
theorem atBoundary_iff_missing (source file : String) {lexed : Lexed}
    (hlexed : Lexed.ofSource .recover source file = .ok lexed)
    (hends : EndsClause lexed.tokens.dropLast) :
    (atBoundary lexed.tokens = true ↔
        (missing lexed.tokens : Int) + surplus (lost lexed.tokens) ≤ 0) ∧
      ((∀ t ∈ lost lexed.tokens, t.kind ≠ keyword .do ∧ t.kind ≠ keyword .end) →
        (atBoundary lexed.tokens = true ↔
          ∀ d ∈ (recovered lexed.tokens).diagnostics, ¬ d.IsMissingEnd)) := by
  obtain ⟨us, eof, htokens, heof, hus⟩ : ∃ us eof, lexed.tokens = us ++ [eof] ∧ eof.kind = .eof ∧
      Solid us := by
    rw [Lexed.eq_of_ofSource hlexed]
    exact ⟨_, _, rfl, rfl, fun t ht => Lexed.kind_ne_eof_of_mem ht⟩
  rw [htokens, List.dropLast_concat] at hends
  rw [htokens]
  have htail : frontKind [eof] = .eof := heof
  have hbalance := missing_add_surplus hus hends htail
  have hexact : atBoundary (us ++ [eof]) = true ↔
      (missing (us ++ [eof]) : Int) + surplus (lost (us ++ [eof])) ≤ 0 := by
    rw [atBoundary_concat us heof, atBoundary_iff_of_endsClause hus hends, hbalance, surplus]
    omega
  refine ⟨hexact, fun hwords => ?_⟩
  have hnone : surplus (lost (us ++ [eof])) = 0 := by
    rw [surplus, openings_eq_zero fun t ht => (hwords t ht).1,
      closings_eq_zero fun t ht => (hwords t ht).2]
    rfl
  rw [hexact, hnone, ← missing_eq_zero_iff]
  omega

/-- In one source the end of a block that is not there is lost, and a block stays open. In the other
one a statement inside of a block that stays open is lost. -/
theorem atBoundary_iff_missing_lost :
    ∃ stray inside, Lexed.ofSource .recover "end; m: do;" "a" = .ok stray ∧
      Lexed.ofSource .recover "m: do; decl 3 int;" "a" = .ok inside ∧
      EndsClause stray.tokens.dropLast ∧ EndsClause inside.tokens.dropLast ∧
      (lost stray.tokens).map Token.kind = [keyword .end, symbol .semicolon] ∧
      missing stray.tokens = 1 ∧ atBoundary stray.tokens = true ∧
      (lost inside.tokens).map Token.kind = [keyword .decl, .int, .typeName, symbol .semicolon] ∧
      (∀ t ∈ lost inside.tokens, t.kind ≠ keyword .do ∧ t.kind ≠ keyword .end) ∧
      (atBoundary inside.tokens = true ↔
        ∀ d ∈ (recovered inside.tokens).diagnostics, ¬ d.IsMissingEnd) ∧
      atBoundary inside.tokens = false := by
  have hends : ∀ us : List Token, (∀ t ∈ us.getLast?, t.kind = symbol .semicolon) → EndsClause us :=
    fun _ h => h
  have hinside := atBoundary_iff_missing "m: do; decl 3 int;" "a" rfl
    (hends _ (by decide +kernel))
  have hstray := atBoundary_iff_missing "end; m: do;" "a" rfl
    (hends _ (by decide +kernel))
  exact ⟨_, _, rfl, rfl, hends _ (by decide +kernel), hends _ (by decide +kernel),
    by decide +kernel, by decide +kernel, hstray.1.mpr (by decide +kernel), by decide +kernel,
    by decide +kernel, hinside.2 (by decide +kernel), by decide +kernel⟩

/-- A block that stays open may be missed by counting. -/
theorem not_atBoundary_iff_missing :
    ¬ ∀ (source file : String) (lexed : Lexed), Lexed.ofSource .recover source file = .ok lexed →
      (∃ t ∈ lexed.tokens.dropLast.getLast?, t.kind = symbol .semicolon) →
        (atBoundary lexed.tokens = true ↔
          ∀ d ∈ (recovered lexed.tokens).diagnostics, ¬ d.IsMissingEnd) := by
  intro h
  have hagrees := h "end; m: do;" "a" _ rfl (by decide +kernel)
  exact absurd (hagrees.mp (by decide +kernel)) (by decide +kernel)

end Parsed

end TickMachine
