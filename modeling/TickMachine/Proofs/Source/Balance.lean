import TickMachine.Proofs.Source.Moving
import TickMachine.Source.Completeness

/-! # Blocks are balanced

A whole number of statements opens as many blocks as it closes. What stops in the middle of a
statement, behind one of the semicolons inside of it, has opened more than it has closed; so
counting tells where a list of statements may be cut.
-/

namespace TickMachine

open TokenKind (keyword symbol)

/-! ## Counting -/

theorem openings_cons_of_ne {t : Token} (ts : List Token) (ht : t.kind ≠ .ident) :
    openings (t :: ts) = openings ts := by
  match ts with
  | [] => rfl
  | [_] => rfl
  | _ :: _ :: _ => simp [openings, ht]

/-- No header goes over the end of a statement. -/
theorem openings_append {us : List Token} (h : EndsClause us) (vs : List Token) :
    openings (us ++ vs) = openings us + openings vs := by
  induction us with
  | nil => simp [openings]
  | cons a us ih =>
      match us with
      | [] =>
          have ha : a.kind = symbol .semicolon := h a rfl
          have hne : a.kind ≠ .ident := by simp [ha]
          rw [List.singleton_append, openings_cons_of_ne vs hne, openings_cons_of_ne [] hne]
          simp [openings]
      | [b] =>
          have hb : b.kind = symbol .semicolon := h b rfl
          have hrest := ih h
          cases vs with
          | nil => simp [openings]
          | cons v vs =>
              rw [List.singleton_append] at hrest
              simp [openings, hb, hrest]
      | b :: c :: us =>
          have hrest := ih h
          simp only [List.cons_append] at hrest ⊢
          simp only [openings, hrest, Nat.add_assoc]

theorem openings_eq_zero {us : List Token} (h : ∀ t ∈ us, t.kind ≠ keyword .do) :
    openings us = 0 := by
  fun_induction openings us with
  | case1 a b c rest header ih =>
      have hheader : ¬ header := fun hheader => h c (by simp) hheader.2.2
      rw [if_neg hheader, ih fun t ht => h t (List.mem_cons_of_mem a ht)]
  | case2 => rfl

theorem closings_append (us vs : List Token) : closings (us ++ vs) = closings us + closings vs :=
  List.countP_append

theorem closings_eq_zero {us : List Token} (h : ∀ t ∈ us, t.kind ≠ keyword .end) :
    closings us = 0 :=
  List.countP_eq_zero.mpr (by simpa using h)

theorem endsClause_nil : EndsClause [] := by
  simp [EndsClause]

theorem EndsClause.append {us vs : List Token} (hus : EndsClause us) (hvs : EndsClause vs) :
    EndsClause (us ++ vs) := by
  intro t ht
  rw [List.getLast?_append, Option.mem_def, Option.or_eq_some_iff] at ht
  rcases ht with ht | ⟨-, ht⟩
  · exact hvs t ht
  · exact hus t ht

theorem EndsClause.prepend {vs : List Token} (h : EndsClause vs) (hne : vs ≠ [])
    (us : List Token) : EndsClause (us ++ vs) := by
  intro t ht
  rw [List.getLast?_append_of_ne_nil us hne] at ht
  exact h t ht

theorem EndsClause.of_append {us vs : List Token} (h : EndsClause (us ++ vs)) : EndsClause vs := by
  intro t ht
  refine h t ?_
  rw [List.getLast?_append, Option.mem_def.mp ht]
  rfl

/-! ## Whole statements -/

theorem IsClause.endsClause {us : List Token} (h : IsClause us) : EndsClause us := by
  obtain ⟨ts, semicolon, rfl, hsemicolon, -⟩ := h
  intro t ht
  obtain rfl : semicolon = t := by simpa using ht
  exact hsemicolon

theorem PartsClause.balanced {us : List Token} (h : PartsClause us) :
    openings us = 0 ∧ closings us = 0 := by
  obtain ⟨parts, semicolon, rfl, ends, hparts⟩ := h
  constructor
  · refine openings_eq_zero (List.forall_mem_append.mpr ⟨fun t ht => (hparts t ht).2.2.1, ?_⟩)
    simp [ends]
  · refine closings_eq_zero (List.forall_mem_append.mpr ⟨fun t ht => (hparts t ht).2.2.2.1, ?_⟩)
    simp [ends]

theorem HeaderPhrase.balanced {us : List Token} {position : Position} {name : Name}
    (h : HeaderPhrase us position name) : openings us = 1 ∧ closings us = 0 := by
  cases h with
  | intro kind _ marks opens ends => simp [openings, closings, kind, marks, opens, ends]

theorem HeaderPhrase.endsClause {us : List Token} {position : Position} {name : Name}
    (h : HeaderPhrase us position name) : EndsClause us := by
  cases h with
  | intro kind _ marks opens ends => simpa [EndsClause] using ends

theorem EndPhrase.balanced {us : List Token} {closing : BlockEnd} (h : EndPhrase us closing) :
    openings us = 0 ∧ closings us = 1 := by
  cases h with
  | unnamed kind ends => simp [openings, closings, kind, ends]
  | named kind ident ends => simp [openings, closings, kind, ident, ends]

mutual

theorem StatementPhrase.endsClause {depth : Nat} {us : List Token} {s : Statement}
    (h : StatementPhrase depth us s) : EndsClause us := by
  cases h with
  | declaration inner => exact inner.partsClause.isClause.endsClause
  | procedure inner => exact inner.partsClause.isClause.endsClause
  | block _ header inner footer =>
      exact (header.endsClause.append inner.endsClause).append footer.isClause.endsClause

theorem BodyPhrase.endsClause {depth : Nat} {us : List Token} {ss : List Statement}
    (h : BodyPhrase depth us ss) : EndsClause us := by
  cases h with
  | nil => exact nofun
  | cons first others => exact first.endsClause.append others.endsClause

end

mutual

theorem StatementPhrase.balanced {depth : Nat} {us : List Token} {s : Statement}
    (h : StatementPhrase depth us s) : openings us = closings us := by
  cases h with
  | declaration inner => rw [inner.partsClause.balanced.1, inner.partsClause.balanced.2]
  | procedure inner => rw [inner.partsClause.balanced.1, inner.partsClause.balanced.2]
  | block _ header inner footer =>
      rw [openings_append (header.endsClause.append inner.endsClause),
        openings_append header.endsClause, closings_append, closings_append, header.balanced.1,
        header.balanced.2, inner.balanced, footer.balanced.1, footer.balanced.2]
      omega

/-- Whole statements close all the blocks they open. -/
theorem BodyPhrase.balanced {depth : Nat} {us : List Token} {ss : List Statement}
    (h : BodyPhrase depth us ss) : openings us = closings us := by
  cases h with
  | nil => rfl
  | cons first others =>
      rw [openings_append first.endsClause, closings_append, first.balanced, others.balanced]

end

/-! ## What stops in the middle -/

/-- The header of a block is taken as a whole or not at all. -/
theorem HeaderPhrase.exists_append {us vs ts ws : List Token} {position : Position} {name : Name}
    (h : HeaderPhrase us position name) (hsplit : us ++ ts = vs ++ ws) (hne : vs ≠ [])
    (hends : EndsClause vs) : ∃ more, vs = us ++ more ∧ ts = more ++ ws := by
  cases h with
  | @intro t colon word semicolon _ kind _ marks opens ends =>
      match vs with
      | [] => exact absurd rfl hne
      | [a] =>
          obtain ⟨rfl, -⟩ := List.cons.inj hsplit
          exact absurd (hends _ rfl) (by simp [kind])
      | [a, b] =>
          simp only [List.cons_append, List.cons.injEq] at hsplit
          obtain ⟨rfl, rfl, -⟩ := hsplit
          exact absurd (hends _ rfl) (by simp [marks])
      | [a, b, c] =>
          simp only [List.cons_append, List.cons.injEq] at hsplit
          obtain ⟨rfl, rfl, rfl, -⟩ := hsplit
          exact absurd (hends _ rfl) (by simp [opens])
      | a :: b :: c :: d :: more =>
          simp only [List.cons_append, List.cons.injEq, List.nil_append] at hsplit
          obtain ⟨rfl, rfl, rfl, rfl, rfl⟩ := hsplit
          exact ⟨more, rfl, rfl⟩

mutual

/-- A part of a statement that stops behind a semicolon has opened more than it has closed. -/
theorem StatementPhrase.unbalanced {depth : Nat} {us vs ws : List Token} {s : Statement}
    (h : StatementPhrase depth us s) (hsplit : us = vs ++ ws) (hne : vs ≠ [])
    (hends : EndsClause vs) : ws = [] ∨ closings vs < openings vs := by
  cases h with
  | declaration inner =>
      exact .inl ((hsplit ▸ inner.partsClause.isClause).eq_nil_of_endsClause hne hends)
  | procedure inner =>
      exact .inl ((hsplit ▸ inner.partsClause.isClause).eq_nil_of_endsClause hne hends)
  | @block _ header inner footer _ _ _ _ _ hheader hinner hfooter =>
      rw [List.append_assoc] at hsplit
      obtain ⟨more, rfl, hmore⟩ := hheader.exists_append hsplit hne hends
      have hopened : openings (header ++ more) = 1 + openings more := by
        rw [openings_append hheader.endsClause, hheader.balanced.1]
      have hclosed : closings (header ++ more) = closings more := by
        rw [closings_append, hheader.balanced.2, Nat.zero_add]
      have hinside : closings more ≤ openings more →
          closings (header ++ more) < openings (header ++ more) := by
        omega
      rcases List.append_eq_append_iff.mp hmore with ⟨back, rfl, hback⟩ | ⟨rest, hrest, -⟩
      · by_cases hnone : back = []
        · subst hnone
          rw [List.append_nil] at hinside ⊢
          exact .inr (hinside (Nat.le_of_eq hinner.balanced.symm))
        · have hlast := hends.of_append.of_append
          exact .inl ((hback ▸ hfooter.isClause).eq_nil_of_endsClause hnone hlast)
      · rcases hinner.split hrest hends.of_append with ⟨_, _, -, hbody, -⟩ | hlt
        · exact .inr (hinside (Nat.le_of_eq hbody.balanced.symm))
        · exact .inr (hinside (Nat.le_of_lt hlt))

/-- A part of the statements of a body that stops behind a semicolon is some of the statements, or
has opened more than it has closed. -/
theorem BodyPhrase.split {depth : Nat} {us vs ws : List Token} {ss : List Statement}
    (h : BodyPhrase depth us ss) (hsplit : us = vs ++ ws) (hends : EndsClause vs) :
    (∃ front back, ss = front ++ back ∧ BodyPhrase depth vs front ∧ BodyPhrase depth ws back) ∨
      closings vs < openings vs := by
  cases h with
  | nil =>
      obtain ⟨rfl, rfl⟩ := List.append_eq_nil_iff.mp hsplit.symm
      exact .inl ⟨[], [], rfl, .nil, .nil⟩
  | @cons _ first rest s others hfirst hothers =>
      by_cases hne : vs = []
      · subst hne
        rw [List.nil_append] at hsplit
        subst hsplit
        exact .inl ⟨[], s :: others, rfl, .nil, .cons hfirst hothers⟩
      rcases List.append_eq_append_iff.mp hsplit with ⟨more, rfl, hmore⟩ | ⟨left, hleft, rfl⟩
      · rcases hothers.split hmore hends.of_append with ⟨front, back, rfl, hfront, hback⟩ | hlt
        · exact .inl ⟨s :: front, back, rfl, .cons hfirst hfront, hback⟩
        · refine .inr ?_
          rw [openings_append hfirst.endsClause, closings_append, hfirst.balanced]
          exact Nat.add_lt_add_left hlt _
      · rcases hfirst.unbalanced hleft hne hends with rfl | hlt
        · rw [List.append_nil] at hleft
          subst hleft
          exact .inl ⟨[s], others, rfl, by simpa using BodyPhrase.cons hfirst .nil, hothers⟩
        · exact .inr hlt

end

/-! ## Boundaries -/

/-- No header ends with another word than its own. -/
theorem openings_concat (us : List Token) {t : Token} (ht : t.kind ≠ keyword .do) :
    openings (us ++ [t]) = openings us := by
  fun_induction openings us with
  | case1 a b c rest header ih =>
      simp only [List.cons_append] at ih ⊢
      rw [openings, ih]
  | case2 us hus =>
      match us with
      | [] => rfl
      | [_] => rfl
      | [_, _] => simp [openings, ht]
      | a :: b :: c :: rest => exact absurd rfl (hus a b c rest)

/-- Whether tokens are at a boundary does not depend on an end of the source behind them. -/
theorem atBoundary_concat (us : List Token) {eof : Token} (heof : eof.kind = .eof) :
    atBoundary (us ++ [eof]) = atBoundary us := by
  have hfilter : (us ++ [eof]).filter (·.kind ≠ .eof) = us.filter (·.kind ≠ .eof) := by
    rw [List.filter_append]
    simp [heof]
  have hopenings : openings (us ++ [eof]) = openings us := openings_concat us (by simp [heof])
  have hclosings : closings (us ++ [eof]) = closings us := by
    have hnone : closings [eof] = 0 := closings_eq_zero (by simp [heof])
    rw [closings_append, hnone, Nat.add_zero]
  unfold atBoundary
  rw [hfilter, hopenings, hclosings]

theorem Solid.filter_eq {us : List Token} (h : Solid us) : us.filter (·.kind ≠ .eof) = us :=
  List.filter_eq_self.mpr fun t ht => decide_eq_true (h t ht)

/-- Behind the end of a statement the counts alone tell whether a block is open. -/
theorem atBoundary_iff_of_endsClause {us : List Token} (hsolid : Solid us)
    (hends : EndsClause us) : atBoundary us = true ↔ openings us ≤ closings us := by
  unfold atBoundary
  rw [hsolid.filter_eq]
  cases hlast : us.getLast? with
  | none =>
      obtain rfl := List.getLast?_eq_none_iff.mp hlast
      simp [openings]
  | some t => simp [hends t hlast]

/-- Tokens without a fault are at a boundary if they stop behind a statement with no block open. -/
theorem atBoundary_iff {us : List Token} (hsound : Sound us) :
    atBoundary us = true ↔ EndsClause us ∧ openings us ≤ closings us := by
  refine ⟨fun h => ?_, fun h => (atBoundary_iff_of_endsClause hsound.solid h.1).mpr h.2⟩
  have hends : EndsClause us := by
    intro t ht
    unfold atBoundary at h
    rw [hsound.solid.filter_eq, Option.mem_def.mp ht] at h
    simpa [(hsound t (List.mem_of_getLast? ht)).2] using (Bool.and_eq_true_iff.mp h).2
  exact ⟨hends, (atBoundary_iff_of_endsClause hsound.solid hends).mp h⟩

/-- Whole statements end at a boundary. -/
theorem BodyPhrase.atBoundary {depth : Nat} {us : List Token} {ss : List Statement}
    (h : BodyPhrase depth us ss) : atBoundary us = true :=
  (atBoundary_iff h.sound).mpr ⟨h.endsClause, Nat.le_of_eq h.balanced⟩

/-- Where the first tokens of a body stop at a boundary, they are some of its statements. -/
theorem BodyPhrase.split_of_atBoundary {depth : Nat} {us vs : List Token} {ss : List Statement}
    (h : BodyPhrase depth (us ++ vs) ss) (hboundary : TickMachine.atBoundary us = true) :
    ∃ front back, ss = front ++ back ∧ BodyPhrase depth us front ∧ BodyPhrase depth vs back := by
  obtain ⟨hends, hle⟩ := (atBoundary_iff (sound_append.mp h.sound).1).mp hboundary
  exact (h.split rfl hends).resolve_right (Nat.not_lt.mpr hle)

section Moved

variable {us : List Token} {file : String} {lines : UInt32}

theorem openings_moved : openings (us.map (Token.moved file lines)) = openings us := by
  fun_induction openings us with
  | case1 a b c rest header ih =>
      simp only [List.map_cons] at ih ⊢
      rw [openings, ih]
      rfl
  | case2 us hus =>
      match us with
      | [] => rfl
      | [_] => rfl
      | [_, _] => rfl
      | a :: b :: c :: rest => exact absurd rfl (hus a b c rest)

theorem closings_moved : closings (us.map (Token.moved file lines)) = closings us :=
  List.countP_map

/-- Whether tokens are at a boundary does not depend on where they stand. -/
theorem atBoundary_moved : atBoundary (us.map (Token.moved file lines)) = atBoundary us := by
  have hfilter : (us.map (Token.moved file lines)).filter (·.kind ≠ .eof) =
      (us.filter (·.kind ≠ .eof)).map (Token.moved file lines) :=
    List.filter_map ..
  unfold atBoundary
  rw [openings_moved, closings_moved, hfilter, List.getLast?_map]
  cases (us.filter (·.kind ≠ .eof)).getLast? with
  | none => rfl
  | some t => rfl

end Moved

/-! ## The first tokens of a program -/

/-- The first tokens of a program are at a boundary exactly if they are a program themselves, with
an end of the source behind them or without. -/
theorem Program.atBoundary_iff_accepted {tokens us : List Token} {program : Program}
    (hsolid : ∀ t ∈ tokens, t.kind ≠ .eof) (hprogram : ofTokens tokens = .ok program)
    (hfirst : us <+: tokens) :
    (atBoundary us = true ↔ ∃ p, ofTokens us = .ok p) ∧
      ∀ eof : Token, eof.kind = .eof →
        (atBoundary (us ++ [eof]) = true ↔ ∃ p, ofTokens (us ++ [eof]) = .ok p) := by
  obtain ⟨vs, rfl⟩ := hfirst
  obtain ⟨hus, -⟩ := solid_append.mp hsolid
  have hwhole := bodyPhrase_of_ofTokens hsolid hprogram
  have hboundary : atBoundary us = true ↔ ∃ p, BodyPhrase 0 us p := by
    constructor
    · intro h
      obtain ⟨front, -, -, hfront, -⟩ := hwhole.split_of_atBoundary h
      exact ⟨front, hfront⟩
    · rintro ⟨p, hp⟩
      exact hp.atBoundary
  -- neither the parser nor the counts look at an end of the source behind the tokens
  have haccepted : ∀ behind : List Token, behind.takeWhile (·.kind ≠ .eof) = [] →
      ((∃ p, BodyPhrase 0 us p) ↔ ∃ p, ofTokens (us ++ behind) = .ok p) := by
    intro behind hbehind
    simp only [ofTokens_iff_accepts, Parse.accepts_iff_bodyPhrase (endToken_kind _),
      hus.takeWhile_append, hbehind, List.append_nil]
  refine ⟨?_, fun eof heof => ?_⟩
  · simpa using hboundary.trans (haccepted [] rfl)
  · rw [atBoundary_concat us heof]
    exact hboundary.trans (haccepted [eof] (by simp [heof]))

/-- Behind a block there is a boundary, and behind the first statement inside of it there is not. -/
theorem Program.atBoundary_iff_accepted_block :
    let source := "m: do; decl x int; end m; decl y int;"
    let tokens := ((Lexed.tokensOf source "a").toOption.getD []).dropLast
    let eof := Token.eof "a" .start
    (∀ t ∈ tokens, t.kind ≠ .eof) ∧ (∃ program, ofTokens tokens = .ok program) ∧
      tokens.take 11 <+: tokens ∧ tokens.take 8 <+: tokens ∧ eof.kind = .eof ∧
      (∃ p, ofTokens (tokens.take 11) = .ok p) ∧
      (∃ p, ofTokens (tokens.take 11 ++ [eof]) = .ok p) ∧
      atBoundary (tokens.take 8) = false ∧ ¬ ∃ p, ofTokens (tokens.take 8) = .ok p := by
  intro source tokens eof
  have hsolid : ∀ t ∈ tokens, t.kind ≠ .eof := by decide +kernel
  obtain ⟨program, hprogram⟩ := isOk_iff.mp (by decide +kernel : (ofTokens tokens).isOk = true)
  have hinside : atBoundary (tokens.take 8) = false := by decide +kernel
  obtain ⟨hbehind, hends⟩ :=
    atBoundary_iff_accepted hsolid hprogram (List.take_prefix 11 tokens)
  obtain ⟨hnone, -⟩ := atBoundary_iff_accepted hsolid hprogram (List.take_prefix 8 tokens)
  refine ⟨hsolid, ⟨program, hprogram⟩, List.take_prefix 11 tokens, List.take_prefix 8 tokens, rfl,
    hbehind.mp (by decide +kernel), (hends eof rfl).mp (by decide +kernel), hinside, fun h => ?_⟩
  rw [hnone.mpr h] at hinside
  cases hinside

end TickMachine
