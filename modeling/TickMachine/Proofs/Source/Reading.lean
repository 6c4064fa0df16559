import TickMachine.Source.Parser

/-! # What a parser yields

A parser yields a value if it answers with it instead of a diagnostic. For every combinator there is
one law that says which tokens it takes and what it yields. They are stated for a token at the end
that is of the kind of an end, as those of all callers are.
-/

namespace TickMachine

/-- The kind of the token in front, where nothing is left that of an end of source. -/
def frontKind : List Token → TokenKind
  | [] => .eof
  | t :: _ => t.kind

@[simp] theorem frontKind_nil : frontKind [] = .eof := rfl

@[simp] theorem frontKind_cons (t : Token) (ts : List Token) : frontKind (t :: ts) = t.kind := rfl

theorem exists_cons_of_frontKind {tokens : List Token} {kind : TokenKind}
    (hfront : frontKind tokens = kind) (hkind : kind ≠ .eof) :
    ∃ t ts, tokens = t :: ts ∧ t.kind = kind := by
  cases tokens with
  | nil => exact absurd hfront.symm hkind
  | cons t ts => exact ⟨t, ts, rfl, hfront⟩

theorem exists_cons_of_item {α : Type} {item : TokenKind → Option α} {a : α}
    {tokens : List Token} (hend : item .eof = none) (hitem : item (frontKind tokens) = some a) :
    ∃ t ts, tokens = t :: ts ∧ item t.kind = some a := by
  cases tokens with
  | nil => exact absurd (hend.symm.trans hitem) (Option.some_ne_none a).symm
  | cons t ts => exact ⟨t, ts, rfl, hitem⟩

namespace Parser

variable {α β : Type} {eof : Token} {tokens rest : List Token}

/-- The parser takes the tokens in front of `rest` and answers with the value. -/
def Yields (p : Parser α) (eof : Token) (tokens : List Token) (a : α) (rest : List Token) : Prop :=
  (p eof tokens).result = .ok a ∧ (p eof tokens).rest = rest

theorem yields_pure_iff {a b : α} :
    Yields (pure a) eof tokens b rest ↔ b = a ∧ rest = tokens := by
  show Except.ok a = Except.ok b ∧ tokens = rest ↔ _
  rw [Except.ok.injEq]
  exact ⟨fun h => ⟨h.1.symm, h.2.symm⟩, fun h => ⟨h.1.symm, h.2.symm⟩⟩

theorem yields_bind_iff {p : Parser α} {f : α → Parser β} {b : β} :
    Yields (p >>= f) eof tokens b rest ↔
      ∃ a mid, Yields p eof tokens a mid ∧ Yields (f a) eof mid b rest := by
  show (Parser.bind p f eof tokens).result = .ok b ∧ (Parser.bind p f eof tokens).rest = rest ↔ _
  unfold Parser.bind Yields
  rcases p eof tokens with ⟨_ | a, mid, suffix⟩
  · simp
  · constructor
    · exact fun h => ⟨a, mid, ⟨rfl, rfl⟩, h⟩
    · rintro ⟨_, _, ⟨⟨⟩, rfl⟩, h⟩
      exact h

theorem yields_map_iff {p : Parser α} {f : α → β} {b : β} :
    Yields (f <$> p) eof tokens b rest ↔ ∃ a, Yields p eof tokens a rest ∧ b = f a := by
  show Yields (p >>= fun a => pure (f a)) eof tokens b rest ↔ _
  rw [yields_bind_iff]
  constructor
  · rintro ⟨a, mid, hp, hpure⟩
    obtain ⟨rfl, rfl⟩ := yields_pure_iff.mp hpure
    exact ⟨a, hp, rfl⟩
  · rintro ⟨a, hp, rfl⟩
    exact ⟨a, rest, hp, yields_pure_iff.mpr ⟨rfl, rfl⟩⟩

theorem not_yields_fail {d : Diagnostic} {a : α} : ¬ Yields (fail d) eof tokens a rest := by
  rintro ⟨⟨⟩, -⟩

theorem yields_current_iff {t : Token} :
    Yields current eof tokens t rest ↔ t = tokens.head?.getD eof ∧ rest = tokens := by
  show Except.ok _ = Except.ok t ∧ tokens = rest ↔ _
  rw [Except.ok.injEq]
  exact ⟨fun h => ⟨h.1.symm, h.2.symm⟩, fun h => ⟨h.1.symm, h.2.symm⟩⟩

/-- What is read behind a look at the token in front still finds it there. -/
theorem yields_current_bind_iff {f : Token → Parser β} {b : β} :
    Yields (current >>= f) eof tokens b rest ↔
      Yields (f (tokens.head?.getD eof)) eof tokens b rest := by
  rw [yields_bind_iff]
  constructor
  · rintro ⟨t, mid, hcurrent, h⟩
    obtain ⟨rfl, rfl⟩ := yields_current_iff.mp hcurrent
    exact h
  · intro h
    exact ⟨_, _, yields_current_iff.mpr ⟨rfl, rfl⟩, h⟩

theorem yields_current_bind_cons_iff {t : Token} {ts : List Token} {f : Token → Parser β} {b : β} :
    Yields (current >>= f) eof (t :: ts) b rest ↔ Yields (f t) eof (t :: ts) b rest :=
  yields_current_bind_iff

theorem not_yields_unexpected {expected : Expectation} {a : α} :
    ¬ Yields (unexpected expected) eof tokens a rest := by
  intro h
  obtain ⟨t, mid, -, hfail⟩ := yields_bind_iff.mp h
  exact not_yields_fail hfail

theorem yields_advance_cons {t : Token} {ts : List Token} (ht : t.kind ≠ .eof) {u : Unit} :
    Yields advance eof (t :: ts) u rest ↔ rest = ts := by
  unfold Yields advance
  simp only [if_neg ht, true_and]
  exact eq_comm

section Ends

variable (heof : eof.kind = .eof)

include heof

theorem kind_front : (tokens.head?.getD eof).kind = frontKind tokens := by
  cases tokens with
  | nil => exact heof
  | cons t ts => rfl

/-- `accept` takes one token of the kind, or none where the token in front is of another kind. -/
theorem yields_accept_iff {kind : TokenKind} (hkind : kind ≠ .eof) {t? : Option Token} :
    Yields (accept kind) eof tokens t? rest ↔
      (∃ t, t? = some t ∧ t.kind = kind ∧ tokens = t :: rest) ∨
      (t? = none ∧ frontKind tokens ≠ kind ∧ rest = tokens) := by
  unfold accept
  rw [yields_current_bind_iff]
  by_cases hfront : frontKind tokens = kind
  · obtain ⟨t, ts, rfl, ht⟩ := exists_cons_of_frontKind hfront hkind
    have hne : t.kind ≠ .eof := ht ▸ hkind
    rw [List.head?_cons, Option.getD_some, if_pos ht, yields_bind_iff]
    constructor
    · rintro ⟨_, mid, hadvance, hpure⟩
      obtain rfl := (yields_advance_cons hne).mp hadvance
      obtain ⟨rfl, rfl⟩ := yields_pure_iff.mp hpure
      exact .inl ⟨t, rfl, ht, rfl⟩
    · rintro (⟨t', rfl, -, htokens⟩ | ⟨-, hother, -⟩)
      · obtain ⟨rfl, rfl⟩ := List.cons.inj htokens
        exact ⟨(), ts, (yields_advance_cons hne).mpr rfl, yields_pure_iff.mpr ⟨rfl, rfl⟩⟩
      · exact absurd hfront hother
  · have hnot : (tokens.head?.getD eof).kind ≠ kind := kind_front heof ▸ hfront
    rw [if_neg hnot, yields_pure_iff]
    constructor
    · rintro ⟨rfl, rfl⟩
      exact .inr ⟨rfl, hfront, rfl⟩
    · rintro (⟨t, -, ht, rfl⟩ | ⟨rfl, -, rfl⟩)
      · exact absurd ht hfront
      · exact ⟨rfl, rfl⟩

/-- `expectAs` takes exactly one token of the kind. -/
theorem yields_expectAs_iff {kind : TokenKind} (hkind : kind ≠ .eof) {expected : Expectation}
    {t : Token} :
    Yields (expectAs kind expected) eof tokens t rest ↔ t.kind = kind ∧ tokens = t :: rest := by
  unfold expectAs
  rw [yields_bind_iff]
  simp only [yields_accept_iff heof hkind]
  constructor
  · rintro ⟨_, mid, ⟨t', rfl, ht, rfl⟩ | ⟨rfl, -, -⟩, h⟩
    · obtain ⟨rfl, rfl⟩ := yields_pure_iff.mp h
      exact ⟨ht, rfl⟩
    · exact absurd h not_yields_unexpected
  · rintro ⟨ht, rfl⟩
    exact ⟨some t, rest, .inl ⟨t, rfl, ht, rfl⟩, yields_pure_iff.mpr ⟨rfl, rfl⟩⟩

theorem yields_expect_iff {kind : TokenKind} (hkind : kind ≠ .eof) {t : Token} :
    Yields (expect kind) eof tokens t rest ↔ t.kind = kind ∧ tokens = t :: rest :=
  yields_expectAs_iff heof hkind

theorem yields_accept_keyword_iff {k : Keyword} {t? : Option Token} :
    Yields (accept (.keyword k)) eof tokens t? rest ↔
      (∃ t, t? = some t ∧ t.kind = .keyword k ∧ tokens = t :: rest) ∨
      (t? = none ∧ frontKind tokens ≠ .keyword k ∧ rest = tokens) :=
  yields_accept_iff heof (by simp)

theorem yields_expect_symbol_iff {s : Symbol} {t : Token} :
    Yields (expect (.symbol s)) eof tokens t rest ↔ t.kind = .symbol s ∧ tokens = t :: rest :=
  yields_expect_iff heof (by simp)

theorem yields_expect_keyword_iff {k : Keyword} {t : Token} :
    Yields (expect (.keyword k)) eof tokens t rest ↔ t.kind = .keyword k ∧ tokens = t :: rest :=
  yields_expect_iff heof (by simp)

end Ends

/-- `many` stops in front of a token that starts no item. -/
theorem yields_many_stop_iff {item : TokenKind → Option (Parser α)} {as : List α}
    (hitem : item (frontKind tokens) = none) :
    Yields (many item) eof tokens as rest ↔ as = [] ∧ rest = tokens := by
  unfold Yields
  cases tokens with
  | nil =>
      rw [many, Except.ok.injEq, eq_comm, eq_comm (a := rest)]
  | cons t ts =>
      rw [many]
      split
      · rw [Except.ok.injEq, eq_comm, eq_comm (a := rest)]
      · next p hp => exact absurd (hitem.symm.trans hp) (Option.some_ne_none p).symm

/-- In front of a token that starts an item it takes the item and reads on behind it. -/
theorem yields_many_item_iff {item : TokenKind → Option (Parser α)} {p : Parser α} {t : Token}
    {ts : List Token} {as : List α} (hitem : item t.kind = some p) :
    Yields (many item) eof (t :: ts) as rest ↔
      ∃ a others mid, as = a :: others ∧ Yields p eof ts a mid ∧
        Yields (many item) eof mid others rest := by
  unfold Yields
  rw [many]
  split
  · next hnone => exact absurd (hnone.symm.trans hitem) (Option.some_ne_none p).symm
  · next q hq =>
    obtain rfl : p = q := Option.some.inj (hitem.symm.trans hq)
    split
    · next d mid suffix heq => simp only [heq, reduceCtorEq, false_and, and_false, exists_false]
    · next a mid suffix heq =>
      simp only [heq]
      constructor
      · rintro ⟨hresult, hrest⟩
        cases hothers : (many item eof mid).result with
        | error d =>
            rw [hothers] at hresult
            cases hresult
        | ok others =>
            rw [hothers] at hresult
            cases hresult
            exact ⟨a, others, mid, rfl, ⟨rfl, rfl⟩, hothers, hrest⟩
      · rintro ⟨_, others, _, rfl, ⟨⟨⟩, rfl⟩, hothers, hrest⟩
        exact ⟨by rw [hothers, Except.map], hrest⟩

end Parser

end TickMachine
