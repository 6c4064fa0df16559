import TickMachine.Proofs.Source.Grammar
import TickMachine.Proofs.Source.Reading

/-! # Parsers and their phrases

Every parser yields a value exactly if a phrase with this meaning is in front, and it leaves what is
behind the phrase. Where a phrase may go on with an optional part, the parser takes the longest one,
so the token behind it does not start that part.
-/

namespace TickMachine

theorem Token.name?_eq_ok_iff {t : Token} {n : Name} :
    t.name? = .ok n ↔ n.text = t.text.text := by
  rw [← BoundedText.ofString_eq_ok_iff]
  unfold Token.name?
  split
  next m hm => rw [hm, Except.ok.injEq, Except.ok.injEq]
  next e he =>
    rw [he]
    exact iff_of_false nofun nofun

/-- A token of this kind is a type. -/
def StartsType (kind : TokenKind) : Prop :=
  kind = .typeName ∨ kind = .ident

namespace ExpressionPhrase

/-- No expression starts with a symbol. -/
theorem front_ne_symbol {us : List Token} {e : Expression} (h : ExpressionPhrase us e) (s : Symbol)
    (rest : List Token) : frontKind (us ++ rest) ≠ .symbol s := by
  cases h with
  | integer hkind _ => simp [hkind]
  | decimal hkind _ => simp [hkind]
  | identifier hkind => simp [hkind]

end ExpressionPhrase

namespace TypePhrase

theorem startsType {us : List Token} {type : String} (h : TypePhrase us type) (rest : List Token) :
    StartsType (frontKind (us ++ rest)) := by
  cases h with
  | builtIn hkind => exact .inl hkind
  | defined hkind => exact .inr hkind

end TypePhrase

namespace ArgumentPhrase

theorem frontKind_eq {us : List Token} {a : Argument} (h : ArgumentPhrase us a)
    (rest : List Token) : frontKind (us ++ rest) = .ident := by
  cases h with
  | untyped hkind _ => exact hkind
  | typed hkind _ _ => exact hkind

end ArgumentPhrase

namespace DeclaratorPhrase

/-- No declarator starts with a keyword. -/
theorem front_ne_keyword {us : List Token} {d : Declarator} (h : DeclaratorPhrase us d)
    (k : Keyword) (rest : List Token) : frontKind (us ++ rest) ≠ .keyword k := by
  cases h with
  | intro hkind _ _ _ _ => simp [hkind]

end DeclaratorPhrase

namespace Declarator

/-- Modifiers set flags whatever their order is, and only the last initial value is kept. -/
theorem foldl_modify (ms : List Modifier) (d : Declarator) :
    ms.foldl modify d =
      { d with
        visibility := if .public ∈ ms then .public else d.visibility
        isConstant := decide (.const ∈ ms) || d.isConstant
        isTypedef := decide (.typedef ∈ ms) || d.isTypedef
        initial := (ms.filterMap Modifier.initial?).getLast?.or d.initial } := by
  induction ms generalizing d with
  | nil => simp
  | cons m ms ih =>
      rw [List.foldl_cons, ih]
      cases m with
      | typedef => simp [modify, Modifier.initial?]
      | const => simp [modify, Modifier.initial?]
      | «public» => simp [modify, Modifier.initial?]
      | initial value =>
          have hlast : (value :: ms.filterMap Modifier.initial?).getLast?.or d.initial =
              (ms.filterMap Modifier.initial?).getLast?.or (some value) := by
            rw [List.getLast?_cons]
            cases (ms.filterMap Modifier.initial?).getLast? <;> rfl
          simp [modify, Modifier.initial?, hlast, -List.getLast?_filterMap]

end Declarator

namespace Parser

open TokenKind (keyword symbol)

variable {α : Type} {eof : Token} {tokens rest : List Token}

theorem yields_name_iff {t : Token} {n : Name} :
    Yields (name t) eof tokens n rest ↔ n.text = t.text.text ∧ rest = tokens := by
  rw [← Token.name?_eq_ok_iff]
  unfold name
  split
  next m hm => rw [hm, yields_pure_iff, Except.ok.injEq, eq_comm (a := n)]
  next d hd => simp only [hd, not_yields_fail, reduceCtorEq, false_and]

theorem yields_advance_pure_iff {t : Token} {ts : List Token} (ht : t.kind ≠ .eof) {a b : α} :
    Yields (do advance; return a) eof (t :: ts) b rest ↔ b = a ∧ rest = ts := by
  rw [yields_bind_iff]
  constructor
  · rintro ⟨_, mid, hadvance, hpure⟩
    obtain rfl := (yields_advance_cons ht).mp hadvance
    exact yields_pure_iff.mp hpure
  · rintro ⟨rfl, rfl⟩
    exact ⟨(), rest, (yields_advance_cons ht).mpr rfl, yields_pure_iff.mpr ⟨rfl, rfl⟩⟩

/-- A literal or identifier in front is taken, and its value is the answer if it has one. -/
theorem yields_value_iff {t : Token} {ts : List Token} (ht : t.kind ≠ .eof) {d : Diagnostic}
    {value? : Option Expression} {e : Expression} :
    Yields (do
      let value? ← pure value?
      advance
      match value? with
      | some value => return value
      | none => fail d) eof (t :: ts) e rest ↔ value? = some e ∧ rest = ts := by
  simp only [yields_bind_iff]
  constructor
  · rintro ⟨value?, _, hpure, _, mid, hadvance, h⟩
    obtain ⟨rfl, rfl⟩ := yields_pure_iff.mp hpure
    obtain rfl := (yields_advance_cons ht).mp hadvance
    cases value? with
    | none => exact absurd h not_yields_fail
    | some value =>
      obtain ⟨rfl, rfl⟩ := yields_pure_iff.mp h
      exact ⟨rfl, rfl⟩
  · rintro ⟨rfl, rfl⟩
    exact ⟨_, _, yields_pure_iff.mpr ⟨rfl, rfl⟩, (), rest, (yields_advance_cons ht).mpr rfl,
      yields_pure_iff.mpr ⟨rfl, rfl⟩⟩

theorem yields_expression_iff (heof : eof.kind = .eof) {e : Expression} :
    Yields expression eof tokens e rest ↔ ∃ us, ExpressionPhrase us e ∧ tokens = us ++ rest := by
  unfold expression
  constructor
  · intro h
    cases tokens with
    | nil =>
      rw [yields_current_bind_iff, List.head?_nil, Option.getD_none, heof] at h
      obtain ⟨_, _, hunexpected, _⟩ := yields_bind_iff.mp h
      exact absurd hunexpected not_yields_unexpected
    | cons t ts =>
      rw [yields_current_bind_cons_iff] at h
      dsimp only at h
      split at h
      next hkind =>
        obtain ⟨hvalue, rfl⟩ := (yields_value_iff (by simp [hkind])).mp h
        obtain ⟨n, hn, rfl⟩ := Option.map_eq_some_iff.mp hvalue
        exact ⟨[t], .integer hkind (integerLiteral?_eq_some_iff.mp hn), rfl⟩
      next hkind =>
        obtain ⟨hvalue, rfl⟩ := (yields_value_iff (by simp [hkind])).mp h
        obtain ⟨x, hx, rfl⟩ := Option.map_eq_some_iff.mp hvalue
        exact ⟨[t], .decimal hkind (Double.ofChars?_eq_some_iff.mp hx), rfl⟩
      next hkind =>
        obtain ⟨hvalue, rfl⟩ := (yields_value_iff (by simp [hkind])).mp h
        obtain rfl := Option.some.inj hvalue
        exact ⟨[t], .identifier hkind, rfl⟩
      next =>
        obtain ⟨_, _, hunexpected, _⟩ := yields_bind_iff.mp h
        exact absurd hunexpected not_yields_unexpected
  · rintro ⟨us, hphrase, rfl⟩
    cases hphrase with
    | integer hkind hn =>
      rw [List.singleton_append, yields_current_bind_cons_iff, hkind]
      refine (yields_value_iff (by simp [hkind])).mpr ⟨?_, rfl⟩
      rw [integerLiteral?_eq_some_iff.mpr hn, Option.map_some]
    | decimal hkind hx =>
      rw [List.singleton_append, yields_current_bind_cons_iff, hkind]
      refine (yields_value_iff (by simp [hkind])).mpr ⟨?_, rfl⟩
      rw [Double.ofChars?_eq_some_iff.mpr hx, Option.map_some]
    | identifier hkind =>
      rw [List.singleton_append, yields_current_bind_cons_iff, hkind]
      exact (yields_value_iff (by simp [hkind])).mpr ⟨rfl, rfl⟩

theorem yields_typeName_iff (heof : eof.kind = .eof) {type : String} :
    Yields typeName eof tokens type rest ↔ ∃ us, TypePhrase us type ∧ tokens = us ++ rest := by
  unfold typeName
  constructor
  · intro h
    cases tokens with
    | nil =>
        rw [yields_current_bind_iff, List.head?_nil, Option.getD_none, heof] at h
        exact absurd h not_yields_unexpected
    | cons t ts =>
        rw [yields_current_bind_cons_iff] at h
        split at h
        next hkind =>
          obtain ⟨rfl, rfl⟩ := (yields_advance_pure_iff (by simp [hkind])).mp h
          exact ⟨[t], .builtIn hkind, rfl⟩
        next hkind =>
          obtain ⟨rfl, rfl⟩ := (yields_advance_pure_iff (by simp [hkind])).mp h
          exact ⟨[t], .defined hkind, rfl⟩
        next => exact absurd h not_yields_unexpected
  · rintro ⟨us, hphrase, rfl⟩
    cases hphrase with
    | builtIn hkind =>
        rw [List.singleton_append, yields_current_bind_cons_iff, hkind]
        exact (yields_advance_pure_iff (by simp [hkind])).mpr ⟨rfl, rfl⟩
    | defined hkind =>
        rw [List.singleton_append, yields_current_bind_cons_iff, hkind]
        exact (yields_advance_pure_iff (by simp [hkind])).mpr ⟨rfl, rfl⟩

/-- The size in parentheses whose opening one was taken already. -/
theorem yields_arraySize_iff (heof : eof.kind = .eof) {left : Token}
    (hleft : left.kind = symbol .leftParen) {size : ArraySize} :
    Yields arraySize eof tokens size rest ↔
      ∃ us, ArrayPhrase (left :: us) (some size) ∧ tokens = us ++ rest := by
  unfold arraySize
  rw [yields_current_bind_iff, kind_front heof]
  by_cases hfront : frontKind tokens = symbol .rightParen
  · obtain ⟨right, ts, rfl, hright⟩ := exists_cons_of_frontKind hfront nofun
    rw [if_pos hfront, yields_advance_pure_iff (by simp [hright])]
    constructor
    · rintro ⟨rfl, rfl⟩
      exact ⟨[right], .unsized hleft hright, rfl⟩
    · rintro ⟨_, hphrase, heq⟩
      cases hphrase with
      | unsized _ _ =>
          obtain ⟨rfl, rfl⟩ := List.cons.inj heq
          exact ⟨rfl, rfl⟩
      | @sized _ last _ _ _ inner _ =>
          -- no expression starts with a closing parenthesis
          have hne := inner.front_ne_symbol .rightParen ([last] ++ rest)
          rw [← List.append_assoc, ← heq] at hne
          exact absurd hfront hne
  · rw [if_neg hfront]
    simp only [yields_bind_iff, yields_expression_iff heof, yields_expect_symbol_iff heof,
      yields_pure_iff]
    constructor
    · rintro ⟨e, _, ⟨us, inner, rfl⟩, right, _, ⟨hright, rfl⟩, rfl, rfl⟩
      exact ⟨us ++ [right], .sized hleft inner hright, by simp⟩
    · rintro ⟨_, hphrase, rfl⟩
      cases hphrase with
      | unsized _ hright => exact absurd hright hfront
      | sized _ inner hright => exact ⟨_, _, ⟨_, inner, List.append_assoc ..⟩, _, _,
          ⟨hright, rfl⟩, rfl, rfl⟩

theorem yields_array_iff (heof : eof.kind = .eof) {array? : Option ArraySize} :
    Yields array eof tokens array? rest ↔
      ∃ us, ArrayPhrase us array? ∧ tokens = us ++ rest ∧
        (array? = none → frontKind rest ≠ symbol .leftParen) := by
  unfold array
  simp only [yields_bind_iff, yields_accept_iff heof (by simp : symbol .leftParen ≠ .eof)]
  constructor
  · rintro ⟨_, mid, ⟨left, rfl, hleft, rfl⟩ | ⟨rfl, hfront, rfl⟩, h⟩
    · obtain ⟨size, hsize, rfl⟩ := yields_map_iff.mp h
      obtain ⟨us, hphrase, rfl⟩ := (yields_arraySize_iff heof hleft).mp hsize
      exact ⟨left :: us, hphrase, rfl, nofun⟩
    · obtain ⟨rfl, rfl⟩ := yields_pure_iff.mp h
      exact ⟨[], .absent, rfl, fun _ => hfront⟩
  · rintro ⟨us, hphrase, rfl, hrest⟩
    cases array? with
    | none =>
        cases hphrase
        exact ⟨none, rest, .inr ⟨rfl, hrest rfl, rfl⟩, yields_pure_iff.mpr ⟨rfl, rfl⟩⟩
    | some size =>
        obtain ⟨left, vs, rfl, hleft⟩ := hphrase.front
        exact ⟨some left, vs ++ rest, .inl ⟨left, rfl, hleft, rfl⟩, yields_map_iff.mpr
          ⟨size, (yields_arraySize_iff heof hleft).mpr ⟨vs, hphrase, rfl⟩, rfl⟩⟩

/-- Every item takes one phrase, provided that the kind of the token behind it is one that may
follow. -/
def Takes (eof : Token) (item : TokenKind → Option (Parser α)) (phrase : List Token → α → Prop)
    (follow : α → TokenKind → Prop) : Prop :=
  ∀ t ts a rest, (∃ p, item t.kind = some p ∧ Yields p eof ts a rest) ↔
    ∃ us, phrase (t :: us) a ∧ ts = us ++ rest ∧ follow a (frontKind rest)

/-- In front of what is behind the phrases is the start of the first one, if there is one. -/
theorem frontKind_many (kinds : TokenKind → Prop) {phrase : List Token → α → Prop}
    {us : List Token} {as : List α} (h : Many phrase us as)
    (hfront : ∀ vs a, phrase vs a → ∃ t ts, vs = t :: ts ∧ kinds t.kind)
    (hrest : kinds (frontKind rest)) : kinds (frontKind (us ++ rest)) := by
  cases h with
  | nil => exact hrest
  | cons first _ =>
      obtain ⟨t, ts, rfl, ht⟩ := hfront _ _ first
      exact ht

/-- `many` takes the longest sequence of phrases, if the start of a phrase may follow every other
one. -/
theorem yields_many_iff {item : TokenKind → Option (Parser α)} {phrase : List Token → α → Prop}
    {follow : α → TokenKind → Prop} (hend : item .eof = none) (hitem : Takes eof item phrase follow)
    (hfront : ∀ us a, phrase us a → ∃ t ts, us = t :: ts ∧ ∀ b, follow b t.kind)
    {as : List α} :
    Yields (many item) eof tokens as rest ↔
      ∃ us, Many phrase us as ∧ tokens = us ++ rest ∧ item (frontKind rest) = none ∧
        ∀ a ∈ as.getLast?, follow a (frontKind rest) := by
  constructor
  · intro h
    induction as generalizing tokens with
    | nil =>
        cases hnext : item (frontKind tokens) with
        | none =>
            obtain ⟨-, rfl⟩ := (yields_many_stop_iff hnext).mp h
            exact ⟨[], .nil, rfl, hnext, nofun⟩
        | some p =>
            obtain ⟨t, ts, rfl, -⟩ := exists_cons_of_item hend hnext
            obtain ⟨_, _, _, ⟨⟩, _⟩ := (yields_many_item_iff hnext).mp h
    | cons a as ih =>
        cases hnext : item (frontKind tokens) with
        | none =>
            obtain ⟨⟨⟩, -⟩ := (yields_many_stop_iff hnext).mp h
        | some p =>
            obtain ⟨t, ts, rfl, -⟩ := exists_cons_of_item hend hnext
            obtain ⟨_, _, mid, ⟨⟩, ha, has⟩ := (yields_many_item_iff hnext).mp h
            obtain ⟨us, hus, rfl, hmid⟩ := (hitem t ts a mid).mp ⟨p, hnext, ha⟩
            obtain ⟨vs, hvs, rfl, hrest, hlast⟩ := ih has
            refine ⟨t :: us ++ vs, .cons hus hvs, by simp, hrest, ?_⟩
            cases hvs with
            | nil => simpa using hmid
            | cons _ _ => simpa using hlast
  · rintro ⟨us, hmany, rfl, hrest, hlast⟩
    induction hmany with
    | nil => exact (yields_many_stop_iff hrest).mpr ⟨rfl, rfl⟩
    | @cons us vs a as first others ih =>
        -- the token behind the first phrase is that of the second one if there is a second one
        have hbehind : follow a (frontKind (vs ++ rest)) := by
          cases others with
          | nil => exact hlast a rfl
          | cons second _ =>
              obtain ⟨t, ts, rfl, ht⟩ := hfront _ _ second
              exact ht a
        have hothers : ∀ b ∈ as.getLast?, follow b (frontKind rest) := by
          cases others with
          | nil => exact nofun
          | cons _ _ => simpa using hlast
        obtain ⟨t, ts, rfl, -⟩ := hfront _ _ first
        obtain ⟨p, hp, ha⟩ := (hitem t (ts ++ (vs ++ rest)) a (vs ++ rest)).mpr
          ⟨ts, first, rfl, hbehind⟩
        rw [List.append_assoc]
        exact (yields_many_item_iff hp).mpr ⟨a, as, vs ++ rest, rfl, ha, ih hothers⟩

theorem modifier_takes (heof : eof.kind = .eof) :
    Takes eof modifier ModifierPhrase fun _ _ => True := by
  intro t ts m rest
  constructor
  · rintro ⟨p, hp, h⟩
    unfold modifier at hp
    split at hp
    next hkind =>
      cases hp
      obtain ⟨rfl, rfl⟩ := yields_pure_iff.mp h
      exact ⟨[], .typedef hkind, rfl, trivial⟩
    next hkind =>
      cases hp
      obtain ⟨rfl, rfl⟩ := yields_pure_iff.mp h
      exact ⟨[], .const hkind, rfl, trivial⟩
    next hkind =>
      cases hp
      obtain ⟨rfl, rfl⟩ := yields_pure_iff.mp h
      exact ⟨[], .public hkind, rfl, trivial⟩
    next hkind =>
      cases hp
      simp only [yields_bind_iff, yields_expect_symbol_iff heof, yields_expression_iff heof,
        yields_pure_iff] at h
      obtain ⟨left, _, ⟨hleft, rfl⟩, value, _, ⟨us, inner, rfl⟩, right, _, ⟨hright, rfl⟩, rfl,
        rfl⟩ := h
      exact ⟨left :: (us ++ [right]), .initial hkind hleft inner hright, by simp, trivial⟩
    next => cases hp
  · rintro ⟨us, hphrase, rfl, -⟩
    cases hphrase with
    | typedef hkind =>
        rw [hkind]
        exact ⟨_, rfl, yields_pure_iff.mpr ⟨rfl, rfl⟩⟩
    | const hkind =>
        rw [hkind]
        exact ⟨_, rfl, yields_pure_iff.mpr ⟨rfl, rfl⟩⟩
    | «public» hkind =>
        rw [hkind]
        exact ⟨_, rfl, yields_pure_iff.mpr ⟨rfl, rfl⟩⟩
    | initial hkind hleft inner hright =>
        rw [hkind]
        refine ⟨_, rfl, ?_⟩
        simp only [yields_bind_iff, yields_expect_symbol_iff heof, yields_expression_iff heof,
          yields_pure_iff]
        exact ⟨_, _, ⟨hleft, rfl⟩, _, _, ⟨_, inner, List.append_assoc ..⟩, _, _, ⟨hright, rfl⟩,
          rfl, rfl⟩

theorem modifier_follows (us : List Token) (m : Modifier) (h : ModifierPhrase us m) :
    ∃ t ts, us = t :: ts ∧ ∀ _ : Modifier, True := by
  cases h <;> exact ⟨_, _, rfl, fun _ => trivial⟩

theorem yields_modifiers_iff (heof : eof.kind = .eof) {ms : List Modifier} :
    Yields (many modifier) eof tokens ms rest ↔
      ∃ us, Many ModifierPhrase us ms ∧ tokens = us ++ rest ∧ modifier (frontKind rest) = none := by
  rw [yields_many_iff rfl (modifier_takes heof) modifier_follows]
  simp only [implies_true, and_true]

/-- `declarator` takes the longest declarator in front. -/
theorem yields_declarator_iff (heof : eof.kind = .eof) {d : Declarator} :
    Yields declarator eof tokens d rest ↔
      ∃ us, DeclaratorPhrase us d ∧ tokens = us ++ rest ∧ modifier (frontKind rest) = none := by
  unfold declarator
  simp only [yields_bind_iff, yields_expect_iff heof (by simp : TokenKind.ident ≠ .eof),
    yields_array_iff heof, yields_typeName_iff heof, yields_name_iff, yields_modifiers_iff heof,
    yields_pure_iff, Declarator.foldl_modify, Bool.or_false, Option.or_none]
  constructor
  · rintro ⟨t, _, ⟨hkind, rfl⟩, array?, _, ⟨us, bounds, rfl, -⟩, type, _, ⟨vs, typed, rfl⟩, n, _,
      ⟨named, rfl⟩, ms, _, ⟨ws, modified, rfl, hrest⟩, rfl, rfl⟩
    exact ⟨t :: (us ++ vs ++ ws), .intro hkind named bounds typed modified, by simp, hrest⟩
  · rintro ⟨_, hphrase, rfl, hrest⟩
    cases hphrase with
    | @intro t n us vs ws array? type ms hkind named bounds typed modified =>
        have hfollow : array? = none → frontKind (vs ++ (ws ++ rest)) ≠ symbol .leftParen := by
          rcases typed.startsType (ws ++ rest) with h | h <;> simp [h]
        exact ⟨t, _, ⟨hkind, rfl⟩, array?, _, ⟨us, bounds, by simp, hfollow⟩, type, _,
          ⟨vs, typed, rfl⟩, n, _, ⟨named, rfl⟩, ms, _, ⟨ws, modified, rfl, hrest⟩, rfl, rfl⟩

theorem chained_takes (heof : eof.kind = .eof) :
    Takes eof chained ChainedPhrase fun _ next => modifier next = none := by
  intro t ts d rest
  constructor
  · rintro ⟨p, hp, h⟩
    unfold chained at hp
    split at hp
    next hcomma =>
      cases hp
      simp only [yields_bind_iff, yields_accept_keyword_iff heof, yields_declarator_iff heof] at h
      obtain ⟨_, _, ⟨word, -, hword, rfl⟩ | ⟨-, -, rfl⟩, us, declares, rfl, hrest⟩ := h
      · exact ⟨word :: us, .repeated hcomma hword declares, rfl, hrest⟩
      · exact ⟨us, .plain hcomma declares, rfl, hrest⟩
    next => cases hp
  · rintro ⟨us, hphrase, rfl, hrest⟩
    cases hphrase with
    | plain hcomma declares =>
        rw [hcomma]
        refine ⟨_, rfl, ?_⟩
        simp only [yields_bind_iff, yields_accept_keyword_iff heof, yields_declarator_iff heof]
        have hword := declares.front_ne_keyword .decl rest
        exact ⟨none, _, .inr ⟨rfl, hword, rfl⟩, _, declares, rfl, hrest⟩
    | @repeated _ word us _ hcomma hword declares =>
        rw [hcomma]
        refine ⟨_, rfl, ?_⟩
        simp only [yields_bind_iff, yields_accept_keyword_iff heof, yields_declarator_iff heof]
        exact ⟨some word, us ++ rest, .inl ⟨word, rfl, hword, rfl⟩, us, declares, rfl, hrest⟩

theorem chained_follows (us : List Token) (d : Declarator) (h : ChainedPhrase us d) :
    ∃ t ts, us = t :: ts ∧ ∀ _ : Declarator, modifier t.kind = none := by
  obtain ⟨t, ts, rfl, hcomma⟩ := h.front
  exact ⟨t, ts, rfl, fun _ => hcomma ▸ rfl⟩

theorem yields_declaration_iff (heof : eof.kind = .eof) {word : Token}
    (hword : word.kind = keyword .decl) {s : Statement} :
    Yields declaration eof tokens s rest ↔
      ∃ us, DeclarationPhrase (word :: us) s ∧ tokens = us ++ rest := by
  unfold declaration
  simp only [yields_bind_iff, yields_declarator_iff heof,
    yields_many_iff rfl (chained_takes heof) chained_follows, yields_expect_symbol_iff heof,
    yields_pure_iff]
  constructor
  · rintro ⟨first, _, ⟨us, declares, rfl, -⟩, others, _, ⟨vs, chains, rfl, -, -⟩, semicolon, _,
      ⟨ends, rfl⟩, rfl, rfl⟩
    exact ⟨us ++ vs ++ [semicolon], .intro hword declares chains ends, by simp⟩
  · rintro ⟨_, hphrase, rfl⟩
    cases hphrase with
    | @intro _ semicolon us vs first others _ declares chains ends =>
        have hmodifier : modifier semicolon.kind = none := ends ▸ rfl
        have hchained : chained semicolon.kind = none := ends ▸ rfl
        -- behind the first declarator is a comma or the semicolon
        have hfirst : modifier (frontKind (vs ++ semicolon :: rest)) = none :=
          frontKind_many (modifier · = none) chains (fun us d hd => by
            obtain ⟨t, ts, rfl, ht⟩ := chained_follows us d hd
            exact ⟨t, ts, rfl, ht d⟩) hmodifier
        exact ⟨first, _, ⟨us, declares, by simp, hfirst⟩, others, _,
          ⟨vs, chains, rfl, hchained, fun _ _ => hmodifier⟩, semicolon, _, ⟨ends, rfl⟩, rfl, rfl⟩

/-- `typeName?` takes a type if there is one. -/
theorem yields_typeName?_iff (heof : eof.kind = .eof) {type? : Option String} :
    Yields typeName? eof tokens type? rest ↔
      (∃ us type, type? = some type ∧ TypePhrase us type ∧ tokens = us ++ rest) ∨
      (type? = none ∧ ¬ StartsType (frontKind tokens) ∧ rest = tokens) := by
  unfold typeName?
  rw [yields_current_bind_iff, kind_front heof]
  by_cases hfront : StartsType (frontKind tokens)
  · have hsome : Yields (some <$> typeName) eof tokens type? rest ↔
        ∃ us type, type? = some type ∧ TypePhrase us type ∧ tokens = us ++ rest := by
      rw [yields_map_iff]
      simp only [yields_typeName_iff heof]
      constructor
      · rintro ⟨type, ⟨us, typed, rfl⟩, rfl⟩
        exact ⟨us, type, rfl, typed, rfl⟩
      · rintro ⟨us, type, rfl, typed, rfl⟩
        exact ⟨type, ⟨us, typed, rfl⟩, rfl⟩
    rw [or_iff_left (fun h => h.2.1 hfront), ← hsome]
    rcases hfront with h | h <;> rw [h]
  · rw [or_iff_right]
    · split
      next h => exact absurd (.inl h) hfront
      next h => exact absurd (.inr h) hfront
      next => rw [yields_pure_iff]; simp [hfront]
    · rintro ⟨us, type, -, typed, rfl⟩
      exact hfront (typed.startsType rest)

/-- `argument` takes the longest argument in front. -/
theorem yields_argument_iff (heof : eof.kind = .eof) {a : Argument} :
    Yields argument eof tokens a rest ↔
      ∃ us, ArgumentPhrase us a ∧ tokens = us ++ rest ∧
        (a.typeName = none → ¬ StartsType (frontKind rest)) := by
  unfold argument
  simp only [yields_bind_iff, yields_expectAs_iff heof (by simp : TokenKind.ident ≠ .eof),
    yields_typeName?_iff heof, yields_name_iff, yields_pure_iff]
  constructor
  · rintro ⟨t, _, ⟨hkind, rfl⟩, _, _, ⟨us, type, rfl, typed, rfl⟩ | ⟨rfl, hrest, rfl⟩, n, _,
      ⟨named, rfl⟩, rfl, rfl⟩
    · exact ⟨t :: us, .typed hkind named typed, rfl, nofun⟩
    · exact ⟨[t], .untyped hkind named, rfl, fun _ => hrest⟩
  · rintro ⟨_, hphrase, rfl, hrest⟩
    cases hphrase with
    | untyped hkind named =>
        exact ⟨_, _, ⟨hkind, rfl⟩, none, rest, .inr ⟨rfl, hrest rfl, rfl⟩, _, _, ⟨named, rfl⟩, rfl,
          rfl⟩
    | typed hkind named typed =>
        exact ⟨_, _, ⟨hkind, rfl⟩, _, rest, .inl ⟨_, _, rfl, typed, rfl⟩, _, _, ⟨named, rfl⟩, rfl,
          rfl⟩

theorem nextArgument_takes (heof : eof.kind = .eof) :
    Takes eof nextArgument NextArgumentPhrase fun a next =>
      a.typeName = none → ¬ StartsType next := by
  intro t ts a rest
  constructor
  · rintro ⟨p, hp, h⟩
    unfold nextArgument at hp
    split at hp
    next hcomma =>
      cases hp
      obtain ⟨us, inner, rfl, hrest⟩ := (yields_argument_iff heof).mp h
      exact ⟨us, .intro hcomma inner, rfl, hrest⟩
    next => cases hp
  · rintro ⟨us, hphrase, rfl, hrest⟩
    cases hphrase with
    | intro hcomma inner =>
        rw [hcomma]
        exact ⟨_, rfl, (yields_argument_iff heof).mpr ⟨us, inner, rfl, hrest⟩⟩

theorem nextArgument_follows (us : List Token) (a : Argument) (h : NextArgumentPhrase us a) :
    ∃ t ts, us = t :: ts ∧ ∀ b : Argument, b.typeName = none → ¬ StartsType t.kind := by
  obtain ⟨t, ts, rfl, hcomma⟩ := h.front
  exact ⟨t, ts, rfl, fun _ _ => hcomma ▸ by simp [StartsType]⟩

/-- The arguments behind the opening parenthesis. The closing one is taken too. -/
theorem yields_arguments_iff (heof : eof.kind = .eof) {as : List Argument} :
    Yields arguments eof tokens as rest ↔
      ∃ us right, ArgumentsPhrase us as ∧ right.kind = symbol .rightParen ∧
        tokens = us ++ right :: rest := by
  unfold arguments
  rw [yields_current_bind_iff, kind_front heof]
  by_cases hfront : frontKind tokens = symbol .rightParen
  · obtain ⟨right, ts, rfl, hright⟩ := exists_cons_of_frontKind hfront (by simp)
    rw [if_pos hfront, yields_advance_pure_iff (by simp [hright])]
    constructor
    · rintro ⟨rfl, rfl⟩
      exact ⟨[], right, .none, hright, rfl⟩
    · rintro ⟨_, last, hphrase, -, heq⟩
      cases hphrase with
      | none =>
          obtain ⟨rfl, rfl⟩ := List.cons.inj heq
          exact ⟨rfl, rfl⟩
      | @some us vs _ _ head _ =>
          have hne := head.frontKind_eq (vs ++ last :: rest)
          rw [← List.append_assoc, ← heq, hfront] at hne
          cases hne
  · rw [if_neg hfront]
    simp only [yields_bind_iff, yields_argument_iff heof,
      yields_many_iff rfl (nextArgument_takes heof) nextArgument_follows,
      yields_expect_symbol_iff heof, yields_pure_iff]
    constructor
    · rintro ⟨first, _, ⟨us, head, rfl, -⟩, others, _, ⟨vs, tail, rfl, -, -⟩, right, _,
        ⟨hright, rfl⟩, rfl, rfl⟩
      exact ⟨us ++ vs, right, .some head tail, hright, by simp⟩
    · rintro ⟨_, right, hphrase, hright, rfl⟩
      cases hphrase with
      | none => exact absurd hright hfront
      | @some us vs first others head tail =>
          have hstarts : ¬ StartsType right.kind := hright ▸ by simp [StartsType]
          have hnext : nextArgument right.kind = none := hright ▸ rfl
          -- behind the first argument is a comma or the closing parenthesis
          have hfirst : ¬ StartsType (frontKind (vs ++ right :: rest)) :=
            frontKind_many (¬ StartsType ·) tail (fun us a ha => by
              obtain ⟨t, ts, rfl, ht⟩ := nextArgument_follows us a ha
              exact ⟨t, ts, rfl, ht ⟨.empty, none⟩ rfl⟩) hstarts
          exact ⟨first, _, ⟨us, head, by simp, fun _ => hfirst⟩, others, _,
            ⟨vs, tail, rfl, hnext, fun _ _ _ => hstarts⟩, right, _, ⟨hright, rfl⟩, rfl, rfl⟩

theorem yields_visibility_iff (heof : eof.kind = .eof) {v : Visibility} :
    Yields visibility eof tokens v rest ↔
      ∃ us, VisibilityPhrase us v ∧ tokens = us ++ rest ∧
        (v = .private → frontKind rest ≠ keyword .public) := by
  unfold visibility
  simp only [yields_bind_iff, yields_accept_keyword_iff heof]
  constructor
  · rintro ⟨_, _, ⟨word, rfl, hword, rfl⟩ | ⟨rfl, hrest, rfl⟩, h⟩
    · obtain ⟨rfl, rfl⟩ := yields_pure_iff.mp h
      exact ⟨[word], .public hword, rfl, nofun⟩
    · obtain ⟨rfl, rfl⟩ := yields_pure_iff.mp h
      exact ⟨[], .private, rfl, fun _ => hrest⟩
  · rintro ⟨_, hphrase, rfl, hrest⟩
    cases hphrase with
    | «private» =>
        exact ⟨none, rest, .inr ⟨rfl, hrest rfl, rfl⟩, yields_pure_iff.mpr ⟨rfl, rfl⟩⟩
    | «public» hword =>
        exact ⟨some _, rest, .inl ⟨_, rfl, hword, rfl⟩, yields_pure_iff.mpr ⟨rfl, rfl⟩⟩

theorem yields_procedure_iff (heof : eof.kind = .eof) {word : Token}
    (hword : word.kind = keyword .proc) {s : Statement} :
    Yields procedure eof tokens s rest ↔
      ∃ us, ProcedurePhrase (word :: us) s ∧ tokens = us ++ rest := by
  unfold procedure
  simp only [yields_bind_iff, yields_expect_iff heof (by simp : TokenKind.ident ≠ .eof),
    yields_expect_symbol_iff heof, yields_arguments_iff heof, yields_typeName_iff heof,
    yields_visibility_iff heof, yields_name_iff, yields_pure_iff]
  constructor
  · rintro ⟨t, _, ⟨ident, rfl⟩, left, _, ⟨opens, rfl⟩, as, _, ⟨us, right, takes, closes, rfl⟩,
      type, _, ⟨vs, typed, rfl⟩, v, _, ⟨ws, seen, rfl, -⟩, semicolon, _, ⟨ends, rfl⟩, n, _,
      ⟨named, rfl⟩, rfl, rfl⟩
    exact ⟨t :: left :: (us ++ right :: (vs ++ ws ++ [semicolon])),
      .intro hword ident named opens takes closes typed seen ends, by simp⟩
  · rintro ⟨_, hphrase, rfl⟩
    cases hphrase with
    | @intro _ t left right semicolon n us vs ws as type v _ ident named opens takes closes typed
        seen ends =>
        have hpublic : semicolon.kind ≠ keyword .public := by simp [ends]
        exact ⟨t, _, ⟨ident, rfl⟩, left, _, ⟨opens, rfl⟩, as, vs ++ (ws ++ semicolon :: rest),
          ⟨us, right, takes, closes, by simp⟩, type, _, ⟨vs, typed, rfl⟩, v, semicolon :: rest,
          ⟨ws, seen, rfl, fun _ => hpublic⟩, semicolon, _, ⟨ends, rfl⟩, n, _, ⟨named, rfl⟩, rfl,
          rfl⟩

/-- The header of a block whose name was taken already. -/
theorem yields_blockHeader_iff (heof : eof.kind = .eof) {t : Token} (ht : t.kind = .ident)
    {n : Name} :
    Yields (blockHeader t) eof tokens n rest ↔
      ∃ us, HeaderPhrase (t :: us) t.position n ∧ tokens = us ++ rest := by
  unfold blockHeader
  simp only [yields_bind_iff, yields_expect_symbol_iff heof, yields_expect_keyword_iff heof,
    yields_name_iff]
  constructor
  · rintro ⟨colon, _, ⟨marks, rfl⟩, word, _, ⟨opens, rfl⟩, semicolon, _, ⟨ends, rfl⟩, named, rfl⟩
    exact ⟨[colon, word, semicolon], .intro ht named marks opens ends, rfl⟩
  · rintro ⟨_, hphrase, rfl⟩
    cases hphrase with
    | intro _ named marks opens ends =>
        exact ⟨_, _, ⟨marks, rfl⟩, _, _, ⟨opens, rfl⟩, _, _, ⟨ends, rfl⟩, named, rfl⟩

/-- The rest of the end of a block: a name perhaps, and a semicolon. -/
theorem yields_blockEnd_tokens_iff (heof : eof.kind = .eof) {name? : Option Token} :
    Yields blockEnd eof tokens name? rest ↔
      (∀ t ∈ name?, t.kind = .ident) ∧ ∃ semicolon, semicolon.kind = symbol .semicolon ∧
        tokens = name?.toList ++ semicolon :: rest := by
  unfold blockEnd
  simp only [yields_bind_iff, yields_accept_iff heof (by simp : TokenKind.ident ≠ .eof),
    yields_expect_symbol_iff heof, yields_pure_iff]
  constructor
  · rintro ⟨_, _, ⟨t, rfl, ident, rfl⟩ | ⟨rfl, -, rfl⟩, semicolon, _, ⟨ends, rfl⟩, rfl, rfl⟩
    · exact ⟨by rintro _ ⟨⟩; exact ident, semicolon, ends, rfl⟩
    · exact ⟨nofun, semicolon, ends, rfl⟩
  · rintro ⟨hident, semicolon, ends, rfl⟩
    cases name? with
    | none =>
        have hother : semicolon.kind ≠ .ident := by simp [ends]
        exact ⟨none, _, .inr ⟨rfl, hother, rfl⟩, semicolon, rest, ⟨ends, rfl⟩, rfl, rfl⟩
    | some t =>
        exact ⟨some t, _, .inl ⟨t, rfl, hident t rfl, rfl⟩, semicolon, rest, ⟨ends, rfl⟩, rfl, rfl⟩

/-- The end of a block whose first word was taken already. -/
theorem yields_blockEnd_iff (heof : eof.kind = .eof) {word : Token}
    (hword : word.kind = keyword .end) {closing : BlockEnd} :
    (∃ t? : Option Token, Yields blockEnd eof tokens t? rest ∧
        closing = ⟨word.position, t?.map (·.text.text)⟩) ↔
      ∃ us, EndPhrase (word :: us) closing ∧ tokens = us ++ rest := by
  simp only [yields_blockEnd_tokens_iff heof]
  constructor
  · rintro ⟨t?, ⟨hident, semicolon, ends, rfl⟩, rfl⟩
    cases t? with
    | none => exact ⟨[semicolon], .unnamed hword ends, rfl⟩
    | some t => exact ⟨[t, semicolon], .named hword (hident t rfl) ends, rfl⟩
  · rintro ⟨_, hphrase, rfl⟩
    cases hphrase with
    | @unnamed _ semicolon _ ends => exact ⟨none, ⟨nofun, semicolon, ends, rfl⟩, rfl⟩
    | @named _ t semicolon _ ident ends =>
        have hident : ∀ u ∈ some t, u.kind = .ident := by
          rintro _ ⟨⟩
          exact ident
        exact ⟨some t, ⟨hident, semicolon, ends, rfl⟩, rfl⟩

end Parser

end TickMachine
