import TickMachine.Proofs.Source.Policies
import TickMachine.Proofs.Source.Recovery

/-! # Names that are too long

A statement may be well-formed but for the lengths of the names it declares. Every parser looks at a
name as soon as the type behind it is read, inside of the statement, so only this statement is lost.
The name of a procedure itself is the exception: it is looked at behind the semicolon, and what is
skipped then is the clause behind the procedure.
-/

namespace TickMachine

open TokenKind (keyword symbol)

/-! ## Statements but for the lengths of their names -/

/-- A declarator whose name, of whatever length, is the given token. -/
inductive DeclaratorForm : List Token → Token → Prop
  | intro {t : Token} {us vs ws : List Token} {array : Option ArraySize} {type : String}
      {modifiers : List Modifier} (kind : t.kind = .ident) (bounds : ArrayPhrase us array)
      (typed : TypePhrase vs type) (modified : Many ModifierPhrase ws modifiers) :
      DeclaratorForm (t :: (us ++ vs ++ ws)) t

/-- A further declarator. -/
inductive ChainedForm : List Token → Token → Prop
  | plain {comma t : Token} {us : List Token} (separates : comma.kind = symbol .comma)
      (declares : DeclaratorForm us t) : ChainedForm (comma :: us) t
  | repeated {comma word t : Token} {us : List Token} (separates : comma.kind = symbol .comma)
      (kind : word.kind = keyword .decl) (declares : DeclaratorForm us t) :
      ChainedForm (comma :: word :: us) t

/-- An argument whose name, of whatever length, is the given token. -/
inductive ArgumentForm : List Token → Token → Prop
  | untyped {t : Token} (kind : t.kind = .ident) : ArgumentForm [t] t
  | typed {t : Token} {us : List Token} {type : String} (kind : t.kind = .ident)
      (typed : TypePhrase us type) : ArgumentForm (t :: us) t

/-- A further argument. -/
inductive NextArgumentForm : List Token → Token → Prop
  | intro {comma t : Token} {us : List Token} (separates : comma.kind = symbol .comma)
      (inner : ArgumentForm us t) : NextArgumentForm (comma :: us) t

/-- Arguments with the given names. -/
inductive ArgumentsForm : List Token → List Token → Prop
  | none : ArgumentsForm [] []
  | some {us vs names : List Token} {t : Token} (head : ArgumentForm us t)
      (tail : Many NextArgumentForm vs names) : ArgumentsForm (us ++ vs) (t :: names)

/-- A declaration or a procedure. The names that are declared in front of the semicolon come first,
and then the name of the procedure if it is one. -/
inductive StatementForm : List Token → List Token → Option Token → Prop
  | declaration {word t semicolon : Token} {us vs names : List Token}
      (kind : word.kind = keyword .decl) (declares : DeclaratorForm us t)
      (chains : Many ChainedForm vs names) (ends : semicolon.kind = symbol .semicolon) :
      StatementForm (word :: (us ++ vs ++ [semicolon])) (t :: names) none
  | procedure {word t left right semicolon : Token} {us vs ws names : List Token} {type : String}
      {visibility : Visibility} (kind : word.kind = keyword .proc) (ident : t.kind = .ident)
      (opens : left.kind = symbol .leftParen) (takes : ArgumentsForm us names)
      (closes : right.kind = symbol .rightParen) (typed : TypePhrase vs type)
      (seen : VisibilityPhrase ws visibility) (ends : semicolon.kind = symbol .semicolon) :
      StatementForm (word :: t :: left :: (us ++ right :: (vs ++ ws ++ [semicolon]))) names (some t)

/-! ## With short names a form is a phrase -/

theorem Token.exists_name {t : Token} (h : ¬ t.IsLong) : ∃ name : Name, name.text = t.text.text :=
  ⟨⟨t.text.text, Nat.le_of_not_lt h⟩, rfl⟩

theorem Token.not_isLong {t : Token} {name : Name} (h : name.text = t.text.text) : ¬ t.IsLong :=
  Nat.not_lt.mpr (h ▸ name.fits)

theorem find?_isLong_cons_iff {u t : Token} {names : List Token} :
    (u :: names).find? (·.IsLong) = some t ↔
      u.IsLong ∧ u = t ∨ ¬ u.IsLong ∧ names.find? (·.IsLong) = some t := by
  by_cases h : u.IsLong
  · simp [h]
  · simp [h]

theorem declaratorForm_iff {us : List Token} :
    (∃ t, DeclaratorForm us t ∧ ¬ t.IsLong) ↔ ∃ d, DeclaratorPhrase us d := by
  constructor
  · rintro ⟨_, ⟨kind, bounds, typed, modified⟩, hshort⟩
    obtain ⟨name, named⟩ := Token.exists_name hshort
    exact ⟨_, .intro kind named bounds typed modified⟩
  · rintro ⟨_, ⟨kind, named, bounds, typed, modified⟩⟩
    exact ⟨_, .intro kind bounds typed modified, Token.not_isLong named⟩

theorem chainedForm_iff {us : List Token} :
    (∃ t, ChainedForm us t ∧ ¬ t.IsLong) ↔ ∃ d, ChainedPhrase us d := by
  constructor
  · rintro ⟨t, hform, hshort⟩
    cases hform with
    | plain separates declares =>
        obtain ⟨d, hd⟩ := declaratorForm_iff.mp ⟨t, declares, hshort⟩
        exact ⟨d, .plain separates hd⟩
    | repeated separates kind declares =>
        obtain ⟨d, hd⟩ := declaratorForm_iff.mp ⟨t, declares, hshort⟩
        exact ⟨d, .repeated separates kind hd⟩
  · rintro ⟨d, hphrase⟩
    cases hphrase with
    | plain separates declares =>
        obtain ⟨t, ht, hshort⟩ := declaratorForm_iff.mpr ⟨d, declares⟩
        exact ⟨t, .plain separates ht, hshort⟩
    | repeated separates kind declares =>
        obtain ⟨t, ht, hshort⟩ := declaratorForm_iff.mpr ⟨d, declares⟩
        exact ⟨t, .repeated separates kind ht, hshort⟩

theorem argumentForm_iff {us : List Token} :
    (∃ t, ArgumentForm us t ∧ ¬ t.IsLong) ↔ ∃ a, ArgumentPhrase us a := by
  constructor
  · rintro ⟨t, hform, hshort⟩
    obtain ⟨name, named⟩ := Token.exists_name hshort
    cases hform with
    | untyped kind => exact ⟨_, .untyped kind named⟩
    | typed kind typed => exact ⟨_, .typed kind named typed⟩
  · rintro ⟨a, hphrase⟩
    cases hphrase with
    | untyped kind named => exact ⟨_, .untyped kind, Token.not_isLong named⟩
    | typed kind named typed => exact ⟨_, .typed kind typed, Token.not_isLong named⟩

theorem nextArgumentForm_iff {us : List Token} :
    (∃ t, NextArgumentForm us t ∧ ¬ t.IsLong) ↔ ∃ a, NextArgumentPhrase us a := by
  constructor
  · rintro ⟨t, ⟨separates, inner⟩, hshort⟩
    obtain ⟨a, ha⟩ := argumentForm_iff.mp ⟨t, inner, hshort⟩
    exact ⟨a, .intro separates ha⟩
  · rintro ⟨a, ⟨separates, inner⟩⟩
    obtain ⟨t, ht, hshort⟩ := argumentForm_iff.mpr ⟨a, inner⟩
    exact ⟨t, .intro separates ht, hshort⟩

theorem many_form_iff {α : Type} {form : List Token → Token → Prop} {phrase : List Token → α → Prop}
    (h : ∀ us, (∃ t, form us t ∧ ¬ t.IsLong) ↔ ∃ a, phrase us a) {us : List Token} :
    (∃ names, Many form us names ∧ ∀ t ∈ names, ¬ t.IsLong) ↔ ∃ as, Many phrase us as := by
  constructor
  · rintro ⟨names, hmany, hshort⟩
    induction hmany with
    | nil => exact ⟨[], .nil⟩
    | @cons us vs t names first _ ih =>
        obtain ⟨ht, hshort⟩ := List.forall_mem_cons.mp hshort
        obtain ⟨a, ha⟩ := (h us).mp ⟨t, first, ht⟩
        obtain ⟨as, has⟩ := ih hshort
        exact ⟨a :: as, .cons ha has⟩
  · rintro ⟨as, hmany⟩
    induction hmany with
    | nil => exact ⟨[], .nil, nofun⟩
    | @cons us vs a as first _ ih =>
        obtain ⟨t, ht, hshort⟩ := (h us).mpr ⟨a, first⟩
        obtain ⟨names, hnames, hothers⟩ := ih
        exact ⟨t :: names, .cons ht hnames, List.forall_mem_cons.mpr ⟨hshort, hothers⟩⟩

theorem argumentsForm_iff {us : List Token} :
    (∃ names, ArgumentsForm us names ∧ ∀ t ∈ names, ¬ t.IsLong) ↔ ∃ as, ArgumentsPhrase us as := by
  constructor
  · rintro ⟨_, hform, hshort⟩
    cases hform with
    | none => exact ⟨[], .none⟩
    | some head tail =>
        obtain ⟨ht, hshort⟩ := List.forall_mem_cons.mp hshort
        obtain ⟨a, ha⟩ := argumentForm_iff.mp ⟨_, head, ht⟩
        obtain ⟨as, has⟩ := (many_form_iff fun _ => nextArgumentForm_iff).mp ⟨_, tail, hshort⟩
        exact ⟨a :: as, .some ha has⟩
  · rintro ⟨_, hphrase⟩
    cases hphrase with
    | none => exact ⟨[], .none, nofun⟩
    | some head tail =>
        obtain ⟨t, ht, hshort⟩ := argumentForm_iff.mpr ⟨_, head⟩
        obtain ⟨names, hnames, hothers⟩ :=
          (many_form_iff fun _ => nextArgumentForm_iff).mpr ⟨_, tail⟩
        exact ⟨t :: names, .some ht hnames, List.forall_mem_cons.mpr ⟨hshort, hothers⟩⟩

/-- The forms with short names are the declarations and procedures of the grammar. -/
theorem statementForm_iff {us : List Token} :
    (∃ names own?, StatementForm us names own? ∧ ∀ t ∈ names ++ own?.toList, ¬ t.IsLong) ↔
      ∃ s, DeclarationPhrase us s ∨ ProcedurePhrase us s := by
  constructor
  · rintro ⟨_, _, hform, hshort⟩
    cases hform with
    | declaration kind declares chains ends =>
        simp only [Option.toList_none, List.append_nil, List.forall_mem_cons] at hshort
        obtain ⟨d, hd⟩ := declaratorForm_iff.mp ⟨_, declares, hshort.1⟩
        obtain ⟨ds, hds⟩ := (many_form_iff fun _ => chainedForm_iff).mp ⟨_, chains, hshort.2⟩
        exact ⟨_, .inl (.intro kind hd hds ends)⟩
    | procedure kind ident opens takes closes typed seen ends =>
        obtain ⟨hshort, hown⟩ := List.forall_mem_append.mp hshort
        obtain ⟨name, named⟩ := Token.exists_name (hown _ (List.mem_singleton.mpr rfl))
        obtain ⟨as, has⟩ := argumentsForm_iff.mp ⟨_, takes, hshort⟩
        exact ⟨_, .inr (.intro kind ident named opens has closes typed seen ends)⟩
  · rintro ⟨_, ⟨kind, declares, chains, ends⟩ |
      ⟨kind, ident, named, opens, takes, closes, typed, seen, ends⟩⟩
    · obtain ⟨t, ht, hshort⟩ := declaratorForm_iff.mpr ⟨_, declares⟩
      obtain ⟨names, hnames, hothers⟩ := (many_form_iff fun _ => chainedForm_iff).mpr ⟨_, chains⟩
      exact ⟨_, _, .declaration kind ht hnames ends, by simpa using ⟨hshort, hothers⟩⟩
    · obtain ⟨names, hnames, hshort⟩ := argumentsForm_iff.mpr ⟨_, takes⟩
      refine ⟨_, _, .procedure kind ident opens hnames closes typed seen ends, ?_⟩
      exact List.forall_mem_append.mpr ⟨hshort, by simpa using Token.not_isLong named⟩

/-! ## The inside of a form -/

theorem DeclaratorForm.parts {us : List Token} {t : Token} (h : DeclaratorForm us t) :
    Parts us := by
  cases h with
  | intro kind bounds typed modified =>
      simp [kind, bounds.parts, typed.parts, modified.parts ModifierPhrase.parts]

theorem DeclaratorForm.frontKind_eq {us : List Token} {t : Token} (h : DeclaratorForm us t)
    (rest : List Token) : frontKind (us ++ rest) = .ident := by
  cases h with
  | intro kind _ _ _ => exact kind

theorem ChainedForm.parts (us : List Token) (t : Token) (h : ChainedForm us t) : Parts us := by
  cases h with
  | plain separates declares => simp [separates, declares.parts]
  | repeated separates kind declares => simp [separates, kind, declares.parts]

/-- A comma is no modifier. -/
theorem ChainedForm.front (us : List Token) (t : Token) (h : ChainedForm us t) :
    ∃ u ts, us = u :: ts ∧ Parser.modifier u.kind = none := by
  cases h with
  | plain separates _ => exact ⟨_, _, rfl, separates ▸ rfl⟩
  | repeated separates _ _ => exact ⟨_, _, rfl, separates ▸ rfl⟩

theorem ArgumentForm.parts {us : List Token} {t : Token} (h : ArgumentForm us t) : Parts us := by
  cases h with
  | untyped kind => simp [kind]
  | typed kind typed => simp [kind, typed.parts]

theorem ArgumentForm.frontKind_eq {us : List Token} {t : Token} (h : ArgumentForm us t)
    (rest : List Token) : frontKind (us ++ rest) = .ident := by
  cases h with
  | untyped kind => exact kind
  | typed kind _ => exact kind

theorem NextArgumentForm.parts (us : List Token) (t : Token) (h : NextArgumentForm us t) :
    Parts us := by
  cases h with
  | intro separates inner => simp [separates, inner.parts]

/-- A comma is no type. -/
theorem NextArgumentForm.front (us : List Token) (t : Token) (h : NextArgumentForm us t) :
    ∃ u ts, us = u :: ts ∧ ¬ StartsType u.kind := by
  cases h with
  | intro separates _ => exact ⟨_, _, rfl, by simp [separates, StartsType]⟩

theorem ArgumentsForm.parts {us names : List Token} (h : ArgumentsForm us names) : Parts us := by
  cases h with
  | none => exact parts_nil
  | some head tail => simp [head.parts, tail.parts NextArgumentForm.parts]

/-! ## Where the names are looked at -/

namespace Parser

variable {α β : Type} {eof semicolon t : Token} {us vs ws names tokens rest : List Token}

/-- The parser answers with the diagnostic. -/
def Complains (p : Parser α) (eof : Token) (tokens : List Token) (d : Diagnostic) : Prop :=
  ∃ rest, p.Answers eof tokens (.error d) rest

theorem Complains.bind_error {p : Parser α} {d : Diagnostic} (h : p.Complains eof tokens d)
    (f : α → Parser β) : (p >>= f).Complains eof tokens d :=
  h.imp fun _ h => h.bind_error f

theorem Complains.bind {p : Parser α} {f : α → Parser β} {a : α} {d : Diagnostic}
    (hp : p.Yields eof tokens a rest) (hf : (f a).Complains eof rest d) :
    (p >>= f).Complains eof tokens d :=
  hf.imp fun _ hf => Answers.bind hp hf

theorem name_of_long (hlong : t.IsLong) : name t = fail t.tooLong := by
  unfold name
  rw [Token.name?_eq_error_iff.mpr ⟨hlong, rfl⟩]

theorem name_complains (hlong : t.IsLong) : (name t).Complains eof tokens t.tooLong := by
  rw [name_of_long hlong]
  exact ⟨tokens, rfl, rfl⟩

theorem declarator_complains (heof : eof.kind = .eof) (h : DeclaratorForm us t) (hlong : t.IsLong)
    (rest : List Token) : declarator.Complains eof (us ++ rest) t.tooLong := by
  cases h with
  | @intro _ us vs ws bounds? type _ kind bounds typed modified =>
      have hfollow : frontKind (vs ++ (ws ++ rest)) ≠ symbol .leftParen := by
        rcases typed.startsType (ws ++ rest) with h | h <;> simp [h]
      have hident : (expect .ident).Yields eof (t :: (us ++ vs ++ ws) ++ rest) t
          (us ++ (vs ++ (ws ++ rest))) :=
        (yields_expect_iff heof (by simp)).mpr ⟨kind, by simp⟩
      have harray : array.Yields eof (us ++ (vs ++ (ws ++ rest))) bounds? (vs ++ (ws ++ rest)) :=
        (yields_array_iff heof).mpr ⟨us, bounds, rfl, fun _ => hfollow⟩
      have htype : typeName.Yields eof (vs ++ (ws ++ rest)) type (ws ++ rest) :=
        (yields_typeName_iff heof).mpr ⟨vs, typed, rfl⟩
      exact .bind hident (.bind harray (.bind htype ((name_complains hlong).bind_error _)))

theorem chained_complains (heof : eof.kind = .eof) (h : ChainedForm us t) (hlong : t.IsLong)
    (rest : List Token) :
    ∃ u ts p, us = u :: ts ∧ chained u.kind = some p ∧ p.Complains eof (ts ++ rest) t.tooLong := by
  cases h with
  | @plain comma _ us separates declares =>
      have hnone : (accept (keyword .decl)).Yields eof (us ++ rest) none (us ++ rest) :=
        (yields_accept_keyword_iff heof).mpr
          (.inr ⟨rfl, by simp [declares.frontKind_eq rest], rfl⟩)
      exact ⟨comma, us, _, rfl, by rw [separates]; rfl,
        .bind hnone (declarator_complains heof declares hlong rest)⟩
  | @repeated comma word _ us separates kind declares =>
      have hword : (accept (keyword .decl)).Yields eof (word :: us ++ rest) (some word)
          (us ++ rest) :=
        (yields_accept_keyword_iff heof).mpr (.inl ⟨word, rfl, kind, rfl⟩)
      exact ⟨comma, word :: us, _, rfl, by rw [separates]; rfl,
        .bind hword (declarator_complains heof declares hlong rest)⟩

theorem argument_complains (heof : eof.kind = .eof) (h : ArgumentForm us t) (hlong : t.IsLong)
    (hrest : ¬ StartsType (frontKind rest)) :
    argument.Complains eof (us ++ rest) t.tooLong := by
  cases h with
  | untyped kind =>
      have hident : (expectAs .ident .argumentName).Yields eof ([t] ++ rest) t rest :=
        (yields_expectAs_iff heof (by simp)).mpr ⟨kind, rfl⟩
      have htype : typeName?.Yields eof rest none rest :=
        (yields_typeName?_iff heof).mpr (.inr ⟨rfl, hrest, rfl⟩)
      exact .bind hident (.bind htype ((name_complains hlong).bind_error _))
  | @typed _ us type kind typed =>
      have hident : (expectAs .ident .argumentName).Yields eof (t :: us ++ rest) t (us ++ rest) :=
        (yields_expectAs_iff heof (by simp)).mpr ⟨kind, rfl⟩
      have htype : typeName?.Yields eof (us ++ rest) (some type) rest :=
        (yields_typeName?_iff heof).mpr (.inl ⟨us, type, rfl, typed, rfl⟩)
      exact .bind hident (.bind htype ((name_complains hlong).bind_error _))

theorem nextArgument_complains (heof : eof.kind = .eof) (h : NextArgumentForm us t)
    (hlong : t.IsLong) (hrest : ¬ StartsType (frontKind rest)) :
    ∃ u ts p, us = u :: ts ∧ nextArgument u.kind = some p ∧
      p.Complains eof (ts ++ rest) t.tooLong := by
  cases h with
  | @intro comma _ us separates inner =>
      exact ⟨comma, us, _, rfl, by rw [separates]; rfl, argument_complains heof inner hlong hrest⟩

/-- A repetition complains about the first name that is too long. -/
theorem many_complains {item : TokenKind → Option (Parser α)} {phrase : List Token → α → Prop}
    {form : List Token → Token → Prop} {follow : α → TokenKind → Prop}
    (hitem : Takes eof item phrase follow)
    {free : TokenKind → Prop} (hfree : ∀ kind a, free kind → follow a kind)
    (hfront : ∀ us t, form us t → ∃ u ts, us = u :: ts ∧ free u.kind)
    (hphrase : ∀ us, (∃ t, form us t ∧ ¬ t.IsLong) ↔ ∃ a, phrase us a)
    (hcomplains : ∀ us t rest, form us t → t.IsLong → free (frontKind rest) →
      ∃ u ts p, us = u :: ts ∧ item u.kind = some p ∧ p.Complains eof (ts ++ rest) t.tooLong)
    (h : Many form us names) (hrest : free (frontKind rest))
    (hfind : names.find? (·.IsLong) = some t) :
    (many item).Complains eof (us ++ rest) t.tooLong := by
  induction h with
  | nil => cases hfind
  | @cons us vs u names first others ih =>
      rw [List.append_assoc]
      have hbehind : free (frontKind (vs ++ rest)) := frontKind_many free others hfront hrest
      -- an item with a short name is taken as a whole, so the next one is looked at
      rcases find?_isLong_cons_iff.mp hfind with ⟨hu, rfl⟩ | ⟨hu, hfind⟩
      · obtain ⟨v, ts, p, rfl, hp, left, hleft⟩ := hcomplains _ _ _ first hu hbehind
        exact ⟨left, many_of_item_error hp hleft⟩
      · obtain ⟨a, ha⟩ := (hphrase us).mp ⟨u, first, hu⟩
        obtain ⟨v, ts, rfl, -⟩ := hfront us u first
        obtain ⟨p, hp, hyields⟩ := (hitem v (ts ++ (vs ++ rest)) a (vs ++ rest)).mpr
          ⟨ts, ha, rfl, hfree _ a hbehind⟩
        obtain ⟨left, hleft⟩ := ih hfind
        exact ⟨left, many_of_item hp hyields hleft⟩

theorem arguments_complains (heof : eof.kind = .eof) (h : ArgumentsForm us names) {right : Token}
    (hright : right.kind = symbol .rightParen) (hfind : names.find? (·.IsLong) = some t) :
    arguments.Complains eof (us ++ right :: rest) t.tooLong := by
  cases h with
  | none => cases hfind
  | @some us vs names u head tail =>
      have hstarts : ¬ StartsType right.kind := hright ▸ by simp [StartsType]
      have hbehind : ¬ StartsType (frontKind (vs ++ right :: rest)) :=
        frontKind_many (¬ StartsType ·) tail NextArgumentForm.front hstarts
      rw [List.append_assoc]
      have hident : ((us ++ (vs ++ right :: rest)).head?.getD eof).kind = .ident :=
        (kind_front heof).trans (head.frontKind_eq (vs ++ right :: rest))
      refine Complains.bind (p := current) (yields_current_iff.mpr ⟨rfl, rfl⟩) ?_
      rw [hident, if_neg (by simp)]
      rcases find?_isLong_cons_iff.mp hfind with ⟨hu, rfl⟩ | ⟨hu, hfind⟩
      · exact (argument_complains heof head hu hbehind).bind_error _
      · obtain ⟨a, ha⟩ := argumentForm_iff.mp ⟨u, head, hu⟩
        have hyields : argument.Yields eof (us ++ (vs ++ right :: rest)) a (vs ++ right :: rest) :=
          (yields_argument_iff heof).mpr ⟨us, ha, rfl, fun _ => hbehind⟩
        refine .bind hyields (Complains.bind_error ?_ _)
        exact many_complains (nextArgument_takes heof) (fun _ _ hfree _ => hfree)
          NextArgumentForm.front (fun _ => nextArgumentForm_iff)
          (fun _ _ _ => nextArgument_complains heof) tail hstarts hfind

/-! ## Where the parsers stop -/

/-- What complains in front of the semicolon stops there. -/
theorem Built.closes_error {p : Parser α} (hp : Built Inner p)
    (hsemicolon : semicolon.kind = symbol .semicolon) {d : Diagnostic}
    (hcomplains : ∀ eof rest, eof.kind = .eof → p.Complains eof (us ++ semicolon :: rest) d)
    (f : α → Parser β) : Closes (p >>= f) us semicolon (.error d) := by
  obtain ⟨result, vs, hvs, hstays⟩ := hp.stays us hsemicolon
  have heof : (Token.eof "" .start).kind = .eof := rfl
  obtain ⟨left, hleft⟩ := hcomplains _ [] heof
  -- the answer is the same whatever is behind the semicolon, so one reading tells it
  obtain ⟨rfl, -⟩ := (hstays _ [] heof).unique hleft
  exact .mistake hvs fun eof rest heof => (hstays eof rest heof).bind_error f

theorem declaration_closes (hsemicolon : semicolon.kind = symbol .semicolon) {u : Token}
    (hform : DeclaratorForm us u) (hchains : Many ChainedForm vs names)
    (hfind : (u :: names).find? (·.IsLong) = some t) :
    Closes declaration (us ++ vs) semicolon (.error t.tooLong) := by
  rcases find?_isLong_cons_iff.mp hfind with ⟨hu, rfl⟩ | ⟨hu, hfind⟩
  · refine built_declarator.closes_error hsemicolon (fun eof rest heof => ?_) _
    rw [List.append_assoc]
    exact declarator_complains heof hform hu _
  · obtain ⟨d, hd⟩ := declaratorForm_iff.mp ⟨u, hform, hu⟩
    have hmodifier : modifier semicolon.kind = none := hsemicolon ▸ rfl
    have hfollow : ∀ rest, modifier (frontKind (vs ++ semicolon :: rest)) = none :=
      fun rest => frontKind_many (modifier · = none) hchains ChainedForm.front hmodifier
    have hyields : ∀ eof rest, eof.kind = .eof →
        declarator.Yields eof (us ++ vs ++ semicolon :: rest) d (vs ++ semicolon :: rest) :=
      fun eof rest heof => (yields_declarator_iff heof).mpr ⟨us, hd, by simp, hfollow rest⟩
    have hmany := Built.many (fun _ _ h => (built_chained h).1) fun _ _ h => (built_chained h).2
    refine .bind hyields (List.suffix_append us vs)
      (hmany.closes_error hsemicolon (fun eof rest heof => ?_) _)
    exact many_complains (chained_takes heof) (fun _ _ hfree => hfree) ChainedForm.front
      (fun _ => chainedForm_iff)
      (fun _ _ rest hform hlong _ => chained_complains heof hform hlong rest) hchains hmodifier
      hfind

theorem procedure_closes (hsemicolon : semicolon.kind = symbol .semicolon) {u left right : Token}
    (hident : u.kind = .ident) (hleft : left.kind = symbol .leftParen)
    (hform : ArgumentsForm us names) (hright : right.kind = symbol .rightParen)
    (hfind : names.find? (·.IsLong) = some t) :
    Closes procedure (u :: left :: (us ++ right :: vs)) semicolon (.error t.tooLong) := by
  have hname : ∀ eof rest, eof.kind = .eof →
      (expect .ident).Yields eof (u :: left :: (us ++ right :: vs) ++ semicolon :: rest) u
        (left :: (us ++ right :: vs) ++ semicolon :: rest) :=
    fun eof rest heof => (yields_expect_iff heof (by simp)).mpr ⟨hident, rfl⟩
  have hopens : ∀ eof rest, eof.kind = .eof →
      (expect (symbol .leftParen)).Yields eof (left :: (us ++ right :: vs) ++ semicolon :: rest)
        left (us ++ right :: vs ++ semicolon :: rest) :=
    fun eof rest heof => (yields_expect_symbol_iff heof).mpr ⟨hleft, rfl⟩
  refine .bind hname (List.suffix_cons u _) (.bind hopens (List.suffix_cons left _)
    (built_arguments.closes_error hsemicolon (fun eof rest heof => ?_) _))
  rw [List.append_assoc]
  exact arguments_complains heof hform hright hfind

/-- The own name of a procedure is looked at when its semicolon is taken. -/
theorem procedure_answers (heof : eof.kind = .eof) {left right : Token}
    {arguments : List Argument} {type : String} {visibility : Visibility}
    (hident : t.kind = .ident) (hlong : t.IsLong) (hleft : left.kind = symbol .leftParen)
    (takes : ArgumentsPhrase us arguments) (hright : right.kind = symbol .rightParen)
    (typed : TypePhrase vs type) (seen : VisibilityPhrase ws visibility)
    (hsemicolon : semicolon.kind = symbol .semicolon) (rest : List Token) :
    procedure.Answers eof (t :: left :: (us ++ right :: (vs ++ ws ++ [semicolon])) ++ rest)
      (.error t.tooLong) rest := by
  have hname : (expect .ident).Yields eof
      (t :: left :: (us ++ right :: (vs ++ ws ++ [semicolon])) ++ rest) t
      (left :: (us ++ right :: (vs ++ ws ++ [semicolon])) ++ rest) :=
    (yields_expect_iff heof (by simp)).mpr ⟨hident, rfl⟩
  have hopens : (expect (symbol .leftParen)).Yields eof
      (left :: (us ++ right :: (vs ++ ws ++ [semicolon])) ++ rest) left
      (us ++ right :: (vs ++ ws ++ [semicolon]) ++ rest) :=
    (yields_expect_symbol_iff heof).mpr ⟨hleft, rfl⟩
  have harguments : Parser.arguments.Yields eof
      (us ++ right :: (vs ++ ws ++ [semicolon]) ++ rest) arguments
      (vs ++ (ws ++ semicolon :: rest)) :=
    (yields_arguments_iff heof).mpr ⟨us, right, takes, hright, by simp⟩
  have htype : typeName.Yields eof (vs ++ (ws ++ semicolon :: rest)) type
      (ws ++ semicolon :: rest) :=
    (yields_typeName_iff heof).mpr ⟨vs, typed, rfl⟩
  have hseen : Parser.visibility.Yields eof (ws ++ semicolon :: rest) visibility
      (semicolon :: rest) :=
    (yields_visibility_iff heof).mpr ⟨ws, seen, rfl, fun _ => by simp [hsemicolon]⟩
  have hends : (expect (symbol .semicolon)).Yields eof (semicolon :: rest) semicolon rest :=
    (yields_expect_symbol_iff heof).mpr ⟨hsemicolon, rfl⟩
  -- nothing of the procedure is left when its name is looked at
  have hcomplains : (name t).Answers eof rest (.error t.tooLong) rest := by
    rw [name_of_long hlong]
    exact ⟨rfl, rfl⟩
  exact .bind hname (.bind hopens (.bind harguments (.bind htype (.bind hseen (.bind hends
    (hcomplains.bind_error _))))))

end Parser

/-! ## What is lost -/

namespace Parse

/-- Whether a token for the end is that of all tokens or of those that are left makes no difference
to what is read of these. -/
theorem run_endToken (policy : ErrorPolicy) {us tokens : List Token} (h : us <:+ tokens) :
    run policy (endToken tokens) [] [] us = ofTokens policy us := by
  obtain ⟨vs, rfl⟩ := h
  cases us with
  | nil => rw [ofTokens, run_end frontKind_nil, run_end frontKind_nil, finish, finish]
  | cons u us =>
      -- the last token is among those that are left
      have hlast : endToken (vs ++ u :: us) = endToken (u :: us) := by
        unfold endToken
        rw [List.getLast?_append_of_ne_nil vs (List.cons_ne_nil u us)]
      rw [hlast, ofTokens]

end Parse

namespace Parsed

/-- Puts a diagnostic in front of the others. -/
def noting (d : Diagnostic) (p : Parsed) : Parsed :=
  { p with diagnostics := d :: p.diagnostics }

/-- Outside of blocks a mistake costs what is skipped for it. -/
theorem recovered_of_mistake {t : Token} {ts rest : List Token} (ht : t.kind ≠ .eof)
    {d : Diagnostic} (hrest : rest <:+ ts)
    (h : ∀ eof, eof.kind = .eof → (readItem 0 eof t ts ht).result = .error d ∧
      (readItem 0 eof t ts ht).rest = rest) :
    recovered (t :: ts) = (recovered rest).noting d := by
  have heof := endToken_kind (t :: ts)
  obtain ⟨hresult, hleft⟩ := h _ heof
  have hd := (Parse.complaint_readItem heof hresult).severity
  have hrun : Parse.ofTokens .recover (t :: ts) = Parse.note d (Parse.ofTokens .recover rest) := by
    rw [Parse.ofTokens, Parse.run_cons heof ts ht, Parse.turn_item ht (by simp),
      List.length_nil, Parse.itemTurn_error hresult, hleft, Parse.after_error hd]
    dsimp only
    rw [Parse.run_endToken .recover (hrest.trans (List.suffix_cons t ts))]
  obtain ⟨program, hprogram⟩ := Parse.run_recover (endToken_kind rest) [] [] rest
  have hnoted : (Parse.ofTokens .recover (t :: ts)).result = .ok program := by
    rw [hrun]
    exact hprogram
  rw [recovered_of_result hnoted, recovered_of_result hprogram, hrun]
  rfl

theorem recovered_of_closes {α : Type} {p : Parser α} {make : α → Item} {word semicolon : Token}
    {us : List Token} {d : Diagnostic} (hword : word.kind ≠ .eof)
    (hread : ∀ eof ts, readItem 0 eof word ts hword = .ofReading make (p eof ts))
    (hcloses : p.Closes us semicolon (.error d)) (hsemicolon : semicolon.kind = symbol .semicolon)
    (hus : Parts us) (b : List Token) :
    recovered (word :: (us ++ [semicolon]) ++ b) = (recovered b).noting d := by
  rw [List.cons_append, List.append_assoc, List.singleton_append]
  have hrest : b <:+ us ++ semicolon :: b :=
    List.suffix_append_of_suffix (List.suffix_cons semicolon b)
  refine recovered_of_mistake hword hrest fun eof heof => ?_
  rw [hread]
  exact Parse.ofReading_of_closes hcloses hsemicolon (fun t ht => ⟨(hus t ht).1, (hus t ht).2.1⟩)
    heof make

variable {g names : List Token} {own? : Option Token}

/-- A name that is looked at inside of its statement costs this statement. -/
theorem recovered_of_inner (hform : StatementForm g names own?) {t : Token}
    (hfind : names.find? (·.IsLong) = some t) (b : List Token) :
    recovered (g ++ b) = (recovered b).noting t.tooLong := by
  cases hform with
  | @declaration word u semicolon us vs names kind declares chains ends =>
      have hparts : Parts (us ++ vs) := by simp [declares.parts, chains.parts ChainedForm.parts]
      exact recovered_of_closes (by simp [kind]) (fun _ _ => Parse.readItem_decl kind)
        (Parser.declaration_closes ends declares chains hfind) ends hparts b
  | @procedure word u left right semicolon us vs ws names _ _ kind ident opens takes closes typed
      seen ends =>
      have hparts : Parts (u :: left :: (us ++ right :: (vs ++ ws))) := by
        simp [ident, opens, takes.parts, closes, typed.parts, seen.parts]
      have hsplit : word :: u :: left :: (us ++ right :: (vs ++ ws ++ [semicolon])) =
          word :: (u :: left :: (us ++ right :: (vs ++ ws)) ++ [semicolon]) := by
        simp
      rw [hsplit]
      exact recovered_of_closes (by simp [kind]) (fun _ _ => Parse.readItem_proc kind)
        (Parser.procedure_closes ends ident opens takes closes hfind) ends hparts b

/-- The name of a procedure, if it is looked at, costs the procedure and the clause behind it. -/
theorem recovered_of_own {t : Token} (hform : StatementForm g names (some t))
    (hshort : ∀ u ∈ names, ¬ u.IsLong) (hlong : t.IsLong) (b : List Token) :
    recovered (g ++ b) = (recovered (skipStatement b)).noting t.tooLong := by
  cases hform with
  | @procedure word _ left right semicolon us vs ws names _ _ kind ident opens takes closes typed
      seen ends =>
      obtain ⟨as, has⟩ := argumentsForm_iff.mp ⟨names, takes, hshort⟩
      have hsuffix : skipStatement b <:+
          t :: left :: (us ++ right :: (vs ++ ws ++ [semicolon])) ++ b :=
        List.suffix_append_of_suffix (skipStatement_suffix b)
      have hword : word.kind ≠ .eof := by simp [kind]
      refine recovered_of_mistake hword hsuffix fun eof heof => ?_
      obtain ⟨hresult, hrest⟩ :=
        Parser.procedure_answers heof ident hlong opens has closes typed seen ends b
      obtain ⟨hstep, hskipped⟩ := Parse.ofReading_error (t := word) hresult .statement
      rw [hrest] at hskipped
      rw [Parse.readItem_proc kind]
      exact ⟨hstep, hskipped⟩

/-- With short names nothing is lost. -/
theorem exists_of_form (hform : StatementForm g names own?)
    (hshort : ∀ t ∈ names ++ own?.toList, ¬ t.IsLong) :
    ∃ s, ∀ b program, Program.ofTokens b = .ok program →
      Program.ofTokens (g ++ b) = .ok (s :: program) := by
  obtain ⟨s, hs⟩ := statementForm_iff.mp ⟨names, own?, hform, hshort⟩
  have hphrase : StatementPhrase 0 g s := hs.elim .declaration .procedure
  refine ⟨s, fun b program hb => ?_⟩
  rw [Program.ofTokens_iff_accepts, Parse.accepts_iff_bodyPhrase (endToken_kind _)] at hb ⊢
  rw [hphrase.sound.solid.takeWhile_append]
  exact .cons hphrase hb

/-- What a name that is too long costs in front of a program. One that is declared in front of the
semicolon costs its statement and nothing of the program. The name of the procedure itself, if it is
the only one, costs the first clause of the program too. If no name is too long, nothing is lost. -/
theorem recovered_longName {b : List Token} {program : Program}
    (hform : StatementForm g names own?) (hb : Program.ofTokens b = .ok program) :
    (recovered b).program = program ∧ (∀ d ∈ (recovered b).diagnostics, d.severity ≠ .error) ∧
      (∀ t, names.find? (·.IsLong) = some t →
        recovered (g ++ b) = (recovered b).noting t.tooLong) ∧
      ((∀ u ∈ names, ¬ u.IsLong) → ∀ t ∈ own?, t.IsLong →
        recovered (g ++ b) = (recovered (skipStatement b)).noting t.tooLong) ∧
      ((∀ u ∈ names ++ own?.toList, ¬ u.IsLong) →
        ∃ s, Program.ofTokens (g ++ b) = .ok (s :: program)) := by
  obtain ⟨parsed, hparsed, hprogram, hdiagnostics⟩ := exists_of_accepted hb .recover
  obtain rfl : recovered b = parsed := (eq_recovered_of_ofTokens hparsed).symm
  refine ⟨hprogram, hdiagnostics, fun t hfind => recovered_of_inner hform hfind b, ?_, ?_⟩
  · intro hshort t ht hlong
    obtain rfl := Option.mem_def.mp ht
    exact recovered_of_own hform hshort hlong b
  · intro hshort
    obtain ⟨s, hs⟩ := exists_of_form hform hshort
    exact ⟨s, hs b program hb⟩

/-- A procedure is lost for the name of its argument, and with its own name two statements are. -/
theorem recovered_longName_argument_own :
    let word (kind : TokenKind) (text : String) : Token :=
      ⟨kind, .ofPrefix text.toList, "a", .start⟩
    let long := word .ident (String.ofList (List.replicate 65 'a'))
    let proc := word (keyword .proc) "proc"
    let f := word .ident "f"
    let left := word (symbol .leftParen) "("
    let right := word (symbol .rightParen) ")"
    let type := word .typeName "int"
    let semicolon := word (symbol .semicolon) ";"
    let decl := word (keyword .decl) "decl"
    let b := [decl, word .ident "y", type, semicolon, decl, word .ident "z", type, semicolon]
    let argument := [proc, f, left, long, right, type, semicolon]
    let own := [proc, long, left, right, type, semicolon]
    StatementForm argument [long] (some f) ∧ StatementForm own [] (some long) ∧ long.IsLong ∧
      (∃ program, Program.ofTokens b = .ok program ∧ program.length = 2) ∧
      recovered (argument ++ b) = (recovered b).noting long.tooLong ∧
      recovered (own ++ b) = (recovered (skipStatement b)).noting long.tooLong ∧
      (recovered (skipStatement b)).program.length = 1 := by
  intro word long proc f left right type semicolon decl b argument own
  have hlong : long.IsLong := by decide +kernel
  have hargument : StatementForm argument [long] (some f) :=
    .procedure rfl rfl rfl (.some (.untyped rfl) .nil) rfl (.builtIn rfl) .private rfl
  have hown : StatementForm own [] (some long) :=
    .procedure rfl rfl rfl .none rfl (.builtIn rfl) .private rfl
  obtain ⟨program, hprogram⟩ := isOk_iff.mp (by decide +kernel : (Program.ofTokens b).isOk = true)
  obtain ⟨hsame, -, hinner, -, -⟩ := recovered_longName hargument hprogram
  obtain ⟨-, -, -, hlate, -⟩ := recovered_longName hown hprogram
  have htwo : program.length = 2 := by
    rw [← hsame]
    decide +kernel
  exact ⟨hargument, hown, hlong, ⟨program, hprogram, htwo⟩, hinner long (by decide +kernel),
    hlate nofun long rfl hlong, by decide +kernel⟩

/-- Not every name that is too long costs its own statement only. -/
theorem not_program_of_longName :
    ¬ ∀ (g names b : List Token) (own? : Option Token) (program : Program),
      StatementForm g names own? → (∃ t ∈ names ++ own?.toList, t.IsLong) →
        Program.ofTokens b = .ok program → (recovered (g ++ b)).program = program := by
  intro h
  let word (kind : TokenKind) (text : String) : Token := ⟨kind, .ofPrefix text.toList, "a", .start⟩
  let long := word .ident (String.ofList (List.replicate 65 'a'))
  let type := word .typeName "int"
  let semicolon := word (symbol .semicolon) ";"
  let own := [word (keyword .proc) "proc", long, word (symbol .leftParen) "(",
    word (symbol .rightParen) ")", type, semicolon]
  let b := [word (keyword .decl) "decl", word .ident "y", type, semicolon]
  have hown : StatementForm own [] (some long) :=
    .procedure rfl rfl rfl .none rfl (.builtIn rfl) .private rfl
  obtain ⟨program, hprogram⟩ := isOk_iff.mp (by decide +kernel : (Program.ofTokens b).isOk = true)
  have hlost := h own [] b (some long) program hown
    ⟨long, List.mem_singleton.mpr rfl, by decide +kernel⟩ hprogram
  have hnone : (recovered (own ++ b)).program.length = 0 := by decide +kernel
  have hone : (Program.ofTokens b).toOption.map List.length = some 1 := by decide +kernel
  rw [hprogram, ← hlost] at hone
  exact absurd (hnone.symm.trans (Option.some.inj hone)) (by decide)

end Parsed

end TickMachine
