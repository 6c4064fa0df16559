import TickMachine.Proofs.Source.Seams

/-! # Printing tokens

A token is read from its text wherever nothing or a space stands behind it. So tokens may be written
with a space between them, and the lexer finds them again, in places of their own.
-/

namespace TickMachine

open Lexeme (AtFront isSpace isWordChar_of_isSpace isNumberChar_of_isSpace atFront?_append_space)

/-- The text of a token in a source. -/
def Token.written (t : Token) : String :=
  match t.kind with
  | .str => "'" ++ t.text.text ++ "'"
  | _ => t.text.text

/-- The tokens in front of the end of the source, with a space between them. -/
def Token.printed (tokens : List Token) : String :=
  " ".intercalate ((tokens.filter (·.kind ≠ .eof)).map Token.written)

/-- What a token is, wherever it stands. -/
def Token.content (t : Token) : TokenKind × BoundedText maxTokenSize :=
  (t.kind, t.text)

def Token.lexeme (t : Token) : Lexeme :=
  .token t.kind t.text

theorem Token.Shows.eq_written {t : Token} {cs : List Char} (h : t.Shows cs) :
    cs = t.written.toList := by
  obtain ⟨kind, text, file, position⟩ := t
  cases kind with
  | str => simpa [Shows, written] using h
  | _ => exact h

/-! ## Tokens that stand alone -/

/-- Where nothing or a space is behind a symbol, no longer symbol stands there. -/
theorem Symbol.atFront?_spelling (s : Symbol) {rest : List Char}
    (hrest : ∀ c ∈ rest.head?, isSpace c) : atFront? (s.spelling ++ rest) = some s := by
  have halone : atFront? s.spelling = some s := by cases s <;> rfl
  cases rest with
  | nil => rw [List.append_nil, halone]
  | cons d rest => rw [atFront?_append_space (hrest d rfl), halone]

/-- What a token is does not depend on what stands behind it, if it stands alone. -/
theorem Lexeme.AtFront.alone {lexeme : Lexeme} {taken behind rest : List Char}
    (h : AtFront lexeme taken behind) {t : Token} (htoken : lexeme = t.lexeme)
    (hrest : ∀ c ∈ rest.head?, isSpace c) : AtFront lexeme taken rest := by
  cases h with
  | blank => cases htoken
  | lineComment => cases htoken
  | blockComment => cases htoken
  | openComment => cases htoken
  | string hcontent => exact .string hcontent
  | openString => cases htoken
  | word hne hall => exact .word hne hall fun c hc => isWordChar_of_isSpace (hrest c hc)
  | number hdigit hall =>
      exact .number hdigit hall fun c hc => isNumberChar_of_isSpace (hrest c hc)
  | @symbol s =>
      refine .symbol (s.atFront?_spelling hrest) fun _ c hc => ?_
      constructor
      · rintro rfl
        cases hrest _ hc
      · rintro rfl
        cases hrest _ hc
  | stray => cases htoken

/-- The token is what its text is read as, whenever it stands alone. -/
def Token.Legible (t : Token) : Prop :=
  ∀ rest : List Char, (∀ c ∈ rest.head?, isSpace c) → AtFront t.lexeme t.written.toList rest

namespace Segment

variable {file : String}

/-- The tokens of a text without faults can be read when they stand alone, and are written with
characters of the text. -/
theorem legible_of_mem {cs : List Char} {t : Token}
    (hsound : ∀ s ∈ cut .recover .start cs, s.lexeme.isFault = false)
    (ht : t ∈ (cut .recover .start cs).filterMap (token? file)) :
    t.Legible ∧ ∀ c ∈ t.written.toList, c ∈ cs := by
  obtain ⟨s, hs, htoken⟩ := List.mem_filterMap.mp ht
  obtain ⟨q, ds, rest, hleads, hsuffix⟩ := exists_leads_of_mem hs
  obtain ⟨front, back, hsplit⟩ := List.append_of_mem hs
  have haccounts := (accounts_of_cut file [] cs hsplit).2
  rw [error?_of_faultless (hsound s hs), htoken] at haccounts
  cases haccounts with
  | token hkind hshows =>
      have hlexeme : s.lexeme = t.lexeme := (kind_of_token? htoken).resolve_right hkind
      have hfront : AtFront s.lexeme s.text rest := hleads.atFront (hsound s hs)
      rw [hshows.eq_written] at hfront
      refine ⟨fun others hothers => hlexeme ▸ hfront.alone hlexeme hothers, fun c hc => ?_⟩
      rw [← hshows.eq_written] at hc
      exact hsuffix.subset (hleads.text ▸ List.mem_append_left rest hc)

/-- With a space between them, tokens are read again. -/
theorem lexemes_cut_intercalate (policy : ErrorPolicy) (p : Position) {ts : List Token}
    (hts : ∀ t ∈ ts, t.Legible) :
    (visible (cut policy p ([' '].intercalate (ts.map fun t => t.written.toList)))).map lexeme =
      ts.map Token.lexeme := by
  induction ts generalizing p with
  | nil =>
      rw [List.map_nil, List.intercalate_nil, cut]
      rfl
  | cons t us ih =>
      obtain ⟨ht, hus⟩ := List.forall_mem_cons.mp hts
      have hgap : t.lexeme ≠ .gap := by simp [Token.lexeme]
      cases us with
      | nil =>
          rw [List.map_singleton, List.intercalate_singleton, ← List.append_nil t.written.toList,
            cut_of_atFront policy p (ht [] (by simp)) rfl, visible_of_ne_gap hgap, cut]
          rfl
      | cons u us =>
          have hspace : ∀ c ∈ [' '], isSpace c := List.forall_mem_singleton.mpr rfl
          rw [List.map_cons, List.map_cons, List.intercalate_cons_cons, List.append_assoc,
            cut_of_atFront policy p (ht _ (by simp [isSpace])) rfl, visible_of_ne_gap hgap,
            visible_cut_spaces hspace, List.map_cons, List.map_cons]
          exact congrArg (t.lexeme :: ·) (ih _ hus)

/-- Segments that are tokens say what the tokens are, and there is no error among them. -/
theorem contents_of_lexemes {ss : List Segment} {ts : List Token}
    (h : ss.map lexeme = ts.map Token.lexeme) (file : String) :
    (ss.filterMap (token? file)).map Token.content = ts.map Token.content ∧
      ss.filterMap (error? file) = [] := by
  induction ts generalizing ss with
  | nil =>
      obtain rfl := List.map_eq_nil_iff.mp h
      exact ⟨rfl, rfl⟩
  | cons t ts ih =>
      obtain ⟨⟨_, text, position⟩, ss, rfl, rfl, hss⟩ := List.map_eq_cons_iff.mp h
      obtain ⟨htokens, herrors⟩ := ih hss
      exact ⟨congrArg (t.content :: ·) htokens, herrors⟩

end Segment

/-! ## Sources -/

theorem mem_of_mem_intercalate {α : Type} {x : α} {sep : List α} {parts : List (List α)}
    (h : x ∈ sep.intercalate parts) : x ∈ sep ∨ ∃ part ∈ parts, x ∈ part := by
  induction parts with
  | nil =>
      rw [List.intercalate_nil] at h
      cases h
  | cons part parts ih =>
      cases parts with
      | nil =>
          rw [List.intercalate_singleton] at h
          exact .inr ⟨part, List.mem_cons_self, h⟩
      | cons next others =>
          rw [List.intercalate_cons_cons, List.mem_append, List.mem_append] at h
          rcases h with (h | h) | h
          · exact .inr ⟨part, List.mem_cons_self, h⟩
          · exact .inl h
          · exact (ih h).imp_right fun ⟨other, hmem, hx⟩ =>
              ⟨other, List.mem_cons_of_mem part hmem, hx⟩

/-- What is read of a source has no NUL. -/
theorem not_mem_readable (source : String) : '\x00' ∉ readable source := by
  intro hmem
  have hread := List.all_eq_true.mp List.all_takeWhile _ hmem
  simp at hread

/-- The end of the source is not printed. -/
theorem Token.toList_printed {tokens : List Token} (htokens : ∀ t ∈ tokens, t.kind ≠ .eof)
    {last : Token} (hlast : last.kind = .eof) : (printed (tokens ++ [last])).toList =
      [' '].intercalate (tokens.map fun t => t.written.toList) := by
  have hfilter : (tokens ++ [last]).filter (·.kind ≠ .eof) = tokens := by
    rw [List.filter_append, List.filter_eq_self.mpr (by simpa using htokens),
      List.filter_cons_of_neg (by simp [hlast]), List.filter_nil, List.append_nil]
  rw [printed, hfilter, String.toList_intercalate, List.map_map]
  rfl

namespace Lexed

/-- Tokens that can be read alone are the tokens of the text in which they stand so. -/
theorem tokensOf_of_legible {ts : List Token} {source : String}
    (hts : ∀ t ∈ ts, t.Legible ∧ '\x00' ∉ t.written.toList)
    (hsource : source.toList = [' '].intercalate (ts.map fun t => t.written.toList))
    (file : String) : ∃ again, tokensOf source file =
      .ok (again ++ [.eof file (Position.start.after (readable source))]) ∧
      again.map Token.content = ts.map Token.content := by
  have hnul : '\x00' ∉ source.toList := by
    intro hmem
    rw [hsource] at hmem
    rcases mem_of_mem_intercalate hmem with hspace | ⟨part, hpart, hmem⟩
    · exact absurd hspace (by decide)
    · obtain ⟨t, ht, rfl⟩ := List.mem_map.mp hpart
      exact (hts t ht).2 hmem
  have hlexemes := Segment.lexemes_cut_intercalate .abort .start fun t ht => (hts t ht).1
  rw [← hsource, ← readable_eq_toList hnul] at hlexemes
  obtain ⟨hcontents, herrors⟩ := Segment.contents_of_lexemes hlexemes file
  refine ⟨_, ?_, hcontents⟩
  unfold tokensOf
  rw [ofSource_eq_ofVisible]
  unfold ofVisible segments
  rw [herrors]
  rfl

/-- Tokens of a source without mistakes, written with single spaces between them, are a source with
tokens of the same kinds and texts. -/
theorem tokensOf_printed {source file : String} {tokens : List Token}
    (htokens : tokensOf source file = .ok tokens) (file' : String) :
    ∃ again, tokensOf (Token.printed tokens) file' = .ok again ∧
      again.map Token.content = tokens.map Token.content := by
  obtain ⟨hsound, hsolid, rfl⟩ := cut_of_tokensOf htokens
  have hlegible : ∀ t ∈ (Segment.cut .recover .start (readable source)).filterMap
      (Segment.token? file), t.Legible ∧ '\x00' ∉ t.written.toList := by
    intro t ht
    obtain ⟨hlegible, hwritten⟩ := Segment.legible_of_mem hsound ht
    exact ⟨hlegible, fun hnul => not_mem_readable source (hwritten _ hnul)⟩
  have hlast : (Token.eof file (.behind (readable source))).kind = .eof := rfl
  have hprinted := Token.toList_printed hsolid hlast
  obtain ⟨again, hagain, hcontents⟩ := tokensOf_of_legible hlegible hprinted file'
  refine ⟨_, hagain, ?_⟩
  rw [List.map_append, List.map_append, hcontents]
  rfl

/-- A number that ends in a point, a string with a comment opener over two lines, and symbols of which
some would be others, or comments, without a space between them. -/
theorem tokensOf_printed_mixed :
    ∃ tokens again, tokensOf "do 1.;'/*\nx' < >//y\n/ /*z*/ * :=" "f" = .ok tokens ∧
      Token.printed tokens = "do 1. ; '/*\nx' < > / * :=" ∧
      tokensOf (Token.printed tokens) "g" = .ok again ∧
      again.map Token.content = tokens.map Token.content := by
  have hprinted : (tokensOf "do 1.;'/*\nx' < >//y\n/ /*z*/ * :=" "f").toOption.map
      Token.printed = some "do 1. ; '/*\nx' < > / * :=" := by decide +kernel
  cases htokens : tokensOf "do 1.;'/*\nx' < >//y\n/ /*z*/ * :=" "f" with
  | error e =>
      rw [htokens] at hprinted
      cases hprinted
  | ok tokens =>
      rw [htokens] at hprinted
      obtain ⟨again, hagain, hcontents⟩ := tokensOf_printed htokens "g"
      exact ⟨tokens, again, rfl, Option.some.inj hprinted, hagain, hcontents⟩

end Lexed

end TickMachine
