import TickMachine.Proofs.Source.Cover

/-! # Classes of tokens

The text of a token is one of those its kind stands for, and it goes on as far as it can: with the
character behind it in the source it would be another token or none. This is so at every place that
the lexer gets to, behind faults and behind characters that it skips too.
-/

namespace TickMachine

open Lexeme (AtFront isWordChar isNumberChar isWordChar_iff ofText ofNumber)

/-! ## Texts and the characters behind them -/

/-- The words that are no identifiers. -/
def reservedWords : List String :=
  Keyword.all.map Keyword.spelling ++ typeNames

/-- Letters and underscores, at least one of them. -/
def IsWord (cs : List Char) : Prop :=
  cs ≠ [] ∧ ∀ c ∈ cs, c.isAlpha = true ∨ c = '_'

/-- The texts of each kind of token; those of strings are without the quotes. -/
inductive Lexical : TokenKind → List Char → Prop
  | identifier {cs : List Char} (word : IsWord cs) (free : String.ofList cs ∉ reservedWords) :
      Lexical .ident cs
  | keyword {cs : List Char} {k : Keyword} (word : IsWord cs)
      (spelled : String.ofList cs = k.spelling) : Lexical (.keyword k) cs
  | typeName {cs : List Char} (word : IsWord cs) (listed : String.ofList cs ∈ typeNames) :
      Lexical .typeName cs
  | integer {cs : List Char} (ne : cs ≠ []) (digits : ∀ c ∈ cs, c.isDigit = true) :
      Lexical .int cs
  | decimal {whole fraction : List Char} (ne : whole ≠ [])
      (digits : ∀ c ∈ whole ++ fraction, c.isDigit = true) :
      Lexical .dec (whole ++ '.' :: fraction)
  | string {cs : List Char} (quoteless : '\'' ∉ cs) : Lexical .str cs
  | symbol {s : Symbol} : Lexical (.symbol s) s.spelling

/-- With the character behind its text a token of the kind would be a longer one, or the start of a
comment. -/
def TokenKind.GoesOn : TokenKind → Char → Prop
  | ident, c | typeName, c | keyword _, c => c.isAlpha = true ∨ c = '_'
  | int, c | dec, c => c.isDigit = true ∨ c = '.'
  | symbol .colon, c => c = '='
  | symbol .less, c => c = '=' ∨ c = '>'
  | symbol .greater, c => c = '='
  | symbol .minus, c => c = '>'
  | symbol .slash, c => c = '/' ∨ c = '*'
  | _, _ => False

/-! ## Words, numbers and symbols -/

theorem isWord_of_all {cs : List Char} (hne : cs ≠ []) (hall : ∀ c ∈ cs, isWordChar c = true) :
    IsWord cs :=
  ⟨hne, fun c hc => isWordChar_iff.mp (hall c hc)⟩

/-- The kind of a word is what the lists of reserved words say. -/
theorem lexical_ofWord {cs : List Char} (hword : IsWord cs) :
    Lexical (.ofWord (String.ofList cs)) cs := by
  unfold TokenKind.ofWord
  split
  next k hk => exact .keyword hword (Keyword.spelling_of_ofWord? hk).symm
  next hnone =>
    split
    next hlisted => exact .typeName hword hlisted
    next hunlisted =>
      refine .identifier hword fun hreserved => ?_
      rcases List.mem_append.mp hreserved with hmem | hmem
      · obtain ⟨k, hk, hspelling⟩ := List.mem_map.mp hmem
        exact absurd hspelling (by simpa using List.find?_eq_none.mp hnone k hk)
      · exact hunlisted hmem

theorem goesOn_ofWord_iff {word : String} {c : Char} :
    (TokenKind.ofWord word).GoesOn c ↔ isWordChar c = true := by
  rw [isWordChar_iff]
  unfold TokenKind.ofWord
  split
  · exact Iff.rfl
  · split
    · exact Iff.rfl
    · exact Iff.rfl

theorem isNumberChar_iff {c : Char} : isNumberChar c = true ↔ c.isDigit = true ∨ c = '.' := by
  simp [isNumberChar]

/-- A run of digits and points is an integer without a point and a decimal with one. -/
theorem lexical_ofNumber {c : Char} {body : List Char} (hdigit : c.isDigit = true)
    (hall : ∀ d ∈ body, isNumberChar d = true) {kind : TokenKind} {text : BoundedText maxTokenSize}
    (h : ofNumber (c :: body) = .token kind text) : Lexical kind (c :: body) := by
  have hnumber : ∀ d ∈ c :: body, d.isDigit = true ∨ d = '.' :=
    List.forall_mem_cons.mpr ⟨.inl hdigit, fun d hd => isNumberChar_iff.mp (hall d hd)⟩
  unfold ofNumber at h
  split at h
  next hcount =>
    obtain rfl := Lexeme.kind_ofText h
    refine .integer (List.cons_ne_nil c body) fun d hd => (hnumber d hd).resolve_right ?_
    rintro rfl
    exact List.count_eq_zero.mp hcount hd
  next hcount =>
    obtain rfl := Lexeme.kind_ofText h
    have hmem : '.' ∈ c :: body := List.count_pos_iff.mp (by omega)
    obtain ⟨whole, fraction, hsplit, hwhole⟩ := List.eq_append_cons_of_mem hmem
    have hfraction : '.' ∉ fraction := by
      rw [hsplit, List.count_append, List.count_cons_self, List.count_eq_zero.mpr hwhole] at hcount
      exact List.count_eq_zero.mp (by omega)
    rw [hsplit] at hnumber ⊢
    refine .decimal ?_ fun d hd => ?_
    · rintro rfl
      obtain ⟨rfl, -⟩ := List.cons.inj hsplit
      cases hdigit
    · rcases List.mem_append.mp hd with hd | hd
      · exact (hnumber d (List.mem_append_left _ hd)).resolve_right fun h => hwhole (h ▸ hd)
      · exact (hnumber d (List.mem_append_right _ (List.mem_cons_of_mem _ hd))).resolve_right
          fun h => hfraction (h ▸ hd)
  next => cases h

theorem goesOn_number {cs : List Char} {kind : TokenKind} {text : BoundedText maxTokenSize}
    (h : ofNumber cs = .token kind text) {c : Char} (hc : kind.GoesOn c) :
    isNumberChar c = true := by
  rcases Lexeme.kind_ofNumber h with rfl | rfl
  · exact isNumberChar_iff.mpr hc
  · exact isNumberChar_iff.mpr hc

/-- Where the longest symbol is found, no longer one goes over the next character. -/
theorem not_goesOn_symbol {s : Symbol} {rest : List Char}
    (hlongest : Symbol.atFront? (s.spelling ++ rest) = some s)
    (hslash : s = .slash → ∀ c ∈ rest.head?, c ≠ '/' ∧ c ≠ '*') {c : Char} (hc : c ∈ rest.head?) :
    ¬ (TokenKind.symbol s).GoesOn c := by
  obtain ⟨rest, rfl⟩ := List.head?_eq_some_iff.mp hc
  intro h
  cases s with
  | colon =>
      obtain rfl : c = '=' := h
      cases hlongest
  | less =>
      obtain rfl | rfl : c = '=' ∨ c = '>' := h
      · cases hlongest
      · cases hlongest
  | greater =>
      obtain rfl : c = '=' := h
      cases hlongest
  | minus =>
      obtain rfl : c = '>' := h
      cases hlongest
  | slash =>
      obtain rfl | rfl : c = '/' ∨ c = '*' := h
      · exact (hslash rfl _ rfl).1 rfl
      · exact (hslash rfl _ rfl).2 rfl
  | _ => exact h

/-! ## Sources -/

theorem Lexeme.eq_of_ofText {kind kind' : TokenKind} {cs : List Char}
    {text : BoundedText maxTokenSize} (h : ofText kind cs = token kind' text) :
    kind' = kind ∧ text.text.toList = cs := by
  refine ⟨kind_ofText h, ?_⟩
  have hsound : (ofText kind cs).isFault = false := by
    rw [h]
    rfl
  obtain ⟨text', htext, hlist⟩ := exists_text_of_ofText hsound
  obtain ⟨-, rfl⟩ := Lexeme.token.inj (htext.symm.trans h)
  exact hlist

/-- A token in front of a text is of its class and does not go on. -/
theorem Lexeme.AtFront.lexical {lexeme : Lexeme} {taken rest : List Char}
    (h : AtFront lexeme taken rest) {kind : TokenKind} {text : BoundedText maxTokenSize}
    (htoken : lexeme = token kind text) :
    Lexical kind text.text.toList ∧ ∀ c ∈ rest.head?, ¬ kind.GoesOn c := by
  cases h with
  | blank => cases htoken
  | lineComment => cases htoken
  | blockComment => cases htoken
  | openComment => cases htoken
  | string hcontent =>
      obtain ⟨rfl, htext⟩ := eq_of_ofText htoken
      rw [htext]
      exact ⟨.string hcontent, fun _ _ h => h⟩
  | openString => cases htoken
  | word hne hall hstop =>
      obtain ⟨rfl, htext⟩ := eq_of_ofText htoken
      rw [htext]
      refine ⟨lexical_ofWord (isWord_of_all hne hall), fun c hc h => ?_⟩
      rw [goesOn_ofWord_iff, hstop c hc] at h
      cases h
  | number hdigit hall hstop =>
      obtain ⟨_, -, hnumber⟩ := exists_kind_of_ofNumber (by rw [htoken]; rfl)
      obtain ⟨-, htext⟩ := eq_of_ofText (hnumber.symm.trans htoken)
      rw [htext]
      refine ⟨lexical_ofNumber hdigit hall htoken, fun c hc h => ?_⟩
      have hgoes := goesOn_number htoken h
      rw [hstop c hc] at hgoes
      cases hgoes
  | symbol hlongest hslash =>
      obtain ⟨rfl, htext⟩ := eq_of_ofText htoken
      rw [htext]
      exact ⟨.symbol, fun c hc => not_goesOn_symbol hlongest hslash hc⟩
  | stray => cases htoken

namespace Segment

/-- A segment that makes a token which is no fault shows the token. -/
theorem shows_of_cut {file : String} {cs : List Char} {front back : List Segment} {s : Segment}
    (h : cut .recover .start cs = front ++ s :: back) {t : Token} (htoken : s.token? file = some t)
    (hfault : t.kind ≠ .error) : t.Shows s.text := by
  obtain ⟨-, haccounts⟩ := accounts_of_cut file [] cs h
  rw [htoken] at haccounts
  generalize s.error? file = e? at haccounts
  cases haccounts with
  | token _ hshows => exact hshows
  | fault herror => exact absurd herror hfault

end Segment

/-- What is not read of a source starts with a NUL. -/
theorem exists_unread (source : String) :
    ∃ unread, source.toList = readable source ++ unread ∧ ∀ c ∈ unread.head?, c = '\x00' := by
  refine ⟨source.toList.dropWhile (· ≠ '\x00'), List.takeWhile_append_dropWhile.symm, ?_⟩
  intro c hc
  simpa using Text.head?_dropWhile_stop (· ≠ '\x00') source.toList c hc

/-- No token goes on with a NUL. -/
theorem TokenKind.not_goesOn_nul (kind : TokenKind) : ¬ kind.GoesOn '\x00' := by
  cases kind with
  | symbol s => cases s <;> simp [GoesOn]
  | _ => simp [GoesOn]

namespace Lexed

variable {policy : ErrorPolicy} {source file : String} {lexed : Lexed} {front back : List Token}
  {t : Token}

/-- A token other than the end of the source is made of one segment, and the tokens in front of it
are made of the segments in front. -/
theorem exists_segment (h : ofSource policy source file = .ok lexed)
    (htokens : lexed.tokens = front ++ t :: back) (hend : t.kind ≠ .eof) :
    ∃ before s after, segments policy source = before ++ s :: after ∧
      before.filterMap (Segment.token? file) = front ∧ s.token? file = some t := by
  obtain rfl := eq_of_ofSource h
  dsimp only at htokens
  obtain ⟨more, hmade⟩ : ∃ more,
      (segments policy source).filterMap (Segment.token? file) = front ++ t :: more := by
    rcases List.eq_nil_or_concat' back with rfl | ⟨more, last, rfl⟩
    · obtain ⟨-, hlast⟩ := List.append_inj' htokens rfl
      exact absurd ((List.cons.inj hlast).1 ▸ rfl) hend
    · rw [← List.cons_append, ← List.append_assoc] at htokens
      exact ⟨more, (List.append_inj' htokens rfl).1⟩
  obtain ⟨ss, others, hsplit, hfront, hothers⟩ := List.filterMap_eq_append_iff.mp hmade
  obtain ⟨gaps, s, after, rfl, hgaps, htoken, -⟩ := List.filterMap_eq_cons_iff.mp hothers
  refine ⟨ss ++ gaps, s, after, by rw [hsplit, List.append_assoc], ?_, htoken⟩
  rw [List.filterMap_append, hfront, List.filterMap_eq_nil_iff.mpr hgaps, List.append_nil]

/-- The text of a token is one of those of its kind. -/
theorem lexical_of_mem (h : ofSource policy source file = .ok lexed) (hmem : t ∈ lexed.tokens)
    (hend : t.kind ≠ .eof) (hfault : t.kind ≠ .error) : Lexical t.kind t.text.text.toList := by
  obtain ⟨front, back, htokens⟩ := List.append_of_mem hmem
  obtain ⟨before, s, after, hsplit, -, htoken⟩ := exists_segment h htokens hend
  have hlexeme := (Segment.kind_of_token? htoken).resolve_right hfault
  obtain ⟨q, hleads⟩ := Segment.leads_of_cut ((segments_eq_of_ofSource h).symm.trans hsplit)
  exact ((hleads.atFront (by rw [hlexeme]; rfl)).lexical hlexeme).1

/-- Every token of a source that is no fault and not its end is made of one segment, by both
policies: the tokens in front of it are made of the segments in front. Its text is one of those of
its kind, has at most 128 bytes, and is not followed in the source by a character with which it
would go on. -/
theorem ofSource_lexical (h : ofSource policy source file = .ok lexed)
    (htokens : lexed.tokens = front ++ t :: back) (hend : t.kind ≠ .eof)
    (hfault : t.kind ≠ .error) :
    ∃ before s after rest, segments policy source = before ++ s :: after ∧
      before.filterMap (Segment.token? file) = front ∧ s.token? file = some t ∧ t.Shows s.text ∧
      source.toList = before.flatMap Segment.text ++ s.text ++ rest ∧
      Lexical t.kind t.text.text.toList ∧ t.text.text.utf8ByteSize ≤ 128 ∧
      ∀ c ∈ rest.head?, ¬ t.kind.GoesOn c := by
  obtain ⟨before, s, after, hsplit, hbefore, htoken⟩ := exists_segment h htokens hend
  have hcut := (segments_eq_of_ofSource h).symm.trans hsplit
  have hlexeme := (Segment.kind_of_token? htoken).resolve_right hfault
  obtain ⟨q, hleads⟩ := Segment.leads_of_cut hcut
  have hfront : AtFront s.lexeme s.text (after.flatMap Segment.text) :=
    hleads.atFront (by rw [hlexeme]; rfl)
  obtain ⟨hlexical, hstops⟩ := hfront.lexical hlexeme
  obtain ⟨unread, hsource, hunread⟩ := exists_unread source
  refine ⟨before, s, after, after.flatMap Segment.text ++ unread, hsplit, hbefore, htoken,
    Segment.shows_of_cut hcut htoken hfault, ?_, hlexical, t.text.fits, ?_⟩
  · rw [hsource, ← Segment.flatMap_text_cut .start (readable source), hcut]
    simp
  · -- behind the last segment there is nothing, or the NUL that ends the text
    intro c hc
    rw [List.head?_append] at hc
    cases hhead : (after.flatMap Segment.text).head? with
    | some d =>
        rw [hhead] at hc
        exact hstops c (hhead ▸ hc)
    | none =>
        rw [hhead] at hc
        rw [hunread c hc]
        exact t.kind.not_goesOn_nul

/-- A keyword and a number without a space between them, a sign that is no comment, a fault, and a
colon with a NUL in front of the equality sign that would make it another symbol. -/
theorem ofSource_lexical_colon :
    let source := "if1.<a/ 1.2.3 :\x00="
    ∃ lexed front t back, ofSource .recover source "f" = .ok lexed ∧
      lexed.tokens = front ++ t :: back ∧
      front.map Token.kind =
        [.keyword .if, .dec, .symbol .less, .ident, .symbol .slash, .error] ∧
      t.kind = .symbol .colon ∧ t.kind ≠ .eof ∧ t.kind ≠ .error ∧
      ∃ before s after rest, segments .recover source = before ++ s :: after ∧
        before.filterMap (Segment.token? "f") = front ∧
        source.toList = before.flatMap Segment.text ++ s.text ++ rest ∧
        Lexical (.symbol .colon) t.text.text.toList ∧ ∀ c ∈ rest.head?, c ≠ '=' := by
  intro source
  obtain ⟨lexed, hlexed, hkinds⟩ : ∃ lexed, ofSource .recover source "f" = .ok lexed ∧
      lexed.tokens.map Token.kind =
        [.keyword .if, .dec, .symbol .less, .ident, .symbol .slash, .error] ++
          [.symbol .colon, .eof] := ⟨_, rfl, by decide +kernel⟩
  obtain ⟨front, others, htokens, hfront, hothers⟩ := List.map_eq_append_iff.mp hkinds
  obtain ⟨t, back, rfl, hkind, -⟩ := List.map_eq_cons_iff.mp hothers
  have hend : t.kind ≠ .eof := by simp [hkind]
  have hfault : t.kind ≠ .error := by simp [hkind]
  obtain ⟨before, s, after, rest, hsplit, hbefore, -, -, hsource, hlexical, -, hstops⟩ :=
    ofSource_lexical hlexed htokens hend hfault
  rw [hkind] at hlexical hstops
  exact ⟨lexed, front, t, back, hlexed, htokens, hfront, hkind, hend, hfault, before, s, after,
    rest, hsplit, hbefore, hsource, hlexical, hstops⟩

end Lexed

end TickMachine
