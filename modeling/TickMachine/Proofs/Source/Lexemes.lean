import TickMachine.Proofs.Text.Cutting
import TickMachine.Source.Lexeme

/-! # Which lexeme stands in front

For every lexeme there is one rule that says which text it takes and what may stand behind it. The
rules are the lexer told from the other side: no rule is tried before another one, and a text that
is taken is as long as its rule allows.
-/

namespace TickMachine.Lexeme

open Text (takeWhile_append_stop exists_span exists_span_cons)

/-! ## Block comments -/

/-- The text inside of a block comment, whose end is the first one there is. -/
def IsCommentBody (body : List Char) : Prop :=
  ¬ ['*', '/'] <:+: body ++ ['*']

theorem commentLength?_cons {c : Char} {cs : List Char} (h : ¬ ['*', '/'] <+: c :: cs) :
    commentLength? (c :: cs) = (commentLength? cs).map (· + 1) := by
  rw [commentLength?]
  rintro rest rfl rfl
  exact h (List.prefix_append ['*', '/'] rest)

theorem commentLength?_eq_none_iff {cs : List Char} :
    commentLength? cs = none ↔ ¬ ['*', '/'] <:+: cs := by
  induction cs with
  | nil => simp [commentLength?]
  | cons c cs ih =>
      by_cases hfront : ['*', '/'] <+: c :: cs
      · obtain ⟨rest, hrest⟩ := hfront
        obtain ⟨rfl, rfl⟩ := List.cons.inj hrest
        simp [commentLength?, List.infix_cons_iff]
      · rw [commentLength?_cons hfront, Option.map_eq_none_iff, ih, List.infix_cons_iff]
        simp [hfront]

theorem commentLength?_body {body : List Char} (hbody : IsCommentBody body) (rest : List Char) :
    commentLength? (body ++ '*' :: '/' :: rest) = some body.length := by
  induction body with
  | nil => rfl
  | cons c body ih =>
      have hinner : ¬ ['*', '/'] <+: c :: (body ++ ['*']) ∧ IsCommentBody body := by
        simpa [IsCommentBody, List.infix_cons_iff] using hbody
      have hfront : ¬ ['*', '/'] <+: c :: (body ++ '*' :: '/' :: rest) := by
        cases body with
        | nil => simp
        | cons d body => simpa using hinner.1
      rw [List.cons_append, commentLength?_cons hfront, ih hinner.2]
      rfl

theorem exists_body_of_commentLength? {cs : List Char} {n : Nat} (h : commentLength? cs = some n) :
    ∃ body rest, cs = body ++ '*' :: '/' :: rest ∧ body.length = n ∧ IsCommentBody body := by
  induction cs generalizing n with
  | nil => cases h
  | cons c cs ih =>
      by_cases hfront : ['*', '/'] <+: c :: cs
      · obtain ⟨rest, hrest⟩ := hfront
        obtain ⟨rfl, rfl⟩ := List.cons.inj hrest
        obtain rfl : 0 = n := Option.some.inj h
        exact ⟨[], rest, rfl, rfl, by simp [IsCommentBody, List.infix_cons_iff]⟩
      · rw [commentLength?_cons hfront] at h
        obtain ⟨m, hm, rfl⟩ := Option.map_eq_some_iff.mp h
        obtain ⟨body, rest, rfl, rfl, hbody⟩ := ih hm
        refine ⟨c :: body, rest, rfl, rfl, ?_⟩
        have hfront' : ¬ ['*', '/'] <+: c :: (body ++ ['*']) := by
          cases body with
          | nil => simp
          | cons d body => simpa using hfront
        simpa [IsCommentBody, List.infix_cons_iff, hfront'] using hbody

/-! ## The rules -/

/-- The lexeme stands at the front of a text; `taken` is its part of the text, `rest` what is behind
it. -/
inductive AtFront : Lexeme → List Char → List Char → Prop
  | blank {taken rest : List Char} (hne : taken ≠ []) (hall : ∀ c ∈ taken, isSpace c)
      (hstop : ∀ c ∈ rest.head?, isSpace c = false) : AtFront gap taken rest
  | lineComment {body rest : List Char} (hbody : ∀ c ∈ body, c ≠ '\n')
      (hstop : ∀ c ∈ rest.head?, c = '\n') : AtFront gap ('/' :: '/' :: body) rest
  | blockComment {body rest : List Char} (hbody : IsCommentBody body) :
      AtFront gap ('/' :: '*' :: (body ++ ['*', '/'])) rest
  /-- A comment that is never closed takes all there is. -/
  | openComment {body : List Char} (hbody : ¬ ['*', '/'] <:+: body) :
      AtFront (fault .unterminatedComment) ('/' :: '*' :: body) []
  | string {content rest : List Char} (hcontent : '\'' ∉ content) :
      AtFront (ofText .str content) ('\'' :: (content ++ ['\''])) rest
  /-- A string that is never closed spoils its quote. -/
  | openString {rest : List Char} (hrest : '\'' ∉ rest) :
      AtFront (fault .unterminatedString) ['\''] rest
  | word {taken rest : List Char} (hne : taken ≠ []) (hall : ∀ c ∈ taken, isWordChar c)
      (hstop : ∀ c ∈ rest.head?, isWordChar c = false) :
      AtFront (ofText (.ofWord (String.ofList taken)) taken) taken rest
  | number {c : Char} {body rest : List Char} (hdigit : c.isDigit)
      (hall : ∀ d ∈ body, isNumberChar d) (hstop : ∀ d ∈ rest.head?, isNumberChar d = false) :
      AtFront (ofNumber (c :: body)) (c :: body) rest
  /-- No longer symbol stands there, and no comment. -/
  | symbol {s : Symbol} {rest : List Char}
      (hlongest : Symbol.atFront? (s.spelling ++ rest) = some s)
      (hslash : s = .slash → ∀ c ∈ rest.head?, c ≠ '/' ∧ c ≠ '*') :
      AtFront (ofText (.symbol s) s.spelling) s.spelling rest
  | stray {c : Char} {rest : List Char} (hspace : isSpace c = false) (hword : isWordChar c = false)
      (hdigit : c.isDigit = false) (hquote : c ≠ '\'')
      (hsymbol : Symbol.atFront? (c :: rest) = none) : AtFront (Lexeme.stray c) [c] rest

/-! ## The lexer follows the rules -/

/-- A text that starts no comment and no string is looked at by its first character. -/
theorem scan_plain {c : Char} {rest : List Char} (hquote : c ≠ '\'')
    (hslash : c = '/' → ∀ d ∈ rest.head?, d ≠ '/' ∧ d ≠ '*') :
    scan (c :: rest) =
      if isSpace c then (gap, ((c :: rest).takeWhile isSpace).length)
      else if isWordChar c then
        let word := (c :: rest).takeWhile isWordChar
        (ofText (.ofWord (String.ofList word)) word, word.length)
      else if c.isDigit then
        let number := (c :: rest).takeWhile isNumberChar
        (ofNumber number, number.length)
      else match Symbol.atFront? (c :: rest) with
        | some s => (ofText (.symbol s) s.spelling, s.spelling.length)
        | none => (stray c, 1) := by
  unfold scan
  split
  next heq => cases heq
  next heq =>
    obtain ⟨rfl, rfl⟩ := List.cons.inj heq
    exact absurd rfl (hslash rfl '/' rfl).1
  next heq =>
    obtain ⟨rfl, rfl⟩ := List.cons.inj heq
    exact absurd rfl (hslash rfl '*' rfl).2
  next heq => exact absurd (List.cons.inj heq).1 hquote
  next heq =>
    obtain ⟨rfl, rfl⟩ := List.cons.inj heq
    rfl

theorem isSpace_iff {c : Char} : isSpace c = true ↔ c = ' ' ∨ c = '\t' ∨ c = '\r' ∨ c = '\n' := by
  simp [isSpace, or_assoc]

theorem isWordChar_iff {c : Char} : isWordChar c = true ↔ c.isAlpha = true ∨ c = '_' := by
  simp [isWordChar]

theorem isSpace_of_isWordChar {c : Char} (h : isWordChar c = true) : isSpace c = false := by
  by_contra hspace
  rcases isSpace_iff.mp (Bool.not_eq_false _ ▸ hspace) with rfl | rfl | rfl | rfl <;>
    exact absurd h (by decide)

/-- Digits are neither space nor part of a word. -/
theorem not_isWordChar_of_isDigit {c : Char} (h : c.isDigit = true) :
    isSpace c = false ∧ isWordChar c = false := by
  rw [Char.isDigit_iff_toNat] at h
  simp only [Char.reduceToNat] at h
  constructor
  · by_contra hspace
    rcases isSpace_iff.mp (Bool.not_eq_false _ ▸ hspace) with rfl | rfl | rfl | rfl <;>
      simp at h
  · by_contra hword
    rcases isWordChar_iff.mp (Bool.not_eq_false _ ▸ hword) with halpha | rfl
    · rw [Text.isAlpha_iff] at halpha
      omega
    · simp at h

/-- Symbols start with characters that nothing else starts with, but for the slash of comments. -/
theorem spelling_front (s : Symbol) :
    ∃ c cs, s.spelling = c :: cs ∧ isSpace c = false ∧ isWordChar c = false ∧ c.isDigit = false ∧
      c ≠ '\'' ∧ (c = '/' → s = .slash) := by
  cases s <;> exact ⟨_, _, rfl, by decide, by decide, by decide, by decide, by decide⟩

theorem atFront?_slash (cs : List Char) : Symbol.atFront? ('/' :: cs) = some .slash := by
  simp [Symbol.atFront?, Symbol.all, Symbol.spelling]

theorem exists_rest_of_atFront? {cs : List Char} {s : Symbol} (h : Symbol.atFront? cs = some s) :
    ∃ rest, cs = s.spelling ++ rest := by
  have hfront : s.spelling.isPrefixOf cs := by simpa using List.find?_some h
  obtain ⟨rest, hrest⟩ := List.isPrefixOf_iff_prefix.mp hfront
  exact ⟨rest, hrest.symm⟩

theorem scan_of_atFront {lexeme : Lexeme} {taken rest : List Char} (h : AtFront lexeme taken rest) :
    scan (taken ++ rest) = (lexeme, taken.length) := by
  cases h with
  | blank hne hall hstop =>
      obtain ⟨c, cs, rfl⟩ := List.exists_cons_of_ne_nil hne
      have hc : isSpace c = true := hall c List.mem_cons_self
      rw [List.cons_append, scan_plain (by rintro rfl; cases hc) (by rintro rfl; cases hc),
        if_pos hc,
        ← List.cons_append, takeWhile_append_stop hall hstop]
  | lineComment hbody hstop =>
      have hspan : (_ ++ rest).takeWhile (· ≠ '\n') = _ :=
        takeWhile_append_stop (by simpa using hbody) (by simpa using hstop)
      simp only [List.cons_append, scan]
      rw [hspan, List.length_cons, List.length_cons, Nat.add_comm]
  | @blockComment body _ hbody =>
      have hlength := commentLength?_body hbody rest
      simp only [List.cons_append, List.append_assoc, List.nil_append, scan, hlength]
      simp
      omega
  | openComment hbody =>
      have hnone := commentLength?_eq_none_iff.mpr hbody
      simp only [List.append_nil, scan, hnone]
      rw [List.length_cons, List.length_cons, Nat.add_comm]
  | @string content _ hcontent =>
      have hspan : (content ++ '\'' :: rest).takeWhile (· ≠ '\'') = content :=
        takeWhile_append_stop (by simpa using fun c hc => ne_of_mem_of_not_mem hc hcontent)
          (by simp)
      simp only [List.cons_append, List.append_assoc, List.nil_append, scan, hspan]
      simp [Nat.add_comm]
  | openString hrest =>
      have hspan : (rest ++ []).takeWhile (· ≠ '\'') = rest :=
        takeWhile_append_stop (by simpa using fun c hc => ne_of_mem_of_not_mem hc hrest) nofun
      rw [List.append_nil] at hspan
      simp only [List.cons_append, List.nil_append, scan, hspan]
      simp
  | word hne hall hstop =>
      obtain ⟨c, cs, rfl⟩ := List.exists_cons_of_ne_nil hne
      have hc : isWordChar c = true := hall c List.mem_cons_self
      rw [List.cons_append, scan_plain (by rintro rfl; cases hc) (by rintro rfl; cases hc),
        if_neg (by simp [isSpace_of_isWordChar hc]), if_pos hc, ← List.cons_append,
        takeWhile_append_stop hall hstop]
  | @number c body _ hdigit hall hstop =>
      obtain ⟨hspace, hword⟩ := not_isWordChar_of_isDigit hdigit
      have hnumber : ∀ d ∈ c :: body, isNumberChar d = true :=
        List.forall_mem_cons.mpr ⟨by simp [isNumberChar, hdigit], hall⟩
      rw [List.cons_append, scan_plain (by rintro rfl; cases hdigit) (by rintro rfl; cases hdigit),
        if_neg (by simp [hspace]), if_neg (by simp [hword]), if_pos hdigit, ← List.cons_append,
        takeWhile_append_stop hnumber hstop]
  | @symbol s _ hlongest hslash =>
      obtain ⟨c, cs, hspelling, hspace, hword, hdigit, hquote, hfirst⟩ := spelling_front s
      have hcomment : c = '/' → ∀ d ∈ (cs ++ rest).head?, d ≠ '/' ∧ d ≠ '*' := by
        intro hc
        obtain rfl := hfirst hc
        obtain ⟨rfl, rfl⟩ := List.cons.inj hspelling
        exact hslash rfl
      rw [hspelling] at hlongest
      rw [hspelling, List.cons_append, scan_plain hquote hcomment, if_neg (by simp [hspace]),
        if_neg (by simp [hword]), if_neg (by simp [hdigit]), ← List.cons_append, hlongest]
      simp only [hspelling]
  | @stray c _ hspace hword hdigit hquote hsymbol =>
      -- no slash is stray: it would be a symbol
      have hslash : c ≠ '/' := by
        rintro rfl
        rw [atFront?_slash] at hsymbol
        cases hsymbol
      rw [List.singleton_append, scan_plain hquote fun h => absurd h hslash,
        if_neg (by simp [hspace]), if_neg (by simp [hword]), if_neg (by simp [hdigit]), hsymbol]
      rfl

/-- Wherever a text goes on, one of the rules says what stands in front. -/
theorem exists_atFront {cs : List Char} (hcs : cs ≠ []) :
    ∃ lexeme taken rest, cs = taken ++ rest ∧ AtFront lexeme taken rest := by
  obtain ⟨c, cs, rfl⟩ := List.exists_cons_of_ne_nil hcs
  by_cases hquote : c = '\''
  · subst hquote
    by_cases hclosed : '\'' ∈ cs
    · obtain ⟨content, rest, rfl, hcontent⟩ := List.eq_append_cons_of_mem hclosed
      exact ⟨_, '\'' :: (content ++ ['\'']), rest, by simp, .string hcontent⟩
    · exact ⟨_, ['\''], cs, rfl, .openString hclosed⟩
  by_cases hline : c = '/' ∧ cs.head? = some '/'
  · obtain ⟨rfl, hhead⟩ := hline
    obtain ⟨cs, rfl⟩ := List.head?_eq_some_iff.mp hhead
    obtain ⟨body, rest, rfl, hbody, hrest⟩ := exists_span (· ≠ '\n') cs
    exact ⟨_, '/' :: '/' :: body, rest, rfl,
      .lineComment (by simpa using hbody) (by simpa using hrest)⟩
  by_cases hblock : c = '/' ∧ cs.head? = some '*'
  · obtain ⟨rfl, hhead⟩ := hblock
    obtain ⟨cs, rfl⟩ := List.head?_eq_some_iff.mp hhead
    cases hlength : commentLength? cs with
    | none =>
        exact ⟨_, '/' :: '*' :: cs, [], by simp,
          .openComment (commentLength?_eq_none_iff.mp hlength)⟩
    | some n =>
        obtain ⟨body, rest, rfl, -, hbody⟩ := exists_body_of_commentLength? hlength
        exact ⟨_, '/' :: '*' :: (body ++ ['*', '/']), rest, by simp, .blockComment hbody⟩
  by_cases hspace : isSpace c
  · obtain ⟨taken, rest, rfl, hall, hstop⟩ := exists_span_cons hspace cs
    exact ⟨_, c :: taken, rest, rfl, .blank (List.cons_ne_nil c taken) hall hstop⟩
  by_cases hword : isWordChar c
  · obtain ⟨taken, rest, rfl, hall, hstop⟩ := exists_span_cons hword cs
    exact ⟨_, c :: taken, rest, rfl, .word (List.cons_ne_nil c taken) hall hstop⟩
  by_cases hdigit : c.isDigit
  · obtain ⟨body, rest, rfl, hall, hstop⟩ := exists_span isNumberChar cs
    exact ⟨_, c :: body, rest, rfl, .number hdigit hall hstop⟩
  cases hsymbol : Symbol.atFront? (c :: cs) with
  | none =>
      exact ⟨_, [c], cs, rfl, .stray (by simpa using hspace) (by simpa using hword)
        (by simpa using hdigit) hquote hsymbol⟩
  | some s =>
      obtain ⟨rest, hrest⟩ := exists_rest_of_atFront? hsymbol
      refine ⟨_, s.spelling, rest, hrest, .symbol (hrest ▸ hsymbol) ?_⟩
      rintro rfl d hd
      obtain ⟨rfl, rfl⟩ := List.cons.inj hrest
      have hhead : cs.head? = some d := hd
      constructor
      · rintro rfl
        exact hline ⟨rfl, hhead⟩
      · rintro rfl
        exact hblock ⟨rfl, hhead⟩

/-- The lexer finds what the rules say, for every text. -/
theorem scan_eq_iff {cs : List Char} (hcs : cs ≠ []) {lexeme : Lexeme} {n : Nat} :
    scan cs = (lexeme, n) ↔
      ∃ taken rest, cs = taken ++ rest ∧ taken.length = n ∧ AtFront lexeme taken rest := by
  constructor
  · intro h
    obtain ⟨found, taken, rest, rfl, hfound⟩ := exists_atFront hcs
    rw [scan_of_atFront hfound] at h
    obtain ⟨rfl, rfl⟩ := Prod.mk.inj h
    exact ⟨taken, rest, rfl, rfl, hfound⟩
  · rintro ⟨taken, rest, rfl, rfl, h⟩
    exact scan_of_atFront h

/-! ## What stands behind a lexeme -/

theorem isSpace_of_mem_spelling {s : Symbol} {c : Char} (h : c ∈ s.spelling) :
    isSpace c = false := by
  have hall : ∀ c ∈ s.spelling, isSpace c = false := by cases s <;> simp [Symbol.spelling, isSpace]
  exact hall c h

theorem isPrefixOf_append_of_not_mem {w xs : List Char} {d : Char} (hd : d ∉ w) (b : List Char) :
    w.isPrefixOf (xs ++ d :: b) = w.isPrefixOf xs := by
  induction w generalizing xs with
  | nil => rfl
  | cons c w ih =>
      have hne : c ≠ d := fun h => hd (h ▸ List.mem_cons_self)
      have hw : d ∉ w := fun h => hd (List.mem_cons_of_mem c h)
      cases xs with
      | nil => simp [List.isPrefixOf, hne]
      | cons x xs => simp [List.isPrefixOf, ih hw]

/-- A space belongs to no symbol, so what is behind a space does not decide which symbol it is. -/
theorem atFront?_append_space {d : Char} (hd : isSpace d) (xs b : List Char) :
    Symbol.atFront? (xs ++ d :: b) = Symbol.atFront? xs := by
  unfold Symbol.atFront?
  congr 1
  funext s
  refine isPrefixOf_append_of_not_mem (fun hmem => ?_) b
  rw [isSpace_of_mem_spelling hmem] at hd
  cases hd

theorem isNumberChar_of_isSpace {c : Char} (h : isSpace c) : isNumberChar c = false := by
  rcases isSpace_iff.mp h with rfl | rfl | rfl | rfl <;> decide

theorem isWordChar_of_isSpace {c : Char} (h : isSpace c) : isWordChar c = false := by
  rcases isSpace_iff.mp h with rfl | rfl | rfl | rfl <;> decide

namespace AtFront

variable {lexeme : Lexeme} {taken rest : List Char} {d : Char}

/-- A space in front is a gap, with all the spaces there are. -/
theorem of_space (h : AtFront lexeme taken rest) (hhead : ∃ c ∈ taken.head?, isSpace c) :
    lexeme = gap ∧ (∀ c ∈ taken, isSpace c) ∧ ∀ c ∈ rest.head?, isSpace c = false := by
  obtain ⟨c, hc, hspace⟩ := hhead
  cases h with
  | blank _ hall hstop => exact ⟨rfl, hall, hstop⟩
  | word _ hall =>
      rw [isSpace_of_isWordChar (hall c (List.mem_of_head? hc))] at hspace
      cases hspace
  | number hdigit =>
      cases hc
      rw [(not_isWordChar_of_isDigit hdigit).1] at hspace
      cases hspace
  | symbol =>
      rw [isSpace_of_mem_spelling (List.mem_of_head? hc)] at hspace
      cases hspace
  | stray hstray =>
      cases hc
      rw [hstray] at hspace
      cases hspace
  | _ =>
      cases hc
      cases hspace

/-- Without what is behind a space, the lexeme in front of the space is the same. -/
theorem of_append_space {b : List Char} (h : AtFront lexeme taken (rest ++ d :: b))
    (hsound : lexeme.isFault = false) (hd : isSpace d) : AtFront lexeme taken rest := by
  have hhead : ∀ {P : Char → Prop}, (∀ c ∈ (rest ++ d :: b).head?, P c) →
      ∀ c ∈ rest.head?, P c := by
    intro P hall c hc
    refine hall c ?_
    rw [List.head?_append, hc]
    rfl
  generalize hbehind : rest ++ d :: b = behind at h hhead
  cases h with
  | blank hne hall hstop => exact .blank hne hall (hhead hstop)
  | lineComment hbody hstop => exact .lineComment hbody (hhead hstop)
  | blockComment hbody => exact .blockComment hbody
  | openComment => cases hsound
  | string hcontent => exact .string hcontent
  | openString => cases hsound
  | word hne hall hstop => exact .word hne hall (hhead hstop)
  | number hdigit hall hstop => exact .number hdigit hall (hhead hstop)
  | symbol hlongest hslash =>
      rw [← hbehind, ← List.append_assoc, atFront?_append_space hd] at hlongest
      exact .symbol hlongest fun h => hhead (hslash h)
  | stray hspace hword hdigit hquote hsymbol =>
      rw [← hbehind, ← List.cons_append, atFront?_append_space hd] at hsymbol
      exact .stray hspace hword hdigit hquote hsymbol

/-- A line break behind the text does not change the lexeme in front, unless that is a blank which
goes on. -/
theorem append_feed (h : AtFront lexeme taken rest) (hsound : lexeme.isFault = false)
    (hblank : rest = [] → ∃ c ∈ taken, isSpace c = false) (b : List Char) :
    AtFront lexeme taken (rest ++ '\n' :: b) := by
  have hhead : ∀ {P : Char → Prop}, P '\n' → (∀ c ∈ rest.head?, P c) →
      ∀ c ∈ (rest ++ '\n' :: b).head?, P c := by
    intro P hfeed hall c hc
    cases rest with
    | nil =>
        cases hc
        exact hfeed
    | cons r rest => exact hall c hc
  have hspace : isSpace '\n' := rfl
  cases h with
  | blank hne hall hstop =>
      cases rest with
      | nil =>
          obtain ⟨c, hc, hnot⟩ := hblank rfl
          rw [hall c hc] at hnot
          cases hnot
      | cons r rest => exact .blank hne hall hstop
  | lineComment hbody hstop => exact .lineComment hbody (hhead rfl hstop)
  | blockComment hbody => exact .blockComment hbody
  | openComment => cases hsound
  | string hcontent => exact .string hcontent
  | openString => cases hsound
  | word hne hall hstop => exact .word hne hall (hhead (isWordChar_of_isSpace hspace) hstop)
  | number hdigit hall hstop =>
      exact .number hdigit hall (hhead (isNumberChar_of_isSpace hspace) hstop)
  | symbol hlongest hslash =>
      refine .symbol ?_ fun h => hhead (by decide) (hslash h)
      rw [← List.append_assoc, atFront?_append_space hspace, hlongest]
  | stray hstray hword hdigit hquote hsymbol =>
      refine .stray hstray hword hdigit hquote ?_
      rw [← List.cons_append, atFront?_append_space hspace, hsymbol]

end AtFront

end TickMachine.Lexeme
