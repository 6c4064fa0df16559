import TickMachine.Proofs.Source.Faults

/-! # Segments cover the source

Nothing of a source is left out and nothing is read twice: the segments put together are its text,
each of them is skipped or makes one token, and what it makes has the place that is counted in the
text in front of it.
-/

namespace TickMachine

open Lexeme (AtFront IsCommentBody isSpace isWordChar ofText ofNumber)

/-! ## Places -/

/-- The place behind a text: the number of its line breaks, and of the characters behind the last
one, each counted from 1. -/
def Position.behind (cs : List Char) : Position :=
  ⟨UInt32.ofNat (1 + cs.count '\n'), UInt32.ofNat (1 + (cs.reverse.takeWhile (· ≠ '\n')).length)⟩

theorem Position.behind_concat (cs : List Char) (c : Char) :
    behind (cs ++ [c]) = (behind cs).next c := by
  unfold behind next
  rw [List.count_append, List.reverse_append, List.reverse_singleton, List.singleton_append]
  by_cases hc : c = '\n'
  · subst hc
    rw [if_pos rfl, List.count_singleton_self, ← Nat.add_assoc, UInt32.ofNat_add]
    rfl
  · have hnone : [c].count '\n' = 0 := List.count_eq_zero.mpr (by simpa using Ne.symm hc)
    rw [if_neg hc, List.takeWhile_cons_of_pos (by simpa using hc), List.length_cons, hnone,
      ← Nat.add_assoc 1 _ 1, UInt32.ofNat_add _ 1]
    rfl

/-- Going on behind a text leads to the place behind both texts. -/
theorem Position.behind_after (before cs : List Char) :
    (behind before).after cs = behind (before ++ cs) := by
  induction cs generalizing before with
  | nil => rw [after_nil, List.append_nil]
  | cons c cs ih => rw [after_cons, ← behind_concat, ih, List.append_assoc, List.singleton_append]

theorem Position.start_after (cs : List Char) : start.after cs = behind cs :=
  behind_after [] cs

/-! ## What is made of a text -/

/-- A text without a token: spaces, a comment, or one character with which no token starts. -/
inductive Skipped : List Char → Prop
  | spaces {cs : List Char} (ne : cs ≠ []) (all : ∀ c ∈ cs, isSpace c) : Skipped cs
  | lineComment {body : List Char} (single : '\n' ∉ body) : Skipped ('/' :: '/' :: body)
  | blockComment {body : List Char} (closed : IsCommentBody body) :
      Skipped ('/' :: '*' :: (body ++ ['*', '/']))
  | unexpected {c : Char} (space : isSpace c = false) (word : isWordChar c = false)
      (digit : c.isDigit = false) (quote : c ≠ '\'')
      (symbol : ∀ s : Symbol, s.spelling.head? ≠ some c) : Skipped [c]

/-- The text of the token is all of the given text; that of a string is without the quotes. -/
def Token.Shows (t : Token) (cs : List Char) : Prop :=
  match t.kind with
  | .str => cs = '\'' :: (t.text.text.toList ++ ['\''])
  | _ => cs = t.text.text.toList

/-- The token and the error that are made of a text which stands behind the text `before`. -/
inductive Accounts (before cs : List Char) : Option Token → Option LexError → Prop
  | skipped (h : Skipped cs) : Accounts before cs none none
  | token {t : Token} (kind : t.kind ≠ .error) (shows : t.Shows cs)
      (place : t.position = .behind before) : Accounts before cs (some t) none
  | fault {t : Token} {e : LexError} (kind : t.kind = .error) (part : t.text.text.toList <+: cs)
      (place : t.position = .behind before) (errorPlace : e.position = .behind before) :
      Accounts before cs (some t) (some e)

namespace Lexeme

theorem exists_text_of_ofText {kind : TokenKind} {cs : List Char}
    (h : (ofText kind cs).isFault = false) :
    ∃ text, ofText kind cs = token kind text ∧ text.text.toList = cs := by
  unfold ofText at h ⊢
  split at h
  next text htext =>
    refine ⟨text, rfl, ?_⟩
    rw [BoundedText.ofString_eq_ok_iff.mp htext, String.toList_ofList]
  next => cases h

theorem exists_kind_of_ofNumber {cs : List Char} (h : (ofNumber cs).isFault = false) :
    ∃ kind, (kind = .int ∨ kind = .dec) ∧ ofNumber cs = ofText kind cs := by
  unfold ofNumber at h ⊢
  split at h
  next => exact ⟨.int, .inl rfl, rfl⟩
  next => exact ⟨.dec, .inr rfl, rfl⟩
  next => cases h

theorem ofWord_ne_str (word : String) : TokenKind.ofWord word ≠ .str := by
  unfold TokenKind.ofWord
  split
  next => exact nofun
  next =>
    split
    · exact nofun
    · exact nofun

/-- Where a symbol starts there is a symbol of one character, so where none is found none starts. -/
theorem head?_spelling_ne {c : Char} {rest : List Char} (h : Symbol.atFront? (c :: rest) = none)
    (s : Symbol) : s.spelling.head? ≠ some c := by
  have hsingle : ∀ s ∈ Symbol.all, ∃ t ∈ Symbol.all, t.spelling = s.spelling.take 1 := by decide
  have hnone : ∀ s ∈ Symbol.all, ¬ s.spelling <+: c :: rest := by simpa [Symbol.atFront?] using h
  intro hs
  obtain ⟨cs, hcs⟩ := List.head?_eq_some_iff.mp hs
  obtain ⟨t, ht, hspelling⟩ := hsingle s s.mem_all
  refine hnone t ht ?_
  rw [hspelling, hcs]
  exact ⟨rest, rfl⟩

namespace AtFront

variable {lexeme : Lexeme} {taken rest before : List Char} {file : String} {p : Position}

/-- A text that is taken as it is makes one token. -/
theorem accounts_ofText {kind : TokenKind} {cs : List Char}
    (hsound : (ofText kind cs).isFault = false) (hkind : kind ≠ .error)
    (hshows : ∀ t : Token, t.kind = kind → t.text.text.toList = cs → t.Shows taken)
    (hp : p = .behind before) :
    Accounts before taken (Segment.token? file ⟨ofText kind cs, taken, p⟩)
      (Segment.error? file ⟨ofText kind cs, taken, p⟩) := by
  obtain ⟨text, htext, hlist⟩ := exists_text_of_ofText hsound
  rw [htext]
  exact .token (t := ⟨kind, text, file, p⟩) hkind (hshows _ rfl hlist) hp

theorem shows_of_ne {t : Token} {kind : TokenKind} {cs : List Char} (hkind : t.kind = kind)
    (hne : kind ≠ .str) (hcs : t.text.text.toList = cs) : t.Shows cs := by
  unfold Token.Shows
  split
  next hstr => exact absurd (hkind.symm.trans hstr) hne
  next => exact hcs.symm

/-- What is no fault is skipped or makes the token it shows. -/
theorem accounts (h : AtFront lexeme taken rest) (hsound : lexeme.isFault = false)
    (hp : p = .behind before) :
    Accounts before taken (Segment.token? file ⟨lexeme, taken, p⟩)
      (Segment.error? file ⟨lexeme, taken, p⟩) := by
  cases h with
  | blank hne hall => exact .skipped (.spaces hne hall)
  | lineComment hbody => exact .skipped (.lineComment fun hfeed => hbody _ hfeed rfl)
  | blockComment hbody => exact .skipped (.blockComment hbody)
  | openComment => cases hsound
  | string =>
      refine accounts_ofText hsound nofun (fun t hkind hcs => ?_) hp
      unfold Token.Shows
      rw [hkind, hcs]
  | openString => cases hsound
  | word =>
      exact accounts_ofText hsound (isWritten_ofWord _).2
        (fun t hkind hcs => shows_of_ne hkind (ofWord_ne_str _) hcs) hp
  | number =>
      obtain ⟨kind, hkind, hnumber⟩ := exists_kind_of_ofNumber hsound
      rw [hnumber] at hsound ⊢
      rcases hkind with rfl | rfl
      · exact accounts_ofText hsound nofun (fun t hkind hcs => shows_of_ne hkind nofun hcs) hp
      · exact accounts_ofText hsound nofun (fun t hkind hcs => shows_of_ne hkind nofun hcs) hp
  | symbol =>
      exact accounts_ofText hsound nofun (fun t hkind hcs => shows_of_ne hkind nofun hcs) hp
  | stray hspace hword hdigit hquote hsymbol =>
      exact .skipped (.unexpected hspace hword hdigit hquote (head?_spelling_ne hsymbol))

end AtFront

end Lexeme

namespace Segment

/-- A first segment is skipped, or makes a token, or a token and an error. -/
theorem Leads.accounts {s : Segment} {p : Position} {cs rest before : List Char}
    (h : Leads s p cs rest) (hp : p = .behind before) (file : String) :
    Accounts before s.text (s.token? file) (s.error? file) := by
  obtain ⟨taken, behind, -, hfront, htaken⟩ := h.lexeme
  have hposition := h.position.trans hp
  cases hfault : s.lexeme.isFault with
  | false =>
      obtain rfl := htaken hfault
      exact hfront.accounts hfault hposition
  | true =>
      obtain ⟨lexeme, text, position⟩ := s
      cases lexeme with
      | fault cause =>
          have hpart : (String.ofList (Text.takeBytes maxTokenSize text)).toList <+: text := by
            rw [String.toList_ofList]
            exact Text.takeBytes_prefix maxTokenSize text
          exact .fault rfl hpart hposition hposition
      | gap => cases hfault
      | stray c => cases hfault
      | token kind text => cases hfault

/-- Each segment accounts for its text at the place behind the segments in front of it. -/
theorem accounts_of_cut (file : String) (before cs : List Char) {front back : List Segment}
    {s : Segment} (h : cut .recover (.behind before) cs = front ++ s :: back) :
    s.text ≠ [] ∧
      Accounts (before ++ front.flatMap text) s.text (s.token? file) (s.error? file) := by
  generalize hp : Position.behind before = p at h
  induction p, cs using cut_induction generalizing before front with
  | nil p =>
      rw [cut] at h
      exact absurd h.symm (List.append_ne_nil_of_right_ne_nil front (List.cons_ne_nil s back))
  | leads p cs first rest hleads ih =>
      rw [hleads.cut, if_neg (by simp)] at h
      cases front with
      | nil =>
          obtain ⟨rfl, -⟩ := List.cons.inj h
          rw [List.flatMap_nil, List.append_nil]
          exact ⟨hleads.ne_nil, hleads.accounts hp.symm file⟩
      | cons f front =>
          obtain ⟨rfl, hrest⟩ := List.cons.inj h
          rw [List.flatMap_cons, ← List.append_assoc]
          exact ih (before ++ first.text) (by rw [← Position.behind_after, hp]) hrest

end Segment

/-- Where an answer has tokens, all of the text was cut. -/
theorem segments_eq_of_ofSource {policy : ErrorPolicy} {source file : String} {lexed : Lexed}
    (h : Lexed.ofSource policy source file = .ok lexed) :
    segments policy source = Segment.cut .recover .start (readable source) := by
  cases policy with
  | recover => rfl
  | abort =>
      rw [Lexed.segments_abort]
      have hnone : (Segment.cut .recover .start (readable source)).filterMap
          (Segment.error? file) = [] :=
        List.filterMap_eq_nil_iff.mpr fun s hs =>
          Segment.error?_of_faultless (Lexed.isFault_of_mem_segments h hs)
      exact Segment.throughFault_of_no_error hnone

/-- Every token of a source is accounted for. Going on after faults there are always tokens; and
by both policies, where there are tokens, the text is cut into segments that are not empty, each as
long as the lexeme in front says, and each of which is skipped or makes one token. What a segment
makes has the place counted in the text in front of it, and the end of the source that counted in
the whole text. -/
theorem Lexed.ofSource_segments (source file : String) :
    (∃ lexed, ofSource .recover source file = .ok lexed) ∧
      ∀ policy lexed, ofSource policy source file = .ok lexed →
        (segments policy source).flatMap Segment.text = readable source ∧
        lexed.tokens = (segments policy source).filterMap (Segment.token? file) ++
          [.eof file (.behind (readable source))] ∧
        lexed.errors = (segments policy source).filterMap (Segment.error? file) ∧
        ∀ front s back, segments policy source = front ++ s :: back → s.text ≠ [] ∧
          Lexeme.take (s.text ++ back.flatMap Segment.text) = (s.lexeme, s.text.length) ∧
          Accounts (front.flatMap Segment.text) s.text (s.token? file) (s.error? file) := by
  refine ⟨⟨_, rfl⟩, fun policy lexed h => ?_⟩
  have hsegments := segments_eq_of_ofSource h
  obtain rfl := eq_of_ofSource h
  refine ⟨?_, ?_, rfl, fun front s back hsplit => ?_⟩
  · rw [hsegments]
    exact Segment.flatMap_text_cut .start (readable source)
  · rw [← Position.start_after]
  · rw [hsegments] at hsplit
    obtain ⟨hne, haccounts⟩ := Segment.accounts_of_cut file [] _ hsplit
    obtain ⟨q, hleads⟩ := Segment.leads_of_cut hsplit
    exact ⟨hne, hleads.take, haccounts⟩

/-- A string over two lines, a comment, a number at fault up to the next blank, and a text that is
not read because a NUL is in front of it. -/
theorem Lexed.ofSource_segments_mixed :
    let source := "a 'x\ny';\t// z\n1.2.3é ? b\x00c"
    ∃ lexed, ofSource .recover source "f" = .ok lexed ∧
      (segments .recover source).map (·.text.length) = [1, 1, 5, 1, 1, 4, 1, 6, 1, 1, 1, 1] ∧
      lexed.tokens.map Token.position =
        [⟨1, 1⟩, ⟨1, 3⟩, ⟨2, 3⟩, ⟨3, 1⟩, ⟨3, 10⟩, ⟨3, 11⟩] ∧
      lexed.errors = [⟨.malformedNumber, "f", ⟨3, 1⟩⟩] ∧
      ∀ front s back, segments .recover source = front ++ s :: back → s.text ≠ [] ∧
        Lexeme.take (s.text ++ back.flatMap Segment.text) = (s.lexeme, s.text.length) ∧
        Accounts (front.flatMap Segment.text) s.text (s.token? "f") (s.error? "f") := by
  intro source
  obtain ⟨⟨lexed, hlexed⟩, hpolicies⟩ := ofSource_segments source "f"
  obtain ⟨-, htokens, herrors, haccounts⟩ := hpolicies .recover lexed hlexed
  refine ⟨lexed, hlexed, by decide +kernel, ?_, ?_, haccounts⟩
  · rw [htokens]
    decide +kernel
  · rw [herrors]
    decide +kernel

end TickMachine
