import TickMachine.Proofs.Source.Faults
import TickMachine.Proofs.Source.Moving

/-! # Lexing line by line

Where the line breaks of a text stand between its lexemes, the text may be lexed line by line: its
tokens are those of its lines, and lines that are put together again have the same tokens as before,
up to the place where they stand.
-/

namespace TickMachine

open Lexeme (AtFront isSpace)

/-- The text has the tokens and no fault, and its line breaks stand between lexemes. -/
inductive Lexes (file : String) : Position → List Char → List Token → Prop
  | nil {p : Position} : Lexes file p [] []
  | cons {p : Position} {lexeme : Lexeme} {taken rest : List Char} {tokens : List Token}
      (front : AtFront lexeme taken rest) (sound : lexeme.isFault = false)
      (breaks : '\n' ∈ taken → ∀ c ∈ taken, isSpace c)
      (others : Lexes file (p.after taken) rest tokens) :
      Lexes file p (taken ++ rest) ((Segment.token? file ⟨lexeme, taken, p⟩).toList ++ tokens)

/-- Whether the segment is a string literal or a block comment. -/
def Segment.isDelimited (s : Segment) : Bool :=
  match s.lexeme with
  | .token .str _ => true
  | .gap => ['/', '*'].isPrefixOf s.text
  | _ => false

namespace Lexeme.AtFront

variable {lexeme : Lexeme} {taken rest : List Char}

/-- Only spaces, strings and block comments go over a line break. -/
theorem isSpace_of_feed_mem (h : AtFront lexeme taken rest) (hsound : lexeme.isFault = false)
    {p : Position} (hdelimited : ¬ (Segment.mk lexeme taken p).isDelimited) (hfeed : '\n' ∈ taken) :
    ∀ c ∈ taken, isSpace c := by
  cases h with
  | blank _ hall => exact hall
  | @lineComment body _ hbody =>
      have hmem : '\n' ∈ body := by simpa using hfeed
      exact absurd rfl (hbody _ hmem)
  | blockComment => exact absurd rfl hdelimited
  | openComment => cases hsound
  | @string content =>
      unfold Lexeme.ofText at hdelimited hsound
      split at hsound
      next text htext =>
        rw [htext] at hdelimited
        exact absurd rfl hdelimited
      next => cases hsound
  | openString => cases hsound
  | word _ hall => exact absurd (hall _ hfeed) (by decide)
  | number hdigit hall =>
      rcases List.mem_cons.mp hfeed with rfl | hmem
      · cases hdigit
      · exact absurd (hall _ hmem) (by decide)
  | symbol => exact absurd (isSpace_of_mem_spelling hfeed) (by decide)
  | stray hstray =>
      obtain rfl := List.mem_singleton.mp hfeed
      cases hstray

/-- A return at the end of a text belongs to a blank or to a line comment. -/
theorem of_return {cs : List Char} (h : AtFront lexeme (cs ++ ['\r']) [])
    (hsound : lexeme.isFault = false) : lexeme = .gap ∧ (cs = [] ∨ AtFront .gap cs []) := by
  have hmem : '\r' ∈ cs ++ ['\r'] := List.mem_append_right cs (List.mem_singleton.mpr rfl)
  generalize htaken : cs ++ ['\r'] = taken at h hmem
  -- two texts that are equal end alike
  have hends : ∀ (front : List Char) {c : Char}, cs ++ ['\r'] = front ++ [c] →
      cs = front ∧ '\r' = c := fun _ _ heq =>
    (List.append_inj' heq rfl).imp_right fun h => (List.cons.inj h).1
  cases h with
  | blank _ hall =>
      subst htaken
      refine ⟨rfl, (Classical.em (cs = [])).imp_right fun hne => ?_⟩
      exact .blank hne (List.forall_mem_append.mp hall).1 (by simp)
  | @lineComment body _ hbody =>
      rcases List.eq_nil_or_concat' body with rfl | ⟨more, c, rfl⟩
      · cases (hends ['/'] htaken).2
      · obtain ⟨rfl, rfl⟩ := hends ('/' :: '/' :: more) htaken
        exact ⟨rfl, .inr (.lineComment (List.forall_mem_append.mp hbody).1 (by simp))⟩
  | @blockComment body _ =>
      cases (hends ('/' :: '*' :: (body ++ ['*'])) (by simpa using htaken)).2
  | openComment => cases hsound
  | @string content => cases (hends ('\'' :: content) htaken).2
  | openString => cases hsound
  | word _ hall => exact absurd (hall _ hmem) (by decide)
  | number hdigit hall =>
      rcases List.mem_cons.mp hmem with rfl | hmem
      · cases hdigit
      · exact absurd (hall _ hmem) (by decide)
  | symbol => exact absurd (isSpace_of_mem_spelling hmem) (by decide)
  | stray hstray =>
      obtain rfl := List.mem_singleton.mp hmem
      cases hstray

end Lexeme.AtFront

namespace Lexes

variable {file : String} {p : Position} {cs xs a b : List Char} {tokens us vs : List Token}

theorem tokens_nil (h : Lexes file p [] tokens) : tokens = [] := by
  generalize hcs : [] = cs at h
  cases h with
  | nil => rfl
  | cons front => exact absurd (List.append_eq_nil_iff.mp hcs.symm).1 front.ne_nil

/-- Spaces in front of a text make no tokens. -/
theorem spaces (hxs : ∀ c ∈ xs, isSpace c) (h : Lexes file (p.after xs) cs tokens) :
    Lexes file p (xs ++ cs) tokens := by
  by_cases hne : xs = []
  · subst hne
    exact h
  generalize hq : p.after xs = q at h
  cases h with
  | nil => exact .cons (.blank hne hxs (by simp)) rfl (fun _ => hxs) .nil
  | @cons _ lexeme taken rest tokens front sound breaks others =>
      subst hq
      by_cases hspace : ∃ c ∈ taken.head?, isSpace c
      · -- the spaces go on
        obtain ⟨rfl, hall, hstop⟩ := front.of_space hspace
        have hspaces : ∀ c ∈ xs ++ taken, isSpace c := List.forall_mem_append.mpr ⟨hxs, hall⟩
        rw [← Position.after_append] at others
        rw [← List.append_assoc]
        exact .cons (.blank (List.append_ne_nil_of_left_ne_nil hne taken) hspaces hstop) rfl
          (fun _ => hspaces) others
      · have hstop : ∀ c ∈ (taken ++ rest).head?, isSpace c = false := by
          intro c hc
          rw [List.head?_append_of_ne_nil taken front.ne_nil] at hc
          exact Bool.eq_false_iff.mpr fun h => hspace ⟨c, hc, h⟩
        exact .cons (.blank hne hxs hstop) rfl (fun _ => hxs) (.cons front sound breaks others)

/-- A text is lexed up to a line break and behind it. -/
theorem split_feed (h : Lexes file p (a ++ '\n' :: b) tokens) :
    ∃ us vs, tokens = us ++ vs ∧ Lexes file p a us ∧ Lexes file (p.after (a ++ ['\n'])) b vs := by
  have hspace : isSpace '\n' := rfl
  generalize hcs : a ++ '\n' :: b = cs at h
  induction h generalizing a with
  | nil => exact absurd hcs (by simp)
  | @cons p lexeme taken rest tokens front sound breaks others ih =>
      obtain ⟨more, rfl, rfl⟩ | ⟨past, rfl, rfl⟩ :
          (∃ more, a = taken ++ more ∧ more ++ '\n' :: b = rest) ∨
          ∃ past, taken = a ++ '\n' :: past ∧ b = past ++ rest := by
        rcases List.append_eq_append_iff.mp hcs with ⟨c', rfl, h⟩ | ⟨more, rfl, rfl⟩
        · cases c' with
          | nil => exact .inl ⟨[], by simp, h⟩
          | cons d c' =>
              obtain ⟨rfl, rfl⟩ := List.cons.inj h
              exact .inr ⟨c', rfl, rfl⟩
        · exact .inl ⟨more, rfl, rfl⟩
      · obtain ⟨us, vs, rfl, hfirst, hsecond⟩ := ih rfl
        rw [← Position.after_append, ← List.append_assoc] at hsecond
        exact ⟨_, vs, (List.append_assoc ..).symm,
          .cons (front.of_append_space sound hspace) sound breaks hfirst, hsecond⟩
      · -- the lexeme goes over the line break, so there are only spaces in it
        have hspaces : ∀ c ∈ a ++ '\n' :: past, isSpace c := breaks (by simp)
        obtain ⟨hfirst, hpast⟩ := List.forall_mem_append.mp hspaces
        obtain rfl := front.eq_gap hspaces
        have hblank : Lexes file p (a ++ []) [] := spaces hfirst .nil
        rw [List.append_nil] at hblank
        refine ⟨[], tokens, rfl, hblank, spaces (List.forall_mem_cons.mp hpast).2 ?_⟩
        rw [← Position.after_append, List.append_assoc]
        exact others

/-- A return at the end of a text makes no token. -/
theorem of_append_return (h : Lexes file p (a ++ ['\r']) tokens) : Lexes file p a tokens := by
  have hspace : isSpace '\r' := rfl
  generalize hcs : a ++ ['\r'] = cs at h
  induction h generalizing a with
  | nil => exact absurd hcs (by simp)
  | @cons p lexeme taken rest tokens front sound breaks others ih =>
      obtain ⟨more, rfl, rfl⟩ | ⟨rfl, rfl⟩ : (∃ more, a = taken ++ more ∧ more ++ ['\r'] = rest) ∨
          taken = a ++ ['\r'] ∧ rest = [] := by
        rcases List.append_eq_append_iff.mp hcs with ⟨c', rfl, h⟩ | ⟨more, rfl, rfl⟩
        · rcases List.append_eq_singleton_iff.mp h.symm with ⟨rfl, rfl⟩ | ⟨rfl, rfl⟩
          · exact .inl ⟨[], by simp, rfl⟩
          · exact .inr ⟨rfl, rfl⟩
        · exact .inl ⟨more, rfl, rfl⟩
      · exact .cons (front.of_append_space sound hspace) sound breaks (ih rfl)
      · obtain rfl := others.tokens_nil
        obtain ⟨rfl, rfl | hfront⟩ := front.of_return sound
        · exact .nil
        · rw [← List.append_nil a]
          exact .cons hfront rfl
            (fun hfeed c hc =>
              breaks (List.mem_append_left _ hfeed) c (List.mem_append_left _ hc))
            .nil

/-- Two texts with a line break between them have the tokens of the one and then of the other. -/
theorem append_feed (ha : Lexes file p a us) (hb : Lexes file (p.after (a ++ ['\n'])) b vs) :
    Lexes file p (a ++ '\n' :: b) (us ++ vs) := by
  have hspace : ∀ c ∈ ['\n'], isSpace c := List.forall_mem_singleton.mpr rfl
  induction ha with
  | @nil p =>
      show Lexes file p (['\n'] ++ b) vs
      exact spaces hspace hb
  | @cons p lexeme taken rest tokens front sound breaks others ih =>
      by_cases hblank : rest = [] ∧ ∀ c ∈ taken, isSpace c
      · -- the blank at the end goes on over the line break
        obtain ⟨rfl, hall⟩ := hblank
        obtain rfl := others.tokens_nil
        obtain rfl := front.eq_gap hall
        have hspaces : Lexes file p ((taken ++ ['\n']) ++ b) vs :=
          spaces (List.forall_mem_append.mpr ⟨hall, hspace⟩) (by simpa using hb)
        simpa [Segment.token?] using hspaces
      · have hstops : rest = [] → ∃ c ∈ taken, isSpace c = false := by
          intro hrest
          simpa [hrest] using hblank
        rw [List.append_assoc, List.append_assoc]
        refine .cons (front.append_feed sound hstops b) sound breaks (ih ?_)
        rwa [← Position.after_append, ← List.append_assoc]

theorem token?_moved (file' : String) (lines : UInt32) (lexeme : Lexeme) (taken : List Char) :
    Segment.token? file' ⟨lexeme, taken, p.down lines⟩ =
      (Segment.token? file ⟨lexeme, taken, p⟩).map (Token.moved file' lines) := by
  cases lexeme <;> rfl

/-- Some lines further down a text has the same tokens there. -/
theorem moved (h : Lexes file p cs tokens) (file' : String) (lines : UInt32) :
    Lexes file' (p.down lines) cs (tokens.map (Token.moved file' lines)) := by
  induction h with
  | nil => exact .nil
  | cons front sound breaks others ih =>
      rw [← Position.after_down] at ih
      rw [List.map_append, ← Option.toList_map, ← token?_moved]
      exact .cons front sound breaks ih

/-- The tokens are of kinds that are written, and know their file. -/
theorem isWritten (h : Lexes file p cs tokens) :
    ∀ t ∈ tokens, t.kind.IsWritten ∧ t.file = file := by
  induction h with
  | nil => exact nofun
  | @cons p lexeme taken rest tokens front sound breaks others ih =>
      refine List.forall_mem_append.mpr ⟨fun t ht => ?_, ih⟩
      cases lexeme with
      | gap => cases ht
      | stray c => cases ht
      | token kind text =>
          obtain rfl := List.mem_singleton.mp ht
          exact ⟨front.isWritten rfl, rfl⟩
      | fault cause => cases sound

/-! ## Segments -/

theorem filterMap_cons_toList {s : Segment} {ss : List Segment} :
    (s :: ss).filterMap (Segment.token? file) =
      (s.token? file).toList ++ ss.filterMap (Segment.token? file) := by
  rw [List.filterMap_cons]
  cases s.token? file <;> rfl

/-- Segments without a fault of which no string and no block comment goes over a line break. -/
theorem of_cut (h : ∀ s ∈ Segment.cut .recover p cs, s.lexeme.isFault = false ∧
    (s.isDelimited → '\n' ∉ s.text)) :
    Lexes file p cs ((Segment.cut .recover p cs).filterMap (Segment.token? file)) := by
  induction p, cs using Segment.cut_induction with
  | nil p =>
      rw [Segment.cut]
      exact .nil
  | leads p cs s rest hleads ih =>
      rw [hleads.cut, if_neg (by simp)] at h ⊢
      obtain ⟨⟨hsound, hplain⟩, hothers⟩ := List.forall_mem_cons.mp h
      have hfront : AtFront s.lexeme s.text rest := hleads.atFront hsound
      obtain rfl : s.position = p := hleads.position
      rw [hleads.text, filterMap_cons_toList]
      refine .cons hfront hsound (fun hfeed => ?_) (ih hothers)
      exact hfront.isSpace_of_feed_mem hsound (fun hdelimited => hplain hdelimited hfeed) hfeed

/-- By both policies the lexer finds the tokens, and no error. -/
theorem cut (h : Lexes file p cs tokens) (policy : ErrorPolicy) :
    (Segment.cut policy p cs).filterMap (Segment.token? file) = tokens ∧
      (Segment.cut policy p cs).filterMap (Segment.error? file) = [] := by
  induction h with
  | nil => simp [Segment.cut]
  | cons front sound breaks others ih =>
      rw [Segment.cut_of_atFront policy _ front sound, filterMap_cons_toList,
        List.filterMap_cons_none (Segment.error?_of_faultless sound)]
      exact ⟨congrArg _ ih.1, ih.2⟩

theorem ofSource {source : String} (h : Lexes file .start (readable source) tokens)
    (policy : ErrorPolicy) : Lexed.ofSource policy source file =
      .ok ⟨tokens ++ [.eof file (Position.start.after (readable source))], []⟩ := by
  obtain ⟨htokens, herrors⟩ := h.cut policy
  unfold Lexed.ofSource segments
  dsimp only
  rw [htokens, herrors]
  cases policy <;> rfl

end Lexes

/-! ## Lines -/

/-- A source without a NUL is read to its end. -/
theorem readable_eq_toList {source : String} (h : '\x00' ∉ source.toList) :
    readable source = source.toList := by
  have hspan : (source.toList ++ []).takeWhile (· ≠ '\x00') = source.toList :=
    Text.takeWhile_append_stop (fun c hc => decide_eq_true (ne_of_mem_of_not_mem hc h)) (by simp)
  rwa [List.append_nil] at hspan

theorem Position.after_line {line : List Char} (h : '\n' ∉ line) (n column : UInt32) :
    (⟨n, column⟩ : Position).after (line ++ ['\n']) = ⟨n + 1, 1⟩ := by
  induction line generalizing column with
  | nil => rfl
  | cons c line ih =>
      have hc : c ≠ '\n' := fun hc => h (hc ▸ List.mem_cons_self)
      have hnext : (⟨n, column⟩ : Position).next c = ⟨n, column + 1⟩ := by rw [next, if_neg hc]
      rw [List.cons_append, after_cons, hnext]
      exact ih (fun hmem => h (List.mem_cons_of_mem c hmem)) (column + 1)

/-- Each of the lines is lexed for itself, and together they have the tokens. The first of the lines
has the given number. -/
inductive LexesLines (file : String) : UInt32 → List (List Char) → List Token → Prop
  | nil {n : UInt32} : LexesLines file n [] []
  | cons {n : UInt32} {line : List Char} {lines : List (List Char)} {us vs : List Token}
      (single : '\n' ∉ line) (readable : '\x00' ∉ line) (first : Lexes file ⟨n, 1⟩ line us)
      (others : LexesLines file (n + 1) lines vs) : LexesLines file n (line :: lines) (us ++ vs)

namespace LexesLines

variable {file : String} {n : UInt32} {lines ms : List (List Char)} {tokens : List Token}

/-- A text is lexed as its lines are. -/
theorem of_lexes {cs : List Char} (h : Lexes file ⟨n, 1⟩ cs tokens) (hreadable : '\x00' ∉ cs) :
    LexesLines file n (Text.textLines cs) tokens := by
  induction hlength : cs.length using Nat.strongRecOn generalizing cs n tokens with
  | ind length ih =>
  by_cases hfeed : '\n' ∈ cs
  · obtain ⟨front, rest, rfl, hfront⟩ := List.eq_append_cons_of_mem hfeed
    obtain ⟨line, hline, hlines⟩ : ∃ line, Text.IsLineOf '\r' line front ∧
        Text.lines '\n' '\r' (front ++ '\n' :: rest) = line :: Text.lines '\n' '\r' rest :=
      Text.exists_lines_feed hfront rest
    obtain ⟨us, vs, rfl, hus, hvs⟩ := h.split_feed
    rw [Position.after_line hfront] at hvs
    have hrest : '\x00' ∉ rest := fun hmem =>
      hreadable (List.mem_append_right _ (List.mem_cons_of_mem _ hmem))
    have hothers := ih rest.length (by simp [← hlength]; omega) hvs hrest rfl
    have hsub : ∀ c ∈ line, c ∈ front := by
      rcases hline with rfl | rfl
      · exact fun c hc => hc
      · exact fun c hc => List.mem_append_left _ hc
    have hfirst : Lexes file ⟨n, 1⟩ line us := by
      rcases hline with rfl | rfl
      · exact hus
      · exact hus.of_append_return
    rw [Text.textLines, hlines]
    exact .cons (fun hmem => hfront (hsub _ hmem))
      (fun hmem => hreadable (List.mem_append_left _ (hsub _ hmem))) hfirst hothers
  · by_cases hnil : cs = []
    · subst hnil
      rw [h.tokens_nil]
      exact .nil
    · rw [Text.textLines, Text.lines_of_not_mem hfeed hnil, ← List.append_nil tokens]
      exact .cons hfeed hreadable h .nil

/-- Lines with line breaks behind them are a text that is lexed as they are. -/
theorem joined (h : LexesLines file n lines tokens) :
    Lexes file ⟨n, 1⟩ (lines.flatMap (· ++ ['\n'])) tokens := by
  induction h with
  | nil => exact .nil
  | cons single _ first others ih =>
      rw [List.flatMap_cons, List.append_assoc, List.singleton_append]
      refine first.append_feed ?_
      rwa [Position.after_line single]

theorem split (h : LexesLines file n (lines ++ ms) tokens) :
    ∃ us vs, tokens = us ++ vs ∧ LexesLines file n lines us ∧
      LexesLines file (n + UInt32.ofNat lines.length) ms vs := by
  induction lines generalizing n tokens with
  | nil => exact ⟨[], tokens, rfl, .nil, by simpa using h⟩
  | cons line lines ih =>
      cases h with
      | @cons _ _ _ us _ single readable first others =>
          obtain ⟨vs, ws, rfl, hlines, hms⟩ := ih others
          refine ⟨us ++ vs, ws, (List.append_assoc ..).symm, .cons single readable first hlines, ?_⟩
          have hcount : n + UInt32.ofNat (line :: lines).length =
              n + 1 + UInt32.ofNat lines.length := by
            rw [List.length_cons, UInt32.ofNat_add, UInt32.add_assoc, UInt32.add_comm 1]
            rfl
          rwa [hcount]

theorem moved (h : LexesLines file n lines tokens) (file' : String) (k : UInt32) :
    LexesLines file' (n + k) lines (tokens.map (Token.moved file' k)) := by
  induction h with
  | nil => exact .nil
  | @cons n _ _ _ _ single readable first others ih =>
      have hnumber : n + 1 + k = n + k + 1 := by
        rw [UInt32.add_assoc, UInt32.add_comm 1, ← UInt32.add_assoc]
      rw [List.map_append]
      exact .cons single readable (first.moved file' k) (hnumber ▸ ih)

theorem isWritten (h : LexesLines file n lines tokens) :
    ∀ t ∈ tokens, t.kind.IsWritten ∧ t.file = file := by
  induction h with
  | nil => exact nofun
  | cons _ _ first _ ih => exact List.forall_mem_append.mpr ⟨first.isWritten, ih⟩

theorem readable_joined (h : LexesLines file n lines tokens) :
    readable (String.ofList (lines.flatMap (· ++ ['\n']))) = lines.flatMap (· ++ ['\n']) := by
  have hnul : '\x00' ∉ lines.flatMap (· ++ ['\n']) := by
    induction h with
    | nil => exact List.not_mem_nil
    | cons _ readable _ _ ih =>
        rw [List.flatMap_cons, List.mem_append, List.mem_append]
        rintro ((hline | hfeed) | hothers)
        · exact readable hline
        · exact absurd hfeed (by decide)
        · exact ih hothers
  rw [readable_eq_toList (by rwa [String.toList_ofList]), String.toList_ofList]

end LexesLines

/-- The tokens of an accepted source are a program, and where its line breaks are between lexemes,
they are those of its lines. -/
theorem exists_lexesLines {source file : String} {program : Program}
    (hnul : '\x00' ∉ source.toList) (hprogram : Program.ofSource source file = .ok program)
    (hbreaks : ∀ s ∈ segments .recover source, s.isDelimited → '\n' ∉ s.text) :
    ∃ tokens, LexesLines file 1 (Text.textLines source.toList) tokens ∧
      BodyPhrase 0 tokens program := by
  obtain ⟨lexed, hlexed, haccepted⟩ := Program.exists_of_ofSource hprogram
  have hlexes : Lexes file .start (readable source)
      ((segments .recover source).filterMap (Segment.token? file)) := .of_cut fun s hs =>
    ⟨Lexed.isFault_of_mem_segments hlexed hs, hbreaks s hs⟩
  generalize (segments .recover source).filterMap (Segment.token? file) = tokens at hlexes
  have hsolid : ∀ t ∈ tokens, decide (t.kind ≠ .eof) = true := fun t ht =>
    decide_eq_true (hlexes.isWritten t ht).1.1
  obtain rfl := Except.ok.inj (hlexed.symm.trans (hlexes.ofSource .abort))
  rw [Program.ofTokens_eq_result] at haccepted
  have hbody := (Parse.accepts_iff_bodyPhrase (endToken_kind _)).mp haccepted
  rw [Text.takeWhile_append_stop hsolid (by simp [Token.eof])] at hbody
  rw [readable_eq_toList hnul] at hlexes
  exact ⟨tokens, .of_lexes hlexes hnul, hbody⟩

end TickMachine
