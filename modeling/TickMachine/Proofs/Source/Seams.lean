import TickMachine.Proofs.Source.Breaks
import TickMachine.Proofs.Source.Cover

/-! # Texts put together at a line break

No lexeme of a text without faults looks at what stands behind a line break at its end. Only blanks
go on over the line break, and they make nothing. So behind it the lexer begins anew, some lines
further down, whatever is found there.
-/

namespace TickMachine

open Lexeme (AtFront isSpace)

/-! ## Some lines further down -/

/-- The token some lines further down in its file. -/
def Token.down (lines : UInt32) (t : Token) : Token :=
  t.moved t.file lines

def LexError.down (lines : UInt32) (e : LexError) : LexError :=
  { e with position := e.position.down lines }

namespace Segment

def down (lines : UInt32) (s : Segment) : Segment :=
  { s with position := s.position.down lines }

variable {file : String} {lines : UInt32} {policy : ErrorPolicy} {p : Position}

theorem token?_down (s : Segment) :
    (s.down lines).token? file = (s.token? file).map (Token.down lines) := by
  obtain ⟨lexeme, text, position⟩ := s
  cases lexeme <;> rfl

theorem error?_down (s : Segment) :
    (s.down lines).error? file = (s.error? file).map (LexError.down lines) := by
  obtain ⟨lexeme, text, position⟩ := s
  cases lexeme <;> rfl

theorem filterMap_token?_down (ss : List Segment) :
    (ss.map (down lines)).filterMap (token? file) =
      (ss.filterMap (token? file)).map (Token.down lines) := by
  rw [List.filterMap_map, List.map_filterMap]
  exact congrArg (List.filterMap · ss) (funext token?_down)

theorem filterMap_error?_down (ss : List Segment) :
    (ss.map (down lines)).filterMap (error? file) =
      (ss.filterMap (error? file)).map (LexError.down lines) := by
  rw [List.filterMap_map, List.map_filterMap]
  exact congrArg (List.filterMap · ss) (funext error?_down)

/-- A text is cut in the same way wherever it stands. -/
theorem cut_down (lines : UInt32) (p : Position) (cs : List Char) :
    cut policy (p.down lines) cs = (cut policy p cs).map (down lines) := by
  fun_induction cut policy p cs with
  | case1 => rw [cut]; rfl
  | case2 p c cs lexeme length hlexeme text segment hstop =>
      rw [cut, hlexeme]
      exact if_pos hstop
  | case3 p c cs lexeme length hlexeme text segment hgoes ih =>
      rw [cut, hlexeme, List.map_cons, ← ih, ← Position.after_down]
      exact if_neg hgoes

/-! ## Segments that are no gaps -/

/-- The segments without the whitespace and the comments. -/
def visible (ss : List Segment) : List Segment :=
  ss.filter (·.lexeme ≠ .gap)

theorem visible_gap {s : Segment} (h : s.lexeme = .gap) (ss : List Segment) :
    visible (s :: ss) = visible ss :=
  List.filter_cons_of_neg (by simpa using h)

theorem visible_of_ne_gap {s : Segment} (h : s.lexeme ≠ .gap) (ss : List Segment) :
    visible (s :: ss) = s :: visible ss :=
  List.filter_cons_of_pos (by simpa using h)

theorem visible_cons_congr {ss ts us : List Segment} (s : Segment)
    (h : visible ss = visible ts ++ us) : visible (s :: ss) = visible (s :: ts) ++ us := by
  by_cases hgap : s.lexeme = .gap
  · rw [visible_gap hgap, visible_gap hgap, h]
  · rw [visible_of_ne_gap hgap, visible_of_ne_gap hgap, h, List.cons_append]

theorem visible_down (ss : List Segment) :
    visible (ss.map (down lines)) = (visible ss).map (down lines) :=
  List.filter_map

theorem filterMap_visible {α : Type} {view : Segment → Option α}
    (hview : ∀ s, s.lexeme = .gap → view s = none) (ss : List Segment) :
    (visible ss).filterMap view = ss.filterMap view := by
  induction ss with
  | nil => rfl
  | cons s ss ih =>
      by_cases hgap : s.lexeme = .gap
      · rw [visible_gap hgap, ih, List.filterMap_cons_none (hview s hgap)]
      · rw [visible_of_ne_gap hgap, List.filterMap_cons, List.filterMap_cons, ih]

theorem filterMap_token?_visible (file : String) (ss : List Segment) :
    (visible ss).filterMap (token? file) = ss.filterMap (token? file) :=
  filterMap_visible (fun s h => by rw [token?, h]) ss

theorem filterMap_error?_visible (file : String) (ss : List Segment) :
    (visible ss).filterMap (error? file) = ss.filterMap (error? file) :=
  filterMap_visible (fun s h => by rw [error?, h]) ss

/-! ## Spaces and line breaks -/

theorem visible_cut_blank {xs cs : List Char} (hxs : ∀ c ∈ xs, isSpace c)
    (hstop : ∀ c ∈ cs.head?, isSpace c = false) :
    visible (cut policy p (xs ++ cs)) = visible (cut policy (p.after xs) cs) := by
  by_cases hne : xs = []
  · subst hne
    rfl
  · rw [cut_of_atFront policy p (.blank hne hxs hstop) rfl]
    exact visible_gap rfl _

/-- Spaces in front of a text make nothing, be there more spaces behind them or not. -/
theorem visible_cut_spaces {xs : List Char} (hxs : ∀ c ∈ xs, isSpace c) (cs : List Char) :
    visible (cut policy p (xs ++ cs)) = visible (cut policy (p.after xs) cs) := by
  obtain ⟨ys, rest, rfl, hys, hstop⟩ := Text.exists_span isSpace cs
  have hspaces : ∀ c ∈ xs ++ ys, isSpace c := List.forall_mem_append.mpr ⟨hxs, hys⟩
  rw [← List.append_assoc, visible_cut_blank hspaces hstop, Position.after_append,
    visible_cut_blank hys hstop]

/-- Behind a text without faults and a line break, the lexer begins anew. -/
theorem visible_cut_append_feed {a : List Char}
    (hsound : ∀ s ∈ cut .recover p a, s.lexeme.isFault = false) (b : List Char) :
    visible (cut policy p (a ++ '\n' :: b)) =
      visible (cut .recover p a) ++ visible (cut policy (p.after (a ++ ['\n'])) b) := by
  have hfeed : ∀ c ∈ ['\n'], isSpace c := List.forall_mem_singleton.mpr rfl
  induction p, a using cut_induction with
  | nil p =>
      rw [cut]
      exact visible_cut_spaces hfeed b
  | leads p a s rest hleads ih =>
      rw [hleads.cut, if_neg (by simp)] at hsound ⊢
      obtain ⟨hfirst, hothers⟩ := List.forall_mem_cons.mp hsound
      have hfront : AtFront s.lexeme s.text rest := hleads.atFront hfirst
      rw [hleads.text]
      by_cases hblank : rest = [] ∧ ∀ c ∈ s.text, isSpace c
      · -- the blank at the end goes on over the line break
        obtain ⟨rfl, hall⟩ := hblank
        have hspaces : ∀ c ∈ s.text ++ ['\n'], isSpace c :=
          List.forall_mem_append.mpr ⟨hall, hfeed⟩
        rw [List.append_nil, ← List.singleton_append, ← List.append_assoc,
          visible_cut_spaces hspaces, visible_gap (hfront.eq_gap hall), cut]
        rfl
      · have hstops : rest = [] → ∃ c ∈ s.text, isSpace c = false := by
          intro hrest
          simpa [hrest] using hblank
        obtain rfl : s.position = p := hleads.position
        rw [List.append_assoc, cut_of_atFront policy _ (hfront.append_feed hfirst hstops b) hfirst,
          List.append_assoc, Position.after_append _ s.text]
        exact visible_cons_congr s (ih hothers)

end Segment

/-! ## Sources -/

/-- Of two sources with a line break between them all is read up to the second one. -/
theorem readable_append_feed {a : String} (hnul : '\x00' ∉ a.toList) (b : String) :
    readable (a ++ "\n" ++ b) = a.toList ++ '\n' :: readable b := by
  have hfront : ∀ c ∈ a.toList, decide (c ≠ '\x00') = true := fun c hc =>
    decide_eq_true (ne_of_mem_of_not_mem hc hnul)
  unfold readable
  rw [String.toList_append, String.toList_append, List.append_assoc,
    List.takeWhile_append_of_pos hfront]
  rfl

/-- The place behind a line break is the start of a source that stands further down. -/
theorem Position.start_after_feed (cs : List Char) :
    start.after (cs ++ ['\n']) = start.down (UInt32.ofNat (1 + cs.count '\n')) := by
  rw [after_append, start_after]
  unfold behind down start
  simp only [after_cons, after_nil, next, if_pos, UInt32.add_comm]

theorem Position.start_after_append_feed (cs ds : List Char) :
    start.after (cs ++ '\n' :: ds) =
      (start.after ds).down (UInt32.ofNat (1 + cs.count '\n')) := by
  rw [List.append_cons, after_append, start_after_feed, after_down]

namespace Lexed

variable {file : String}

/-- The answer told by the segments that are no gaps, and the end of what was read. -/
def ofVisible (policy : ErrorPolicy) (file : String) (found : List Segment) (last : Position) :
    Except LexError Lexed :=
  let errors := found.filterMap (Segment.error? file)
  match policy, errors with
  | .abort, error :: _ => .error error
  | _, _ => .ok ⟨found.filterMap (Segment.token? file) ++ [.eof file last], errors⟩

theorem ofSource_eq_ofVisible (policy : ErrorPolicy) (source file : String) :
    ofSource policy source file = ofVisible policy file (Segment.visible (segments policy source))
      (Position.start.after (readable source)) := by
  unfold ofVisible
  rw [Segment.filterMap_error?_visible, Segment.filterMap_token?_visible]
  rfl

/-- Segments without errors in front only add their tokens. -/
theorem ofVisible_append_down {front : List Segment}
    (hfront : front.filterMap (Segment.error? file) = []) (policy : ErrorPolicy) (lines : UInt32)
    (found : List Segment) (last : Position) :
    ofVisible policy file (front ++ found.map (Segment.down lines)) (last.down lines) =
      match ofVisible policy file found last with
      | .ok lexed => .ok
          ⟨front.filterMap (Segment.token? file) ++ lexed.tokens.map (Token.down lines),
            lexed.errors.map (LexError.down lines)⟩
      | .error e => .error (e.down lines) := by
  have hlast : Token.eof file (last.down lines) = (Token.eof file last).down lines := rfl
  unfold ofVisible
  rw [List.filterMap_append, hfront, List.nil_append, List.filterMap_append,
    Segment.filterMap_error?_down, Segment.filterMap_token?_down, hlast, List.append_assoc]
  cases policy with
  | abort =>
      cases found.filterMap (Segment.error? file) with
      | nil => simp
      | cons e es => rfl
  | recover => simp

/-- A source that has tokens has no faults, and its tokens are what its segments make. -/
theorem cut_of_tokensOf {source : String} {tokens : List Token}
    (h : tokensOf source file = .ok tokens) :
    (∀ s ∈ Segment.cut .recover .start (readable source), s.lexeme.isFault = false) ∧
      (∀ t ∈ (Segment.cut .recover .start (readable source)).filterMap (Segment.token? file),
        t.kind ≠ .eof) ∧
      tokens = (Segment.cut .recover .start (readable source)).filterMap (Segment.token? file) ++
        [.eof file (.behind (readable source))] := by
  unfold tokensOf at h
  cases hlexed : ofSource .abort source file with
  | error e =>
      rw [hlexed] at h
      cases h
  | ok lexed =>
      rw [hlexed] at h
      obtain rfl : lexed.tokens = tokens := Except.ok.inj h
      refine ⟨fun s hs => isFault_of_mem_segments hlexed hs, fun t ht => ?_, ?_⟩
      · rw [← segments_eq_of_ofSource hlexed] at ht
        exact kind_ne_eof_of_mem ht
      · rw [eq_of_ofSource hlexed, segments_eq_of_ofSource hlexed, Position.start_after]

/-- A text without a NUL in which no mistake is found, a line break and any text: by both policies
there are the tokens of the one and then the tokens and errors of the other, as many lines further
down as there are line breaks in front. -/
theorem ofSource_append_feed {a file : String} {tokens : List Token} (hnul : '\x00' ∉ a.toList)
    (htokens : tokensOf a file = .ok tokens) :
    ∃ front, tokens = front ++ [.eof file (.behind a.toList)] ∧ (∀ t ∈ front, t.kind ≠ .eof) ∧
      ∀ policy b, ofSource policy (a ++ "\n" ++ b) file =
        let lines := UInt32.ofNat (1 + a.toList.count '\n')
        match ofSource policy b file with
        | .ok lexed => .ok
            ⟨front ++ lexed.tokens.map (Token.down lines), lexed.errors.map (LexError.down lines)⟩
        | .error e => .error (e.down lines) := by
  obtain ⟨hsound, hsolid, htokens⟩ := cut_of_tokensOf htokens
  rw [readable_eq_toList hnul] at hsound hsolid htokens
  refine ⟨_, htokens, hsolid, fun policy b => ?_⟩
  have herrors : (Segment.visible (Segment.cut .recover .start a.toList)).filterMap
      (Segment.error? file) = [] := by
    rw [Segment.filterMap_error?_visible, List.filterMap_eq_nil_iff]
    exact fun s hs => Segment.error?_of_faultless (hsound s hs)
  rw [ofSource_eq_ofVisible, ofSource_eq_ofVisible policy b, segments, segments,
    readable_append_feed hnul, Segment.visible_cut_append_feed hsound,
    Position.start_after_feed, Position.start_after_append_feed, Segment.cut_down,
    Segment.visible_down, ofVisible_append_down herrors, Segment.filterMap_token?_visible]

/-- A string over two lines and a colon, an equality sign behind the line break with which the colon
would be one symbol, and a number at fault. -/
theorem ofSource_append_feed_colon :
    ∃ front lexed, front.map Token.kind = [.str, .symbol .colon] ∧
      ofSource .recover "=1.2.3 y" "f" = .ok lexed ∧
      ofSource .recover ("'p\nq' :" ++ "\n" ++ "=1.2.3 y") "f" = .ok
        ⟨front ++ lexed.tokens.map (Token.down 2), [⟨.malformedNumber, "f", ⟨3, 2⟩⟩]⟩ ∧
      lexed.tokens.map Token.position = [⟨1, 1⟩, ⟨1, 2⟩, ⟨1, 8⟩, ⟨1, 9⟩] ∧
      ofSource .abort ("'p\nq' :" ++ "\n" ++ "=1.2.3 y") "f" =
        .error ⟨.malformedNumber, "f", ⟨3, 2⟩⟩ := by
  have hkinds : (tokensOf "'p\nq' :" "f").toOption.map (List.map Token.kind) =
      some [.str, .symbol .colon, .eof] := by decide +kernel
  cases htokens : tokensOf "'p\nq' :" "f" with
  | error e =>
      rw [htokens] at hkinds
      cases hkinds
  | ok tokens =>
      obtain ⟨front, rfl, -, hpolicies⟩ := ofSource_append_feed (by decide) htokens
      rw [htokens] at hkinds
      obtain ⟨lexed, hlexed, herrors, hplaces⟩ : ∃ lexed,
          ofSource .recover "=1.2.3 y" "f" = .ok lexed ∧
          lexed.errors = [⟨.malformedNumber, "f", ⟨1, 2⟩⟩] ∧
          lexed.tokens.map Token.position = [⟨1, 1⟩, ⟨1, 2⟩, ⟨1, 8⟩, ⟨1, 9⟩] :=
        ⟨_, rfl, by decide +kernel, by decide +kernel⟩
      have hrecover := hpolicies .recover "=1.2.3 y"
      rw [hlexed] at hrecover
      dsimp only at hrecover
      rw [herrors] at hrecover
      have habort := hpolicies .abort "=1.2.3 y"
      have hfault : ofSource .abort "=1.2.3 y" "f" = .error ⟨.malformedNumber, "f", ⟨1, 2⟩⟩ := by
        decide +kernel
      rw [hfault] at habort
      refine ⟨front, lexed, ?_, hlexed, hrecover, hplaces, habort⟩
      exact List.append_cancel_right ((List.map_append ..).symm.trans (Option.some.inj hkinds))

end Lexed

end TickMachine
