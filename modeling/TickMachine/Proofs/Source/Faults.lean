import TickMachine.Proofs.Source.Lexemes
import TickMachine.Source.Lexing

/-! # The two policies of the lexer

Stopping at the first fault, a source is cut up to and with the segment at fault; going on, it is
cut further in the same way. So the errors say which of the two answers there is, and every error
has a token in its place.
-/

namespace TickMachine

/-- Tokens of a source are of these kinds; the two others stand for its end and for a fault. -/
def TokenKind.IsWritten (kind : TokenKind) : Prop :=
  kind ≠ .eof ∧ kind ≠ .error

namespace Lexeme

theorem isWritten_ofWord (word : String) : (TokenKind.ofWord word).IsWritten := by
  unfold TokenKind.ofWord
  split
  next k _ => exact ⟨nofun, nofun⟩
  next =>
    split
    · exact ⟨nofun, nofun⟩
    · exact ⟨nofun, nofun⟩

theorem kind_ofText {kind kind' : TokenKind} {cs : List Char} {text : BoundedText maxTokenSize}
    (h : ofText kind cs = token kind' text) : kind' = kind := by
  unfold ofText at h
  split at h
  next => cases h; rfl
  next => cases h

theorem kind_ofNumber {cs : List Char} {kind : TokenKind} {text : BoundedText maxTokenSize}
    (h : ofNumber cs = token kind text) : kind = .int ∨ kind = .dec := by
  unfold ofNumber at h
  split at h
  next => exact .inl (kind_ofText h)
  next => exact .inr (kind_ofText h)
  next => cases h

theorem AtFront.isWritten {lexeme : Lexeme} {taken rest : List Char}
    (h : AtFront lexeme taken rest) {kind : TokenKind} {text : BoundedText maxTokenSize}
    (htoken : lexeme = token kind text) : kind.IsWritten := by
  cases h with
  | blank => cases htoken
  | lineComment => cases htoken
  | blockComment => cases htoken
  | openComment => cases htoken
  | string =>
      obtain rfl := kind_ofText htoken
      exact ⟨nofun, nofun⟩
  | openString => cases htoken
  | word =>
      obtain rfl := kind_ofText htoken
      exact isWritten_ofWord _
  | number =>
      rcases kind_ofNumber htoken with rfl | rfl <;> exact ⟨nofun, nofun⟩
  | symbol =>
      obtain rfl := kind_ofText htoken
      exact ⟨nofun, nofun⟩
  | stray => cases htoken

theorem AtFront.ne_nil {lexeme : Lexeme} {taken rest : List Char} (h : AtFront lexeme taken rest) :
    taken ≠ [] := by
  cases h with
  | blank hne => exact hne
  | word hne => exact hne
  | @symbol s => exact s.spelling_ne_nil
  | string => exact List.cons_ne_nil _ _
  | _ => exact List.cons_ne_nil _ _

/-- What is taken of a text is the lexeme in front; after a fault it is all up to the next blank, if
that is more. -/
theorem AtFront.take_eq {lexeme : Lexeme} {taken rest : List Char} (h : AtFront lexeme taken rest) :
    take (taken ++ rest) = (lexeme, if lexeme.isFault then
      max taken.length ((taken ++ rest).takeWhile (!Text.isBlank ·)).length else taken.length) := by
  unfold take
  rw [scan_of_atFront h]
  dsimp only
  split
  · rfl
  · rfl

/-- A lexeme with nothing but spaces is a gap. -/
theorem AtFront.eq_gap {lexeme : Lexeme} {taken rest : List Char} (h : AtFront lexeme taken rest)
    (hspaces : ∀ c ∈ taken, isSpace c) : lexeme = gap := by
  obtain ⟨c, cs, rfl⟩ := List.exists_cons_of_ne_nil h.ne_nil
  exact (h.of_space ⟨c, rfl, hspaces c List.mem_cons_self⟩).1

end Lexeme

namespace Segment

open Lexeme (AtFront)

/-- The segment is the first of the text, with `rest` behind it. It takes what its lexeme takes, or
more after a fault, and never nothing. -/
structure Leads (s : Segment) (p : Position) (cs rest : List Char) : Prop where
  position : s.position = p
  text : cs = s.text ++ rest
  ne_nil : s.text ≠ []
  take : Lexeme.take cs = (s.lexeme, s.text.length)
  lexeme : ∃ taken behind, cs = taken ++ behind ∧ AtFront s.lexeme taken behind ∧
    (s.lexeme.isFault = false → taken = s.text)
  cut : ∀ policy, cut policy p cs =
    if s.lexeme.isFault ∧ policy = .abort then [s] else s :: cut policy (p.after s.text) rest

theorem cut_eq (policy : ErrorPolicy) (p : Position) {cs : List Char} {lexeme : Lexeme} {n : Nat}
    (hn : 0 < n) (htake : Lexeme.take cs = (lexeme, n)) (hcs : cs ≠ []) :
    cut policy p cs =
      if lexeme.isFault ∧ policy = .abort then [⟨lexeme, cs.take n, p⟩]
      else ⟨lexeme, cs.take n, p⟩ :: cut policy (p.after (cs.take n)) (cs.drop n) := by
  obtain ⟨c, cs, rfl⟩ := List.exists_cons_of_ne_nil hcs
  obtain ⟨m, rfl⟩ := Nat.exists_eq_succ_of_ne_zero (Nat.pos_iff_ne_zero.mp hn)
  rw [cut, htake]
  rfl

/-- What is no fault is cut off as long as it is. -/
theorem cut_of_atFront (policy : ErrorPolicy) (p : Position) {lexeme : Lexeme}
    {taken rest : List Char} (h : AtFront lexeme taken rest) (hsound : lexeme.isFault = false) :
    cut policy p (taken ++ rest) = ⟨lexeme, taken, p⟩ :: cut policy (p.after taken) rest := by
  have htake : Lexeme.take (taken ++ rest) = (lexeme, taken.length) := by
    rw [h.take_eq, if_neg (by simp [hsound])]
  rw [cut_eq policy p (List.length_pos_iff.mpr h.ne_nil) htake
      (List.append_ne_nil_of_left_ne_nil h.ne_nil rest), if_neg (by simp [hsound]), List.take_left,
    List.drop_left]

/-- A text that goes on has a first segment. -/
theorem exists_leads (p : Position) {cs : List Char} (hcs : cs ≠ []) :
    ∃ s rest, Leads s p cs rest := by
  obtain ⟨lexeme, taken, behind, rfl, hfront⟩ := Lexeme.exists_atFront hcs
  have hpos : 0 < taken.length := List.length_pos_iff.mpr hfront.ne_nil
  obtain ⟨n, htake, hle, hlength, hplain⟩ : ∃ n, Lexeme.take (taken ++ behind) = (lexeme, n) ∧
      taken.length ≤ n ∧ n ≤ (taken ++ behind).length ∧
      (lexeme.isFault = false → n = taken.length) := by
    have htaken : taken.length ≤ (taken ++ behind).length := by
      rw [List.length_append]
      exact Nat.le_add_right _ _
    refine ⟨_, hfront.take_eq, ?_, ?_, fun hsound => if_neg (by simp [hsound])⟩
    · split
      · exact Nat.le_max_left _ _
      · exact Nat.le_refl _
    · split
      · exact Nat.max_le.mpr ⟨htaken, (List.takeWhile_prefix _).length_le⟩
      · exact htaken
  refine ⟨⟨lexeme, (taken ++ behind).take n, p⟩, (taken ++ behind).drop n, rfl,
    (List.take_append_drop n _).symm, ?_, ?_, ⟨taken, behind, rfl, hfront, ?_⟩,
    fun policy => cut_eq policy p (Nat.lt_of_lt_of_le hpos hle) htake hcs⟩
  · exact fun h => (List.take_eq_nil_iff.mp h).elim
      (Nat.pos_iff_ne_zero.mp (Nat.lt_of_lt_of_le hpos hle)) hcs
  · rw [htake, List.length_take_of_le hlength]
  · intro hfault
    rw [hplain hfault, List.take_left]

/-- A first segment that is no fault is the lexeme in front. -/
theorem Leads.atFront {s : Segment} {p : Position} {cs rest : List Char} (h : Leads s p cs rest)
    (hsound : s.lexeme.isFault = false) : AtFront s.lexeme s.text rest := by
  obtain ⟨taken, behind, hcs, hfront, htaken⟩ := h.lexeme
  obtain rfl := htaken hsound
  obtain rfl : rest = behind := List.append_cancel_left (h.text.symm.trans hcs)
  exact hfront

/-- A property of texts holds if it holds of the empty text, and of a text whenever it holds of what
is behind its first segment. -/
theorem cut_induction {motive : Position → List Char → Prop} (nil : ∀ p, motive p [])
    (leads : ∀ p cs s rest, Leads s p cs rest → motive (p.after s.text) rest → motive p cs)
    (p : Position) (cs : List Char) : motive p cs := by
  induction hn : cs.length using Nat.strongRecOn generalizing p cs with
  | ind n ih =>
  by_cases hcs : cs = []
  · exact hcs ▸ nil p
  · obtain ⟨s, rest, hleads⟩ := exists_leads p hcs
    have hshorter : rest.length < n := by
      have := List.length_pos_iff.mpr hleads.ne_nil
      rw [← hn, hleads.text, List.length_append]
      omega
    exact leads p cs s rest hleads (ih _ hshorter _ _ rfl)

/-- The segments up to and with the first one at fault. -/
def throughFault : List Segment → List Segment
  | [] => []
  | s :: ss => if s.lexeme.isFault then [s] else s :: throughFault ss

/-- Stopping at the first fault, a text is cut as it is otherwise, up to there. -/
theorem cut_abort (p : Position) (cs : List Char) :
    cut .abort p cs = throughFault (cut .recover p cs) := by
  induction p, cs using cut_induction with
  | nil p => rw [cut, cut, throughFault]
  | leads p cs s rest hleads ih =>
      rw [hleads.cut, hleads.cut]
      cases hfault : s.lexeme.isFault <;> simp [throughFault, hfault, ih]

/-- Each segment of a text is the first one of what is left of the text there. -/
theorem exists_leads_of_mem {s : Segment} {p : Position} {cs : List Char}
    (h : s ∈ cut .recover p cs) : ∃ q ds rest, Leads s q ds rest ∧ ds <:+ cs := by
  induction p, cs using cut_induction with
  | nil p =>
      rw [cut] at h
      cases h
  | leads p cs first rest hleads ih =>
      rw [hleads.cut, if_neg (by simp)] at h
      rcases List.mem_cons.mp h with rfl | h
      · exact ⟨p, cs, rest, hleads, List.suffix_rfl⟩
      · obtain ⟨q, ds, others, hothers, hsuffix⟩ := ih h
        exact ⟨q, ds, others, hothers, hsuffix.trans ⟨first.text, hleads.text.symm⟩⟩

/-- Each segment of a text leads what is left of the text there, and the other ones are behind. -/
theorem leads_of_cut {p : Position} {cs : List Char} {front back : List Segment} {s : Segment}
    (h : cut .recover p cs = front ++ s :: back) :
    ∃ q, Leads s q (s.text ++ back.flatMap text) (back.flatMap text) := by
  induction p, cs using cut_induction generalizing front with
  | nil p =>
      rw [cut] at h
      exact absurd h.symm (List.append_ne_nil_of_right_ne_nil front (List.cons_ne_nil s back))
  | leads p cs first rest hleads ih =>
      rw [hleads.cut, if_neg (by simp)] at h
      cases front with
      | nil =>
          obtain ⟨rfl, rfl⟩ := List.cons.inj h
          rw [flatMap_text_cut, ← hleads.text]
          exact ⟨p, hleads⟩
      | cons f front => exact ih (List.cons.inj h).2

/-- A token among the segments of a text is of a kind that is written. -/
theorem isWritten_of_mem {s : Segment} {p : Position} {cs : List Char} (h : s ∈ cut .recover p cs)
    {kind : TokenKind} {text : BoundedText maxTokenSize} (htoken : s.lexeme = .token kind text) :
    kind.IsWritten := by
  obtain ⟨q, ds, rest, hleads, -⟩ := exists_leads_of_mem h
  obtain ⟨taken, behind, -, hfront, -⟩ := hleads.lexeme
  exact hfront.isWritten htoken

/-! ## The views of the segments -/

variable {file : String}

theorem error?_of_faultless {s : Segment} (h : s.lexeme.isFault = false) :
    s.error? file = none := by
  unfold error?
  split
  next hfault =>
    rw [hfault] at h
    cases h
  next => rfl

theorem exists_error_of_isFault (file : String) {s : Segment} (h : s.lexeme.isFault = true) :
    ∃ e, s.error? file = some e := by
  unfold error?
  split
  next => exact ⟨_, rfl⟩
  next hfault =>
    unfold Lexeme.isFault at h
    split at h
    next cause heq => exact absurd heq (hfault cause)
    next => cases h

/-- Up to the first fault there are no errors but its own. -/
theorem errors_throughFault (ss : List Segment) :
    (throughFault ss).filterMap (error? file) = (ss.filterMap (error? file)).take 1 := by
  induction ss with
  | nil => rfl
  | cons s ss ih =>
      cases hfault : s.lexeme.isFault with
      | true =>
          obtain ⟨e, he⟩ := exists_error_of_isFault file hfault
          simp [throughFault, hfault, he]
      | false => simp [throughFault, hfault, error?_of_faultless hfault, ih]

theorem throughFault_of_no_error {ss : List Segment} (h : ss.filterMap (error? file) = []) :
    throughFault ss = ss := by
  induction ss with
  | nil => rfl
  | cons s ss ih =>
      cases hfault : s.lexeme.isFault with
      | true =>
          obtain ⟨e, he⟩ := exists_error_of_isFault file hfault
          simp [he] at h
      | false =>
          rw [List.filterMap_cons_none (error?_of_faultless hfault)] at h
          rw [throughFault, if_neg (by simp [hfault]), ih h]

theorem mem_throughFault {s : Segment} {ss : List Segment} (h : s ∈ throughFault ss) : s ∈ ss := by
  induction ss with
  | nil => cases h
  | cons first ss ih =>
      unfold throughFault at h
      split at h
      · exact List.mem_cons.mpr (.inl (List.mem_singleton.mp h))
      · exact List.mem_cons.mpr ((List.mem_cons.mp h).imp_right ih)

/-- A token of a segment is written in it, or stands for its fault. -/
theorem kind_of_token? {s : Segment} {t : Token} (h : s.token? file = some t) :
    s.lexeme = .token t.kind t.text ∨ t.kind = .error := by
  unfold token? at h
  split at h
  next => cases h
  next => cases h
  next kind text heq =>
    cases h
    exact .inl heq
  next =>
    cases h
    exact .inr rfl

/-- The error tokens stand where the errors are. -/
theorem positions_errorTokens {ss : List Segment} (hwritten : ∀ s ∈ ss, ∀ kind text,
    s.lexeme = .token kind text → kind.IsWritten) :
    ((ss.filterMap (token? file)).filter (·.kind = .error)).map Token.position =
      (ss.filterMap (error? file)).map LexError.position := by
  induction ss with
  | nil => rfl
  | cons s ss ih =>
      obtain ⟨hs, hss⟩ := List.forall_mem_cons.mp hwritten
      obtain ⟨lexeme, text, position⟩ := s
      cases lexeme with
      | gap => exact ih hss
      | stray c => exact ih hss
      | token kind text =>
          have hkind : kind ≠ .error := (hs kind text rfl).2
          rw [List.filterMap_cons_some
              (show token? file _ = some ⟨kind, text, file, position⟩ from rfl),
            List.filter_cons_of_neg (by simpa using hkind)]
          exact ih hss
      | fault cause => exact congrArg (position :: ·) (ih hss)

end Segment

/-! ## The answers of the two policies -/

namespace Lexed

open Segment (errors_throughFault throughFault_of_no_error)

theorem segments_abort (source : String) :
    segments .abort source = Segment.throughFault (segments .recover source) :=
  Segment.cut_abort .start (readable source)

/-- No token in front of the last one is an end of the source. -/
theorem kind_ne_eof_of_mem {policy : ErrorPolicy} {source file : String} {t : Token}
    (h : t ∈ (segments policy source).filterMap (Segment.token? file)) : t.kind ≠ .eof := by
  obtain ⟨s, hs, ht⟩ := List.mem_filterMap.mp h
  have hmem : s ∈ segments .recover source := by
    cases policy with
    | recover => exact hs
    | abort => exact Segment.mem_throughFault (segments_abort source ▸ hs)
  rcases Segment.kind_of_token? ht with htoken | herror
  · exact (Segment.isWritten_of_mem hmem htoken).1
  · rw [herror]
    exact nofun

/-- What an answer with tokens looks like, whatever the policy. -/
theorem eq_of_ofSource {policy : ErrorPolicy} {source file : String} {lexed : Lexed}
    (h : ofSource policy source file = .ok lexed) :
    lexed = ⟨(segments policy source).filterMap (Segment.token? file) ++
        [.eof file (Position.start.after (readable source))],
      (segments policy source).filterMap (Segment.error? file)⟩ := by
  unfold ofSource at h
  dsimp only at h
  split at h
  next => cases h
  next => exact (Except.ok.inj h).symm

/-- Where the lexer that stops at faults goes to the end, there are none. -/
theorem isFault_of_mem_segments {source file : String} {lexed : Lexed}
    (h : ofSource .abort source file = .ok lexed) {s : Segment}
    (hs : s ∈ segments .recover source) :
    s.lexeme.isFault = false := by
  unfold ofSource at h
  rw [segments_abort] at h
  dsimp only at h
  rw [errors_throughFault] at h
  cases herrors : (segments .recover source).filterMap (Segment.error? file) with
  | cons e es =>
      rw [herrors] at h
      cases h
  | nil =>
      by_contra hfault
      obtain ⟨e, he⟩ := Segment.exists_error_of_isFault file (Bool.not_eq_false _ ▸ hfault)
      have hnone := List.filterMap_eq_nil_iff.mp herrors s hs
      rw [he] at hnone
      cases hnone

/-- The two policies agree and every error has its token. Going on after faults, a source always has
tokens; stopping at the first fault gives the same if there is none, and otherwise the first one.
The error tokens stand in order where the errors are, and the last token and no other is an end of
the source. -/
theorem ofSource_policies (source file : String) :
    ∃ lexed, ofSource .recover source file = .ok lexed ∧
      (ofSource .abort source file = match lexed.errors with
        | [] => .ok lexed
        | e :: _ => .error e) ∧
      (lexed.tokens.filter (·.kind = .error)).map Token.position =
        lexed.errors.map LexError.position ∧
      ∀ policy answer, ofSource policy source file = .ok answer →
        ∃ front last, answer.tokens = front ++ [last] ∧ last.kind = .eof ∧
          ∀ t ∈ front, t.kind ≠ .eof := by
  refine ⟨_, rfl, ?_, ?_, ?_⟩
  · unfold ofSource
    rw [segments_abort]
    dsimp only
    rw [errors_throughFault]
    cases herrors : (segments .recover source).filterMap (Segment.error? file) with
    | nil => rw [throughFault_of_no_error herrors]; rfl
    | cons e es => rfl
  · have hwritten : ∀ s ∈ segments .recover source, ∀ kind text, s.lexeme = .token kind text →
        kind.IsWritten := fun s hs _ _ htoken => Segment.isWritten_of_mem hs htoken
    rw [List.filter_append, List.map_append, Segment.positions_errorTokens hwritten]
    exact List.append_nil _
  · intro policy answer hanswer
    rw [eq_of_ofSource hanswer]
    exact ⟨_, _, rfl, rfl, fun t ht => kind_ne_eof_of_mem ht⟩

end Lexed

end TickMachine
