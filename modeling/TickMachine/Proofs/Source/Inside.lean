import TickMachine.Proofs.Source.Policies

/-! # What stands inside of a block

The parser keeps its open blocks on a stack. `Inside` tells the same by recursion: inside of a block
stand statements one after the other, and a block among them has an inside of its own. It is told of
the parser that goes on after errors; the parser that stops at the first one is that one cut off.
What the parser comes to is then shown by induction on `Inside`, with no stack in sight.
-/

namespace TickMachine

open TokenKind (keyword)

/-- The warning about an end depends on the name of the block alone. -/
theorem Frame.mismatch?_congr {f g : Frame} (h : f.name = g.name) (t? : Option Token) :
    f.mismatch? t? = g.mismatch? t? := by
  unfold Frame.mismatch?
  rw [h]

/-- The header of a block is read where another block may be opened. -/
theorem shallow_of_opening {eof : Token} (heof : eof.kind = .eof) {depth : Nat} {t : Token}
    {ts rest : List Token} {ht : t.kind ≠ .eof} {position : Position} {name : Name}
    (h : (readItem depth eof t ts ht).Reads (.opening position name) rest) :
    depth < nestingLimit := by
  obtain ⟨us, hphrase, -⟩ := (readItem_reads_iff heof).mp h
  cases hphrase with
  | opening shallow _ => exact shallow

/-- The statement has no statements inside. -/
def Statement.IsLeaf : Statement → Prop
  | .block .. => False
  | _ => True

/-- What is read in one step has no statements inside. -/
theorem isLeaf_of_statement {eof : Token} (heof : eof.kind = .eof) {depth : Nat} {t : Token}
    {ts rest : List Token} {ht : t.kind ≠ .eof} {s : Statement}
    (h : (readItem depth eof t ts ht).Reads (.statement s) rest) : s.IsLeaf := by
  obtain ⟨us, hphrase, -⟩ := (readItem_reads_iff heof).mp h
  cases hphrase with
  | declaration inner =>
      cases inner with
      | intro => trivial
  | procedure inner =>
      cases inner with
      | intro => trivial

namespace Parse

variable {eof : Token} {names : List Name} {tokens rest : List Token} {body : List Statement}
  {closing : Option BlockEnd} {noted : List Diagnostic}

/-- What stands inside of the innermost of the blocks with these names, or of no block if there are
none: its statements, its end unless that is missing or spoiled, what is noted on the way, and the
tokens behind it. -/
inductive Inside (eof : Token) : List Name → List Token → List Statement → Option BlockEnd →
    List Diagnostic → List Token → Prop
  | finished {tokens : List Token} (hend : frontKind tokens = .eof) :
      Inside eof [] tokens [] none [] tokens
  | missing {name : Name} {names : List Name} {tokens : List Token}
      (hend : frontKind tokens = .eof) :
      Inside eof (name :: names) tokens [] none
        [.unexpected (.token (keyword .end)) (Parser.front eof tokens)] tokens
  | closed {f : Frame} {names : List Name} {t : Token} {ts rest : List Token}
      {name? : Option Token} (hend : t.kind = keyword .end)
      (hread : Parser.blockEnd.Answers eof ts (.ok name?) rest) :
      Inside eof (f.name :: names) (t :: ts) [] (some ⟨t.position, name?.map (·.text.text)⟩)
        (f.mismatch? name?).toList rest
  | spoiled {name : Name} {names : List Name} {t : Token} {ts rest : List Token} {d : Diagnostic}
      (hend : t.kind = keyword .end)
      (hread : Parser.blockEnd.Answers eof ts (.error d) rest) :
      Inside eof (name :: names) (t :: ts) [] none [d] (skipStatement rest)
  | statement {names : List Name} {t : Token} {ts mid rest : List Token} {s : Statement}
      {body : List Statement} {closing : Option BlockEnd} {noted : List Diagnostic}
      {ht : t.kind ≠ .eof} (hitem : t.kind = keyword .end → names = [])
      (hread : (readItem names.length eof t ts ht).Reads (.statement s) mid)
      (others : Inside eof names mid body closing noted rest) :
      Inside eof names (t :: ts) (s :: body) closing noted rest
  | block {names : List Name} {t : Token} {ts front mid rest : List Token} {position : Position}
      {name : Name} {inner body : List Statement} {innerClosing closing : Option BlockEnd}
      {innerNoted noted : List Diagnostic} {ht : t.kind ≠ .eof}
      (hitem : t.kind = keyword .end → names = [])
      (hread : (readItem names.length eof t ts ht).Reads (.opening position name) front)
      (within : Inside eof (name :: names) front inner innerClosing innerNoted mid)
      (others : Inside eof names mid body closing noted rest) :
      Inside eof names (t :: ts) (.block position name inner innerClosing :: body) closing
        (innerNoted ++ noted) rest
  | skipped {names : List Name} {t : Token} {ts rest : List Token} {d : Diagnostic}
      {body : List Statement} {closing : Option BlockEnd} {noted : List Diagnostic}
      {ht : t.kind ≠ .eof} (hitem : t.kind = keyword .end → names = [])
      (hread : (readItem names.length eof t ts ht).result = .error d)
      (others : Inside eof names (readItem names.length eof t ts ht).rest body closing noted rest) :
      Inside eof names (t :: ts) body closing (d :: noted) rest

theorem Inside.suffix (h : Inside eof names tokens body closing noted rest) : rest <:+ tokens := by
  induction h with
  | finished _ => exact List.suffix_refl _
  | missing _ => exact List.suffix_refl _
  | @closed f names t ts rest name? _ hread =>
      have hsuffix := (Parser.blockEnd eof ts).suffix
      rw [hread.2] at hsuffix
      exact hsuffix.trans (List.suffix_cons t ts)
  | @spoiled name names t ts rest d _ hread =>
      have hsuffix := (Parser.blockEnd eof ts).suffix
      rw [hread.2] at hsuffix
      exact (skipStatement_suffix rest).trans (hsuffix.trans (List.suffix_cons t ts))
  | @statement names t ts mid _ _ _ _ _ ht _ hread _ ih =>
      exact ih.trans (hread.2 ▸ suffix_readItem names.length eof t ts ht)
  | @block names t ts front _ _ _ _ _ _ _ _ _ _ ht _ hread _ _ ihwithin ihothers =>
      exact ihothers.trans
        (ihwithin.trans (hread.2 ▸ suffix_readItem names.length eof t ts ht))
  | @skipped names t ts _ _ _ _ _ ht _ _ _ ih =>
      exact ih.trans (suffix_readItem names.length eof t ts ht)

/-- Whatever the tokens are, something stands inside of the blocks. -/
theorem exists_inside (eof : Token) (names : List Name) (tokens : List Token) :
    ∃ body closing noted rest, Inside eof names tokens body closing noted rest := by
  -- induction on how many tokens are left: behind a block there are fewer than in front of it
  induction hn : tokens.length using Nat.strongRecOn generalizing names tokens with
  | ind n ih =>
  by_cases hend : frontKind tokens = .eof
  · cases names with
    | nil => exact ⟨_, _, _, _, .finished hend⟩
    | cons name names => exact ⟨_, _, _, _, .missing hend⟩
  · obtain ⟨t, ts, rfl, ht⟩ : ∃ t ts, tokens = t :: ts ∧ t.kind ≠ .eof := by
      cases tokens with
      | nil => exact absurd rfl hend
      | cons t ts => exact ⟨t, ts, rfl, hend⟩
    by_cases hitem : t.kind = keyword .end → names = []
    · have hshorter := hn ▸ (readItem names.length eof t ts ht).shorter
      cases hread : (readItem names.length eof t ts ht).result with
      | error d =>
          obtain ⟨body, closing, noted, rest, others⟩ := ih _ hshorter names _ rfl
          exact ⟨_, _, _, _, .skipped hitem hread others⟩
      | ok item =>
          cases item with
          | statement s =>
              obtain ⟨body, closing, noted, rest, others⟩ := ih _ hshorter names _ rfl
              exact ⟨_, _, _, _, .statement hitem ⟨hread, rfl⟩ others⟩
          | opening position name =>
              obtain ⟨inner, innerClosing, innerNoted, mid, within⟩ :=
                ih _ hshorter (name :: names) _ rfl
              obtain ⟨body, closing, noted, rest, others⟩ :=
                ih _ (Nat.lt_of_le_of_lt within.suffix.length_le hshorter) names mid rfl
              exact ⟨_, _, _, _, .block hitem ⟨hread, rfl⟩ within others⟩
    · obtain ⟨hkind, hnames⟩ := Classical.not_imp.mp hitem
      obtain ⟨name, names, rfl⟩ := List.exists_cons_of_ne_nil hnames
      cases hread : (Parser.blockEnd eof ts).result with
      | ok name? => exact ⟨_, _, _, _, .closed (f := ⟨.start, name, []⟩) hkind ⟨hread, rfl⟩⟩
      | error d => exact ⟨_, _, _, _, .spoiled hkind ⟨hread, rfl⟩⟩

/-- Outside of all blocks no block ends. -/
theorem Inside.closing_eq_none (h : Inside eof [] tokens body closing noted rest) :
    closing = none := by
  generalize hnames : ([] : List Name) = names at h
  induction h with
  | finished _ => rfl
  | missing _ => cases hnames
  | closed _ _ => cases hnames
  | spoiled _ _ => cases hnames
  | statement _ _ _ ih => exact ih hnames
  | block _ _ _ _ _ ih => exact ih hnames
  | skipped _ _ _ ih => exact ih hnames

/-! ## The stack of open blocks -/

/-- Puts diagnostics in front of those noted later. -/
def notes (noted : List Diagnostic) (p : Parse) : Parse :=
  { p with noted := noted ++ p.noted }

theorem after_recover_eq_notes (d? : Option Diagnostic) (p : Parse) :
    after .recover d? p = notes d?.toList p := by
  cases d? with
  | none => rfl
  | some d => rfl

/-- Goes on behind the innermost block, of which the statements are given, latest first. Behind all
blocks the source ends. -/
def leave (eof : Token) (frames : List Frame) (done : List Statement) (closing : Option BlockEnd)
    (rest : List Token) : Parse :=
  match frames with
  | [] => ⟨[], .ok done.reverse⟩
  | f :: fs => run .recover eof fs (f.close done closing) rest

section Turns

variable {frames : List Frame} {done : List Statement} {t : Token} {ts : List Token}

theorem run_recover_cons (heof : eof.kind = .eof) (ht : t.kind ≠ .eof) {next : Turn}
    (h : turn eof frames done t ts ht = next) :
    run .recover eof frames done (t :: ts) =
      notes next.noted.toList (run .recover eof next.frames next.done next.rest) := by
  rw [run_cons heof ts ht, h, after_recover_eq_notes]

theorem turn_closed {f : Frame} (ht : t.kind ≠ .eof) (hend : t.kind = keyword .end)
    {name? : Option Token} (hread : Parser.blockEnd.Answers eof ts (.ok name?) rest) :
    turn eof (f :: frames) done t ts ht =
      ⟨f.mismatch? name?, frames, f.close done (some ⟨t.position, name?.map (·.text.text)⟩),
        rest⟩ := by
  rw [turn_close ht hend, hread.1, hread.2]

theorem turn_spoiled {f : Frame} (ht : t.kind ≠ .eof) (hend : t.kind = keyword .end)
    {d : Diagnostic} (hread : Parser.blockEnd.Answers eof ts (.error d) rest) :
    turn eof (f :: frames) done t ts ht =
      ⟨some d, frames, f.close done none, skipStatement rest⟩ := by
  rw [turn_close ht hend, hread.1, hread.2]

/-- The number of open blocks is the depth an item is read at. -/
theorem turn_item_of_names (ht : t.kind ≠ .eof) (hframes : frames.map Frame.name = names)
    (hitem : t.kind = keyword .end → names = []) (done : List Statement) :
    turn eof frames done t ts ht =
      itemTurn frames done (readItem names.length eof t ts ht) := by
  subst hframes
  rw [List.length_map]
  refine turn_item ht fun f fs hkind hcons => ?_
  have := hitem hkind
  simp [hcons] at this

end Turns

/-- The parser with its stack reads what stands inside of the innermost block and leaves it. The
statements it read before stay in front. -/
theorem Inside.run_eq (heof : eof.kind = .eof)
    (h : Inside eof names tokens body closing noted rest) {frames : List Frame}
    (hframes : frames.map Frame.name = names) (done : List Statement) :
    run .recover eof frames done tokens =
      notes noted (leave eof frames (body.reverse ++ done) closing rest) := by
  induction h generalizing frames done with
  | @finished tokens hend =>
      obtain rfl := List.map_eq_nil_iff.mp hframes
      rw [run_end hend]
      rfl
  | @missing name names tokens hend =>
      obtain ⟨f, fs, rfl, -, -⟩ := List.map_eq_cons_iff.mp hframes
      rw [run_end hend, leave, run_end hend]
      rfl
  | @closed g names t ts rest name? hkind hread =>
      obtain ⟨f, fs, rfl, hname, -⟩ := List.map_eq_cons_iff.mp hframes
      rw [run_recover_cons heof (by simp [hkind]) (turn_closed _ hkind hread),
        Frame.mismatch?_congr hname]
      rfl
  | @spoiled name names t ts rest d hkind hread =>
      obtain ⟨f, fs, rfl, -, -⟩ := List.map_eq_cons_iff.mp hframes
      rw [run_recover_cons heof (by simp [hkind]) (turn_spoiled _ hkind hread)]
      rfl
  | @statement names t ts mid rest s body closing noted ht hitem hread others ih =>
      have hturn := (turn_item_of_names ht hframes hitem done).trans (itemTurn_statement hread.1)
      rw [hread.2] at hturn
      rw [run_recover_cons heof ht hturn, ih hframes, List.reverse_cons, List.append_assoc]
      rfl
  | @block names t ts front mid rest position name inner body innerClosing closing innerNoted
      noted ht hitem hread within others ihwithin ihothers =>
      have hturn := (turn_item_of_names ht hframes hitem done).trans (itemTurn_opening hread.1)
      rw [hread.2] at hturn
      -- the block is put in front of the statements behind it, which are read by the outer frames
      have hnames : (Frame.mk position name done :: frames).map Frame.name = name :: names :=
        congrArg (name :: ·) hframes
      rw [run_recover_cons heof ht hturn, ihwithin hnames, leave, ihothers hframes, Frame.close,
        List.append_nil, List.reverse_reverse, List.reverse_cons, List.append_assoc]
      simp only [notes, List.append_assoc]
      rfl
  | @skipped names t ts rest d body closing noted ht hitem hread others ih =>
      have hturn := (turn_item_of_names ht hframes hitem done).trans (itemTurn_error hread)
      rw [run_recover_cons heof ht hturn, ih hframes]
      rfl

theorem Inside.run_outside (heof : eof.kind = .eof)
    (h : Inside eof [] tokens body closing noted rest) :
    run .recover eof [] [] tokens = ⟨noted, .ok body⟩ := by
  rw [h.run_eq heof List.map_nil [], notes, leave, List.append_nil, List.append_nil,
    List.reverse_reverse]

end Parse

namespace Parsed

open Parse (Inside)

variable {tokens rest : List Token} {body : List Statement} {closing : Option BlockEnd}
  {noted : List Diagnostic}

/-- Outside of all blocks stands the program. -/
theorem recovered_of_inside (h : Inside (endToken tokens) [] tokens body closing noted rest) :
    recovered tokens = ⟨body, noted⟩ := by
  have hrun := h.run_outside (endToken_kind tokens)
  have hresult : (Parse.ofTokens .recover tokens).result = .ok body := by
    rw [Parse.ofTokens, hrun]
  rw [recovered_of_result hresult, Parse.ofTokens, hrun]

theorem exists_inside (tokens : List Token) :
    ∃ closing rest, Inside (endToken tokens) [] tokens (recovered tokens).program closing
      (recovered tokens).diagnostics rest := by
  obtain ⟨body, closing, noted, rest, h⟩ := Parse.exists_inside (endToken tokens) [] tokens
  rw [recovered_of_inside h]
  exact ⟨closing, rest, h⟩

end Parsed

end TickMachine
