import TickMachine.Proofs.Source.Steps
import TickMachine.Source.Parsing

/-! # The parser turn by turn

One turn of the parser reads an item or the end of a block. What it notes and where it goes on is
the same under both policies; they differ in whether the parser goes on after an error. A run is one
turn after the other, up to the end of the source.
-/

namespace TickMachine.Parse

open TokenKind (keyword)

variable {policy : ErrorPolicy} {eof : Token} {frames : List Frame} {done : List Statement}

/-- Where the parser goes on after a turn: what it noted, the open blocks, the statements of the
innermost one, and the tokens that are left. -/
structure Turn where
  noted : Option Diagnostic
  frames : List Frame
  done : List Statement
  rest : List Token

/-- The turn that reads an item, or what should be one. -/
def itemTurn (frames : List Frame) (done : List Statement) {tokens : List Token} :
    Step tokens → Turn
  | ⟨.ok (.statement s), rest, _⟩ => ⟨none, frames, s :: done, rest⟩
  | ⟨.ok (.opening position name), rest, _⟩ => ⟨none, ⟨position, name, done⟩ :: frames, [], rest⟩
  | ⟨.error d, rest, _⟩ => ⟨some d, frames, done, rest⟩

section ItemTurns

variable {tokens : List Token} {step : Step tokens}

theorem itemTurn_statement {s : Statement} (h : step.result = .ok (.statement s)) :
    itemTurn frames done step = ⟨none, frames, s :: done, step.rest⟩ := by
  rcases step with ⟨result, rest, _⟩
  obtain rfl : result = .ok (.statement s) := h
  rfl

theorem itemTurn_opening {position : Position} {name : Name}
    (h : step.result = .ok (.opening position name)) :
    itemTurn frames done step = ⟨none, ⟨position, name, done⟩ :: frames, [], step.rest⟩ := by
  rcases step with ⟨result, rest, _⟩
  obtain rfl : result = .ok (.opening position name) := h
  rfl

theorem itemTurn_error {d : Diagnostic} (h : step.result = .error d) :
    itemTurn frames done step = ⟨some d, frames, done, step.rest⟩ := by
  rcases step with ⟨result, rest, _⟩
  obtain rfl : result = .error d := h
  rfl

end ItemTurns

/-- The turn at a token that is no end of source. -/
def turn (eof : Token) (frames : List Frame) (done : List Statement) (t : Token) (ts : List Token)
    (ht : t.kind ≠ .eof) : Turn :=
  match t.kind, frames with
  | .keyword .end, f :: fs =>
    match Parser.blockEnd eof ts with
    | ⟨.ok name?, rest, _⟩ =>
      let closing : BlockEnd := ⟨t.position, name?.map (·.text.text)⟩
      ⟨f.mismatch? name?, fs, f.close done (some closing), rest⟩
    | ⟨.error d, rest, _⟩ => ⟨some d, fs, f.close done none, skipStatement rest⟩
  | _, frames => itemTurn frames done (readItem frames.length eof t ts ht)

/-- Where no block ends, the turn reads an item. -/
theorem turn_item {t : Token} {ts : List Token} (ht : t.kind ≠ .eof)
    (hend : ∀ f fs, t.kind = keyword .end → frames ≠ f :: fs) :
    turn eof frames done t ts ht = itemTurn frames done (readItem frames.length eof t ts ht) := by
  unfold turn
  split
  next f fs hkind => exact absurd rfl (hend f fs hkind)
  next => rfl

/-- The end of a block closes the innermost one, even if the rest of the end is spoiled. -/
theorem turn_close {f : Frame} {t : Token} {ts : List Token} (ht : t.kind ≠ .eof)
    (hkind : t.kind = keyword .end) :
    turn eof (f :: frames) done t ts ht =
      match (Parser.blockEnd eof ts).result with
      | .ok name? =>
        ⟨f.mismatch? name?, frames, f.close done (some ⟨t.position, name?.map (·.text.text)⟩),
          (Parser.blockEnd eof ts).rest⟩
      | .error d =>
        ⟨some d, frames, f.close done none, skipStatement (Parser.blockEnd eof ts).rest⟩ := by
  unfold turn
  simp only [hkind]
  rcases Parser.blockEnd eof ts with ⟨_ | _, _, _⟩
  · rfl
  · rfl

/-- Goes on after a diagnostic if there is one, unless it is an error and the policy is to stop. -/
def after (policy : ErrorPolicy) : Option Diagnostic → Parse → Parse
  | none, p => p
  | some d, p =>
    match policy, d.severity with
    | .abort, .error => ⟨[], .error d⟩
    | _, _ => note d p

theorem length_turn (eof : Token) (frames : List Frame) (done : List Statement) (t : Token)
    (ts : List Token) (ht : t.kind ≠ .eof) :
    (turn eof frames done t ts ht).rest.length < (t :: ts).length := by
  unfold turn
  split
  next =>
    split
    next _ _ h _ => exact Nat.lt_succ_of_le h.length_le
    next rest h _ =>
      exact Nat.lt_succ_of_le (Nat.le_trans (length_skipStatement_le rest) h.length_le)
  next =>
    unfold itemTurn
    split
    next h _ => exact h
    next h _ => exact h
    next h _ => exact h

/-! ## What an item is read by -/

section Items

variable {depth : Nat} {t : Token} {ts : List Token} {ht : t.kind ≠ .eof}

theorem ofReading_ok {α : Type} {r : Reading α ts} {a : α} (h : r.result = .ok a)
    (make : α → Item) :
    let s : Step (t :: ts) := .ofReading make r
    s.result = .ok (make a) ∧ s.rest = r.rest := by
  dsimp only
  unfold Step.ofReading
  split
  next b hb =>
    obtain rfl : b = a := Except.ok.inj (hb.symm.trans h)
    exact ⟨rfl, rfl⟩
  next e he => cases he.symm.trans h

/-- After a mistake a step skips the rest of the statement. -/
theorem ofReading_error {α : Type} {r : Reading α ts} {d : Diagnostic} (h : r.result = .error d)
    (make : α → Item) :
    let s : Step (t :: ts) := .ofReading make r
    s.result = .error d ∧ s.rest = skipStatement r.rest := by
  dsimp only
  unfold Step.ofReading
  split
  next b hb => cases hb.symm.trans h
  next e he =>
    obtain rfl : e = d := Except.error.inj (he.symm.trans h)
    exact ⟨rfl, rfl⟩

theorem readItem_decl (h : t.kind = keyword .decl) :
    readItem depth eof t ts ht = .ofReading .statement (Parser.declaration eof ts) := by
  unfold readItem
  simp only [h]

theorem readItem_proc (h : t.kind = keyword .proc) :
    readItem depth eof t ts ht = .ofReading .statement (Parser.procedure eof ts) := by
  unfold readItem
  simp only [h]

theorem readItem_header (h : t.kind = .ident)
    (hcolon : (Parser.front eof ts).kind = .symbol .colon) (hdepth : depth < nestingLimit) :
    readItem depth eof t ts ht =
      .ofReading (.opening t.position) (Parser.blockHeader t eof ts) := by
  unfold readItem
  simp only [h]
  exact (if_pos hcolon).trans (if_neg (Nat.not_le.mpr hdepth))

/-- Anything else is skipped. -/
theorem readItem_skip (hdecl : t.kind ≠ keyword .decl) (hproc : t.kind ≠ keyword .proc)
    (hheader : t.kind = .ident → (Parser.front eof ts).kind ≠ .symbol .colon) :
    readItem depth eof t ts ht = .skip ht (.unexpected .statement t) := by
  unfold readItem
  split
  next h => exact absurd h hdecl
  next h => exact absurd h hproc
  next h => exact if_neg (hheader h)
  next => rfl

end Items

/-! ## What a turn leaves -/

theorem rest_itemTurn (frames : List Frame) (done : List Statement) {tokens : List Token}
    (s : Step tokens) : (itemTurn frames done s).rest = s.rest := by
  unfold itemTurn
  split <;> rfl

theorem suffix_ofReading {α : Type} {t : Token} {ts : List Token} (make : α → Item)
    (r : Reading α ts) : (Step.ofReading make r : Step (t :: ts)).rest <:+ t :: ts := by
  have hcons := r.suffix.trans (List.suffix_cons t ts)
  cases hread : r.result with
  | ok a =>
      rw [(ofReading_ok hread make).2]
      exact hcons
  | error d =>
      rw [(ofReading_error hread make).2]
      exact (skipStatement_suffix r.rest).trans hcons

theorem suffix_readItem (depth : Nat) (eof t : Token) (ts : List Token) (ht : t.kind ≠ .eof) :
    (readItem depth eof t ts ht).rest <:+ t :: ts := by
  have hskip := skipStatement_suffix (t :: ts)
  unfold readItem
  split
  next => exact suffix_ofReading _ _
  next => exact suffix_ofReading _ _
  next =>
    split
    · split
      · exact hskip
      · exact suffix_ofReading _ _
    · exact hskip
  next => exact hskip

theorem suffix_turn (eof : Token) (frames : List Frame) (done : List Statement) (t : Token)
    (ts : List Token) (ht : t.kind ≠ .eof) : (turn eof frames done t ts ht).rest <:+ t :: ts := by
  by_cases hclose : t.kind = .keyword .end ∧ frames ≠ []
  · obtain ⟨hkind, hne⟩ := hclose
    obtain ⟨f, fs, rfl⟩ := List.exists_cons_of_ne_nil hne
    have hcons := (Parser.blockEnd eof ts).suffix.trans (List.suffix_cons t ts)
    rw [turn_close ht hkind]
    cases (Parser.blockEnd eof ts).result with
    | ok name? => exact hcons
    | error d => exact (skipStatement_suffix _).trans hcons
  · rw [turn_item ht fun f fs hkind hframes => hclose ⟨hkind, by simp [hframes]⟩]
    rw [rest_itemTurn]
    exact suffix_readItem frames.length eof t ts ht

/-! ## What a turn notes -/

theorem complaint_ofReading {α : Type} {kinds : TokenKind → Prop} (hkinds : ¬ kinds .eof)
    {p : Parser α} (hp : p.Built kinds) (heof : eof.kind = .eof) {make : α → Item} {t : Token}
    {ts : List Token} {d : Diagnostic}
    (h : (Step.ofReading make (p eof ts) : Step (t :: ts)).result = .error d) :
    Complaint d := by
  unfold Step.ofReading at h
  split at h
  next => cases h
  next e he =>
    cases h
    exact hp.complaint hkinds heof ⟨he, rfl⟩

/-- What spoils a statement or the header of a block is one of the complaints. -/
theorem complaint_readItem (heof : eof.kind = .eof) {depth : Nat} {t : Token} {ts : List Token}
    {ht : t.kind ≠ .eof} {d : Diagnostic} (h : (readItem depth eof t ts ht).result = .error d) :
    Complaint d := by
  unfold readItem at h
  split at h
  next => exact complaint_ofReading (by simp) Parser.built_declaration heof h
  next => exact complaint_ofReading (by simp) Parser.built_procedure heof h
  next =>
    split at h
    · split at h
      · cases h
        exact .nestingTooDeep
      · exact complaint_ofReading (by simp) (Parser.built_blockHeader t) heof h
    · cases h
      exact .unexpected nofun
  next =>
    cases h
    exact .unexpected nofun

/-- What is noted about the name behind an end is a warning about it. -/
theorem isMismatch {f : Frame} {t? : Option Token} {d : Diagnostic}
    (h : f.mismatch? t? = some d) : d.IsMismatch := by
  unfold Frame.mismatch? at h
  split at h
  next =>
    split at h
    · cases h
    · cases h
      exact ⟨rfl, _, _, rfl⟩
  next => cases h

theorem after_error {d : Diagnostic} (hd : d.severity = .error) (p : Parse) :
    after policy (some d) p = match policy with
      | .abort => ⟨[], .error d⟩
      | .recover => note d p := by
  cases policy <;> simp only [after, hd]

theorem after_warning {d : Diagnostic} (hd : d.severity = .warning) (p : Parse) :
    after policy (some d) p = note d p := by
  cases policy <;> simp only [after, hd]

/-! ## A run is one turn after the other -/

theorem run_end {tokens : List Token} (hend : frontKind tokens = .eof) :
    run policy eof frames done tokens = finish policy (Parser.front eof tokens) frames done := by
  cases tokens with
  | nil => rw [run, Parser.front_nil]
  | cons t ts => rw [run, dif_pos (show t.kind = .eof from hend), Parser.front_cons]

theorem run_cons (heof : eof.kind = .eof) {t : Token} (ts : List Token) (ht : t.kind ≠ .eof) :
    run policy eof frames done (t :: ts) =
      after policy (turn eof frames done t ts ht).noted
        (run policy eof (turn eof frames done t ts ht).frames (turn eof frames done t ts ht).done
          (turn eof frames done t ts ht).rest) := by
  rw [run, dif_neg ht]
  split
  next f fs hkind =>
    split
    next t? rest h hread =>
      have hturn : turn eof (f :: fs) done t ts ht =
          ⟨f.mismatch? t?, fs, f.close done (some ⟨t.position, t?.map (·.text.text)⟩), rest⟩ := by
        rw [turn_close ht hkind, hread]
      rw [hturn]
      cases hwarning : f.mismatch? t? with
      | none => rfl
      | some warning => exact (after_warning (isMismatch hwarning).severity _).symm
    next d rest h hread =>
      have hturn : turn eof (f :: fs) done t ts ht =
          ⟨some d, fs, f.close done none, skipStatement rest⟩ := by
        rw [turn_close ht hkind, hread]
      have hd := Parser.built_blockEnd.complaint (by simp) heof (d := d) ⟨by rw [hread], rfl⟩
      cases policy <;> rw [hturn, after_error hd.severity]
  next _ hend =>
    rw [turn_item ht hend]
    split
    next s rest h hread => rw [hread]; rfl
    next position name rest h hread => rw [hread]; rfl
    next d rest h hread =>
      have hd := complaint_readItem heof (d := d) (by rw [hread])
      cases policy <;> rw [hread, itemTurn, after_error hd.severity]

/-- A property of the states of the parser holds at all of them if it holds at the end of the
source, and in front of every turn that leads to a state where it holds. -/
theorem turn_induction (eof : Token) {motive : List Frame → List Statement → List Token → Prop}
    (ends : ∀ frames done tokens, frontKind tokens = .eof → motive frames done tokens)
    (turns : ∀ frames done t ts ht, motive (turn eof frames done t ts ht).frames
      (turn eof frames done t ts ht).done (turn eof frames done t ts ht).rest →
      motive frames done (t :: ts))
    (frames : List Frame) (done : List Statement) (tokens : List Token) :
    motive frames done tokens := by
  induction hn : tokens.length using Nat.strongRecOn generalizing frames done tokens with
  | ind n ih =>
  cases tokens with
  | nil => exact ends frames done [] rfl
  | cons t ts =>
      by_cases ht : t.kind = .eof
      · exact ends frames done (t :: ts) ht
      · exact turns frames done t ts ht
          (ih _ (hn ▸ length_turn eof frames done t ts ht) _ _ _ rfl)

end TickMachine.Parse
