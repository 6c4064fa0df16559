import TickMachine.Proofs.Source.Inside
import TickMachine.Proofs.Source.Nodes

/-! # Parsing by recursive descent

The parser can be written without a stack: a function reads the inside of a block, calls itself for
a block in it, and counts the blocks around it up and down again. `descend` is that function. It
comes to the same tree and diagnostics as the parser with the stack, whose height is the count.
-/

namespace TickMachine

open TokenKind (keyword)
open Parse (Inside)

/-- Where the parser looks for the next statement: the number of blocks it has counted, and the
number of those whose insides it is reading. -/
structure Look where
  counted : Nat
  blocks : Nat

/-- What reading the inside of a block comes to, with the count of blocks afterwards and all the
places where a statement was looked for. -/
structure Descent (tokens : List Token) where
  result : Except Diagnostic (List Node)
  noted : List Diagnostic
  looks : List Look
  counted : Nat
  rest : List Token
  shorter : rest.length ≤ tokens.length

namespace Descent

variable {us tokens : List Token}

/-- Stops in front of tokens. -/
def stop (result : Except Diagnostic (List Node)) (noted : List Diagnostic) (look : Look)
    (rest : List Token) (h : rest.length ≤ tokens.length) : Descent tokens :=
  ⟨result, noted, [look], look.counted, rest, h⟩

/-- The source ends inside of the blocks with these names, which shows at the given token. -/
def atEnd (policy : ErrorPolicy) (eof : Token) (names : List Name) (look : Look)
    (tokens : List Token) : Descent tokens :=
  let missing := Diagnostic.unexpected (.token (keyword .end)) eof
  have h := Nat.le_refl tokens.length
  match names, policy with
  | [], _ => stop (.ok []) [] look tokens h
  | _ :: _, .abort => stop (.error missing) [] look tokens h
  | _ :: _, .recover => stop (.ok []) [missing] look tokens h

/-- The innermost block, of the given name, ends with the given token. -/
def atClose (policy : ErrorPolicy) (eof : Token) (name : Name) (look : Look) (t : Token)
    (ts : List Token) : Descent (t :: ts) :=
  let r := Parser.blockEnd eof ts
  have h : r.rest.length ≤ (t :: ts).length := Nat.le_succ_of_le r.suffix.length_le
  match r.result, policy with
  | .ok name?, _ =>
    let warning := Frame.mismatch? ⟨t.position, name, []⟩ name?
    stop (.ok [.ending ⟨t.position, name?.map (·.text.text)⟩]) warning.toList look r.rest h
  | .error d, .abort => stop (.error d) [] look r.rest h
  | .error d, .recover =>
    stop (.ok []) [d] look (skipStatement r.rest) (Nat.le_trans (length_skipStatement_le _) h)

/-- Goes on behind nodes, diagnostics and looks that came before. -/
def behind (nodes : List Node) (noted : List Diagnostic) (looks : List Look) (d : Descent us)
    (h : us.length ≤ tokens.length) : Descent tokens where
  result := d.result.map (nodes ++ ·)
  noted := noted ++ d.noted
  looks := looks ++ d.looks
  counted := d.counted
  rest := d.rest
  shorter := Nat.le_trans d.shorter h

end Descent

/-- Reads the inside of the innermost of the blocks with these names, or what stands outside of all
blocks if there are none. The count goes up in front of a block and down behind it, however the
block is left. -/
def descend (policy : ErrorPolicy) (eof : Token) (names : List Name) (counted : Nat) :
    (tokens : List Token) → Descent tokens
  | [] => .atEnd policy eof names ⟨counted, names.length⟩ []
  | t :: ts =>
    let look : Look := ⟨counted, names.length⟩
    if ht : t.kind = .eof then .atEnd policy t names look (t :: ts)
    else
      match t.kind, names with
      | .keyword .end, name :: _ => .atClose policy eof name look t ts
      | _, names =>
        let step := readItem counted eof t ts ht
        have h := step.shorter
        match step.result with
        | .ok (.statement s) =>
          (descend policy eof names counted step.rest).behind [s.node] [] [look] (Nat.le_of_lt h)
        | .ok (.opening position name) =>
          let inner := descend policy eof (name :: names) (counted + 1) step.rest
          have hinner := Nat.lt_of_le_of_lt inner.shorter h
          match inner.result with
          | .ok children =>
            (descend policy eof names (inner.counted - 1) inner.rest).behind
              [.block position name children] inner.noted (look :: inner.looks)
              (Nat.le_of_lt hinner)
          | .error d =>
            match policy with
            | .abort =>
              ⟨.error d, inner.noted, look :: inner.looks, inner.counted - 1, inner.rest,
                Nat.le_of_lt hinner⟩
            | .recover =>
              have hskipped := Nat.lt_of_le_of_lt (length_skipStatement_le inner.rest) hinner
              (descend .recover eof names (inner.counted - 1) (skipStatement inner.rest)).behind []
                (inner.noted ++ [d]) (look :: inner.looks) (Nat.le_of_lt hskipped)
        | .error d =>
          match policy with
          | .abort => .stop (.error d) [] look step.rest (Nat.le_of_lt h)
          | .recover =>
            (descend .recover eof names counted step.rest).behind [] [d] [look] (Nat.le_of_lt h)
termination_by tokens => tokens.length
decreasing_by
  · exact h
  · exact h
  · exact hinner
  · exact hskipped
  · exact h

/-! ## One look at a time -/

section Looks

variable {policy : ErrorPolicy} {eof : Token} {names : List Name} {counted : Nat}

theorem descend_end {tokens : List Token} (hend : frontKind tokens = .eof) :
    descend policy eof names counted tokens =
      .atEnd policy (Parser.front eof tokens) names ⟨counted, names.length⟩ tokens := by
  cases tokens with
  | nil => rw [descend, Parser.front_nil]
  | cons t ts => rw [descend, dif_pos (show t.kind = .eof from hend), Parser.front_cons]

variable {t : Token} {ts : List Token}

theorem descend_close {name : Name} (hend : t.kind = keyword .end) :
    descend policy eof (name :: names) counted (t :: ts) =
      .atClose policy eof name ⟨counted, names.length + 1⟩ t ts := by
  rw [descend, dif_neg (by simp [hend])]
  simp only [hend]
  rfl

variable {ht : t.kind ≠ .eof}

theorem descend_statement (hitem : t.kind = keyword .end → names = []) {s : Statement}
    (hread : (readItem counted eof t ts ht).result = .ok (.statement s)) :
    descend policy eof names counted (t :: ts) =
      (descend policy eof names counted (readItem counted eof t ts ht).rest).behind [s.node] []
        [⟨counted, names.length⟩] (Nat.le_of_lt (readItem counted eof t ts ht).shorter) := by
  rw [descend, dif_neg ht]
  split
  next name outer hkind => exact absurd (hitem hkind) (List.cons_ne_nil name outer)
  next => simp only [hread]

section Blocks

variable {position : Position} {name : Name}

theorem descend_block (hitem : t.kind = keyword .end → names = [])
    (hread : (readItem counted eof t ts ht).result = .ok (.opening position name))
    {children : List Node} :
    let inner :=
      descend policy eof (name :: names) (counted + 1) (readItem counted eof t ts ht).rest
    inner.result = .ok children →
      descend policy eof names counted (t :: ts) =
        (descend policy eof names (inner.counted - 1) inner.rest).behind
          [.block position name children] inner.noted (⟨counted, names.length⟩ :: inner.looks)
          (Nat.le_trans inner.shorter (Nat.le_of_lt (readItem counted eof t ts ht).shorter)) := by
  intro inner hinner
  rw [descend, dif_neg ht]
  split
  next outer others hkind => exact absurd (hitem hkind) (List.cons_ne_nil outer others)
  next =>
    simp only [hread]
    split
    next nodes hnodes =>
      obtain rfl : nodes = children := Except.ok.inj (hnodes.symm.trans hinner)
      rfl
    next d hd => cases hd.symm.trans hinner

theorem descend_block_error (hitem : t.kind = keyword .end → names = [])
    (hread : (readItem counted eof t ts ht).result = .ok (.opening position name))
    {d : Diagnostic} :
    let inner :=
      descend .abort eof (name :: names) (counted + 1) (readItem counted eof t ts ht).rest
    inner.result = .error d →
      descend .abort eof names counted (t :: ts) =
        ⟨.error d, inner.noted, ⟨counted, names.length⟩ :: inner.looks, inner.counted - 1,
          inner.rest,
          Nat.le_trans inner.shorter (Nat.le_of_lt (readItem counted eof t ts ht).shorter)⟩ := by
  intro inner hinner
  rw [descend, dif_neg ht]
  split
  next outer others hkind => exact absurd (hitem hkind) (List.cons_ne_nil outer others)
  next =>
    simp only [hread]
    split
    next nodes hnodes => cases hnodes.symm.trans hinner
    next e he =>
      obtain rfl : e = d := Except.error.inj (he.symm.trans hinner)
      rfl

end Blocks

theorem descend_skip (hitem : t.kind = keyword .end → names = []) {d : Diagnostic}
    (hread : (readItem counted eof t ts ht).result = .error d) :
    descend policy eof names counted (t :: ts) =
      match policy with
      | .abort =>
        .stop (.error d) [] ⟨counted, names.length⟩ (readItem counted eof t ts ht).rest
          (Nat.le_of_lt (readItem counted eof t ts ht).shorter)
      | .recover =>
        (descend .recover eof names counted (readItem counted eof t ts ht).rest).behind [] [d]
          [⟨counted, names.length⟩] (Nat.le_of_lt (readItem counted eof t ts ht).shorter) := by
  rw [descend, dif_neg ht]
  split
  next name outer hkind => exact absurd (hitem hkind) (List.cons_ne_nil name outer)
  next =>
    simp only [hread]

end Looks

/-! ## The descent and the stack -/

/-- The count is the number of blocks, of which there are not too many. -/
def Look.IsRight (look : Look) : Prop :=
  look.counted = look.blocks ∧ look.blocks ≤ nestingLimit

/-- The descent inside of the blocks with these names comes to these nodes and diagnostics, cut off
at the first one the policy is to stop at. All the while its count of blocks is right. -/
structure Descent.ComesTo {tokens : List Token} (o : Descent tokens) (policy : ErrorPolicy)
    (names : List Name) (nodes : List Node) (noted : List Diagnostic) (rest : List Token) :
    Prop where
  answers : o.result =
    match noted.find? policy.stopsAt with
    | none => .ok nodes
    | some d => .error d
  notes : o.noted = noted.takeWhile (!policy.stopsAt ·)
  leaves : noted.find? policy.stopsAt = none → o.rest = rest
  counts : o.counted = names.length
  places : ∀ look ∈ o.looks, look.IsRight

namespace Descent.ComesTo

variable {policy : ErrorPolicy} {names : List Name} {nodes : List Node}
  {us tokens rest : List Token} {noted : List Diagnostic}

theorem stop_ok (hnoted : ∀ d ∈ noted, policy.stopsAt d = false)
    (hnames : names.length ≤ nestingLimit) {h : rest.length ≤ tokens.length} :
    (stop (.ok nodes) noted ⟨names.length, names.length⟩ rest h : Descent tokens).ComesTo policy
      names nodes noted rest where
  answers := by
    have hnone : noted.find? policy.stopsAt = none := by simpa using hnoted
    rw [hnone]
    rfl
  notes := by
    show noted = noted.takeWhile (!policy.stopsAt ·)
    exact (List.takeWhile_eq_self_iff.mpr (by simpa using hnoted)).symm
  leaves _ := rfl
  counts := rfl
  places := by simpa [stop, Look.IsRight] using hnames

theorem stop_error {d : Diagnostic} (hd : policy.stopsAt d = true)
    (hnames : names.length ≤ nestingLimit) {left : List Token} {h : left.length ≤ tokens.length} :
    (stop (.error d) [] ⟨names.length, names.length⟩ left h : Descent tokens).ComesTo policy names
      nodes (d :: noted) rest where
  answers := by simp [stop, hd]
  notes := by simp [stop, hd]
  leaves := by simp [hd]
  counts := rfl
  places := by simpa [stop, Look.IsRight] using hnames

theorem behind {first : List Diagnostic} (hfirst : ∀ d ∈ first, policy.stopsAt d = false)
    {looks : List Look}
    (hlooks : ∀ look ∈ looks, look.IsRight)
    {o : Descent us} (ho : o.ComesTo policy names nodes noted rest) (front : List Node)
    (h : us.length ≤ tokens.length) :
    (o.behind front first looks h).ComesTo policy names (front ++ nodes) (first ++ noted) rest where
  answers := by
    have hnone : first.find? policy.stopsAt = none := by simpa using hfirst
    rw [List.find?_append, hnone, Option.none_or, Descent.behind, ho.answers]
    cases noted.find? policy.stopsAt with
    | none => rfl
    | some d => rfl
  notes := by
    rw [List.takeWhile_append_of_pos (by simpa using hfirst), ← ho.notes]
    rfl
  leaves := by
    have hnone : first.find? policy.stopsAt = none := by simpa using hfirst
    rw [List.find?_append, hnone, Option.none_or]
    exact ho.leaves
  counts := ho.counts
  places := List.forall_mem_append.mpr ⟨hlooks, ho.places⟩

end Descent.ComesTo

section Agreement

variable {eof : Token} {names : List Name} {tokens rest : List Token} {body : List Statement}
  {closing : Option BlockEnd} {noted : List Diagnostic}

section Blocks

variable {policy : ErrorPolicy} {t : Token} {ts left : List Token} {ht : t.kind ≠ .eof}
  {position : Position} {name : Name} {nodes more : List Node} {innerNoted : List Diagnostic}
  (hitem : t.kind = keyword .end → names = [])
  (hread : (readItem names.length eof t ts ht).result = .ok (.opening position name))
  (hnames : names.length ≤ nestingLimit)
  (hwithin : (descend policy eof (name :: names) (names.length + 1)
    (readItem names.length eof t ts ht).rest).ComesTo policy (name :: names) nodes innerNoted left)

include hitem hread hnames hwithin

/-- Behind the inside of a block the count is what it was in front of it, and the descent goes on
where the inside ends. -/
theorem descend_block_comesTo (hfind : innerNoted.find? policy.stopsAt = none)
    (hothers : (descend policy eof names names.length left).ComesTo policy names more noted rest) :
    (descend policy eof names names.length (t :: ts)).ComesTo policy names
      (.block position name nodes :: more) (innerNoted ++ noted) rest := by
  have hgo : ∀ d ∈ innerNoted, policy.stopsAt d = false := by simpa using hfind
  have hresult := hwithin.answers
  rw [hfind] at hresult
  have hnoted := hwithin.notes
  rw [List.takeWhile_eq_self_iff.mpr (by simpa using hgo)] at hnoted
  have hlook : Look.IsRight ⟨names.length, names.length⟩ := ⟨rfl, hnames⟩
  have hlooks := List.forall_mem_cons.mpr ⟨hlook, hwithin.places⟩
  rw [← hwithin.leaves hfind] at hothers
  rw [descend_block hitem hread hresult, hwithin.counts, ← hnoted]
  rw [← hnoted] at hgo
  exact hothers.behind hgo hlooks [.block position name nodes] _

/-- An error inside of a block that stops the parser is one of the block. -/
theorem descend_block_error_comesTo {d : Diagnostic}
    (hfind : innerNoted.find? policy.stopsAt = some d) :
    (descend policy eof names names.length (t :: ts)).ComesTo policy names
      (.block position name nodes :: more) (innerNoted ++ noted) rest := by
  cases policy with
  | recover => cases (List.find?_eq_some_iff_append.mp hfind).1
  | abort =>
      have hresult := hwithin.answers
      rw [hfind] at hresult
      have hboth : (innerNoted ++ noted).find? ErrorPolicy.abort.stopsAt = some d := by
        rw [List.find?_append, hfind, Option.some_or]
      have hnoted : (innerNoted ++ noted).takeWhile (!ErrorPolicy.abort.stopsAt ·) =
          innerNoted.takeWhile (!ErrorPolicy.abort.stopsAt ·) := by
        obtain ⟨hd, front, back, rfl, hfront⟩ := List.find?_eq_some_iff_append.mp hfind
        rw [List.append_assoc, List.takeWhile_append_of_pos hfront,
          List.takeWhile_append_of_pos hfront, List.cons_append,
          List.takeWhile_cons_of_neg (by simp [hd]), List.takeWhile_cons_of_neg (by simp [hd])]
      rw [descend_block_error hitem hread hresult]
      exact
        { answers := by rw [hboth]
          notes := by rw [hnoted]; exact hwithin.notes
          leaves := by simp [hboth]
          counts := congrArg (· - 1) hwithin.counts
          places := List.forall_mem_cons.mpr ⟨⟨rfl, hnames⟩, hwithin.places⟩ }

end Blocks

/-- The descent reads what stands inside of a block. -/
theorem Parse.Inside.descend_comesTo (heof : eof.kind = .eof)
    (h : Inside eof names tokens body closing noted rest) (policy : ErrorPolicy)
    (hnames : names.length ≤ nestingLimit) :
    (descend policy eof names names.length tokens).ComesTo policy names
      (insideNodes body closing) noted rest := by
  induction h with
  | finished hend =>
      rw [descend_end hend]
      exact .stop_ok (by simp) hnames
  | missing hend =>
      rw [descend_end hend]
      cases policy with
      | abort => exact .stop_error rfl hnames
      | recover => exact .stop_ok (fun _ _ => rfl) hnames
  | @closed f names t ts rest name? hkind hread =>
      obtain ⟨hresult, rfl⟩ := hread
      rw [List.length_cons, descend_close hkind]
      unfold Descent.atClose
      simp only [hresult]
      refine .stop_ok (fun d hd => policy.stopsAt_of_warning ?_) hnames
      exact (isMismatch (Option.mem_toList.mp hd)).severity
  | @spoiled name names t ts rest d hkind hread =>
      have hd := (Parser.built_blockEnd.complaint (by simp) heof hread).severity
      obtain ⟨hresult, rfl⟩ := hread
      rw [List.length_cons, descend_close hkind]
      unfold Descent.atClose
      simp only [hresult]
      cases policy with
      | abort => exact .stop_error (by simp [ErrorPolicy.stopsAt, hd]) hnames
      | recover => exact .stop_ok (fun _ _ => rfl) hnames
  | @statement names t ts mid rest s body closing noted ht hitem hread others ih =>
      obtain ⟨hresult, rfl⟩ := hread
      rw [descend_statement hitem hresult]
      exact (ih hnames).behind (by simp) (by simpa [Look.IsRight] using hnames) [s.node] _
  | @block names t ts front mid rest position name inner body innerClosing closing innerNoted
      noted ht hitem hread within others ihwithin ihothers =>
      have hshallow := shallow_of_opening heof hread
      obtain ⟨hresult, rfl⟩ := hread
      cases hfind : innerNoted.find? policy.stopsAt with
      | none =>
          exact descend_block_comesTo hitem hresult hnames (ihwithin hshallow) hfind
            (ihothers hnames)
      | some d =>
          exact descend_block_error_comesTo hitem hresult hnames (ihwithin hshallow) hfind
  | @skipped names t ts rest d body closing noted ht hitem hread others ih =>
      have hd := (complaint_readItem heof hread).severity
      rw [descend_skip hitem hread]
      cases policy with
      | abort => exact .stop_error (by simp [ErrorPolicy.stopsAt, hd]) hnames
      | recover =>
          exact (ih hnames).behind (fun _ _ => rfl) (by simpa [Look.IsRight] using hnames) [] _

end Agreement

/-! ## Programs -/

/-- Either policy cuts off the run that goes on, at the first diagnostic it is to stop at. -/
theorem Parse.ofTokens_eq_cut (policy : ErrorPolicy) (tokens : List Token) :
    ofTokens policy tokens =
      ⟨(Parsed.recovered tokens).diagnostics.takeWhile (!policy.stopsAt ·),
        ((Parsed.recovered tokens).diagnostics.find? policy.stopsAt).elim
          (.ok (Parsed.recovered tokens).program) .error⟩ := by
  obtain ⟨program, hprogram⟩ := run_recover (endToken_kind tokens) [] [] tokens
  have hrun : ofTokens .recover tokens = ⟨(ofTokens .recover tokens).noted, .ok program⟩ :=
    congrArg (Parse.mk _) hprogram
  rw [Parsed.recovered_of_result hprogram]
  cases policy with
  | abort =>
      rw [ofTokens, run_abort (endToken_kind tokens), ← ofTokens, stopped, stoppedAt_eq, hrun]
  | recover =>
      have hnever : (ofTokens .recover tokens).noted.find? ErrorPolicy.recover.stopsAt = none :=
        List.find?_eq_none.mpr fun _ _ => Bool.false_ne_true
      have hall : (ofTokens .recover tokens).noted.takeWhile (!ErrorPolicy.recover.stopsAt ·) =
          (ofTokens .recover tokens).noted := List.takeWhile_eq_self_iff.mpr fun _ _ => rfl
      rw [hnever, hall]
      exact hrun

namespace Parsed

/-- Outside of all blocks the descent comes to the program and the diagnostics of the parser. -/
theorem descend_eq (policy : ErrorPolicy) (tokens : List Token) :
    let descent := descend policy (endToken tokens) [] 0 tokens
    (descent.result.map fun children => (Node.root children, descent.noted)) =
        (ofTokens policy tokens).map (fun parsed => (parsed.program.tree, parsed.diagnostics)) ∧
      ∀ look ∈ descent.looks, look.IsRight := by
  intro descent
  obtain ⟨closing, rest, h⟩ := exists_inside tokens
  obtain rfl := h.closing_eq_none
  have hcomes := h.descend_comesTo (endToken_kind tokens) policy (Nat.zero_le _)
  refine ⟨?_, hcomes.places⟩
  have hresult : descent.result = _ := hcomes.answers
  have hnoted : descent.noted = _ := hcomes.notes
  rw [hresult, hnoted, ofTokens, Parse.ofTokens_eq_cut]
  cases (recovered tokens).diagnostics.find? policy.stopsAt with
  | none => exact congrArg (fun tree => Except.ok (tree, _)) (Program.tree_eq _).symm
  | some d => rfl

end Parsed

end TickMachine
