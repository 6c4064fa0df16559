import TickMachine.Proofs.Source.Reading
import TickMachine.Source.Phrase

/-! # Parsers are built from steps

A step looks at the token in front, may take it, and goes on by what it saw. All parsers of phrases
are put together from steps, so what is true of a step, and kept by the combinators, is true of each
of them: the complaints are of a few sorts, all of them errors, and a parser depends on the tokens
it takes and on the one behind them only.
-/

namespace TickMachine

open TokenKind (keyword symbol)

/-! ## Complaints -/

/-- The text of the token is too long for a name. -/
def Token.IsLong (t : Token) : Prop :=
  maxNameSize < t.text.text.utf8ByteSize

instance : DecidablePred Token.IsLong := fun t =>
  inferInstanceAs (Decidable (maxNameSize < t.text.text.utf8ByteSize))

/-- The complaint about a name that is too long. -/
def Token.tooLong (t : Token) : Diagnostic :=
  .ofToken (.nameTooLong t.text.text) t

theorem Token.name?_eq_error_iff {t : Token} {d : Diagnostic} :
    t.name? = .error d ↔ t.IsLong ∧ d = t.tooLong := by
  unfold Token.name? Token.IsLong Token.tooLong BoundedText.ofString
  by_cases h : t.text.text.utf8ByteSize ≤ maxNameSize
  · simp [h, Nat.not_lt.mpr h]
  · simp [h, Nat.lt_of_not_le h, eq_comm]

/-- What may be wrong with a statement or with the header or the end of a block. That an end is
missing is no such thing: it shows at the end of the source only. -/
inductive Complaint : Diagnostic → Prop
  | unexpected {expected : Expectation} {t : Token} (asked : expected ≠ .token (keyword .end)) :
      Complaint (.unexpected expected t)
  | invalidNumber {t : Token} : Complaint (.ofToken (.invalidNumber t.text.text) t)
  | nameTooLong {t : Token} (long : t.IsLong) : Complaint t.tooLong
  | nestingTooDeep {t : Token} : Complaint (.ofToken .nestingTooDeep t)

theorem Complaint.severity {d : Diagnostic} (h : Complaint d) : d.severity = .error := by
  cases h <;> rfl

/-- The warning about a wrong name behind an end. -/
structure Diagnostic.IsMismatch (d : Diagnostic) : Prop where
  severity : d.severity = .warning
  cause : ∃ expected found, d.cause = .nameMismatch expected found

/-- An error, about anything but a wrong name behind an end. -/
structure Diagnostic.IsMistake (d : Diagnostic) : Prop where
  severity : d.severity = .error
  cause : ∀ expected found, d.cause ≠ .nameMismatch expected found

theorem Complaint.isMistake {d : Diagnostic} (h : Complaint d) : d.IsMistake where
  severity := h.severity
  cause := by cases h <;> exact nofun

theorem isMistake_unexpected (expected : Expectation) (t : Token) :
    (Diagnostic.unexpected expected t).IsMistake :=
  ⟨rfl, nofun⟩

namespace Parser

variable {α β : Type} {eof : Token} {tokens rest : List Token}

/-! ## Answers -/

/-- The parser answers with the result, a diagnostic perhaps, and leaves `rest`. -/
def Answers (p : Parser α) (eof : Token) (tokens : List Token) (result : Except Diagnostic α)
    (rest : List Token) : Prop :=
  (p eof tokens).result = result ∧ (p eof tokens).rest = rest

theorem Answers.unique {p : Parser α} {r s : Except Diagnostic α} {mid : List Token}
    (h : p.Answers eof tokens r rest) (h' : p.Answers eof tokens s mid) : r = s ∧ rest = mid :=
  ⟨h.1.symm.trans h'.1, h.2.symm.trans h'.2⟩

theorem Answers.bind {p : Parser α} {f : α → Parser β} {a : α} {r : Except Diagnostic β}
    {mid : List Token} (hp : p.Answers eof tokens (.ok a) mid) (hf : (f a).Answers eof mid r rest) :
    (p >>= f).Answers eof tokens r rest := by
  show (Parser.bind p f eof tokens).result = r ∧ (Parser.bind p f eof tokens).rest = rest
  unfold Answers at hp hf
  unfold Parser.bind
  rcases hread : p eof tokens with ⟨_ | a', mid', suffix⟩
  · rw [hread] at hp
    cases hp.1
  · rw [hread] at hp
    obtain ⟨⟨⟩, rfl⟩ := hp
    exact hf

theorem Answers.bind_error {p : Parser α} {d : Diagnostic}
    (hp : p.Answers eof tokens (.error d) rest)
    (f : α → Parser β) : (p >>= f).Answers eof tokens (.error d) rest := by
  show (Parser.bind p f eof tokens).result = .error d ∧ (Parser.bind p f eof tokens).rest = rest
  unfold Answers at hp
  unfold Parser.bind
  rcases hread : p eof tokens with ⟨_ | a, mid, suffix⟩
  · rw [hread] at hp
    obtain ⟨⟨⟩, rfl⟩ := hp
    exact ⟨rfl, rfl⟩
  · rw [hread] at hp
    cases hp.1

/-! ## Steps -/

/-- Takes the token in front if its kind is one of those asked for, and goes on with it; otherwise
goes another way. -/
def step (takes : TokenKind → Bool) (next other : Token → Parser α) : Parser α := do
  let t ← current
  if takes t.kind then
    advance
    next t
  else other t

/-- The token a parser sees in front. -/
def front (eof : Token) (tokens : List Token) : Token :=
  tokens.head?.getD eof

@[simp] theorem front_nil (eof : Token) : front eof [] = eof := rfl

@[simp] theorem front_cons (eof t : Token) (ts : List Token) : front eof (t :: ts) = t := rfl

/-- The token behind some tokens depends on those that are left only if there are none between. -/
theorem front_append {eof' : Token} {rest' : List Token} (us : List Token)
    (h : front eof' rest' = front eof rest) :
    front eof' (us ++ rest') = front eof (us ++ rest) := by
  cases us with
  | nil => exact h
  | cons u us => rfl

theorem step_of_not_takes {takes : TokenKind → Bool} {next other : Token → Parser α}
    {r : Except Diagnostic α} (htakes : takes (front eof tokens).kind = false)
    (h : (other (front eof tokens)).Answers eof tokens r rest) :
    (step takes next other).Answers eof tokens r rest := by
  have hfront : current.Answers eof tokens (.ok (front eof tokens)) tokens := ⟨rfl, rfl⟩
  refine hfront.bind ?_
  rwa [if_neg (by simp [htakes])]

theorem step_of_takes {takes : TokenKind → Bool} {next other : Token → Parser α} {t : Token}
    {ts : List Token} {r : Except Diagnostic α} (ht : t.kind ≠ .eof) (htakes : takes t.kind = true)
    (h : (next t).Answers eof ts r rest) :
    (step takes next other).Answers eof (t :: ts) r rest := by
  have hfront : current.Answers eof (t :: ts) (.ok t) (t :: ts) := ⟨rfl, rfl⟩
  have hadvance : advance.Answers eof (t :: ts) (.ok ()) ts := (yields_advance_cons ht).mpr rfl
  refine hfront.bind ?_
  rw [if_pos htakes]
  exact hadvance.bind h

/-- `many` stops in front of a token that starts no item. -/
theorem many_of_stop {item : TokenKind → Option (Parser α)} (heof : eof.kind = .eof)
    (hitem : item (front eof tokens).kind = none) :
    (many item).Answers eof tokens (.ok []) tokens := by
  refine (yields_many_stop_iff ?_).mpr ⟨rfl, rfl⟩
  rwa [← kind_front heof]

theorem many_of_item {item : TokenKind → Option (Parser α)} {p : Parser α} {t : Token}
    {ts mid : List Token} {a : α} {r : Except Diagnostic (List α)} (hitem : item t.kind = some p)
    (hp : p.Answers eof ts (.ok a) mid) (hmany : (many item).Answers eof mid r rest) :
    (many item).Answers eof (t :: ts) (r.map (a :: ·)) rest := by
  unfold Answers at hp hmany ⊢
  rw [many]
  split
  next hnone => exact absurd (hnone.symm.trans hitem) (Option.some_ne_none p).symm
  next q hq =>
    obtain rfl : p = q := Option.some.inj (hitem.symm.trans hq)
    split
    next d _ _ hread =>
      rw [hread] at hp
      cases hp.1
    next a' _ _ hread =>
      rw [hread] at hp
      obtain ⟨⟨⟩, rfl⟩ := hp
      exact ⟨congrArg (Except.map (a :: ·)) hmany.1, hmany.2⟩

theorem many_of_item_error {item : TokenKind → Option (Parser α)} {p : Parser α} {t : Token}
    {ts : List Token} {d : Diagnostic} (hitem : item t.kind = some p)
    (hp : p.Answers eof ts (.error d) rest) :
    (many item).Answers eof (t :: ts) (.error d) rest := by
  unfold Answers at hp ⊢
  rw [many]
  split
  next hnone => exact absurd (hnone.symm.trans hitem) (Option.some_ne_none p).symm
  next q hq =>
    obtain rfl : p = q := Option.some.inj (hitem.symm.trans hq)
    split
    next d' _ _ hread =>
      rw [hread] at hp
      obtain ⟨⟨⟩, rfl⟩ := hp
      exact ⟨rfl, rfl⟩
    next a _ _ hread =>
      rw [hread] at hp
      cases hp.1

/-- The parser is put together from steps that take tokens of the given kinds only. -/
inductive Built (kinds : TokenKind → Prop) : {α : Type} → Parser α → Prop
  | pure {α : Type} (a : α) : Built kinds (pure a)
  | fail {α : Type} {d : Diagnostic} (hd : Complaint d) : Built kinds (fail d : Parser α)
  | bind {α β : Type} {p : Parser α} {f : α → Parser β} (hp : Built kinds p)
      (hf : ∀ a, Built kinds (f a)) : Built kinds (p >>= f)
  | step {α : Type} {takes : TokenKind → Bool} {next other : Token → Parser α}
      (htakes : ∀ kind, takes kind = true → kinds kind) (hnext : ∀ t, Built kinds (next t))
      (hother : ∀ t, Built kinds (other t)) : Built kinds (step takes next other)
  | many {α : Type} {item : TokenKind → Option (Parser α)}
      (hkinds : ∀ kind p, item kind = some p → kinds kind)
      (hitem : ∀ kind p, item kind = some p → Built kinds p) : Built kinds (many item)

namespace Built

variable {kinds : TokenKind → Prop} {p : Parser α}

theorem map {f : α → β} (hp : Built kinds p) : Built kinds (f <$> p) := by
  show Built kinds (p >>= fun a => Pure.pure (f a))
  exact hp.bind fun a => .pure (f a)

theorem mono {kinds' : TokenKind → Prop} (hp : Built kinds p)
    (h : ∀ kind, kinds kind → kinds' kind) :
    Built kinds' p := by
  induction hp with
  | pure a => exact .pure a
  | fail hd => exact .fail hd
  | bind _ _ ihp ihf => exact ihp.bind ihf
  | step htakes _ _ ihnext ihother =>
      exact .step (fun kind hkind => h kind (htakes kind hkind)) ihnext ihother
  | many hkinds _ ih => exact .many (fun kind p hp => h kind (hkinds kind p hp)) ih

end Built

/-! ## One reading -/

/-- The parser takes some tokens of the given kinds and answers. Its answer depends on these tokens
and on the one behind them only, and if it is a diagnostic it is one of the complaints. -/
structure Reads (kinds : TokenKind → Prop) (p : Parser α) (eof : Token) (taken : List Token)
    (result : Except Diagnostic α) (rest : List Token) : Prop where
  kinds : ∀ t ∈ taken, kinds t.kind
  complaint : ∀ d, result = .error d → Complaint d
  answers : ∀ eof' rest', eof'.kind = .eof → front eof' rest' = front eof rest →
    p.Answers eof' (taken ++ rest') result rest'

namespace Reads

variable {kinds : TokenKind → Prop} {p : Parser α} {taken : List Token}

theorem nothing {r : Except Diagnostic α} (hr : ∀ d, r = .error d → Complaint d)
    (h : ∀ eof' rest', eof'.kind = .eof → front eof' rest' = front eof rest →
      p.Answers eof' rest' r rest') : Reads kinds p eof [] r rest :=
  ⟨nofun, hr, h⟩

theorem bind {f : α → Parser β} {a : α} {us vs : List Token} {r : Except Diagnostic β}
    (hp : Reads kinds p eof us (.ok a) (vs ++ rest)) (hf : Reads kinds (f a) eof vs r rest) :
    Reads kinds (p >>= f) eof (us ++ vs) r rest where
  kinds t ht := (List.mem_append.mp ht).elim (hp.kinds t) (hf.kinds t)
  complaint := hf.complaint
  answers eof' rest' heof hfront := by
    rw [List.append_assoc]
    exact (hp.answers eof' (vs ++ rest') heof (front_append vs hfront)).bind
      (hf.answers eof' rest' heof hfront)

theorem bind_error {d : Diagnostic} (hp : Reads kinds p eof taken (.error d) rest)
    (f : α → Parser β) : Reads kinds (p >>= f) eof taken (.error d) rest where
  kinds := hp.kinds
  complaint e he := hp.complaint e (by cases he; rfl)
  answers eof' rest' heof hfront := (hp.answers eof' rest' heof hfront).bind_error f

/-- A parser that takes one token and then reads on by another parser. -/
theorem cons {q : Parser β} {t : Token} {r : Except Diagnostic α} {s : Except Diagnostic β}
    (ht : kinds t.kind) (hp : Reads kinds p eof taken r rest)
    (hs : ∀ d, s = .error d → r = .error d)
    (h : ∀ eof' rest', p.Answers eof' (taken ++ rest') r rest' →
      q.Answers eof' (t :: taken ++ rest') s rest') : Reads kinds q eof (t :: taken) s rest where
  kinds := List.forall_mem_cons.mpr ⟨ht, hp.kinds⟩
  complaint d hd := hp.complaint d (hs d hd)
  answers eof' rest' heof hfront := h eof' rest' (hp.answers eof' rest' heof hfront)

/-- A repetition that takes an item and goes on. -/
theorem many_item {item : TokenKind → Option (Parser α)} {t : Token} {us vs : List Token} {a : α}
    {result : Except Diagnostic (List α)} (ht : kinds t.kind) (hitem : item t.kind = some p)
    (hp : Reads kinds p eof us (.ok a) (vs ++ rest))
    (hmany : Reads kinds (many item) eof vs result rest) :
    Reads kinds (many item) eof (t :: us ++ vs) (result.map (a :: ·)) rest where
  kinds := List.forall_mem_append.mpr ⟨List.forall_mem_cons.mpr ⟨ht, hp.kinds⟩, hmany.kinds⟩
  complaint d hd := by
    cases result with
    | error e => exact hmany.complaint d (by cases hd; rfl)
    | ok as => cases hd
  answers eof' rest' heof hfront := by
    rw [List.append_assoc]
    exact many_of_item hitem (hp.answers eof' (vs ++ rest') heof (front_append vs hfront))
      (hmany.answers eof' rest' heof hfront)

end Reads

/-- A token that the parser may take is not the end of the source. -/
theorem exists_cons_of_front {kinds : TokenKind → Prop} (hkinds : ¬ kinds .eof)
    (heof : eof.kind = .eof) (h : kinds (front eof tokens).kind) :
    ∃ t ts, tokens = t :: ts ∧ kinds t.kind := by
  cases tokens with
  | nil => exact absurd (heof ▸ h) hkinds
  | cons t ts => exact ⟨t, ts, rfl, h⟩

/-- A repetition reads if its items do. -/
theorem exists_reads_many {kinds : TokenKind → Prop} (hkinds : ¬ kinds .eof)
    {item : TokenKind → Option (Parser α)} (hitem : ∀ kind p, item kind = some p → kinds kind)
    (hreads : ∀ kind p, item kind = some p → ∀ tokens, ∃ taken result rest,
      tokens = taken ++ rest ∧ Reads kinds p eof taken result rest)
    (heof : eof.kind = .eof) (tokens : List Token) :
    ∃ taken result rest, tokens = taken ++ rest ∧
      Reads kinds (many item) eof taken result rest := by
  -- induction on how many tokens are left: every item takes at least the one in front
  induction hn : tokens.length using Nat.strongRecOn generalizing tokens with
  | ind n ih =>
  cases hfront : item (front eof tokens).kind with
  | none =>
      exact ⟨[], .ok [], tokens, rfl, .nothing nofun fun eof' rest' heof' hrest =>
        many_of_stop heof' (hrest ▸ hfront)⟩
  | some p =>
      obtain ⟨t, ts, rfl, ht⟩ := exists_cons_of_front hkinds heof (hitem _ p hfront)
      obtain ⟨us, result, mid, rfl, hread⟩ := hreads _ p hfront ts
      cases result with
      | error d =>
          exact ⟨t :: us, .error d, mid, rfl, .cons ht hread (by rintro _ ⟨⟩; rfl)
            fun eof' rest' hanswers => many_of_item_error hfront hanswers⟩
      | ok a =>
          have hshorter : mid.length < n := by
            rw [← hn, List.length_cons, List.length_append]
            omega
          obtain ⟨vs, result, rest, rfl, hmany⟩ := ih _ hshorter mid rfl
          exact ⟨t :: us ++ vs, result.map (a :: ·), rest, by simp,
            .many_item ht hfront hread hmany⟩

/-- What is built from steps reads, whatever the tokens are. -/
theorem Built.exists_reads {kinds : TokenKind → Prop} (hkinds : ¬ kinds .eof) {p : Parser α}
    (hp : Built kinds p) (heof : eof.kind = .eof) (tokens : List Token) :
    ∃ taken result rest, tokens = taken ++ rest ∧ Reads kinds p eof taken result rest := by
  induction hp generalizing tokens with
  | pure a => exact ⟨[], .ok a, tokens, rfl, .nothing nofun fun _ _ _ _ => ⟨rfl, rfl⟩⟩
  | @fail _ d hd =>
      refine ⟨[], .error d, tokens, rfl, .nothing ?_ fun _ _ _ _ => ⟨rfl, rfl⟩⟩
      rintro _ ⟨⟩
      exact hd
  | bind _ _ ihp ihf =>
      obtain ⟨us, result, mid, rfl, hread⟩ := ihp tokens
      cases result with
      | error d => exact ⟨us, .error d, mid, rfl, hread.bind_error _⟩
      | ok a =>
          obtain ⟨vs, result, rest, rfl, hnext⟩ := ihf a mid
          exact ⟨us ++ vs, result, rest, (List.append_assoc ..).symm, hread.bind hnext⟩
  | @step _ takes next other htakes _ _ ihnext ihother =>
      cases hfront : takes (front eof tokens).kind with
      | true =>
          obtain ⟨t, ts, rfl, ht⟩ := exists_cons_of_front hkinds heof (htakes _ hfront)
          obtain ⟨us, result, rest, rfl, hread⟩ := ihnext t ts
          exact ⟨t :: us, result, rest, rfl,
            .cons ht hread (fun _ h => h) fun eof' rest' hanswers =>
            step_of_takes (fun h => hkinds (h ▸ ht)) hfront hanswers⟩
      | false =>
          obtain ⟨us, result, rest, rfl, hread⟩ := ihother (front eof tokens) tokens
          refine ⟨us, result, rest, rfl, hread.kinds, hread.complaint, ?_⟩
          intro eof' rest' heof' hrest
          have hsame := front_append us hrest
          refine step_of_not_takes (hsame ▸ hfront) ?_
          rw [hsame]
          exact hread.answers eof' rest' heof' hrest
  | many hitem _ ih => exact exists_reads_many hkinds hitem ih heof tokens

/-- The diagnostic that is answered with is one of the complaints. -/
theorem Built.complaint {kinds : TokenKind → Prop} (hkinds : ¬ kinds .eof) {p : Parser α}
    (hp : Built kinds p) (heof : eof.kind = .eof) {d : Diagnostic}
    (h : p.Answers eof tokens (.error d) rest) : Complaint d := by
  obtain ⟨taken, result, mid, rfl, hread⟩ := hp.exists_reads hkinds heof tokens
  exact hread.complaint d ((hread.answers eof mid heof rfl).unique h).1

/-! ## The parsers of phrases are built from steps -/

/-- The kinds of the tokens inside of a statement, up to its semicolon. -/
def Inner (kind : TokenKind) : Prop :=
  kind ≠ .eof ∧ kind ≠ symbol .semicolon

section Phrases

variable {kinds : TokenKind → Prop} {kind : TokenKind}

theorem built_current : Built kinds current := by
  show Built kinds (step (fun _ => false) pure pure)
  exact .step nofun .pure .pure

theorem built_unexpected {expected : Expectation} (hasked : expected ≠ .token (keyword .end)) :
    Built kinds (unexpected expected : Parser α) :=
  built_current.bind fun _ => .fail (.unexpected hasked)

/-- Whether the token in front is of the given kind decides the way. -/
theorem built_front {p q : Token → Parser α} (hkind : kinds kind) (hp : ∀ t, Built kinds (p t))
    (hq : ∀ t, Built kinds (q t)) :
    Built kinds (do
      let t ← current
      if t.kind = kind then
        advance
        p t
      else q t) := by
  have hstep : Built kinds (step (· = kind) p q) :=
    .step (fun _ h => of_decide_eq_true h ▸ hkind) hp hq
  simpa only [step, decide_eq_true_eq] using hstep

theorem built_accept (hkind : kinds kind) : Built kinds (accept kind) :=
  built_front hkind (fun t => .pure (some t)) fun _ => .pure none

theorem built_expectAs (hkind : kinds kind) {expected : Expectation}
    (hasked : expected ≠ .token (keyword .end)) : Built kinds (expectAs kind expected) := by
  refine (built_accept hkind).bind fun t? => ?_
  cases t? with
  | none => exact built_unexpected hasked
  | some t => exact .pure t

theorem built_expect (hkind : kinds kind) (hasked : kind ≠ keyword .end) :
    Built kinds (expect kind) :=
  built_expectAs hkind fun h => hasked (Expectation.token.inj h)

theorem built_name (t : Token) : Built kinds (name t) := by
  unfold name
  split
  next name _ => exact .pure name
  next d hd =>
    obtain ⟨hlong, rfl⟩ := Token.name?_eq_error_iff.mp hd
    exact .fail (.nameTooLong hlong)

/-- The expression a token stands for, if its text has a value. -/
def expressionOf? (t : Token) : Option Expression :=
  match t.kind with
  | .int => (integerLiteral? t.text.text).map (.integer · t.position)
  | .dec => (Double.ofChars? t.text.text.toList).map (.decimal · t.position)
  | .ident => some (.identifier t.text.text t.position)
  | _ => none

/-- A literal or an identifier is taken, and then its value is the answer if it has one. -/
theorem expression_eq_step :
    expression = step (fun kind => kind = .int ∨ kind = .dec ∨ kind = .ident)
      (fun t => match expressionOf? t with
        | some value => return value
        | none => fail (.ofToken (.invalidNumber t.text.text) t))
      fun _ => unexpected .expression := by
  unfold expression step expressionOf?
  congr 1
  funext t
  dsimp only
  cases t.kind <;> rfl

theorem built_expression : Built Inner expression := by
  rw [expression_eq_step]
  refine .step ?_ (fun t => ?_) fun _ => built_unexpected nofun
  · intro kind hkind
    rcases of_decide_eq_true hkind with rfl | rfl | rfl <;> exact ⟨nofun, nofun⟩
  · cases expressionOf? t with
    | some value => exact .pure value
    | none => exact .fail .invalidNumber

theorem typeName_eq_step :
    typeName = step (fun kind => kind = .typeName ∨ kind = .ident) (fun t => pure t.text.text)
      fun _ => unexpected .typeName := by
  unfold typeName step
  congr 1
  funext t
  cases t.kind <;> rfl

theorem built_typeName : Built Inner typeName := by
  rw [typeName_eq_step]
  refine .step ?_ (fun t => .pure t.text.text) fun _ => built_unexpected nofun
  intro kind hkind
  rcases of_decide_eq_true hkind with rfl | rfl <;> exact ⟨nofun, nofun⟩

theorem built_arraySize : Built Inner arraySize :=
  built_front ⟨nofun, nofun⟩ (fun _ => .pure _) fun _ =>
    built_expression.bind fun _ => (built_expect ⟨nofun, nofun⟩ (by simp)).bind fun _ => .pure _

theorem built_array : Built Inner array := by
  refine (built_accept ⟨nofun, nofun⟩).bind fun t? => ?_
  cases t? with
  | none => exact .pure none
  | some t => exact built_arraySize.map

theorem built_modifier {kind : TokenKind} {p : Parser Modifier} (h : modifier kind = some p) :
    Inner kind ∧ Built Inner p := by
  unfold modifier at h
  split at h
  next => cases h; exact ⟨⟨nofun, nofun⟩, .pure _⟩
  next => cases h; exact ⟨⟨nofun, nofun⟩, .pure _⟩
  next => cases h; exact ⟨⟨nofun, nofun⟩, .pure _⟩
  next =>
    cases h
    exact ⟨⟨nofun, nofun⟩, (built_expect ⟨nofun, nofun⟩ (by simp)).bind fun _ =>
      built_expression.bind fun _ => (built_expect ⟨nofun, nofun⟩ (by simp)).bind fun _ => .pure _⟩
  next => cases h

theorem built_declarator : Built Inner declarator :=
  (built_expect ⟨nofun, nofun⟩ (by simp)).bind fun t => built_array.bind fun _ =>
    built_typeName.bind fun _ => (built_name t).bind fun _ =>
      (Built.many (fun _ _ h => (built_modifier h).1) fun _ _ h => (built_modifier h).2).bind
        fun _ => .pure _

/-- What a comma starts is built like what follows the comma. -/
theorem built_chained {kind : TokenKind} {p : Parser Declarator} (h : chained kind = some p) :
    Inner kind ∧ Built Inner p := by
  unfold chained at h
  split at h
  next =>
    cases h
    exact ⟨⟨nofun, nofun⟩, (built_accept ⟨nofun, nofun⟩).bind fun _ => built_declarator⟩
  next => cases h

theorem built_typeName? : Built Inner typeName? := by
  refine built_current.bind fun t => ?_
  split
  next => exact built_typeName.map
  next => exact built_typeName.map
  next => exact .pure none

theorem built_argument : Built Inner argument :=
  (built_expectAs ⟨nofun, nofun⟩ (by simp)).bind fun t => built_typeName?.bind fun _ =>
    (built_name t).bind fun _ => .pure _

theorem built_nextArgument {kind : TokenKind} {p : Parser Argument}
    (h : nextArgument kind = some p) :
    Inner kind ∧ Built Inner p := by
  unfold nextArgument at h
  split at h
  next =>
    cases h
    exact ⟨⟨nofun, nofun⟩, built_argument⟩
  next => cases h

theorem built_arguments : Built Inner arguments :=
  built_front ⟨nofun, nofun⟩ (fun _ => .pure _) fun _ =>
    built_argument.bind fun _ =>
      (Built.many (fun _ _ h => (built_nextArgument h).1)
        fun _ _ h => (built_nextArgument h).2).bind
        fun _ => (built_expect ⟨nofun, nofun⟩ (by simp)).bind fun _ => .pure _

theorem built_visibility : Built Inner visibility := by
  refine (built_accept ⟨nofun, nofun⟩).bind fun t? => ?_
  cases t? with
  | none => exact .pure Visibility.private
  | some t => exact .pure Visibility.public

/-- A statement as a whole takes its semicolon too. -/
theorem built_declaration : Built (· ≠ .eof) declaration :=
  (built_declarator.mono fun _ h => h.1).bind fun _ =>
    (Built.many (fun _ _ h => (built_chained h).1.1)
      fun _ _ h => (built_chained h).2.mono fun _ h => h.1).bind fun _ =>
        (built_expect nofun (by simp)).bind fun _ => .pure _

theorem built_procedure : Built (· ≠ .eof) procedure :=
  (built_expect nofun (by simp)).bind fun t => (built_expect nofun (by simp)).bind fun _ =>
    (built_arguments.mono fun _ h => h.1).bind fun _ =>
      (built_typeName.mono fun _ h => h.1).bind fun _ =>
        (built_visibility.mono fun _ h => h.1).bind fun _ =>
          (built_expect nofun (by simp)).bind fun _ => (built_name t).bind fun _ => .pure _

theorem built_blockHeader (t : Token) : Built (· ≠ .eof) (blockHeader t) :=
  (built_expect nofun (by simp)).bind fun _ => (built_expect nofun (by simp)).bind fun _ =>
    (built_expect nofun (by simp)).bind fun _ => built_name t

theorem built_blockEnd : Built (· ≠ .eof) blockEnd :=
  (built_accept nofun).bind fun _ => (built_expect nofun (by simp)).bind fun _ => .pure _

end Phrases

end Parser

end TickMachine
