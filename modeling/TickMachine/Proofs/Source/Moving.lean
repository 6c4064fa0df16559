import TickMachine.Proofs.Source.Program

/-! # Moving a source down

Tokens that stand some lines further down, perhaps in another file, are the same phrases; what these
denote stands as many lines further down.
-/

namespace TickMachine

/-! ## Places -/

/-- The place that stands the given number of lines further down. -/
def Position.down (lines : UInt32) (p : Position) : Position :=
  { p with line := p.line + lines }

theorem Position.next_down (lines : UInt32) (p : Position) (c : Char) :
    (p.down lines).next c = (p.next c).down lines := by
  unfold Position.next
  split
  · simp only [down, UInt32.add_assoc, UInt32.add_comm lines 1]
  · rfl

theorem Position.after_down (lines : UInt32) (p : Position) (cs : List Char) :
    (p.down lines).after cs = (p.after cs).down lines := by
  induction cs generalizing p with
  | nil => rfl
  | cons c cs ih => rw [after_cons, after_cons, next_down, ih]

def Expression.down (lines : UInt32) : Expression → Expression
  | integer value p => .integer value (p.down lines)
  | decimal value p => .decimal value (p.down lines)
  | identifier name p => .identifier name (p.down lines)

def ArraySize.down (lines : UInt32) : ArraySize → ArraySize
  | unsized => .unsized
  | sized size => .sized (size.down lines)

def Modifier.down (lines : UInt32) : Modifier → Modifier
  | initial value => .initial (value.down lines)
  | m => m

def Declarator.down (lines : UInt32) (d : Declarator) : Declarator :=
  { d with
    position := d.position.down lines
    array := d.array.map (ArraySize.down lines)
    initial := d.initial.map (Expression.down lines) }

def Procedure.down (lines : UInt32) (p : Procedure) : Procedure :=
  { p with position := p.position.down lines }

def BlockEnd.down (lines : UInt32) (e : BlockEnd) : BlockEnd :=
  { e with position := e.position.down lines }

/-- The statement that stands the given number of lines further down. -/
def Statement.down (lines : UInt32) : Statement → Statement
  | decl first chained => .decl (first.down lines) (chained.map (Declarator.down lines))
  | procedure p => .procedure (p.down lines)
  | block position name body closing =>
    .block (position.down lines) name (body.map (Statement.down lines))
      (closing.map (BlockEnd.down lines))

/-- The token some lines further down in a file. -/
def Token.moved (file : String) (lines : UInt32) (t : Token) : Token :=
  { t with file, position := t.position.down lines }

section Fields

variable (file : String) (lines : UInt32) (t : Token)

@[simp] theorem Token.moved_kind : (t.moved file lines).kind = t.kind := rfl

@[simp] theorem Token.moved_text : (t.moved file lines).text = t.text := rfl

@[simp] theorem Token.moved_position :
    (t.moved file lines).position = t.position.down lines := rfl

end Fields

/-! ## Phrases -/

section Phrases

variable {us : List Token} {file : String} {lines : UInt32}

theorem Many.moved {α : Type} {phrase : List Token → α → Prop} {as : List α}
    (h : Many phrase us as) {g : α → α}
    (hphrase : ∀ vs a, phrase vs a → phrase (vs.map (Token.moved file lines)) (g a)) :
    Many phrase (us.map (Token.moved file lines)) (as.map g) := by
  induction h with
  | nil => exact .nil
  | cons first _ ih =>
      rw [List.map_append]
      exact .cons (hphrase _ _ first) ih

theorem ExpressionPhrase.moved {e : Expression} (h : ExpressionPhrase us e) :
    ExpressionPhrase (us.map (Token.moved file lines)) (e.down lines) := by
  cases h with
  | @integer t _ kind reads => exact .integer (t := t.moved file lines) kind reads
  | @decimal t _ kind reads => exact .decimal (t := t.moved file lines) kind reads
  | @identifier t kind => exact .identifier (t := t.moved file lines) kind

theorem TypePhrase.moved {type : String} (h : TypePhrase us type) :
    TypePhrase (us.map (Token.moved file lines)) type := by
  cases h with
  | @builtIn t kind => exact .builtIn (t := t.moved file lines) kind
  | @defined t kind => exact .defined (t := t.moved file lines) kind

theorem ArrayPhrase.moved {array : Option ArraySize} (h : ArrayPhrase us array) :
    ArrayPhrase (us.map (Token.moved file lines)) (array.map (ArraySize.down lines)) := by
  cases h with
  | absent => exact .absent
  | unsized opens closes => exact .unsized opens closes
  | sized opens inner closes =>
      rw [List.map_cons, List.map_append]
      exact .sized opens inner.moved closes

theorem ModifierPhrase.moved (us : List Token) (m : Modifier) (h : ModifierPhrase us m) :
    ModifierPhrase (us.map (Token.moved file lines)) (m.down lines) := by
  cases h with
  | typedef kind => exact .typedef kind
  | const kind => exact .const kind
  | «public» kind => exact .public kind
  | initial kind opens inner closes =>
      rw [List.map_cons, List.map_cons, List.map_append]
      exact .initial kind opens inner.moved closes

/-- Only initial values have a place. -/
theorem Modifier.mem_map_down {m : Modifier} (hm : ∀ lines, m.down lines = m)
    (hinitial : m.initial? = none) (ms : List Modifier) :
    m ∈ ms.map (Modifier.down lines) ↔ m ∈ ms := by
  constructor
  · intro h
    obtain ⟨n, hn, hdown⟩ := List.mem_map.mp h
    cases n with
    | initial value =>
        rw [← hdown] at hinitial
        cases hinitial
    | _ => exact hdown ▸ hn
  · intro h
    exact List.mem_map.mpr ⟨m, h, hm lines⟩

theorem Modifier.filterMap_initial?_down (ms : List Modifier) :
    (ms.map (Modifier.down lines)).filterMap Modifier.initial? =
      (ms.filterMap Modifier.initial?).map (Expression.down lines) := by
  rw [List.filterMap_map, List.map_filterMap]
  congr 1
  funext m
  cases m <;> rfl

theorem DeclaratorPhrase.moved {d : Declarator} (h : DeclaratorPhrase us d) :
    DeclaratorPhrase (us.map (Token.moved file lines)) (d.down lines) := by
  cases h with
  | @intro t name us vs ws array type modifiers kind named bounds typed modified =>
      have hbounds : ArrayPhrase (us.map (Token.moved file lines)) _ := bounds.moved
      have htyped : TypePhrase (vs.map (Token.moved file lines)) type := typed.moved
      have hmodified : Many ModifierPhrase (ws.map (Token.moved file lines)) _ :=
        modified.moved ModifierPhrase.moved
      have hmoved :=
        DeclaratorPhrase.intro (t := t.moved file lines) kind named hbounds htyped hmodified
      simp only [Modifier.filterMap_initial?_down, List.getLast?_map,
        Modifier.mem_map_down (m := .public) (fun _ => rfl) rfl,
        Modifier.mem_map_down (m := .const) (fun _ => rfl) rfl,
        Modifier.mem_map_down (m := .typedef) (fun _ => rfl) rfl] at hmoved
      rw [List.map_cons, List.map_append, List.map_append]
      exact hmoved

theorem ChainedPhrase.moved (us : List Token) (d : Declarator) (h : ChainedPhrase us d) :
    ChainedPhrase (us.map (Token.moved file lines)) (d.down lines) := by
  cases h with
  | plain separates declares => exact .plain separates declares.moved
  | repeated separates kind declares => exact .repeated separates kind declares.moved

theorem DeclarationPhrase.moved {s : Statement} (h : DeclarationPhrase us s) :
    DeclarationPhrase (us.map (Token.moved file lines)) (s.down lines) := by
  cases h with
  | intro kind declares chains ends =>
      rw [Statement.down, List.map_cons, List.map_append, List.map_append]
      exact .intro kind declares.moved (chains.moved ChainedPhrase.moved) ends

theorem ArgumentPhrase.moved {a : Argument} (h : ArgumentPhrase us a) :
    ArgumentPhrase (us.map (Token.moved file lines)) a := by
  cases h with
  | untyped kind named => exact .untyped kind named
  | typed kind named typed => exact .typed kind named typed.moved

theorem NextArgumentPhrase.moved (us : List Token) (a : Argument) (h : NextArgumentPhrase us a) :
    NextArgumentPhrase (us.map (Token.moved file lines)) a := by
  cases h with
  | intro separates inner => exact .intro separates inner.moved

theorem ArgumentsPhrase.moved {as : List Argument} (h : ArgumentsPhrase us as) :
    ArgumentsPhrase (us.map (Token.moved file lines)) as := by
  cases h with
  | none => exact .none
  | @some us vs first others head tail =>
      have htail : Many NextArgumentPhrase (vs.map (Token.moved file lines)) (others.map id) :=
        tail.moved NextArgumentPhrase.moved
      rw [List.map_id] at htail
      rw [List.map_append]
      exact .some head.moved htail

theorem VisibilityPhrase.moved {v : Visibility} (h : VisibilityPhrase us v) :
    VisibilityPhrase (us.map (Token.moved file lines)) v := by
  cases h with
  | «private» => exact .private
  | «public» kind => exact .public kind

theorem ProcedurePhrase.moved {s : Statement} (h : ProcedurePhrase us s) :
    ProcedurePhrase (us.map (Token.moved file lines)) (s.down lines) := by
  cases h with
  | @intro _ t _ _ _ _ _ _ _ _ _ _ kind ident named opens takes closes typed seen ends =>
      simp only [Statement.down, List.map_cons, List.map_append, List.map_nil]
      exact .intro (t := t.moved file lines) kind ident named opens takes.moved closes typed.moved
        seen.moved ends

theorem HeaderPhrase.moved {position : Position} {name : Name} (h : HeaderPhrase us position name) :
    HeaderPhrase (us.map (Token.moved file lines)) (position.down lines) name := by
  cases h with
  | @intro t _ _ _ _ kind named marks opens ends =>
      exact .intro (t := t.moved file lines) kind named marks opens ends

theorem EndPhrase.moved {closing : BlockEnd} (h : EndPhrase us closing) :
    EndPhrase (us.map (Token.moved file lines)) (closing.down lines) := by
  cases h with
  | unnamed kind ends => exact .unnamed kind ends
  | named kind ident ends => exact .named kind ident ends

end Phrases

mutual

theorem StatementPhrase.moved {depth : Nat} {us : List Token} {s : Statement}
    (h : StatementPhrase depth us s) (file : String) (lines : UInt32) :
    StatementPhrase depth (us.map (Token.moved file lines)) (s.down lines) := by
  cases h with
  | declaration inner => exact .declaration inner.moved
  | procedure inner => exact .procedure inner.moved
  | block shallow header inner footer =>
      rw [Statement.down, List.map_append, List.map_append]
      exact .block shallow header.moved (inner.moved file lines) footer.moved

/-- Some lines further down, the tokens of a body are the tokens of the same body there. -/
theorem BodyPhrase.moved {depth : Nat} {us : List Token} {ss : List Statement}
    (h : BodyPhrase depth us ss) (file : String) (lines : UInt32) :
    BodyPhrase depth (us.map (Token.moved file lines)) (ss.map (Statement.down lines)) := by
  cases h with
  | nil => exact .nil
  | cons first others =>
      rw [List.map_append, List.map_cons]
      exact .cons (first.moved file lines) (others.moved file lines)

end

/-! ## Up and down again -/

theorem Position.down_neg (lines : UInt32) (p : Position) :
    (p.down (-lines)).down lines = p := by
  have hline : p.line + -lines + lines = p.line := by
    rw [← UInt32.sub_eq_add_neg, UInt32.sub_add_cancel]
  simp only [down, hline]

theorem Token.moved_neg (t : Token) (file : String) (lines : UInt32) :
    (t.moved file (-lines)).moved t.file lines = t := by
  simp only [moved, Position.down_neg]

/-- Statements that are moved up and down again are what they were: their tokens are. -/
theorem BodyPhrase.map_down_neg {us : List Token} {ss : List Statement} (h : BodyPhrase 0 us ss)
    {file : String} (hfile : ∀ t ∈ us, t.file = file) (lines : UInt32) :
    (ss.map (Statement.down (-lines))).map (Statement.down lines) = ss := by
  have hback : (us.map (Token.moved file (-lines))).map (Token.moved file lines) = us := by
    rw [List.map_map]
    refine List.map_congr_left (fun t ht => ?_) |>.trans (List.map_id us)
    exact hfile t ht ▸ t.moved_neg t.file lines
  have hmoved := (h.moved file (-lines)).moved file lines
  rw [hback] at hmoved
  exact hmoved.unique h

end TickMachine
