import TickMachine.Proofs.Binary.Denoted
import TickMachine.Source.Phrase

/-! # The grammar of the declaration language

Which tokens are a phrase, and what the phrase denotes. The relations here know the tokens of one
phrase only: there is no token that is looked at without being taken, and no order in which
alternatives are tried.
-/

namespace TickMachine

open TokenKind (keyword symbol)

/-- Phrases of one sort behind each other. -/
inductive Many {α : Type} (phrase : List Token → α → Prop) : List Token → List α → Prop
  | nil : Many phrase [] []
  | cons {us vs : List Token} {a : α} {as : List α} (first : phrase us a)
      (others : Many phrase vs as) : Many phrase (us ++ vs) (a :: as)

/-- Decimal digits with a sign that may be left out, which stand for an integer of 64 bits. -/
inductive IntegerLiteral : List Char → Int → Prop
  | intro {sign digits : List Char} {negative : Bool} {n : Nat} (hsign : Text.Sign sign negative)
      (hdigits : Text.Digits 10 digits n) (low : -2 ^ 63 ≤ Text.signed negative n)
      (high : Text.signed negative n < 2 ^ 63) :
      IntegerLiteral (sign ++ digits) (Text.signed negative n)

theorem integerLiteral?_eq_some_iff {text : String} {value : Int} :
    integerLiteral? text = some value ↔ IntegerLiteral text.toList value := by
  have hmin : Int64.minValue.toInt = -2 ^ 63 := rfl
  have hmax : Int64.maxValue.toInt = 2 ^ 63 - 1 := rfl
  rw [integerLiteral?, Option.filter_eq_some_iff, Text.integer?_eq_some_iff, hmin, hmax,
    decide_eq_true_iff]
  constructor
  · rintro ⟨⟨sign, negative, digits, n, hsign, hdigits, htext, rfl⟩, hlow, hhigh⟩
    rw [htext]
    exact ⟨hsign, hdigits, hlow, Int.lt_of_le_sub_one hhigh⟩
  · intro h
    generalize text.toList = cs at h ⊢
    obtain ⟨hsign, hdigits, hlow, hhigh⟩ := h
    exact ⟨⟨_, _, _, _, hsign, hdigits, rfl, rfl⟩, hlow, Int.le_sub_one_of_lt hhigh⟩

/-- A literal in the range of its type, or an identifier. -/
inductive ExpressionPhrase : List Token → Expression → Prop
  | integer {t : Token} {value : Int} (kind : t.kind = .int)
      (reads : IntegerLiteral t.text.text.toList value) :
      ExpressionPhrase [t] (.integer value t.position)
  | decimal {t : Token} {value : Double} (kind : t.kind = .dec)
      (reads : Double.Denotes t.text.text.toList value) :
      ExpressionPhrase [t] (.decimal value t.position)
  | identifier {t : Token} (kind : t.kind = .ident) :
      ExpressionPhrase [t] (.identifier t.text.text t.position)

/-- The name of a built-in or user defined type. -/
inductive TypePhrase : List Token → String → Prop
  | builtIn {t : Token} (kind : t.kind = .typeName) : TypePhrase [t] t.text.text
  | defined {t : Token} (kind : t.kind = .ident) : TypePhrase [t] t.text.text

/-- `[( [expression] )]` -/
inductive ArrayPhrase : List Token → Option ArraySize → Prop
  | absent : ArrayPhrase [] none
  | unsized {left right : Token} (opens : left.kind = symbol .leftParen)
      (closes : right.kind = symbol .rightParen) : ArrayPhrase [left, right] (some .unsized)
  | sized {left right : Token} {us : List Token} {size : Expression}
      (opens : left.kind = symbol .leftParen) (inner : ExpressionPhrase us size)
      (closes : right.kind = symbol .rightParen) :
      ArrayPhrase (left :: (us ++ [right])) (some (.sized size))

/-- `typedef`, `const`, `public` or `initial ( expression )` -/
inductive ModifierPhrase : List Token → Modifier → Prop
  | typedef {t : Token} (kind : t.kind = keyword .typedef) : ModifierPhrase [t] .typedef
  | const {t : Token} (kind : t.kind = keyword .const) : ModifierPhrase [t] .const
  | «public» {t : Token} (kind : t.kind = keyword .public) : ModifierPhrase [t] .public
  | initial {t left right : Token} {us : List Token} {value : Expression}
      (kind : t.kind = keyword .initial) (opens : left.kind = symbol .leftParen)
      (inner : ExpressionPhrase us value) (closes : right.kind = symbol .rightParen) :
      ModifierPhrase (t :: left :: (us ++ [right])) (.initial value)

/-- The value of an initial modifier. -/
def Modifier.initial? : Modifier → Option Expression
  | .initial value => some value
  | _ => none

/-- `name array type modifiers`. A flag is set if one of the modifiers sets it, and the last initial
value counts. -/
inductive DeclaratorPhrase : List Token → Declarator → Prop
  | intro {t : Token} {name : Name} {us vs ws : List Token} {array : Option ArraySize}
      {type : String} {modifiers : List Modifier} (kind : t.kind = .ident)
      (named : name.text = t.text.text) (bounds : ArrayPhrase us array) (typed : TypePhrase vs type)
      (modified : Many ModifierPhrase ws modifiers) :
      DeclaratorPhrase (t :: (us ++ vs ++ ws))
        { position := t.position
          name := name
          typeName := type
          array := array
          visibility := if .public ∈ modifiers then .public else .private
          isConstant := decide (.const ∈ modifiers)
          isTypedef := decide (.typedef ∈ modifiers)
          initial := (modifiers.filterMap Modifier.initial?).getLast? }

/-- `, [decl] declarator` -/
inductive ChainedPhrase : List Token → Declarator → Prop
  | plain {comma : Token} {us : List Token} {d : Declarator}
      (separates : comma.kind = symbol .comma) (declares : DeclaratorPhrase us d) :
      ChainedPhrase (comma :: us) d
  | repeated {comma word : Token} {us : List Token} {d : Declarator}
      (separates : comma.kind = symbol .comma) (kind : word.kind = keyword .decl)
      (declares : DeclaratorPhrase us d) : ChainedPhrase (comma :: word :: us) d

/-- `decl declarator chained ;` -/
inductive DeclarationPhrase : List Token → Statement → Prop
  | intro {word semicolon : Token} {us vs : List Token} {first : Declarator}
      {chained : List Declarator} (kind : word.kind = keyword .decl)
      (declares : DeclaratorPhrase us first) (chains : Many ChainedPhrase vs chained)
      (ends : semicolon.kind = symbol .semicolon) :
      DeclarationPhrase (word :: (us ++ vs ++ [semicolon])) (.decl first chained)

/-- `name [type]` -/
inductive ArgumentPhrase : List Token → Argument → Prop
  | untyped {t : Token} {name : Name} (kind : t.kind = .ident) (named : name.text = t.text.text) :
      ArgumentPhrase [t] ⟨name, none⟩
  | typed {t : Token} {name : Name} {us : List Token} {type : String} (kind : t.kind = .ident)
      (named : name.text = t.text.text) (typed : TypePhrase us type) :
      ArgumentPhrase (t :: us) ⟨name, some type⟩

/-- `, argument` -/
inductive NextArgumentPhrase : List Token → Argument → Prop
  | intro {comma : Token} {us : List Token} {a : Argument}
      (separates : comma.kind = symbol .comma) (inner : ArgumentPhrase us a) :
      NextArgumentPhrase (comma :: us) a

/-- `[argument {, argument}]` -/
inductive ArgumentsPhrase : List Token → List Argument → Prop
  | none : ArgumentsPhrase [] []
  | some {us vs : List Token} {first : Argument} {others : List Argument}
      (head : ArgumentPhrase us first) (tail : Many NextArgumentPhrase vs others) :
      ArgumentsPhrase (us ++ vs) (first :: others)

/-- `[public]` -/
inductive VisibilityPhrase : List Token → Visibility → Prop
  | «private» : VisibilityPhrase [] .private
  | «public» {t : Token} (kind : t.kind = keyword .public) : VisibilityPhrase [t] .public

/-- `proc name ( arguments ) type [public] ;` -/
inductive ProcedurePhrase : List Token → Statement → Prop
  | intro {word t left right semicolon : Token} {name : Name} {us vs ws : List Token}
      {arguments : List Argument} {type : String} {visibility : Visibility}
      (kind : word.kind = keyword .proc) (ident : t.kind = .ident)
      (named : name.text = t.text.text) (opens : left.kind = symbol .leftParen)
      (takes : ArgumentsPhrase us arguments) (closes : right.kind = symbol .rightParen)
      (typed : TypePhrase vs type) (seen : VisibilityPhrase ws visibility)
      (ends : semicolon.kind = symbol .semicolon) :
      ProcedurePhrase (word :: t :: left :: (us ++ right :: (vs ++ ws ++ [semicolon])))
        (.procedure
          { position := t.position
            name := name
            visibility := visibility
            returnType := type
            arguments := arguments })

/-- `name : do ;` -/
inductive HeaderPhrase : List Token → Position → Name → Prop
  | intro {t colon word semicolon : Token} {name : Name} (kind : t.kind = .ident)
      (named : name.text = t.text.text) (marks : colon.kind = symbol .colon)
      (opens : word.kind = keyword .do) (ends : semicolon.kind = symbol .semicolon) :
      HeaderPhrase [t, colon, word, semicolon] t.position name

/-- `end [name] ;`, where the name may be another one than that of the block. -/
inductive EndPhrase : List Token → BlockEnd → Prop
  | unnamed {word semicolon : Token} (kind : word.kind = keyword .end)
      (ends : semicolon.kind = symbol .semicolon) :
      EndPhrase [word, semicolon] ⟨word.position, none⟩
  | named {word t semicolon : Token} (kind : word.kind = keyword .end) (ident : t.kind = .ident)
      (ends : semicolon.kind = symbol .semicolon) :
      EndPhrase [word, t, semicolon] ⟨word.position, some t.text.text⟩

mutual

/-- A statement inside of `depth` blocks. -/
inductive StatementPhrase : Nat → List Token → Statement → Prop
  | declaration {depth : Nat} {us : List Token} {s : Statement} (inner : DeclarationPhrase us s) :
      StatementPhrase depth us s
  | procedure {depth : Nat} {us : List Token} {s : Statement} (inner : ProcedurePhrase us s) :
      StatementPhrase depth us s
  | block {depth : Nat} {us vs ws : List Token} {position : Position} {name : Name}
      {body : List Statement} {closing : BlockEnd} (shallow : depth < nestingLimit)
      (header : HeaderPhrase us position name) (inner : BodyPhrase (depth + 1) vs body)
      (footer : EndPhrase ws closing) :
      StatementPhrase depth (us ++ vs ++ ws) (.block position name body (some closing))

/-- The statements of a block or of a source, inside of `depth` blocks. -/
inductive BodyPhrase : Nat → List Token → List Statement → Prop
  | nil {depth : Nat} : BodyPhrase depth [] []
  | cons {depth : Nat} {us vs : List Token} {s : Statement} {ss : List Statement}
      (first : StatementPhrase depth us s) (others : BodyPhrase depth vs ss) :
      BodyPhrase depth (us ++ vs) (s :: ss)

end

/-! ## The first token of a phrase -/

theorem ArrayPhrase.front {us : List Token} {size : ArraySize} (h : ArrayPhrase us (some size)) :
    ∃ t ts, us = t :: ts ∧ t.kind = symbol .leftParen := by
  cases h with
  | unsized opens _ => exact ⟨_, _, rfl, opens⟩
  | sized opens _ _ => exact ⟨_, _, rfl, opens⟩

theorem ChainedPhrase.front {us : List Token} {d : Declarator} (h : ChainedPhrase us d) :
    ∃ t ts, us = t :: ts ∧ t.kind = symbol .comma := by
  cases h with
  | plain separates _ => exact ⟨_, _, rfl, separates⟩
  | repeated separates _ _ => exact ⟨_, _, rfl, separates⟩

theorem DeclarationPhrase.front {us : List Token} {s : Statement} (h : DeclarationPhrase us s) :
    ∃ t ts, us = t :: ts ∧ t.kind = keyword .decl := by
  cases h with
  | intro kind _ _ _ => exact ⟨_, _, rfl, kind⟩

theorem NextArgumentPhrase.front {us : List Token} {a : Argument} (h : NextArgumentPhrase us a) :
    ∃ t ts, us = t :: ts ∧ t.kind = symbol .comma := by
  cases h with
  | intro separates _ => exact ⟨_, _, rfl, separates⟩

theorem ProcedurePhrase.front {us : List Token} {s : Statement} (h : ProcedurePhrase us s) :
    ∃ t ts, us = t :: ts ∧ t.kind = keyword .proc := by
  cases h with
  | intro kind _ _ _ _ _ _ _ _ => exact ⟨_, _, rfl, kind⟩

theorem HeaderPhrase.front {us : List Token} {position : Position} {name : Name}
    (h : HeaderPhrase us position name) :
    ∃ t colon ts, us = t :: colon :: ts ∧ t.kind = .ident ∧ colon.kind = symbol .colon ∧
      position = t.position := by
  cases h with
  | intro kind _ marks _ _ => exact ⟨_, _, _, rfl, kind, marks, rfl⟩

theorem EndPhrase.front {us : List Token} {closing : BlockEnd} (h : EndPhrase us closing) :
    ∃ t ts, us = t :: ts ∧ t.kind = keyword .end := by
  cases h with
  | unnamed kind _ => exact ⟨_, _, rfl, kind⟩
  | named kind _ _ => exact ⟨_, _, rfl, kind⟩

/-! ## The inside of a statement -/

/-- None of the tokens ends a statement, starts or ends a block, is the end of the source or stands
for a fault. -/
def Parts (us : List Token) : Prop :=
  ∀ t ∈ us, t.kind ≠ .eof ∧ t.kind ≠ symbol .semicolon ∧ t.kind ≠ keyword .do ∧
    t.kind ≠ keyword .end ∧ t.kind ≠ .error

@[simp] theorem parts_nil : Parts [] := nofun

@[simp] theorem parts_cons {t : Token} {us : List Token} :
    Parts (t :: us) ↔ (t.kind ≠ .eof ∧ t.kind ≠ symbol .semicolon ∧ t.kind ≠ keyword .do ∧
      t.kind ≠ keyword .end ∧ t.kind ≠ .error) ∧ Parts us :=
  List.forall_mem_cons

@[simp] theorem parts_append {us vs : List Token} : Parts (us ++ vs) ↔ Parts us ∧ Parts vs :=
  List.forall_mem_append

theorem Many.parts {α : Type} {phrase : List Token → α → Prop} {us : List Token} {as : List α}
    (h : Many phrase us as) (hphrase : ∀ vs a, phrase vs a → Parts vs) : Parts us := by
  induction h with
  | nil => exact parts_nil
  | cons first _ ih => exact parts_append.mpr ⟨hphrase _ _ first, ih⟩

theorem ExpressionPhrase.parts {us : List Token} {e : Expression} (h : ExpressionPhrase us e) :
    Parts us := by
  cases h with
  | integer kind _ => simp [kind]
  | decimal kind _ => simp [kind]
  | identifier kind => simp [kind]

theorem TypePhrase.parts {us : List Token} {type : String} (h : TypePhrase us type) : Parts us := by
  cases h with
  | builtIn kind => simp [kind]
  | defined kind => simp [kind]

theorem ArrayPhrase.parts {us : List Token} {array : Option ArraySize} (h : ArrayPhrase us array) :
    Parts us := by
  cases h with
  | absent => exact parts_nil
  | unsized opens closes => simp [opens, closes]
  | sized opens inner closes => simp [opens, inner.parts, closes]

theorem ModifierPhrase.parts (us : List Token) (m : Modifier) (h : ModifierPhrase us m) :
    Parts us := by
  cases h with
  | typedef kind => simp [kind]
  | const kind => simp [kind]
  | «public» kind => simp [kind]
  | initial kind opens inner closes => simp [kind, opens, inner.parts, closes]

theorem DeclaratorPhrase.parts {us : List Token} {d : Declarator} (h : DeclaratorPhrase us d) :
    Parts us := by
  cases h with
  | intro kind _ bounds typed modified =>
      simp [kind, bounds.parts, typed.parts, modified.parts ModifierPhrase.parts]

theorem ChainedPhrase.parts (us : List Token) (d : Declarator) (h : ChainedPhrase us d) :
    Parts us := by
  cases h with
  | plain separates declares => simp [separates, declares.parts]
  | repeated separates kind declares => simp [separates, kind, declares.parts]

theorem ArgumentPhrase.parts {us : List Token} {a : Argument} (h : ArgumentPhrase us a) :
    Parts us := by
  cases h with
  | untyped kind _ => simp [kind]
  | typed kind _ typed => simp [kind, typed.parts]

theorem NextArgumentPhrase.parts (us : List Token) (a : Argument) (h : NextArgumentPhrase us a) :
    Parts us := by
  cases h with
  | intro separates inner => simp [separates, inner.parts]

theorem ArgumentsPhrase.parts {us : List Token} {as : List Argument} (h : ArgumentsPhrase us as) :
    Parts us := by
  cases h with
  | none => exact parts_nil
  | some head tail => simp [head.parts, tail.parts NextArgumentPhrase.parts]

theorem VisibilityPhrase.parts {us : List Token} {v : Visibility} (h : VisibilityPhrase us v) :
    Parts us := by
  cases h with
  | «private» => exact parts_nil
  | «public» kind => simp [kind]

/-- The parts of a statement and the semicolon at its end. -/
def PartsClause (us : List Token) : Prop :=
  ∃ parts semicolon, us = parts ++ [semicolon] ∧ semicolon.kind = symbol .semicolon ∧ Parts parts

theorem DeclarationPhrase.partsClause {us : List Token} {s : Statement}
    (h : DeclarationPhrase us s) :
    PartsClause us := by
  cases h with
  | @intro word semicolon us vs _ _ kind declares chains ends =>
      refine ⟨word :: (us ++ vs), semicolon, by simp, ends, ?_⟩
      simp [kind, declares.parts, chains.parts ChainedPhrase.parts]

theorem ProcedurePhrase.partsClause {us : List Token} {s : Statement} (h : ProcedurePhrase us s) :
    PartsClause us := by
  cases h with
  | @intro word t left right semicolon _ us vs ws _ _ _ kind ident _ opens takes closes typed seen
      ends =>
      refine ⟨word :: t :: left :: (us ++ right :: (vs ++ ws)), semicolon, by simp, ends, ?_⟩
      simp [kind, ident, opens, takes.parts, closes, typed.parts, seen.parts]

/-! ## Clauses -/

/-- Tokens that end with their only semicolon. -/
def IsClause (c : List Token) : Prop :=
  ∃ us semicolon, c = us ++ [semicolon] ∧ semicolon.kind = symbol .semicolon ∧
    ∀ t ∈ us, t.kind ≠ symbol .semicolon

theorem PartsClause.isClause {us : List Token} (h : PartsClause us) : IsClause us := by
  obtain ⟨parts, semicolon, rfl, ends, hparts⟩ := h
  exact ⟨parts, semicolon, rfl, ends, fun t ht => (hparts t ht).2.1⟩

theorem EndPhrase.isClause {us : List Token} {closing : BlockEnd} (h : EndPhrase us closing) :
    IsClause us := by
  cases h with
  | @unnamed word semicolon kind ends => exact ⟨[word], semicolon, rfl, ends, by simp [kind]⟩
  | @named word t semicolon kind ident ends =>
      exact ⟨[word, t], semicolon, rfl, ends, by simp [kind, ident]⟩

/-- The tokens do not stop in the middle of a statement. -/
def EndsClause (us : List Token) : Prop :=
  ∀ t ∈ us.getLast?, t.kind = symbol .semicolon

/-- What ends in a clause and has begun ends with it. -/
theorem IsClause.eq_nil_of_endsClause {us vs : List Token} (h : IsClause (us ++ vs)) (hne : us ≠ [])
    (hends : EndsClause us) : vs = [] := by
  obtain ⟨ts, semicolon, hsplit, -, hts⟩ := h
  obtain ⟨front, last, rfl⟩ := (List.eq_nil_or_concat us).resolve_left hne
  have hlast : last.kind = symbol .semicolon := hends last (by simp)
  have hnot : last ∉ ts := fun h => hts last h hlast
  rcases List.append_eq_append_iff.mp hsplit with ⟨more, rfl, -⟩ | ⟨more, hmore, hvs⟩
  · simp at hnot
  · rcases List.append_eq_singleton_iff.mp hvs.symm with ⟨rfl, -⟩ | ⟨-, rfl⟩
    · rw [List.append_nil] at hmore
      simp [← hmore] at hnot
    · rfl

/-! ## Phrases end before the source does -/

/-- None of the tokens is the end of the source. -/
def Solid (us : List Token) : Prop :=
  ∀ t ∈ us, t.kind ≠ .eof

@[simp] theorem solid_append {us vs : List Token} : Solid (us ++ vs) ↔ Solid us ∧ Solid vs :=
  List.forall_mem_append

theorem Solid.takeWhile_append {us : List Token} (h : Solid us) (vs : List Token) :
    (us ++ vs).takeWhile (·.kind ≠ .eof) = us ++ vs.takeWhile (·.kind ≠ .eof) :=
  List.takeWhile_append_of_pos fun t ht => decide_eq_true (h t ht)

/-- The tokens are solid, and none of them stands for a fault. -/
def Sound (us : List Token) : Prop :=
  ∀ t ∈ us, t.kind ≠ .eof ∧ t.kind ≠ .error

theorem Sound.solid {us : List Token} (h : Sound us) : Solid us :=
  fun t ht => (h t ht).1

@[simp] theorem sound_nil : Sound [] := nofun

@[simp] theorem sound_cons {t : Token} {us : List Token} :
    Sound (t :: us) ↔ (t.kind ≠ .eof ∧ t.kind ≠ .error) ∧ Sound us :=
  List.forall_mem_cons

@[simp] theorem sound_append {us vs : List Token} : Sound (us ++ vs) ↔ Sound us ∧ Sound vs :=
  List.forall_mem_append

theorem PartsClause.sound {us : List Token} (h : PartsClause us) : Sound us := by
  obtain ⟨parts, semicolon, rfl, ends, hparts⟩ := h
  have hsound : Sound parts := fun t ht => ⟨(hparts t ht).1, (hparts t ht).2.2.2.2⟩
  simp [hsound, ends]

theorem HeaderPhrase.sound {us : List Token} {position : Position} {name : Name}
    (h : HeaderPhrase us position name) : Sound us := by
  cases h with
  | intro kind _ marks opens ends => simp [kind, marks, opens, ends]

theorem EndPhrase.sound {us : List Token} {closing : BlockEnd} (h : EndPhrase us closing) :
    Sound us := by
  cases h with
  | unnamed kind ends => simp [kind, ends]
  | named kind ident ends => simp [kind, ident, ends]

mutual

theorem StatementPhrase.sound {depth : Nat} {us : List Token} {s : Statement}
    (h : StatementPhrase depth us s) : Sound us := by
  cases h with
  | declaration inner => exact inner.partsClause.sound
  | procedure inner => exact inner.partsClause.sound
  | block _ header inner footer => simp [header.sound, inner.sound, footer.sound]

/-- The tokens of statements are those that are written in a source. -/
theorem BodyPhrase.sound {depth : Nat} {us : List Token} {ss : List Statement}
    (h : BodyPhrase depth us ss) : Sound us := by
  cases h with
  | nil => exact sound_nil
  | cons first others => exact sound_append.mpr ⟨first.sound, others.sound⟩

end

theorem BodyPhrase.solid {depth : Nat} {us : List Token} {ss : List Statement}
    (h : BodyPhrase depth us ss) : Solid us :=
  h.sound.solid

end TickMachine
