import TickMachine.Source.Diagnostic

/-! # Reading from a list of tokens

A parser looks at the tokens that are left, takes some of them and answers with a value or a
diagnostic. Either way the tokens it leaves are a suffix of those it was given, which the type of
its answer says. An end of source among the tokens is seen but never taken; where the tokens run
out without one, a parser sees a token for the end that is given apart.
-/

namespace TickMachine

/-- The answer of a parser on the given tokens. -/
structure Reading (α : Type) (tokens : List Token) where
  result : Except Diagnostic α
  rest : List Token
  suffix : rest <:+ tokens

/-- A parser, given a token for the end of the source and the tokens that are left. -/
def Parser (α : Type) : Type :=
  Token → (tokens : List Token) → Reading α tokens

namespace Parser

variable {α β : Type}

/-- Takes no token. -/
protected def pure (a : α) : Parser α := fun _ tokens =>
  ⟨.ok a, tokens, List.suffix_refl tokens⟩

/-- Reads on with the tokens that are left, unless a diagnostic was the answer. -/
protected def bind (p : Parser α) (f : α → Parser β) : Parser β := fun eof tokens =>
  match p eof tokens with
  | ⟨.ok a, rest, h⟩ =>
    let next := f a eof rest
    ⟨next.result, next.rest, next.suffix.trans h⟩
  | ⟨.error d, rest, h⟩ => ⟨.error d, rest, h⟩

instance : Monad Parser where
  pure := Parser.pure
  bind := Parser.bind

/-- Answers with a diagnostic and takes no token. -/
def fail (d : Diagnostic) : Parser α := fun _ tokens =>
  ⟨.error d, tokens, List.suffix_refl tokens⟩

/-- The token in front. -/
def current : Parser Token := fun eof tokens =>
  ⟨.ok (tokens.head?.getD eof), tokens, List.suffix_refl tokens⟩

/-- Takes the token in front, unless it is the end of the source. -/
def advance : Parser Unit := fun _ tokens =>
  match tokens with
  | [] => ⟨.ok (), [], List.suffix_refl []⟩
  | t :: ts =>
    if t.kind = .eof then ⟨.ok (), t :: ts, List.suffix_refl _⟩
    else ⟨.ok (), ts, List.suffix_cons t ts⟩

/-- Complains about the token in front. -/
def unexpected (expected : Expectation) : Parser α := do
  fail (.unexpected expected (← current))

/-- Takes the token in front if it is of the given kind. -/
def accept (kind : TokenKind) : Parser (Option Token) := do
  let t ← current
  if t.kind = kind then
    advance
    return some t
  else return none

/-- Takes the token in front, which has to be of the given kind. -/
def expectAs (kind : TokenKind) (expected : Expectation) : Parser Token := do
  match ← accept kind with
  | some t => return t
  | none => unexpected expected

/-- Takes the token in front, which has to be of the given kind and is asked for by its name. -/
def expect (kind : TokenKind) : Parser Token :=
  expectAs kind (.token kind)

/-- Reads items as long as the kind of the token in front starts one. -/
def many (item : TokenKind → Option (Parser α)) : Parser (List α) := fun eof tokens =>
  match tokens with
  | [] => ⟨.ok [], [], List.suffix_refl []⟩
  | t :: ts =>
    match item t.kind with
    | none => ⟨.ok [], t :: ts, List.suffix_refl _⟩
    | some p =>
      match p eof ts with
      | ⟨.error d, rest, h⟩ => ⟨.error d, rest, h.trans (List.suffix_cons t ts)⟩
      | ⟨.ok a, rest, h⟩ =>
        have : rest.length < ts.length + 1 := Nat.lt_succ_of_le h.length_le
        let others := many item eof rest
        ⟨others.result.map (a :: ·), others.rest,
          (others.suffix.trans h).trans (List.suffix_cons t ts)⟩
termination_by _ tokens => tokens.length

end Parser

end TickMachine
