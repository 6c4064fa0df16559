import TickMachine.Source.Token

/-! # Complete inputs

Whether tokens end on a statement boundary outside of all blocks, so that an interactive reader
need not wait for more lines. Blocks are counted by their headers and ends only.
-/

namespace TickMachine

/-- The number of places where a block header starts. -/
def openings : List Token → Nat
  | a :: b :: c :: rest =>
    let header := a.kind = .ident ∧ b.kind = .symbol .colon ∧ c.kind = .keyword .do
    (if header then 1 else 0) + openings (b :: c :: rest)
  | _ => 0

/-- The number of block ends. -/
def closings (tokens : List Token) : Nat :=
  tokens.countP (·.kind = .keyword .end)

/-- Whether every opened block was closed and the last token ends a statement. Text that is no
token ends a statement too. -/
def atBoundary (tokens : List Token) : Bool :=
  match (tokens.filter (·.kind ≠ .eof)).getLast? with
  | none => true
  | some t =>
    openings tokens ≤ closings tokens && (t.kind = .symbol .semicolon || t.kind = .error)

end TickMachine
