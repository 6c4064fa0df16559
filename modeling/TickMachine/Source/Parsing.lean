import TickMachine.Source.Lexing
import TickMachine.Source.Phrase

/-! # Parsing

A source is parsed statement by statement. Open blocks are kept on a stack of frames, so nesting
costs no recursion and its depth is the height of the stack. After a mistake `recover` notes it and
reads on behind the next semicolon; `abort` answers with the first one. A block whose end is
spoiled is closed without one.
-/

namespace TickMachine

/-- Drops the tokens up to and with the next semicolon, but no end of source. -/
def skipStatement : List Token → List Token
  | [] => []
  | t :: ts =>
    if t.kind = .eof then t :: ts
    else if t.kind = .symbol .semicolon then ts
    else skipStatement ts

theorem skipStatement_suffix (tokens : List Token) : skipStatement tokens <:+ tokens := by
  induction tokens with
  | nil => exact List.suffix_refl []
  | cons t ts ih =>
    unfold skipStatement
    split
    · exact List.suffix_refl _
    · split
      · exact List.suffix_cons t ts
      · exact ih.trans (List.suffix_cons t ts)

theorem length_skipStatement_le (tokens : List Token) :
    (skipStatement tokens).length ≤ tokens.length :=
  (skipStatement_suffix tokens).length_le

theorem length_skipStatement_cons_lt {t : Token} (ts : List Token) (ht : t.kind ≠ .eof) :
    (skipStatement (t :: ts)).length < ts.length + 1 := by
  unfold skipStatement
  rw [if_neg ht]
  split
  · exact Nat.lt_succ_self _
  · exact Nat.lt_succ_of_le (length_skipStatement_le ts)

/-- A block whose end is still to come, with the statements in front of it in the enclosing block,
latest first. -/
structure Frame where
  position : Position
  name : Name
  before : List Statement

namespace Frame

/-- Closes a block with the given statements, latest first, and puts it behind those before it. -/
def close (f : Frame) (body : List Statement) (closing : Option BlockEnd) : List Statement :=
  .block f.position f.name body.reverse closing :: f.before

/-- The warning about an end with another name than that of the block. -/
def mismatch? (f : Frame) (t? : Option Token) : Option Diagnostic :=
  match t? with
  | some t =>
    if t.text.text = f.name.text then none
    else some (.warning (.nameMismatch f.name.text t.text.text) t)
  | none => none

end Frame

/-- What stands inside of a block or outside of all blocks, apart from the end of a block. -/
inductive Item
  | statement (s : Statement)
  | opening (position : Position) (name : Name)

/-- What was read of a list of tokens that starts a statement, and where to read on. After a
mistake that is behind the next semicolon. -/
structure Step (tokens : List Token) where
  result : Except Diagnostic Item
  rest : List Token
  shorter : rest.length < tokens.length

namespace Step

/-- Makes a step of what was read behind the first token. -/
def ofReading {α : Type} {t : Token} {ts : List Token} (make : α → Item) (r : Reading α ts) :
    Step (t :: ts) :=
  have h := r.suffix.length_le
  match r.result with
  | .ok a => ⟨.ok (make a), r.rest, Nat.lt_succ_of_le h⟩
  | .error d =>
    have h := Nat.le_trans (length_skipStatement_le r.rest) h
    ⟨.error d, skipStatement r.rest, Nat.lt_succ_of_le h⟩

/-- Skips a statement whose first token is wrong already. -/
def skip {t : Token} {ts : List Token} (ht : t.kind ≠ .eof) (d : Diagnostic) : Step (t :: ts) :=
  ⟨.error d, skipStatement (t :: ts), length_skipStatement_cons_lt ts ht⟩

end Step

/-- Reads a statement or a block header inside of `depth` blocks. -/
def readItem (depth : Nat) (eof t : Token) (ts : List Token) (ht : t.kind ≠ .eof) :
    Step (t :: ts) :=
  match t.kind with
  | .keyword .decl => .ofReading .statement (Parser.declaration eof ts)
  | .keyword .proc => .ofReading .statement (Parser.procedure eof ts)
  | .ident =>
    if (ts.head?.getD eof).kind = .symbol .colon then
      if nestingLimit ≤ depth then .skip ht (.ofToken .nestingTooDeep t)
      else .ofReading (.opening t.position) (Parser.blockHeader t eof ts)
    else .skip ht (.unexpected .statement t)
  | _ => .skip ht (.unexpected .statement t)

/-- A run of the parser: the diagnostics it noted on the way, and the program or the mistake it
stopped at. -/
structure Parse where
  noted : List Diagnostic
  result : Except Diagnostic Program

namespace Parse

/-- Puts a diagnostic in front of those noted later. -/
def note (d : Diagnostic) (p : Parse) : Parse :=
  { p with noted := d :: p.noted }

/-- Stops at the end of the source, for which the given token stands. Blocks that are still open
lack their ends. -/
def finish (policy : ErrorPolicy) (eof : Token) : List Frame → List Statement → Parse
  | [], done => ⟨[], .ok done.reverse⟩
  | f :: fs, done =>
    let missing := Diagnostic.unexpected (.token (.keyword .end)) eof
    match policy with
    | .abort => ⟨[], .error missing⟩
    | .recover => note missing (finish policy eof fs (f.close done none))

/-- Reads the tokens that are left. `frames` are the open blocks, innermost first, and `done` the
statements read so far in the innermost one, latest first. -/
def run (policy : ErrorPolicy) (eof : Token) (frames : List Frame) (done : List Statement) :
    List Token → Parse
  | [] => finish policy eof frames done
  | t :: ts =>
    if ht : t.kind = .eof then finish policy t frames done
    else
      match t.kind, frames with
      | .keyword .end, f :: fs =>
        match Parser.blockEnd eof ts with
        | ⟨.ok name?, rest, h⟩ =>
          have := h.length_le
          let closing : BlockEnd := ⟨t.position, name?.map (·.text.text)⟩
          let others := run policy eof fs (f.close done (some closing)) rest
          match f.mismatch? name? with
          | some warning => note warning others
          | none => others
        | ⟨.error d, rest, h⟩ =>
          have := Nat.le_trans (length_skipStatement_le rest) h.length_le
          match policy with
          | .abort => ⟨[], .error d⟩
          | .recover => note d (run policy eof fs (f.close done none) (skipStatement rest))
      | _, frames =>
        match readItem frames.length eof t ts ht with
        | ⟨.ok (.statement s), rest, h⟩ =>
          have : rest.length < ts.length + 1 := h
          run policy eof frames (s :: done) rest
        | ⟨.ok (.opening position name), rest, h⟩ =>
          have : rest.length < ts.length + 1 := h
          run policy eof (⟨position, name, done⟩ :: frames) [] rest
        | ⟨.error d, rest, h⟩ =>
          have : rest.length < ts.length + 1 := h
          match policy with
          | .abort => ⟨[], .error d⟩
          | .recover => note d (run policy eof frames done rest)
termination_by tokens => tokens.length

end Parse

/-- The token a parser sees when the tokens run out: the last one if it is the end of the source,
else one right behind it. -/
def endToken (tokens : List Token) : Token :=
  match tokens.getLast? with
  | some t =>
    let width := UInt32.ofNat t.text.text.utf8ByteSize
    if t.kind = .eof then t
    else .eof t.file ⟨t.position.line, t.position.column + width⟩
  | none => .eof "" .start

/-- Runs the parser on tokens. Nothing from the first end of source on is read. -/
def Parse.ofTokens (policy : ErrorPolicy) (tokens : List Token) : Parse :=
  Parse.run policy (endToken tokens) [] [] tokens

/-- What is logged when a mistake is noted. -/
def Diagnostic.event (d : Diagnostic) : Event :=
  match d.severity with
  | .warning => .warn d.message
  | .error => .warn s!"{d.message}, skipping to next statement"

/-- A program and the diagnostics about its source. -/
structure Parsed where
  program : Program
  diagnostics : List Diagnostic

namespace Parsed

/-- Parses tokens by the given policy. With `recover` there is always a program. -/
def ofTokens (policy : ErrorPolicy) (tokens : List Token) : Except Diagnostic Parsed :=
  let run := Parse.ofTokens policy tokens
  run.result.map fun program => ⟨program, run.noted⟩

/-- Parses tokens, skipping the statements with mistakes. -/
def recovered (tokens : List Token) : Parsed :=
  let run := Parse.ofTokens .recover tokens
  match run.result with
  | .ok program => ⟨program, run.noted⟩
  | .error d => ⟨[], run.noted ++ [d]⟩

/-- What is logged while parsing. -/
def events (policy : ErrorPolicy) (tokens : List Token) : List Event :=
  let run := Parse.ofTokens policy tokens
  let notes := run.noted.map Diagnostic.event
  match run.result with
  | .error _ => notes
  | .ok program =>
    let summary :=
      s!"parsed {program.length} top level statements, {run.noted.length} diagnostics"
    notes ++ [.debug summary]

end Parsed

/-- The program of tokens without mistakes other than wrong names behind `end`. -/
def Program.ofTokens (tokens : List Token) : Except Diagnostic Program :=
  (Parsed.ofTokens .abort tokens).map Parsed.program

/-- The program of a source without mistakes; a mistake of either stage is the answer. -/
def Program.ofSource (source file : String) : Except (LexError ⊕ Diagnostic) Program := do
  let tokens ← (Lexed.tokensOf source file).mapError .inl
  (Program.ofTokens tokens).mapError .inr

/-- What is logged while a source is lexed and parsed. -/
def Program.sourceEvents (source file : String) : List Event :=
  let parsing := match Lexed.tokensOf source file with
    | .error _ => []
    | .ok tokens => Parsed.events .abort tokens
  Lexed.events .abort source file ++ parsing

end TickMachine
