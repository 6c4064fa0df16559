import TickMachine.Source.Completeness
import TickMachine.Source.Parsing
import TickMachine.Source.Tree
import TickMachine.Text.Lines
import TickMachine.Text.Padded
import TickMachine.Tool.Arguments
import TickMachine.Tool.Report

/-! # The interactive reader

`[--strict]`: reads lines and prints the tokens and the syntax tree of each input that is complete.
Lines are collected until they end on a statement boundary outside of all blocks; what is left at
the end is taken as it is.
-/

namespace TickMachine.Tool.Reader

def knownOptions : List KnownOption :=
  [{ name := "strict", takesValue := false }]

/-- Reads the arguments: `--strict` stops at the first mistake of an input. -/
def policy? (arguments : List String) : Option ErrorPolicy := do
  let given ← readArguments knownOptions {} arguments
  if given.positional.isEmpty then
    return if given.hasFlag "strict" then .abort else .recover
  else none

/-- Lines read so far of an input, and the number of the first of them. -/
structure Input where
  source : List Char
  firstLine : Nat
deriving DecidableEq, Repr

namespace Input

/-- No lines yet. -/
def empty : Input := ⟨[], 1⟩

/-- Adds the line with the given number. -/
def addLine (input : Input) (number : Nat) (line : List Char) : Input :=
  ⟨input.source ++ line ++ ['\n'], if input.source.isEmpty then number else input.firstLine⟩

/-- Starts over with the next line. -/
def clear (input : Input) : Input := { input with source := [] }

/-- The name of the input in messages. -/
def file (input : Input) : String := s!"stdin@{input.firstLine}"

def lexed (policy : ErrorPolicy) (input : Input) : Except LexError Lexed :=
  Lexed.ofSource policy (String.ofList input.source) input.file

/-- Whether no more lines are needed: the input is complete, or a mistake stops it. -/
def isFinished (policy : ErrorPolicy) (input : Input) : Bool :=
  match input.lexed policy with
  | .error _ => true
  | .ok lexed => atBoundary lexed.tokens

/-- Whether there is nothing in the input to be printed. -/
def isBlank (input : Input) : Bool :=
  input.source.all Text.isBlank

/-- What is logged when the input is lexed. -/
def lexReport (policy : ErrorPolicy) (input : Input) : Report :=
  .log (Lexed.events policy (String.ofList input.source) input.file)

end Input

/-- A token in the table of tokens. -/
def tokenLine (t : Token) : String :=
  let line := Text.padLeft 4 (toString t.position.line)
  let column := Text.padRight 3 (toString t.position.column)
  s!"{line}:{column} {Text.padRight 12 t.kind.name} {t.text.text}\n"

/-- The table of tokens, with the mistakes as warnings. -/
def tokenReport (lexed : Lexed) : Report where
  output := String.join ((lexed.tokens.filter (·.kind ≠ .eof)).map tokenLine)
  events := lexed.errors.map fun e => .warn e.message

/-- The syntax tree, with the diagnostics as warnings. -/
def treeReport (policy : ErrorPolicy) (tokens : List Token) : Report :=
  match Parsed.ofTokens policy tokens with
  | .ok parsed =>
    { output := String.join (parsed.program.outline.map (· ++ "\n"))
      events := parsed.diagnostics.map fun d => .warn d.message }
  | .error d => .log [.error d.message]

/-- Prints an input. -/
def Input.print (policy : ErrorPolicy) (input : Input) : Report :=
  input.lexReport policy ++
    match input.lexed policy with
    | .error e => .log [.error e.message]
    | .ok lexed =>
      tokenReport lexed ++ .log (Parsed.events policy lexed.tokens) ++
        treeReport policy lexed.tokens

/-- Reads one line and prints the input if it is finished. -/
def feed (policy : ErrorPolicy) (input : Input) (number : Nat) (line : List Char) :
    Report × Input :=
  let input := input.addLine number line
  if input.isFinished policy then (input.print policy, input.clear)
  else (input.lexReport policy, input)

/-- Prints what is left at the end of the lines, unless it is blank. -/
def finish (policy : ErrorPolicy) (input : Input) : Report :=
  if input.isBlank then {} else input.print policy

/-- Ends the reading at a line that is no text. -/
def giveUp (policy : ErrorPolicy) (input : Input) : Report :=
  .log [.error "Failed to read input: stream did not contain valid UTF-8"] ++ finish policy input

/-- The characters of a line of bytes. -/
def lineText? (line : List UInt8) : Option (List Char) :=
  (String.fromUTF8? ⟨line.toArray⟩).map String.toList

/-- Reads lines from the one with the given number on. A line that is no text ends the reading. -/
def readLines (policy : ErrorPolicy) (input : Input) (number : Nat) :
    List (List UInt8) → Report
  | [] => finish policy input
  | line :: rest =>
    match lineText? line with
    | none => giveUp policy input
    | some text =>
      let (report, input) := feed policy input number text
      report ++ readLines policy input (number + 1) rest

/-- Runs the tool on the bytes of its input. -/
def run (arguments : List String) (bytes : List UInt8) : Outcome :=
  match policy? arguments with
  | none => .usage
  | some policy => .success (readLines policy .empty 1 (Text.lines 0x0a 0x0d bytes))

end TickMachine.Tool.Reader
