import TickMachine.Log
import TickMachine.Policy
import TickMachine.Source.Lexeme
import TickMachine.Text.Quoted

/-! # Lexing

A source is cut into segments, each with the lexeme it holds and the place it starts at. Tokens,
errors and log events are views of the segments. Up to the first fault both policies cut alike;
there `abort` stops and answers with the fault, `recover` puts an error token in place of the
segment and goes on behind it.
-/

namespace TickMachine

/-- A mistake found while lexing. -/
structure LexError where
  cause : LexFault
  file : String
  position : Position
deriving DecidableEq, Repr

def LexError.message (e : LexError) : String :=
  s!"{e.file}:{e.position.text}: {e.cause.message}"

/-- A piece of a source with what it holds. -/
structure Segment where
  lexeme : Lexeme
  text : List Char
  position : Position
deriving DecidableEq, Repr

namespace Segment

/-- Cuts a text that starts at the given place. -/
def cut (policy : ErrorPolicy) (position : Position) : List Char → List Segment
  | [] => []
  | c :: cs =>
    let (lexeme, length) := Lexeme.take (c :: cs)
    let text := c :: cs.take (length - 1)
    let segment : Segment := ⟨lexeme, text, position⟩
    if lexeme.isFault ∧ policy = .abort then [segment]
    else segment :: cut policy (position.after text) (cs.drop (length - 1))
termination_by cs => cs.length
decreasing_by simp only [List.length_drop, List.length_cons]; omega

/-- Going on after mistakes, lexing leaves nothing of the text out. -/
theorem flatMap_text_cut (position : Position) (cs : List Char) :
    (cut .recover position cs).flatMap text = cs := by
  fun_induction cut .recover position cs with
  | case1 => rfl
  | case2 => simp_all
  | case3 position c cs lexeme length hlexeme text segment hstop ih =>
    rw [List.flatMap_cons, ih]
    exact congrArg (c :: ·) (List.take_append_drop (length - 1) cs)

/-- The token of a segment. A fault gives an error token with as much of the text as fits. -/
def token? (file : String) (s : Segment) : Option Token :=
  match s.lexeme with
  | .gap | .stray _ => none
  | .token kind text => some ⟨kind, text, file, s.position⟩
  | .fault _ => some ⟨.error, .ofPrefix s.text, file, s.position⟩

def error? (file : String) (s : Segment) : Option LexError :=
  match s.lexeme with
  | .fault cause => some ⟨cause, file, s.position⟩
  | _ => none

/-- What is logged about a segment. -/
def events (policy : ErrorPolicy) (file : String) (s : Segment) : List Event :=
  match s.lexeme with
  | .stray c =>
    [.warn s!"{file}:{s.position.text}: skipping unexpected character {Text.quotedChar c}"]
  | .fault cause =>
    if policy = .abort then []
    else
      let error : LexError := ⟨cause, file, s.position⟩
      [.warn s!"{error.message}, recovering"]
  | _ => []

end Segment

/-- The part of a source that is read: a NUL ends it. -/
def readable (source : String) : List Char :=
  source.toList.takeWhile (· ≠ '\x00')

/-- The segments of a source. -/
def segments (policy : ErrorPolicy) (source : String) : List Segment :=
  Segment.cut policy .start (readable source)

/-- The tokens of a source, the last of which is its end, and the mistakes lexing went on after. -/
structure Lexed where
  tokens : List Token
  errors : List LexError
deriving DecidableEq, Repr

/-- Lexes a source. `file` tags the tokens and errors. -/
def Lexed.ofSource (policy : ErrorPolicy) (source file : String) : Except LexError Lexed :=
  let found := segments policy source
  let errors := found.filterMap (Segment.error? file)
  let tokens := found.filterMap (Segment.token? file)
  match policy, errors with
  | .abort, error :: _ => .error error
  | _, _ => .ok ⟨tokens ++ [.eof file (Position.start.after (readable source))], errors⟩

/-- The tokens of a source without mistakes. -/
def Lexed.tokensOf (source file : String) : Except LexError (List Token) :=
  (ofSource .abort source file).map Lexed.tokens

/-- What is logged while lexing. -/
def Lexed.events (policy : ErrorPolicy) (source file : String) : List Event :=
  let steps := (segments policy source).flatMap (Segment.events policy file)
  match ofSource policy source file with
  | .error _ => steps
  | .ok lexed =>
    let summary := s!"{file}: lexed {lexed.tokens.length} tokens, {lexed.errors.length} errors"
    steps ++ [.debug summary]

end TickMachine
