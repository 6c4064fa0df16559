import TickMachine.Proofs.Source.Balance
import TickMachine.Proofs.Source.Breaks
import TickMachine.Proofs.Source.Policies
import TickMachine.Proofs.Text.Encoded
import TickMachine.Tool.Reader

/-! # Reading a program line by line

The interactive reader cuts a source into inputs at the ends of lines. A program of which no string
and no block comment goes over a line end is cut between its statements only, so what is read of the
inputs, and printed of them, is the program.
-/

namespace TickMachine

/-! ## Levels of what is logged -/

/-- Lexing logs no errors: characters and faults that are skipped are warned of. -/
theorem Lexed.level_of_mem_events {policy : ErrorPolicy} {source file : String} {e : Event}
    (h : e ∈ Lexed.events policy source file) : e.level ≠ .error := by
  have hsteps : ∀ e ∈ (segments policy source).flatMap (Segment.events policy file),
      e.level ≠ .error := by
    intro e he
    obtain ⟨s, -, he⟩ := List.mem_flatMap.mp he
    unfold Segment.events at he
    split at he
    next =>
      rw [List.mem_singleton.mp he]
      exact nofun
    next =>
      split at he
      · cases he
      · rw [List.mem_singleton.mp he]
        exact nofun
    next => cases he
  unfold Lexed.events at h
  split at h
  next => exact hsteps e h
  next =>
    rcases List.mem_append.mp h with h | h
    · exact hsteps e h
    · rw [List.mem_singleton.mp h]
      exact nofun

theorem Diagnostic.level_event (d : Diagnostic) : d.event.level = .warn := by
  unfold Diagnostic.event
  split <;> rfl

/-- Parsing logs no errors: what is noted is warned of, whatever its severity. -/
theorem Parsed.level_of_mem_events {policy : ErrorPolicy} {tokens : List Token} {e : Event}
    (h : e ∈ Parsed.events policy tokens) : e.level ≠ .error := by
  have hnotes {noted : List Diagnostic} {e : Event} (he : e ∈ noted.map Diagnostic.event) :
      e.level ≠ .error := by
    obtain ⟨d, -, rfl⟩ := List.mem_map.mp he
    rw [d.level_event]
    exact nofun
  unfold Parsed.events at h
  dsimp only at h
  split at h
  next => exact hnotes h
  next =>
    rcases List.mem_append.mp h with h | h
    · exact hnotes h
    · rw [List.mem_singleton.mp h]
      exact nofun

end TickMachine

namespace TickMachine.Tool.Reader

open Text (encoded lines_encoded textLines)

/-! ## Inputs line by line -/

namespace Input

/-- The input that the next line is added to: a finished one starts over. -/
def kept (policy : ErrorPolicy) (input : Input) : Input :=
  if input.isFinished policy then input.clear else input

theorem kept_of_finished {policy : ErrorPolicy} {input : Input}
    (h : input.isFinished policy = true) : input.kept policy = input.clear := by
  rw [kept, h, if_pos rfl]

theorem kept_of_unfinished {policy : ErrorPolicy} {input : Input}
    (h : input.isFinished policy = false) : input.kept policy = input := by
  rw [kept, h, if_neg Bool.false_ne_true]

/-- What is reported about an input when a line was added. -/
def report (policy : ErrorPolicy) (input : Input) : Report :=
  if input.isFinished policy then input.print policy else input.lexReport policy

/-- What an input is parsed to when it is printed. -/
def parsed? (policy : ErrorPolicy) (input : Input) : Option Parsed :=
  match input.lexed policy with
  | .error _ => none
  | .ok lexed => (Parsed.ofTokens policy lexed.tokens).toOption

/-- What is printed of an input with the given tokens and tree, and logged beside it: the table of
the tokens and the outline of the tree, behind what is logged of lexing and of parsing. -/
def printed (policy : ErrorPolicy) (input : Input) (tokens : List Token) (parsed : Parsed) :
    Report where
  output := String.join ((tokens.filter (·.kind ≠ .eof)).map tokenLine) ++
    String.join (parsed.program.outline.map (· ++ "\n"))
  events := Lexed.events policy (String.ofList input.source) input.file ++
    (Parsed.events policy tokens ++ parsed.diagnostics.map fun d => .warn d.message)

/-- The input is lexed without a fault and parsed without an error, and what it is parsed to is
printed. -/
structure Prints (policy : ErrorPolicy) (input : Input) (parsed : Parsed) : Prop where
  parsed_eq : input.parsed? policy = some parsed
  printed : ∃ tokens, input.lexed policy = .ok ⟨tokens, []⟩ ∧
    input.print policy = input.printed policy tokens parsed
  severity : ∀ d ∈ parsed.diagnostics, d.severity ≠ .error

/-- The statements of an input, at their places among all lines. -/
def statements (policy : ErrorPolicy) (input : Input) : List Statement :=
  match input.parsed? policy with
  | none => []
  | some parsed => parsed.program.map (Statement.down (UInt32.ofNat (input.firstLine - 1)))

end Input

/-- The inputs as they are behind each of the lines. -/
def inputs (policy : ErrorPolicy) (input : Input) (number : Nat) : List (List Char) → List Input
  | [] => []
  | line :: rest =>
    let next := input.addLine number line
    next :: inputs policy (next.kept policy) (number + 1) rest

/-- The input that is left behind the last line. -/
def left (policy : ErrorPolicy) (input : Input) (number : Nat) : List (List Char) → Input
  | [] => input
  | line :: rest => left policy ((input.addLine number line).kept policy) (number + 1) rest

theorem lineText?_encoded (line : List Char) : lineText? (encoded line) = some line := by
  unfold lineText?
  rw [Text.fromUTF8?_encoded, Option.map_some, String.toList_ofList]

/-- The reader reports about one input after the other, and then about what is left. -/
theorem readLines_encoded (policy : ErrorPolicy) (input : Input) (number : Nat)
    (lines : List (List Char)) : readLines policy input number (lines.map encoded) =
      ((inputs policy input number lines).map (Input.report policy)).foldr (· ++ ·)
        (finish policy (left policy input number lines)) := by
  induction lines generalizing input number with
  | nil => rfl
  | cons line rest ih =>
      have hfeed : feed policy input number line = ((input.addLine number line).report policy,
          (input.addLine number line).kept policy) := by
        unfold feed Input.report Input.kept
        dsimp only
        split <;> rfl
      rw [List.map_cons, readLines, lineText?_encoded]
      dsimp only
      rw [hfeed, ih]
      rfl

/-- What is reported about inputs, one behind the other. -/
def reports (policy : ErrorPolicy) (all : List Input) : Report :=
  (all.map (Input.report policy)).foldr (· ++ ·) {}

theorem reports_cons (policy : ErrorPolicy) (input : Input) (rest : List Input) :
    reports policy (input :: rest) = input.report policy ++ reports policy rest := rfl

/-- The output comes from the inputs that are printed. -/
theorem output_reports (policy : ErrorPolicy) (all : List Input) :
    (reports policy all).output =
      String.join ((all.filter (Input.isFinished policy)).map
        fun input => (input.print policy).output) := by
  induction all with
  | nil => rfl
  | cons input rest ih =>
      rw [reports_cons, Report.output_append, ih, Input.report]
      cases hfinished : input.isFinished policy with
      | true => rw [List.filter_cons_of_pos hfinished, if_pos rfl, List.map_cons, String.join_cons]
      | false =>
          rw [List.filter_cons_of_neg (by simp [hfinished]), if_neg Bool.false_ne_true]
          exact String.empty_append

theorem mem_events_reports {policy : ErrorPolicy} {all : List Input} {e : Event} :
    e ∈ (reports policy all).events ↔ ∃ input ∈ all, e ∈ (input.report policy).events := by
  induction all with
  | nil => simp [reports]
  | cons input rest ih => simp [reports_cons, ih]

/-! ## One input -/

/-- An input that is lexed without a fault and parsed is printed as it is parsed. -/
theorem Input.print_eq_printed {policy : ErrorPolicy} {input : Input} {tokens : List Token}
    {parsed : Parsed} (hlexed : input.lexed policy = .ok ⟨tokens, []⟩)
    (hparsed : Parsed.ofTokens policy tokens = .ok parsed) :
    input.print policy = input.printed policy tokens parsed := by
  rw [Input.print, hlexed]
  dsimp only
  rw [treeReport, hparsed]
  change Report.mk _ _ = Report.mk _ _
  congr 1
  exact String.empty_append.trans (congrArg (· ++ _) String.append_empty)

theorem Input.level_of_mem_printed {policy : ErrorPolicy} {input : Input} {tokens : List Token}
    {parsed : Parsed} {e : Event} (h : e ∈ (input.printed policy tokens parsed).events) :
    e.level ≠ .error := by
  rcases List.mem_append.mp h with h | h
  · exact Lexed.level_of_mem_events h
  · rcases List.mem_append.mp h with h | h
    · exact Parsed.level_of_mem_events h
    · obtain ⟨d, -, rfl⟩ := List.mem_map.mp h
      exact nofun

/-- The input holds the given lines, which stand behind the given number of others. -/
structure Input.Holds (input : Input) (above : Nat) (held : List (List Char)) : Prop where
  source : input.source = held.flatMap (· ++ ['\n'])
  firstLine : held ≠ [] → input.firstLine = above + 1

namespace Input.Holds

variable {policy : ErrorPolicy} {input : Input} {above : Nat} {held : List (List Char)}
  {file : String} {us vs : List Token} {program : Program}

/-- An input that holds nothing may start anywhere. -/
theorem start (h : input.source = []) (above : Nat) : input.Holds above [] :=
  ⟨h, fun hne => absurd rfl hne⟩

theorem addLine (h : input.Holds above held) (line : List Char) :
    (input.addLine (above + held.length + 1) line).Holds above (held ++ [line]) where
  source := by simp [Input.addLine, h.source]
  firstLine _ := by
    unfold Input.addLine
    rw [h.source]
    cases held with
    | nil => rfl
    | cons first others =>
        have hne : ((first :: others).flatMap (· ++ ['\n'])).isEmpty = false := by simp
        rw [hne]
        exact h.firstLine (List.cons_ne_nil first others)

/-- The tokens of an input are those of its lines, as many lines further up. -/
theorem lexed (h : input.Holds above held)
    (hlexes : LexesLines file (1 + UInt32.ofNat above) held us) (policy : ErrorPolicy) :
    ∃ eof : Token, eof.kind = .eof ∧ input.lexed policy =
      .ok ⟨us.map (Token.moved input.file (-UInt32.ofNat above)) ++ [eof], []⟩ := by
  have hmoved := hlexes.moved input.file (-UInt32.ofNat above)
  rw [← UInt32.sub_eq_add_neg, UInt32.add_sub_cancel] at hmoved
  have hreadable := hmoved.readable_joined
  have hlexed : Lexes input.file .start (readable (String.ofList input.source))
      (us.map (Token.moved input.file (-UInt32.ofNat above))) := by
    rw [h.source, hreadable]
    exact hmoved.joined
  exact ⟨_, rfl, hlexed.ofSource policy⟩

/-- An input of whole statements is finished. -/
theorem isFinished_of_body (h : input.Holds above held)
    (hlexes : LexesLines file (1 + UInt32.ofNat above) held us) (hbody : BodyPhrase 0 us program) :
    input.isFinished policy = true := by
  obtain ⟨eof, heof, hlexed⟩ := h.lexed hlexes policy
  unfold Input.isFinished
  rw [hlexed]
  exact ((atBoundary_concat _ heof).trans atBoundary_moved).trans hbody.atBoundary

/-- A finished input in front of other tokens holds some of the statements. -/
theorem exists_statements (h : input.Holds above held) (hne : held ≠ [])
    (hlexes : LexesLines file (1 + UInt32.ofNat above) held us)
    (hbody : BodyPhrase 0 (us ++ vs) program) (hfinished : input.isFinished policy = true) :
    ∃ back, program = input.statements policy ++ back ∧ BodyPhrase 0 vs back ∧
      ∃ parsed, input.Prints policy parsed := by
  obtain ⟨eof, heof, hlexed⟩ := h.lexed hlexes policy
  have hboundary : atBoundary us = true := by
    unfold Input.isFinished at hfinished
    rw [hlexed] at hfinished
    rwa [← atBoundary_moved, ← atBoundary_concat _ heof]
  obtain ⟨front, back, rfl, hfront, hback⟩ := hbody.split_of_atBoundary hboundary
  have hmoved := hfront.moved input.file (-UInt32.ofNat above)
  have haccepted :
      Program.ofTokens (us.map (Token.moved input.file (-UInt32.ofNat above)) ++ [eof]) =
        .ok (front.map (Statement.down (-UInt32.ofNat above))) := by
    rw [Program.ofTokens_eq_result]
    exact Parse.Accepts.of_program (endToken_kind _) hmoved heof
  obtain ⟨parsed, hparsed, hprogram, hnone⟩ := Parsed.exists_of_accepted haccepted policy
  have hparsed? : input.parsed? policy = some parsed := by
    unfold Input.parsed?
    rw [hlexed]
    dsimp only
    rw [hparsed]
    rfl
  refine ⟨back, ?_, hback, parsed, hparsed?, ⟨_, hlexed, print_eq_printed hlexed hparsed⟩, hnone⟩
  have hstatements : input.statements policy = front := by
    unfold Input.statements
    rw [hparsed?, h.firstLine hne, Nat.add_sub_cancel]
    dsimp only
    rw [hprogram]
    exact hfront.map_down_neg (fun t ht => (hlexes.isWritten t ht).2) _
  rw [hstatements]

end Input.Holds

/-! ## All inputs -/

/-- The lines from the one with the given number on give the statements, neither more nor fewer,
when they are added to the input. -/
structure Covers (policy : ErrorPolicy) (input : Input) (number : Nat) (lines : List (List Char))
    (program : Program) : Prop where
  /-- Nothing is left. -/
  left : (left policy input number lines).source = []
  /-- Whatever is lexed is lexed without a fault. -/
  lexed : ∀ next ∈ inputs policy input number lines,
    ∃ lexed, next.lexed policy = .ok lexed ∧ lexed.errors = []
  /-- Whatever is printed is parsed without an error, and printed as it is parsed. -/
  printed : ∀ next ∈ inputs policy input number lines, next.isFinished policy = true →
    ∃ parsed, next.Prints policy parsed
  program : program = ((inputs policy input number lines).filter (Input.isFinished policy)).flatMap
    (Input.statements policy)

namespace Covers

variable {policy : ErrorPolicy} {input : Input} {number : Nat} {line : List Char}
  {rest : List (List Char)} {front back : List Statement}

/-- A line, and the lines behind it: if it finishes the input, the statements of the input come
first. -/
theorem cons (hlexed : ∃ lexed, (input.addLine number line).lexed policy = .ok lexed ∧
      lexed.errors = [])
    (hprints : (input.addLine number line).isFinished policy = true →
      ∃ parsed, (input.addLine number line).Prints policy parsed)
    (h : Covers policy ((input.addLine number line).kept policy) (number + 1) rest back) :
    Covers policy input number (line :: rest)
      (if (input.addLine number line).isFinished policy then
        (input.addLine number line).statements policy ++ back
      else back) where
  left := h.left
  lexed := List.forall_mem_cons.mpr ⟨hlexed, h.lexed⟩
  printed := List.forall_mem_cons.mpr ⟨hprints, h.printed⟩
  program := by
    rw [inputs, List.filter_cons, h.program]
    split <;> rfl

/-- The lines of a body are covered, whichever of them are held already, unless these would have
been finished. -/
theorem of_lexesLines {file : String} {tokens : List Token} {above : Nat} {held : List (List Char)}
    {program : Program} (hholds : input.Holds above held)
    (hunfinished : held ≠ [] → input.isFinished policy = false)
    (hlexes : LexesLines file (1 + UInt32.ofNat above) (held ++ rest) tokens)
    (hbody : BodyPhrase 0 tokens program) :
    Covers policy input (above + held.length + 1) rest program := by
  induction rest generalizing input above held tokens program with
  | nil =>
      rw [List.append_nil] at hlexes
      have hnone : held = [] := by
        by_contra hne
        rw [hholds.isFinished_of_body hlexes hbody] at hunfinished
        cases hunfinished hne
      subst hnone
      cases hlexes
      cases hbody.unique .nil
      exact ⟨hholds.source, nofun, nofun, rfl⟩
  | cons line rest ih =>
      have hnext := hholds.addLine line
      have hsplit : held ++ line :: rest = (held ++ [line]) ++ rest := by simp
      rw [hsplit] at hlexes
      obtain ⟨us, vs, rfl, hus, hvs⟩ := hlexes.split
      obtain ⟨eof, -, hlexed⟩ := hnext.lexed hus policy
      cases hfinished : (input.addLine (above + held.length + 1) line).isFinished policy with
      | false =>
          have hothers := ih hnext (fun _ => hfinished) hlexes hbody
          rw [List.length_append, List.length_singleton, ← Nat.add_assoc,
            ← Input.kept_of_unfinished hfinished] at hothers
          have hno : (input.addLine (above + held.length + 1) line).isFinished policy ≠ true := by
            rw [hfinished]
            exact Bool.false_ne_true
          have hcovers := cons ⟨_, hlexed, rfl⟩ (fun h => absurd h hno) hothers
          rwa [if_neg hno] at hcovers
      | true =>
          obtain ⟨back, rfl, hback, hprints⟩ :=
            hnext.exists_statements (by simp) hus hbody hfinished
          have hnumber : 1 + UInt32.ofNat above + UInt32.ofNat (held ++ [line]).length =
              1 + UInt32.ofNat (above + held.length + 1) := by
            rw [List.length_append, List.length_singleton, Nat.add_assoc above,
              UInt32.ofNat_add above,
              UInt32.add_assoc]
          rw [hnumber] at hvs
          have hcleared : (input.addLine (above + held.length + 1) line).clear.Holds
              (above + held.length + 1) [] := .start rfl _
          have hothers := ih hcleared (fun h => absurd rfl h) hvs hback
          rw [List.length_nil, Nat.add_zero, ← Input.kept_of_finished hfinished] at hothers
          have hcovers := cons ⟨_, hlexed, rfl⟩ (fun _ => hprints) hothers
          rwa [if_pos hfinished] at hcovers

/-- No error is logged. -/
theorem level_of_mem_events {lines : List (List Char)} {program : Program}
    (h : Covers policy input number lines program) :
    ∀ e ∈ (reports policy (inputs policy input number lines)).events, e.level ≠ .error := by
  intro e he
  obtain ⟨next, hnext, he⟩ := mem_events_reports.mp he
  rw [Input.report] at he
  split at he
  next hfinished =>
    obtain ⟨parsed, -, ⟨tokens, -, hprint⟩, -⟩ := h.printed next hnext hfinished
    rw [hprint] at he
    exact Input.level_of_mem_printed he
  next => exact Lexed.level_of_mem_events he

end Covers

/-- Reading an accepted source line by line loses nothing and invents nothing. By both policies the
reader reports about the inputs behind each line and about nothing else; none of them has a fault or
an error, the tokens and the trees of those that are finished are what is printed, and their
statements are the program. Strings and block comments are asked to end on the line they begin on.
-/
theorem readLines_covers (policy : ErrorPolicy) {source file : String} {program : Program}
    (hnul : '\x00' ∉ source.toList) (hprogram : Program.ofSource source file = .ok program)
    (hbreaks : ∀ s ∈ segments .recover source, s.isDelimited → '\n' ∉ s.text) :
    let report := readLines policy .empty 1 (Text.lines 0x0a 0x0d source.toUTF8.data.toList)
    let all := inputs policy .empty 1 (textLines source.toList)
    report = reports policy all ∧
      report.output = String.join ((all.filter (Input.isFinished policy)).map
        fun input => (input.print policy).output) ∧
      (∀ e ∈ report.events, e.level ≠ .error) ∧
      Covers policy .empty 1 (textLines source.toList) program := by
  intro report all
  obtain ⟨tokens, hlexes, hbody⟩ := exists_lexesLines hnul hprogram hbreaks
  have hempty : Input.empty.Holds 0 [] := .start rfl 0
  have hcovers : Covers policy .empty 1 (textLines source.toList) program :=
    .of_lexesLines hempty (fun h => absurd rfl h) hlexes hbody
  have hfinish : finish policy (left policy .empty 1 (textLines source.toList)) = {} := by
    unfold finish Input.isBlank
    rw [hcovers.left]
    rfl
  have hbytes : source.toUTF8.data.toList = encoded source.toList := by
    rw [← Text.toUTF8_ofList, String.ofList_toList]
  have hreport : report = reports policy all := by
    rw [reports, ← hfinish, ← readLines_encoded, ← lines_encoded, ← hbytes]
  rw [hreport]
  exact ⟨rfl, output_reports policy all, hcovers.level_of_mem_events, hcovers⟩

/-- A block over three lines, a procedure over two, an empty line and a declaration: three inputs
are printed. -/
theorem readLines_covers_layout :
    let source :=
        "m: do;\r\n decl x int; // it's x\nend m; proc f(a\n int) int;\n\ndecl y /* 2 */ int;"
    ∃ program, '\x00' ∉ source.toList ∧ Program.ofSource source "a" = .ok program ∧
      (∀ s ∈ segments .recover source, s.isDelimited → '\n' ∉ s.text) ∧ program.length = 3 ∧
      ((inputs .abort .empty 1 (textLines source.toList)).filter (Input.isFinished .abort)).map
        Input.firstLine = [1, 5, 6] ∧
      Covers .abort .empty 1 (textLines source.toList) program := by
  intro source
  have hnul : '\x00' ∉ source.toList := by decide +kernel
  have hbreaks : ∀ s ∈ segments .recover source, s.isDelimited → '\n' ∉ s.text := by decide +kernel
  have hlength : (Program.ofSource source "a").toOption.map List.length = some 3 := by
    decide +kernel
  obtain ⟨program, hprogram, hthree⟩ := Option.map_eq_some_iff.mp hlength
  have hprogram : Program.ofSource source "a" = .ok program := by
    cases hresult : Program.ofSource source "a" with
    | ok found =>
        rw [hresult] at hprogram
        exact congrArg Except.ok (Option.some.inj hprogram)
    | error e =>
        rw [hresult] at hprogram
        cases hprogram
  exact ⟨program, hnul, hprogram, hbreaks, hthree, by decide +kernel,
    (readLines_covers .abort hnul hprogram hbreaks).2.2.2⟩

end TickMachine.Tool.Reader
