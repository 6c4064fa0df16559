import TickMachine.Machine.Engine
import TickMachine.Machine.Inspect
import TickMachine.Tool.Arguments
import TickMachine.Tool.Files
import TickMachine.Tool.Path
import TickMachine.Tool.Report

/-! # The machine as a tool

`<file> [--ticks N] [--budget N] [--realtime] [--disassemble]`: runs an image file until it halts,
fails or has had its ticks, and prints the registers. With `--disassemble` it prints the listing
of the image and does not run it.
-/

namespace TickMachine.Tool.Runner

/-- What to run and how. -/
structure Settings where
  path : String
  ticks : Nat
  budget : Nat
  /-- Whether to wait between ticks. -/
  realtime : Bool
  /-- Whether to print the listing only. -/
  disassemble : Bool
deriving DecidableEq, Repr

def knownOptions : List KnownOption :=
  [{ name := "ticks", takesValue := true },
   { name := "budget", takesValue := true },
   { name := "realtime", takesValue := false },
   { name := "disassemble", takesValue := false }]

/-- The number of ticks when none is given. -/
def defaultTicks : Nat := 100000

/-- Reads the value of an option, or takes the default without one. -/
def numberOr (given : Given) (name : String) (read : String → Option Nat) (default : Nat) :
    Option Nat :=
  match given.value? name with
  | some text => read text
  | none => some default

/-- Reads the arguments. -/
def settings? (arguments : List String) : Option Settings := do
  let given ← readArguments knownOptions {} arguments
  let path ← given.path?
  let ticks ← numberOr given "ticks" count? defaultTicks
  let budget ← numberOr given "budget" smallCount? 1
  return ⟨path, ticks, budget, given.hasFlag "realtime", given.hasFlag "disassemble"⟩

/-- A cell as 16 hexadecimal digits. -/
def cellText (cell : Cell) : String :=
  "0x" ++ String.ofList ((Nat.toDigits 16 cell.toNat).leftpad 16 '0')

/-- A line with the name and content of a register, the content as a signed word too. -/
def registerLine (name : String) (cell : Cell) : String :=
  s!"{Text.padLeft 4 name} = {cellText cell} ({signedWord cell.toUInt32})\n"

/-- The names of the registers in the order of `Machine.allRegisters`. -/
def registerNames : List String :=
  (List.range registerCount).map (fun index => s!"r{index}") ++ ["pc", "cond"]

/-- The content of all registers, a line each. -/
def registerTable (m : Machine) : String :=
  String.join (List.zipWith registerLine registerNames m.allRegisters)

/-- Loads the content of an image file. The program is named after the file. -/
def loadCommand (path : String) (content : List UInt8) : Command :=
  .load (fileStem path) content

/-- A registry in the course of a run, with the ticks it had and what was logged so far. -/
structure Session where
  registry : Registry
  ticks : Nat
  events : Array Event

namespace Session

/-- No program is loaded yet. -/
def start : Session := ⟨.empty, 0, #[]⟩

/-- Carries out a command and logs what it reports. -/
def perform (engine : Engine) : Session → Command → Reply × Session
  | ⟨registry, ticks, events⟩, command =>
    let reported := engine.performEvents registry command
    let (reply, registry) := engine.perform registry command
    (reply, ⟨registry, ticks, events ++ reported⟩)

/-- One tick. Failures are logged once more as warnings. -/
def tick (engine : Engine) (s : Session) : Session :=
  let (reply, s) := s.perform engine .tick
  let warnings : List Event := match reply with
    | .ticked faults => faults.map fun fault => Event.warn fault.message
    | _ => []
  { s with ticks := s.ticks + 1, events := s.events ++ warnings }

/-- What was logged so far. -/
def report (s : Session) : Report := .log s.events.toList

end Session

/-- Ticks as long as the machine with the given id is running, up to a number of times. -/
def tickWhileRunning {m : Type → Type} [Monad m] (engine : Engine) (pause : m Unit) (id : Nat) :
    Nat → Session → m Session
  | 0, s => return s
  | limit + 1, s =>
    match s.registry.find? id with
    | some machine =>
      if machine.isRunning then do
        let s := s.tick engine
        pause
        tickWhileRunning engine pause id limit s
      else return s
    | none => return s

/-- The end of a run. -/
def conclude (id : Nat) (s : Session) : Outcome :=
  let report := s.report ++ .log [.info s!"Ran {s.ticks} ticks"]
  match s.registry.find? id with
  | some machine =>
    let state := s!"Program '{machine.name.text}' is {machine.phase.label}"
    .success (report ++ { output := registerTable machine, events := [.info state] })
  | none => .failure report "Program terminated with a runtime error"

/-- Prints the listing of an image file. -/
def list (path : String) (content : Except String (List UInt8)) : Outcome :=
  match content with
  | .error reason => .failure {} s!"{path}: {reason}"
  | .ok bytes =>
    match Image.decode bytes with
    | .error e => .failure {} s!"{path}: {e.message}"
    | .ok image => .success { output := image.listing }

/-- Runs an image file. -/
def execute {m : Type → Type} [Monad m] (pause : m Unit) (settings : Settings)
    (content : Except String (List UInt8)) : m Outcome := do
  let engine : Engine := { budget := settings.budget }
  match content with
  | .error reason => return .failure {} (LoadError.unreadable settings.path reason).message
  | .ok bytes =>
    match Session.start.perform engine (loadCommand settings.path bytes) with
    | (.loaded id, s) =>
      match s.perform engine (.execute id) with
      | (.refused fault, s) => return .failure s.report fault.message
      | (_, s) =>
        let wait := if settings.realtime then pause else pure ()
        return conclude id (← tickWhileRunning engine wait id settings.ticks s)
    | (.notLoaded e, s) => return .failure s.report e.message
    | (_, s) => return .success s.report

/-- Runs the tool. `pause` waits until the next tick is due. -/
def run {m : Type → Type} [Monad m] [Files m] (pause : m Unit) (arguments : List String) :
    m Outcome := do
  let some settings := settings? arguments | return .usage
  let content ← Files.read settings.path
  if settings.disassemble then return list settings.path content
  else execute pause settings content

end TickMachine.Tool.Runner
