import TickMachine.Image.Codec
import TickMachine.Machine.Registry

/-! # The engine

Loading programs into a registry and driving them. A history of a registry is a list of commands;
a command that fails leaves the registry as it was.
-/

namespace TickMachine

/-- How machines are loaded and run. -/
structure Engine where
  /-- The number of instructions a machine executes per tick; zero counts as one. -/
  budget : Nat := 1
  /-- The greatest height of the call stacks of loaded machines. -/
  callLimit : Nat := 256
deriving DecidableEq, Repr

/-- A request to an engine about its registry. -/
inductive Command
  | load (name : String) (bytes : List UInt8)
  | loadImage (name : String) (image : Image)
  | execute (id : Nat)
  | freeze (id : Nat)
  | freezeByName (name : String)
  | terminate (id : Nat)
  | terminateByName (name : String)
  | reset (id : Nat)
  | tick
  /-- Writes a memory cell from outside. -/
  | write (id address : Nat) (cell : Cell)
deriving DecidableEq, Repr

/-- The answer to a command. -/
inductive Reply
  | loaded (id : Nat)
  | done
  | ticked (faults : List Fault)
  | notLoaded (error : LoadError)
  | refused (fault : Fault)
  /-- There is no machine to write to. -/
  | absent
deriving DecidableEq, Repr

namespace Engine

/-- Loads an image under a name. -/
def loadImage (engine : Engine) (registry : Registry) (name : String) (image : Image) :
    Except LoadError Registry := do
  let name ← (BoundedText.ofString name).mapError .invalidName
  return registry.register name image engine.callLimit

/-- Loads the image in bytes under a name. The name is looked at first. -/
def load (engine : Engine) (registry : Registry) (name : String) (bytes : List UInt8) :
    Except LoadError Registry := do
  let name ← (BoundedText.ofString name).mapError .invalidName
  let image ← (Image.decode bytes).mapError .image
  return registry.register name image engine.callLimit

/-- Writes a memory cell of a machine, if there is one. -/
def write (registry : Registry) (id address : Nat) (cell : Cell) : Option (Except Fault Registry) :=
  (registry.find? id).map fun m => registry.replace <$> m.setCellAt address cell

/-- Answers to an attempt that gives a new registry. -/
def settle (registry : Registry) : Except Fault Registry → Reply × Registry
  | .ok after => (.done, after)
  | .error fault => (.refused fault, registry)

/-- Answers to an attempt to load a program, which gets the next id. -/
def settleLoad (registry : Registry) : Except LoadError Registry → Reply × Registry
  | .ok after => (.loaded registry.nextId, after)
  | .error error => (.notLoaded error, registry)

/-- Carries out a command. -/
def perform (engine : Engine) (registry : Registry) : Command → Reply × Registry
  | .load name bytes => settleLoad registry (engine.load registry name bytes)
  | .loadImage name image => settleLoad registry (engine.loadImage registry name image)
  | .execute id => settle registry (registry.execute id)
  | .freeze id => settle registry (registry.freeze id)
  | .freezeByName name => settle registry (registry.freezeByName name)
  | .terminate id => settle registry (registry.terminate id)
  | .terminateByName name => settle registry (registry.terminateByName name)
  | .reset id => settle registry (registry.reset id)
  | .tick =>
    let (after, faults) := registry.tick engine.budget
    (.ticked faults, after)
  | .write id address cell =>
    match write registry id address cell with
    | some attempt => settle registry attempt
    | none => (.absent, registry)

/-- The registry after a history that starts without machines. Each command is carried out by an
engine of its own. -/
def history (requests : List (Engine × Command)) : Registry :=
  requests.foldl (fun registry (engine, command) => (engine.perform registry command).2) .empty

/-! ## Log events -/

/-- What is logged when a program was loaded. -/
def loadedEvent (name : String) (id count : Nat) : Event :=
  .info s!"loaded program '{name}' {Registry.idText id} with {count} instructions"

/-- What is logged when a machine is moved to another phase. -/
def phaseEvents (registry : Registry) (id : Nat) (move : Machine → Except Fault Machine) :
    List Event :=
  match registry.find? id with
  | some m => match move m with
    | .ok after => [after.phaseEvent m.phase]
    | .error _ => []
  | none => []

/-- What is logged when a machine is removed on request. -/
def terminateEvents (registry : Registry) (id : Nat) : List Event :=
  match registry.find? id with
  | some m =>
    let subject := s!"program '{m.name.text}' {Registry.idText id}"
    [.info s!"terminated {subject} after {m.ticks} ticks"]
  | none => []

/-- What is logged for the machine with the given name. -/
def namedEvents (registry : Registry) (name : String) (events : Nat → List Event) : List Event :=
  match registry.named? name with
  | some m => events m.id
  | none => []

/-- What is logged while a command is carried out. -/
def performEvents (engine : Engine) (registry : Registry) : Command → List Event
  | .load name bytes =>
    match (BoundedText.ofString name : Except TooLong (BoundedText maxProgramNameSize)) with
    | .error _ => []
    | .ok _ =>
      match Image.decode bytes with
      | .ok image => [loadedEvent name registry.nextId image.instructions.length]
      | .error e => [.error s!"failed to load program '{name}': {e.message}"]
  | .loadImage name image =>
    match engine.loadImage registry name image with
    | .ok _ => [loadedEvent name registry.nextId image.instructions.length]
    | .error _ => []
  | .execute id => phaseEvents registry id Machine.start
  | .freeze id => phaseEvents registry id Machine.freeze
  | .freezeByName name =>
    namedEvents registry name fun id => phaseEvents registry id Machine.freeze
  | .terminate id => terminateEvents registry id
  | .terminateByName name => namedEvents registry name (terminateEvents registry)
  | .reset id =>
    match registry.find? id with
    | some m => [.debug s!"reset program '{m.name.text}'"]
    | none => []
  | .tick => registry.tickEvents engine.budget
  | .write .. => []

end Engine

end TickMachine
