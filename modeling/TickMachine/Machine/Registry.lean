import TickMachine.Image.Basic
import TickMachine.Machine.Step

/-! # The registry of loaded machines

Machines stand in the order in which they were loaded, each with an id of its own. Ids count the
loads and are never given twice; they are numbers without a bound, so there is no registry that has
run out of them. On each tick every running machine executes some instructions; the machines that
failed are removed by their ids when all others have had their turn.
-/

namespace TickMachine

/-- The loaded machines and the id of the next one. -/
structure Registry where
  machines : List Machine
  nextId : Nat

namespace Registry

def empty : Registry := ⟨[], 0⟩

/-- The machine with the given id. -/
def find? (registry : Registry) (id : Nat) : Option Machine :=
  registry.machines.find? (·.id = id)

/-- The machine with the given name that was loaded first. -/
def named? (registry : Registry) (name : String) : Option Machine :=
  registry.machines.find? (·.name.text = name)

/-- Puts a machine in the place of the one with its id. -/
def replace (registry : Registry) (m : Machine) : Registry :=
  { registry with machines := registry.machines.map fun old => if old.id = m.id then m else old }

/-- Takes out the first machine with the given id. -/
def erase (registry : Registry) (id : Nat) : Registry :=
  { registry with machines := registry.machines.eraseP (·.id = id) }

/-- Adds a machine behind all others. It always gets an id: the case of a machine word that cannot
count one load more is left out. -/
def register (registry : Registry) (name : BoundedText maxProgramNameSize) (image : Image)
    (callLimit : Nat) : Registry where
  machines :=
    registry.machines ++ [.fresh registry.nextId name image.instructions.toArray callLimit]
  nextId := registry.nextId + 1

/-- How a program that was asked for by its id is named in errors. -/
def idText (id : Nat) : String := s!"#{id}"

/-- No machine answers to the given name. -/
def unknown (program : String) : Fault := ⟨.unknownProgram, program, 0⟩

/-- The machine with the given id, or a failure. -/
def get (registry : Registry) (id : Nat) : Except Fault Machine :=
  match registry.find? id with
  | some m => .ok m
  | none => .error (unknown (idText id))

/-- The id of the machine with the given name, or a failure. -/
def resolve (registry : Registry) (name : String) : Except Fault Nat :=
  match registry.named? name with
  | some m => .ok m.id
  | none => .error (unknown name)

/-- Starts or resumes a machine. -/
def execute (registry : Registry) (id : Nat) : Except Fault Registry := do
  return registry.replace (← (← registry.get id).start)

/-- Pauses a machine. -/
def freeze (registry : Registry) (id : Nat) : Except Fault Registry := do
  return registry.replace (← (← registry.get id).freeze)

def freezeByName (registry : Registry) (name : String) : Except Fault Registry := do
  registry.freeze (← registry.resolve name)

/-- Removes a machine. -/
def terminate (registry : Registry) (id : Nat) : Except Fault Registry := do
  let m ← registry.get id
  return registry.erase m.id

def terminateByName (registry : Registry) (name : String) : Except Fault Registry := do
  registry.terminate (← registry.resolve name)

/-- Puts a machine back into the state in which it was loaded. -/
def reset (registry : Registry) (id : Nat) : Except Fault Registry := do
  return registry.replace (← registry.get id).reset

/-- The turns of all machines in one tick, with the failures and the ids of the machines they
belong to. A machine that failed keeps its place for now. -/
def sweep (budget : Nat) : List Machine → List Machine × List (Nat × Fault)
  | [] => ([], [])
  | m :: others =>
    let (after, failed) := sweep budget others
    match m.tick budget with
    | .ok next => (next :: after, failed)
    | .error fault => (m :: after, (m.id, fault) :: failed)

/-- The failures of the next tick, each with the id of its machine. -/
def failures (registry : Registry) (budget : Nat) : List (Nat × Fault) :=
  (sweep budget registry.machines).2

/-- One tick of all machines. Those that failed are removed one after the other; the failures are
in the order of the machines. -/
def tick (registry : Registry) (budget : Nat) : Registry × List Fault :=
  let (machines, failed) := sweep budget registry.machines
  let swept : Registry := { registry with machines }
  ((failed.map Prod.fst).foldl erase swept, failed.map Prod.snd)

/-- What is logged in one tick. -/
def tickEvents (registry : Registry) (budget : Nat) : List Event :=
  registry.machines.flatMap (Machine.tickEvents budget)

end Registry

end TickMachine
