import TickMachine.Assembly.Operand
import TickMachine.Image.Basic
import TickMachine.Log
import TickMachine.Text.Lines

/-! # The assembler

A source is read twice. The first pass reads all lines and collects the labels, each standing for
the number of instructions in front of it. The second pass encodes the instructions, so a label
may be used in front of its line. A line with an unknown mnemonic becomes `nop`.
-/

namespace TickMachine.Assembly

/-- What the first pass has found so far. -/
structure Draft where
  labels : Labels
  /-- The instructions with their line numbers, latest first. -/
  written : List (UInt32 × WrittenInstruction)

namespace Draft

def empty : Draft := ⟨[], []⟩

/-- Adds a label for the next instruction. -/
def addLabel (draft : Draft) (name : String) : Except AssemblyCause Draft :=
  match draft.labels.lookup name with
  | some _ => .error (.duplicateLabel name)
  | none => .ok { draft with labels := (name, draft.written.length) :: draft.labels }

/-- Adds the instruction on the line with the given number. The instructions are counted in 32
bits, as their places are. -/
def addInstruction (draft : Draft) (number : UInt32) (written : WrittenInstruction) :
    Except AssemblyCause Draft :=
  if draft.written.length + 1 < UInt32.size then
    .ok { draft with written := (number, written) :: draft.written }
  else .error .tooManyInstructions

/-- Reads one more line. -/
def addLine (draft : Draft) (numbered : UInt32 × List Char) : Except AssemblyError Draft :=
  let (number, raw) := numbered
  let text := bare raw
  if text.isEmpty then .ok draft
  else
    let added := do
      match ← readLine text with
      | .label name => draft.addLabel name
      | .instruction written => draft.addInstruction number written
    added.mapError (⟨·, number⟩)

end Draft

/-- The number of the line at an index, counted from 1. Numbers have 32 bits and wrap around. -/
def lineNumber (index : Nat) : UInt32 :=
  .ofNat index + 1

/-- The lines of a source with their numbers. -/
def numberedLines (source : String) : List (UInt32 × List Char) :=
  (Text.textLines source.toList).mapIdx fun index raw => (lineNumber index, raw)

/-- The first pass. -/
def draft (source : String) : Except AssemblyError Draft :=
  (numberedLines source).foldlM Draft.addLine .empty

/-- Reads the condition of an instruction; without one it always runs. -/
def readCondition : Option (List Char) → Except AssemblyCause UInt8
  | none => .ok 0
  | some letters =>
    match Condition.ofLetters? letters with
    | some flags => .ok flags
    | none => .error (.invalidCondition (String.ofList letters))

/-- The instruction of a line. -/
def encodeInstruction (labels : Labels) (written : WrittenInstruction) :
    Except AssemblyCause Instruction :=
  match Opcode.ofMnemonic? written.mnemonic with
  | none => .ok (.ofOpcode .nop 0 .none)
  | some op => do
    let flags ← readCondition written.condition
    let operand ← readOperand op labels written.operand
    return .ofOpcode op flags operand

/-- The instruction of a numbered line. -/
def encodeLine (labels : Labels) (numbered : UInt32 × WrittenInstruction) :
    Except AssemblyError Instruction :=
  (encodeInstruction labels numbered.2).mapError (⟨·, numbered.1⟩)

/-- The second pass. -/
def Draft.encode (draft : Draft) : Except AssemblyError (List Instruction) :=
  draft.written.reverse.mapM (encodeLine draft.labels)

/-- What is logged about the unknown mnemonics in front of the first mistake. -/
def Draft.notices (draft : Draft) : List Event :=
  let read := draft.written.reverse.takeWhile fun line => (encodeLine draft.labels line).isOk
  let unknown := read.filter fun line => (Opcode.ofMnemonic? line.2.mnemonic).isNone
  unknown.map fun (number, written) =>
    .warn s!"line {number}: unknown mnemonic '{String.ofList written.mnemonic}', emitting nop"

end Assembly

open Assembly

/-- Assembles a source. -/
def Image.ofAssembly (source : String) : Except AssemblyError Image := do
  return ⟨← (← draft source).encode⟩

/-- What is logged while assembling. -/
def Image.assemblyEvents (source : String) : List Event :=
  match draft source with
  | .error _ => []
  | .ok found =>
    match found.encode with
    | .error _ => found.notices
    | .ok instructions =>
      found.notices ++ [.debug s!"assembled {instructions.length} instructions"]

end TickMachine
