import TickMachine.Instruction.Basic
import TickMachine.Text.Padded

/-! # Executable images -/

namespace TickMachine

/-- The highest image version there is. -/
def imageVersion : Nat := 1

/-- Images have fewer sections than this. -/
def sectionLimit : Nat := 16

/-- What the instructions of a section are. -/
inductive SectionKind
  | data
  | function
  /-- Holds the first instruction of the program. -/
  | entry
deriving DecidableEq, Repr

/-- A range of the instructions of an image. -/
structure Section where
  kind : SectionKind
  offset : Nat
  length : Nat
deriving DecidableEq, Repr

/-- A program ready to be loaded. It is of the current version. -/
structure Image where
  instructions : List Instruction
deriving DecidableEq, Repr

namespace Image

/-- One entry section spans all instructions. -/
def sections (image : Image) : List Section :=
  [⟨.entry, 0, image.instructions.length⟩]

/-- The lines of the listing: each instruction behind its index, the indices flush right. -/
def listingLines (image : Image) : List String :=
  let width := (toString (image.instructions.length - 1)).length
  image.instructions.mapIdx fun index instruction =>
    s!"{Text.padLeft width (toString index)}  {instruction.text}\n"

/-- The image as text, an instruction per line. -/
def listing (image : Image) : String :=
  String.join image.listingLines

end Image

end TickMachine
