import TickMachine.Text.Bounded

/-! # Errors about images -/

namespace TickMachine

/-- Why bytes are no image. -/
inductive ImageError
  | badMagic
  | unsupportedVersion (version : Nat)
  | invalidSectionCount (count : Nat)
  | truncated
  | invalidOperandTag (tag : UInt8)
  | invalidString
deriving DecidableEq, Repr

def ImageError.message : ImageError → String
  | badMagic => "Not a yang executable"
  | unsupportedVersion version => s!"Unsupported executable version {version}"
  | invalidSectionCount count => s!"Invalid number of sections {count}"
  | truncated => "Unexpected end of executable"
  | invalidOperandTag tag => s!"Invalid operand type tag {tag.toNat}"
  | invalidString => "Operand string is not valid UTF-8"

/-- Why a program was not loaded. Ids are never short, so a full registry is not among the
reasons. -/
inductive LoadError
  | unreadable (path reason : String)
  | image (error : ImageError)
  | invalidName (error : TooLong)
deriving DecidableEq, Repr

def LoadError.message : LoadError → String
  | unreadable path reason => s!"Failed to read '{path}': {reason}"
  | image error => error.message
  | invalidName error => s!"Invalid program name: {error.message}"

end TickMachine
