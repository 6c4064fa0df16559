/-! # Files

What the tools ask of files, and the reasons why a file may not be had.
-/

namespace TickMachine.Tool

/-- Reading and writing whole files. A failure comes with its reason. -/
class Files (m : Type → Type) where
  read : String → m (Except String (List UInt8))
  write : String → List UInt8 → m (Except String Unit)

/-- Why a path cannot be read or written. -/
inductive PathError
  | notFound
  | notFolder
  | isFolder
  | nameTooLong
  | containsNul
deriving DecidableEq, Repr

def PathError.message : PathError → String
  | notFound => "No such file or directory (os error 2)"
  | notFolder => "Not a directory (os error 20)"
  | isFolder => "Is a directory (os error 21)"
  | nameTooLong => "File name too long (os error 36)"
  | containsNul => "file name contained an unexpected NUL byte"

end TickMachine.Tool
