/-! # File names

The name of a file in a path, and its extension: what stands behind the last point of the name,
unless that point is its first character.
-/

namespace TickMachine.Tool

/-- A reversed path without the separators and `.` components at its end. -/
def dropTrailing : List Char → List Char
  | '/' :: path => dropTrailing path
  | '.' :: '/' :: path => dropTrailing path
  | path => path

/-- The name of the file and what is in front of it, if the path names a file. -/
def splitFileName (path : List Char) : Option (List Char × List Char) :=
  let reversed := dropTrailing path.reverse
  let name := (reversed.takeWhile (· ≠ '/')).reverse
  if name = [] ∨ name = ['.'] ∨ name = ['.', '.'] then none
  else some ((reversed.dropWhile (· ≠ '/')).reverse, name)

/-- A name without its extension. -/
def stemOfName (name : List Char) : List Char :=
  match (name.reverse.dropWhile (· ≠ '.')).tail.reverse with
  | [] => name
  | stem => stem

/-- The file name of a path without its extension; empty if the path names no file. -/
def fileStem (path : String) : String :=
  match splitFileName path.toList with
  | some (_, name) => String.ofList (stemOfName name)
  | none => ""

/-- The path with another extension, if it names a file. Where it ends in a name like `..txt`, the
extension alone is taken away: what is left names the folder above, which takes no extension. -/
def withExtension (path extension : String) : String :=
  match splitFileName path.toList with
  | some (folder, name) =>
    let stem := stemOfName name
    if stem = ['.'] ∧ folder ++ name = path.toList then String.ofList (folder ++ ['.', '.'])
    else String.ofList (folder ++ stem) ++ "." ++ extension
  | none => path

end TickMachine.Tool
