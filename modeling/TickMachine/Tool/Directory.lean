import TickMachine.Tool.Files
import TickMachine.Tool.Place

/-! # Directories

A tree of folders and files held in memory, seen from a working directory, that answers like one
on a disk. A path is followed name by name; the first name that leads nowhere decides the error.
-/

namespace TickMachine.Tool

/-- What is at a place. -/
inductive Entry
  | folder
  | file (content : List UInt8)

/-- The entries at their places. The root, the working directory and the folders around it are
always there and not listed. -/
structure Directory where
  entries : List (Place × Entry) := []

/-- The greatest size of a path in bytes. -/
def maxPathSize : Nat := 4095

/-- The greatest size of each name in a path in bytes. -/
def maxFileNameSize : Nat := 255

namespace Directory

/-- A directory with one file and the folders on the way to it. -/
def ofFile (path : String) (content : List UInt8) : Directory :=
  let path := path.toList
  ⟨(Place.wayTo path).map (·, .folder) ++ [(.ofPath path, .file content)]⟩

/-- What is at a place. -/
def entry? (d : Directory) (place : Place) : Option Entry :=
  if place.names.isEmpty then some .folder else d.entries.lookup place

/-- The place one name further, if the name is not too long. -/
def next (place : Place) (name : List Char) : Except PathError Place :=
  if maxFileNameSize < (String.ofList name).utf8ByteSize then .error .nameTooLong
  else .ok (place.step name)

/-- The folder one name further. -/
def enter (d : Directory) (place : Place) (name : List Char) : Except PathError Place := do
  let place ← next place name
  match d.entry? place with
  | some .folder => .ok place
  | some (.file _) => .error .notFolder
  | none => .error .notFound

/-- The folder in which the last name of a path stands. -/
def approach (d : Directory) (path : String) : Except PathError Place :=
  let path := path.toList
  if path.contains '\x00' then .error .containsNul
  else if path.isEmpty then .error .notFound
  else if maxPathSize < (String.ofList path).utf8ByteSize then .error .nameTooLong
  else (pathNames path).dropLast.foldlM d.enter (.start path)

/-- Whether a path can lead to a folder only, for the slash at its end. -/
def endsInSlash (path : String) : Bool :=
  path.toList.getLast? == some '/'

/-- The content of a file. -/
def read (d : Directory) (path : String) : Except PathError (List UInt8) := do
  let folder ← d.approach path
  let place ← match (pathNames path.toList).getLast? with
    | some name => next folder name
    | none => .ok folder
  match d.entry? place with
  | some (.file content) => if endsInSlash path then .error .notFolder else .ok content
  | some .folder => .error .isFolder
  | none => .error .notFound

/-- Sets the content of the file at a place. -/
def put (d : Directory) (place : Place) (content : List UInt8) : Directory :=
  if d.entries.any (·.1 == place) then
    ⟨d.entries.map fun entry => if entry.1 == place then (place, .file content) else entry⟩
  else ⟨d.entries ++ [(place, .file content)]⟩

/-- Writes a file where there is none or in place of the one that is there. -/
def write (d : Directory) (path : String) (content : List UInt8) :
    Except PathError Directory := do
  let folder ← d.approach path
  match (pathNames path.toList).getLast? with
  | none => .error .isFolder
  | some name =>
    if endsInSlash path ∨ name = ['.'] ∨ name = ['.', '.'] then .error .isFolder
    else
      let place ← next folder name
      match d.entry? place with
      | some .folder => .error .isFolder
      | _ => .ok (d.put place content)

/-- The files in the working directory itself, with their names. -/
def files (d : Directory) : List (String × List UInt8) :=
  d.entries.filterMap fun
    | (⟨.above 0, [name]⟩, .file content) => some (String.ofList name, content)
    | _ => none

instance : Files (StateM Directory) where
  read path := return ((← get).read path).mapError PathError.message
  write path content := do
    match (← get).write path content with
    | .ok after => set after; return .ok ()
    | .error e => return .error e.message

end Directory

end TickMachine.Tool
