/-! # Places

Where a path leads: it starts at the root or at the working directory and takes one step for each
of its names. There are no links, so `..` always takes back the step before it.
-/

namespace TickMachine.Tool

/-- The folder from which the names of a place count: the root, or the folder so many levels above
the working directory. -/
inductive Base
  | root
  | above (levels : Nat)
deriving DecidableEq, Repr

/-- A place for a file or a folder, by the names that lead to it. -/
structure Place where
  base : Base
  names : List (List Char) := []
deriving DecidableEq, Repr

/-- The names in a path: what stands between its slashes. -/
def pathNames (path : List Char) : List (List Char) :=
  let pieces := path.foldr (fun c (name, names) =>
    if c = '/' then ([], name :: names) else (c :: name, names)) (([], []) : List Char × _)
  (pieces.1 :: pieces.2).filter (!·.isEmpty)

namespace Place

/-- Where a path starts. -/
def start (path : List Char) : Place :=
  ⟨if path.head? = some '/' then .root else .above 0, []⟩

/-- The folder around a place; the root is its own. -/
def parent (place : Place) : Place :=
  match place with
  | ⟨.root, []⟩ => place
  | ⟨.above levels, []⟩ => ⟨.above (levels + 1), []⟩
  | ⟨base, names⟩ => ⟨base, names.dropLast⟩

/-- The place one name further. -/
def step (place : Place) (name : List Char) : Place :=
  if name = ['.'] then place
  else if name = ['.', '.'] then place.parent
  else { place with names := place.names ++ [name] }

/-- The place where a path leads. -/
def ofPath (path : List Char) : Place :=
  (pathNames path).foldl step (start path)

/-- The places on the way to where a path leads. -/
def wayTo (path : List Char) : List Place :=
  let names := pathNames path
  (List.range names.length).map fun n => (names.take n).foldl step (start path)

end Place

end TickMachine.Tool
