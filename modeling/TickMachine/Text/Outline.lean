/-! # Outlines

Nested values as indented lines. A value is a list of lines; each part of a compound value stands
on lines of its own, indented once more, and ends with a comma.
-/

namespace TickMachine.Text.Outline

/-- Appends a text to the last line. -/
def appendLast (suffix : String) : List String → List String
  | [] => [suffix]
  | [line] => [line ++ suffix]
  | line :: rest => line :: appendLast suffix rest

/-- Puts a text in front of the first line. -/
def prependFirst (front : String) : List String → List String
  | [] => [front]
  | line :: rest => (front ++ line) :: rest

/-- A part of a compound value. -/
def part (lines : List String) : List String :=
  (appendLast "," lines).map ("    " ++ ·)

/-- A value with named parts. -/
def record (name : String) (fields : List (String × List String)) : List String :=
  let parts := fields.flatMap fun (field, value) => part (prependFirst (field ++ ": ") value)
  [name ++ " \x7b"] ++ parts ++ ["\x7d"]

/-- A value with parts in a fixed order. -/
def tuple (name : String) (items : List (List String)) : List String :=
  [name ++ "("] ++ items.flatMap part ++ [")"]

/-- Any number of values. -/
def sequence (items : List (List String)) : List String :=
  if items.isEmpty then ["[]"] else ["["] ++ items.flatMap part ++ ["]"]

/-- A value that may be missing. -/
def optional : Option (List String) → List String
  | none => ["None"]
  | some value => tuple "Some" [value]

end TickMachine.Text.Outline
