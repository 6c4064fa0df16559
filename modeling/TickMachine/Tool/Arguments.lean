import TickMachine.Text.Numeral

/-! # Command line arguments

Arguments are options with a long and maybe a short name, with or without a value, and positional
ones. Each option may be given once. A value stands behind `=` or is the next argument, which then
must not look like an option. Everything behind `--` is positional.
-/

namespace TickMachine.Tool

/-- An option a tool knows. -/
structure KnownOption where
  name : String
  short : Option Char := none
  takesValue : Bool

/-- The arguments found so far. -/
structure Given where
  options : List (String × Option String) := []
  positional : List String := []

namespace Given

def hasFlag (given : Given) (name : String) : Bool :=
  given.options.any (·.1 == name)

def value? (given : Given) (name : String) : Option String :=
  (given.options.lookup name).join

/-- Notes an option, unless it was given before. -/
def addOption (given : Given) (name : String) (value : Option String) : Option Given :=
  if given.hasFlag name then none
  else some { given with options := given.options ++ [(name, value)] }

def addPositional (given : Given) (values : List String) : Given :=
  { given with positional := given.positional ++ values }

end Given

/-- An argument by its form. A single `-` is positional. -/
inductive ArgumentForm
  | escape
  | long (name : String) (value : Option String)
  | short (name : Char) (rest : List Char)
  | positional

def ArgumentForm.ofString (argument : String) : ArgumentForm :=
  match argument.toList with
  | ['-', '-'] => escape
  | '-' :: '-' :: cs =>
    let name := String.ofList (cs.takeWhile (· ≠ '='))
    match cs.dropWhile (· ≠ '=') with
    | [] => long name none
    | _ :: value => long name (some (String.ofList value))
  | '-' :: c :: cs => short c cs
  | _ => positional

/-- Whether an argument can be the value of the option in front of it. -/
def isValue (argument : String) : Bool :=
  match ArgumentForm.ofString argument with
  | .positional => true
  | _ => false

/-- The value in a group behind a short name. -/
def attachedValue? : List Char → Option String
  | [] => none
  | '=' :: cs => some (String.ofList cs)
  | cs => some (String.ofList cs)

/-- Sorts arguments; `none` if they are not as the tool expects. -/
def readArguments (known : List KnownOption) (given : Given) : List String → Option Given
  | [] => some given
  | argument :: rest =>
    let found : Option (KnownOption × Option String) := match ArgumentForm.ofString argument with
      | .long name value => (known.find? (·.name == name)).map (·, value)
      | .short c cs => (known.find? (·.short == some c)).map (·, attachedValue? cs)
      | _ => none
    match ArgumentForm.ofString argument, found with
    | .escape, _ => some (given.addPositional rest)
    | .positional, _ => readArguments known (given.addPositional [argument]) rest
    | _, none => none
    | _, some (option, attached) =>
      match option.takesValue, attached with
      | false, none => do readArguments known (← given.addOption option.name none) rest
      | false, some _ => none
      | true, some value => do readArguments known (← given.addOption option.name value) rest
      | true, none =>
        match rest with
        | [] => none
        | value :: rest =>
          if isValue value then do
            readArguments known (← given.addOption option.name value) rest
          else none

/-- The one positional argument a tool needs, which must not be empty. -/
def Given.path? (given : Given) : Option String :=
  match given.positional with
  | [path] => if path.isEmpty then none else some path
  | _ => none

/-- A number of 64 bits without a sign; a plus may stand in front. -/
def count? (text : String) : Option Nat :=
  let digits := match text.toList with
    | '+' :: cs => cs
    | cs => cs
  (Text.natural? digits).filter (· < UInt64.size)

/-- A number of 32 bits without a sign, read as an integer first. -/
def smallCount? (text : String) : Option Nat :=
  ((Text.integer? text.toList).filter fun (n : Int) => 0 ≤ n ∧ n < UInt32.size).map Int.toNat

end TickMachine.Tool
