/-! # Reserved words

The keywords and the built-in type names of the declaration language. Both are matched against
whole words.
-/

namespace TickMachine

/-- A keyword. -/
inductive Keyword
  | «if» | «then» | «else» | «do» | «end»
  | decl | struct | union | label | const | initial | typedef | proc
  | external | «public» | native | «at» | goto | «by» | «case» | «while»
  | leave | iterate | call | «return» | halt
deriving DecidableEq, Repr

namespace Keyword

/-- All keywords. -/
def all : List Keyword :=
  [.if, .then, .else, .do, .end, .decl, .struct, .union, .label, .const, .initial, .typedef,
   .proc, .external, .public, .native, .at, .goto, .by, .case, .while, .leave, .iterate, .call,
   .return, .halt]

def spelling : Keyword → String
  | .if => "if"
  | .then => "then"
  | .else => "else"
  | .do => "do"
  | .end => "end"
  | .decl => "decl"
  | .struct => "struct"
  | .union => "union"
  | .label => "label"
  | .const => "const"
  | .initial => "initial"
  | .typedef => "typedef"
  | .proc => "proc"
  | .external => "extern"
  | .public => "public"
  | .native => "native"
  | .at => "at"
  | .goto => "goto"
  | .by => "by"
  | .case => "case"
  | .while => "while"
  | .leave => "leave"
  | .iterate => "iterate"
  | .call => "call"
  | .return => "return"
  | .halt => "halt"

/-- The keyword with the given spelling. -/
def ofWord? (word : String) : Option Keyword :=
  all.find? fun k => k.spelling == word

theorem spelling_of_ofWord? {word : String} {k : Keyword} (h : ofWord? word = some k) :
    k.spelling = word := by
  simpa using List.find?_some h

end Keyword

/-- The names of the built-in types. -/
def typeNames : List String :=
  ["int", "uint", "byte", "word", "dword", "float", "char", "bool", "string"]

end TickMachine
