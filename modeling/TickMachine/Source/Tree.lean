import TickMachine.Source.Statement
import TickMachine.Text.Outline
import TickMachine.Text.Quoted

/-! # Syntax trees as text

The outline of a program, with the declarators chained to a declaration and the end of a block as
the last of their children.
-/

namespace TickMachine

open Text (quoted)
open Text.Outline

def Position.outline (p : Position) : List String :=
  record "Position" [("line", [toString p.line]), ("column", [toString p.column])]

def Expression.outline : Expression → List String
  | integer value p => tuple "Integer" [[toString value], p.outline]
  | decimal value p => tuple "Decimal" [[value.literal], p.outline]
  | identifier name p => tuple "Identifier" [[quoted name], p.outline]

def Visibility.label : Visibility → String
  | .private => "Private"
  | .public => "Public"

def ArraySize.outline : ArraySize → List String
  | unsized => tuple "ArraySize" [["None"]]
  | sized size => tuple "ArraySize" [optional (some size.outline)]

/-- A declared name with its visibility. -/
def symbolOutline (name : Name) (visibility : Visibility) : List String :=
  record "Symbol" [("name", [quoted name.text]), ("visibility", [visibility.label])]

def boolOutline (b : Bool) : List String :=
  [if b then "true" else "false"]

/-- A declarator with the outlines of those chained to it. -/
def Declarator.outline (d : Declarator) (chained : List (List String)) : List String :=
  record "Decl"
    [("position", d.position.outline),
     ("symbol", symbolOutline d.name d.visibility),
     ("type_name", [quoted d.typeName]),
     ("is_constant", boolOutline d.isConstant),
     ("is_typedef", boolOutline d.isTypedef),
     ("array_size", optional (d.array.map ArraySize.outline)),
     ("initial", optional (d.initial.map Expression.outline)),
     ("children", sequence chained)]

def textOutline (text : Option String) : List String :=
  optional (text.map fun text => [quoted text])

def Argument.outline (a : Argument) : List String :=
  record "Argument" [("name", [quoted a.name.text]), ("type_name", textOutline a.typeName)]

def Procedure.outline (p : Procedure) : List String :=
  record "Procedure"
    [("position", p.position.outline),
     ("symbol", symbolOutline p.name p.visibility),
     ("return_type", [quoted p.returnType]),
     ("arguments", sequence (p.arguments.map Argument.outline))]

def BlockEnd.outline (e : BlockEnd) : List String :=
  record "End" [("position", e.position.outline), ("name", textOutline e.name)]

def Statement.outline : Statement → List String
  | decl first chained =>
    tuple "Decl" [first.outline (chained.map fun d => d.outline [])]
  | procedure p => tuple "Procedure" [p.outline]
  | block position name body closing =>
    let ends := closing.toList.map fun e => tuple "End" [e.outline]
    tuple "Module"
      [record "Module"
        [("position", position.outline),
         ("name", [quoted name.text]),
         ("children", sequence (body.map Statement.outline ++ ends))]]

/-- The outline of a program. -/
def Program.outline (program : Program) : List String :=
  tuple "Program" [sequence (program.map Statement.outline)]

end TickMachine
