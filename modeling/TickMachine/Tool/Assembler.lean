import TickMachine.Assembly.Basic
import TickMachine.Image.Codec
import TickMachine.Tool.Arguments
import TickMachine.Tool.Files
import TickMachine.Tool.Path
import TickMachine.Tool.Report

/-! # The assembler as a tool

`<input> [-o output]`: assembles a source file into an image file. Without an output the image goes
beside the source.
-/

namespace TickMachine.Tool.Assembler

/-- Where to read the source and where to write the image. -/
structure Settings where
  input : String
  output : String
deriving DecidableEq, Repr

/-- The extension of image files. -/
def imageExtension : String := "yang"

def knownOptions : List KnownOption :=
  [{ name := "output", short := some 'o', takesValue := true }]

/-- Reads the arguments. -/
def settings? (arguments : List String) : Option Settings := do
  let given ← readArguments knownOptions {} arguments
  let input ← given.path?
  match given.value? "output" with
  | none => return ⟨input, withExtension input imageExtension⟩
  | some output => if output.isEmpty then none else return ⟨input, output⟩

/-- The text of a source file. -/
def sourceText (content : Except String (List UInt8)) : Except String String := do
  match String.fromUTF8? ⟨(← content).toArray⟩ with
  | some text => return text
  | none => throw "stream did not contain valid UTF-8"

/-- Runs the tool. -/
def run {m : Type → Type} [Monad m] [Files m] (arguments : List String) : m Outcome := do
  let some settings := settings? arguments | return .usage
  match sourceText (← Files.read settings.input) with
  | .error reason => return .failure {} s!"Failed to read {settings.input}: {reason}"
  | .ok source =>
    let report := Report.log (Image.assemblyEvents source)
    match Image.ofAssembly source with
    | .error e => return .failure report s!"{settings.input}: {e.message}"
    | .ok image =>
      match ← Files.write settings.output image.encode with
      | .error reason => return .failure report s!"Failed to write {settings.output}: {reason}"
      | .ok () =>
        let count := image.instructions.length
        let summary := s!"Wrote {count} instructions to {settings.output}"
        return .success (report ++ .log [.info summary])

end TickMachine.Tool.Assembler
