import TickMachine.Tool.Assembler
import TickMachine.Tool.Reader
import TickMachine.Tool.Runner

/-! # The command line

`assemble`, `run` and `read` are the three tools; the arguments behind the word are those of the
tool. Log events of level info and above go to standard error.
-/

namespace TickMachine.Tool

/-- The reason of a failure as the tools give it: the system's own words and number, but for a NUL
byte in a path, which never gets to the system. -/
def ioReason : IO.Error → String
  | .invalidArgument _ 22 _ => PathError.containsNul.message
  | .noFileOrDirectory _ code details
  | .inappropriateType _ code details
  | .permissionDenied _ code details
  | .invalidArgument _ code details => s!"{details} (os error {code})"
  | e => toString e

instance : Files IO where
  read path := do
    try
      let handle ← IO.FS.Handle.mk path .read
      return .ok (← handle.readBinToEnd).data.toList
    catch e => return .error (ioReason e)
  write path content := do
    try
      IO.FS.writeBinFile path ⟨content.toArray⟩
      return .ok ()
    catch e => return .error (ioReason e)

def emit (report : Report) : IO Unit := do
  for line in report.logLines do
    IO.eprintln line
  IO.print report.output

def exit (outcome : Outcome) : IO UInt32 := do
  emit outcome.report
  return outcome.exitCode.toUInt32

/-- Waits for about a sixtieth of a second. -/
def pause : IO Unit := IO.sleep 16

/-- Adds the bytes up to and with the next line feed, or up to the end of the stream. -/
partial def readLine (stream : IO.FS.Stream) (line : ByteArray) : IO ByteArray := do
  let byte ← stream.read 1
  let line := line ++ byte
  if byte.isEmpty || byte[0]? == some 0x0a then return line
  else readLine stream line

/-- Reads lines as they are entered. -/
partial def interact (policy : ErrorPolicy) (stream : IO.FS.Stream) (pending : Reader.Input)
    (number : Nat) : IO Unit := do
  let bytes ← readLine stream .empty
  match (Text.lines 0x0a 0x0d bytes.data.toList).head?.map Reader.lineText? with
  | none => emit (Reader.finish policy pending)
  | some none => emit (Reader.giveUp policy pending)
  | some (some line) =>
    let (report, pending) := Reader.feed policy pending number line
    emit report
    interact policy stream pending (number + 1)

end TickMachine.Tool

open TickMachine.Tool

def main (arguments : List String) : IO UInt32 := do
  match arguments with
  | "assemble" :: rest => exit (← Assembler.run rest)
  | "run" :: rest => exit (← Runner.run pause rest)
  | "read" :: rest =>
    match Reader.policy? rest with
    | none => exit .usage
    | some policy =>
      interact policy (← IO.getStdin) .empty 1
      return 0
  | _ => exit .usage
