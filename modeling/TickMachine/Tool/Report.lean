import TickMachine.Log
import TickMachine.Text.Terminal

/-! # Reports of the tools -/

namespace TickMachine.Tool

/-- What a tool prints and logs. -/
structure Report where
  output : String := ""
  events : List Event := []

namespace Report

/-- One report behind the other. -/
protected def append (a b : Report) : Report :=
  ⟨a.output ++ b.output, a.events ++ b.events⟩

instance : Append Report := ⟨Report.append⟩

@[simp] theorem output_append (a b : Report) : (a ++ b).output = a.output ++ b.output := rfl

@[simp] theorem events_append (a b : Report) : (a ++ b).events = a.events ++ b.events := rfl

def log (events : List Event) : Report := { events }

/-- The log as the tools write it: events of level info and above, fit for a terminal. -/
def logLines (report : Report) : List String :=
  (Event.shown .info report.events).map Text.shielded

end Report

/-- The end of a tool. -/
structure Outcome where
  exitCode : Nat
  report : Report

namespace Outcome

/-- The tool did its work. -/
def success (report : Report) : Outcome := ⟨0, report⟩

/-- The tool gave up, which it logs last. -/
def failure (report : Report) (message : String) : Outcome :=
  ⟨1, report ++ .log [.error message]⟩

/-- The arguments were wrong. -/
def usage : Outcome := ⟨2, {}⟩

end Outcome

end TickMachine.Tool
