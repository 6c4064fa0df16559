/-! # Log events

What an operation reports beside its result.
-/

namespace TickMachine

/-- The weight of an event, gravest first. -/
inductive Level
  | error
  | warn
  | info
  | debug
deriving DecidableEq, Repr

/-- One reported message. -/
structure Event where
  level : Level
  message : String
deriving DecidableEq, Repr

namespace Level

/-- The place of a level in the order of weight. -/
def rank : Level → Nat
  | error => 0
  | warn => 1
  | info => 2
  | debug => 3

/-- Whether events of this level are shown when events down to `threshold` are. -/
def shownAt (level threshold : Level) : Bool :=
  level.rank ≤ threshold.rank

def label : Level → String
  | error => "ERROR"
  | warn => "WARN"
  | info => "INFO"
  | debug => "DEBUG"

end Level

namespace Event

def error (message : String) : Event := ⟨.error, message⟩

def warn (message : String) : Event := ⟨.warn, message⟩

def info (message : String) : Event := ⟨.info, message⟩

def debug (message : String) : Event := ⟨.debug, message⟩

def text (e : Event) : String := s!"{e.level.label} {e.message}"

/-- The texts of the events shown down to a level, in order. -/
def shown (threshold : Level) (events : List Event) : List String :=
  (events.filter fun e => e.level.shownAt threshold).map text

end Event

end TickMachine
