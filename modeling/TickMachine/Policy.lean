/-! # Error policies -/

namespace TickMachine

/-- What a reader of sources does about a mistake. -/
inductive ErrorPolicy
  /-- Stop and answer with the mistake alone. -/
  | abort
  /-- Note the mistake, skip the text it spoils and go on. -/
  | recover
deriving DecidableEq, Repr

end TickMachine
