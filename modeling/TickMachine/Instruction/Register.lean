/-! # General registers -/

namespace TickMachine

/-- The number of general registers of a machine. -/
abbrev registerCount : Nat := 8

/-- A general register. -/
abbrev Register := Fin registerCount

end TickMachine
