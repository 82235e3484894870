/-
**Log lines.** What the parts of the vault report while they work: a level, the part that speaks, and
a message.
-/

namespace FossilVault.Log

/-- How much a line matters. -/
inductive Level
  | debug | info | error | critical
  deriving DecidableEq, Repr

/-- The part of the vault that speaks. -/
inductive Part
  | vault | pool | bucket | timing | throttle
  deriving DecidableEq, Repr

/-- One line of the log. -/
structure Line where
  level : Level
  part : Part
  message : String
  deriving DecidableEq, Repr

end FossilVault.Log
