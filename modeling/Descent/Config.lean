/-
# The options of a parse
-/

namespace Descent

/-- The options of one parse. -/
structure Config where
  /-- Keep a log of every rule that is entered and left, and the rules that were active
  at the furthest failure. -/
  trace : Bool
  /-- How many rules may be active at once before the parse is given up. -/
  maxDepth : Nat
  deriving DecidableEq, Repr

namespace Config

/-- Without a log, up to 256 rules active at once. -/
def standard : Config := ⟨false, 256⟩

/-- The same options with or without a log. -/
def withTrace (config : Config) (trace : Bool) : Config := { config with trace }

/-- The same options with another limit. -/
def withMaxDepth (config : Config) (maxDepth : Nat) : Config := { config with maxDepth }

end Config
end Descent
