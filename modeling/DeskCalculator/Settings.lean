/-!
# Settings

What an evaluation can be told: to how many decimal places results are rounded, and whether a
variable without a value, a factorial that does not exist or a result that is not finite is an error
(`strict`) or passes.
-/

namespace DeskCalculator

/-- How results are rounded, and what counts as an error. -/
structure Settings where
  /-- The decimal places of results; a negative number rounds to tens, hundreds and so on. -/
  precision : Int := 10
  strict : Bool := false
  deriving Repr, DecidableEq

end DeskCalculator
