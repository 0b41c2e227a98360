/-!
# Sets of characters

A property of characters is written down as its ranges of code points, both ends included, in
ascending order.

* `Ranges`, `inRanges` -- the ranges, and whether one of them holds a character.
-/

namespace DeskCalculator.Text

/-- Ranges of code points, both ends included. -/
abbrev Ranges := List (Nat × Nat)

/-- Whether one of the ranges holds the character. -/
def inRanges (ranges : Ranges) (c : Char) : Bool :=
  ranges.any fun (first, last) => first ≤ c.toNat && c.toNat ≤ last

end DeskCalculator.Text
