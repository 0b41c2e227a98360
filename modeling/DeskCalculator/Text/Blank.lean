import DeskCalculator.Text.Ranges

/-!
# Blank space around a text

A character is *blank* when it has the Unicode property White_Space: twenty-five characters in
ten ranges. This file fixes

* `isBlank` -- the property;
* `dropEndWhile` -- cutting at the end, and `trim` -- cutting blanks at both ends.
-/

namespace DeskCalculator.Text

/-! ## 1. Blank characters -/

/-- The ranges of the property White_Space, both ends included. -/
def blankRanges : Ranges :=
  [(0x9, 0xd), (0x20, 0x20), (0x85, 0x85), (0xa0, 0xa0), (0x1680, 0x1680), (0x2000, 0x200a),
    (0x2028, 0x2029), (0x202f, 0x202f), (0x205f, 0x205f), (0x3000, 0x3000)]

/-- A character of the property White_Space. -/
def isBlank (c : Char) : Bool := inRanges blankRanges c

/-! ## 2. Cutting -/

/-- The list without its longest end of elements that satisfy `p`. -/
def dropEndWhile {α : Type} (p : α → Bool) (xs : List α) : List α :=
  (xs.reverse.dropWhile p).reverse

/-- The text without blanks at either end. -/
def trim (cs : List Char) : List Char :=
  dropEndWhile isBlank (cs.dropWhile isBlank)

end DeskCalculator.Text
