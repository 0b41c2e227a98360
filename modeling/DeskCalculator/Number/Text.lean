import DeskCalculator.Number.Shortest

/-!
# Numbers as text

A number is written with the digits of its shortest numeral, never with an exponent. Two places
write numbers, and they differ in infinities and in the sign of zero:

* `NumberStyle` -- what they differ in, `answerStyle` and `logStyle` -- the two;
* `NumberStyle.render` -- the text of a float in a style; `formatNumber` -- the text of an answer.
-/

namespace DeskCalculator.Number

/-- What a place that writes numbers decides for itself. -/
structure NumberStyle where
  /-- The text of positive infinity. -/
  infinity : String
  /-- Whether a negative zero keeps its sign. -/
  signedZero : Bool

/-- Answers call infinity by its name and know one zero. -/
def answerStyle : NumberStyle := ⟨"Infinity", false⟩

/-- Log records write infinity short and tell the two zeros apart. -/
def logStyle : NumberStyle := ⟨"inf", true⟩

namespace NumberStyle

/-- The sign to write before the magnitude of `x`. -/
def sign (style : NumberStyle) (x : Float) : String :=
  if isNegative x && (style.signedZero || x != 0) then "-" else ""

/-- The text of the magnitude of `x`, which is a number. -/
def magnitude (style : NumberStyle) (x : Float) : String :=
  if x.isInf then style.infinity
  else if x == 0 then "0"
  else String.ofList (shortest x.abs).text

/-- The text of a float. -/
def render (style : NumberStyle) (x : Float) : String :=
  if x.isNaN then "NaN" else style.sign x ++ style.magnitude x

end NumberStyle

/-- The text of an answer. -/
def formatNumber (x : Float) : String := answerStyle.render x

end DeskCalculator.Number
