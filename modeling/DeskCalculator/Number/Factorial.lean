import DeskCalculator.Number.Dyadic

/-!
# Factorials

The factorial of a float is the product `2 * 3 * …` of the whole numbers up to it, so it is 1 for
every operand under two and for NaN. Past 170 the product is out of range.

* `factorial` -- the product; `hasFactorial` -- where it is the factorial of mathematics.
-/

namespace DeskCalculator.Number

/-- The greatest operand whose factorial is finite. -/
def greatestFactor : Nat := 170

/-- The whole numbers from 2 to `x`, smallest first. -/
def factors (x : Float) : List Float :=
  ((List.range' 2 (greatestFactor - 1)).map Float.ofNat).takeWhile (· ≤ x)

/-- The product of the whole numbers from 2 to `x`, from the smallest on. -/
def factorial (x : Float) : Float :=
  if x > Float.ofNat greatestFactor then 1 / 0 else (factors x).foldl (· * ·) 1

/-- Whether `x` is a whole number from zero on. -/
def hasFactorial (x : Float) : Bool := 0 ≤ x && isWhole x

end DeskCalculator.Number
