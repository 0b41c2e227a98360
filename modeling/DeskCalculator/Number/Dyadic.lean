import DeskCalculator.Number.Power

/-!
# Floats as `significand * 2 ^ exponent`

Every finite float is a whole number times a power of two. On that form, exact arithmetic is
arithmetic of naturals.

* `Dyadic`, `Dyadic.ofMagnitude` -- the form of a float's magnitude, read from its bits;
* `Dyadic.toFloat` -- back to a float, exact for every dyadic that a float holds;
* `Dyadic.mod` -- the exact remainder of two dyadics, and `remainder`, the remainder of two
  floats: it has the sign of the dividend, and no rounding takes place;
* `Dyadic.nearestNat` -- the nearest whole number, a half going up, and `roundToWhole`, the nearest
  whole float, a half going away from zero; `isWhole` -- the floats that are whole already.
-/

namespace DeskCalculator.Number

/-- The number `significand * 2 ^ exponent`. -/
structure Dyadic where
  significand : Nat
  exponent : Int
  deriving Repr, DecidableEq

/-- The exponent of the last place of the smallest floats. -/
def lowestExponent : Int := -1074

namespace Dyadic

/-! ## 1. From and to floats -/

/-- The magnitude of a finite float. A zero exponent field marks the floats without a hidden
    leading bit. -/
def ofMagnitude (x : Float) : Dyadic :=
  let bits := x.toBits.toNat
  let fraction := bits % twoTo 52
  let field := bits / twoTo 52 % twoTo 11
  if field = 0 then ⟨fraction, lowestExponent⟩
  else ⟨twoTo 52 + fraction, lowestExponent + (field - 1 : Nat)⟩

/-- The places by which the significand moves up to fill its 53 bits, as far as the lowest exponent
    allows. -/
def slack (d : Dyadic) : Nat :=
  min (52 - d.significand.log2) (d.exponent - lowestExponent).toNat

/-- The float equal to a dyadic below `2 ^ 1024` with at most 53 significant bits and no bit under
    the lowest exponent. -/
def toFloat (d : Dyadic) : Float :=
  if d.significand = 0 then 0
  else
    let significand := d.significand * twoTo d.slack
    let field := (d.exponent - lowestExponent).toNat - d.slack
    Float.ofBits (UInt64.ofNat (field * twoTo 52 + significand))

/-! ## 2. Remainders -/

/-- The exact remainder, on the smaller of the two exponents. -/
def mod (a b : Dyadic) : Dyadic :=
  let e := min a.exponent b.exponent
  ⟨a.significand * twoTo (a.exponent - e).toNat %
    (b.significand * twoTo (b.exponent - e).toNat), e⟩

end Dyadic

/-- Whether the sign bit of the float is set. -/
def isNegative (x : Float) : Bool := x.toBits.toNat / twoTo 63 = 1

/-- The remainder of `x` by `y`, with the sign of `x`: what is left of `x` after subtracting `y`
    as often as the quotient, cut to a whole number, says. -/
def remainder (x y : Float) : Float :=
  if x.isNaN || y.isNaN || x.isInf || y == 0 then 0 / 0
  else if y.isInf then x
  else
    let r := ((Dyadic.ofMagnitude x).mod (Dyadic.ofMagnitude y)).toFloat
    if isNegative x then -r else r

/-! ## 3. Whole numbers -/

namespace Dyadic

/-- The whole number nearest to a dyadic, the greater one if two are. -/
def nearestNat (d : Dyadic) : Nat :=
  let below := twoTo (-d.exponent).toNat
  (2 * (d.significand * twoTo d.exponent.toNat) + below) / (2 * below)

/-- Whether a dyadic is a whole number. -/
def isWhole (d : Dyadic) : Bool := d.significand % twoTo (-d.exponent).toNat = 0

end Dyadic

/-- The whole float nearest to `x`, away from zero if two are. A float without places under the
    point is whole. -/
def roundToWhole (x : Float) : Float :=
  let d := Dyadic.ofMagnitude x
  if !x.isFinite || 0 ≤ d.exponent then x
  else
    let r := (Dyadic.mk d.nearestNat 0).toFloat
    if isNegative x then -r else r

/-- Whether a float is a whole number. -/
def isWhole (x : Float) : Bool := x.isFinite && (Dyadic.ofMagnitude x).isWhole

end DeskCalculator.Number
