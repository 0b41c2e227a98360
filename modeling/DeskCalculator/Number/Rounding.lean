import DeskCalculator.Number.Dyadic

/-!
# Rounding to decimal places

A value is rounded by scaling it with a power of ten, rounding to a whole number, halves away from
zero, and scaling back. Where the scale or the scaled value is out of range the value has no digit
to lose, and stays.

* `timesPower` -- a power by squaring, in the order that fixes its last bits;
* `powerOfTen`, `isNormal` -- the scale, and whether it can be used;
* `roundTo` -- the rounding; a value that is not finite is returned unchanged.
-/

namespace DeskCalculator.Number

/-- The product `r * a ^ n`, by squaring `a` along the binary digits of `n`, lowest first. -/
def timesPower (r a : Float) (n : Nat) : Float :=
  let r' := if n % 2 = 1 then r * a else r
  if n / 2 = 0 then r' else timesPower r' (a * a) (n / 2)
  termination_by n
  decreasing_by omega

/-- The power `10 ^ n`; a negative exponent inverts the power of its magnitude. -/
def powerOfTen (n : Int) : Float :=
  let power := timesPower 1 10 n.natAbs
  if n < 0 then 1 / power else power

/-- The least positive float with a full significand, `2 ^ -1022`. -/
def leastNormal : Float := Float.ofBits 0x0010000000000000

/-- A finite float with a full significand. -/
def isNormal (x : Float) : Bool := x.isFinite && leastNormal ≤ x.abs

/-- The value rounded to `places` decimal places, halves away from zero; a negative count rounds to
    tens, hundreds and so on. -/
def roundTo (value : Float) (places : Int) : Float :=
  let factor := powerOfTen places
  let scaled := value * factor
  if value.isFinite && isNormal factor && scaled.isFinite then roundToWhole scaled / factor
  else value

end DeskCalculator.Number
