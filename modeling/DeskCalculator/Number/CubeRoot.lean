import DeskCalculator.Number.Dyadic

/-!
# Cube roots

The float nearest to a cube root, found in exact arithmetic: a root to 54 bits decides how its 53
bits are rounded, since no cube root of a float lies halfway between two floats.

* `floorCubeRoot` -- the cube root of a natural number, rounded down, bit by bit from the highest;
* `cubeRoot` -- the cube root of a float.
-/

namespace DeskCalculator.Number

/-! ## 1. Naturals -/

/-- The root `root` of a number at most `n`, with its lowest `bits` bits still to be chosen. -/
def refineCubeRoot (n : Nat) : Nat → Nat → Nat
  | 0, root => root
  | bits + 1, root =>
    refineCubeRoot n bits (if cube (root + twoTo bits) ≤ n then root + twoTo bits else root)

/-- The greatest number whose cube is at most `n`. -/
def floorCubeRoot (n : Nat) : Nat := refineCubeRoot n (n.log2 / 3 + 1) 0

/-! ## 2. Floats -/

/-- The cube root of a positive dyadic of at most 53 bits, rounded to 53 bits. The significand is
    first moved up to between 157 and 159 bits, so that a third of the exponent is whole. -/
def Dyadic.cubeRoot (d : Dyadic) : Dyadic :=
  let least : Nat := 156 - d.significand.log2
  let extra : Nat := ((d.exponent - least) % 3).toNat
  let moved := d.significand * twoTo (least + extra)
  ⟨(floorCubeRoot (8 * moved) + 1) / 2, (d.exponent - least - extra) / 3⟩

/-- The float nearest to the cube root of `x`, with the sign of `x`. -/
def cubeRoot (x : Float) : Float :=
  if !x.isFinite || x == 0 then x
  else
    let r := (Dyadic.ofMagnitude x).cubeRoot.toFloat
    if isNegative x then -r else r

end DeskCalculator.Number
