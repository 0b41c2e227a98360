import DeskCalculator.Number.Dyadic
import DeskCalculator.Number.Numeral

/-!
# The shortest numeral of a float

Among the numerals that read back as a float, the shortest one stands on the coarsest grid of
multiples of a power of ten that holds any; of two on that grid it is the nearer, and of two at one
distance the greater.

* `Dyadic.over` -- a number in units of `10 ^ k`, as a quotient of naturals;
* `nearestOnGrid?` -- the choice on one grid: only the two neighbours of the number can read back
  as long as no coarser grid holds one that does;
* `searchGrids` -- the first grid, from coarse to fine, with a choice; what it finds satisfies the
  test or lies on the finest grid (`reads_searchGrids`);
* `shortest` -- the search down to the grid that holds the number itself.
-/

namespace DeskCalculator.Number

/-- The number `d / 10 ^ k` as numerator and denominator. -/
def Dyadic.over (d : Dyadic) (k : Int) : Nat × Nat :=
  (d.significand * twoTo d.exponent.toNat * tenTo (-k).toNat,
    twoTo (-d.exponent).toNat * tenTo k.toNat)

/-- The numeral of `count * 10 ^ k`. -/
def Numeral.onGrid (count : Nat) (k : Int) : Numeral :=
  ⟨count * tenTo k.toNat, (-k).toNat⟩

/-- The numeral on the grid of multiples of `10 ^ k` that satisfies `reads` and lies next to `d`:
    the nearer if both neighbours satisfy it, the greater if they are equally near. -/
def nearestOnGrid? (reads : Numeral → Bool) (d : Dyadic) (k : Int) : Option Numeral :=
  let num := (d.over k).1
  let den := (d.over k).2
  let below := Numeral.onGrid (num / den) k
  let above := Numeral.onGrid (num / den + 1) k
  if reads below && (!reads above || 2 * (num % den) < den) then some below
  else if reads above then some above
  else none

/-- **What a grid offers satisfies the test.** -/
theorem reads_of_nearestOnGrid? {reads : Numeral → Bool} {d : Dyadic} {k : Int} {n : Numeral}
    (h : nearestOnGrid? reads d k = some n) : reads n = true := by
  simp only [nearestOnGrid?] at h
  split at h
  · next hb => cases h; simp only [Bool.and_eq_true] at hb; exact hb.1
  · split at h
    · next ha => cases h; exact ha
    · cases h

/-- The choice of the first grid that has one, from `10 ^ k` down; after `steps` grids without one,
    the neighbour below on the grid reached. -/
def searchGrids (reads : Numeral → Bool) (d : Dyadic) (k : Int) : Nat → Numeral
  | 0 => .onGrid ((d.over k).1 / (d.over k).2) k
  | steps + 1 => (nearestOnGrid? reads d k).getD (searchGrids reads d (k - 1) steps)

/-- **The search ends with a numeral that satisfies the test**, or with the neighbour below on the
    finest grid. -/
theorem reads_searchGrids (reads : Numeral → Bool) (d : Dyadic) (k : Int) (steps : Nat) :
    reads (searchGrids reads d k steps) = true ∨
      searchGrids reads d k steps =
        .onGrid ((d.over (k - steps)).1 / (d.over (k - steps)).2) (k - steps) := by
  induction steps generalizing k with
  | zero => exact .inr (by simp [searchGrids])
  | succ steps ih =>
    simp only [searchGrids]
    cases h : nearestOnGrid? reads d k with
    | some n => exact .inl (reads_of_nearestOnGrid? h)
    | none =>
      have hk : k - ((steps + 1 : Nat) : Int) = k - 1 - (steps : Int) := by omega
      simp only [Option.getD_none, hk]
      exact ih (k - 1)

/-- A grid too coarse for `d`: `10 ^ k` is more than twice `d`, as `3 / 10` is just under the
    logarithm of two. -/
def coarsestGrid (d : Dyadic) : Int := (d.exponent + d.significand.log2 + 1) * 3 / 10 + 2

/-- The finest grid worth a look: `d` itself lies on it. -/
def exactGrid (d : Dyadic) : Int := min d.exponent 0

/-- The shortest numeral that reads back as the positive finite float `x`. -/
def shortest (x : Float) : Numeral :=
  let d := Dyadic.ofMagnitude x
  searchGrids (·.value == x) d (coarsestGrid d) (coarsestGrid d - exactGrid d).toNat

end DeskCalculator.Number
