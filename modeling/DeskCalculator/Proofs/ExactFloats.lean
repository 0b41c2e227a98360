import Mathlib
import DeskCalculator.Number.Text
import DeskCalculator.Proofs.Range

/-!
# Numerals without rounding

A numeral that says exactly what a float is reads back as that float: where nothing has to be
rounded away, rounding changes nothing. This file fixes

* `Canonical` -- a significand and an exponent as a float stores them;
* `roundWithAccuracy_twoTo`, `div_of_canonical` -- rounding and division with a canonical result
  lose nothing;
* `ofMagnitude_of_unpack` -- the bits of a float hold a canonical significand and exponent;
* `Dyadic.exactNumeral`, `value_exactNumeral` -- the numeral that says exactly what a dyadic is, and
  its value;
* `formatNumber_of_pos` -- the text of a positive float.

Main statement: **the shortest numeral of a positive finite float has the float as its value**
(`value_shortest`). The search for it ends on the exact numeral, if not before.
-/

namespace DeskCalculator.Number

open Float.Model Float.Model.UnpackedFloat

/-! ## 1. Canonical significands -/

/-- A significand and an exponent as a float stores them: the exponent is the one that rounding asks
    for. -/
def Canonical (m : Nat) (e : Int) : Prop :=
  Format.binary64.targetExponent (totalExponent m e) = e

theorem canonical_iff {m : Nat} {e : Int} :
    Canonical m e ↔ max ((m.log2 : Int) + e - 52) (-1074) = e := by
  unfold Canonical
  rw [targetExponent_eq, totalExponent]
  omega

theorem log2_mul_twoTo {m : Nat} (hm : 0 < m) (k : Nat) : (m * twoTo k).log2 = m.log2 + k := by
  induction k with
  | zero => rw [twoTo_zero, Nat.mul_one, Nat.add_zero]
  | succ k ih =>
    have hpos : m * twoTo k ≠ 0 := Nat.ne_of_gt (Nat.mul_pos hm (twoTo_pos k))
    rw [twoTo_succ, Nat.mul_left_comm, Nat.log2_two_mul hpos, ih, Nat.add_assoc]

/-- A significand that does not use all bits is canonical at the lowest exponent. -/
theorem canonical_of_lt {m : Nat} (hm : 0 < m) (h : m < twoTo 52) : Canonical m (-1074) := by
  have hlog : m.log2 < 52 := (Nat.log2_lt (Nat.ne_of_gt hm)).2 h
  exact canonical_iff.2 (by omega)

/-- One that uses them all is canonical at every exponent from there on. -/
theorem canonical_of_le {m : Nat} {e : Int} (hlo : twoTo 52 ≤ m) (hhi : m < twoTo 53)
    (he : -1074 ≤ e) : Canonical m e := by
  have hlog : m.log2 = 52 :=
    (Nat.log2_eq_iff (Nat.ne_of_gt (Nat.lt_of_lt_of_le (twoTo_pos 52) hlo))).2 ⟨hlo, hhi⟩
  exact canonical_iff.2 (by omega)

namespace Canonical

variable {m : Nat} {e : Int}

/-- Zeros behind a canonical significand are as many as rounding takes away. -/
theorem shiftFor_eq (h : Canonical m e) (hm : 0 < m) (k : Nat) :
    shiftFor (m * twoTo k) (e - k) = k := by
  have he := canonical_iff.1 h
  unfold shiftFor
  rw [targetExponent_eq, totalExponent, log2_mul_twoTo hm]
  omega

theorem log2_le (h : Canonical m e) : m.log2 ≤ 52 := by
  have he := canonical_iff.1 h
  omega

theorem lowest_le (h : Canonical m e) : -1074 ≤ e := by
  have he := canonical_iff.1 h
  omega

/-- Above the lowest exponent all 53 bits are used. -/
theorem twoTo_le (h : Canonical m e) (hm : 0 < m) (he : -1074 < e) : twoTo 52 ≤ m := by
  have hlog := canonical_iff.1 h
  exact (Nat.le_log2 (Nat.ne_of_gt hm)).1 (by omega)

end Canonical

/-! ## 2. Rounding where nothing is lost -/

/-- Zeros are shifted out without a trace. -/
theorem shiftRight_twoTo (m k : Nat) :
    (ExtendedMantissa.mk (m * twoTo k) false false) >>> k = ⟨m, false, false⟩ := by
  induction k generalizing m with
  | zero =>
    rw [twoTo_zero, Nat.mul_one]
    rfl
  | succ k ih =>
    show ((ExtendedMantissa.mk (m * twoTo (k + 1)) false false) >>> k).shiftRightOne = _
    rw [twoTo_succ, ← Nat.mul_assoc, ih (m * 2), ExtendedMantissa.shiftRightOne]
    simp

theorem shiftToTargetExponent_twoTo {m : Nat} {e : Int} (h : Canonical m e) (hm : 0 < m) (k : Nat) :
    shiftToTargetExponent .binary64 (m * twoTo k) (e - k) .exact = (⟨m, false, false⟩, e) := by
  have hshift := h.shiftFor_eq hm k
  unfold shiftFor at hshift
  unfold shiftToTargetExponent shiftToExponent
  simp only [hshift, ExtendedMantissa.ofMantissaAndAccuracy, shiftRight_twoTo, Int.sub_add_cancel]

/-- **Rounding takes nothing but zeros from a canonical significand.** -/
theorem roundWithAccuracy_twoTo {m : Nat} {e : Int} (h : Canonical m e) (hm : 0 < m) (sign : Sign)
    (k : Nat) :
    roundWithAccuracy .binary64 sign (m * twoTo k) (e - k) .exact = .finite sign m e hm := by
  have hsecond := shiftToTargetExponent_twoTo h hm 0
  rw [twoTo_zero, Nat.mul_one, Int.natCast_zero, Int.sub_zero] at hsecond
  have hrounded : (ExtendedMantissa.mk m false false).roundedMantissa = m := rfl
  unfold roundWithAccuracy
  simp only [shiftToTargetExponent_twoTo h hm k, hrounded, hsecond]
  exact dif_neg (Nat.ne_of_gt hm)

/-- A quotient `m` of `m₁` in units of `2 ^ -k` by `m₂` is not much shorter than they tell. -/
theorem log2_add_le {m m₁ m₂ k : Nat} (pos₁ : 0 < m₁) (h : m₁ * twoTo k = m * m₂) :
    m₁.log2 + k ≤ m.log2 + m₂.log2 + 1 := by
  have hlt : m₁ * twoTo k < twoTo ((m.log2 + 1) + (m₂.log2 + 1)) := by
    rw [h, twoTo_add]
    exact Nat.mul_lt_mul'' (lt_twoTo_succ_log2 m) (lt_twoTo_succ_log2 m₂)
  have hne : m₁ * twoTo k ≠ 0 := Nat.ne_of_gt (Nat.mul_pos pos₁ (twoTo_pos k))
  have hlog := (Nat.log2_lt hne).2 hlt
  rw [log2_mul_twoTo pos₁] at hlog
  omega

/-- **A quotient that is canonical is found exactly**: `m₁ * 2 ^ e₁` divided by `m₂ * 2 ^ e₂` is
    `m * 2 ^ e`. -/
theorem div_of_canonical {m m₁ m₂ : Nat} {e e₁ e₂ : Int} {pos₁ : 0 < m₁} {pos₂ : 0 < m₂}
    (h : Canonical m e) (hm : 0 < m) {k : Nat} (hquotient : m₁ * twoTo k = m * m₂)
    (hexponent : e₁ - e₂ = e + k) :
    UnpackedFloat.div .binary64 (.finite .positive m₁ e₁ pos₁) (.finite .positive m₂ e₂ pos₂) =
      .finite .positive m e hm := by
  have hlog := log2_add_le pos₁ hquotient
  have hwidth := h.log2_le
  have hlowest := h.lowest_le
  unfold UnpackedFloat.div divCore
  dsimp only
  rw [targetExponent_eq, totalExponent, totalExponent]
  generalize hexp : min (e₁ - e₂) _ = t
  -- the division goes on down to `t`, which is `e` or lower: the digits beyond `m` are zeros
  obtain ⟨j, hj⟩ : ∃ j : Nat, (e₁ - e₂ - t).toNat = k + j :=
    Nat.exists_eq_add_of_le (by omega)
  have ht : t = e - j := by omega
  have hdividend : m₁ <<< (k + j) = m * twoTo j * m₂ := by
    rw [Nat.shiftLeft_eq]
    show m₁ * twoTo (k + j) = _
    rw [twoTo_add, ← Nat.mul_assoc, hquotient, Nat.mul_right_comm]
  rw [hj, hdividend, Nat.mul_div_cancel _ pos₂, Nat.mul_mod_left, ht]
  exact roundWithAccuracy_twoTo h hm _ j

/-! ## 3. Numerals that are exact -/

/-- The numeral of a dyadic, with a place for every factor of two that is missing. -/
def Dyadic.exactNumeral (d : Dyadic) : Numeral :=
  ⟨d.significand * twoTo d.exponent.toNat * 5 ^ (-d.exponent).toNat, (-d.exponent).toNat⟩

theorem twoTo_mul_five_pow (n : Nat) : twoTo n * 5 ^ n = tenTo n := (Nat.mul_pow 2 5 n).symm

/-- A whole number is read without rounding, if its zeros in binary are. -/
theorem ofScientific_whole {m k : Nat} (h : Canonical m k) (hm : 0 < m) :
    UnpackedFloat.ofScientific .binary64 (m * twoTo k) 0 = .finite .positive m k hm := by
  have hpos : 0 < m * twoTo k := Nat.mul_pos hm (twoTo_pos k)
  have hbits : (2 : Int) ^ Format.binary64.exponentBits = 2048 := rfl
  unfold UnpackedFloat.ofScientific
  rw [dif_neg (Nat.ne_of_gt hpos), hbits, if_neg (by decide), if_neg (by omega),
    if_pos (by decide)]
  unfold UnpackedFloat.mul
  dsimp only
  -- with the width in digits, shifts by it would be carried out
  generalize Format.binary64.mantissaBits = width
  have hone : 10 ^ (0 : Int).toNat = 1 := rfl
  have hsignificand : (m * twoTo k) <<< width * 1 = m * twoTo (k + width) := by
    rw [Nat.mul_one, Nat.shiftLeft_eq, twoTo_add, Nat.mul_assoc]
    rfl
  have hexponent : -(width : Int) + 0 = k - (k + width : Nat) := by omega
  rw [hone, hsignificand, hexponent]
  exact roundWithAccuracy_twoTo h hm _ _

/-- A fraction is read without rounding, if it has a place for every halving. -/
theorem ofScientific_fraction {m k : Nat} (h : Canonical m (-k)) (hm : 0 < m) (hk : 0 < k) :
    UnpackedFloat.ofScientific .binary64 (m * 5 ^ k) (-k) = .finite .positive m (-k) hm := by
  have hpos : 0 < m * 5 ^ k := Nat.mul_pos hm (Nat.pow_pos (by decide))
  have hbits : (2 : Int) ^ Format.binary64.exponentBits = 2048 := rfl
  have hlowest := h.lowest_le
  have hplaces : (- -(k : Int)).toNat = k := by omega
  unfold UnpackedFloat.ofScientific
  rw [dif_neg (Nat.ne_of_gt hpos), hbits, if_neg (by omega), if_neg (by omega), if_neg (by omega)]
  refine div_of_canonical h hm (k := k) ?_ (by omega)
  calc m * 5 ^ k * twoTo k = m * (twoTo k * 5 ^ k) := by rw [Nat.mul_assoc, Nat.mul_comm (5 ^ k)]
    _ = m * tenTo k := by rw [twoTo_mul_five_pow]
    _ = m * 10 ^ (- -(k : Int)).toNat := by rw [hplaces]; rfl

/-- **An exact numeral is read without rounding.** -/
theorem ofScientific_exactNumeral {m : Nat} {e : Int} (h : Canonical m e) (hm : 0 < m) :
    UnpackedFloat.ofScientific .binary64 (Dyadic.mk m e).exactNumeral.units
      (-(Dyadic.mk m e).exactNumeral.places) = .finite .positive m e hm := by
  cases e with
  | ofNat k =>
    have hplaces : (Dyadic.mk m (.ofNat k)).exactNumeral.places = 0 := by
      show (-(k : Int)).toNat = 0
      omega
    have hunits : (Dyadic.mk m (.ofNat k)).exactNumeral.units = m * twoTo k := by
      show m * twoTo k * 5 ^ (Dyadic.mk m (.ofNat k)).exactNumeral.places = m * twoTo k
      rw [hplaces, Nat.pow_zero, Nat.mul_one]
    rw [hplaces, hunits]
    exact ofScientific_whole h hm
  | negSucc k =>
    have hunits : (Dyadic.mk m (.negSucc k)).exactNumeral.units = m * 5 ^ (k + 1) := by
      show m * 1 * 5 ^ (k + 1) = _
      rw [Nat.mul_one]
    have hplaces : (Dyadic.mk m (.negSucc k)).exactNumeral.places = k + 1 := rfl
    rw [hunits, hplaces]
    exact ofScientific_fraction (k := k + 1) h hm (Nat.succ_pos k)

/-! ## 4. The bits of a float -/

section Bits

variable (x : Float)

/-- The bits of a float, as many as the format says. -/
def bitsOf : BitVec Format.binary64.numBits := x.toBits.toBitVec

theorem toNat_unpackMantissa : (unpackMantissa (bitsOf x)).toNat = x.toBits.toNat % twoTo 52 := by
  rw [unpackMantissa_def, BitVec.extractLsb'_toNat]
  rfl

theorem toNat_unpackExponent :
    (unpackExponent (bitsOf x)).toNat = x.toBits.toNat / twoTo 52 % twoTo 11 := by
  rw [unpackExponent_def, BitVec.extractLsb'_toNat, Nat.shiftRight_eq_div_pow]
  rfl

theorem toNat_unpackSign : (unpackSign (bitsOf x)).toNat = x.toBits.toNat / twoTo 63 := by
  have hlt : x.toBits.toNat / twoTo 63 < 2 :=
    (Nat.div_lt_iff_lt_mul (twoTo_pos 63)).2 (bitsOf x).isLt
  rw [unpackSign_def, BitVec.extractLsb'_toNat, Nat.shiftRight_eq_div_pow]
  exact Nat.mod_eq_of_lt hlt

/-- The hidden leading bit. -/
theorem toNat_one_append (mantissa : BitVec 52) :
    (1#1 ++ mantissa).toNat = twoTo 52 + mantissa.toNat := by
  rw [BitVec.toNat_append, ← Nat.shiftLeft_add_eq_or_of_lt mantissa.isLt]
  rfl

end Bits

section Parts

variable {x : Float} {sign : Sign} {m : Nat} {e : Int} {pos : 0 < m}

/-- **The bits of a float hold its significand and its exponent**, and these are canonical. -/
theorem ofMagnitude_of_unpack (h : x.toModel.unpack = .finite sign m e pos) :
    Dyadic.ofMagnitude x = ⟨m, e⟩ ∧ Canonical m e := by
  have hwidth : (unpackMantissa (bitsOf x)).toNat < twoTo 52 := BitVec.isLt _
  have hbias : (Format.binary64.exponentBias : Int) = 1023 := rfl
  change UnpackedFloat.unpack .binary64 (bitsOf x) = _ at h
  unfold Dyadic.ofMagnitude
  dsimp only
  rw [← toNat_unpackMantissa, ← toNat_unpackExponent]
  unfold UnpackedFloat.unpack at h
  dsimp only at h
  split at h
  · split at h <;> cases h
  · split at h
    · next hnone =>
      have hzero : (unpackExponent (bitsOf x)).toNat = 0 := congrArg BitVec.toNat hnone
      split at h
      · cases h
      · cases h
        have he : ((unpackExponent (bitsOf x)).toNat : Int) -
            (Format.binary64.exponentBias + (52 : Nat)) + 1 = -1074 := by omega
        rw [if_pos hzero, he]
        exact ⟨rfl, canonical_of_lt pos hwidth⟩
    · next hnone =>
      cases h
      have hsome : (unpackExponent (bitsOf x)).toNat ≠ 0 := by
        intro hzero
        exact hnone (BitVec.eq_of_toNat_eq hzero)
      have hm := toNat_one_append (unpackMantissa (bitsOf x))
      have he : ((unpackExponent (bitsOf x)).toNat : Int) -
          (Format.binary64.exponentBias + (52 : Nat)) =
            lowestExponent + ((unpackExponent (bitsOf x)).toNat - 1 : Nat) := by
        unfold lowestExponent
        omega
      rw [if_neg hsome, ← hm, ← he]
      exact ⟨rfl, canonical_of_le (hm ▸ Nat.le_add_right _ _) (BitVec.isLt _) (by omega)⟩

theorem isNegative_of_unpack (h : x.toModel.unpack = .finite .positive m e pos) :
    isNegative x = false := by
  have hsign : Sign.ofBitVec (unpackSign (bitsOf x)) = .positive := by
    change UnpackedFloat.unpack .binary64 (bitsOf x) = _ at h
    unfold UnpackedFloat.unpack at h
    dsimp only at h
    split at h
    · split at h <;> cases h
    · split at h
      · split at h
        · cases h
        · injection h
      · injection h
  have hzero : unpackSign (bitsOf x) = 0#1 := by
    unfold Sign.ofBitVec at hsign
    split at hsign
    · assumption
    · cases hsign
  unfold isNegative
  rw [← toNat_unpackSign, hzero]
  rfl

end Parts

/-- A positive finite float is a significand with an exponent. -/
theorem exists_unpack_of_pos {x : Float} (hfinite : x.isFinite = true) (hx : 0 ≤ x)
    (hne : (x == 0) = false) : ∃ m e pos, x.toModel.unpack = .finite .positive m e pos := by
  have hzero : (0 : Float).toModel.unpack = .zero .positive := rfl
  have hx : UnpackedFloat.le (0 : Float).toModel.unpack x.toModel.unpack = true :=
    of_decide_eq_true hx
  change x.toModel.unpack.isFinite = true at hfinite
  change x.toModel.unpack.beq (0 : Float).toModel.unpack = false at hne
  rw [hzero] at hx hne
  generalize x.toModel.unpack = u at hfinite hx hne
  cases u with
  | infinity sign => cases hfinite
  | notANumber => cases hfinite
  | zero sign => cases hne
  | finite sign m e pos =>
    cases sign with
    | negative => cases hx
    | positive => exact ⟨m, e, pos, rfl⟩

/-! ## 5. The value of the shortest numeral -/

/-- Among the exact numerals, those short enough to be read as a quotient of two floats have no
    places and no zeros in binary. -/
theorem Canonical.exponent_eq_zero {m : Nat} {e : Int} (h : Canonical m e) (hm : 0 < m)
    (hunits : m * twoTo e.toNat * 5 ^ (-e).toNat < twoTo 53) (hplaces : (-e).toNat ≤ 22) :
    e = 0 := by
  have hfull : twoTo 52 ≤ m := h.twoTo_le hm (by omega)
  have htwo : e.toNat < twoTo e.toNat := Nat.lt_two_pow_self
  have hfive : (-e).toNat < 5 ^ (-e).toNat := Nat.lt_pow_self (by decide)
  have hscale : twoTo e.toNat * 5 ^ (-e).toNat < 2 := by
    refine Nat.lt_of_mul_lt_mul_left (a := twoTo 52) (Nat.lt_of_le_of_lt ?_ hunits)
    rw [Nat.mul_assoc m]
    exact Nat.mul_le_mul_right _ hfull
  have hle₁ : twoTo e.toNat ≤ twoTo e.toNat * 5 ^ (-e).toNat := Nat.le_mul_of_pos_right _ (by omega)
  have hle₂ : 5 ^ (-e).toNat ≤ twoTo e.toNat * 5 ^ (-e).toNat := Nat.le_mul_of_pos_left _ (by omega)
  omega

section Value

variable {x : Float} {m : Nat} {e : Int} {pos : 0 < m}

theorem ofNat_of_canonical (h : Canonical m 0) (pos : 0 < m) :
    UnpackedFloat.ofNat .binary64 m = .finite .positive m 0 pos := by
  have hcompare : compare (m : Int) 0 = .gt := Int.compare_eq_gt.2 (by omega)
  have htarget : Format.binary64.targetExponent (totalExponent m 0) = 0 := h
  have hround := roundWithAccuracy_twoTo h pos .positive 0
  rw [twoTo_zero, Nat.mul_one] at hround
  simp only [UnpackedFloat.ofNat, UnpackedFloat.ofInt, UnpackedFloat.normalize, hcompare,
    UnpackedFloat.round, Int.toNat_natCast, htarget, decreaseExponent]
  exact hround

/-- A float without an exponent is read from its significand. -/
theorem toFloat_of_unpack (h : x.toModel.unpack = .finite .positive m 0 pos) :
    m.toUInt64.toFloat = x := by
  obtain ⟨-, hcanonical⟩ := ofMagnitude_of_unpack h
  have hwidth : m < twoTo 53 :=
    (Nat.log2_lt (Nat.ne_of_gt pos)).1 (Nat.lt_succ_of_le hcanonical.log2_le)
  have hsize : twoTo 53 < UInt64.size := by decide
  have hnat : m.toUInt64.toNat = m := Nat.mod_eq_of_lt (Nat.lt_trans hwidth hsize)
  show Float.ofModel (Float.Model.pack (UnpackedFloat.ofNat .binary64 m.toUInt64.toNat)) = x
  rw [hnat, ofNat_of_canonical hcanonical pos, ← h]
  exact Float.ofBits_toBits x

/-- A short numeral without places is divided by one. -/
theorem Numeral.value_of_short {n : Numeral} (hunits : n.units < 2 ^ 53) (hplaces : n.places = 0) :
    n.value = n.units.toUInt64.toFloat / Float.exactlyRepresentablePowersOfTen[0] := by
  obtain ⟨units, places⟩ := n
  cases hplaces
  unfold value Float.ofScientific
  rw [dif_pos ⟨hunits, Nat.zero_le _⟩]
  rfl

/-- A long numeral is rounded once. -/
theorem Numeral.value_of_long {n : Numeral} (h : ¬ (n.units < 2 ^ 53 ∧ n.places ≤ 22)) :
    n.value = Float.ofModel
      (Float.Model.pack (UnpackedFloat.ofScientific .binary64 n.units (-n.places))) := by
  unfold value Float.ofScientific
  rw [dif_neg h]
  rfl

/-- **The exact numeral of a positive float has the float as its value.** -/
theorem value_exactNumeral (h : x.toModel.unpack = .finite .positive m e pos) :
    (Dyadic.mk m e).exactNumeral.value = x := by
  obtain ⟨-, hcanonical⟩ := ofMagnitude_of_unpack h
  by_cases hshort : (Dyadic.mk m e).exactNumeral.units < 2 ^ 53 ∧
      (Dyadic.mk m e).exactNumeral.places ≤ 22
  · have he : e = 0 := hcanonical.exponent_eq_zero pos hshort.1 hshort.2
    subst he
    have hunits : (Dyadic.mk m 0).exactNumeral.units = m := by
      show m * 1 * 1 = m
      omega
    have hone : Float.exactlyRepresentablePowersOfTen[0].toModel.unpack =
        .finite .positive (twoTo 52) (-52) (twoTo_pos 52) := rfl
    have hquotient : UnpackedFloat.div .binary64 x.toModel.unpack
        Float.exactlyRepresentablePowersOfTen[0].toModel.unpack = x.toModel.unpack := by
      rw [h, hone]
      exact div_of_canonical hcanonical pos (k := 52) rfl rfl
    rw [Numeral.value_of_short hshort.1 rfl, hunits, toFloat_of_unpack h]
    refine Eq.trans ?_ (Float.ofBits_toBits x)
    exact congrArg (fun u => Float.ofModel (Float.Model.pack u)) hquotient
  · rw [Numeral.value_of_long hshort, ofScientific_exactNumeral hcanonical pos, ← h]
    exact Float.ofBits_toBits x

end Value

/-- The grid that a dyadic lies on holds its exact numeral. -/
theorem onGrid_exactGrid (d : Dyadic) :
    .onGrid ((d.over (exactGrid d)).1 / (d.over (exactGrid d)).2) (exactGrid d) =
      d.exactNumeral := by
  have hwhole : (exactGrid d).toNat = 0 := by
    unfold exactGrid
    omega
  have hplaces : (-exactGrid d).toNat = (-d.exponent).toNat := by
    unfold exactGrid
    omega
  have hnum : d.significand * twoTo d.exponent.toNat * tenTo (-d.exponent).toNat =
      d.exactNumeral.units * twoTo (-d.exponent).toNat := by
    rw [← twoTo_mul_five_pow, Nat.mul_comm (twoTo (-d.exponent).toNat), ← Nat.mul_assoc]
    rfl
  unfold Numeral.onGrid Dyadic.over
  simp only [hwhole, hplaces, tenTo_zero, Nat.mul_one, hnum, Nat.mul_div_cancel _ (twoTo_pos _)]
  rfl

theorem exactGrid_le_coarsestGrid (d : Dyadic) : exactGrid d ≤ coarsestGrid d := by
  unfold exactGrid coarsestGrid
  omega

/-- **The search for the shortest numeral finds one that reads back**, or ends on the exact one. -/
theorem value_beq_or_eq_exactNumeral (x : Float) :
    ((shortest x).value == x) = true ∨ shortest x = (Dyadic.ofMagnitude x).exactNumeral := by
  refine (reads_searchGrids (·.value == x) _ _ _).imp_right fun hlast => ?_
  have hle := exactGrid_le_coarsestGrid (Dyadic.ofMagnitude x)
  have hgrid : coarsestGrid (Dyadic.ofMagnitude x) -
      ((coarsestGrid (Dyadic.ofMagnitude x) - exactGrid (Dyadic.ofMagnitude x)).toNat : Int) =
      exactGrid (Dyadic.ofMagnitude x) := by omega
  rw [hgrid, onGrid_exactGrid] at hlast
  exact hlast

theorem eq_of_beq_of_ne_zero {x y : Float} (h : (x == y) = true) (hne : (y == 0) = false) :
    x = y := by
  obtain ⟨-, -, heq | ⟨-, rfl⟩ | ⟨-, rfl⟩⟩ := Float.beq_iff_ne_nan_and_eq.1 h
  · exact heq
  · cases hne
  · cases hne

/-- **The shortest numeral of a positive finite float has the float as its value.** -/
theorem value_shortest {x : Float} (hfinite : x.isFinite = true) (hx : 0 ≤ x)
    (hne : (x == 0) = false) : (shortest x).value = x := by
  obtain ⟨m, e, pos, hunpack⟩ := exists_unpack_of_pos hfinite hx hne
  rcases value_beq_or_eq_exactNumeral x with hbeq | hexact
  · exact eq_of_beq_of_ne_zero hbeq hne
  · rw [hexact, (ofMagnitude_of_unpack hunpack).1]
    exact value_exactNumeral hunpack

/-! ## 6. The text of a float -/

theorem abs_of_unpack {x : Float} {m : Nat} {e : Int} {pos : 0 < m}
    (h : x.toModel.unpack = .finite .positive m e pos) : x.abs = x := by
  have habs : x.toModel.unpack.abs = x.toModel.unpack := by
    rw [h]
    rfl
  show Float.ofModel (Float.Model.pack x.toModel.unpack.abs) = x
  rw [habs]
  exact Float.ofBits_toBits x

/-- **A positive finite float is written as its shortest numeral**, without a sign. -/
theorem formatNumber_of_pos {x : Float} (hfinite : x.isFinite = true) (hx : 0 ≤ x)
    (hne : (x == 0) = false) : formatNumber x = String.ofList (shortest x).text := by
  obtain ⟨m, e, pos, hunpack⟩ := exists_unpack_of_pos hfinite hx hne
  have hnan : x.isNaN = false := by
    show x.toModel.unpack.isNaN = false
    rw [hunpack]
    rfl
  have hinf : x.isInf = false := by
    show x.toModel.unpack.isInf = false
    rw [hunpack]
    rfl
  have hsign : answerStyle.sign x = "" := by
    rw [NumberStyle.sign, isNegative_of_unpack hunpack]
    rfl
  have hmagnitude : answerStyle.magnitude x = String.ofList (shortest x).text := by
    rw [NumberStyle.magnitude, hinf, hne, abs_of_unpack hunpack]
    rfl
  rw [formatNumber, NumberStyle.render, hnan, hsign, hmagnitude]
  exact String.empty_append

/-- **Both zeros are written alike.** -/
theorem formatNumber_of_zero {x : Float} (h : (x == 0) = true) : formatNumber x = "0" := by
  obtain ⟨-, -, rfl | ⟨rfl, -⟩ | ⟨rfl, -⟩⟩ := Float.beq_iff_ne_nan_and_eq.1 h
  · decide +kernel
  · decide +kernel
  · decide +kernel

end DeskCalculator.Number
