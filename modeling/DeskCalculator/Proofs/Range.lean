import DeskCalculator.Number.Numeral

/-!
# Numerals with finite values

A numeral is infinite only if it is too long. This file follows its value through the arithmetic that
rounds it, and fixes

* `Within` -- zero or finite, with a significand of 53 bits and no large exponent;
* `within_roundWithAccuracy`, `within_unpack_pack` -- rounding and packing stay within the exponent
  that the magnitude asks for;
* `within_div`, `within_ofNat`, `within_ofScientific` -- so do the operations that read a numeral.

Main statement: **a numeral with at most 308 digits before its point has a finite value**
(`Numeral.isFinite_value_of_length`).
-/

namespace DeskCalculator.Number

open Float.Model Float.Model.UnpackedFloat

/-! ## 1. Shifting a significand -/

theorem mantissa_shiftRight (em : ExtendedMantissa) (k : Nat) :
    (em >>> k).mantissa = em.mantissa / twoTo k := by
  induction k with
  | zero => exact (Nat.div_one _).symm
  | succ k ih =>
    show (em >>> k).mantissa / 2 = _
    rw [ih, Nat.div_div_eq_div_mul, twoTo_succ, Nat.mul_comm]

theorem roundedMantissa_le (em : ExtendedMantissa) : em.roundedMantissa ≤ em.mantissa + 1 := by
  obtain ⟨m, roundBit, stickyBit⟩ := em
  cases roundBit <;> cases stickyBit <;>
    simp only [ExtendedMantissa.roundedMantissa, ExtendedMantissa.accuracy,
      Accuracy.roundToNearestEven] <;> omega

/-- How far a significand is shifted to the right to have 53 bits. -/
def shiftFor (m : Nat) (e : Int) : Nat :=
  (Format.binary64.targetExponent (totalExponent m e) - e).toNat

theorem shiftToTargetExponent_eq (m : Nat) (e : Int) (accuracy : Accuracy) :
    (shiftToTargetExponent .binary64 m e accuracy).1.mantissa = m / twoTo (shiftFor m e) ∧
      (shiftToTargetExponent .binary64 m e accuracy).2 = e + shiftFor m e := by
  refine ⟨?_, rfl⟩
  have hmantissa : (ExtendedMantissa.ofMantissaAndAccuracy m accuracy).mantissa = m := by
    unfold ExtendedMantissa.ofMantissaAndAccuracy
    split <;> rfl
  exact (mantissa_shiftRight _ _).trans (by rw [hmantissa]; rfl)

theorem targetExponent_eq (n : Int) : Format.binary64.targetExponent n = max (n - 53) (-1074) := rfl

/-- After the shift 53 bits are left. -/
theorem div_shiftFor_lt (m : Nat) (e : Int) : m / twoTo (shiftFor m e) < twoTo 53 := by
  have hlog : m.log2 + 1 ≤ 53 + shiftFor m e := by
    unfold shiftFor
    rw [targetExponent_eq, totalExponent]
    omega
  rw [Nat.div_lt_iff_lt_mul (twoTo_pos _), ← twoTo_add]
  exact Nat.lt_of_lt_of_le (lt_twoTo_succ_log2 m) (twoTo_le_twoTo hlog)

/-- A number below `2 ^ (53 + E)` is shifted to an exponent of at most `E`. -/
theorem add_shiftFor_le {m : Nat} {e E : Int} (hE : -1074 ≤ E) (he : e ≤ E)
    (hm : m < twoTo (53 + (E - e).toNat)) : e + shiftFor m e ≤ E := by
  have hlog : m.log2 < 53 + (E - e).toNat := by
    by_cases hzero : m = 0
    · rw [hzero, Nat.log2_zero]
      omega
    · exact (Nat.log2_lt hzero).2 hm
  unfold shiftFor
  rw [targetExponent_eq, totalExponent]
  omega

/-! ## 2. Rounding and packing -/

/-- Zero or finite, with a significand of 53 bits and an exponent of at most `E`. -/
def Within (E : Int) : UnpackedFloat → Prop
  | .zero _ => True
  | .finite _ m e _ => m < twoTo 53 ∧ e ≤ E
  | .infinity _ | .notANumber => False

theorem Within.isFinite {E : Int} {u : UnpackedFloat} (h : Within E u) : u.isFinite = true := by
  cases u with
  | infinity sign => exact h.elim
  | notANumber => exact h.elim
  | zero sign => rfl
  | finite sign m e pos => rfl

/-- **Rounding stays within an exponent** if not even the carry of the largest significand leads
    beyond it. -/
theorem within_roundWithAccuracy {E e : Int} {m : Nat} (sign : Sign) (accuracy : Accuracy)
    (hE : -1074 ≤ E) (he : e ≤ E) (hm : m < (twoTo 53 - 1) * twoTo (E - e).toNat) :
    Within E (roundWithAccuracy .binary64 sign m e accuracy) := by
  obtain ⟨hmantissa, hexponent⟩ := shiftToTargetExponent_eq m e accuracy
  have hfirst : e + shiftFor m e ≤ E := by
    refine add_shiftFor_le hE he (Nat.lt_of_lt_of_le hm ?_)
    rw [twoTo_add]
    exact Nat.mul_le_mul_right _ (Nat.sub_le _ _)
  have hrounded := roundedMantissa_le (shiftToTargetExponent .binary64 m e accuracy).1
  unfold roundWithAccuracy
  dsimp only
  generalize shiftToTargetExponent .binary64 m e accuracy = first at hmantissa hexponent hrounded ⊢
  obtain ⟨em, e₁⟩ := first
  dsimp only at hmantissa hexponent hrounded ⊢
  rw [hmantissa] at hrounded
  rw [← hexponent] at hfirst
  -- the carry takes one more bit at most, and none at the exponent `E`
  have hcarry : em.roundedMantissa < twoTo (53 + (E - e₁).toNat) := by
    rcases Int.le_iff_lt_or_eq.1 hfirst with hlt | heq
    · have hle : em.roundedMantissa ≤ twoTo 53 := Nat.le_trans hrounded (div_shiftFor_lt m e)
      have hpow : twoTo 53 < twoTo 54 := by decide
      exact Nat.lt_of_le_of_lt hle (Nat.lt_of_lt_of_le hpow (twoTo_le_twoTo (by omega)))
    · have hshift : shiftFor m e = (E - e).toNat := by omega
      have hsmall : m / twoTo (shiftFor m e) < twoTo 53 - 1 := by
        rwa [hshift, Nat.div_lt_iff_lt_mul (twoTo_pos _)]
      have hle : em.roundedMantissa ≤ twoTo 53 - 1 := Nat.le_trans hrounded hsmall
      have hpow : twoTo 53 - 1 < twoTo 53 := by decide
      exact Nat.lt_of_le_of_lt hle (Nat.lt_of_lt_of_le hpow (twoTo_le_twoTo (by omega)))
  obtain ⟨hmantissa₂, hexponent₂⟩ := shiftToTargetExponent_eq em.roundedMantissa e₁ .exact
  by_cases hzero : (shiftToTargetExponent .binary64 em.roundedMantissa e₁ .exact).1.mantissa = 0
  · rw [dif_pos hzero]
    exact trivial
  · rw [dif_neg hzero]
    refine ⟨?_, ?_⟩
    · rw [hmantissa₂]
      exact div_shiftFor_lt _ _
    · rw [hexponent₂]
      exact add_shiftFor_le hE hfirst hcarry

/-- Unpacked, a float has the exponent that its bits say. -/
theorem within_unpack {E : Int} (hE : -1074 ≤ E) (hE' : E ≤ 971)
    {b : BitVec Format.binary64.numBits} (h : ((unpackExponent b).toNat : Int) ≤ E + 1075) :
    Within E (UnpackedFloat.unpack .binary64 b) := by
  unfold UnpackedFloat.unpack
  extract_lets mantissa exponent e sign
  have h : (exponent.toNat : Int) ≤ E + 1075 := h
  have he : e = exponent.toNat - 1075 := rfl
  by_cases hall : exponent = -1#11
  · -- all ones would be an infinity or NaN
    have hmax : exponent.toNat = 2047 := by
      rw [hall]
      rfl
    omega
  · rw [if_neg hall]
    by_cases hnone : exponent = 0#11
    · rw [if_pos hnone]
      by_cases hzero : mantissa = 0#52
      · rw [dif_pos hzero]
        exact trivial
      · rw [dif_neg hzero]
        have hmin : exponent.toNat = 0 := by
          rw [hnone]
          rfl
        have hbits : mantissa.toNat < twoTo 52 := mantissa.isLt
        have hpow : twoTo 52 < twoTo 53 := by decide
        exact ⟨Nat.lt_trans hbits hpow, by omega⟩
    · rw [if_neg hnone]
      have hbits : (1#1 ++ mantissa).toNat < twoTo 53 := (1#1 ++ mantissa).isLt
      exact ⟨hbits, by omega⟩

/-- **Packing keeps a float within its exponent.** -/
theorem within_unpack_pack {E : Int} (hE : -1074 ≤ E) (hE' : E ≤ 971) {u : UnpackedFloat}
    (h : Within E u) : Within E (Float.Model.pack u).unpack := by
  refine within_unpack hE hE' ?_
  show ((unpackExponent (UnpackedFloat.pack .binary64 u)).toNat : Int) ≤ E + 1075
  have hnone : ((0#11).toNat : Int) ≤ E + 1075 := by
    rw [BitVec.toNat_zero]
    omega
  cases u with
  | infinity sign => exact h.elim
  | notANumber => exact h.elim
  | zero sign =>
    show ((unpackExponent (packComponents .binary64 sign 0 0)).toNat : Int) ≤ E + 1075
    rw [unpackExponent_packComponents]
    exact hnone
  | finite sign m e pos =>
    obtain ⟨-, he⟩ := h
    have hbias : (Format.binary64.exponentBias : Int) = 1023 := rfl
    unfold UnpackedFloat.pack
    simp only [hbias]
    split
    · omega
    · split
      · rw [unpackExponent_packComponents, BitVec.toNat_ofNat]
        omega
      · rw [unpackExponent_packComponents]
        exact hnone

/-- Packed, a float within the largest exponent is finite. -/
theorem isFinite_pack {u : UnpackedFloat} (h : Within 971 u) :
    (Float.ofModel (Float.Model.pack u)).isFinite = true :=
  (within_unpack_pack (by decide) (by decide) h).isFinite

/-! ## 3. Arithmetic -/

/-- **A quotient stays within an exponent** that its magnitude asks for. -/
theorem within_div {E e₁ e₂ : Int} {m₁ m₂ : Nat} {pos₁ : 0 < m₁} {pos₂ : 0 < m₂} (sign₁ sign₂ : Sign)
    (hE : -1074 ≤ E) (he : e₁ - e₂ ≤ E)
    (hm : m₁ < (twoTo 53 - 1) * twoTo (E - (e₁ - e₂)).toNat * m₂) :
    Within E (UnpackedFloat.div .binary64 (.finite sign₁ m₁ e₁ pos₁) (.finite sign₂ m₂ e₂ pos₂)) := by
  unfold UnpackedFloat.div divCore
  dsimp only
  generalize hexp : min (e₁ - e₂) _ = e
  have hle : e ≤ e₁ - e₂ := by omega
  have hpow : (E - e).toNat = (E - (e₁ - e₂)).toNat + (e₁ - e₂ - e).toNat := by omega
  refine within_roundWithAccuracy _ _ hE (Int.le_trans hle he) ?_
  rw [Nat.div_lt_iff_lt_mul pos₂, hpow, Nat.shiftLeft_eq, twoTo_add]
  calc m₁ * twoTo (e₁ - e₂ - e).toNat
      < (twoTo 53 - 1) * twoTo (E - (e₁ - e₂)).toNat * m₂ * twoTo (e₁ - e₂ - e).toNat :=
        Nat.mul_lt_mul_of_pos_right hm (twoTo_pos _)
    _ = (twoTo 53 - 1) * (twoTo (E - (e₁ - e₂)).toNat * twoTo (e₁ - e₂ - e).toNat) * m₂ := by
        rw [Nat.mul_right_comm, Nat.mul_assoc (twoTo 53 - 1)]

theorem within_round {n : Nat} (h : n < twoTo 53) (sign : Sign) :
    Within 1 (UnpackedFloat.round .binary64 sign n 0) := by
  have hwidth : twoTo 53 ≤ (twoTo 53 - 1) * twoTo 1 := by decide
  unfold UnpackedFloat.round decreaseExponent
  dsimp only
  generalize (0 - Format.binary64.targetExponent (totalExponent n 0)).toNat = k
  refine within_roundWithAccuracy _ _ (by decide) (by omega) ?_
  have hpow : ((1 : Int) - (0 - k)).toNat = 1 + k := by omega
  rw [hpow, Nat.shiftLeft_eq, twoTo_add, ← Nat.mul_assoc]
  exact Nat.mul_lt_mul_of_pos_right (Nat.lt_of_lt_of_le h hwidth) (twoTo_pos k)

/-- A natural number of 53 bits is a float with a small exponent. -/
theorem within_ofNat {n : Nat} (h : n < twoTo 53) : Within 1 (UnpackedFloat.ofNat .binary64 n) := by
  unfold UnpackedFloat.ofNat UnpackedFloat.ofInt UnpackedFloat.normalize
  split
  · exact within_round (by omega) _
  · exact trivial
  · exact within_round (by omega) _

/-- **A decimal number is rounded within an exponent** that its magnitude asks for. -/
theorem within_ofScientific {e m k : Nat} (h : m < (twoTo 53 - 1) * twoTo e * tenTo k) :
    Within e (UnpackedFloat.ofScientific .binary64 m (-k)) := by
  have hbits : (0 : Int) < 2 ^ Format.binary64.exponentBits := by decide
  have hsmall : ¬ -(k : Int) > 2 ^ Format.binary64.exponentBits := by omega
  unfold UnpackedFloat.ofScientific
  by_cases hm : m = 0
  · rw [dif_pos hm]
    exact trivial
  · rw [dif_neg hm, if_neg hsmall]
    by_cases htiny : -(k : Int) < -(2 ^ Format.binary64.exponentBits + m.log2)
    · rw [if_pos htiny]
      exact trivial
    · rw [if_neg htiny]
      by_cases hwhole : 0 ≤ -(k : Int)
      · rw [if_pos hwhole]
        have hk : k = 0 := by omega
        subst hk
        rw [tenTo_zero, Nat.mul_one] at h
        unfold UnpackedFloat.mul
        dsimp only
        -- with the width in digits, shifts by it would be carried out
        generalize hwidth : Format.binary64.mantissaBits = width
        have hwidth : width = 53 := hwidth.symm
        refine within_roundWithAccuracy _ _ (by omega) (by omega) ?_
        have hpow : ((e : Int) - (-width + 0)).toNat = e + 53 := by omega
        have hone : 10 ^ (-((0 : Nat) : Int)).toNat = 1 := rfl
        rw [hpow, hone, hwidth, Nat.shiftLeft_eq, Nat.mul_one, twoTo_add, ← Nat.mul_assoc]
        exact Nat.mul_lt_mul_of_pos_right h (twoTo_pos 53)
      · rw [if_neg hwhole]
        have hk : (- -(k : Int)).toNat = k := by omega
        refine within_div _ _ (by omega) (by omega) ?_
        rw [hk, Int.sub_zero, Int.sub_zero]
        exact h

/-! ## 4. Numerals -/

/-- A finite float whose exponent is that of a number from one on. -/
def isLarge : UnpackedFloat → Bool
  | .finite _ _ e _ => decide (-52 ≤ e)
  | .infinity _ | .notANumber | .zero _ => false

theorem within_div_of_isLarge {u v : UnpackedFloat} (hu : Within 1 u) (hv : isLarge v = true) :
    Within 971 (UnpackedFloat.div .binary64 u v) := by
  cases v with
  | infinity sign => cases hv
  | notANumber => cases hv
  | zero sign => cases hv
  | finite sign₂ m₂ e₂ pos₂ =>
    have he₂ : -52 ≤ e₂ := of_decide_eq_true hv
    cases u with
    | infinity sign => exact hu.elim
    | notANumber => exact hu.elim
    | zero sign => exact trivial
    | finite sign₁ m₁ e₁ pos₁ =>
      obtain ⟨hm₁, he₁⟩ := hu
      have hwidth : twoTo 53 ≤ (twoTo 53 - 1) * twoTo 1 * 1 := by decide
      have hpow : twoTo 1 ≤ twoTo (971 - (e₁ - e₂)).toNat := twoTo_le_twoTo (by omega)
      refine within_div sign₁ sign₂ (by decide) (by omega) ?_
      calc m₁ < (twoTo 53 - 1) * twoTo 1 * 1 := Nat.lt_of_lt_of_le hm₁ hwidth
        _ ≤ (twoTo 53 - 1) * twoTo (971 - (e₁ - e₂)).toNat * m₂ :=
          Nat.mul_le_mul (Nat.mul_le_mul_left _ hpow) pos₂

theorem isLarge_powerOfTen : ∀ i : Fin Float.exactlyRepresentablePowersOfTen.size,
    isLarge Float.exactlyRepresentablePowersOfTen[i].toModel.unpack = true := by
  decide +kernel

/-- A numeral with few digits is the quotient of two exact floats. -/
theorem isFinite_quotient {n i : Nat} (hn : n < twoTo 53)
    (hi : i < Float.exactlyRepresentablePowersOfTen.size) :
    (n.toUInt64.toFloat / Float.exactlyRepresentablePowersOfTen[i]).isFinite = true := by
  have hsize : twoTo 53 < UInt64.size := by decide
  have hnat : n.toUInt64.toNat = n := Nat.mod_eq_of_lt (Nat.lt_trans hn hsize)
  have hdividend : Within 1 n.toUInt64.toFloat.toModel.unpack := by
    refine within_unpack_pack (by decide) (by decide) ?_
    show Within 1 (UnpackedFloat.ofNat .binary64 n.toUInt64.toNat)
    rw [hnat]
    exact within_ofNat hn
  exact isFinite_pack (within_div_of_isLarge hdividend (isLarge_powerOfTen ⟨i, hi⟩))

/-- The largest float is above `10 ^ 308`. -/
theorem tenTo_308_le : tenTo 308 ≤ (twoTo 53 - 1) * twoTo 971 := by decide +kernel

/-- **A numeral below `10 ^ 308` has a finite value.** -/
theorem Numeral.isFinite_value {n : Numeral} (h : n.units < tenTo 308 * tenTo n.places) :
    n.value.isFinite = true := by
  unfold value Float.ofScientific
  split
  · next hshort => exact isFinite_quotient hshort.1 _
  · have hbound := Nat.lt_of_lt_of_le h (Nat.mul_le_mul_right _ tenTo_308_le)
    exact isFinite_pack (within_ofScientific (e := 971) hbound)

theorem ofDigitChars_lt {cs : List Char} (h : ∀ c ∈ cs, c.isDigit = true) (start : Nat) :
    Nat.ofDigitChars 10 cs start < (start + 1) * tenTo cs.length := by
  induction cs generalizing start with
  | nil => simp
  | cons c cs ih =>
    obtain ⟨hc, hcs⟩ := List.forall_mem_cons.1 h
    have hdigit : c.toNat ≤ '9'.toNat :=
      UInt32.le_iff_toNat_le.1 (of_decide_eq_true (Bool.and_eq_true_iff.1 hc).2)
    have hnine : '9'.toNat = 57 := rfl
    have hzero : '0'.toNat = 48 := rfl
    rw [Nat.ofDigitChars_cons, List.length_cons, tenTo_succ, ← Nat.mul_assoc]
    exact Nat.lt_of_lt_of_le (ih hcs _) (Nat.mul_le_mul_right _ (by omega))

/-- **A numeral with at most 308 digits before its point has a finite value.** -/
theorem Numeral.isFinite_value_of_length {cs : List Char} {n : Numeral} (h : ofText? cs = some n)
    (hlen : (wholePart cs).length ≤ 308) : n.value.isFinite = true := by
  unfold ofText? at h
  simp only at h
  split at h
  · cases h
  · next hdigits =>
    cases h
    rw [Bool.or_eq_true, not_or, Bool.not_eq_true', Bool.not_eq_false, List.all_eq_true] at hdigits
    refine isFinite_value ?_
    calc Nat.ofDigitChars 10 (wholePart cs ++ fractionPart cs) 0
        < (0 + 1) * tenTo (wholePart cs ++ fractionPart cs).length := ofDigitChars_lt hdigits.2 0
      _ = tenTo (wholePart cs).length * tenTo (fractionPart cs).length := by
          rw [Nat.zero_add, Nat.one_mul, List.length_append, tenTo_add]
      _ ≤ tenTo 308 * tenTo (fractionPart cs).length :=
          Nat.mul_le_mul_right _ (tenTo_le_tenTo hlen)

end DeskCalculator.Number
