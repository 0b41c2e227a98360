import DeskCalculator.Number.Power

/-!
# Decimal numerals

A numeral is a run of digits with at most one point and at least one digit: `12`, `0.5`, `.5`, `5.`.
This file fixes

* `Numeral` -- the number `units / 10 ^ places` that a numeral stands for;
* `Numeral.value` -- the float nearest to it;
* `Numeral.ofText?` -- reading; `Numeral.text` -- writing, always with a digit before the point.

Main statement: **what is written reads back** (`ofText?_text`).
-/

namespace DeskCalculator.Number

/-- The number `units / 10 ^ places`, as its digits say it. -/
structure Numeral where
  units : Nat
  places : Nat
  deriving Repr, DecidableEq

/-- The characters of a numeral. -/
def isNumeralChar (c : Char) : Bool := c.isDigit || c = '.'

namespace Numeral

/-- The float nearest to the numeral, a tie going to the even significand; too large a numeral has
    the value infinity. -/
def value (n : Numeral) : Float := Float.ofScientific n.units true n.places

/-! ## 1. Reading -/

/-- The digits before the point. -/
def wholePart (cs : List Char) : List Char := cs.takeWhile (· ≠ '.')

/-- What follows the first point. -/
def fractionPart (cs : List Char) : List Char := (cs.dropWhile (· ≠ '.')).drop 1

/-- The numeral a text spells, if it is one. -/
def ofText? (cs : List Char) : Option Numeral :=
  let digits := wholePart cs ++ fractionPart cs
  if digits.isEmpty || !digits.all Char.isDigit then none
  else some ⟨Nat.ofDigitChars 10 digits 0, (fractionPart cs).length⟩

/-! ## 2. Writing -/

/-- The digits of `n`, at least one. -/
def digits (n : Nat) : List Char := Nat.toDigits 10 n

/-- The digits of `n < 10 ^ places` with zeros in front, `places` in all. -/
def paddedDigits (places n : Nat) : List Char := (digits n).leftpad places '0'

/-- The numeral in digits; the point is written only where places follow it. -/
def text (n : Numeral) : List Char :=
  if n.places = 0 then digits n.units
  else digits (n.units / tenTo n.places) ++
    '.' :: paddedDigits n.places (n.units % tenTo n.places)

/-! ## 3. What is written reads back -/

theorem isDigit_of_mem_digits {n : Nat} {c : Char} (h : c ∈ digits n) : c.isDigit = true :=
  Nat.isDigit_of_mem_toDigits (by decide) (by decide) h

theorem isDigit_of_mem_paddedDigits {places n : Nat} {c : Char} (h : c ∈ paddedDigits places n) :
    c.isDigit = true := by
  simp only [paddedDigits, List.leftpad, List.mem_append, List.mem_replicate] at h
  rcases h with ⟨_, rfl⟩ | h
  · decide
  · exact isDigit_of_mem_digits h

theorem length_paddedDigits {places n : Nat} (h : n < tenTo places) (hp : 0 < places) :
    (paddedDigits places n).length = places := by
  have hl : (digits n).length ≤ places := (Nat.length_toDigits_le_iff (by decide) hp).2 h
  simp only [paddedDigits, List.length_leftpad]
  omega

theorem ne_point_of_isDigit {c : Char} (h : c.isDigit = true) : decide (c ≠ '.') = true := by
  simp only [decide_eq_true_eq]
  intro he
  subst he
  revert h
  decide

/-- **Digits, alone or with a point and digits after them, are a numeral**, and the point counts the
    places. -/
theorem ofText?_append {ds fs rest : List Char} (hd : ∀ c ∈ ds, c.isDigit = true)
    (hf : ∀ c ∈ fs, c.isDigit = true) (hne : ds ≠ [])
    (hr : rest = [] ∧ fs = [] ∨ rest = '.' :: fs) :
    ofText? (ds ++ rest) = some ⟨Nat.ofDigitChars 10 (ds ++ fs) 0, fs.length⟩ := by
  have hp : ∀ c ∈ ds, decide (c ≠ '.') = true := fun c hc => ne_point_of_isDigit (hd c hc)
  have hw : wholePart (ds ++ rest) = ds := by
    rw [wholePart, List.takeWhile_append_of_pos hp]
    rcases hr with ⟨rfl, _⟩ | rfl <;> simp
  have hfr : fractionPart (ds ++ rest) = fs := by
    rw [fractionPart, List.dropWhile_append_of_pos hp]
    rcases hr with ⟨rfl, rfl⟩ | rfl <;> simp
  have hall : (ds ++ fs).all Char.isDigit = true := by
    simp only [List.all_append, Bool.and_eq_true, List.all_eq_true]
    exact ⟨hd, hf⟩
  have hemp : (ds ++ fs).isEmpty = false := by simp [hne]
  simp only [ofText?, hw, hfr, hall, hemp]
  rfl

theorem ofDigitChars_digits (n : Nat) : Nat.ofDigitChars 10 (digits n) 0 = n :=
  Nat.ofDigitChars_ten_toDigits

theorem ofDigitChars_paddedDigits (places n : Nat) :
    Nat.ofDigitChars 10 (paddedDigits places n) 0 = n := by
  simp only [paddedDigits, List.leftpad, Nat.ofDigitChars_append, Nat.ofDigitChars_replicate_zero,
    Nat.mul_zero]
  exact ofDigitChars_digits n

/-- **What is written reads back.** -/
theorem ofText?_text (n : Numeral) : ofText? n.text = some n := by
  rcases n with ⟨units, places⟩
  have hd : ∀ m, ∀ c ∈ digits m, c.isDigit = true := fun m c hc => isDigit_of_mem_digits hc
  have hne : ∀ m, digits m ≠ [] := fun m => Nat.toDigits_ne_nil
  unfold text
  split
  · next h =>
    simp only at h
    subst h
    have hr : ofText? (digits units ++ []) =
        some ⟨Nat.ofDigitChars 10 (digits units ++ []) 0, List.length []⟩ :=
      ofText?_append (hd units) (by simp) (hne units) (.inl ⟨rfl, rfl⟩)
    simpa [ofDigitChars_digits] using hr
  · next h =>
    simp only at h
    have hlen : (paddedDigits places (units % tenTo places)).length = places :=
      length_paddedDigits (Nat.mod_lt _ (tenTo_pos places)) (Nat.pos_of_ne_zero h)
    have hp : ∀ c ∈ paddedDigits places (units % tenTo places), c.isDigit = true :=
      fun c hc => isDigit_of_mem_paddedDigits hc
    rw [ofText?_append (hd _) hp (hne _) (.inr rfl), hlen, Nat.ofDigitChars_append,
      ofDigitChars_digits, Nat.ofDigitChars_eq_ofDigitChars_zero, ofDigitChars_paddedDigits, hlen]
    exact congrArg (fun m => some (⟨m, places⟩ : Numeral)) (Nat.div_add_mod units (tenTo places))

end Numeral

end DeskCalculator.Number
