import DeskCalculator.Text.LowerCase.Table
import DeskCalculator.Text.LowerCase.Cased

/-!
# Lower case

The full lower-case form of a text. A character becomes one character, with two exceptions: İ
becomes `i` and a dot above, and Σ, whose form depends on its place, becomes ς at the end of a word
and σ elsewhere.

* `lowerChar` -- the form of one character;
* `endsWord` -- the place: a cased character before, none after, case-ignorable ones skipped;
* `lowercase` -- the text, with `lowercase_of_ascii`: on ASCII it is core's `Char.toLower`.
-/

namespace DeskCalculator.Text

/-! ## 1. One character -/

/-- The lower-case form of a character other than İ and Σ. -/
def lowerChar (c : Char) : Char :=
  if c.toNat < 0x80 then c.toLower
  else
    match lowerRuns.find? (·.covers c.toNat) with
    | some run => Char.ofNat (run.send c.toNat)
    | none => c

theorem lowerChar_of_ascii {c : Char} (h : c.toNat < 0x80) : lowerChar c = c.toLower := by
  simp [lowerChar, h]

/-! ## 2. The end of a word -/

/-- Whether the first character that is not case-ignorable is cased. -/
def meetsCased (cs : List Char) : Bool :=
  match cs.dropWhile isCaseIgnorable with
  | [] => false
  | c :: _ => isCased c

/-- Whether a letter between `before` (nearest first) and `after` ends a word. -/
def endsWord (before after : List Char) : Bool :=
  meetsCased before && !meetsCased after

/-! ## 3. A text -/

/-- The lower-case form of a character between `before` (nearest first) and `after`. -/
def lowerAt (before : List Char) (c : Char) (after : List Char) : List Char :=
  if c = 'Σ' then [if endsWord before after then 'ς' else 'σ']
  else if c = 'İ' then ['i', '\u0307']
  else [lowerChar c]

/-- The lower-case form of `cs`, which follows the characters `before` (nearest first). -/
def lowerAfter (before : List Char) : List Char → List Char
  | [] => []
  | c :: rest => lowerAt before c rest ++ lowerAfter (c :: before) rest

/-- The lower-case form of a text. -/
def lowercase (cs : List Char) : List Char := lowerAfter [] cs

theorem lowerAt_of_ascii {c : Char} (h : c.toNat < 0x80) (before after : List Char) :
    lowerAt before c after = [c.toLower] := by
  have h1 : c ≠ 'Σ' := by
    intro hc
    subst hc
    revert h
    decide
  have h2 : c ≠ 'İ' := by
    intro hc
    subst hc
    revert h
    decide
  simp [lowerAt, h1, h2, lowerChar_of_ascii h]

/-- **On ASCII, lower case goes character by character.** -/
theorem lowercase_of_ascii {cs : List Char} (h : ∀ c ∈ cs, c.toNat < 0x80) :
    lowercase cs = cs.map Char.toLower := by
  suffices ∀ before, lowerAfter before cs = cs.map Char.toLower from this []
  induction cs with
  | nil => intro _; rfl
  | cons c rest ih =>
    intro before
    simp only [lowerAfter, List.map_cons]
    rw [lowerAt_of_ascii (h c (by simp)), ih (fun d hd => h d (by simp [hd]))]
    rfl

end DeskCalculator.Text
