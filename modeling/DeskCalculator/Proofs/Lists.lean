import Mathlib.Data.List.DropRight
import DeskCalculator.Text.Blank

/-!
# Lists cut by a test

Texts, tokens and stacks of operators are all cut by a test, in front or at the end. This file adds
to the library's facts on such cuts what the others need:

* `drop_length_takeWhile` -- a run dropped by its length;
* `takeWhile_append_of_stop`, `dropWhile_append_of_stop` -- a list that goes on with what fails the
  test; `eq_false_of_mem_head?_dropWhile` -- so does what a cut leaves of a list;
* `dropEndWhile_eq_rdropWhile` -- texts are cut at the end by the library's `List.rdropWhile`, so its
  facts on that are used by name;
* `rdropWhile_append`, `rdropWhile_filter` -- a cut at the end of one list after another, and of a
  list that elements were taken out of;
* `getLastD_append` -- the last of two lists.
-/

namespace DeskCalculator.Lists

variable {α : Type} {p q : α → Bool}

/-! ## 1. In front -/

theorem drop_length_takeWhile (p : α → Bool) (xs : List α) :
    xs.drop (xs.takeWhile p).length = xs.dropWhile p :=
  calc xs.drop (xs.takeWhile p).length
      = (xs.takeWhile p ++ xs.dropWhile p).drop (xs.takeWhile p).length := by
        rw [List.takeWhile_append_dropWhile]
    _ = xs.dropWhile p := List.drop_left

/-- A run goes no further than to what fails the test. -/
theorem takeWhile_append_of_stop {ys : List α} (h : ∀ y ∈ ys.head?, p y = false) (xs : List α) :
    (xs ++ ys).takeWhile p = xs.takeWhile p := by
  have hys : ys.takeWhile p = [] := by
    cases ys with
    | nil => rfl
    | cons y ys => exact List.takeWhile_cons_of_neg (by rw [h y rfl]; exact Bool.false_ne_true)
  rw [List.takeWhile_append, hys, List.append_nil]
  split
  · next hall => exact ((List.takeWhile_prefix p).eq_of_length hall).symm
  · rfl

theorem dropWhile_append_of_stop {ys : List α} (h : ∀ y ∈ ys.head?, p y = false) (xs : List α) :
    (xs ++ ys).dropWhile p = xs.dropWhile p ++ ys := by
  rw [← drop_length_takeWhile, takeWhile_append_of_stop h,
    List.drop_append_of_le_length (List.takeWhile_prefix p).length_le, drop_length_takeWhile]

/-- What is left of a list begins with an element that fails the test. -/
theorem eq_false_of_mem_head?_dropWhile {xs : List α} {x : α} (h : x ∈ (xs.dropWhile p).head?) :
    p x = false := by
  have hstop := List.head?_dropWhile_not p xs
  rw [Option.mem_def.1 h] at hstop
  exact hstop

/-- What `q` takes out may be taken out before or after a cut that would take it along. -/
theorem dropWhile_filter_of_imp (h : ∀ x, q x = false → p x = true) (xs : List α) :
    (xs.filter q).dropWhile p = (xs.dropWhile p).filter q := by
  have hp : (fun x => !q x || p x) = p := by
    funext x
    cases hq : q x with
    | true => rfl
    | false => exact (h x hq).symm
  rw [List.dropWhile_filter, hp]

/-! ## 2. At the end -/

/-- Texts are cut at the end as the library cuts lists there. -/
theorem dropEndWhile_eq_rdropWhile (p : α → Bool) (xs : List α) :
    Text.dropEndWhile p xs = xs.rdropWhile p := rfl

theorem rdropWhile_append (p : α → Bool) (xs ys : List α) :
    (xs ++ ys).rdropWhile p =
      if ys.rdropWhile p = [] then xs.rdropWhile p else xs ++ ys.rdropWhile p := by
  simp only [List.rdropWhile, List.reverse_append, List.dropWhile_append, List.isEmpty_iff,
    List.reverse_eq_nil_iff]
  split
  · rfl
  · rw [List.reverse_append, List.reverse_reverse]

/-- What satisfies the test at the end does not count. -/
theorem rdropWhile_append_of_pos {ys : List α} (h : ∀ y ∈ ys, p y = true) (xs : List α) :
    (xs ++ ys).rdropWhile p = xs.rdropWhile p := by
  rw [rdropWhile_append, if_pos (List.rdropWhile_eq_nil_iff.2 h)]

theorem rdropWhile_filter (h : ∀ x, q x = false → p x = true) (xs : List α) :
    (xs.filter q).rdropWhile p = (xs.rdropWhile p).filter q := by
  simp only [List.rdropWhile, ← List.filter_reverse, dropWhile_filter_of_imp h]

/-! ## 3. The last element -/

theorem getLastD_append (xs ys : List α) (x : α) :
    (xs ++ ys).getLastD x = ys.getLastD (xs.getLastD x) := by
  simp [List.getLastD_eq_getLast?, List.getLast?_append, Option.getD_or]

end DeskCalculator.Lists
