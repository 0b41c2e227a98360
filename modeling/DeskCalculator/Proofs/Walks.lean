import Mathlib.Data.List.Basic
import DeskCalculator.Source
import DeskCalculator.Number.Numeral

/-!
# Walks of a cursor

A cursor that goes over a source by advancing and collecting, in any order, loses and repeats
nothing of its text. This file fixes

* `Cursor.Stride`, `Cursor.walk` -- one move with the characters that it passes, and a row of moves;
* `Cursor.Collects` -- collecting as a loop that takes one character at a time. The loop ends, and
  in what `collect` returns (`collects_iff`);
* `Source.toList_text_eq`, `Source.getElem?_text` -- a cursor in the text of its source.

Main statement: **a walk passes the text up to its place**, and each of its moves passes what it
says (`walk_eq_take`).
-/

namespace DeskCalculator

namespace Cursor

/-! ## 1. Collecting as a loop -/

/-- Collecting, one character at a time: as long as the character at the cursor is no terminator and
    satisfies `p`, it is taken and the cursor advances. -/
inductive Collects (p : Char → Bool) : Cursor → List Char → Cursor → Prop where
  | stop {c : Cursor} (h : c.current = terminator ∨ p c.current = false) : Collects p c [] c
  | take {c c' : Cursor} {cs : List Char} (hc : c.current ≠ terminator) (hp : p c.current = true)
      (h : Collects p c.advance cs c') : Collects p c (c.current :: cs) c'

variable {p : Char → Bool} {c c' : Cursor} {cs : List Char}

/-- **The loop ends, and in what `collect` returns.** -/
theorem collects_iff : Collects p c cs c' ↔ c.collect p = (cs, c') := by
  constructor
  · intro h
    induction h with
    | stop h => exact collect_of_stop h
    | take hc hp _ ih => rw [collect_of_take hc hp, ih]
  · -- the loop takes as many turns as there are characters to collect
    intro h
    induction cs generalizing c with
    | nil =>
      by_cases hstop : c.current = terminator ∨ p c.current = false
      · rw [collect_of_stop hstop] at h
        cases h
        exact .stop hstop
      · rw [not_or, Bool.not_eq_false] at hstop
        rw [collect_of_take hstop.1 hstop.2] at h
        cases h
    | cons x cs ih =>
      by_cases hstop : c.current = terminator ∨ p c.current = false
      · rw [collect_of_stop hstop] at h
        cases h
      · rw [not_or, Bool.not_eq_false] at hstop
        rw [collect_of_take hstop.1 hstop.2] at h
        obtain ⟨hcs, hc'⟩ := Prod.mk.inj h
        cases hcs
        exact .take hstop.1 hstop.2 (ih (Prod.ext rfl hc'))

/-- What collects stops at a terminator or at a character that fails. -/
theorem current_of_collects (h : Collects p c cs c') :
    c'.current = terminator ∨ p c'.current = false := by
  induction h with
  | stop h => exact h
  | take _ _ _ ih => exact ih

/-! ## 2. Walks -/

/-- A move of a cursor. -/
inductive Stride where
  | advance
  | collect (p : Char → Bool)

/-- The characters that a move passes, and the cursor after it. What `collect` passes is what it
    returns. -/
def Stride.apply : Stride → Cursor → List Char × Cursor
  | advance, c => (if c.current = terminator then [] else [c.current], c.advance)
  | collect p, c => c.collect p

/-- The characters that a row of moves passes, and the cursor after them. -/
def walk : List Stride → Cursor → List Char × Cursor
  | [], c => ([], c)
  | stride :: strides, c =>
    let first := stride.apply c
    let onward := walk strides first.2
    (first.1 ++ onward.1, onward.2)

/-- A move passes what lies between the cursors before and after it. -/
theorem passed_apply (stride : Stride) (c : Cursor) :
    terminator ∉ (stride.apply c).1 ∧ (stride.apply c).1 ++ (stride.apply c).2.rest = c.rest ∧
      (stride.apply c).2.position = c.position + (stride.apply c).1.length := by
  cases stride with
  | collect p =>
    exact ⟨fun h => (mem_collect h).1 rfl, collect_append_rest p c, collect_position p c⟩
  | advance =>
    by_cases hc : c.current = terminator
    · simp only [Stride.apply, if_pos hc, advance_of_terminator hc]
      exact ⟨List.not_mem_nil, rfl, rfl⟩
    · simp only [Stride.apply, if_neg hc]
      exact ⟨fun h => hc (List.mem_singleton.1 h).symm, current_cons_advance hc,
        position_advance hc⟩

/-- **So does a whole walk.** -/
theorem passed_walk (strides : List Stride) (c : Cursor) :
    terminator ∉ (c.walk strides).1 ∧ (c.walk strides).1 ++ (c.walk strides).2.rest = c.rest ∧
      (c.walk strides).2.position = c.position + (c.walk strides).1.length := by
  induction strides generalizing c with
  | nil => exact ⟨List.not_mem_nil, rfl, rfl⟩
  | cons stride strides ih =>
    obtain ⟨ht, hr, hp⟩ := passed_apply stride c
    obtain ⟨ht', hr', hp'⟩ := ih (stride.apply c).2
    refine ⟨?_, ?_, ?_⟩
    · exact fun h => (List.mem_append.1 h).elim ht ht'
    · rw [walk, List.append_assoc, hr', hr]
    · rw [walk, hp', hp, List.length_append, Nat.add_assoc]

/-- **What is reached lies at the first terminator or before.** -/
theorem ReachedFrom.position_le_idxOf {c c' : Cursor} (h : c'.ReachedFrom c) :
    c'.position ≤ c.position + (c.rest ++ [terminator]).idxOf terminator := by
  obtain ⟨passed, ht, hr, hp⟩ := h
  rw [hp, ← hr, List.append_assoc, List.idxOf_append_of_notMem ht]
  omega

theorem walk_reached (strides : List Stride) (c : Cursor) :
    (c.walk strides).2.ReachedFrom c := ⟨_, passed_walk strides c⟩

end Cursor

/-! ## 3. In the text of a source -/

namespace Source

variable {source : Source} {passed : List Char} {c : Cursor}

/-- What was passed and what is left make the text. -/
theorem toList_text_eq (h : passed ++ c.rest = source.body) :
    source.text.toList = passed ++ (c.rest ++ [terminator]) := by
  rw [text, String.toList_ofList, ← h, List.append_assoc]

/-- The character at a cursor is the one behind what was passed. -/
theorem getElem?_text (h : passed ++ c.rest = source.body) :
    source.text.toList[passed.length]? = some c.current := by
  rw [toList_text_eq h, List.getElem?_append_right (Nat.le_refl _), Nat.sub_self]
  obtain ⟨position, rest⟩ := c
  cases rest with
  | nil => rfl
  | cons x tail => rfl

end Source

/-- **A walk passes the text up to its place.** A line with a source has a text that ends in a
    terminator. However a cursor walks over it, it never goes back nor past the first terminator,
    and what it passed is the text before its place. The character at the cursor is the one of the
    text there. Advancing passes that character, unless it is a terminator; collecting ends, returns
    the characters of the text from the old place to the new one, which all satisfy the predicate,
    and stops at a terminator or at the first character that does not. -/
theorem walk_eq_take {line : String} {source : Source} (h : Source.ofLine line = .ok source)
    (strides : List Cursor.Stride) :
    let text := source.text.toList
    let c := (source.start.walk strides).2
    (text = Source.bodyOf line.toList ++ [terminator] ∧ text ≠ [terminator]) ∧
    (source.start.walk strides).1 = text.take c.position ∧
    c.position ≤ text.idxOf terminator ∧
    text[c.position]? = some c.current ∧
    (∀ more, c.position ≤ (c.walk more).2.position) ∧
    (c.current = terminator → c.advance = c) ∧
    (c.current ≠ terminator → c.advance.position = c.position + 1) ∧
    ∀ p, (∀ cs c', Cursor.Collects p c cs c' ↔ c.collect p = (cs, c')) ∧
      ∀ cs c', c.collect p = (cs, c') →
        c.position ≤ c'.position ∧
        cs = (text.drop c.position).take (c'.position - c.position) ∧
        (∀ x ∈ cs, x ≠ terminator ∧ p x = true) ∧
        (c'.current = terminator ∨ p c'.current = false) := by
  intro text c
  have hbody := Source.ofLine_eq_ok_iff.1 h
  obtain ⟨ht, hr, hp⟩ := Cursor.passed_walk strides source.start
  have hposition : c.position = (source.start.walk strides).1.length := hp.trans (Nat.zero_add _)
  have hstart : text = source.start.rest ++ [terminator] := String.toList_ofList
  have htext : text = (source.start.walk strides).1 ++ (c.rest ++ [terminator]) :=
    Source.toList_text_eq hr
  refine ⟨⟨?_, ?_⟩, ?_, ?_, ?_, fun more => ?_, Cursor.advance_of_terminator,
    Cursor.position_advance, fun p => ⟨fun cs c' => Cursor.collects_iff, fun cs c' hcs => ?_⟩⟩
  · rw [hbody]
    exact hstart
  · intro hsingle
    rw [hsingle, ← List.nil_append [terminator]] at hstart
    exact source.body_ne_nil (List.append_cancel_right hstart).symm
  · rw [hposition, htext, List.take_left]
  · have hle := (Cursor.walk_reached strides source.start).position_le_idxOf
    rwa [show source.start.position = 0 from rfl, Nat.zero_add, ← hstart] at hle
  · exact hposition ▸ Source.getElem?_text hr
  · exact (Cursor.walk_reached more c).position_le
  · have hpassed := Cursor.collect_append_rest p c
    have hmoved := Cursor.collect_position p c
    rw [hcs] at hpassed hmoved
    refine ⟨hmoved ▸ Nat.le_add_right _ _, ?_, fun x hx => ?_, ?_⟩
    · have hdrop : text.drop c.position = cs ++ (c'.rest ++ [terminator]) := by
        rw [hposition, htext, List.drop_left, ← List.append_assoc, hpassed]
      rw [hdrop, hmoved, Nat.add_sub_cancel_left, List.take_left]
    · exact Cursor.mem_collect (p := p) (c := c) (by rwa [hcs])
    · exact Cursor.current_of_collects (Cursor.collects_iff.2 hcs)

/-- A walk that collects whatever there is stays at a terminator inside the text. -/
theorem walk_eq_take_embedded : ∃ source, Source.ofLine "1 2; 3" = .ok source ∧
    source.text = "12;3;" ∧
    (source.start.walk [.collect Number.isNumeralChar, .advance, .collect fun _ => true]).1 =
      "12".toList := by
  have h : Source.ofLine "1 2; 3" = .ok ⟨"12;3".toList, by decide⟩ :=
    Source.ofLine_eq_ok_iff.2 (by decide +kernel)
  exact ⟨_, h, by decide +kernel, (walk_eq_take h _).2.1.trans (by decide +kernel)⟩

end DeskCalculator
