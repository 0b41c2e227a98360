/-!
# Cursors

A source ends in one terminator. A cursor stands at a character of the source and never moves past
a terminator, be it the last one or one inside the text.

* `Cursor` -- the position and what is left before the final terminator;
* `current`, `atEnd`, `advance`, `collect` -- the moves;
* `ReachedFrom` -- one cursor lies ahead of another in the same source, with no terminator between
  them. Both moves only go ahead (`advance_reached`, `collect_reached`), and what `collect` returns
  is what it passed (`collect_append_rest`).
-/

namespace DeskCalculator

/-- The character that ends a source. -/
def terminator : Char := ';'

/-- A place in a source. -/
structure Cursor where
  /-- The number of characters before the place. -/
  position : Nat
  /-- The characters from the place on, without the final terminator. -/
  rest : List Char
  deriving Repr, DecidableEq

namespace Cursor

/-! ## 1. Looking -/

/-- The character at the cursor. -/
def current (c : Cursor) : Char := c.rest.headD terminator

/-- Whether the cursor is at the final terminator. -/
def atEnd (c : Cursor) : Bool := c.rest.isEmpty

/-- The characters from the cursor on that satisfy `p`, up to a terminator. -/
def run (p : Char → Bool) (c : Cursor) : List Char := c.rest.takeWhile fun x => x ≠ terminator && p x

/-! ## 2. Moving -/

/-- The cursor `n` characters ahead. -/
def skip (n : Nat) (c : Cursor) : Cursor := ⟨c.position + n, c.rest.drop n⟩

/-- One character ahead; a cursor at a terminator stays. -/
def advance (c : Cursor) : Cursor := if c.current = terminator then c else c.skip 1

/-- The characters that satisfy `p` and the cursor after them. -/
def collect (p : Char → Bool) (c : Cursor) : List Char × Cursor :=
  (c.run p, c.skip (c.run p).length)

/-! ## 3. What a move passes -/

/-- **What `collect` returns is what it passed.** -/
theorem collect_append_rest (p : Char → Bool) (c : Cursor) :
    (c.collect p).1 ++ (c.collect p).2.rest = c.rest :=
  List.prefix_iff_eq_append.1 (List.takeWhile_prefix _)

theorem collect_position (p : Char → Bool) (c : Cursor) :
    (c.collect p).2.position = c.position + (c.collect p).1.length := rfl

/-- All that `collect` returns satisfies the predicate, and no terminator is among it. -/
theorem mem_collect {p : Char → Bool} {c : Cursor} {x : Char} (h : x ∈ (c.collect p).1) :
    x ≠ terminator ∧ p x = true := by
  have := List.all_takeWhile (p := fun x => decide (x ≠ terminator) && p x) (l := c.rest)
  simp only [List.all_eq_true] at this
  simpa using this x h

variable {p : Char → Bool} {c : Cursor}

/-- Where nothing can be taken, nothing is collected. -/
theorem collect_of_stop (h : c.current = terminator ∨ p c.current = false) :
    c.collect p = ([], c) := by
  have hrun : c.run p = [] := by
    obtain ⟨position, rest⟩ := c
    cases rest with
    | nil => rfl
    | cons x tail =>
      rcases h with h | h
      · have h : x = terminator := h
        rw [run, List.takeWhile_cons_of_neg (by simp [h])]
      · have h : p x = false := h
        rw [run, List.takeWhile_cons_of_neg (by simp [h])]
  rw [collect, hrun]
  rfl

/-- What can be taken is collected before the rest. -/
theorem collect_of_take (hc : c.current ≠ terminator) (hp : p c.current = true) :
    c.collect p = (c.current :: (c.advance.collect p).1, (c.advance.collect p).2) := by
  obtain ⟨position, rest⟩ := c
  cases rest with
  | nil => exact absurd rfl hc
  | cons x tail =>
    have hc : x ≠ terminator := hc
    have hp : p x = true := hp
    have hadvance : advance ⟨position, x :: tail⟩ = ⟨position + 1, tail⟩ := if_neg hc
    have hrun : run p ⟨position, x :: tail⟩ = x :: run p ⟨position + 1, tail⟩ := by
      rw [run, List.takeWhile_cons_of_pos (by simp [hc, hp]), run]
    have hplace : position + (run p ⟨position + 1, tail⟩).length.succ =
        position + 1 + (run p ⟨position + 1, tail⟩).length := by omega
    rw [collect, hrun, hadvance, collect, skip, List.length_cons, hplace]
    rfl

/-- **What advancing passes is the character at the cursor.** -/
theorem current_cons_advance {c : Cursor} (h : c.current ≠ terminator) :
    c.current :: c.advance.rest = c.rest := by
  obtain ⟨position, _ | ⟨x, tail⟩⟩ := c
  · exact absurd rfl h
  · rw [advance, if_neg h]
    rfl

theorem position_advance {c : Cursor} (h : c.current ≠ terminator) :
    c.advance.position = c.position + 1 := by
  rw [advance, if_neg h, skip]

theorem advance_of_terminator {c : Cursor} (h : c.current = terminator) : c.advance = c := if_pos h

theorem rest_length_collect (p : Char → Bool) (c : Cursor) :
    (c.collect p).2.rest.length = c.rest.length - (c.collect p).1.length := by
  simp [collect, skip]

/-! ## 4. Going ahead -/

/-- The cursor lies ahead of `c` in the same source, with no terminator between them. -/
def ReachedFrom (c' c : Cursor) : Prop :=
  ∃ passed, terminator ∉ passed ∧ passed ++ c'.rest = c.rest ∧
    c'.position = c.position + passed.length

theorem ReachedFrom.refl (c : Cursor) : c.ReachedFrom c := ⟨[], List.not_mem_nil, rfl, rfl⟩

theorem ReachedFrom.trans {c c' c'' : Cursor} (h : c'.ReachedFrom c) (h' : c''.ReachedFrom c') :
    c''.ReachedFrom c := by
  obtain ⟨passed, ht, hr, hp⟩ := h
  obtain ⟨passed', ht', hr', hp'⟩ := h'
  refine ⟨passed ++ passed', ?_, ?_, ?_⟩
  · exact fun hm => (List.mem_append.1 hm).elim ht ht'
  · rw [List.append_assoc, hr', hr]
  · rw [hp', hp, List.length_append, Nat.add_assoc]

/-- What was passed is behind: the position grows as the rest shrinks. -/
theorem ReachedFrom.position_add {c c' : Cursor} (h : c'.ReachedFrom c) :
    c'.position + c'.rest.length = c.position + c.rest.length := by
  obtain ⟨passed, -, hr, hp⟩ := h
  rw [← hr, hp, List.length_append, Nat.add_assoc]

theorem ReachedFrom.position_le {c c' : Cursor} (h : c'.ReachedFrom c) :
    c.position ≤ c'.position := by
  obtain ⟨passed, -, -, hp⟩ := h
  exact hp ▸ Nat.le_add_right _ _

/-- **A cursor advances ahead**, or stays at a terminator. -/
theorem advance_reached (c : Cursor) : c.advance.ReachedFrom c := by
  by_cases hc : c.current = terminator
  · rw [advance_of_terminator hc]
    exact .refl c
  · exact ⟨[c.current], fun h => hc (List.mem_singleton.1 h).symm, current_cons_advance hc,
      position_advance hc⟩

/-- **What collects goes ahead.** -/
theorem collect_reached (p : Char → Bool) (c : Cursor) : (c.collect p).2.ReachedFrom c :=
  ⟨(c.collect p).1, fun h => (mem_collect h).1 rfl, collect_append_rest p c, collect_position p c⟩

end Cursor

end DeskCalculator
