import DeskCalculator.Proofs.Acceptance

/-!
# Commas

A comma separates two arguments, or it stands idle before an operand. This file fixes

* `separates`, `CommasSeparate` -- the tokens of a text in which every comma stands in a group
  directly after the name of a function of two arguments, and only one in each;
* `commasDue` -- how many commas a reader still waits for in its open groups;
* `Counts` -- what a turn does to that number (`counts_of_turn`).

Main statement: **a text that is read to the end holds all the commas that are due**
(`commasDue_le`). An idle comma would therefore be one too many.
-/

namespace DeskCalculator

/-! ## 1. Commas that separate -/

/-- How many commas separate the arguments of a function; none for other names. -/
def commasBetween (name : String) : Nat :=
  match Function.ofName? name with
  | some f => f.arity - 1
  | none => 0

theorem commasBetween_of_some {name : String} {f : Function}
    (h : Function.ofName? name = some f) : commasBetween name = f.arity - 1 := by
  rw [commasBetween, h]

theorem commasBetween_of_none {name : String} (h : Function.ofName? name = none) :
    commasBetween name = 0 := by
  rw [commasBetween, h]

/-- Whether all commas separate arguments: `opening` may come in a group that opens here, and
    `groups` tells how many more may come in the open ones, innermost first. -/
def separates (opening : Nat) (groups : List Nat) : List Token → Bool
  | [] => true
  | .mark m :: ts =>
    match m with
    | .leftParen => separates 0 (opening :: groups) ts
    | .rightParen => separates 0 groups.tail ts
    | .comma =>
      match groups with
      | (n + 1) :: groups => separates 0 (n :: groups) ts
      | _ => false
    | _ => separates 0 groups ts
  | .name name :: ts => separates (commasBetween name) groups ts
  | .number _ :: ts | .foreign _ :: ts => separates 0 groups ts

/-- The only commas are those between the two arguments of a function. -/
def CommasSeparate (ts : List Token) : Prop := separates 0 [] ts = true

/-! ## 2. Commas that are due -/

/-- How many commas are due in the open groups, innermost first. -/
def commasDue : List Frame → List Nat
  | [] => []
  | .group n :: frames => n :: commasDue frames
  | .binding _ :: frames => commasDue frames

/-- In every open group at most as many are due as may come. -/
def Covers (groups due : List Nat) : Prop := ∀ i, due.getD i 0 ≤ groups.getD i 0

theorem Covers.nil (groups : List Nat) : Covers groups [] := by
  intro i
  rw [List.getD_nil]
  exact Nat.zero_le _

theorem covers_cons_iff {n m : Nat} {groups due : List Nat} :
    Covers (n :: groups) (m :: due) ↔ m ≤ n ∧ Covers groups due := by
  constructor
  · intro h
    refine ⟨by simpa using h 0, fun i => ?_⟩
    simpa using h (i + 1)
  · intro h i
    rcases h with ⟨hle, h⟩
    cases i with
    | zero => simpa using hle
    | succ i => simpa using h i

theorem Covers.tail_iff {groups due : List Nat} :
    Covers groups (0 :: due) ↔ Covers groups.tail due := by
  cases groups with
  | nil =>
    constructor
    · intro h i
      simpa using h (i + 1)
    · intro h i
      cases i with
      | zero => simp
      | succ i => simpa using h i
  | cons n groups =>
    rw [covers_cons_iff, List.tail_cons]
    exact and_iff_right (Nat.zero_le n)

theorem commasDue_closeChain (extent : Extent) (c : Cursor) (frames : List Frame) :
    commasDue frames = commasDue (groupFrames (Reader.closeChain extent c frames).2) := by
  induction frames with
  | nil => rfl
  | cons frame frames ih =>
    cases frame with
    | group n => rfl
    | binding name => exact ih

/-- What a token does to the number of commas that are due. -/
def Counts (t : Token) (due due' : List Nat) : Prop :=
  match t with
  | .mark .leftParen => ∃ n, due' = n :: due
  | .mark .rightParen => due = 0 :: due'
  | .mark .comma => due' = due ∨ ∃ n rest, due = (n + 1) :: rest ∧ due' = n :: rest
  | _ => due' = due

namespace Reader

variable {r r' : Reader} {l : Lexeme}

theorem counts_of_operandTurn (h : (r.operandTurn l).move = .next r') :
    Counts l.token (commasDue r.frames) (commasDue r'.frames) := by
  unfold operandTurn at h
  cases ht : l.token with
  | number lexeme =>
    rw [ht] at h
    simp only at h
    split at h
    · cases h
      rfl
    · cases h
  | name name =>
    rw [ht] at h
    simp only at h
    split at h
    · cases h
      rfl
    · cases h
      rfl
  | foreign c =>
    rw [ht] at h
    cases h
  | mark m =>
    rw [ht] at h
    cases m with
    | minus =>
      cases h
      rfl
    | comma =>
      cases h
      exact .inl rfl
    | leftParen =>
      cases h
      exact ⟨0, rfl⟩
    | _ => cases h

theorem counts_of_closingTurn {m : Mark} (ht : l.token = .mark m)
    (h : (r.closingTurn l m).move = .next r') :
    Counts l.token (commasDue r.frames) (commasDue r'.frames) := by
  unfold closingTurn at h
  rw [commasDue_closeChain r.extent l.start r.frames]
  generalize closeChain r.extent l.start r.frames = closed at h ⊢
  obtain ⟨code, group⟩ := closed
  match group with
  | none => cases h
  | some (0, frames) =>
    by_cases hm : m = .rightParen
    · simp only [hm, if_true] at h
      cases h
      rw [ht, hm]
      rfl
    · simp only [hm, if_false] at h
      cases h
  | some (n + 1, frames) =>
    by_cases hm : m = .comma
    · simp only [hm, if_true] at h
      cases h
      rw [ht, hm]
      exact .inr ⟨n, commasDue frames, rfl, rfl⟩
    · simp only [hm, if_false] at h
      cases h

theorem counts_of_operatorTurn (h : (r.operatorTurn l).move = .next r') :
    Counts l.token (commasDue r.frames) (commasDue r'.frames) := by
  unfold operatorTurn at h
  split at h
  · next m ht =>
    split at h
    · next op hop =>
      obtain ⟨rfl, -⟩ := Mark.eq_bang_of_after? hop
      cases h
      rw [ht]
      rfl
    · next op _ hop =>
      split at h
      · cases h
      · cases h
        rw [ht]
        cases m <;> first | rfl | cases hop
    · split at h
      · exact counts_of_operandTurn h
      · exact counts_of_closingTurn ht h
  · exact counts_of_operandTurn h

/-- **What a turn does to the number of commas that are due.** -/
theorem counts_of_turn (h : (r.turn l).move = .next r') :
    Counts l.token (commasDue r.frames) (commasDue r'.frames) := by
  unfold turn at h
  split at h
  · exact counts_of_operandTurn h
  · unfold argumentsTurn at h
    split at h
    · next ht =>
      cases h
      rw [ht]
      exact ⟨_, rfl⟩
    · cases h
  · unfold bindingTurn at h
    split at h
    · next ht =>
      cases h
      rw [ht]
      rfl
    · exact counts_of_operatorTurn h
  · exact counts_of_operatorTurn h

end Reader

/-! ## 3. All commas come -/

/-- At the end no comma is due. -/
theorem commasDue_of_ends {halt : Cursor} {r : Reader} (h : Reader.Ends halt r []) :
    commasDue r.frames = [] := by
  obtain ⟨stop, hstop, -⟩ := h
  have hchain : (r.finishChain halt).stop = .ok stop → commasDue r.frames = [] := by
    intro hstop
    rw [commasDue_closeChain r.extent halt r.frames]
    unfold Reader.finishChain at hstop
    generalize Reader.closeChain r.extent halt r.frames = closed at hstop ⊢
    obtain ⟨code, group⟩ := closed
    cases group with
    | none => rfl
    | some group => cases hstop
  have hstop : (r.finish halt).stop = .ok stop := hstop
  unfold Reader.finish at hstop
  split at hstop
  · cases hstop
  · cases hstop
  · exact hchain hstop
  · exact hchain hstop

/-- **A text that is read to the end holds all the commas that are due**: if its commas separate,
    then as many may come. -/
theorem commasDue_le {halt : Cursor} {ls : List Lexeme} {r : Reader} {opening : Nat}
    {groups : List Nat} (h : Reader.Ends halt r ls) (hls : ∀ l ∈ ls, l.Proper)
    (hs : separates opening groups (closedTokens ls) = true) :
    Covers groups (commasDue r.frames) := by
  induction ls generalizing r opening groups with
  | nil =>
    rw [commasDue_of_ends h]
    exact .nil groups
  | cons l ls ih =>
    obtain ⟨r', hnext, hends⟩ := h.exists_next (hls l List.mem_cons_self)
    have hcounts := Reader.counts_of_turn hnext
    have hproper : ∀ l ∈ ls, l.Proper := fun l hl => hls l (List.mem_cons_of_mem _ hl)
    rw [closedTokens_cons] at hs
    cases ht : l.token with
    | number lexeme =>
      rw [ht] at hs hcounts
      have hs : separates 0 groups (closedTokens ls) = true := hs
      have hdue : commasDue r'.frames = commasDue r.frames := hcounts
      rw [← hdue]
      exact ih hends hproper hs
    | name name =>
      rw [ht] at hs hcounts
      have hs : separates (commasBetween name) groups (closedTokens ls) = true := hs
      have hdue : commasDue r'.frames = commasDue r.frames := hcounts
      rw [← hdue]
      exact ih hends hproper hs
    | foreign c =>
      rw [ht] at hs hcounts
      have hs : separates 0 groups (closedTokens ls) = true := hs
      have hdue : commasDue r'.frames = commasDue r.frames := hcounts
      rw [← hdue]
      exact ih hends hproper hs
    | mark m =>
      rw [ht] at hs hcounts
      cases m with
      | leftParen =>
        have hs : separates 0 (opening :: groups) (closedTokens ls) = true := hs
        obtain ⟨n, hn⟩ := hcounts
        have hcov := ih hends hproper hs
        rw [hn, covers_cons_iff] at hcov
        exact hcov.2
      | rightParen =>
        have hs : separates 0 groups.tail (closedTokens ls) = true := hs
        have hdue : commasDue r.frames = 0 :: commasDue r'.frames := hcounts
        rw [hdue, Covers.tail_iff]
        exact ih hends hproper hs
      | comma =>
        match groups, hs with
        | (n + 1) :: groups, hs =>
          have hs : separates 0 (n :: groups) (closedTokens ls) = true := hs
          have hcov := ih hends hproper hs
          rcases hcounts with hdue | ⟨m, rest, hdue, hdue'⟩
          · rw [hdue] at hcov
            intro i
            refine (hcov i).trans ?_
            cases i with
            | zero => simp
            | succ i => simp
          · rw [hdue', covers_cons_iff] at hcov
            rw [hdue, covers_cons_iff]
            exact ⟨Nat.succ_le_succ hcov.1, hcov.2⟩
      | _ =>
        have hs : separates 0 groups (closedTokens ls) = true := hs
        have hdue : commasDue r'.frames = commasDue r.frames := hcounts
        rw [← hdue]
        exact ih hends hproper hs

end DeskCalculator
