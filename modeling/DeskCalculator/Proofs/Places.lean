import DeskCalculator.Proofs.Naming

/-!
# The places of code and errors

Code is issued along the text, and errors are reported there. This file fixes

* `Issued.place`, `Reading.place`, `Program.place` -- where an instruction reports an error, and where
  a reading or a program ends and reports it (`Program.position_of_error`);
* `Lexeme.Tiles`, `span` -- tokens that follow each other without a gap, and how far tokens reach;
* `AssignedBefore` -- a name stands before an equals sign, among the tokens that end before a place;
* `Code.Dated` -- names are bound behind their equals signs, and nothing after a binding is placed
  before them.

Main statements: **a step that fails reports at its place** (`failed_step`), and **the program of a
source is dated** (`dated_program`).
-/

namespace DeskCalculator

/-! ## 1. Where errors are reported -/

/-- Where an instruction issued at `position` reports an error: a name that has no value is reported
    where it starts. -/
def Instruction.place (position : Nat) : Instruction → Nat
  | read _ start => start
  | literal _ | operator _ | hold _ | openScope | closeScope | settle | assign _ => position

/-- Where an instruction reports an error. -/
def Issued.place (i : Issued) : Nat := i.instruction.place i.cursor.position

/-- Where a reading ends: where it is refused, or where it stops. -/
def Reading.place (r : Reading) : Nat :=
  match r.stop with
  | .ok c => c.position
  | .error refusal => refusal.error.position

/-- Where a program ends. -/
def Program.place (p : Program) : Nat :=
  match p.ending with
  | .ok position => position
  | .error err => err.position

namespace Machine

variable {s : Settings} {position : Nat} {m m' : Machine} {err : EvalError}

/-- An operator that fails is a fault of the arithmetic, where it was to be applied. -/
theorem fault_of_applyOperator {op : Operator}
    (h : m.applyOperator s position op = .failed err m') : ∃ f, err = ⟨position, .arithmetic f⟩ := by
  have hdeliver : ∀ {op operands raw m}, deliver s position op operands raw m = .failed err m' →
      ∃ f, err = ⟨position, .arithmetic f⟩ := by
    intro op operands raw m h
    unfold deliver at h
    simp only at h
    split at h
    · cases h
      exact ⟨_, rfl⟩
    · cases h
  unfold applyOperator at h
  split at h
  · cases h
    exact ⟨_, rfl⟩
  · exact hdeliver h
  · cases h
    exact ⟨_, rfl⟩
  · split at h
    · cases h
      exact ⟨_, rfl⟩
    · exact hdeliver h
  · cases h
    exact ⟨_, rfl⟩

theorem fault_of_reduceTimes {n : Nat} (h : m.reduceTimes s position n = .failed err m') :
    ∃ f, err = ⟨position, .arithmetic f⟩ := by
  induction n generalizing m with
  | zero => cases h
  | succ n ih =>
    rw [reduceTimes] at h
    cases hr : m.reduce s position with
    | ok m₁ =>
      rw [hr] at h
      exact ih h
    | failed err₁ m₁ =>
      rw [hr] at h
      cases h
      unfold reduce at hr
      split at hr
      · cases hr
        exact ⟨_, rfl⟩
      · exact fault_of_applyOperator hr

/-- Operators that fail report where they were to be applied, and leave the table alone. -/
theorem failed_reduceTimes {n : Nat} (h : m.reduceTimes s position n = .failed err m') :
    err.position = position ∧ m'.memory = m.memory := by
  have hmemory := memory_reduceTimes s position n m
  rw [h] at hmemory
  obtain ⟨f, rfl⟩ := fault_of_reduceTimes h
  exact ⟨rfl, hmemory⟩

/-- **A step that fails reports at its place**, and leaves the table alone. -/
theorem failed_step {i : Instruction} (h : m.step s position i = .failed err m') :
    err.position = i.place position ∧ m'.memory = m.memory := by
  cases i with
  | literal x => cases h
  | read name start =>
    unfold step read lookUp at h
    simp only at h
    cases hm : m.memory.get? name with
    | some x =>
      rw [hm] at h
      cases h
    | none =>
      rw [hm] at h
      cases hs : s.strict with
      | true =>
        simp only [hs, if_true] at h
        cases h
        exact ⟨rfl, rfl⟩
      | false =>
        simp only [hs, Bool.false_eq_true, if_false] at h
        cases h
  | operator op =>
    unfold step stackOperator reduceWhile at h
    simp only at h
    cases hr : m.reduceTimes s position _ with
    | ok m₁ =>
      rw [hr] at h
      cases h
    | failed err₁ m₁ =>
      rw [hr] at h
      cases h
      exact failed_reduceTimes hr
  | hold op => cases h
  | openScope => cases h
  | closeScope =>
    unfold step closeScope at h
    simp only at h
    split at h
    · cases h
      exact ⟨rfl, rfl⟩
    · cases h
    · cases h
      exact ⟨rfl, rfl⟩
  | settle => exact failed_reduceTimes h
  | assign name =>
    unfold step assign at h
    simp only at h
    split at h
    · cases h
      exact ⟨rfl, rfl⟩
    · cases h

/-- Code that fails does so at one of its instructions. -/
theorem exists_step_of_exec {code : Code} (h : m.exec s code = .failed err m') :
    ∃ i ∈ code, ∃ m₁ : Machine, m₁.step s i.cursor.position i.instruction = .failed err m' := by
  induction code generalizing m with
  | nil => cases h
  | cons i code ih =>
    rw [exec] at h
    cases hstep : m.step s i.cursor.position i.instruction with
    | ok m₁ =>
      rw [hstep] at h
      obtain ⟨j, hj, hfailed⟩ := ih h
      exact ⟨j, List.mem_cons_of_mem _ hj, hfailed⟩
    | failed err₁ m₁ =>
      rw [hstep] at h
      cases h
      exact ⟨i, List.mem_cons_self, m, hstep⟩

/-- **Code that fails reports at the place of one of its instructions.** -/
theorem exists_place_of_exec {code : Code} (h : m.exec s code = .failed err m') :
    ∃ i ∈ code, err.position = i.place := by
  obtain ⟨i, hi, m₁, hstep⟩ := exists_step_of_exec h
  exact ⟨i, hi, (failed_step hstep).1⟩

end Machine

/-- **A program that fails after all of its code reports at its end.** -/
theorem Program.position_of_error {p : Program} {s : Settings} {m m' : Machine} {err : EvalError}
    (hexec : m.exec s p.code = .ok m') (h : (p.outcome s m).1 = .error err) :
    err.position = p.place := by
  cases hending : p.ending with
  | error err₁ =>
    rw [outcome_of_error hexec hending] at h
    cases h
    rw [place, hending]
  | ok position =>
    rw [place, hending]
    unfold outcome at h
    rw [hexec, hending] at h
    simp only at h
    split at h
    · next hother => cases hother
    · cases h
    · next hother _ =>
      cases hother
      cases h
      rfl

/-! ## 2. How far tokens reach -/

/-- The length of the text of some tokens. -/
def span (ts : List Token) : Nat := (ts.flatMap Token.chars).length

theorem span_append (ts us : List Token) : span (ts ++ us) = span ts + span us := by
  simp [span, List.flatMap_append]

theorem span_le_of_prefix {ts us : List Token} (h : ts <+: us) : span ts ≤ span us := by
  obtain ⟨rest, rfl⟩ := h
  rw [span_append]
  exact Nat.le_add_right _ _

/-- The lexemes follow each other without a gap from a position to a cursor. -/
def Lexeme.Tiles : Nat → List Lexeme → Cursor → Prop
  | position, [], halt => halt.position = position
  | position, l :: ls, halt => l.start.position = position ∧
    l.stop.position = position + l.token.chars.length ∧ Tiles l.stop.position ls halt

/-- Behind some lexemes the others follow on. -/
theorem Lexeme.Tiles.of_append {position : Nat} {front rest : List Lexeme} {halt : Cursor}
    (h : Tiles position (front ++ rest) halt) :
    Tiles (position + span (front.map Lexeme.token)) rest halt := by
  induction front generalizing position with
  | nil => exact h
  | cons l front ih =>
    obtain ⟨-, hstop, hrest⟩ := h
    have hfront := ih hrest
    have hspan : l.stop.position + span (front.map Lexeme.token) =
        position + span ((l :: front).map Lexeme.token) := by
      rw [hstop, span, span, List.map_cons, List.flatMap_cons, List.length_append, Nat.add_assoc]
    rwa [hspan] at hfront

namespace Cursor

/-- A cursor passes a token by its length. -/
theorem position_of_next? {c after : Cursor} {t : Token} (h : c.next? = some (t, after)) :
    after.position = c.position + t.chars.length := by
  unfold next? at h
  split at h
  · cases h
  · next hc =>
    split at h
    · cases h
      rw [Token.chars, String.toList_ofList, collect_position]
    · split at h
      · cases h
        rw [Token.chars, String.toList_ofList, collect_position]
      · cases h
        rw [advance, if_neg hc, Token.chars_single]
        rfl

/-- Moving on keeps the place where the text ends. -/
theorem end_halt (c : Cursor) :
    c.halt.position + c.halt.rest.length = c.position + c.rest.length := by
  rw [halt, rest_length_collect, collect_position]
  have hle : (c.collect fun _ => true).1.length ≤ c.rest.length :=
    (List.takeWhile_prefix _).length_le
  omega

/-- The tokens end at the same place before and after a token. -/
theorem halt_of_next? {c after : Cursor} {t : Token} (h : c.next? = some (t, after)) :
    after.halt = c.halt := by
  have hrest := rest_halt_of_next? h
  have hchars := congrArg List.length (chars_append_of_next? h)
  have hafter := end_halt after
  have hc := end_halt c
  rw [List.length_append] at hchars
  rw [hrest, position_of_next? h] at hafter
  have hposition : after.halt.position = c.halt.position := by omega
  exact congrArg₂ Cursor.mk hposition hrest

/-- **The tokens from a cursor on have no gaps.** -/
theorem tiles_lexemes (c : Cursor) : Lexeme.Tiles c.position c.lexemes c.halt := by
  induction c using lexemes.induct with
  | case1 c h =>
    have hhalt : c.halt.position = c.position := by
      have hnil : c.run (fun _ => true) = [] := by
        rw [run]
        cases hr : c.rest with
        | nil => rfl
        | cons x tail =>
          have hx : x = terminator := by
            have := next?_eq_none_iff.1 h
            rwa [current, hr] at this
          simp [hx]
      rw [halt, collect_position, collect, hnil, List.length_nil, Nat.add_zero]
    rw [lexemes_of_next?_eq_none h]
    exact hhalt
  | case2 c t after h _ ih =>
    rw [lexemes_of_next? h]
    rw [halt_of_next? h] at ih
    exact ⟨rfl, position_of_next? h, ih⟩

end Cursor

/-! ## 3. Names that were bound before -/

/-- A name stands directly before an equals sign, both among the tokens that end at a position or
    before it. -/
def AssignedBefore (ts : List Token) (name : String) (position : Nat) : Prop :=
  ∃ front, front <+: ts ∧ span front ≤ position ∧ Assigned front name

/-- The name can be bound, and its equals sign ends at a position or before it. -/
structure BoundBefore (ts : List Token) (position : Nat) (name : String) : Prop where
  function : Function.ofName? name = none
  assigned : AssignedBefore ts name position

theorem BoundBefore.mono {ts us : List Token} {position position' : Nat} {name : String}
    (h : BoundBefore ts position name) (hts : ts <+: us) (hle : position ≤ position') :
    BoundBefore us position' name := by
  obtain ⟨front, hfront, hspan, hassigned⟩ := h.assigned
  exact ⟨h.function, front, hfront.trans hts, hspan.trans hle, hassigned⟩

theorem BoundBefore.assigned_text {ts : List Token} {position : Nat} {name : String}
    (h : BoundBefore ts position name) : Assigned ts name := by
  obtain ⟨front, hfront, -, hassigned⟩ := h.assigned
  exact hassigned.trans hfront.isInfix

/-- Code with places from `first` on: what it binds stands before its equals sign, ahead of all that
    comes after the binding and of `last`. -/
structure Code.Dated (ts : List Token) (first last : Nat) (code : Code) : Prop where
  first_le : first ≤ last
  places : ∀ i ∈ code, first ≤ i.place
  order : code.Pairwise fun i j => ∀ name, i.instruction = .assign name →
    BoundBefore ts j.place name
  binds : ∀ i ∈ code, ∀ name, i.instruction = .assign name → BoundBefore ts last name

namespace Code.Dated

variable {ts : List Token} {first middle middle' last last' : Nat} {code code' : Code}

theorem nil (h : first ≤ last) : Dated ts first last [] :=
  ⟨h, by simp, .nil, by simp⟩

/-- **Dated code goes on with dated code that is placed behind it.** -/
theorem append (h : code.Dated ts first middle) (h' : code'.Dated ts middle' last)
    (hle : middle ≤ middle') : Dated ts first last (code ++ code') where
  first_le := (h.first_le.trans hle).trans h'.first_le
  places := List.forall_mem_append.2
    ⟨h.places, fun i hi => (h.first_le.trans hle).trans (h'.places i hi)⟩
  order := List.pairwise_append.2 ⟨h.order, h'.order, fun i hi j hj name hname =>
    (h.binds i hi name hname).mono List.prefix_rfl (hle.trans (h'.places j hj))⟩
  binds := List.forall_mem_append.2 ⟨fun i hi name hname =>
    (h.binds i hi name hname).mono List.prefix_rfl (hle.trans h'.first_le), h'.binds⟩

theorem of_le (h : code.Dated ts first last) (hle : last ≤ last') : code.Dated ts first last' where
  first_le := h.first_le.trans hle
  places := h.places
  order := h.order
  binds i hi name hname := (h.binds i hi name hname).mono List.prefix_rfl hle

/-- Code is dated if all of it is placed behind the names that it binds. -/
theorem of_places {position : Nat} (hplaces : ∀ i ∈ code, position ≤ i.place)
    (hbinds : ∀ i ∈ code, ∀ name, i.instruction = .assign name → BoundBefore ts position name) :
    Dated ts position position code where
  first_le := Nat.le_refl _
  places := hplaces
  order := List.pairwise_of_forall_mem_list fun i hi j hj name hname =>
    (hbinds i hi name hname).mono List.prefix_rfl (hplaces j hj)
  binds := hbinds

/-- A name that is looked up first may start before all else. -/
theorem read {c : Cursor} {name : String} {start : Nat} (h : code.Dated ts first last)
    (hle : start ≤ first) : Dated ts start last (⟨c, .read name start⟩ :: code) where
  first_le := hle.trans h.first_le
  places := List.forall_mem_cons.2 ⟨Nat.le_refl start, fun i hi => hle.trans (h.places i hi)⟩
  order := List.pairwise_cons.2 ⟨fun j _ bound hbound => (by cases hbound), h.order⟩
  binds := List.forall_mem_cons.2 ⟨fun bound hbound => (by cases hbound), h.binds⟩

end Code.Dated

/-! ## 4. One turn -/

namespace Reader

variable {r : Reader} {l : Lexeme}

/-- A turn is placed at its token or behind it and refuses at its token, and the name that is pending
    next is the token. -/
structure Timely (l : Lexeme) (t : Turn) : Prop where
  places : ∀ i ∈ t.code, l.start.position ≤ i.place
  refusal : ∀ refusal, t.move = .refuse refusal → refusal.error.position = l.start.position
  pending : ∀ r', t.move = .next r' → ∀ name start, r'.awaiting = .binding name start →
    l.token = .name name ∧ start = l.start.position ∧ Function.ofName? name = none

theorem Timely.after {t : Turn} (h : Timely l t) {issued : Issued}
    (hplace : l.start.position ≤ issued.place) : Timely l (t.after issued) :=
  ⟨List.forall_mem_cons.2 ⟨hplace, h.places⟩, h.refusal, h.pending⟩

theorem timely_operandTurn (r : Reader) (hl : l.start.position ≤ l.stop.position) :
    Timely l (r.operandTurn l) := by
  unfold operandTurn
  split
  · split
    · refine ⟨?_, ?_, ?_⟩ <;> simp [await, Issued.place, Instruction.place, hl]
    · refine ⟨?_, ?_, ?_⟩ <;> simp
  · next name hname =>
    split
    · next f hf =>
      by_cases harity : f.arity = 1 <;> refine ⟨?_, ?_, ?_⟩ <;>
        simp [await, Issued.place, Instruction.place, hl, harity]
    · next hf =>
      refine ⟨by simp, by simp, ?_⟩
      rintro r' ⟨⟩ other start hother
      cases hother
      exact ⟨hname, rfl, hf⟩
  · refine ⟨?_, ?_, ?_⟩ <;> simp [await, Issued.place, Instruction.place]
  · refine ⟨?_, ?_, ?_⟩ <;> simp [enter, Issued.place, Instruction.place, hl]
  · refine ⟨?_, ?_, ?_⟩ <;> simp [await]
  · refine ⟨?_, ?_, ?_⟩ <;> simp [refuseToken]
  · refine ⟨?_, ?_, ?_⟩ <;> simp [refuseToken]

/-- The end of a chain is placed where it is. -/
theorem place_of_closeChain {extent : Extent} {c : Cursor} {frames : List Frame} :
    ∀ i ∈ (closeChain extent c frames).1, i.place = c.position := by
  intro i hi
  obtain ⟨rfl, h | h | ⟨name, -, h⟩⟩ := mem_closeChain i hi <;> rw [Issued.place, h] <;> rfl

theorem timely_closingTurn (r : Reader) (m : Mark) (hl : l.start.position ≤ l.stop.position) :
    Timely l (r.closingTurn l m) := by
  have hplaces : ∀ i ∈ (closeChain r.extent l.start r.frames).1, l.start.position ≤ i.place :=
    fun i hi => (place_of_closeChain i hi).ge
  unfold closingTurn
  generalize closeChain r.extent l.start r.frames = closed at hplaces ⊢
  obtain ⟨code, group⟩ := closed
  match group with
  | none => exact ⟨hplaces, by simp, by simp⟩
  | some (0, rest) =>
    simp only
    split
    · refine ⟨List.forall_mem_append.2 ⟨hplaces, ?_⟩, by simp, ?_⟩
      · simpa [Issued.place, Instruction.place] using hl
      · rintro r' ⟨⟩ name start ⟨⟩
    · exact ⟨hplaces, by simp [refuseGroup], by simp⟩
  | some (n + 1, rest) =>
    simp only
    split
    · refine ⟨hplaces, by simp, ?_⟩
      rintro r' ⟨⟩ name start ⟨⟩
    · exact ⟨hplaces, by simp [refuseGroup], by simp⟩

theorem timely_operatorTurn (r : Reader) (hl : l.start.position ≤ l.stop.position) :
    Timely l (r.operatorTurn l) := by
  have himplied : Timely l (r.impliedTurn l) := (timely_operandTurn r hl).after (Nat.le_refl _)
  unfold operatorTurn
  split
  · split
    · refine ⟨?_, ?_, ?_⟩ <;> simp [await, Issued.place, Instruction.place]
    · split
      · refine ⟨?_, ?_, ?_⟩ <;> simp
      · refine ⟨?_, ?_, ?_⟩ <;> simp [await, Issued.place, Instruction.place]
    · split
      · exact himplied
      · exact timely_closingTurn r _ hl
  · exact himplied

/-- **A turn is timely**, but for the name that it looks up first. -/
theorem timely_turn (r : Reader) (hl : l.start.position ≤ l.stop.position) :
    Timely l (r.turn l) ∨ ∃ name start t, r.awaiting = .binding name start ∧
      r.turn l = t.after ⟨l.start, .read name start⟩ ∧ Timely l t := by
  unfold turn
  split
  · exact .inl (timely_operandTurn r hl)
  · unfold argumentsTurn
    split
    · refine .inl ⟨?_, ?_, ?_⟩ <;> simp [enter, Issued.place, Instruction.place, hl]
    · refine .inl ⟨?_, ?_, ?_⟩ <;> simp
  · next name start ha =>
    unfold bindingTurn
    split
    · refine .inl ⟨?_, ?_, ?_⟩ <;> simp [enter, Issued.place, Instruction.place, hl]
    · exact .inr ⟨name, start, _, ha, rfl, timely_operatorTurn r hl⟩
  · exact .inl (timely_operatorTurn r hl)

/-! ## 5. A whole reading -/

/-- After some tokens, the pending name is the last of them, and the names of open frames were bound
    there. -/
structure Recalls (done : List Token) (r : Reader) : Prop where
  pending : ∀ name start, r.awaiting = .binding name start →
    [.name name] <:+ done ∧ start ≤ span done ∧ Function.ofName? name = none
  frames : ∀ name, .binding name ∈ r.frames → Function.ofName? name = none ∧ Assigned done name

/-- Where the first error of a reading can be reported: a pending name is reported where it starts. -/
def first (position : Nat) (r : Reader) : Nat :=
  match r.awaiting with
  | .binding _ start => start
  | .operand | .arguments _ | .operator => position

theorem Recalls.first_le {done : List Token} (h : r.Recalls done) :
    r.first (span done) ≤ span done := by
  unfold first
  split
  · next name start ha => exact (h.pending name start ha).2.1
  all_goals exact Nat.le_refl _

theorem exists_start_of_pending {name : String} (h : r.pending = [.name name]) :
    ∃ start, r.awaiting = .binding name start := by
  unfold pending at h
  split at h
  · next start ha =>
    cases h
    exact ⟨start, ha⟩
  · cases h

section Read

variable {ts done : List Token} {halt : Cursor} {ls : List Lexeme} {code : Code}

/-- What a turn binds is the name of an open frame, bound before. -/
theorem boundBefore_of_turn (h : r.Recalls done) (hdone : done <+: ts) :
    ∀ i ∈ (r.turn l).code, ∀ name, i.instruction = .assign name →
      BoundBefore ts (span done) name := by
  intro i hi name hname
  obtain ⟨hfunction, hassigned⟩ := h.frames name ((accounts_turn r l).binds i hi name hname)
  exact ⟨hfunction, done, hdone, Nat.le_refl _, hassigned⟩

/-- The name that is pending after a turn is its token. -/
theorem pending_of_turn {r' : Reader} (hl : l.start.position ≤ l.stop.position)
    (hnext : (r.turn l).move = .next r') {name : String} {start : Nat}
    (ha : r'.awaiting = .binding name start) :
    l.token = .name name ∧ start = l.start.position ∧ Function.ofName? name = none := by
  rcases timely_turn r hl with htimely | ⟨name', start', t, -, hturn, htimely⟩
  · exact htimely.pending r' hnext name start ha
  · rw [hturn] at hnext
    exact htimely.pending r' hnext name start ha

/-- **A reader recalls the tokens after a turn**, and nothing is reported before the turn. -/
theorem recalls_turn {r' : Reader} (h : r.Recalls done) (hstart : l.start.position = span done)
    (hl : l.start.position ≤ l.stop.position) (hnext : (r.turn l).move = .next r') :
    r'.Recalls (done ++ [l.token]) ∧ span done ≤ r'.first (span (done ++ [l.token])) := by
  have hpending : ∀ name start, r'.awaiting = .binding name start →
      l.token = .name name ∧ start = l.start.position ∧ Function.ofName? name = none :=
    fun name start => pending_of_turn hl hnext
  have hgrows : span done ≤ span (done ++ [l.token]) := span_le_of_prefix (List.prefix_append _ _)
  refine ⟨⟨fun name start ha => ?_, fun name hname => ?_⟩, ?_⟩
  · obtain ⟨htoken, rfl, hfunction⟩ := hpending name start ha
    rw [htoken] at hgrows ⊢
    exact ⟨List.suffix_append _ _, hstart.trans_le hgrows, hfunction⟩
  · rcases (accounts_turn r l).frames r' hnext name hname with hold | ⟨hpending, hequals⟩
    · obtain ⟨hfunction, hassigned⟩ := h.frames name hold
      exact ⟨hfunction, hassigned.trans (List.prefix_append _ _).isInfix⟩
    · obtain ⟨start, ha⟩ := exists_start_of_pending hpending
      obtain ⟨⟨before, hbefore⟩, -, hfunction⟩ := h.pending name start ha
      refine ⟨hfunction, before, [], ?_⟩
      rw [hequals, ← hbefore]
      simp
  · unfold first
    split
    · next name start ha => rw [(hpending name start ha).2.1, hstart]
    all_goals exact hgrows

/-- The code of a turn is dated. -/
theorem dated_turn (h : r.Recalls done) (hdone : done <+: ts)
    (hstart : l.start.position = span done) (hl : l.start.position ≤ l.stop.position) :
    (r.turn l).code.Dated ts (r.first (span done)) (span done) := by
  have hbinds := boundBefore_of_turn (l := l) h hdone
  rcases timely_turn r hl with htimely | ⟨name, start, t, ha, hturn, htimely⟩
  · have hdated := Code.Dated.of_places (hstart ▸ htimely.places) hbinds
    exact Code.Dated.nil h.first_le |>.append hdated (Nat.le_refl _)
  · rw [hturn] at hbinds ⊢
    have hfirst : r.first (span done) = start := by
      rw [first, ha]
    rw [hfirst]
    exact (Code.Dated.of_places (hstart ▸ htimely.places) (List.forall_mem_cons.1 hbinds).2).read
      (h.pending name start ha).2.1

/-- A turn refuses at its token. -/
theorem place_of_refuse {refusal : Refusal} (hl : l.start.position ≤ l.stop.position)
    (hmove : (r.turn l).move = .refuse refusal) : refusal.error.position = l.start.position := by
  rcases timely_turn r hl with htimely | ⟨name, start, t, -, hturn, htimely⟩
  · exact htimely.refusal refusal hmove
  · rw [hturn] at hmove
    exact htimely.refusal refusal hmove

/-- A chain ends at the end of the tokens, and so does the reading. -/
theorem place_of_finishChain (r : Reader) (c : Cursor) :
    (∀ i ∈ (r.finishChain c).code, i.place = c.position) ∧ (r.finishChain c).place = c.position := by
  constructor
  · rw [code_finishChain]
    exact place_of_closeChain
  · unfold finishChain
    generalize closeChain r.extent c r.frames = closed
    obtain ⟨code, group⟩ := closed
    cases group <;> rfl

/-- The end of the tokens is the place where a reading ends that comes so far. -/
theorem place_finish (r : Reader) (c : Cursor) : (r.finish c).place = c.position := by
  unfold finish
  cases r.awaiting with
  | operand => rfl
  | arguments f => rfl
  | binding name start => exact (place_of_finishChain r c).2
  | operator => exact (place_of_finishChain r c).2

/-- The code at the end of the tokens is dated. -/
theorem dated_finish (h : r.Recalls done) (hdone : done <+: ts) (hhalt : halt.position = span done) :
    (r.finish halt).code.Dated ts (r.first (span done)) (r.finish halt).place := by
  have hchain : (r.finishChain halt).code.Dated ts (span done) (r.finishChain halt).place := by
    obtain ⟨hplaces, hplace⟩ := place_of_finishChain r halt
    rw [hhalt] at hplaces hplace
    rw [hplace]
    refine .of_places (fun i hi => (hplaces i hi).ge) fun i hi name hname => ?_
    obtain ⟨hfunction, hassigned⟩ := h.frames name ((binds_finishChain r halt i hi).2 name hname)
    exact ⟨hfunction, done, hdone, Nat.le_refl _, hassigned⟩
  cases ha : r.awaiting with
  | operand =>
    simp only [finish, first, ha]
    exact .nil hhalt.ge
  | arguments f =>
    simp only [finish, first, ha]
    exact .nil hhalt.ge
  | binding name start =>
    simp only [finish, first, ha]
    exact hchain.read (h.pending name start ha).2.1
  | operator =>
    simp only [finish, first, ha]
    exact hchain

/-- **The code of a reading is dated**, if the reader recalls what was read before. -/
theorem dated_read (h : r.Recalls done) (htiles : Lexeme.Tiles (span done) ls halt)
    (hts : done ++ ls.map Lexeme.token <+: ts) :
    (read halt r ls).code.Dated ts (r.first (span done)) (read halt r ls).place := by
  have hdone : done <+: ts := (List.prefix_append _ _).trans hts
  induction ls generalizing r done with
  | nil => exact dated_finish h hdone htiles
  | cons l ls ih =>
    obtain ⟨hstart, hstop, hrest⟩ := htiles
    have hl : l.start.position ≤ l.stop.position := by omega
    have hspan : span (done ++ [l.token]) = l.stop.position := by
      rw [span_append, hstop]
      simp [span]
    have hturn := dated_turn (l := l) h hdone hstart hl
    have hnext : ∀ r', (r.turn l).move = .next r' → r'.Recalls (done ++ [l.token]) ∧
        span done ≤ r'.first (span (done ++ [l.token])) := fun r' => recalls_turn h hstart hl
    have hrefuse : ∀ refusal, (r.turn l).move = .refuse refusal →
        refusal.error.position = l.start.position := fun refusal => place_of_refuse hl
    rw [read]
    generalize r.turn l = t at hturn hnext hrefuse
    obtain ⟨code, move⟩ := t
    cases move with
    | next r' =>
      obtain ⟨hrecalls, hfirst⟩ := hnext r' rfl
      have htokens : (done ++ [l.token]) ++ ls.map Lexeme.token <+: ts := by
        rwa [List.append_assoc]
      have honward := ih hrecalls (hspan ▸ hrest) htokens ((List.prefix_append _ _).trans htokens)
      exact hturn.append honward hfirst
    | rest => exact hturn.of_le hstart.ge
    | refuse refusal => exact hturn.of_le (hstart.symm.trans (hrefuse refusal rfl).symm).le

end Read

end Reader

/-! ## 6. The program of a source -/

/-- **The program of a source is dated.** -/
theorem dated_program (source : Source) :
    source.program.code.Dated source.start.tokens 0 source.program.place := by
  have htiles : Lexeme.Tiles (span []) source.start.lexemes source.start.halt :=
    source.start.tiles_lexemes
  have hrecalls : Reader.Recalls [] ⟨.chain, [], .operand⟩ := ⟨by simp, by simp⟩
  have hread : source.start.readChain.code.Dated source.start.tokens 0
      source.start.readChain.place := Reader.dated_read hrecalls htiles List.prefix_rfl
  unfold Source.program Reading.program
  unfold Reading.place at hread
  cases hstop : source.start.readChain.stop with
  | error refusal =>
    rw [hstop] at hread
    exact hread
  | ok c =>
    rw [hstop] at hread
    simp only
    split
    · refine hread.append (.of_places ?_ ?_) (Nat.le_refl _)
      · rintro i hi
        cases List.mem_singleton.1 hi
        exact Nat.le_refl _
      · simp
    · exact hread

end DeskCalculator
