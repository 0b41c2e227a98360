import DeskCalculator.Reading
import DeskCalculator.Proofs.Balance
import DeskCalculator.Proofs.Tokens

/-!
# What a reader leaves on the stacks

The code of a reading, on a builder that holds `k` trees for others. This file fixes

* `Open` -- the scopes of the open frames, and how many trees belong to the scopes around;
* `Reader.Balanced` -- the invariant of a reader and its builder;
* `Awaiting.borrows` -- the tokens at which a function of one argument is overtaken by another
  function before any tree is stacked;
* `Turn.Keeps` -- what one turn does to the invariant.

Main statement: **unless it borrows, a reading has code that a builder can run** (`run_read`); if it
borrows and no tree is there, the code stops at the function that waits.
-/

namespace DeskCalculator

open Builder

/-! ## 1. Open frames -/

/-- The scopes around the innermost one belong to the open frames; `n` trees in all belong to those
    scopes. A group may stand for the last operands of a function of two arguments. -/
inductive Open : List Frame → List (List Operator) → Nat → Prop where
  | nil : Open [] [] 0
  | group {frames : List Frame} {outer : List (List Operator)} {ops : List Operator}
      {n m separators : Nat} (h : Open frames outer n) (ht : ops.head? ≠ some .scope)
      (ha : ∀ op ∈ ops.tail, op.awaits = true) (hm : m + separators = n + twos ops) :
      Open (.group separators :: frames) (ops :: outer) m
  | binding {frames : List Frame} {outer : List (List Operator)} {ops : List Operator} {n : Nat}
      {name : String} (h : Open frames outer n) (ha : ∀ op ∈ ops, op.awaits = true) :
      Open (.binding name :: frames) (ops :: outer) (n + twos ops)

/-- The innermost scope is as the reader's waiting says; `k` trees belong to others. -/
def Awaiting.Fits (k : Nat) (b : Builder) : Awaiting → Prop
  | .operand | .binding _ _ => b.AwaitsOperand k
  | .arguments f => ∃ g kept, f.operator = .binary g ∧ b.scope = .binary g :: kept ∧
      (∀ op ∈ kept, op.awaits = true) ∧ b.trees.length = k + twos kept
  | .operator => b.HasOperand k

/-- **The invariant of a reader and its builder**: `k` trees are not the reader's. -/
def Reader.Balanced (k : Nat) (r : Reader) (b : Builder) : Prop :=
  ∃ n, Open r.frames b.outer n ∧ r.awaiting.Fits (k + n) b

/-- What a reading leaves: one tree more, and at the end of a chain no operator. -/
structure Builder.Closed (k : Nat) (extent : Extent) (b : Builder) : Prop where
  outer : b.outer = []
  operand : b.HasOperand k
  scope : extent = .chain → b.scope = []

/-! ## 2. Borrowing -/

/-- Whether, while no tree is stacked, the tokens let a function overtake a function of one argument
    that waits; `waiting` tells whether one is on top. -/
def Awaiting.borrows (waiting : Bool) : Awaiting → List Token → Bool
  | _, [] => false
  | .operand, .mark m :: ts =>
    match m with
    | .comma => Awaiting.operand.borrows waiting ts
    | .minus | .leftParen => Awaiting.operand.borrows false ts
    | _ => false
  | .operand, .name name :: ts =>
    match Function.ofName? name with
    | some f =>
      waiting || (if f.arity = 1 then Awaiting.operand else .arguments f).borrows true ts
    | none => (Awaiting.binding name 0).borrows false ts
  | .arguments _, t :: ts => t = .mark .leftParen && Awaiting.operand.borrows false ts
  | .binding _ _, t :: ts => t = .mark .equals && Awaiting.operand.borrows false ts
  | .operand, .number _ :: _ | .operand, .foreign _ :: _ | .operator, _ :: _ => false

/-- The reader is to read tokens that borrow, and no tree is there. -/
def Reader.Borrowing (r : Reader) (b : Builder) (ts : List Token) : Prop :=
  b.trees = [] ∧ r.awaiting.borrows b.waitingCall ts = true

theorem Awaiting.borrows_nil (a : Awaiting) (waiting : Bool) : a.borrows waiting [] = false := by
  cases a <;> simp only [borrows]

theorem Awaiting.borrows_operator (waiting : Bool) (ts : List Token) :
    Awaiting.operator.borrows waiting ts = false := by
  cases ts <;> simp only [borrows]

/-- Where a name starts and what waits under it play no part. -/
theorem Awaiting.borrows_binding (name : String) (start : Nat) (waiting : Bool) (ts : List Token) :
    (Awaiting.binding name start).borrows waiting ts =
      (Awaiting.binding name 0).borrows false ts := by
  cases ts <;> simp only [borrows]

/-- Nor does what waits under a function of two arguments. -/
theorem Awaiting.borrows_arguments (f : Function) (waiting : Bool) (ts : List Token) :
    (Awaiting.arguments f).borrows waiting ts = (Awaiting.arguments f).borrows true ts := by
  cases ts <;> simp only [borrows]

theorem Reader.not_borrowing {r : Reader} {b : Builder} (h : b.trees ≠ []) (ts : List Token) :
    ¬ r.Borrowing b ts := fun hb => h hb.1

/-! ## 3. Operators of functions -/

namespace Function

theorem exists_unary {f : Function} (h : f.arity = 1) :
    ∃ g, f.operator = .unary g ∧ f.operator.isCall = true ∧ f.operator.awaits = true := by
  cases f <;> first | exact ⟨_, rfl, rfl, rfl⟩ | cases h

theorem exists_binary {f : Function} (h : f.arity ≠ 1) :
    f.arity = 2 ∧ ∃ g, f.operator = .binary g := by
  cases f <;> first | exact ⟨rfl, _, rfl⟩ | exact absurd rfl h

end Function

/-! ## 4. What a turn keeps -/

/-- What a move says of the builder that the code of its turn left; `borrowing` tells whether the
    tokens from this one on let a function be overtaken. -/
def Move.Keeps (k : Nat) (extent : Extent) (borrowing : Prop) (ts : List Token) (b : Builder) :
    Move → Prop
  | .next r => r.extent = extent ∧ r.Balanced k b ∧ (borrowing ↔ r.Borrowing b ts)
  | .rest => b.Closed k extent ∧ ¬ borrowing
  | .refuse _ => ¬ borrowing

/-- **What a turn does to the invariant**: it keeps it, or a function is overtaken. -/
inductive Turn.Keeps (k : Nat) (extent : Extent) (borrowing : Prop) (ts : List Token) (b : Builder)
    (t : Turn) : Prop where
  | overtaken {op : Operator} (hb : borrowing) (hc : op.isCall = true)
      (he : run t.code.instructions b = .error (.missing op))
  | ran {b' : Builder} (hr : run t.code.instructions b = .ok b')
      (hm : t.move.Keeps k extent borrowing ts b')

variable {k n : Nat} {extent : Extent} {borrowing : Prop} {ts : List Token} {b b' : Builder}
  {r : Reader}

theorem Turn.Keeps.after {t : Turn} {issued : Issued} (hs : step issued.instruction b = .ok b')
    (h : t.Keeps k extent borrowing ts b') : (t.after issued).Keeps k extent borrowing ts b := by
  cases h with
  | overtaken hb hc he =>
    refine .overtaken hb hc ?_
    rw [← he]
    exact run_cons_of_ok hs _
  | ran hr hm =>
    refine .ran ?_ hm
    rw [← hr]
    exact run_cons_of_ok hs _

/-- A turn of one instruction. -/
theorem Turn.Keeps.of_step {c : Cursor} {i : Instruction} {m : Move} (hs : step i b = .ok b')
    (hm : m.Keeps k extent borrowing ts b') :
    Turn.Keeps k extent borrowing ts b ⟨[⟨c, i⟩], m⟩ :=
  .ran (run_cons_of_ok hs []) hm

/-- A turn without code. -/
theorem Turn.Keeps.of_move {m : Move} (hm : m.Keeps k extent borrowing ts b) :
    Turn.Keeps k extent borrowing ts b ⟨[], m⟩ :=
  .ran rfl hm

namespace Reader

/-- The name of a function before its operand. -/
theorem keeps_function (f : Function) (c : Cursor) (ts : List Token)
    (ho : Open r.frames b.outer n) (hb : b.AwaitsOperand (k + n)) :
    Turn.Keeps k r.extent
      (b.trees = [] ∧ (b.waitingCall ||
        (if f.arity = 1 then Awaiting.operand else .arguments f).borrows true ts) = true) ts b
      ⟨[⟨c, .operator f.operator⟩],
        .next (r.await (if f.arity = 1 then .operand else .arguments f))⟩ := by
  by_cases hw : b.trees = [] ∧ b.waitingCall = true
  · obtain ⟨op, hc, he⟩ := step_function_of_waitingCall hb f hw.1 hw.2
    refine .overtaken ⟨hw.1, by rw [hw.2, Bool.true_or]⟩ hc ?_
    show (step _ b).bind _ = _
    rw [he]
    rfl
  · obtain ⟨trees, kept, hs, hkept, hlen, hsame⟩ := step_function hb f hw
    refine .of_step hs ⟨rfl, ⟨n, ho, ?_⟩, ?_⟩
    · by_cases ha : f.arity = 1
      · obtain ⟨g, hg, -, hawaits⟩ := Function.exists_unary ha
        rw [await, if_pos ha]
        refine ⟨fun op hop => ?_, ?_⟩
        · rcases List.mem_cons.1 hop with rfl | hop
          · exact hawaits
          · exact hkept op hop
        · rw [hlen, hg, twos_cons_unary]
      · obtain ⟨-, g, hg⟩ := Function.exists_binary ha
        rw [await, if_neg ha]
        exact ⟨g, kept, hg, by rw [hg], hkept, hlen⟩
    · have hnil : trees = [] ↔ b.trees = [] := by
        rw [← List.length_eq_zero_iff, hsame, List.length_eq_zero_iff]
      rw [Borrowing, hnil, await]
      refine and_congr_right fun htrees => ?_
      rw [Bool.eq_false_iff.2 fun h => hw ⟨htrees, h⟩, Bool.false_or]
      by_cases ha : f.arity = 1
      · obtain ⟨g, -, hcall, -⟩ := Function.exists_unary ha
        rw [if_pos ha, waitingCall, List.head?_cons, Option.any_some, hcall]
      · rw [if_neg ha, Awaiting.borrows_arguments f (waitingCall _)]

/-- A token where an operand has to come. -/
theorem keeps_operandTurn (l : Lexeme) (ts : List Token) (ho : Open r.frames b.outer n)
    (hb : b.AwaitsOperand (k + n)) :
    (r.operandTurn l).Keeps k r.extent
      (b.trees = [] ∧ Awaiting.operand.borrows b.waitingCall (l.token :: ts) = true) ts b := by
  unfold operandTurn
  cases l.token with
  | number lexeme =>
    simp only [Awaiting.borrows, Bool.false_eq_true, and_false]
    cases Number.Numeral.ofText? lexeme.toList with
    | none => exact .of_move not_false
    | some x =>
      refine .of_step rfl ⟨rfl, ⟨n, ho, hb.withTree _⟩, ?_⟩
      exact iff_of_false not_false (not_borrowing (List.cons_ne_nil _ _) ts)
  | name name =>
    simp only [Awaiting.borrows]
    cases Function.ofName? name with
    | none =>
      refine .of_move ⟨rfl, ⟨n, ho, hb⟩, ?_⟩
      simp only [Borrowing, await, Awaiting.borrows_binding name l.start.position]
    | some f => exact keeps_function f l.stop ts ho hb
  | foreign c =>
    simp only [Awaiting.borrows, Bool.false_eq_true, and_false]
    exact .of_move not_false
  | mark m =>
    cases m with
    | comma =>
      simp only [Awaiting.borrows]
      exact .of_move ⟨rfl, ⟨n, ho, hb⟩, Iff.rfl⟩
    | minus =>
      simp only [Awaiting.borrows]
      refine .of_step rfl ⟨rfl, ⟨n, ho, ?_, ?_⟩, Iff.rfl⟩
      · intro op hop
        rcases List.mem_cons.1 hop with rfl | hop
        · rfl
        · exact hb.awaits op hop
      · rw [push, twos_cons_unary]
        exact hb.length
    | leftParen =>
      simp only [Awaiting.borrows]
      refine .of_step rfl ⟨rfl, ⟨n + twos b.scope, .group ho ?_ ?_ rfl, ?_, ?_⟩, Iff.rfl⟩
      · intro hh
        exact Operator.ne_scope_of_awaits (hb.awaits _ (List.mem_of_mem_head? hh)) rfl
      · exact fun op hop => hb.awaits op (List.mem_of_mem_tail hop)
      · intro op hop
        cases hop
      · rw [twos_nil, hb.length]
        omega
    | _ =>
      simp only [Awaiting.borrows, Bool.false_eq_true, and_false]
      exact .of_move not_false

/-- The code at the end of a chain applies what waits and binds the names whose value ends here; it
    comes to the innermost group, or to the end. -/
theorem run_closeChain {frames : List Frame} (extent : Extent) (c : Cursor)
    (ho : Open frames b.outer n) (hb : b.HasOperand (k + n)) :
    ∃ b', run (closeChain extent c frames).1.instructions b = .ok b' ∧
      match (closeChain extent c frames).2 with
      | none => b'.Closed k extent
      | some (separators, frames') => ∃ m, Open (.group separators :: frames') b'.outer m ∧
          b'.scope = [] ∧ b'.trees.length = k + m + 1 := by
  induction frames generalizing b n with
  | nil =>
    obtain ⟨trees, scope, outer⟩ := b
    cases ho
    cases extent with
    | operand => exact ⟨_, rfl, rfl, hb, fun h => absurd h (by decide)⟩
    | chain =>
      obtain ⟨ts, hs, hlen⟩ := step_settle hb
      refine ⟨_, run_cons_of_ok hs [], rfl, ⟨?_, ?_, hlen⟩, fun _ => rfl⟩
      · exact fun h => absurd h (by simp)
      · intro op hop
        cases hop
  | cons frame frames ih =>
    obtain ⟨trees, scope, outer⟩ := b
    obtain ⟨ts, hs, hlen⟩ := step_settle hb
    cases frame with
    | group separators => exact ⟨_, run_cons_of_ok hs [], n, ho, rfl, by rw [hlen]⟩
    | binding name =>
      cases ho with
      | @binding _ outer ops n' _ ho ha =>
        match ts, hlen with
        | t :: ts, hlen =>
          have hb' : HasOperand (k + n') ⟨.assign name t :: ts, ops, outer⟩ := by
            refine ⟨?_, fun op hop => ha op (List.mem_of_mem_tail hop), ?_⟩
            · intro hh
              exact Operator.ne_scope_of_awaits (ha _ (List.mem_of_mem_head? hh)) rfl
            · rw [List.length_cons] at hlen ⊢
              show ts.length + 1 = k + n' + twos ops + 1
              omega
          obtain ⟨b', hrun, hg⟩ := ih ho hb'
          refine ⟨b', ?_, hg⟩
          rw [← hrun]
          refine (run_cons_of_ok hs _).trans ?_
          refine (run_cons_of_ok rfl _).trans ?_
          exact run_cons_of_ok rfl _

/-- A mark that ends a chain. -/
theorem keeps_closingTurn (l : Lexeme) (m : Mark) (ts : List Token)
    (ho : Open r.frames b.outer n) (hb : b.HasOperand (k + n)) :
    (r.closingTurn l m).Keeps k r.extent False ts b := by
  obtain ⟨b', hrun, hg⟩ := run_closeChain r.extent l.start ho hb
  unfold closingTurn
  revert hrun hg
  generalize closeChain r.extent l.start r.frames = closed
  obtain ⟨code, group⟩ := closed
  intro hrun hg
  cases group with
  | none => exact .ran hrun ⟨hg, not_false⟩
  | some group =>
    obtain ⟨separators, frames⟩ := group
    obtain ⟨m', ho', hscope, hlen⟩ := hg
    obtain ⟨trees, scope, outer⟩ := b'
    cases hscope
    simp only at ho' hlen
    have hne : trees ≠ [] := List.ne_nil_of_length_eq_add_one hlen
    cases separators with
    | zero =>
      simp only
      split
      · cases ho' with
        | @group _ outer ops n' _ _ ho' ht ha hm =>
          have hclose : run (Code.instructions (code ++ [⟨l.stop, .closeScope⟩])) b =
              .ok ⟨trees, ops, outer⟩ := by
            rw [instructions_append]
            exact run_append_of_ok hrun _
          refine .ran hclose ⟨rfl, ⟨n', ho', ht, ha, ?_⟩, ?_⟩
          · show trees.length = k + n' + twos ops + 1
            omega
          · exact iff_of_false not_false (not_borrowing hne ts)
      · exact .ran hrun not_false
    | succ separators =>
      simp only
      split
      · refine .ran hrun ⟨rfl, ⟨m' + 1, ?_, ?_, hlen⟩, ?_⟩
        · cases ho' with
          | group ho' ht ha hm => exact .group ho' ht ha (by omega)
        · intro op hop
          cases hop
        · exact iff_of_false not_false (not_borrowing hne ts)
      · exact .ran hrun not_false

/-- A token where an operand is multiplied without a sign. -/
theorem keeps_impliedTurn (l : Lexeme) (ts : List Token) (ho : Open r.frames b.outer n)
    (hb : b.HasOperand (k + n)) :
    (r.impliedTurn l).Keeps k r.extent False ts b := by
  obtain ⟨trees, kept, hs, hkept, hlen⟩ := step_operator hb (.binary .mul) (by decide)
  let b' : Builder := { b with trees, scope := .binary .mul :: kept }
  have hb' : b'.AwaitsOperand (k + n) := by
    refine ⟨fun op hop => ?_, ?_⟩
    · rcases List.mem_cons.1 hop with rfl | hop
      · rfl
      · exact hkept op hop
    · rw [twos_cons_binary]
      show trees.length = k + n + (twos kept + 1)
      omega
  have hne : trees ≠ [] := List.ne_nil_of_length_eq_add_one hlen
  have hborrow : ¬ (b'.trees = [] ∧
      Awaiting.operand.borrows b'.waitingCall (l.token :: ts) = true) := fun h => hne h.1
  have hturn := @keeps_operandTurn k n b' r l ts ho hb'
  rw [eq_false hborrow] at hturn
  exact hturn.after hs

/-- A token after a whole operand. -/
theorem keeps_operatorTurn (l : Lexeme) (ts : List Token) (ho : Open r.frames b.outer n)
    (hb : b.HasOperand (k + n)) :
    (r.operatorTurn l).Keeps k r.extent False ts b := by
  unfold operatorTurn
  split
  · next m _ =>
    split
    · next op hm =>
      obtain ⟨-, rfl⟩ := Mark.eq_bang_of_after? hm
      obtain ⟨trees, kept, hs, hkept, hlen⟩ := step_operator hb (.unary .factorial) (by decide)
      refine .of_step hs ⟨rfl, ⟨n, ho, ?_, hkept, ?_⟩, ?_⟩
      · exact fun h => absurd h (by simp)
      · rw [twos_cons_unary]
        exact hlen
      · have hne : trees ≠ [] := List.ne_nil_of_length_eq_add_one hlen
        exact iff_of_false not_false (not_borrowing hne ts)
    · next op _ hm =>
      obtain ⟨hawaits, hprec⟩ := Mark.between?_spec hm
      split
      · next hx =>
        rw [hx.2] at ho
        cases hout : b.outer with
        | cons ops outer => rw [hout] at ho; cases ho
        | nil =>
          rw [hout] at ho
          cases ho
          exact .of_move ⟨⟨hout, hb, fun h => by rw [hx.1] at h; cases h⟩, not_false⟩
      · obtain ⟨trees, kept, hs, hkept, hlen⟩ := step_operator hb (.binary op) hprec
        refine .of_step hs ⟨rfl, ⟨n, ho, fun o hop => ?_, ?_⟩, ?_⟩
        · rcases List.mem_cons.1 hop with rfl | hop
          · exact hawaits
          · exact hkept o hop
        · rw [twos_cons_binary, hlen]
          omega
        · have hne : trees ≠ [] := List.ne_nil_of_length_eq_add_one hlen
          exact iff_of_false not_false (not_borrowing hne ts)
    · split
      · exact keeps_impliedTurn l ts ho hb
      · exact keeps_closingTurn l m ts ho hb
  · exact keeps_impliedTurn l ts ho hb

/-- A token after the name of a function of two arguments. -/
theorem keeps_argumentsTurn {f : Function} (l : Lexeme) (ts : List Token)
    (ho : Open r.frames b.outer n)
    (hb : (Awaiting.arguments f).Fits (k + n) b) :
    (r.argumentsTurn f l).Keeps k r.extent
      (b.trees = [] ∧ (Awaiting.arguments f).borrows b.waitingCall (l.token :: ts) = true)
      ts b := by
  obtain ⟨g, kept, hf, hscope, hkept, hlen⟩ := hb
  simp only [Awaiting.borrows, Bool.and_eq_true, decide_eq_true_eq]
  unfold argumentsTurn
  split
  · next hl =>
    have harity : f.arity - 1 = 1 := by
      rw [Function.arity, hf]
      rfl
    refine .of_step rfl ⟨rfl, ⟨n + twos kept, ?_, ?_, ?_⟩, ?_⟩
    · rw [harity]
      refine .group ho ?_ ?_ ?_
      · rw [hscope]
        exact fun h => absurd h (by simp)
      · rw [hscope]
        exact hkept
      · rw [hscope, twos_cons_binary]
        omega
    · intro op hop
      cases hop
    · rw [twos_nil, hlen]
      omega
    · simp only [hl, true_and]
      exact Iff.rfl
  · next hl => exact .of_move fun h => hl h.2.1

/-- A token after the name of a variable. -/
theorem keeps_bindingTurn {name : String} {start : Nat} (l : Lexeme) (ts : List Token)
    (ho : Open r.frames b.outer n) (hb : b.AwaitsOperand (k + n)) :
    (r.bindingTurn name start l).Keeps k r.extent
      (b.trees = [] ∧ (Awaiting.binding name start).borrows b.waitingCall (l.token :: ts) = true)
      ts b := by
  simp only [Awaiting.borrows, Bool.and_eq_true, decide_eq_true_eq]
  unfold bindingTurn
  split
  · next hl =>
    refine .of_step rfl ⟨rfl, ⟨n + twos b.scope, .binding ho hb.awaits, ?_, ?_⟩, ?_⟩
    · intro op hop
      cases hop
    · rw [twos_nil, hb.length]
      omega
    · simp only [hl, true_and]
      exact Iff.rfl
  · next hl =>
    rw [eq_false fun h : _ ∧ _ ∧ _ => hl h.2.1]
    have hread : Open r.frames { b with trees := .read name :: b.trees }.outer n := ho
    exact (keeps_operatorTurn l ts hread (hb.withTree _)).after rfl

/-- **Every turn keeps the invariant**, or a function is overtaken. -/
theorem keeps_turn (l : Lexeme) (ts : List Token) (hr : r.Balanced k b) :
    (r.turn l).Keeps k r.extent (r.Borrowing b (l.token :: ts)) ts b := by
  obtain ⟨n, ho, hb⟩ := hr
  rw [Borrowing]
  unfold turn
  cases hw : r.awaiting with
  | operand =>
    rw [hw] at hb
    exact keeps_operandTurn l ts ho hb
  | arguments f =>
    rw [hw] at hb
    exact keeps_argumentsTurn l ts ho hb
  | binding name start =>
    rw [hw] at hb
    exact keeps_bindingTurn l ts ho hb
  | operator =>
    rw [hw] at hb
    simp only [Awaiting.borrows, Bool.false_eq_true, and_false]
    exact keeps_operatorTurn l ts ho hb

/-! ## 5. All turns -/

/-- What a reading comes to that does not let a function be overtaken. -/
def Closes (k : Nat) (extent : Extent) (b : Builder) (reading : Reading) : Prop :=
  ∃ b', run reading.code.instructions b = .ok b' ∧
    ∀ c, reading.stop = .ok c → b'.Closed k extent

/-- The end of the tokens after a whole operand. -/
theorem closes_finishChain (ho : Open r.frames b.outer n) (hb : b.HasOperand (k + n))
    (c : Cursor) : Closes k r.extent b (r.finishChain c) := by
  obtain ⟨b', hrun, hg⟩ := run_closeChain r.extent c ho hb
  unfold finishChain
  revert hrun hg
  generalize closeChain r.extent c r.frames = closed
  obtain ⟨code, group⟩ := closed
  intro hrun hg
  cases group with
  | none => exact ⟨b', hrun, fun _ _ => hg⟩
  | some group =>
    refine ⟨b', hrun, fun c hc => ?_⟩
    cases hc

/-- The end of the tokens. -/
theorem closes_finish (hr : r.Balanced k b) (c : Cursor) : Closes k r.extent b (r.finish c) := by
  obtain ⟨n, ho, hb⟩ := hr
  unfold finish
  cases hw : r.awaiting with
  | operand =>
    refine ⟨b, rfl, fun c hc => ?_⟩
    cases hc
  | arguments f =>
    refine ⟨b, rfl, fun c hc => ?_⟩
    cases hc
  | binding name start =>
    rw [hw] at hb
    have hb : b.AwaitsOperand (k + n) := hb
    have hread : Open r.frames { b with trees := .read name :: b.trees }.outer n := ho
    obtain ⟨b', hrun, hstop⟩ := closes_finishChain hread (hb.withTree _) c
    exact ⟨b', (run_cons_of_ok rfl _).trans hrun, hstop⟩
  | operator =>
    rw [hw] at hb
    exact closes_finishChain ho hb c

/-- **Unless it borrows, a reading has code that a builder can run**; if it borrows and no tree is
    there, the code stops at the function that waits. -/
theorem run_read (halt : Cursor) (ls : List Lexeme) (hr : r.Balanced k b) :
    (¬ r.Borrowing b (ls.map Lexeme.token) → Closes k r.extent b (read halt r ls)) ∧
      (r.Borrowing b (ls.map Lexeme.token) → ∃ op, op.isCall = true ∧
        run (read halt r ls).code.instructions b = .error (.missing op)) := by
  induction ls generalizing r b with
  | nil =>
    refine ⟨fun _ => closes_finish hr halt, fun hb => ?_⟩
    have := hb.2
    rw [List.map_nil, Awaiting.borrows_nil] at this
    cases this
  | cons l ls ih =>
    have hturn := keeps_turn l (ls.map Lexeme.token) hr
    rw [List.map_cons, read]
    generalize r.turn l = t at hturn
    obtain ⟨code, move⟩ := t
    cases hturn with
    | @overtaken op hb hc he =>
      refine ⟨fun h => absurd hb h, fun _ => ⟨op, hc, ?_⟩⟩
      cases move with
      | next r' =>
        show run (Code.instructions (code ++ _)) b = _
        rw [instructions_append, run_append, he]
        rfl
      | rest => exact he
      | refuse refusal => exact he
    | @ran b' hrun hm =>
      cases move with
      | next r' =>
        obtain ⟨hextent, hr', hiff⟩ := hm
        obtain ⟨hok, herr⟩ := ih hr'
        simp only [hiff, Closes, instructions_append]
        refine ⟨fun hb => ?_, fun hb => ?_⟩
        · obtain ⟨b'', hrun', hstop⟩ := hok hb
          exact ⟨b'', by rw [run_append_of_ok hrun, hrun'], hextent ▸ hstop⟩
        · obtain ⟨op, hc, he⟩ := herr hb
          exact ⟨op, hc, by rw [run_append_of_ok hrun, he]⟩
      | rest =>
        obtain ⟨hclosed, hnot⟩ := hm
        exact ⟨fun _ => ⟨b', hrun, fun _ _ => hclosed⟩, fun h => absurd h hnot⟩
      | refuse refusal =>
        refine ⟨fun _ => ⟨b', hrun, fun c hc => ?_⟩, fun h => absurd h hm⟩
        cases hc

end Reader

end DeskCalculator
