import Mathlib.Data.List.TakeWhile
import DeskCalculator.Proofs.Builder

/-!
# What waits in a scope

The operators of the innermost scope of a builder and the trees that belong to them keep in balance.
This file fixes

* `Operator.awaits`, `Operator.isCall` -- which operators stand before their last operand;
* `Builder.AwaitsOperand`, `Builder.HasOperand` -- the innermost scope before and after an operand:
  which operators wait in it, and how many trees belong to them;
* what an instruction makes of such a scope: `step_settle` at the end of a chain, `step_operator`
  after an operand, `step_function` before one.

Main statement: **an operand is never missing after one was read** (`step_settle`,
`step_operator`); before one, a function that overtakes another one without a tree is the only flaw
(`step_function`, `step_function_of_waitingCall`).
-/

namespace DeskCalculator

/-! ## 1. Operators that wait -/

namespace Operator

/-- Whether the last operand of an operator comes after it. -/
def awaits : Operator → Bool
  | scope | binary .log | binary .root | unary .factorial => false
  | binary _ | unary _ => true

/-- Whether an operator is a function of one argument. -/
def isCall : Operator → Bool
  | scope | binary _ | unary .negate | unary .factorial => false
  | unary _ => true

theorem ne_scope_of_awaits {op : Operator} (h : op.awaits = true) : op ≠ scope := by
  intro he
  subst he
  cases h

/-- What does not await an operand is applied before any operator after an operand. -/
theorem reducesBefore_of_not_awaits {op incoming : Operator} (hs : op ≠ scope)
    (ha : op.awaits = false) (hi : incoming.precedence ≤ 48) :
    op.reducesBefore incoming = true := by
  have hp : 48 ≤ op.precedence := by
    cases op with
    | scope => exact absurd rfl hs
    | binary f => cases f <;> simp [awaits] at ha <;> decide
    | unary f => cases f <;> simp [awaits] at ha; decide
  have hr : op.groupsRight = false := by
    cases op with
    | scope => rfl
    | binary f => cases f <;> simp [awaits] at ha <;> rfl
    | unary f => rfl
  simp only [reducesBefore, hr, Bool.and_false, Bool.false_eq_true, if_false, decide_eq_true_eq]
  omega

theorem precedence_function (f : Function) : f.operator.precedence = 64 := by
  cases f <;> rfl

/-- A function is stacked over what binds less tightly than a call. -/
theorem yieldsTo_function {op : Operator} (hs : op ≠ scope) (f : Function) :
    Builder.yieldsTo f.operator op = decide (64 ≤ op.precedence) := by
  have hpow : f.operator.groupsRight = false := by cases f <;> rfl
  have hsame : (decide (op = f.operator) && op.groupsRight) = false := by
    by_cases he : op = f.operator
    · rw [he, hpow, Bool.and_false]
    · rw [decide_eq_false he, Bool.false_and]
  simp [Builder.yieldsTo, reducesBefore, hs, hsame, precedence_function f]

/-- **A function is stacked over all that awaits an operand but another function.** -/
theorem yieldsTo_function_iff {op : Operator} (ha : op.awaits = true) (f : Function) :
    Builder.yieldsTo f.operator op = op.isCall := by
  rw [yieldsTo_function (ne_scope_of_awaits ha)]
  cases op with
  | scope => cases ha
  | binary g => cases g <;> simp [awaits] at ha <;> rfl
  | unary g => cases g <;> simp [awaits] at ha <;> rfl

theorem arity_of_isCall {op : Operator} (h : op.isCall = true) : op.arity = 1 := by
  cases op with
  | scope => cases h
  | binary g => cases h
  | unary g => rfl

end Operator

theorem Mark.between?_spec {m : Mark} {op : BinaryOp} (h : m.between? = some op) :
    (Operator.binary op).awaits = true ∧ (Operator.binary op).precedence ≤ 48 := by
  cases m <;> cases h <;> decide

theorem Mark.eq_bang_of_after? {m : Mark} {op : UnaryOp} (h : m.after? = some op) :
    m = .bang ∧ op = .factorial := by
  cases m <;> cases h
  exact ⟨rfl, rfl⟩

/-- How many of some operators take two operands. -/
def twos (ops : List Operator) : Nat := ops.countP fun op => op.arity = 2

@[simp] theorem twos_nil : twos [] = 0 := rfl

theorem twos_cons_binary (g : BinaryOp) (ops : List Operator) :
    twos (.binary g :: ops) = twos ops + 1 := by
  simp [twos, Operator.arity]

theorem twos_cons_unary (g : UnaryOp) (ops : List Operator) :
    twos (.unary g :: ops) = twos ops := by
  simp [twos, Operator.arity]

theorem twos_append (ops ops' : List Operator) : twos (ops ++ ops') = twos ops + twos ops' :=
  List.countP_append

namespace Builder

/-! ## 2. Applying what waits -/

/-- **After an operand, the operators that wait find all they take.** -/
theorem applyAll_of_length {ops : List Operator} {ts : List Tree} {k : Nat}
    (hs : ∀ op ∈ ops, op ≠ .scope) (h : ts.length = k + twos ops + 1) :
    ∃ ts', applyAll ops ts = .ok ts' ∧ ts'.length = k + 1 := by
  induction ops generalizing ts with
  | nil => exact ⟨ts, rfl, h⟩
  | cons op ops ih =>
    have hs' : ∀ o ∈ ops, o ≠ .scope := fun o ho => hs o (List.mem_cons_of_mem _ ho)
    cases op with
    | scope => exact absurd rfl (hs _ List.mem_cons_self)
    | binary f =>
      rw [twos_cons_binary] at h
      match ts, h with
      | [], h => simp only [List.length_nil] at h; omega
      | [_], h => simp only [List.length_singleton] at h; omega
      | u :: t :: ts, h =>
        refine @ih (.binary f t u :: ts) hs' ?_
        simp only [List.length_cons] at h ⊢
        omega
    | unary f =>
      rw [twos_cons_unary] at h
      match ts, h with
      | [], h => simp only [List.length_nil] at h; omega
      | t :: ts, h => exact @ih (.unary f t :: ts) hs' h

/-- Functions of one argument find what they take as soon as there is any tree. -/
theorem applyAll_calls {ops : List Operator} {ts : List Tree} (hs : ∀ op ∈ ops, op.isCall = true)
    (h : ts ≠ []) : ∃ ts', applyAll ops ts = .ok ts' ∧ ts'.length = ts.length := by
  induction ops generalizing ts with
  | nil => exact ⟨ts, rfl, rfl⟩
  | cons op ops ih =>
    have hs' : ∀ o ∈ ops, o.isCall = true := fun o ho => hs o (List.mem_cons_of_mem _ ho)
    have hop := hs op List.mem_cons_self
    cases op with
    | scope => cases hop
    | binary f => cases hop
    | unary f =>
      match ts, h with
      | [], h => exact absurd rfl h
      | t :: ts, _ => exact @ih (.unary f t :: ts) hs' (List.cons_ne_nil _ _)

/-! ## 3. The innermost scope -/

/-- The innermost scope waits for an operand: `k` trees belong to the scopes around it. -/
structure AwaitsOperand (k : Nat) (b : Builder) : Prop where
  awaits : ∀ op ∈ b.scope, op.awaits = true
  length : b.trees.length = k + twos b.scope

/-- The innermost scope has its operand; the operator on top may be one that is written after or
    around its operands. -/
structure HasOperand (k : Nat) (b : Builder) : Prop where
  top : b.scope.head? ≠ some .scope
  awaits : ∀ op ∈ b.scope.tail, op.awaits = true
  length : b.trees.length = k + twos b.scope + 1

/-- Whether a function of one argument on top waits for its operand. -/
def waitingCall (b : Builder) : Bool := b.scope.head?.any Operator.isCall

variable {k : Nat} {b : Builder}

theorem HasOperand.ne_scope (h : b.HasOperand k) : ∀ op ∈ b.scope, op ≠ .scope := by
  intro op hop
  cases hsc : b.scope with
  | nil => rw [hsc] at hop; cases hop
  | cons o ops =>
    have ht := h.top
    have ha := h.awaits
    rw [hsc] at hop ht ha
    rcases List.mem_cons.1 hop with rfl | hop
    · exact fun e => ht (by rw [e, List.head?_cons])
    · exact Operator.ne_scope_of_awaits (ha op hop)

/-- A tree more, and the scope has its operand. -/
theorem AwaitsOperand.withTree (h : b.AwaitsOperand k) (t : Tree) :
    HasOperand k { b with trees := t :: b.trees } where
  top := by
    intro hh
    exact Operator.ne_scope_of_awaits (h.awaits _ (List.mem_of_mem_head? hh)) rfl
  awaits op hop := h.awaits op (List.mem_of_mem_tail hop)
  length := by
    simp only [List.length_cons, h.length]

/-- **All that waits is applied at the end of a chain.** -/
theorem step_settle (h : b.HasOperand k) :
    ∃ ts, step .settle b = .ok { b with trees := ts, scope := [] } ∧ ts.length = k + 1 := by
  have hall : ∀ op ∈ b.scope, (decide (op ≠ .scope)) = true := by
    simpa using h.ne_scope
  have htake : b.scope.takeWhile (· ≠ .scope) = b.scope := List.takeWhile_eq_self_iff.2 hall
  have hdrop : b.scope.dropWhile (· ≠ .scope) = [] := List.dropWhile_eq_nil_iff.2 hall
  obtain ⟨ts, hts, hl⟩ := applyAll_of_length h.ne_scope h.length
  refine ⟨ts, ?_, hl⟩
  simp only [step, reduceWhile, htake, hdrop, hts]
  rfl

/-- **An operator after an operand** leaves operators under it that await an operand. -/
theorem step_operator (h : b.HasOperand k) (op : Operator) (hp : op.precedence ≤ 48) :
    ∃ ts kept, step (.operator op) b = .ok { b with trees := ts, scope := op :: kept } ∧
      (∀ o ∈ kept, o.awaits = true) ∧ ts.length = k + twos kept + 1 := by
  have hsplit := List.takeWhile_append_dropWhile (p := yieldsTo op) (l := b.scope)
  have hne : ∀ o ∈ b.scope.takeWhile (yieldsTo op), o ≠ .scope := fun o ho =>
    h.ne_scope o ((List.takeWhile_prefix _).subset ho)
  have hl : b.trees.length = k + twos (b.scope.dropWhile (yieldsTo op)) +
      twos (b.scope.takeWhile (yieldsTo op)) + 1 := by
    have := h.length
    rw [← hsplit, twos_append] at this
    omega
  obtain ⟨ts, hts, hlen⟩ := applyAll_of_length hne hl
  refine ⟨ts, b.scope.dropWhile (yieldsTo op), ?_, ?_, hlen⟩
  · simp only [step, reduceWhile, hts]
    rfl
  · intro o ho
    cases hsc : b.scope with
    | nil => rw [hsc] at ho; cases ho
    | cons top rest =>
      have hawaits := h.awaits
      have htop := h.ne_scope top (by rw [hsc]; exact List.mem_cons_self)
      rw [hsc] at ho hawaits
      by_cases hy : yieldsTo op top = true
      · rw [List.dropWhile_cons_of_pos hy] at ho
        exact hawaits o ((List.dropWhile_suffix _).subset ho)
      · rw [List.dropWhile_cons_of_neg hy] at ho
        rcases List.mem_cons.1 ho with rfl | ho
        · cases ha : o.awaits with
          | true => rfl
          | false =>
            have := Operator.reducesBefore_of_not_awaits htop ha hp
            exact absurd (by simp [yieldsTo, htop, this]) hy
        · exact hawaits o ho

/-- **A function before its operand** is stacked, unless another one waits and no tree is there. -/
theorem step_function (h : b.AwaitsOperand k) (f : Function)
    (hb : ¬ (b.trees = [] ∧ b.waitingCall = true)) :
    ∃ ts kept, step (.operator f.operator) b =
        .ok { b with trees := ts, scope := f.operator :: kept } ∧
      (∀ o ∈ kept, o.awaits = true) ∧ ts.length = k + twos kept ∧ ts.length = b.trees.length := by
  have hsplit := List.takeWhile_append_dropWhile (p := yieldsTo f.operator) (l := b.scope)
  have hcall : ∀ o ∈ b.scope.takeWhile (yieldsTo f.operator), o.isCall = true := by
    intro o ho
    have hy := List.all_eq_true.1 List.all_takeWhile o ho
    rwa [Operator.yieldsTo_function_iff (h.awaits o ((List.takeWhile_prefix _).subset ho))] at hy
  have hcount : twos (b.scope.takeWhile (yieldsTo f.operator)) = 0 := by
    rw [twos, List.countP_eq_zero]
    intro o ho
    simp [Operator.arity_of_isCall (hcall o ho)]
  have hts : ∃ ts, applyAll (b.scope.takeWhile (yieldsTo f.operator)) b.trees = .ok ts ∧
      ts.length = b.trees.length := by
    by_cases hn : b.trees = []
    · have hw : b.waitingCall = false := by
        rw [← Bool.not_eq_true]
        exact fun hw => hb ⟨hn, hw⟩
      have hnil : b.scope.takeWhile (yieldsTo f.operator) = [] := by
        cases hsc : b.scope with
        | nil => rfl
        | cons top rest =>
          have ha := h.awaits top (by rw [hsc]; exact List.mem_cons_self)
          rw [List.takeWhile_cons_of_neg]
          rw [Operator.yieldsTo_function_iff ha]
          simpa [waitingCall, hsc] using hw
      rw [hnil]
      exact ⟨b.trees, rfl, rfl⟩
    · exact applyAll_calls hcall hn
  obtain ⟨ts, hok, hlen⟩ := hts
  refine ⟨ts, b.scope.dropWhile (yieldsTo f.operator), ?_, ?_, ?_, hlen⟩
  · simp only [step, reduceWhile, hok]
    rfl
  · intro o ho
    exact h.awaits o ((List.dropWhile_suffix _).subset ho)
  · have := h.length
    rw [← hsplit, twos_append] at this
    omega

/-- A function overtakes another one that has no tree to take. -/
theorem step_function_of_waitingCall (h : b.AwaitsOperand k) (f : Function)
    (hn : b.trees = []) (hw : b.waitingCall = true) :
    ∃ op, op.isCall = true ∧ step (.operator f.operator) b = .error (.missing op) := by
  cases hsc : b.scope with
  | nil => simp [waitingCall, hsc] at hw
  | cons top rest =>
    have hc : top.isCall = true := by simpa [waitingCall, hsc] using hw
    have ha := h.awaits top (by rw [hsc]; exact List.mem_cons_self)
    refine ⟨top, hc, ?_⟩
    have hy : yieldsTo f.operator top = true := by rw [Operator.yieldsTo_function_iff ha, hc]
    simp only [step, reduceWhile, hsc, List.takeWhile_cons_of_pos hy, hn, applyAll]
    cases top with
    | scope => cases hc
    | binary g => cases hc
    | unary g => rfl

end Builder

end DeskCalculator
