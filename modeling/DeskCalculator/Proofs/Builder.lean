import DeskCalculator.Evaluation
import DeskCalculator.Proofs.Lists
import DeskCalculator.Proofs.Tree

/-!
# Building trees in place of values

A builder has the two stacks of the machine, but stacks trees where the machine stacks values; its
operators are kept scope by scope. No value is computed, so what a builder does depends on the
instructions alone. This file fixes

* `Builder`, with `Builder.step` and `Builder.run`; `Flaw` -- what stops a builder;
* `Builder.Describes` -- the machine holds the values of the builder's trees and the same operators;
* `Follows` -- how an outcome of the machine answers to the builder: it succeeds with it, it lacks
  the same operand, or strict evaluation stops it (`Cause.StrictOnly`).

Main statement: **a machine that a builder describes follows it** through any code (`follows_run`).
-/

namespace DeskCalculator

/-! ## 1. The builder -/

/-- What stops a builder. -/
inductive Flaw where
  /-- An operator has fewer trees beneath it than it takes. -/
  | missing (op : Operator)
  /-- A scope is closed over operators or is the last one, a scope mark is applied, or a name is
      bound to no tree. -/
  | misplaced
  deriving DecidableEq

/-- A machine that stacks trees. -/
structure Builder where
  /-- The trees, last one first. -/
  trees : List Tree
  /-- The operators of the innermost scope, last one first. -/
  scope : List Operator
  /-- The operators of the scopes around it, innermost first. -/
  outer : List (List Operator)

namespace Builder

/-- A builder at the start of an evaluation. -/
def initial : Builder := ⟨[], [], []⟩

/-- The operators with their scope marks, as the machine stacks them. -/
def operators (b : Builder) : List Operator :=
  b.scope ++ .scope :: b.outer.flatMap fun ops => ops ++ [.scope]

/-- The trees after an operator was applied to those on top. -/
def applyOperator : Operator → List Tree → Except Flaw (List Tree)
  | .scope, _ => .error .misplaced
  | .binary f, right :: left :: rest => .ok (.binary f left right :: rest)
  | .binary f, _ => .error (.missing (.binary f))
  | .unary f, t :: rest => .ok (.unary f t :: rest)
  | .unary f, [] => .error (.missing (.unary f))

/-- The trees after some operators were applied one after the other. -/
def applyAll : List Operator → List Tree → Except Flaw (List Tree)
  | [], ts => .ok ts
  | op :: ops, ts => (applyOperator op ts).bind (applyAll ops)

/-- The operators on top of the innermost scope are applied as long as they satisfy `test`. -/
def reduceWhile (test : Operator → Bool) (b : Builder) : Except Flaw Builder :=
  (applyAll (b.scope.takeWhile test) b.trees).map fun ts =>
    { b with trees := ts, scope := b.scope.dropWhile test }

/-- Whether an operator on top is applied before `op` is stacked. -/
def yieldsTo (op top : Operator) : Bool := top ≠ .scope && top.reducesBefore op

/-- The builder with an operator on top. -/
def push (op : Operator) (b : Builder) : Builder := { b with scope := op :: b.scope }

/-- One instruction. -/
def step : Instruction → Builder → Except Flaw Builder
  | .literal x, b => .ok { b with trees := .literal x :: b.trees }
  | .read name _, b => .ok { b with trees := .read name :: b.trees }
  | .operator op, b => (b.reduceWhile (yieldsTo op)).map (push op)
  | .hold op, b => .ok (b.push op)
  | .openScope, b => .ok { b with scope := [], outer := b.scope :: b.outer }
  | .closeScope, ⟨ts, [], ops :: outer⟩ => .ok ⟨ts, ops, outer⟩
  | .closeScope, _ => .error .misplaced
  | .settle, b => b.reduceWhile (· ≠ .scope)
  | .assign name, ⟨t :: ts, ops, outer⟩ => .ok ⟨.assign name t :: ts, ops, outer⟩
  | .assign _, ⟨[], _, _⟩ => .error .misplaced

/-- The instructions one after the other. -/
def run : List Instruction → Builder → Except Flaw Builder
  | [], b => .ok b
  | i :: is, b => (step i b).bind (run is)

theorem run_append (is js : List Instruction) (b : Builder) :
    run (is ++ js) b = (run is b).bind (run js) := by
  induction is generalizing b with
  | nil => rfl
  | cons i is ih =>
    simp only [List.cons_append, run]
    cases step i b with
    | ok b' => exact ih b'
    | error flaw => rfl

/-- What a second step came to, a first one came to before. -/
theorem exists_of_bind_eq_ok {ε α β : Type} {x : Except ε α} {f : α → Except ε β} {y : β}
    (h : x.bind f = .ok y) : ∃ a, x = .ok a ∧ f a = .ok y := by
  cases x with
  | ok a => exact ⟨a, rfl, h⟩
  | error flaw => cases h

/-- What a change of the result came to, there was a result for. -/
theorem exists_of_map_eq_ok {ε α β : Type} {x : Except ε α} {f : α → β} {y : β}
    (h : x.map f = .ok y) : ∃ a, x = .ok a ∧ f a = y := by
  cases x with
  | ok a =>
    cases h
    exact ⟨a, rfl, rfl⟩
  | error flaw => cases h

theorem run_append_of_ok {is : List Instruction} {b b' : Builder} (h : run is b = .ok b')
    (js : List Instruction) : run (is ++ js) b = run js b' := by
  rw [run_append, h]
  rfl

theorem run_cons_of_ok {i : Instruction} {b b' : Builder} (h : step i b = .ok b')
    (is : List Instruction) : run (i :: is) b = run is b' := by
  rw [run, h]
  rfl

theorem applyAll_append (ops ops' : List Operator) (ts : List Tree) :
    applyAll (ops ++ ops') ts = (applyAll ops ts).bind (applyAll ops') := by
  induction ops generalizing ts with
  | nil => rfl
  | cons op ops ih =>
    simp only [List.cons_append, applyAll]
    cases applyOperator op ts with
    | ok ts' => exact ih ts'
    | error flaw => rfl

end Builder

/-- The instructions of a piece of code, without their places. -/
def Code.instructions (code : Code) : List Instruction := code.map Issued.instruction

theorem instructions_append (c d : Code) :
    Code.instructions (c ++ d) = c.instructions ++ d.instructions :=
  List.map_append

/-! ## 2. Following -/

/-- A cause that strict evaluation alone knows. -/
def Cause.StrictOnly (s : Settings) : Cause → Prop
  | unknownVariable _ => s.strict = true
  | arithmetic (.outsideFactorial x) => s.strict = true ∧ Number.hasFactorial x = false
  | arithmetic (.notFinite _ x) => s.strict = true ∧ x.isFinite = false
  | _ => False

theorem Cause.StrictOnly.strict {s : Settings} {c : Cause} (h : c.StrictOnly s) :
    s.strict = true := by
  cases c with
  | unknownVariable name => exact h
  | arithmetic f =>
    cases f with
    | outsideFactorial x => exact h.1
    | notFinite op x => exact h.1
    | _ => exact h.elim
  | _ => exact h.elim

/-- How an outcome answers to what a builder comes to, when `R` relates the two states. Nothing is
    said after a misplaced instruction. -/
inductive Follows {α σ : Type} (s : Settings) (R : α → σ → Prop) :
    Except Flaw α → Outcome σ → Prop where
  | ok {a : α} {m : σ} (h : R a m) : Follows s R (.ok a) (.ok m)
  | missing {op : Operator} {e : EvalError} {m : σ}
      (h : e.cause = .arithmetic (.missingOperand op)) :
      Follows s R (.error (.missing op)) (.failed e m)
  | misplaced {o : Outcome σ} : Follows s R (.error .misplaced) o
  | strict {x : Except Flaw α} {e : EvalError} {m : σ} (h : e.cause.StrictOnly s) :
      Follows s R x (.failed e m)

namespace Follows

variable {α β σ τ : Type} {s : Settings} {R : α → σ → Prop} {R' : β → τ → Prop}

/-- **Following goes on from step to step.** -/
theorem andThen {x : Except Flaw α} {o : Outcome σ} {f : α → Except Flaw β} {g : σ → Outcome σ}
    {R' : β → σ → Prop} (h : Follows s R x o) (hR : ∀ a m, R a m → Follows s R' (f a) (g m)) :
    Follows s R' (x.bind f) (o.andThen g) := by
  cases h with
  | ok h => exact hR _ _ h
  | missing h => exact .missing h
  | misplaced => exact .misplaced
  | strict h => exact .strict h

/-- What follows a builder still does so after either state was changed. -/
theorem mapBuilder {x : Except Flaw α} {o : Outcome σ} {f : α → β} {R' : β → σ → Prop}
    (h : Follows s R x o) (hR : ∀ a m, R a m → R' (f a) m) : Follows s R' (x.map f) o := by
  cases h with
  | ok h => exact .ok (hR _ _ h)
  | missing h => exact .missing h
  | misplaced => exact .misplaced
  | strict h => exact .strict h

theorem map {x : Except Flaw α} {o : Outcome σ} {f : σ → τ} {R' : α → τ → Prop}
    (h : Follows s R x o) (hR : ∀ a m, R a m → R' a (f m)) : Follows s R' x (o.map f) := by
  cases h with
  | ok h => exact .ok (hR _ _ h)
  | missing h => exact .missing h
  | misplaced => exact .misplaced
  | strict h => exact .strict h

end Follows

/-! ## 3. The machine a builder describes -/

namespace Machine

/-- The machine holds the values of some trees, evaluated in `memory`, bottom first. -/
def Holds (places : Int) (memory : Variables) (ts : List Tree) (m : Machine) : Prop :=
  Tree.values places ts memory = (m.operands, m.memory)

variable {s : Settings} {position : Nat} {memory : Variables} {ts : List Tree} {m : Machine}

theorem Holds.length_eq {places : Int} (h : m.Holds places memory ts) :
    m.operands.length = ts.length := by
  rw [← Tree.length_values places ts memory, h]

/-- A result is delivered unless strict evaluation refuses it. -/
theorem deliver_cases (s : Settings) (position : Nat) (op : Operator) (operands : List Float)
    (raw : Float) (m : Machine) :
    m.deliver s position op operands raw =
        .ok ((m.record (.reduced op operands (Number.roundTo raw s.precision))).pushOperand
          (Number.roundTo raw s.precision)) ∨
      ∃ e m', m.deliver s position op operands raw = .failed e m' ∧ e.cause.StrictOnly s := by
  unfold deliver
  simp only
  split
  · next h =>
    simp only [Bool.and_eq_true, Bool.not_eq_true'] at h
    exact .inr ⟨_, _, rfl, h⟩
  · exact .inl rfl

/-- **An operator is applied to values as to trees.** -/
theorem follows_applyOperator (op : Operator) (h : m.Holds s.precision memory ts) :
    Follows s (fun ts' m' => m'.Holds s.precision memory ts' ∧ m'.operators = m.operators)
      (Builder.applyOperator op ts) (m.applyOperator s position op) := by
  obtain ⟨operands, operators, current, events⟩ := m
  cases op with
  | scope => exact .misplaced
  | binary f =>
    match ts, h with
    | [], h =>
      cases h
      exact .missing rfl
    | [t], h =>
      cases h
      exact .missing rfl
    | u :: t :: ts, h =>
      cases h
      simp only [Builder.applyOperator, applyOperator]
      rcases deliver_cases s position (.binary f) _ _ _ with hd | ⟨e, m', hd, he⟩
      · rw [hd]
        exact .ok ⟨rfl, rfl⟩
      · rw [hd]
        exact .strict he
  | unary f =>
    match ts, h with
    | [], h =>
      cases h
      exact .missing rfl
    | t :: ts, h =>
      cases h
      simp only [Builder.applyOperator, applyOperator]
      split
      · next hr =>
        simp only [refuses, Bool.and_eq_true, Bool.not_eq_true'] at hr
        exact .strict ⟨hr.1.1, hr.2⟩
      · rcases deliver_cases s position (.unary f) _ _ _ with hd | ⟨e, m', hd, he⟩
        · rw [hd]
          exact .ok ⟨rfl, rfl⟩
        · rw [hd]
          exact .strict he

/-- **So are several, one after the other.** -/
theorem follows_reduceTimes (ops : List Operator) {rest : List Operator}
    (h : m.Holds s.precision memory ts) (ho : m.operators = ops ++ rest) :
    Follows s (fun ts' m' => m'.Holds s.precision memory ts' ∧ m'.operators = rest)
      (Builder.applyAll ops ts) (m.reduceTimes s position ops.length) := by
  induction ops generalizing ts m with
  | nil => exact .ok ⟨h, ho⟩
  | cons op ops ih =>
    have hr : m.reduce s position =
        { m with operators := ops ++ rest }.applyOperator s position op := by
      rw [reduce, ho]
      rfl
    rw [List.length_cons, reduceTimes, hr]
    have h' : Holds s.precision memory ts { m with operators := ops ++ rest } := h
    refine (follows_applyOperator op h').andThen ?_
    intro ts' m' h
    rcases h with ⟨h', ho'⟩
    exact ih h' ho'

end Machine

namespace Builder

/-- The machine has the builder's operators and holds the values of its trees. -/
structure Describes (places : Int) (memory : Variables) (b : Builder) (m : Machine) : Prop where
  operators : m.operators = b.operators
  holds : m.Holds places memory b.trees

variable {s : Settings} {position : Nat} {memory : Variables} {b : Builder} {m : Machine}

theorem describes_initial (places : Int) (memory : Variables) :
    initial.Describes places memory (.initial memory) := ⟨rfl, rfl⟩

/-- A test that no scope mark satisfies cuts the operators inside the innermost scope. -/
theorem Describes.operators_cut {places : Int} {test : Operator → Bool} (ht : test .scope = false)
    (h : b.Describes places memory m) :
    m.operators = b.scope.takeWhile test ++
        { b with scope := b.scope.dropWhile test }.operators ∧
      m.operators.takeWhile test = b.scope.takeWhile test := by
  rw [h.operators]
  constructor
  · rw [Builder.operators, Builder.operators, ← List.append_assoc, List.takeWhile_append_dropWhile]
  · exact Lists.takeWhile_append_of_stop (by simpa using ht) _

theorem follows_reduceWhile {test : Operator → Bool} (ht : test .scope = false)
    (h : b.Describes s.precision memory m) :
    Follows s (Describes s.precision memory) (b.reduceWhile test)
      (m.reduceWhile s position test) := by
  obtain ⟨ho, htake⟩ := h.operators_cut ht
  rw [Machine.reduceWhile, htake]
  refine (Machine.follows_reduceTimes _ h.holds ho).mapBuilder ?_
  intro ts' m' h
  rcases h with ⟨hts, hops⟩
  exact ⟨hops, hts⟩

/-- **One instruction.** -/
theorem follows_step (position : Nat) (i : Instruction)
    (h : b.Describes s.precision memory m) :
    Follows s (Describes s.precision memory) (step i b) (m.step s position i) := by
  have hv := h.holds
  cases i with
  | literal x =>
    refine .ok ⟨h.operators, ?_⟩
    simp only [Machine.Holds, Tree.values, Machine.pushOperand]
    rw [hv]
    rfl
  | read name start =>
    have hread : ∀ x, x = m.memory.getD name → Describes s.precision memory
        { b with trees := .read name :: b.trees }
        ((m.record (.read name start (m.memory.get? name))).pushOperand x) := by
      intro x he
      subst he
      refine ⟨h.operators, ?_⟩
      simp only [Machine.Holds, Tree.values, Machine.pushOperand]
      rw [hv]
      rfl
    simp only [step, Machine.step, Machine.read, Machine.lookUp]
    cases hg : m.memory.get? name with
    | some x => exact .ok (hg ▸ hread x (by rw [Variables.getD, hg, Option.getD_some]))
    | none =>
      by_cases hs : s.strict = true
      · simp only [hs, if_true]
        exact .strict hs
      · simp only [hs, Bool.false_eq_true, if_false]
        exact .ok (hg ▸ hread 0 (by rw [Variables.getD, hg, Option.getD_none]))
  | operator op =>
    have ht : yieldsTo op .scope = false := rfl
    have hpush : ∀ b' m', Describes s.precision memory b' m' →
        Follows s (Describes s.precision memory) (.ok (b'.push op)) (.ok (m'.pushOperator op)) := by
      intro b' m' h'
      exact .ok ⟨by rw [Machine.pushOperator, h'.operators]; rfl, h'.holds⟩
    exact (follows_reduceWhile ht h).andThen hpush
  | hold op => exact .ok ⟨by rw [Machine.pushOperator, h.operators]; rfl, hv⟩
  | openScope =>
    refine .ok ⟨?_, hv⟩
    rw [Machine.pushOperator, h.operators]
    simp [operators]
  | closeScope =>
    obtain ⟨ts, ops, outer⟩ := b
    cases ops with
    | cons op ops => exact .misplaced
    | nil =>
      cases outer with
      | nil => exact .misplaced
      | cons ops' outer =>
        have ho := h.operators
        simp only [operators, List.nil_append, List.flatMap_cons] at ho
        simp only [step, Machine.step, Machine.closeScope, ho]
        exact .ok ⟨by simp [operators], hv⟩
  | settle => exact follows_reduceWhile (by simp) h
  | assign name =>
    obtain ⟨ts, ops, outer⟩ := b
    cases ts with
    | nil => exact .misplaced
    | cons t ts =>
      obtain ⟨operands, ops', current, events⟩ := m
      cases hv
      exact .ok ⟨h.operators, rfl⟩

/-- The evaluation goes under these settings, and a builder describes its machine. -/
structure DescribesEvaluation (s : Settings) (memory : Variables) (b : Builder) (e : Evaluation) :
    Prop where
  settings : e.settings = s
  machine : b.Describes s.precision memory e.machine

/-- **A machine that a builder describes follows it** through any code. -/
theorem follows_run (code : Code) {e : Evaluation} (h : b.DescribesEvaluation s memory e) :
    Follows s (DescribesEvaluation s memory) (run code.instructions b) (e.run code) := by
  induction code generalizing b e with
  | nil => exact .ok h
  | cons i code ih =>
    obtain ⟨settings, cursor, m⟩ := e
    obtain ⟨rfl, hm⟩ := h
    have hlift : ∀ (b' : Builder) (m' : Machine), b'.Describes settings.precision memory m' →
        b'.DescribesEvaluation settings memory ⟨settings, i.cursor, m'⟩ :=
      fun _ _ hd => ⟨rfl, hd⟩
    exact ((follows_step i.cursor.position i.instruction hm).map hlift).andThen
      fun b' e' h' => ih h'

end Builder

end DeskCalculator
