import Mathlib.Data.List.Chain
import DeskCalculator.Proofs.StackBalance

/-!
# The order of the operator stack

An operator that is stacked after an operand first has all applied that binds at least as tightly.
So the operators of a scope bind tighter the higher they lie, at every moment of a run. This file
fixes

* `Operator.RestsOn`, `Ordered` -- an operator over one that lets it, and a stack of such operators
  over a scope mark;
* `Machine.GoesThrough` -- the machines between two applications or instructions of a run, be it one
  that fails;
* `Instruction.KeepsOrder`, `Code.Orderly` -- what instructions need to leave a stack in order: a
  scope that is closed is not the last one, and only negations are stacked as they are;
* `Evaluation.Reachable` -- the evaluations that reading leads to.

Main statements: **the code of a passage is orderly** (`Reads.orderly`), **orderly code keeps a
stack in order all along its run** (`ordered_goesThrough`), so that **the operators of an evaluation
rise from every scope mark and negation on** (`operators_rise`).
-/

namespace DeskCalculator

/-! ## 1. Stacks in order -/

/-- An operator lies over another one that is not applied before it. A scope mark and a negation lie
    over anything, and anything lies over a scope mark. -/
def Operator.RestsOn (op below : Operator) : Prop :=
  below ≠ .scope → op ≠ .scope → op ≠ .unary .negate → below.reducesBefore op = false

/-- **A stack in order**, last operator first: each operator rests on the one below it, and the last
    of all is a scope mark. -/
structure Ordered (ops : List Operator) : Prop where
  bottom : ops.getLast? = some .scope
  rests : ops.IsChain Operator.RestsOn

namespace Ordered

variable {ops : List Operator}

theorem initial : Ordered [.scope] := ⟨rfl, .singleton _⟩

theorem ne_nil (h : Ordered ops) : ops ≠ [] := by
  intro he
  have hbottom := h.bottom
  rw [he] at hbottom
  cases hbottom

/-- What is left of a stack in order is in order. -/
theorem suffix {ops' : List Operator} (h : Ordered ops) (hs : ops' <:+ ops) (hne : ops' ≠ []) :
    Ordered ops' := by
  obtain ⟨above, rfl⟩ := hs
  refine ⟨?_, h.rests.right_of_append⟩
  rw [← List.getLast?_append_of_ne_nil above hne]
  exact h.bottom

theorem cons {op : Operator} (h : Ordered ops) (hop : ∀ below ∈ ops.head?, op.RestsOn below) :
    Ordered (op :: ops) := by
  refine ⟨?_, List.isChain_cons.2 ⟨hop, h.rests⟩⟩
  rw [← List.singleton_append, List.getLast?_append_of_ne_nil [op] h.ne_nil]
  exact h.bottom

/-- A test that no scope mark satisfies does not empty a stack. -/
theorem dropWhile {test : Operator → Bool} (h : Ordered ops) (ht : test .scope = false) :
    Ordered (ops.dropWhile test) := by
  refine h.suffix (List.dropWhile_suffix test) fun hnil => ?_
  have hscope := List.dropWhile_eq_nil_iff.1 hnil _ (List.mem_of_getLast? h.bottom)
  rw [ht] at hscope
  cases hscope

/-- Nor do so many of the operators that satisfy it. -/
theorem drop {test : Operator → Bool} {n : Nat} (h : Ordered ops) (ht : test .scope = false)
    (hn : n ≤ (ops.takeWhile test).length) : Ordered (ops.drop n) := by
  refine h.suffix (List.drop_suffix n ops) fun hnil => ?_
  have hall := List.drop_eq_nil_of_le ((List.drop_eq_nil_iff.1 hnil).trans hn)
  rw [Lists.drop_length_takeWhile] at hall
  exact (h.dropWhile ht).ne_nil hall

/-- **An operator rests on what is left after all that goes before it was applied.** -/
theorem push (h : Ordered ops) (op : Operator) :
    Ordered (op :: ops.dropWhile (Builder.yieldsTo op)) := by
  refine (h.dropWhile rfl).cons fun below hbelow hs _ _ => ?_
  have hstays := Lists.eq_false_of_mem_head?_dropWhile hbelow
  simpa only [Builder.yieldsTo, decide_eq_true hs, Bool.true_and] using hstays

end Ordered

/-! ## 2. One instruction -/

namespace Instruction

/-- The operators that an instruction applies first, in their order. -/
def pending : Instruction → List Operator → List Operator
  | operator op, ops => ops.takeWhile (Builder.yieldsTo op)
  | settle, ops => ops.takeWhile (· ≠ .scope)
  | literal _, _ | read _ _, _ | hold _, _ | openScope, _ | closeScope, _ | assign _, _ => []

/-- What an instruction needs to leave a stack in order. -/
def KeepsOrder (ops : List Operator) : Instruction → Prop
  | hold op => op = .unary .negate
  | closeScope => Ordered ops.tail
  | literal _ | read _ _ | operator _ | openScope | settle | assign _ => True

variable {i : Instruction} {ops : List Operator}

/-- **The stack after an instruction that succeeds is in order.** -/
theorem KeepsOrder.stacked (h : i.KeepsOrder ops) (ho : Ordered ops) : Ordered (i.stacked ops) := by
  cases i with
  | literal x | read name start | assign name => exact ho
  | operator op => exact ho.push op
  | hold op =>
    obtain rfl : op = .unary .negate := h
    exact ho.cons fun below _ _ _ hne => absurd rfl hne
  | openScope => exact ho.cons fun below _ _ hne => absurd rfl hne
  | closeScope => exact h
  | settle => exact ho.dropWhile (by decide)

/-- While an instruction applies what is pending, the stack stays in order. -/
theorem ordered_drop_pending (ho : Ordered ops) {n : Nat} (hn : n ≤ (i.pending ops).length) :
    Ordered (ops.drop n) := by
  cases i with
  | operator op => exact ho.drop rfl hn
  | settle => exact ho.drop (by decide) hn
  | literal x | read name start | assign name | hold op | openScope | closeScope =>
    obtain rfl : n = 0 := Nat.le_zero.1 hn
    exact ho

end Instruction

namespace Machine

variable {s : Settings} {position : Nat} {m m' : Machine}

theorem operators_applyOperator (s : Settings) (position : Nat) (op : Operator) (m : Machine) :
    (m.applyOperator s position op).state.operators = m.operators := by
  unfold applyOperator deliver
  simp only
  split <;> (try split) <;> (try split) <;> rfl

/-- **The operator on top is taken**, whether it can be applied or not. -/
theorem operators_reduce (s : Settings) (position : Nat) (m : Machine) :
    (m.reduce s position).state.operators = m.operators.tail := by
  obtain ⟨operands, operators, memory, events⟩ := m
  cases operators with
  | nil => rfl
  | cons op rest => exact operators_applyOperator s position op _

/-- Of several operators those up to the first that cannot be applied are taken. -/
theorem exists_drop_of_reduceTimes (s : Settings) (position n : Nat) (m : Machine) :
    ∃ k ≤ n, (m.reduceTimes s position n).state.operators = m.operators.drop k := by
  induction n generalizing m with
  | zero => exact ⟨0, Nat.le_refl 0, rfl⟩
  | succ n ih =>
    have hfirst := operators_reduce s position m
    rw [reduceTimes]
    cases hr : m.reduce s position with
    | failed err m₁ =>
      rw [hr] at hfirst
      exact ⟨1, Nat.le_add_left 1 n, hfirst.trans List.drop_one.symm⟩
    | ok m₁ =>
      rw [hr] at hfirst
      obtain ⟨k, hk, hdrop⟩ := ih m₁
      have hfirst : m₁.operators = m.operators.tail := hfirst
      exact ⟨k + 1, Nat.succ_le_succ hk, by rw [Outcome.ok_andThen, hdrop, hfirst, List.drop_tail]⟩

/-- **While operators are applied, the stack stays in order.** -/
theorem ordered_reduceTimes {i : Instruction} (ho : Ordered m.operators) {n : Nat}
    (hn : n ≤ (i.pending m.operators).length) :
    Ordered (m.reduceTimes s position n).state.operators := by
  obtain ⟨k, hk, hdrop⟩ := exists_drop_of_reduceTimes s position n m
  rw [hdrop]
  exact i.ordered_drop_pending ho (hk.trans hn)

/-- An instruction that fails leaves the stack in order. -/
theorem ordered_of_failed_step {i : Instruction} {err : EvalError} (ho : Ordered m.operators)
    (hi : i.KeepsOrder m.operators) (h : m.step s position i = .failed err m') :
    Ordered m'.operators := by
  -- an operator and the end of a chain fail while they apply what is pending
  have hpending : m.reduceTimes s position (i.pending m.operators).length = .failed err m' →
      Ordered m'.operators := fun hr => by
    have hordered : Ordered (m.reduceTimes s position _).state.operators :=
      ordered_reduceTimes ho (Nat.le_refl (i.pending m.operators).length)
    rwa [hr] at hordered
  cases i with
  | literal x | hold op | openScope => cases h
  | read name start =>
    simp only [step, read] at h
    split at h
    · cases h
    · cases h
      exact ho
  | operator op =>
    refine hpending ?_
    have h : (m.reduceTimes s position _).andThen _ = .failed err m' := h
    cases hr : m.reduceTimes s position (m.operators.takeWhile (Builder.yieldsTo op)).length with
    | ok m₁ => cases (congrArg (Outcome.andThen · _) hr).symm.trans h
    | failed err₁ m₁ =>
      cases (congrArg (Outcome.andThen · _) hr).symm.trans h
      exact hr
  | closeScope =>
    obtain ⟨operands, operators, memory, events⟩ := m
    simp only [step, closeScope] at h
    split at h
    · cases h
      exact ho
    · cases h
    · cases h
      exact hi
  | settle => exact hpending h
  | assign name =>
    simp only [step, assign] at h
    split at h
    · cases h
      exact ho
    · cases h

/-- **An instruction leaves the stack in order, whether it succeeds or fails.** -/
theorem ordered_step {i : Instruction} (ho : Ordered m.operators) (hi : i.KeepsOrder m.operators) :
    Ordered (m.step s position i).state.operators := by
  cases hstep : m.step s position i with
  | ok m₁ =>
    have hstacked : m₁.operators = i.stacked m.operators := (step_of_ok hstep).1
    rw [Outcome.state, hstacked]
    exact hi.stacked ho
  | failed err m₁ => exact ordered_of_failed_step ho hi hstep

/-! ## 3. Runs of code -/

/-- The machines that a run of code goes through: the first one, the one after each operator that an
    instruction applies, and the one after each instruction, be it one that fails. -/
inductive GoesThrough (s : Settings) : Machine → Code → Machine → Prop where
  | start (m : Machine) (code : Code) : GoesThrough s m code m
  | applied (m : Machine) (i : Issued) (code : Code) {n : Nat}
      (hn : n ≤ (i.instruction.pending m.operators).length) :
      GoesThrough s m (i :: code) (m.reduceTimes s i.cursor.position n).state
  | stepped (m : Machine) (i : Issued) (code : Code) :
      GoesThrough s m (i :: code) (m.step s i.cursor.position i.instruction).state
  | onward {m m₁ m' : Machine} {i : Issued} {code : Code}
      (hstep : m.step s i.cursor.position i.instruction = .ok m₁) (h : GoesThrough s m₁ code m') :
      GoesThrough s m (i :: code) m'

/-- A run goes through the machine that it ends in. -/
theorem goesThrough_exec (s : Settings) (m : Machine) (code : Code) :
    m.GoesThrough s code (m.exec s code).state := by
  induction code generalizing m with
  | nil => exact .start m []
  | cons i code ih =>
    rw [exec]
    cases hstep : m.step s i.cursor.position i.instruction with
    | ok m₁ => exact .onward hstep (ih m₁)
    | failed err m₁ =>
      have hstepped := GoesThrough.stepped (s := s) m i code
      rwa [hstep] at hstepped

/-- A longer run goes through the same machines first. -/
theorem GoesThrough.append {s : Settings} {m m' : Machine} {code : Code}
    (h : m.GoesThrough s code m') (onward : Code) : m.GoesThrough s (code ++ onward) m' := by
  induction h with
  | start m code => exact .start m _
  | applied m i code hn => exact .applied m i _ hn
  | stepped m i code => exact .stepped m i _
  | onward hstep _ ih => exact .onward hstep ih

end Machine

/-- Each instruction of some code keeps in order the stack that those before it leave. -/
def Code.Orderly : List Operator → Code → Prop
  | _, [] => True
  | ops, i :: code => i.instruction.KeepsOrder ops ∧ Orderly (i.instruction.stacked ops) code

theorem Code.orderly_append {ops : List Operator} {c d : Code} :
    Orderly ops (c ++ d) ↔ c.Orderly ops ∧ Orderly (c.stacked ops) d := by
  induction c generalizing ops with
  | nil => exact ⟨fun h => ⟨trivial, h⟩, And.right⟩
  | cons i c ih =>
    rw [List.cons_append, Orderly, Orderly, ih, and_assoc]
    rfl

/-- Orderly code leaves a stack in order. -/
theorem Ordered.stacked {ops : List Operator} {code : Code} (ho : Ordered ops)
    (h : code.Orderly ops) : Ordered (code.stacked ops) := by
  induction code generalizing ops with
  | nil => exact ho
  | cons i code ih => exact ih (h.1.stacked ho) h.2

/-- **Orderly code keeps a stack in order all along its run.** -/
theorem ordered_goesThrough {s : Settings} {m m' : Machine} {code : Code}
    (h : m.GoesThrough s code m') (ho : Ordered m.operators) (hc : code.Orderly m.operators) :
    Ordered m'.operators := by
  induction h with
  | start m code => exact ho
  | applied m i code hn => exact Machine.ordered_reduceTimes ho hn
  | stepped m i code => exact Machine.ordered_step ho hc.1
  | onward hstep _ ih =>
    have hstacked := (Machine.step_of_ok hstep).1
    exact ih (hstacked ▸ hc.1.stacked ho) (hstacked ▸ hc.2)

/-! ## 4. Passages -/

/-- The code of a reading is orderly wherever it runs on a stack in order. -/
def Reading.Orderly (r : Reading) : Prop := ∀ ops, Ordered ops → r.code.Orderly ops

namespace Reading.Orderly

variable {r : Reading} {c : Cursor} {i : Instruction} {next : Cursor → Reading}

theorem after (h : r.Orderly) (c : Cursor) (hi : ∀ ops, i.KeepsOrder ops) :
    (r.after ⟨c, i⟩).Orderly := fun ops ho => ⟨hi ops, h _ ((hi ops).stacked ho)⟩

/-- **Readings in a row are orderly.** -/
theorem andThen (h : r.Orderly) (hnext : ∀ c₁, r.stop = .ok c₁ → (next c₁).Orderly) :
    (r.andThen next).Orderly := by
  cases hs : r.stop with
  | error refusal => rwa [andThen_of_error hs]
  | ok c₁ =>
    rw [andThen_of_ok hs]
    intro ops ho
    exact Code.orderly_append.2 ⟨h ops ho, hnext c₁ hs _ (ho.stacked (h ops ho))⟩

/-- A reading in a scope of its own, which is closed behind it. -/
theorem inScope (h : r.Orderly) (c : Cursor)
    (hscope : ∀ c₁ ops, r.stop = .ok c₁ → r.code.stacked (.scope :: ops) = .scope :: ops)
    (hnext : ∀ c₁ ops, Ordered ops → (next c₁).code.Orderly (.scope :: ops)) :
    ((r.after ⟨c, .openScope⟩).andThen next).Orderly := by
  have hopened := h.after (i := .openScope) c fun _ => trivial
  cases hs : r.stop with
  | error refusal =>
    have hs : (r.after ⟨c, .openScope⟩).stop = .error refusal := hs
    rwa [andThen_of_error hs]
  | ok c₁ =>
    have hs' : (r.after ⟨c, .openScope⟩).stop = .ok c₁ := hs
    rw [andThen_of_ok hs']
    intro ops ho
    refine Code.orderly_append.2 ⟨hopened ops ho, ?_⟩
    have hstacked : Code.stacked (r.after ⟨c, .openScope⟩).code ops = .scope :: ops :=
      hscope c₁ ops hs
    rw [hstacked]
    exact hnext c₁ ops ho

end Reading.Orderly

namespace Cursor

/-- The parenthesis of a group closes the scope that the group opened. -/
theorem orderly_closing (c : Cursor) {ops : List Operator} (ho : Ordered ops) :
    c.closing.code.Orderly (.scope :: ops) := by
  cases hs : (c.expecting .rightParen .closing).stop with
  | error refusal =>
    rw [closing, Reading.andThen_of_error hs, code_expecting]
    trivial
  | ok c₁ =>
    rw [closing, Reading.andThen_of_ok hs, code_expecting]
    exact ⟨ho, trivial⟩

/-- So does a binding. -/
theorem orderly_binding (name : String) (c : Cursor) {ops : List Operator} (ho : Ordered ops) :
    (c.binding name).code.Orderly (.scope :: ops) := ⟨ho, trivial, trivial⟩

end Cursor

namespace Passage

variable {p : Passage} {c : Cursor} {r : Reading}

/-- **The code of a passage is orderly.** -/
theorem Reads.orderly (h : p.Reads c r) : r.Orderly := by
  have hexpecting (m : Mark) (needed : Requirement) (c : Cursor) :
      (c.expecting m needed).Orderly := fun ops _ => by
    rw [Cursor.code_expecting]
    trivial
  induction h with
  | number _ _ _ ih => exact ih.after _ fun _ => trivial
  | malformed _ _ => exact fun _ _ => trivial
  | named _ _ ih => exact ih
  | minus _ _ ih => exact ih.after _ fun _ => rfl
  | comma _ _ ih => exact ih
  | grouped _ _ _ ih ih' => exact ih.andThen ih'
  | unopened _ => exact fun _ _ => trivial
  | factorial _ _ ih => exact ih.after _ fun _ => trivial
  | ended _ => exact fun _ _ => trivial
  | factor _ _ _ ih => exact ih.after _ fun _ => trivial
  | call _ _ _ ih => exact ih.after _ fun _ => trivial
  | bound _ _ _ h ih =>
    exact ih.inScope _ (fun _ ops hs => (h.balances hs).restores (.scope :: ops))
      fun c₁ ops ho => c₁.orderly_binding _ ho
  | read _ _ _ _ ih => exact ih.after _ fun _ => trivial
  | single _ _ ih => exact ih
  | several _ _ _ _ ih ih' => exact ih.andThen ih'
  | bare _ _ => exact fun _ _ => trivial
  | group h ih =>
    exact ih.inScope _ (fun _ ops hs => (h.balances hs).restores (.scope :: ops))
      fun c₁ ops ho => c₁.orderly_closing ho
  | last _ ih => exact ih
  | further _ _ ih ih' => exact (ih.andThen fun c₁ _ => hexpecting _ _ c₁).andThen ih'
  | chain _ _ ih ih' => exact ih.andThen ih'
  | link _ _ _ _ ih ih' => exact (ih.andThen ih').after _ fun _ => trivial
  | settled _ => exact fun _ _ => ⟨trivial, trivial⟩

end Passage

/-! ## 5. Evaluations -/

/-- The evaluations that reading passages leads to from the start of a source, one after the other,
    whether it succeeds or fails. -/
inductive Evaluation.Reachable (settings : Settings) (memory : Variables) (source : Source) :
    Evaluation → Prop where
  | start : Reachable settings memory source (.start settings memory source)
  | follow {e : Evaluation} {p : Passage} {r : Reading} (h : Reachable settings memory source e)
      (hr : p.Reads e.cursor r) : Reachable settings memory source (e.follow r).state

/-- The machine of an evaluation that follows a reading is the one that its code leaves. -/
theorem Evaluation.machine_follow (r : Reading) (e : Evaluation) :
    (e.follow r).state.machine = (e.machine.exec e.settings r.code).state := by
  rw [follow, ← Evaluation.map_machine_run]
  cases e.run r.code with
  | failed err e₁ => rfl
  | ok e₁ =>
    rw [Outcome.ok_andThen]
    cases r.stop <;> rfl

/-- **The operators of an evaluation are in order.** -/
theorem Evaluation.Reachable.ordered {settings : Settings} {memory : Variables} {source : Source}
    {e : Evaluation} (h : e.Reachable settings memory source) : Ordered e.machine.operators := by
  induction h with
  | start => exact .initial
  | @follow e p r _ hr ih =>
    rw [Evaluation.machine_follow]
    exact ordered_goesThrough (e.machine.goesThrough_exec e.settings r.code) ih (hr.orderly _ ih)

namespace Operator

/-- An operator binds tighter than another one, or both are powers. -/
def RisesOver (op below : Operator) : Prop :=
  below.precedence < op.precedence ∨ below = .binary .pow ∧ op = .binary .pow

theorem risesOver_of_reducesBefore {op below : Operator} (h : below.reducesBefore op = false) :
    op.RisesOver below := by
  unfold reducesBefore at h
  split at h
  · next hpow =>
    rw [Bool.and_eq_true, groupsRight, decide_eq_true_eq, decide_eq_true_eq] at hpow
    exact .inr ⟨hpow.2, hpow.1 ▸ hpow.2⟩
  · exact .inl (Nat.lt_of_not_le (of_decide_eq_false h))

theorem RisesOver.trans {op between below : Operator} (h : op.RisesOver between)
    (h' : between.RisesOver below) : op.RisesOver below := by
  rcases h with h | ⟨rfl, rfl⟩
  · rcases h' with h' | ⟨rfl, rfl⟩
    · exact .inl (Nat.lt_trans h' h)
    · exact .inl h
  · exact h'

end Operator

namespace Ordered

variable {ops : List Operator}

/-- **Between scope marks and negations, the operators bind tighter and tighter.** -/
theorem pairwise_risesOver (h : Ordered ops) {stretch : List Operator} (hs : stretch <:+: ops)
    (hscope : .scope ∉ stretch) (hnegate : .unary .negate ∉ stretch) :
    stretch.Pairwise Operator.RisesOver := by
  have : Trans Operator.RisesOver Operator.RisesOver Operator.RisesOver := ⟨.trans⟩
  have hrests : stretch.IsChain Operator.RestsOn := h.rests.infix hs
  have hrises : stretch.IsChain Operator.RisesOver := by
    refine hrests.imp_of_mem_imp fun op below hop hbelow hrest => ?_
    have hne {x y : Operator} (hx : x ∈ stretch) (hy : y ∉ stretch) : x ≠ y :=
      fun he => hy (he ▸ hx)
    exact Operator.risesOver_of_reducesBefore
      (hrest (hne hbelow hscope) (hne hop hscope) (hne hop hnegate))
  exact hrises.pairwise

end Ordered

/-- **The operators of an evaluation rise.** Whatever passages an evaluation reads from the start of
    a source, one after the other, at every moment of every run: at the bottom there is a scope
    mark, the stack is never empty, no operator other than a negation gives way to the one below it,
    unless one of them is a scope mark, and so the operators between scope marks and negations bind
    tighter and tighter, but for repeated powers. -/
theorem operators_rise {settings : Settings} {memory : Variables} {source : Source} {e : Evaluation}
    (he : e.Reachable settings memory source) {p : Passage} {r : Reading} (hr : p.Reads e.cursor r)
    {m : Machine} (hm : e.machine.GoesThrough e.settings r.code m) :
    m.operators.getLast? = some .scope ∧ m.operators ≠ [] ∧
    (∀ above op below rest, m.operators = above ++ op :: below :: rest → below ≠ .scope →
      op ≠ .scope → op ≠ .unary .negate → below.reducesBefore op = false) ∧
    ∀ stretch, stretch <:+: m.operators → .scope ∉ stretch → .unary .negate ∉ stretch →
      stretch.Pairwise fun op below =>
        below.precedence < op.precedence ∨ below = .binary .pow ∧ op = .binary .pow := by
  have hordered : Ordered m.operators := ordered_goesThrough hm he.ordered (hr.orderly _ he.ordered)
  refine ⟨hordered.bottom, hordered.ne_nil, fun above op below rest hsplit => ?_,
    fun stretch hs hscope hnegate => hordered.pairwise_risesOver hs hscope hnegate⟩
  exact List.isChain_iff_forall_rel_of_append_cons_cons.1 hordered.rests hsplit

/-- Powers and a negation over a sum, in a run that fails at the end of the text. -/
theorem operators_rise_powers :
    let source : Source := ⟨"1+2^3^-(4".toList, by decide⟩
    let e := Evaluation.start {} .seeded source
    e.chain.error?.isSome = true ∧
    ∃ m, e.machine.GoesThrough e.settings e.cursor.readChain.code m ∧
      m.operators =
        [.scope, .unary .negate, .binary .pow, .binary .pow, .binary .add, .scope] ∧
      [.binary .pow, .binary .pow, .binary .add].Pairwise Operator.RisesOver := by
  intro source e
  let run := e.machine.exec e.settings (e.cursor.readChain.code.take 8)
  have hrun : run.state.operators =
      [.scope, .unary .negate, .binary .pow, .binary .pow, .binary .add, .scope] := by
    decide +kernel
  have hgoes : e.machine.GoesThrough e.settings e.cursor.readChain.code run.state := by
    have htake := (e.machine.goesThrough_exec e.settings (e.cursor.readChain.code.take 8)).append
      (e.cursor.readChain.code.drop 8)
    rwa [List.take_append_drop] at htake
  refine ⟨by decide +kernel, run.state, hgoes, hrun, ?_⟩
  have hrises := (operators_rise .start (Passage.chain_reads_iff.2 rfl) hgoes).2.2.2
  refine hrises _ ?_ (by decide) (by decide)
  rw [hrun]
  exact ⟨[.scope, .unary .negate], [.scope], rfl⟩

end DeskCalculator
