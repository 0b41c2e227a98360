import DeskCalculator.Proofs.Program
import DeskCalculator.Proofs.Retracing

/-!
# What a passage leaves on the stacks

Code that succeeds changes the operator stack and the number of operands in a way that no value
plays a part in. This file fixes

* `fromScope` -- the innermost scope mark of an operator stack, with what lies below it;
* `Machine.balance` -- the operands less one for each waiting operator of two operands;
* `Instruction.stacked`, `Instruction.effect` -- the operator stack after an instruction, and what
  it adds to the balance. A machine that succeeds does just that (`step_of_ok`, `exec_of_ok`);
* `Passage.effect`, `Passage.Restores` -- the same of a passage.

Main statements: **the code of a passage keeps to its passage** (`Reads.balances`): an operand adds
one to the balance and leaves alone what lies from the innermost scope mark on; a chain leaves one
operand and applies all operators above that mark; a group leaves its operands and no operator. So
does **an evaluation that goes over one** (`balance_of_ok`).
-/

namespace DeskCalculator

/-! ## 1. Stacks of operators -/

/-- The operators from the innermost scope mark on, down to the bottom. -/
def fromScope (ops : List Operator) : List Operator := ops.dropWhile (· ≠ .scope)

theorem fromScope_scope (ops : List Operator) : fromScope (.scope :: ops) = .scope :: ops := rfl

theorem fromScope_cons {op : Operator} (h : op ≠ .scope) (ops : List Operator) :
    fromScope (op :: ops) = fromScope ops :=
  List.dropWhile_cons_of_pos (decide_eq_true h)

theorem fromScope_of_head? {ops : List Operator} (h : ops.head? = some .scope) :
    fromScope ops = ops := by
  obtain ⟨rest, rfl⟩ := List.head?_eq_some_iff.1 h
  exact fromScope_scope rest

/-- What a test takes that no scope mark satisfies lies above the innermost one. -/
theorem fromScope_dropWhile {test : Operator → Bool} (ht : test .scope = false)
    (ops : List Operator) : fromScope (ops.dropWhile test) = fromScope ops := by
  induction ops with
  | nil => rfl
  | cons op ops ih =>
    by_cases hop : test op = true
    · have hne : op ≠ .scope := by
        intro he
        rw [he, ht] at hop
        cases hop
      rw [List.dropWhile_cons_of_pos hop, fromScope_cons hne, ih]
    · rw [List.dropWhile_cons_of_neg hop]

theorem fromScope_fromScope (ops : List Operator) : fromScope (fromScope ops) = fromScope ops :=
  fromScope_dropWhile (by decide) ops

theorem twos_cons (op : Operator) (ops : List Operator) : twos (op :: ops) = twos [op] + twos ops :=
  twos_append [op] ops

/-- An operator that is applied takes one operand more than it counts for. -/
theorem twos_singleton {op : Operator} (h : op ≠ .scope) : twos [op] + 1 = op.arity := by
  cases op with
  | scope => exact absurd rfl h
  | binary f => rfl
  | unary f => rfl

/-! ## 2. One instruction -/

namespace Instruction

/-- The operator stack after an instruction that succeeds. -/
def stacked : Instruction → List Operator → List Operator
  | literal _, ops | read _ _, ops | assign _, ops => ops
  | operator op, ops => op :: ops.dropWhile (Builder.yieldsTo op)
  | hold op, ops => op :: ops
  | openScope, ops => .scope :: ops
  | closeScope, ops => ops.tail
  | settle, ops => fromScope ops

/-- What an instruction that succeeds adds to the balance. -/
def effect : Instruction → Int
  | literal _ | read _ _ => 1
  | operator op | hold op => -twos [op]
  | openScope | closeScope | settle | assign _ => 0

/-- An operator is stacked above the innermost scope mark. -/
theorem fromScope_stacked_operator {op : Operator} (h : op ≠ .scope) (ops : List Operator) :
    fromScope ((operator op).stacked ops) = fromScope ops := by
  rw [stacked, fromScope_cons h, fromScope_dropWhile rfl]

end Instruction

namespace Machine

variable {s : Settings} {position : Nat} {m m' : Machine}

/-- The operands less one for each waiting operator of two operands. -/
def balance (m : Machine) : Int := m.operands.length - twos m.operators

theorem deliver_of_ok {op : Operator} {operands : List Float} {raw : Float}
    (h : m.deliver s position op operands raw = .ok m') :
    m'.operators = m.operators ∧ m'.operands.length = m.operands.length + 1 := by
  unfold deliver at h
  simp only at h
  split at h
  · cases h
  · cases h
    exact ⟨rfl, rfl⟩

/-- **An operator that is applied takes its operands and leaves one.** -/
theorem applyOperator_of_ok {op : Operator} (h : m.applyOperator s position op = .ok m') :
    op ≠ .scope ∧ m'.operators = m.operators ∧
      m'.operands.length + op.arity = m.operands.length + 1 := by
  obtain ⟨operands, operators, memory, events⟩ := m
  unfold applyOperator at h
  split at h
  · cases h
  · next hoperands =>
    obtain rfl : operands = _ := hoperands
    obtain ⟨hoperators, hlength⟩ := deliver_of_ok h
    refine ⟨Operator.noConfusion, hoperators, ?_⟩
    rw [hlength, List.length_cons, List.length_cons, Operator.arity]
  · cases h
  · next hoperands =>
    obtain rfl : operands = _ := hoperands
    split at h
    · cases h
    · obtain ⟨hoperators, hlength⟩ := deliver_of_ok h
      refine ⟨Operator.noConfusion, hoperators, ?_⟩
      rw [hlength, List.length_cons, Operator.arity]
  · cases h

/-- **The operator on top is applied without a change of the balance.** -/
theorem reduce_of_ok (h : m.reduce s position = .ok m') :
    m'.operators = m.operators.tail ∧ m'.balance = m.balance := by
  obtain ⟨operands, operators, memory, events⟩ := m
  cases operators with
  | nil => cases h
  | cons op rest =>
    obtain ⟨hop, hoperators, hlength⟩ := applyOperator_of_ok h
    have htwos := twos_singleton hop
    refine ⟨hoperators, ?_⟩
    rw [balance, balance, hoperators, twos_cons op]
    simp only at hlength ⊢
    omega

theorem reduceTimes_of_ok {n : Nat} (h : m.reduceTimes s position n = .ok m') :
    m'.operators = m.operators.drop n ∧ m'.balance = m.balance := by
  induction n generalizing m with
  | zero =>
    cases h
    exact ⟨rfl, rfl⟩
  | succ n ih =>
    rw [reduceTimes] at h
    cases hr : m.reduce s position with
    | failed err m₁ =>
      rw [hr] at h
      cases h
    | ok m₁ =>
      rw [hr] at h
      obtain ⟨hoperators, hbalance⟩ := reduce_of_ok hr
      obtain ⟨hoperators', hbalance'⟩ := ih h
      exact ⟨by rw [hoperators', hoperators, List.drop_tail], hbalance'.trans hbalance⟩

/-- So are those that satisfy a test. -/
theorem reduceWhile_of_ok {test : Operator → Bool} (h : m.reduceWhile s position test = .ok m') :
    m'.operators = m.operators.dropWhile test ∧ m'.balance = m.balance := by
  obtain ⟨hoperators, hbalance⟩ := reduceTimes_of_ok h
  exact ⟨hoperators.trans (Lists.drop_length_takeWhile test m.operators), hbalance⟩

theorem balance_pushOperand (x : Float) (m : Machine) :
    (m.pushOperand x).balance = m.balance + 1 := by
  simp only [balance, pushOperand, List.length_cons]
  omega

theorem balance_pushOperator (op : Operator) (m : Machine) :
    (m.pushOperator op).balance = m.balance - twos [op] := by
  simp only [balance, pushOperator, twos_cons op m.operators]
  omega

/-- **An instruction that succeeds does to the stacks what it says.** -/
theorem step_of_ok {i : Instruction} (h : m.step s position i = .ok m') :
    m'.operators = i.stacked m.operators ∧ m'.balance = m.balance + i.effect := by
  cases i with
  | literal x =>
    cases h
    exact ⟨rfl, balance_pushOperand x m⟩
  | read name start =>
    simp only [step, read] at h
    split at h
    · cases h
      exact ⟨rfl, balance_pushOperand _ _⟩
    · cases h
  | operator op =>
    simp only [step, stackOperator] at h
    cases hr : m.reduceWhile s position (Builder.yieldsTo op) with
    | failed err m₁ => cases (congrArg (Outcome.andThen · _) hr).symm.trans h
    | ok m₁ =>
      cases (congrArg (Outcome.andThen · _) hr).symm.trans h
      obtain ⟨hoperators, hbalance⟩ := reduceWhile_of_ok hr
      exact ⟨congrArg (op :: ·) hoperators, by
        rw [balance_pushOperator, hbalance, Int.sub_eq_add_neg, Instruction.effect]⟩
  | hold op =>
    cases h
    exact ⟨rfl, balance_pushOperator op m⟩
  | openScope =>
    cases h
    exact ⟨rfl, balance_pushOperator .scope m⟩
  | closeScope =>
    obtain ⟨operands, operators, memory, events⟩ := m
    simp only [step, closeScope] at h
    split at h
    · cases h
    · cases h
      exact ⟨rfl, (Int.add_zero _).symm⟩
    · cases h
  | settle =>
    obtain ⟨hoperators, hbalance⟩ := reduceWhile_of_ok h
    exact ⟨hoperators, hbalance.trans (Int.add_zero _).symm⟩
  | assign name =>
    simp only [step, assign] at h
    split at h
    · cases h
    · cases h
      exact ⟨rfl, (Int.add_zero _).symm⟩

end Machine

/-! ## 3. Code -/

/-- The operator stack after code that succeeds. -/
def Code.stacked (code : Code) (ops : List Operator) : List Operator :=
  code.foldl (fun ops i => i.instruction.stacked ops) ops

/-- What code that succeeds adds to the balance. -/
def Code.effect : Code → Int
  | [] => 0
  | i :: code => i.instruction.effect + effect code

namespace Code

theorem stacked_cons (i : Issued) (code : Code) (ops : List Operator) :
    stacked (i :: code) ops = code.stacked (i.instruction.stacked ops) := rfl

theorem stacked_append (c d : Code) (ops : List Operator) :
    stacked (c ++ d) ops = d.stacked (c.stacked ops) := List.foldl_append

theorem effect_cons (i : Issued) (code : Code) :
    effect (i :: code) = i.instruction.effect + code.effect := rfl

theorem effect_append (c d : Code) : effect (c ++ d) = c.effect + effect d := by
  induction c with
  | nil => exact (Int.zero_add _).symm
  | cons i c ih => rw [List.cons_append, effect_cons, effect_cons, ih, Int.add_assoc]

/-- Code in a scope of its own leaves the operators around the scope, if it leaves the scope. -/
theorem stacked_scoped {code : Code} {ops : List Operator}
    (h : code.stacked (.scope :: ops) = .scope :: ops) (opened closed : Cursor) (onward : Code) :
    stacked (⟨opened, .openScope⟩ :: code ++ ⟨closed, .closeScope⟩ :: onward) ops =
      onward.stacked ops := by
  rw [stacked_append, stacked_cons, stacked_cons]
  show onward.stacked (code.stacked (.scope :: ops)).tail = onward.stacked ops
  rw [h, List.tail_cons]

theorem effect_scoped (opened closed : Cursor) (code onward : Code) :
    effect (⟨opened, .openScope⟩ :: code ++ ⟨closed, .closeScope⟩ :: onward) =
      code.effect + onward.effect := by
  rw [effect_append, effect_cons, effect_cons, Instruction.effect, Instruction.effect, Int.zero_add,
    Int.zero_add]

end Code

/-- **Code that succeeds does to the stacks what it says.** -/
theorem Machine.exec_of_ok {s : Settings} {code : Code} {m m' : Machine}
    (h : m.exec s code = .ok m') :
    m'.operators = code.stacked m.operators ∧ m'.balance = m.balance + code.effect := by
  induction code generalizing m with
  | nil =>
    cases h
    exact ⟨rfl, (Int.add_zero _).symm⟩
  | cons i code ih =>
    rw [exec] at h
    cases hstep : m.step s i.cursor.position i.instruction with
    | failed err m₁ =>
      rw [hstep] at h
      cases h
    | ok m₁ =>
      rw [hstep] at h
      obtain ⟨hoperators, hbalance⟩ := step_of_ok hstep
      obtain ⟨hoperators', hbalance'⟩ := ih h
      refine ⟨by rw [hoperators', hoperators, Code.stacked_cons], ?_⟩
      rw [hbalance', hbalance, Code.effect_cons, Int.add_assoc]

/-! ## 4. Passages -/

namespace Passage

/-- What a passage adds to the balance. The arguments of a function come after its operator. -/
def effect : Passage → Int
  | operand | name | chain => 1
  | trail | links => 0
  | arguments f => f.arity
  | group separators | members separators => separators + 1

/-- What a passage leaves of an operator stack. -/
def Restores (ops ops' : List Operator) : Passage → Prop
  | operand | trail | name | arguments _ => fromScope ops' = fromScope ops
  | group _ => ops' = ops
  | members _ | chain | links => ops' = fromScope ops

/-- Code does to the stacks what a passage says. -/
structure Balances (p : Passage) (code : Code) : Prop where
  effect : code.effect = p.effect
  restores : ∀ ops, p.Restores ops (code.stacked ops)

variable {p : Passage} {c c' : Cursor} {r : Reading} {next : Cursor → Reading} {code : Code}

theorem function_ne_scope (f : Function) : f.operator ≠ .scope := by
  cases f <;> exact Operator.noConfusion

/-- A function adds one operand, with its arguments. -/
theorem effect_function (f : Function) :
    (Instruction.operator f.operator).effect + (arguments f).effect = 1 := by
  have htwos := twos_singleton (function_ne_scope f)
  simp only [Instruction.effect, effect, Function.arity]
  omega

/-- Where a first operator is stacked, the rest of an operand keeps what it has to. -/
theorem fromScope_stacked_cons {cursor : Cursor} {op : Operator} (hop : op ≠ .scope)
    (h : ∀ ops, fromScope (code.stacked ops) = fromScope ops) (ops : List Operator) :
    fromScope (Code.stacked (⟨cursor, .operator op⟩ :: code) ops) = fromScope ops := by
  rw [Code.stacked_cons, h, Instruction.fromScope_stacked_operator hop]

/-- A group with the trail behind it. -/
theorem Balances.append_trail {separators : Nat} {code' : Code}
    (h : (group separators).Balances code) (h' : trail.Balances code') :
    (code ++ code').effect = separators + 1 ∧
      ∀ ops, fromScope (Code.stacked (code ++ code') ops) = fromScope ops := by
  refine ⟨?_, fun ops => ?_⟩
  · rw [Code.effect_append, h.effect, h'.effect]
    exact Int.add_zero _
  · rw [Code.stacked_append, h.restores ops]
    exact h'.restores ops

/-- **The code of a passage keeps to its passage.** -/
theorem Reads.balances (h : p.Reads c r) (hs : r.stop = .ok c') : p.Balances r.code := by
  induction h generalizing c' with
  | number _ _ _ ih =>
    have htrail := ih hs
    exact ⟨by rw [Reading.after, Code.effect_cons, htrail.effect]; rfl, htrail.restores⟩
  | malformed _ _ => cases hs
  | named _ _ ih => exact ⟨(ih hs).effect, (ih hs).restores⟩
  | minus _ _ ih =>
    have hoperand := ih hs
    refine ⟨by rw [Reading.after, Code.effect_cons, hoperand.effect]; rfl, fun ops => ?_⟩
    exact (hoperand.restores _).trans (fromScope_cons Operator.noConfusion ops)
  | comma _ _ ih => exact ih hs
  | grouped _ _ _ ih ih' =>
    obtain ⟨c₁, hs₁, hs'⟩ := Reading.exists_stop_of_andThen hs
    rw [Reading.andThen_of_ok hs₁]
    obtain ⟨heffect, hrestores⟩ := (ih hs₁).append_trail (ih' c₁ hs₁ hs')
    exact ⟨heffect, hrestores⟩
  | unopened _ => cases hs
  | factorial _ _ ih =>
    have htrail := ih hs
    exact ⟨by rw [Reading.after, Code.effect_cons, htrail.effect]; rfl,
      fromScope_stacked_cons Operator.noConfusion htrail.restores⟩
  | ended _ =>
    cases hs
    exact ⟨rfl, fun _ => rfl⟩
  | factor _ _ _ ih =>
    have hoperand := ih hs
    exact ⟨by rw [Reading.after, Code.effect_cons, hoperand.effect]; rfl,
      fromScope_stacked_cons Operator.noConfusion hoperand.restores⟩
  | @call c c' cs f r _ _ _ ih =>
    have harguments := ih hs
    exact ⟨by rw [Reading.after, Code.effect_cons, harguments.effect]; exact effect_function f,
      fromScope_stacked_cons (function_ne_scope f) harguments.restores⟩
  | bound _ _ _ _ ih =>
    obtain ⟨c₁, hs₁, hs'⟩ := Reading.exists_stop_of_andThen hs
    have hvalue := ih hs₁
    rw [Reading.andThen_of_ok hs₁]
    exact ⟨by rw [Reading.after, Cursor.binding, Code.effect_scoped, hvalue.effect]; rfl,
      fun ops => congrArg fromScope (Code.stacked_scoped (hvalue.restores (.scope :: ops)) _ _ _)⟩
  | read _ _ _ _ ih =>
    have htrail := ih hs
    exact ⟨by rw [Reading.after, Code.effect_cons, htrail.effect]; rfl, htrail.restores⟩
  | single ha _ ih =>
    have hoperand := ih hs
    exact ⟨by rw [hoperand.effect, effect, effect, ha]; rfl, hoperand.restores⟩
  | several ha _ _ _ ih ih' =>
    obtain ⟨c₁, hs₁, hs'⟩ := Reading.exists_stop_of_andThen hs
    rw [Reading.andThen_of_ok hs₁]
    obtain ⟨heffect, hrestores⟩ := (ih hs₁).append_trail (ih' c₁ hs₁ hs')
    refine ⟨heffect.trans ?_, hrestores⟩
    rw [effect, (Function.exists_binary ha).1]
    rfl
  | bare _ _ => cases hs
  | group _ ih =>
    obtain ⟨c₁, hs₁, hs'⟩ := Reading.exists_stop_of_andThen hs
    have hmembers := ih hs₁
    have hclosing : c₁.closing.code = [⟨c', .closeScope⟩] := by
      obtain ⟨c₂, hs₂, hs'⟩ := Reading.exists_stop_of_andThen hs'
      cases hs'
      rw [Cursor.closing, Reading.andThen_of_ok hs₂, Cursor.code_expecting]
      rfl
    rw [Reading.andThen_of_ok hs₁, Reading.after, hclosing]
    exact ⟨by rw [Code.effect_scoped, hmembers.effect]; exact Int.add_zero _,
      fun ops => Code.stacked_scoped (hmembers.restores (.scope :: ops)) _ _ _⟩
  | last _ ih => exact ⟨(ih hs).effect, (ih hs).restores⟩
  | further _ _ ih ih' =>
    obtain ⟨c₁, hs₁, hs'⟩ := Reading.exists_stop_of_andThen hs
    obtain ⟨c₂, hs₂, hs''⟩ := Reading.exists_stop_of_andThen hs₁
    have hchain := ih hs₂
    have hmembers := ih' c₁ hs₁ hs'
    rw [Reading.andThen_of_ok hs₁, Reading.andThen_of_ok hs₂, Cursor.code_expecting,
      List.append_nil]
    refine ⟨?_, fun ops => ?_⟩
    · rw [Code.effect_append, hchain.effect, hmembers.effect]
      simp only [effect]
      omega
    · rw [Restores, Code.stacked_append, hmembers.restores, hchain.restores, fromScope_fromScope]
  | chain _ _ ih ih' =>
    obtain ⟨c₁, hs₁, hs'⟩ := Reading.exists_stop_of_andThen hs
    have hoperand := ih hs₁
    have hlinks := ih' c₁ hs₁ hs'
    rw [Reading.andThen_of_ok hs₁]
    refine ⟨?_, fun ops => ?_⟩
    · rw [Code.effect_append, hoperand.effect, hlinks.effect]
      rfl
    · rw [Restores, Code.stacked_append, hlinks.restores, hoperand.restores]
  | link _ _ _ _ ih ih' =>
    obtain ⟨c₁, hs₁, hs'⟩ := Reading.exists_stop_of_andThen hs
    have hoperand := ih hs₁
    have hlinks := ih' c₁ hs₁ hs'
    rw [Reading.andThen_of_ok hs₁]
    refine ⟨?_, fun ops => ?_⟩
    · rw [Reading.after, Code.effect_cons, Code.effect_append, hoperand.effect, hlinks.effect]
      rfl
    · rw [Restores, Reading.after, Code.stacked_cons, Code.stacked_append, hlinks.restores,
        hoperand.restores, Instruction.fromScope_stacked_operator Operator.noConfusion]
  | settled _ =>
    cases hs
    exact ⟨rfl, fun _ => rfl⟩

end Passage

/-! ## 5. Evaluations -/

section Evaluations

variable {e e' : Evaluation} {p : Passage} {r : Reading}

/-- An evaluation that follows a reading with success runs its code on the machine. -/
theorem Evaluation.exec_of_follow_ok (h : e.follow r = .ok e') :
    e.machine.exec e.settings r.code = .ok e'.machine := by
  obtain ⟨e₁, hrun, -, he⟩ := Evaluation.exists_run_of_follow_ok h
  rw [← Evaluation.map_machine_run, hrun, he]
  rfl

/-- **An evaluation that goes over a passage keeps to it.** -/
theorem Passage.Reads.balance (h : p.Reads e.cursor r) (he : e.follow r = .ok e') :
    e'.machine.balance = e.machine.balance + p.effect ∧
      p.Restores e.machine.operators e'.machine.operators := by
  obtain ⟨-, -, hstop, -⟩ := Evaluation.exists_run_of_follow_ok he
  have hcode := h.balances hstop
  obtain ⟨hoperators, hbalance⟩ := Machine.exec_of_ok (Evaluation.exec_of_follow_ok he)
  refine ⟨by rw [hbalance, hcode.effect], ?_⟩
  rw [hoperators]
  exact hcode.restores e.machine.operators

/-- Where the operators stay, what is added to the balance is operands. -/
theorem Machine.operands_of_balance {m m' : Machine} {n : Nat} (hops : m'.operators = m.operators)
    (h : m'.balance = m.balance + n) : m'.operands.length = m.operands.length + n := by
  rw [balance, balance, hops] at h
  omega

end Evaluations

/-- **What an evaluation that goes ahead with success leaves on the stacks**, whatever its text. An
    operand adds one to the balance, and leaves the innermost scope mark and all below it. A chain
    that begins at a scope mark leaves all operators and adds one operand. A group leaves all
    operators and adds an operand for each of its chains. -/
theorem balance_of_ok (e : Evaluation) :
    (∀ e', e.operand = .ok e' → e'.machine.balance = e.machine.balance + 1 ∧
      fromScope e'.machine.operators = fromScope e.machine.operators) ∧
    (∀ e', e.chain = .ok e' → e.machine.operators.head? = some .scope →
      e'.machine.operators = e.machine.operators ∧
      e'.machine.operands.length = e.machine.operands.length + 1) ∧
    ∀ separators r e', (Passage.group separators).Reads e.cursor r → e.follow r = .ok e' →
      e'.machine.operators = e.machine.operators ∧
      e'.machine.operands.length = e.machine.operands.length + (separators + 1) := by
  refine ⟨fun e' he => (Passage.operand_reads_iff.2 rfl).balance he, fun e' he hscope => ?_,
    fun separators r e' hr he => ?_⟩
  · obtain ⟨hbalance, hrestores⟩ := (Passage.chain_reads_iff.2 rfl).balance he
    have hops := hrestores.trans (fromScope_of_head? hscope)
    exact ⟨hops, Machine.operands_of_balance hops hbalance⟩
  · obtain ⟨hbalance, hops⟩ := hr.balance he
    exact ⟨hops, Machine.operands_of_balance hops hbalance⟩

/-- Stray commas, and operators that wait inside and outside of the innermost scope. -/
theorem balance_of_ok_commas :
    let m : Machine := ⟨[1, 1], [.binary .add, .scope, .binary .mul, .scope], .seeded, []⟩
    (∃ e', Evaluation.operand ⟨{}, ⟨0, "-,log(,2,,8)!^2".toList⟩, m⟩ = .ok e' ∧
      e'.machine.balance = 1 ∧
      fromScope e'.machine.operators = [.scope, .binary .mul, .scope]) ∧
    (∃ e', Evaluation.chain ⟨{}, ⟨0, "2-,-3!,4".toList⟩, .initial .seeded⟩ = .ok e' ∧
      e'.machine.operators = [.scope] ∧ e'.machine.operands.length = 1) ∧
    ∃ r e', (Passage.group 1).Reads ⟨0, "(,2,,8)+1".toList⟩ r ∧
      Evaluation.follow r ⟨{}, ⟨0, "(,2,,8)+1".toList⟩, m⟩ = .ok e' ∧
      e'.machine.operators = m.operators ∧ e'.machine.operands.length = 4 := by
  intro m
  refine ⟨?_, ?_, ?_⟩
  · have hsucceeds : (Evaluation.operand ⟨{}, ⟨0, "-,log(,2,,8)!^2".toList⟩, m⟩).error?.isNone =
        true := by decide +kernel
    obtain ⟨e', he⟩ := Outcome.exists_ok_of_error? hsucceeds
    exact ⟨e', he, (balance_of_ok _).1 e' he⟩
  · have hsucceeds : (Evaluation.chain ⟨{}, ⟨0, "2-,-3!,4".toList⟩,
        .initial .seeded⟩).error?.isNone = true := by decide +kernel
    obtain ⟨e', he⟩ := Outcome.exists_ok_of_error? hsucceeds
    exact ⟨e', he, (balance_of_ok _).2.1 e' he rfl⟩
  · let c : Cursor := ⟨0, "(,2,,8)+1".toList⟩
    obtain ⟨r, hr⟩ := Passage.exists_reads (.group 1) c
    have hretraced : (Reader.readAt ⟨.operand, [.group 1], .operand⟩ c.advance).after
        ⟨c.advance, .openScope⟩ = _ := hr.retraced .operand []
    have hsucceeds : (Evaluation.follow ((Reader.readAt ⟨.operand, [.group 1], .operand⟩
        c.advance).after ⟨c.advance, .openScope⟩) ⟨{}, c, m⟩).error?.isNone = true := by
      decide +kernel
    rw [hretraced, Evaluation.follow_andThen] at hsucceeds
    cases he : Evaluation.follow r ⟨{}, c, m⟩ with
    | failed err e' =>
      rw [he] at hsucceeds
      cases hsucceeds
    | ok e' => exact ⟨r, e', hr, he, (balance_of_ok ⟨{}, c, m⟩).2.2 1 r e' hr he⟩

end DeskCalculator
