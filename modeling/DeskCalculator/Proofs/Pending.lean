import DeskCalculator.Proofs.Balance

/-!
# Pending trees

Between two tokens a builder holds trees that are not built yet: their last operators still wait on
top of it. This file fixes

* `incoming?` -- the operator that the tokens after an operand bring;
* `Pending` -- a tree whose last operators wait, and all of them give way to what comes next;
* `Guards` -- what waits below gives way to no operator that binds as tightly as a bound.

Main statement: **an operator that comes finishes the pending tree before it, and no more**
(`Pending.step_operator`); the end of a chain does so too (`Pending.step_settle`).
-/

namespace DeskCalculator

open Builder

/-! ## 1. What comes next -/

/-- The operator that the tokens after an operand bring. -/
def incoming? : List Token → Option Operator
  | .mark .bang :: _ => some (.unary .factorial)
  | ts => (Tree.join? ts).map fun next => .binary next.1

theorem rank_eq_precedence (op : BinaryOp) : Tree.rank op = (Operator.binary op).precedence := by
  cases op <;> rfl

/-- An operator comes with its mark, or a further factor comes without one. -/
theorem exists_of_join? {ts : List Token} {op : BinaryOp}
    {right : { right : List Token // right.length ≤ ts.length }}
    (h : Tree.join? ts = some (op, right)) :
    (∃ m rest, ts = .mark m :: rest ∧ m.between? = some op ∧ right.1 = rest) ∨
      ∃ t rest, ts = t :: rest ∧ (t = .mark .leftParen ∨ ∀ m, t ≠ .mark m) ∧ op = .mul ∧
        right.1 = ts := by
  cases ts with
  | nil => cases h
  | cons t rest =>
    unfold Tree.join? at h
    simp only at h
    split at h
    · next op' hop =>
      cases h
      cases t with
      | mark m => exact .inl ⟨m, rest, rfl, hop, rfl⟩
      | number _ => cases hop
      | name _ => cases hop
      | foreign _ => cases hop
    · split at h
      · next hs =>
        cases h
        refine .inr ⟨t, rest, rfl, ?_, rfl, rfl⟩
        cases t with
        | mark m =>
          cases m <;> first | exact .inl rfl | cases hs
        | number _ => exact .inr fun m hm => by cases hm
        | name _ => exact .inr fun m hm => by cases hm
        | foreign _ => cases hs
      · cases h

theorem incoming?_of_head?_eq_bang {ts : List Token} (h : ts.head? = some (.mark .bang)) :
    incoming? ts = some (.unary .factorial) := by
  cases ts with
  | nil => cases h
  | cons t ts =>
    cases h
    rfl

theorem incoming?_of_join? {ts : List Token} {op : BinaryOp}
    {right : { right : List Token // right.length ≤ ts.length }}
    (h : Tree.join? ts = some (op, right)) : incoming? ts = some (.binary op) := by
  unfold incoming?
  split
  · cases h
  · rw [h]
    rfl

/-- What comes is a factorial, or an operator between two operands. -/
theorem exists_of_incoming? {ts : List Token} {op : Operator} (h : incoming? ts = some op) :
    (op = .unary .factorial ∧ ∃ rest, ts = .mark .bang :: rest) ∨
      ∃ f right, op = .binary f ∧ Tree.join? ts = some (f, right) := by
  unfold incoming? at h
  split at h
  · next rest =>
    cases h
    exact .inl ⟨rfl, rest, rfl⟩
  · obtain ⟨⟨f, right⟩, hj, rfl⟩ := Option.map_eq_some_iff.1 h
    exact .inr ⟨f, right, rfl, hj⟩

/-- Operators between two operands await their right one. -/
theorem awaits_of_join? {ts : List Token} {op : BinaryOp}
    {right : { right : List Token // right.length ≤ ts.length }}
    (h : Tree.join? ts = some (op, right)) : (Operator.binary op).awaits = true := by
  rcases exists_of_join? h with ⟨_, _, _, hm, _⟩ | ⟨_, _, _, _, rfl, _⟩
  · exact (Mark.between?_spec hm).1
  · rfl

/-- Operators that come bind less tightly than calls. -/
theorem precedence_of_incoming? {ts : List Token} {op : Operator} (h : incoming? ts = some op) :
    op.precedence ≤ 48 := by
  rcases exists_of_incoming? h with ⟨rfl, _⟩ | ⟨f, right, rfl, hj⟩
  · decide
  · rcases exists_of_join? hj with ⟨_, _, _, hm, _⟩ | ⟨_, _, _, _, rfl, _⟩
    · exact (Mark.between?_spec hm).2
    · decide

/-! ## 2. Pending trees -/

/-- **Operators on top that satisfy a test are applied**, down to one that does not. -/
theorem reduceWhile_append {test : Operator → Bool} {pend scope : List Operator}
    {trees trees' : List Tree} {outer : List (List Operator)} (hp : ∀ o ∈ pend, test o = true)
    (hs : ∀ top ∈ scope.head?, test top = false) (h : applyAll pend trees = .ok trees') :
    reduceWhile test ⟨trees, pend ++ scope, outer⟩ = .ok ⟨trees', scope, outer⟩ := by
  rw [reduceWhile, Lists.takeWhile_append_of_stop hs, Lists.dropWhile_append_of_stop hs,
    List.takeWhile_eq_self_iff.2 hp, List.dropWhile_eq_nil_iff.2 hp, h]
  rfl

/-- An operator is stacked over one that does not give way to it. -/
theorem step_operator_of_head? {b : Builder} {op : Operator}
    (h : ∀ top ∈ b.scope.head?, yieldsTo op top = false) :
    step (.operator op) b = .ok (b.push op) := by
  have hnone : ∀ o ∈ ([] : List Operator), yieldsTo op o = true := by
    intro o ho
    cases ho
  have hr : b.reduceWhile (yieldsTo op) = .ok b := reduceWhile_append hnone h rfl
  rw [step, hr]
  rfl

/-- The tree `t` over `b` is pending in `b'`: the operators `pend` are still to be applied, and all
    of them before what `ts` bring. -/
structure Pending (b : Builder) (t : Tree) (b' : Builder) (pend : List Operator)
    (ts : List Token) : Prop where
  scope : b'.scope = pend ++ b.scope
  outer : b'.outer = b.outer
  apply : applyAll pend b'.trees = .ok (t :: b.trees)
  yields : ∀ op, incoming? ts = some op → ∀ o ∈ pend, yieldsTo op o = true
  ne_scope : ∀ o ∈ pend, o ≠ .scope

/-- Nothing on top of the innermost scope gives way to an operator that binds as tightly as `bound`
    and less tightly than a call. -/
def Guards (bound : Nat) (b : Builder) : Prop :=
  ∀ op : Operator, bound ≤ op.precedence → op.precedence ≤ 48 →
    ∀ top ∈ b.scope.head?, yieldsTo op top = false

namespace Pending

variable {b b' : Builder} {t u : Tree} {pend : List Operator} {ts : List Token}

/-- A tree that is built is pending without an operator. -/
theorem of_tree (b : Builder) (t : Tree) (ts : List Token) :
    Pending b t { b with trees := t :: b.trees } [] ts where
  scope := rfl
  outer := rfl
  apply := rfl
  yields _ _ o ho := by cases ho
  ne_scope o ho := by cases ho

/-- **An operator that comes finishes a pending tree**, and goes no further. -/
theorem step_operator (h : Pending b t b' pend ts) {op : Operator} (hop : incoming? ts = some op)
    (hb : ∀ top ∈ b.scope.head?, yieldsTo op top = false) :
    step (.operator op) b' = .ok ⟨t :: b.trees, op :: b.scope, b.outer⟩ := by
  obtain ⟨trees, scope, outer⟩ := b'
  obtain rfl : scope = pend ++ b.scope := h.scope
  obtain rfl : outer = b.outer := h.outer
  rw [step, reduceWhile_append (h.yields op hop) hb h.apply]
  rfl

/-- **The end of a chain finishes a pending tree** of a scope of its own. -/
theorem step_settle (h : Pending b t b' pend ts) (hb : b.scope = []) :
    step .settle b' = .ok ⟨t :: b.trees, [], b.outer⟩ := by
  have hpend : ∀ o ∈ pend, decide (o ≠ .scope) = true :=
    fun o ho => decide_eq_true (h.ne_scope o ho)
  have hnone : ∀ top ∈ ([] : List Operator).head?, decide (top ≠ Operator.scope) = false := by
    intro top htop
    cases htop
  obtain ⟨trees, scope, outer⟩ := b'
  obtain rfl : scope = pend ++ [] := hb ▸ h.scope
  obtain rfl : outer = b.outer := h.outer
  exact reduceWhile_append hpend hnone h.apply

/-- An operator that waits for a pending tree makes a pending tree with it. -/
theorem under {trees trees' : List Tree} {scope : List Operator} {outer : List (List Operator)}
    {op : Operator} (h : Pending ⟨trees, op :: scope, outer⟩ t b' pend ts)
    (hop : applyOperator op (t :: trees) = .ok (u :: trees')) (hs : op ≠ .scope)
    (hy : ∀ next, incoming? ts = some next → yieldsTo next op = true) :
    Pending ⟨trees', scope, outer⟩ u b' (pend ++ [op]) ts where
  scope := by
    rw [h.scope, List.append_assoc]
    rfl
  outer := h.outer
  apply := by
    rw [applyAll_append, h.apply]
    show applyAll [op] (t :: trees) = _
    rw [applyAll, hop]
    rfl
  yields next hnext o ho := by
    rcases List.mem_append.1 ho with ho | ho
    · exact h.yields next hnext o ho
    · rw [List.mem_singleton.1 ho]
      exact hy next hnext
  ne_scope o ho := by
    rcases List.mem_append.1 ho with ho | ho
    · exact h.ne_scope o ho
    · rw [List.mem_singleton.1 ho]
      exact hs

end Pending

/-! ## 3. Which operators give way -/

theorem yieldsTo_of_lt {op top : Operator} (hs : top ≠ .scope)
    (h : op.precedence < top.precedence) : yieldsTo op top = true := by
  have hne : top ≠ op := by
    intro he
    subst he
    exact Nat.lt_irrefl _ h
  simp [yieldsTo, Operator.reducesBefore, hs, hne, Nat.le_of_lt h]

theorem yieldsTo_of_le {op top : Operator} (hs : top ≠ .scope) (hg : top.groupsRight = false)
    (h : op.precedence ≤ top.precedence) : yieldsTo op top = true := by
  simp [yieldsTo, Operator.reducesBefore, hs, hg, h]

theorem not_yieldsTo_of_lt {op top : Operator} (h : top.precedence < op.precedence) :
    yieldsTo op top = false := by
  have hle : ¬ op.precedence ≤ top.precedence := Nat.not_le_of_lt h
  simp [yieldsTo, Operator.reducesBefore, hle]

/-- A power takes in a further power. -/
theorem eq_pow_of_precedence {op : Operator} (h : op.precedence = 24) : op = .binary .pow := by
  cases op with
  | scope => cases h
  | binary f => cases f <;> first | rfl | cases h
  | unary f => cases f <;> cases h

theorem guards_cons {bound : Nat} {op : Operator} (trees : List Tree) (scope : List Operator)
    (outer : List (List Operator))
    (h : ∀ next : Operator, bound ≤ next.precedence → yieldsTo next op = false) :
    Guards bound ⟨trees, op :: scope, outer⟩ := by
  intro next hle _ top htop
  have htop : top = op := (Option.some.inj htop).symm
  rw [htop]
  exact h next hle

theorem rightBound_of_ne_pow {op : BinaryOp} (h : op ≠ .pow) :
    Tree.rightBound op = Tree.rank op + 1 := by
  cases op <;> first | rfl | exact absurd rfl h

/-- **An operator guards its right operand**: what binds as tightly as its right bound stays on
    it. -/
theorem guards_rightBound (op : BinaryOp) (trees : List Tree) (scope : List Operator)
    (outer : List (List Operator)) :
    Guards (Tree.rightBound op) ⟨trees, .binary op :: scope, outer⟩ := by
  refine guards_cons trees scope outer ?_
  intro next hle
  by_cases hpow : op = .pow
  · subst hpow
    have hle : 24 ≤ next.precedence := hle
    rcases Nat.lt_or_eq_of_le hle with hlt | heq
    · exact not_yieldsTo_of_lt hlt
    · rw [eq_pow_of_precedence heq.symm]
      decide
  · refine not_yieldsTo_of_lt ?_
    rw [rightBound_of_ne_pow hpow] at hle
    rw [← rank_eq_precedence]
    omega

/-- Right operands hold factorials. -/
theorem rightBound_le {op : BinaryOp} (h : (Operator.binary op).awaits = true) :
    Tree.rightBound op ≤ 48 := by
  cases op <;> first | decide | cases h

/-- What comes after the right operand of an operator lets it go. -/
theorem yieldsTo_of_lt_rightBound {op : BinaryOp} {next : Operator}
    (h : next.precedence < Tree.rightBound op) : yieldsTo next (.binary op) = true := by
  by_cases hpow : op = .pow
  · subst hpow
    exact yieldsTo_of_lt (by decide) h
  · have hgroups : (Operator.binary op).groupsRight = false := by
      cases op <;> first | rfl | exact absurd rfl hpow
    rw [rightBound_of_ne_pow hpow, rank_eq_precedence] at h
    exact yieldsTo_of_le (by simp) hgroups (by omega)

end DeskCalculator
