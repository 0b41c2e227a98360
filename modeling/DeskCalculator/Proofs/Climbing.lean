import DeskCalculator.Proofs.Commas
import DeskCalculator.Proofs.Pending

/-!
# Two stacks and precedence climbing

The stacks of a builder and precedence climbing come to the same tree. This file fixes

* `Regular` -- a state from which a text with commas in their places is read to the end;
* `Passes` -- reading gets past a tree and leaves it pending;
* `operandWay`, `climbWay`, `extendWay` -- where climbing finds a tree, reading gets past it. The
  three go together, by induction on the number of tokens (`ways`).

Main statement: **a value is the value of the tree that climbing finds** (`value_eq_tree_value`).
-/

namespace DeskCalculator

open Builder

/-! ## 1. Regular states -/

/-- The text is read to the end from here, and its commas stand where they are due. -/
structure Regular (halt : Cursor) (frames : List Frame) (a : Awaiting) (ls : List Lexeme) :
    Prop where
  ends : Reader.Ends halt ⟨.chain, frames, a⟩ ls
  proper : ∀ l ∈ ls, l.Proper
  chain : (ls.map Lexeme.token).IsChain fun t u => t.isName = true → u.isName = false
  commas : ∃ groups, separates 0 groups (closedTokens ls) = true ∧
    Covers (commasDue frames) groups

namespace Regular

variable {halt : Cursor} {frames frames' : List Frame} {a a' : Awaiting} {l l' : Lexeme}
  {ls : List Lexeme} {is : List Instruction} {n : Nat}

/-- A regular state comes after another one if its commas stand where they are due. -/
theorem of_reaches (h : Regular halt frames a (l :: ls))
    (hway : Reader.Reaches halt ⟨.chain, frames, a⟩ (l :: ls) is ⟨.chain, frames', a'⟩ ls)
    (hc : ∀ groups, separates 0 groups (l.token :: closedTokens ls) = true →
      Covers (commasDue frames) groups → ∃ groups', separates 0 groups' (closedTokens ls) = true ∧
        Covers (commasDue frames') groups') : Regular halt frames' a' ls where
  ends := by
    obtain ⟨stop, hstop, hend⟩ := h.ends
    exact ⟨stop, hway.stop_eq ▸ hstop, hend⟩
  proper l hl := h.proper l (List.mem_cons_of_mem _ hl)
  chain := h.chain.tail
  commas := by
    obtain ⟨groups, hs, hcov⟩ := h.commas
    exact hc groups hs hcov

/-- A token that has nothing to do with groups. -/
theorem of_plain (h : Regular halt frames a (l :: ls))
    (hway : Reader.Reaches halt ⟨.chain, frames, a⟩ (l :: ls) is ⟨.chain, frames', a'⟩ ls)
    (hl : ∀ groups, separates 0 groups (l.token :: closedTokens ls) =
      separates 0 groups (closedTokens ls))
    (hf : commasDue frames' = commasDue frames) : Regular halt frames' a' ls := by
  refine h.of_reaches hway fun groups hs hcov => ⟨groups, ?_, ?_⟩
  · rwa [← hl]
  · rwa [hf]

/-- The same text in a state on the way. -/
theorem of_reaches_self (h : Regular halt frames a ls)
    (hway : Reader.Reaches halt ⟨.chain, frames, a⟩ ls is ⟨.chain, frames', a'⟩ ls)
    (hf : commasDue frames' = commasDue frames) : Regular halt frames' a' ls where
  ends := by
    obtain ⟨stop, hstop, hend⟩ := h.ends
    exact ⟨stop, hway.stop_eq ▸ hstop, hend⟩
  proper := h.proper
  chain := h.chain
  commas := by
    rw [hf]
    exact h.commas

/-- **No comma is idle.** -/
theorem not_comma (h : Regular halt frames .operand (l :: ls)) : l.token ≠ .mark .comma := by
  intro hl
  obtain ⟨groups, hs, hcov⟩ := h.commas
  rw [closedTokens_cons, hl] at hs
  match groups, hs with
  | (m + 1) :: groups, hs =>
    have hs : separates 0 (m :: groups) (closedTokens ls) = true := hs
    obtain ⟨stop, hstop, hend⟩ := h.ends
    have hends : Reader.Ends halt ⟨.chain, frames, .operand⟩ ls :=
      ⟨stop, (Reader.reaches_comma hl).stop_eq ▸ hstop, hend⟩
    have hdue := commasDue_le hends (fun l hl => h.proper l (List.mem_cons_of_mem _ hl)) hs 0
    have hcov := hcov 0
    simp only [List.getD_cons_zero] at hdue hcov
    omega

/-- What follows a name is none. -/
theorem not_isName (h : Regular halt frames a (l :: ls)) (hl : l.token.isName = true) :
    ∀ l' ∈ ls.head?, l'.token.isName = false := by
  intro l' hl'
  cases ls with
  | nil => cases hl'
  | cons l'' ls =>
    cases hl'
    exact (List.isChain_cons_cons.1 h.chain).1 hl

/-- Where no operator comes, a chain ends. -/
theorem endsChain (h : Regular halt frames .operator ls)
    (hi : incoming? (closedTokens ls) = none) : ∀ l ∈ ls.head?, l.token.EndsChain := by
  intro l hl
  cases ls with
  | nil => cases hl
  | cons l' ls =>
    cases hl
    have hl := h.proper l List.mem_cons_self
    obtain ⟨r', hnext, -⟩ := h.ends.exists_next hl
    rw [closedTokens_cons] at hi
    have hjoin : l.token ≠ .mark .bang → Tree.join? (l.token :: closedTokens ls) = none := by
      intro hne
      unfold incoming? at hi
      split at hi
      · next h => exact absurd (List.cons.inj h).1 hne
      · exact Option.map_eq_none_iff.1 hi
    cases ht : l.token with
    | number lexeme =>
      rw [ht] at hjoin
      exact absurd (hjoin (by simp)) (by simp [Tree.join?, Tree.between?, Tree.startsFactor])
    | name name =>
      rw [ht] at hjoin
      exact absurd (hjoin (by simp)) (by simp [Tree.join?, Tree.between?, Tree.startsFactor])
    | foreign c =>
      simp only [Reader.turn, Reader.operatorTurn, Reader.impliedTurn, Reader.operandTurn, ht]
        at hnext
      cases hnext
    | mark m =>
      rw [ht] at hjoin hi
      refine ⟨m, rfl, ?_, ?_, ?_⟩
      · cases m <;> first | rfl | cases hi
      · cases m <;> first | rfl | cases hi
      · intro he
        subst he
        cases hi

/-- Where no operator comes, a mark closes. -/
theorem exists_closingTurn (h : Regular halt frames .operator (l :: ls))
    (hi : incoming? (closedTokens (l :: ls)) = none) :
    ∃ m r', l.token = .mark m ∧
      (Reader.closingTurn ⟨.chain, frames, .operator⟩ l m).move = .next r' := by
  obtain ⟨m, hl, ha, hb, hp⟩ := h.endsChain hi l rfl
  obtain ⟨r', hnext, -⟩ := h.ends.exists_next (h.proper l List.mem_cons_self)
  rw [Reader.turn, Reader.operatorTurn_of_endsChain hl ha hb hp] at hnext
  exact ⟨m, r', hl, hnext⟩

/-- **A group ends with what it needs.** -/
theorem exists_closing (h : Regular halt (.group n :: frames) .operator ls)
    (hi : incoming? (closedTokens ls) = none) :
    ∃ l ls', ls = l :: ls' ∧ l.token = .mark (if n = 0 then .rightParen else .comma) := by
  cases ls with
  | nil =>
    obtain ⟨stop, hstop, -⟩ := h.ends
    cases hstop
  | cons l ls =>
    obtain ⟨m, r', hl, hnext⟩ := h.exists_closingTurn hi
    refine ⟨l, ls, rfl, ?_⟩
    rw [hl]
    cases n with
    | zero =>
      by_cases hm : m = .rightParen
      · rw [hm, if_pos rfl]
      · simp only [Reader.closingTurn, Reader.closeChain, hm, if_false] at hnext
        cases hnext
    | succ n =>
      by_cases hm : m = .comma
      · rw [hm, if_neg (Nat.succ_ne_zero n)]
      · simp only [Reader.closingTurn, Reader.closeChain, hm, if_false] at hnext
        cases hnext

/-- After the parenthesis that ends a group. -/
theorem after_rightParen (h : Regular halt (.group 0 :: frames) .operator (l :: ls))
    (hl : l.token = .mark .rightParen) : Regular halt frames .operator ls := by
  refine h.of_reaches (Reader.reaches_rightParen hl) fun groups hs hcov => ?_
  rw [hl] at hs
  refine ⟨groups.tail, hs, fun i => ?_⟩
  have := hcov (i + 1)
  rw [commasDue, List.getD_cons_succ] at this
  simpa using this

/-- After the comma between two arguments. -/
theorem after_separator (h : Regular halt (.group (n + 1) :: frames) .operator (l :: ls))
    (hl : l.token = .mark .comma) : Regular halt (.group n :: frames) .operand ls := by
  refine h.of_reaches (Reader.reaches_separator hl) fun groups hs hcov => ?_
  rw [hl] at hs
  match groups, hs with
  | (m + 1) :: groups, hs =>
    refine ⟨m :: groups, hs, ?_⟩
    obtain ⟨hle, hcov⟩ := covers_cons_iff.1 hcov
    exact covers_cons_iff.2 ⟨Nat.le_of_succ_le_succ hle, hcov⟩

/-- Inside a group. -/
theorem after_leftParen (h : Regular halt frames .operand (l :: ls))
    (hl : l.token = .mark .leftParen) : Regular halt (.group 0 :: frames) .operand ls := by
  refine h.of_reaches (Reader.reaches_leftParen hl) fun groups hs hcov => ?_
  rw [hl] at hs
  exact ⟨0 :: groups, hs, covers_cons_iff.2 ⟨Nat.le_refl 0, hcov⟩⟩

/-- Inside the arguments of a function of two arguments. -/
theorem after_pair {name : String} {f : Function}
    (h : Regular halt frames .operand (l :: l' :: ls)) (hl : l.token = .name name)
    (hf : Function.ofName? name = some f) (ha : f.arity = 2) (hl' : l'.token = .mark .leftParen) :
    Regular halt (.group 1 :: frames) .operand ls where
  ends := by
    obtain ⟨stop, hstop, hend⟩ := h.ends
    exact ⟨stop, (Reader.reaches_pair hl hf ha hl').stop_eq ▸ hstop, hend⟩
  proper l hl := h.proper l (List.mem_cons_of_mem _ (List.mem_cons_of_mem _ hl))
  chain := h.chain.tail.tail
  commas := by
    obtain ⟨groups, hs, hcov⟩ := h.commas
    rw [closedTokens_cons, closedTokens_cons, hl, hl'] at hs
    have hs : separates 0 (commasBetween name :: groups) (closedTokens ls) = true := hs
    rw [commasBetween_of_some hf, ha] at hs
    exact ⟨1 :: groups, hs, covers_cons_iff.2 ⟨Nat.le_refl 1, hcov⟩⟩

/-- Inside the value of an assignment. -/
theorem after_assign {name : String} (h : Regular halt frames .operand (l :: l' :: ls))
    (hl : l.token = .name name) (hf : Function.ofName? name = none)
    (hl' : l'.token = .mark .equals) : Regular halt (.binding name :: frames) .operand ls where
  ends := by
    obtain ⟨stop, hstop, hend⟩ := h.ends
    exact ⟨stop, (Reader.reaches_assign hl hf hl').stop_eq ▸ hstop, hend⟩
  proper l hl := h.proper l (List.mem_cons_of_mem _ (List.mem_cons_of_mem _ hl))
  chain := h.chain.tail.tail
  commas := by
    obtain ⟨groups, hs, hcov⟩ := h.commas
    rw [closedTokens_cons, closedTokens_cons, hl, hl'] at hs
    exact ⟨groups, hs, hcov⟩

end Regular

/-! ## 2. Getting past a tree -/

/-- Reading goes on from `b₀` past a tree `t`, which is pending over `b` then. -/
def Passes (halt : Cursor) (frames : List Frame) (a : Awaiting) (ls : List Lexeme)
    (b₀ b : Builder) (t : Tree) (ls' : List Lexeme) : Prop :=
  ∃ is b' pend, Reader.Reaches halt ⟨.chain, frames, a⟩ ls is ⟨.chain, frames, .operator⟩ ls' ∧
    run is b₀ = .ok b' ∧ Pending b t b' pend (closedTokens ls') ∧
    Regular halt frames .operator ls'

/-- A function of one argument on top does not take a further name. -/
def Ready (b : Builder) (ls : List Lexeme) : Prop :=
  ∀ top ∈ b.scope.head?, top.awaits = true ∧
    (top.isCall = true → ∀ l ∈ ls.head?, l.token.isName = false)

/-- No operator that binds as tightly as `bound` comes next. -/
def Stops (bound : Nat) (ls : List Lexeme) : Prop :=
  ∀ op, incoming? (closedTokens ls) = some op → op.precedence < bound

/-- Climbing finds an operand, and reading gets past it. -/
def FindsOperand (halt : Cursor) (frames : List Frame) (ls : List Lexeme) (b : Builder) : Prop :=
  ∃ t ls', Tree.operand (closedTokens ls) = some (t, closedTokens ls') ∧
    Passes halt frames .operand ls b b t ls' ∧ ls'.length < ls.length

/-- Where an operand comes, climbing finds one and reading gets past it. -/
def OperandWay (halt : Cursor) (ls : List Lexeme) : Prop :=
  ∀ frames b, Regular halt frames .operand ls → Ready b ls → FindsOperand halt frames ls b

/-- Where an operand comes, climbing finds a tree and reading gets past it. -/
def ClimbWay (halt : Cursor) (ls : List Lexeme) : Prop :=
  ∀ bound frames b, bound ≤ 48 → Regular halt frames .operand ls → Ready b ls → Guards bound b →
    ∃ t ls', Tree.climb bound (closedTokens ls) = some (t, closedTokens ls') ∧
      Passes halt frames .operand ls b b t ls' ∧ ls'.length < ls.length ∧ Stops bound ls'

/-- After a tree that is pending, climbing goes on with it and reading gets past what it takes
    in. -/
def ExtendWay (halt : Cursor) (ls : List Lexeme) : Prop :=
  ∀ bound frames b b₀ left pend, bound ≤ 48 → Regular halt frames .operator ls →
    Pending b left b₀ pend (closedTokens ls) → Guards bound b →
    ∃ t ls', Tree.extend bound left (closedTokens ls) = some (t, closedTokens ls') ∧
      Passes halt frames .operator ls b₀ b t ls' ∧ ls'.length ≤ ls.length ∧ Stops bound ls'

section Ways

variable {halt : Cursor} {frames frames' : List Frame} {a a' : Awaiting} {l : Lexeme}
  {ls ls' ls'' : List Lexeme} {is : List Instruction} {b b₀ b₁ : Builder} {t u : Tree}

/-- Reading that gets past a tree after some way. -/
theorem Passes.after (h : Passes halt frames a' ls' b₁ b t ls'')
    (hway : Reader.Reaches halt ⟨.chain, frames, a⟩ ls is ⟨.chain, frames, a'⟩ ls')
    (hrun : run is b₀ = .ok b₁) : Passes halt frames a ls b₀ b t ls'' := by
  obtain ⟨is', b', pend, hway', hrun', hp, hr⟩ := h
  refine ⟨is ++ is', b', pend, hway.trans hway', ?_, hp, hr⟩
  rw [run_append_of_ok hrun, hrun']

/-- An operator that waits for the tree. -/
theorem Passes.under {trees trees' : List Tree} {scope : List Operator}
    {outer : List (List Operator)} {op : Operator}
    (h : Passes halt frames a ls b₀ ⟨trees, op :: scope, outer⟩ t ls')
    (hop : applyOperator op (t :: trees) = .ok (u :: trees')) (hs : op ≠ .scope)
    (hy : ∀ next, incoming? (closedTokens ls') = some next → yieldsTo next op = true) :
    Passes halt frames a ls b₀ ⟨trees', scope, outer⟩ u ls' := by
  obtain ⟨is, b', pend, hway, hrun, hp, hr⟩ := h
  exact ⟨is, b', pend ++ [op], hway, hrun, hp.under hop hs hy, hr⟩

/-- A tree that is built. -/
theorem Passes.of_tree
    (hway : Reader.Reaches halt ⟨.chain, frames, a⟩ ls is ⟨.chain, frames, .operator⟩ ls')
    (hrun : run is b₀ = .ok { b with trees := t :: b.trees })
    (hr : Regular halt frames .operator ls') : Passes halt frames a ls b₀ b t ls' :=
  ⟨is, _, [], hway, hrun, .of_tree b t _, hr⟩

/-- A tree at the end of a scope of its own. -/
theorem Passes.settled {trees : List Tree} {outer : List (List Operator)}
    (h : Passes halt frames a ls b₀ ⟨trees, [], outer⟩ t ls') :
    Regular halt frames .operator ls' ∧
      ∃ is, Reader.Reaches halt ⟨.chain, frames, a⟩ ls is ⟨.chain, frames, .operator⟩ ls' ∧
        run (is ++ [.settle]) b₀ = .ok ⟨t :: trees, [], outer⟩ := by
  obtain ⟨is, b', pend, hway, hrun, hp, hr⟩ := h
  refine ⟨hr, is, hway, ?_⟩
  rw [run_append_of_ok hrun]
  exact run_cons_of_ok (hp.step_settle rfl) []

theorem Stops.incoming?_eq_none (h : Stops 0 ls) : incoming? (closedTokens ls) = none := by
  cases hi : incoming? (closedTokens ls) with
  | none => rfl
  | some op => exact absurd (h op hi) (Nat.not_lt_zero _)

theorem guards_nil (bound : Nat) (trees : List Tree) (outer : List (List Operator)) :
    Guards bound ⟨trees, [], outer⟩ := by
  intro op _ _ top htop
  cases htop

theorem ready_nil (trees : List Tree) (outer : List (List Operator)) (ls : List Lexeme) :
    Ready ⟨trees, [], outer⟩ ls := by
  intro top htop
  cases htop

theorem ready_cons {op : Operator} (trees : List Tree) (scope : List Operator)
    (outer : List (List Operator)) (ha : op.awaits = true)
    (hc : op.isCall = true → ∀ l ∈ ls.head?, l.token.isName = false) :
    Ready ⟨trees, op :: scope, outer⟩ ls := by
  intro top htop
  have htop : top = op := (Option.some.inj htop).symm
  rw [htop]
  exact ⟨ha, hc⟩

/-- An operator on top that awaits an operand and is no call. -/
theorem ready_of_awaits {op : Operator} {trees : List Tree} {scope : List Operator}
    {outer : List (List Operator)} (ha : op.awaits = true) (hc : op.isCall = false)
    (ls : List Lexeme) : Ready ⟨trees, op :: scope, outer⟩ ls :=
  ready_cons trees scope outer ha fun h => absurd (hc.symm.trans h) Bool.false_ne_true

/-! ## 3. After a tree -/

/-- Climbing stops where no operator comes that binds as tightly as the bound. -/
theorem extend_of_stops {bound : Nat} (hb : bound ≤ 48) (hs : Stops bound ls) (left : Tree) :
    Tree.extend bound left (closedTokens ls) = some (left, closedTokens ls) := by
  refine Tree.extend_of_lt ?_ ?_
  · intro hbang
    have hi : incoming? (closedTokens ls) = some (.unary .factorial) :=
      incoming?_of_head?_eq_bang hbang
    have hlt : 48 < bound := hs _ hi
    omega
  · intro op right hj
    rw [rank_eq_precedence]
    exact hs _ (incoming?_of_join? hj)

/-- **After an operand, climbing and reading come to the same right operand.** -/
theorem Regular.exists_right {op : BinaryOp}
    {right : { right : List Token // right.length ≤ (closedTokens ls).length }}
    (h : Regular halt frames .operator ls) (hj : Tree.join? (closedTokens ls) = some (op, right)) :
    ∃ ls', closedTokens ls' = right.1 ∧ ls'.length ≤ ls.length ∧
      Reader.Reaches halt ⟨.chain, frames, .operator⟩ ls [.operator (.binary op)]
        ⟨.chain, frames, .operand⟩ ls' ∧ Regular halt frames .operand ls' := by
  rcases exists_of_join? hj with ⟨m, rest, hts, hm, hright⟩ | ⟨t, rest, hts, ht, rfl, hright⟩
  · have hne : Token.mark m ≠ .mark .semicolon := by
      intro he
      cases he
      cases hm
    obtain ⟨l, ls', rfl, hl, hls'⟩ := closedTokens_eq_cons hts hne
    have hway : Reader.Reaches halt ⟨.chain, frames, .operator⟩ (l :: ls')
        [.operator (.binary op)] ⟨.chain, frames, .operand⟩ ls' := Reader.reaches_between hl hm
    refine ⟨ls', hls'.trans hright.symm, Nat.le_succ _, hway, h.of_plain hway ?_ rfl⟩
    intro groups
    rw [hl]
    cases m <;> first | rfl | cases hm
  · have hne : t ≠ .mark .semicolon := by
      intro he
      subst he
      rcases ht with ht | ht
      · cases ht
      · exact ht _ rfl
    obtain ⟨l, ls', rfl, hl, hls'⟩ := closedTokens_eq_cons hts hne
    rw [← hl] at ht
    have hway : Reader.Reaches halt ⟨.chain, frames, .operator⟩ (l :: ls')
        [.operator (.binary .mul)] ⟨.chain, frames, .operand⟩ (l :: ls') := Reader.reaches_factor ht
    exact ⟨l :: ls', hright.symm, Nat.le_refl _, hway, h.of_reaches_self hway rfl⟩

/-- Climbing takes an operand and goes on with it. -/
theorem climbWay (hO : OperandWay halt ls)
    (hE : ∀ ls', ls'.length < ls.length → ExtendWay halt ls') : ClimbWay halt ls := by
  intro bound frames b hb hr hready hguard
  obtain ⟨t, ls₁, hop, ⟨is, b', pend, hway, hrun, hp, hr₁⟩, hlt⟩ := hO frames b hr hready
  obtain ⟨u, ls₂, hext, hpass, hle, hstop⟩ := hE ls₁ hlt bound frames b b' t pend hb hr₁ hp hguard
  refine ⟨u, ls₂, ?_, hpass.after hway hrun, Nat.lt_of_le_of_lt hle hlt, hstop⟩
  rw [Tree.climb_of_operand hop]
  exact hext

/-- A factorial takes in the tree before it. -/
theorem extendWay_bang {bound : Nat} {left : Tree} {pend : List Operator} (hb : bound ≤ 48)
    (hl : l.token = .mark .bang) (hr : Regular halt frames .operator (l :: ls))
    (hp : Pending b left b₀ pend (closedTokens (l :: ls))) (hguard : Guards bound b)
    (hE : ExtendWay halt ls) :
    ∃ t ls', Tree.extend bound left (closedTokens (l :: ls)) = some (t, closedTokens ls') ∧
      Passes halt frames .operator (l :: ls) b₀ b t ls' ∧ ls'.length ≤ (l :: ls).length ∧
      Stops bound ls' := by
  have hi : incoming? (closedTokens (l :: ls)) = some (.unary .factorial) := by
    rw [closedTokens_cons, hl]
    rfl
  have hway : Reader.Reaches halt ⟨.chain, frames, .operator⟩ (l :: ls)
      [.operator (.unary .factorial)] ⟨.chain, frames, .operator⟩ ls := Reader.reaches_bang hl
  have hstep := hp.step_operator hi (hguard _ hb (Nat.le_refl 48))
  have hr' : Regular halt frames .operator ls := by
    refine hr.of_plain hway ?_ rfl
    intro groups
    rw [hl]
    rfl
  have hp' : Pending b (.unary .factorial left)
      ⟨left :: b.trees, .unary .factorial :: b.scope, b.outer⟩ [.unary .factorial]
      (closedTokens ls) := by
    refine (Pending.of_tree ⟨b.trees, .unary .factorial :: b.scope, b.outer⟩ left _).under rfl
      (by simp) ?_
    intro next hnext
    exact yieldsTo_of_le (by simp) rfl (precedence_of_incoming? hnext)
  obtain ⟨t, ls', hext, hpass, hle, hstop⟩ := hE bound frames b _ _ _ hb hr' hp' hguard
  refine ⟨t, ls', ?_, hpass.after hway (run_cons_of_ok hstep []), Nat.le_succ_of_le hle, hstop⟩
  rw [closedTokens_cons, hl, Tree.extend_bang hb]
  exact hext

/-- An operator between two operands takes in the tree before it and what climbing finds after
    it. -/
theorem extendWay_join {bound : Nat} {left : Tree} {pend : List Operator} {op : BinaryOp}
    {right : { right : List Token // right.length ≤ (closedTokens ls).length }}
    (hj : Tree.join? (closedTokens ls) = some (op, right)) (hb : bound ≤ 48)
    (hle : bound ≤ Tree.rank op) (hr : Regular halt frames .operator ls)
    (hp : Pending b left b₀ pend (closedTokens ls)) (hguard : Guards bound b)
    (hC : ∀ ls', ls'.length ≤ ls.length → ClimbWay halt ls')
    (hE : ∀ ls', ls'.length < ls.length → ExtendWay halt ls') :
    ∃ t ls', Tree.extend bound left (closedTokens ls) = some (t, closedTokens ls') ∧
      Passes halt frames .operator ls b₀ b t ls' ∧ ls'.length ≤ ls.length ∧ Stops bound ls' := by
  have hi := incoming?_of_join? hj
  have hprec := precedence_of_incoming? hi
  have hawaits := awaits_of_join? hj
  have hstep := hp.step_operator hi (hguard _ (rank_eq_precedence op ▸ hle) hprec)
  obtain ⟨ls₁, hright, hlen₁, hway₁, hr₁⟩ := hr.exists_right hj
  have hright48 : Tree.rightBound op ≤ 48 := rightBound_le hawaits
  -- the right operand, over the operator
  obtain ⟨u, ls₂, hclimb, hpass, hlen₂, hstop₂⟩ :=
    hC ls₁ hlen₁ (Tree.rightBound op) frames _ hright48 hr₁ (ready_of_awaits hawaits rfl ls₁)
      (guards_rightBound op (left :: b.trees) b.scope b.outer)
  have hunder : Passes halt frames .operand ls₁
      ⟨left :: b.trees, .binary op :: b.scope, b.outer⟩ b (.binary op left u) ls₂ := by
    refine hpass.under rfl (by simp) ?_
    intro next hnext
    exact yieldsTo_of_lt_rightBound (hstop₂ next hnext)
  obtain ⟨is₂, b₂, pend₂, hway₂, hrun₂, hp₂, hr₂⟩ := hunder
  -- what follows both operands
  have hlt : ls₂.length < ls.length := Nat.lt_of_lt_of_le hlen₂ hlen₁
  obtain ⟨t, ls₃, hext, hpass₃, hlen₃, hstop₃⟩ := hE ls₂ hlt bound frames b _ _ _ hb hr₂ hp₂ hguard
  refine ⟨t, ls₃, ?_, (hpass₃.after hway₂ hrun₂).after hway₁ (run_cons_of_ok hstep []),
    hlen₃.trans (Nat.le_of_lt hlt), hstop₃⟩
  rw [hright] at hclimb
  rw [Tree.extend_join hj hle hclimb]
  exact hext

/-- **After a tree, climbing and reading take in the same.** -/
theorem extendWay (hC : ∀ ls', ls'.length ≤ ls.length → ClimbWay halt ls')
    (hE : ∀ ls', ls'.length < ls.length → ExtendWay halt ls') : ExtendWay halt ls := by
  intro bound frames b b₀ left pend hb hr hp hguard
  by_cases hstop : Stops bound ls
  · exact ⟨left, ls, extend_of_stops hb hstop left,
      ⟨[], b₀, pend, .refl _ _ _, rfl, hp, hr⟩, Nat.le_refl _, hstop⟩
  · obtain ⟨op, hi, hle⟩ : ∃ op, incoming? (closedTokens ls) = some op ∧ bound ≤ op.precedence := by
      simpa [Stops] using hstop
    rcases exists_of_incoming? hi with ⟨rfl, rest, hts⟩ | ⟨f, right, rfl, hj⟩
    · obtain ⟨l, ls', rfl, hl, -⟩ := closedTokens_eq_cons hts (by simp)
      exact extendWay_bang hb hl hr hp hguard (hE ls' (Nat.lt_succ_self _))
    · rw [← rank_eq_precedence] at hle
      exact extendWay_join hj hb hle hr hp hguard hC hE

/-! ## 4. Operands -/

/-- Climbing finds the tree of a scope of its own, and no operator follows it. -/
theorem ClimbWay.settled (h : ClimbWay halt ls) (hr : Regular halt frames .operand ls)
    (trees : List Tree) (outer : List (List Operator)) :
    ∃ t ls' is, Tree.climb 0 (closedTokens ls) = some (t, closedTokens ls') ∧
      Reader.Reaches halt ⟨.chain, frames, .operand⟩ ls is ⟨.chain, frames, .operator⟩ ls' ∧
      run (is ++ [.settle]) ⟨trees, [], outer⟩ = .ok ⟨t :: trees, [], outer⟩ ∧
      Regular halt frames .operator ls' ∧ incoming? (closedTokens ls') = none ∧
      ls'.length < ls.length := by
  obtain ⟨t, ls', hclimb, hpass, hlt, hstop⟩ :=
    h 0 frames ⟨trees, [], outer⟩ (Nat.zero_le _) hr (ready_nil trees outer ls)
      (guards_nil 0 trees outer)
  obtain ⟨hr', is, hway, hrun⟩ := hpass.settled
  exact ⟨t, ls', is, hclimb, hway, hrun, hr', hstop.incoming?_eq_none, hlt⟩

/-- **A group ends where climbing finds its tree to end.** -/
theorem ClimbWay.closed (h : ClimbWay halt ls) (hr : Regular halt (.group 0 :: frames) .operand ls)
    (trees : List Tree) (scope : List Operator) (outer : List (List Operator)) :
    ∃ t ls' is, Tree.climb 0 (closedTokens ls) =
        some (t, .mark .rightParen :: closedTokens ls') ∧
      Reader.Reaches halt ⟨.chain, .group 0 :: frames, .operand⟩ ls is
        ⟨.chain, frames, .operator⟩ ls' ∧
      run is ⟨trees, [], scope :: outer⟩ = .ok ⟨t :: trees, scope, outer⟩ ∧
      Regular halt frames .operator ls' ∧ ls'.length < ls.length := by
  obtain ⟨t, ls₁, is, hclimb, hway, hrun, hr₁, hi, hlt⟩ := h.settled hr trees (scope :: outer)
  obtain ⟨l, ls', rfl, hl⟩ := hr₁.exists_closing hi
  have hl : l.token = .mark .rightParen := hl
  refine ⟨t, ls', is ++ [.settle, .closeScope], ?_, hway.trans (Reader.reaches_rightParen hl), ?_,
    hr₁.after_rightParen hl, Nat.lt_of_succ_lt hlt⟩
  · rw [hclimb, closedTokens_cons, hl]
  · have hsplit : is ++ [.settle, .closeScope] = (is ++ [.settle]) ++ [.closeScope] := by
      rw [List.append_assoc]
      rfl
    rw [hsplit, run_append_of_ok hrun]
    rfl

theorem findsOperand_number {lexeme : String} {n : Number.Numeral} (hl : l.token = .number lexeme)
    (hn : Number.Numeral.ofText? lexeme.toList = some n)
    (hr : Regular halt frames .operand (l :: ls)) : FindsOperand halt frames (l :: ls) b := by
  have hway : Reader.Reaches halt ⟨.chain, frames, .operand⟩ (l :: ls) [.literal n.value]
      ⟨.chain, frames, .operator⟩ ls := Reader.reaches_number hl hn
  have hr' : Regular halt frames .operator ls := by
    refine hr.of_plain hway ?_ rfl
    intro groups
    rw [hl]
    rfl
  refine ⟨.literal n.value, ls, ?_, .of_tree hway rfl hr', Nat.lt_succ_self _⟩
  rw [closedTokens_cons, hl]
  exact Tree.operand_number hn

/-- A minus takes what binds more tightly than itself, and no more. -/
theorem findsOperand_minus (hl : l.token = .mark .minus)
    (hr : Regular halt frames .operand (l :: ls)) (hC : ClimbWay halt ls) :
    FindsOperand halt frames (l :: ls) b := by
  have hway : Reader.Reaches halt ⟨.chain, frames, .operand⟩ (l :: ls) [.hold (.unary .negate)]
      ⟨.chain, frames, .operand⟩ ls := Reader.reaches_minus hl
  have hr' : Regular halt frames .operand ls := by
    refine hr.of_plain hway ?_ rfl
    intro groups
    rw [hl]
    rfl
  have hguard : Guards Tree.negationBound (b.push (.unary .negate)) :=
    guards_cons b.trees b.scope b.outer fun next hle => not_yieldsTo_of_lt hle
  obtain ⟨t, ls', hclimb, hpass, hlt, hstop⟩ :=
    hC Tree.negationBound frames (b.push (.unary .negate)) (by decide) hr'
      (ready_of_awaits rfl rfl ls) hguard
  have hunder : Passes halt frames .operand ls (b.push (.unary .negate)) b (.unary .negate t)
      ls' := by
    refine hpass.under rfl (by simp) ?_
    intro next hnext
    exact yieldsTo_of_le (by simp) rfl (Nat.le_of_lt_succ (hstop next hnext))
  refine ⟨.unary .negate t, ls', ?_, hunder.after hway rfl, Nat.lt_succ_of_lt hlt⟩
  rw [closedTokens_cons, hl]
  exact Tree.operand_minus hclimb

theorem findsOperand_leftParen (hl : l.token = .mark .leftParen)
    (hr : Regular halt frames .operand (l :: ls)) (hC : ClimbWay halt ls) :
    FindsOperand halt frames (l :: ls) b := by
  obtain ⟨t, ls', is, hclimb, hway, hrun, hr', hlt⟩ :=
    hC.closed (hr.after_leftParen hl) b.trees b.scope b.outer
  refine ⟨t, ls', ?_, .of_tree ((Reader.reaches_leftParen hl).trans hway) hrun hr',
    Nat.lt_succ_of_lt hlt⟩
  rw [closedTokens_cons, hl]
  exact Tree.operand_leftParen hclimb

/-- A function is stacked where an operand comes, and reduces nothing. -/
theorem Ready.step_function {name : String} (h : Ready b (l :: ls)) (hl : l.token = .name name)
    (f : Function) : step (.operator f.operator) b = .ok (b.push f.operator) := by
  refine step_operator_of_head? ?_
  intro top htop
  obtain ⟨hawaits, hcall⟩ := h top htop
  rw [Operator.yieldsTo_function_iff hawaits]
  cases hc : top.isCall with
  | false => rfl
  | true =>
    have hname : l.token.isName = false := hcall hc l rfl
    rw [hl] at hname
    cases hname

/-- What comes after an operand lets a function go. -/
theorem yieldsTo_operator_of_incoming? {ts : List Token} {next : Operator} (f : Function)
    (h : incoming? ts = some next) : yieldsTo next f.operator = true := by
  refine yieldsTo_of_lt ?_ ?_
  · cases f <;> simp [Function.operator]
  · rw [Operator.precedence_function]
    exact Nat.lt_of_le_of_lt (precedence_of_incoming? h) (by decide)

/-- A function of one argument takes the operand after it. -/
theorem findsOperand_call {name : String} {f : Function} (hl : l.token = .name name)
    (hf : Function.ofName? name = some f) (ha : f.arity = 1)
    (hr : Regular halt frames .operand (l :: ls)) (hready : Ready b (l :: ls))
    (hO : OperandWay halt ls) : FindsOperand halt frames (l :: ls) b := by
  obtain ⟨g, hg, -, hawaits⟩ := Function.exists_unary ha
  have hway : Reader.Reaches halt ⟨.chain, frames, .operand⟩ (l :: ls) [.operator f.operator]
      ⟨.chain, frames, .operand⟩ ls := Reader.reaches_call hl hf ha
  have hr' : Regular halt frames .operand ls := by
    refine hr.of_plain hway ?_ rfl
    intro groups
    rw [hl]
    show separates (commasBetween name) groups _ = _
    rw [commasBetween_of_some hf, ha]
  have hready' : Ready (b.push f.operator) ls := by
    refine ready_cons b.trees b.scope b.outer hawaits ?_
    intro _
    exact hr.not_isName (by rw [hl]; rfl)
  obtain ⟨t, ls', hop, hpass, hlt⟩ := hO frames (b.push f.operator) hr' hready'
  have happly : applyOperator f.operator (t :: b.trees) = .ok (.unary g t :: b.trees) := by
    rw [hg]
    rfl
  have hunder : Passes halt frames .operand ls (b.push f.operator) b (.unary g t) ls' :=
    hpass.under happly (Operator.ne_scope_of_awaits hawaits)
      fun _ hnext => yieldsTo_operator_of_incoming? f hnext
  have hrun := run_cons_of_ok (hready.step_function hl f) []
  refine ⟨.unary g t, ls', ?_, hunder.after hway hrun, Nat.lt_succ_of_lt hlt⟩
  rw [closedTokens_cons, hl]
  exact Tree.operand_unary hf hg hop

/-- A function of two arguments takes the two trees in its group. -/
theorem findsOperand_pair {name : String} {f : Function} {l' : Lexeme} (hl : l.token = .name name)
    (hf : Function.ofName? name = some f) (ha : f.arity = 2) (hl' : l'.token = .mark .leftParen)
    (hr : Regular halt frames .operand (l :: l' :: ls)) (hready : Ready b (l :: l' :: ls))
    (hC : ∀ ls', ls'.length ≤ ls.length → ClimbWay halt ls') :
    FindsOperand halt frames (l :: l' :: ls) b := by
  obtain ⟨-, g, hg⟩ := Function.exists_binary (f := f) (by omega)
  -- the two arguments, in a scope over the function
  obtain ⟨t, ls₁, is, hclimb, hway, hrun, hr₁, hi, hlt⟩ :=
    (hC ls (Nat.le_refl _)).settled (hr.after_pair hl hf ha hl') b.trees
      ((f.operator :: b.scope) :: b.outer)
  obtain ⟨l₁, ls₂, rfl, hl₁⟩ := hr₁.exists_closing hi
  have hl₁ : l₁.token = .mark .comma := hl₁
  have hlt₂ : ls₂.length < ls.length := Nat.lt_of_succ_lt hlt
  obtain ⟨u, ls₃, is', hclimb', hway', hrun', hr₃, hlt₃⟩ :=
    (hC ls₂ (Nat.le_of_lt hlt₂)).closed (hr₁.after_separator hl₁) (t :: b.trees)
      (f.operator :: b.scope) b.outer
  have hall : Reader.Reaches halt ⟨.chain, frames, .operand⟩ (l :: l' :: ls)
      ([.operator f.operator, .openScope] ++ ((is ++ [.settle]) ++ is')) ⟨.chain, frames, .operator⟩
      ls₃ :=
    (Reader.reaches_pair hl hf ha hl').trans
      ((hway.trans (Reader.reaches_separator hl₁)).trans hway')
  have hrunall : run ([.operator f.operator, .openScope] ++ ((is ++ [.settle]) ++ is')) b =
      .ok ⟨u :: t :: b.trees, f.operator :: b.scope, b.outer⟩ := by
    rw [List.cons_append, run_cons_of_ok (hready.step_function hl f)]
    show run ((is ++ [.settle]) ++ is') ⟨b.trees, [], (f.operator :: b.scope) :: b.outer⟩ = _
    rw [run_append_of_ok hrun, hrun']
  have hpass : Passes halt frames .operand (l :: l' :: ls) b
      ⟨t :: b.trees, f.operator :: b.scope, b.outer⟩ u ls₃ := .of_tree hall hrunall hr₃
  have hpass' : Passes halt frames .operand (l :: l' :: ls) b b (.binary g t u) ls₃ := by
    refine hpass.under ?_ ?_ fun _ hnext => yieldsTo_operator_of_incoming? f hnext
    · rw [hg]
      rfl
    · rw [hg]
      simp
  refine ⟨.binary g t u, ls₃, ?_, hpass', ?_⟩
  · rw [closedTokens_cons, closedTokens_cons, hl, hl']
    rw [closedTokens_cons, hl₁] at hclimb
    exact Tree.operand_binary hf hg hclimb hclimb'
  · simp only [List.length_cons]
    omega

/-- An assignment takes all that its chain holds. -/
theorem findsOperand_assign {name : String} {l' : Lexeme} (hl : l.token = .name name)
    (hf : Function.ofName? name = none) (hl' : l'.token = .mark .equals)
    (hr : Regular halt frames .operand (l :: l' :: ls)) (hC : ClimbWay halt ls) :
    FindsOperand halt frames (l :: l' :: ls) b := by
  obtain ⟨t, ls', is, hclimb, hway, hrun, hr', hi, hlt⟩ :=
    hC.settled (hr.after_assign hl hf hl') b.trees (b.scope :: b.outer)
  have hbind : Reader.Reaches halt ⟨.chain, .binding name :: frames, .operator⟩ ls'
      [.settle, .closeScope, .assign name] ⟨.chain, frames, .operator⟩ ls' :=
    Reader.reaches_bind (hr'.endsChain hi)
  have hall := (Reader.reaches_assign hl hf hl').trans (hway.trans hbind)
  have hrunall : run ([.openScope] ++ (is ++ [.settle, .closeScope, .assign name])) b =
      .ok { b with trees := .assign name t :: b.trees } := by
    have hsplit : is ++ [.settle, .closeScope, .assign name] =
        (is ++ [.settle]) ++ [.closeScope, .assign name] := by
      rw [List.append_assoc]
      rfl
    rw [hsplit]
    show run ((is ++ [.settle]) ++ _) ⟨b.trees, [], b.scope :: b.outer⟩ = _
    rw [run_append_of_ok hrun]
    rfl
  refine ⟨.assign name t, ls', ?_, .of_tree hall hrunall (hr'.of_reaches_self hbind rfl), ?_⟩
  · rw [closedTokens_cons, closedTokens_cons, hl, hl']
    exact Tree.operand_assign hf hclimb
  · simp only [List.length_cons]
    omega

theorem findsOperand_name {name : String} (hl : l.token = .name name)
    (hf : Function.ofName? name = none) (he : ∀ l' ∈ ls.head?, l'.token ≠ .mark .equals)
    (hr : Regular halt frames .operand (l :: ls)) : FindsOperand halt frames (l :: ls) b := by
  have hway : Reader.Reaches halt ⟨.chain, frames, .operand⟩ (l :: ls)
      [.read name l.start.position] ⟨.chain, frames, .operator⟩ ls := Reader.reaches_name hl hf he
  have hr' : Regular halt frames .operator ls := by
    refine hr.of_plain hway ?_ rfl
    intro groups
    rw [hl]
    show separates (commasBetween name) groups _ = _
    rw [commasBetween_of_none hf]
  have hhead : (closedTokens ls).head? ≠ some (.mark .equals) := by
    cases ls with
    | nil => simp [closedTokens]
    | cons l' ls =>
      rw [closedTokens_cons]
      exact fun h => he l' rfl (Option.some.inj h)
  refine ⟨.read name, ls, ?_, .of_tree hway rfl hr', Nat.lt_succ_self _⟩
  rw [closedTokens_cons, hl]
  exact Tree.operand_read hf hhead

/-- A function of two arguments that is read to the end has its parenthesis. -/
theorem exists_leftParen {f : Function} (h : Reader.Ends halt ⟨.chain, frames, .arguments f⟩ ls)
    (hls : ∀ l ∈ ls, l.Proper) : ∃ l ls', ls = l :: ls' ∧ l.token = .mark .leftParen := by
  cases ls with
  | nil =>
    obtain ⟨stop, hstop, -⟩ := h
    cases hstop
  | cons l ls =>
    obtain ⟨r', hnext, -⟩ := h.exists_next (hls l List.mem_cons_self)
    refine ⟨l, ls, rfl, ?_⟩
    by_contra hl
    simp only [Reader.turn, Reader.argumentsTurn, hl, if_false] at hnext
    cases hnext

/-- A name where an operand comes. -/
theorem findsOperand_of_name {name : String} (hl : l.token = .name name)
    (hr : Regular halt frames .operand (l :: ls)) (hready : Ready b (l :: ls))
    (hO : OperandWay halt ls) (hC : ∀ ls', ls'.length < ls.length → ClimbWay halt ls') :
    FindsOperand halt frames (l :: ls) b := by
  cases hf : Function.ofName? name with
  | none =>
    by_cases he : ∀ l' ∈ ls.head?, l'.token ≠ .mark .equals
    · exact findsOperand_name hl hf he hr
    · cases ls with
      | nil => exact absurd (fun l' hl' => by cases hl') he
      | cons l' ls =>
        have hl' : l'.token = .mark .equals := by
          by_contra hne
          refine he ?_
          intro l'' hl''
          cases hl''
          exact hne
        exact findsOperand_assign hl hf hl' hr (hC ls (Nat.lt_succ_self _))
  | some f =>
    by_cases ha : f.arity = 1
    · exact findsOperand_call hl hf ha hr hready hO
    · obtain ⟨r', hnext, hends⟩ := hr.ends.exists_next (hr.proper l List.mem_cons_self)
      simp only [Reader.turn, Reader.operandTurn, hl, hf, ha, if_false, Reader.await,
        Move.next.injEq] at hnext
      subst hnext
      obtain ⟨l', ls', rfl, hl'⟩ :=
        exists_leftParen hends fun l' hl' => hr.proper l' (List.mem_cons_of_mem _ hl')
      exact findsOperand_pair hl hf (Function.exists_binary ha).1 hl' hr hready
        fun ls'' hlen => hC ls'' (Nat.lt_succ_of_le hlen)

/-- **Where an operand comes, climbing finds one and reading gets past it.** -/
theorem operandWay (hO : ∀ ls', ls'.length < ls.length → OperandWay halt ls')
    (hC : ∀ ls', ls'.length < ls.length → ClimbWay halt ls') : OperandWay halt ls := by
  intro frames b hr hready
  cases ls with
  | nil =>
    obtain ⟨stop, hstop, -⟩ := hr.ends
    cases hstop
  | cons l ls =>
    have hshorter : ls.length < (l :: ls).length := Nat.lt_succ_self _
    obtain ⟨r', hnext, -⟩ := hr.ends.exists_next (hr.proper l List.mem_cons_self)
    cases ht : l.token with
    | number lexeme =>
      cases hn : Number.Numeral.ofText? lexeme.toList with
      | none =>
        simp only [Reader.turn, Reader.operandTurn, ht, hn] at hnext
        cases hnext
      | some n => exact findsOperand_number ht hn hr
    | name name =>
      exact findsOperand_of_name ht hr hready (hO ls hshorter)
        fun ls' hlt => hC ls' (Nat.lt_succ_of_lt hlt)
    | foreign c =>
      simp only [Reader.turn, Reader.operandTurn, ht] at hnext
      cases hnext
    | mark m =>
      cases m with
      | minus => exact findsOperand_minus ht hr (hC ls hshorter)
      | leftParen => exact findsOperand_leftParen ht hr (hC ls hshorter)
      | comma => exact absurd ht hr.not_comma
      | _ =>
        simp only [Reader.turn, Reader.operandTurn, ht] at hnext
        cases hnext

/-! ## 5. Every line -/

/-- **Reading gets past whatever climbing takes in.** The induction is on the number of tokens: an
    operand needs shorter texts, a climb its operand, and what follows a tree a climb that may start
    at the same token, where a further factor stands without a sign. -/
theorem ways (halt : Cursor) (ls : List Lexeme) :
    OperandWay halt ls ∧ ClimbWay halt ls ∧ ExtendWay halt ls := by
  induction hn : ls.length using Nat.strong_induction_on generalizing ls with
  | _ n ih =>
    subst hn
    have hO : ∀ ls', ls'.length ≤ ls.length → OperandWay halt ls' := by
      intro ls' hle
      refine operandWay ?_ ?_
      · exact fun ls'' hlt => (ih _ (Nat.lt_of_lt_of_le hlt hle) ls'' rfl).1
      · exact fun ls'' hlt => (ih _ (Nat.lt_of_lt_of_le hlt hle) ls'' rfl).2.1
    have hC : ∀ ls', ls'.length ≤ ls.length → ClimbWay halt ls' := by
      intro ls' hle
      refine climbWay (hO ls' hle) ?_
      exact fun ls'' hlt => (ih _ (Nat.lt_of_lt_of_le hlt hle) ls'' rfl).2.2
    have hE : ∀ ls', ls'.length < ls.length → ExtendWay halt ls' :=
      fun ls' hlt => (ih _ hlt ls' rfl).2.2
    exact ⟨hO ls (Nat.le_refl _), hC ls (Nat.le_refl _), extendWay hC hE⟩

/-- Outside all frames, a text ends with its chain. -/
theorem Regular.eq_nil (h : Regular halt [] .operator ls)
    (hi : incoming? (closedTokens ls) = none) : ls = [] := by
  cases ls with
  | nil => rfl
  | cons l ls =>
    obtain ⟨m, r', -, hnext⟩ := h.exists_closingTurn hi
    cases hnext

/-- **Climbing finds the tree that a builder builds.** -/
theorem climb_of_run {t : Tree} (hends : Reader.Ends halt ⟨.chain, [], .operand⟩ ls)
    (hproper : ∀ l ∈ ls, l.Proper)
    (hchain : (ls.map Lexeme.token).IsChain fun t u => t.isName = true → u.isName = false)
    (hcommas : CommasSeparate (closedTokens ls))
    (hrun : run (Reader.read halt ⟨.chain, [], .operand⟩ ls).code.instructions .initial =
      .ok ⟨[t], [], []⟩) : Tree.climb 0 (closedTokens ls) = some (t, [.mark .semicolon]) := by
  have hr : Regular halt [] .operand ls := ⟨hends, hproper, hchain, [], hcommas, .nil []⟩
  obtain ⟨u, ls', is, hclimb, hway, hrun', hr', hi, -⟩ := (ways halt ls).2.1.settled hr [] []
  have hnil : ls' = [] := hr'.eq_nil hi
  subst hnil
  have hcode : (Reader.read halt ⟨.chain, [], .operand⟩ ls).code.instructions = is ++ [.settle] :=
    hway.instructions_eq
  have hsame : u = t := by
    rw [hcode] at hrun
    have hrun : run (is ++ [.settle]) ⟨[], [], []⟩ = .ok ⟨[t], [], []⟩ := hrun
    rw [hrun'] at hrun
    cases hrun
    rfl
  rw [hclimb, hsame]
  rfl

end Ways

/-- **A value is the value of the tree that climbing finds**, rounded at each operator and evaluated
    from left to right, if the commas of the line separate arguments. -/
theorem value_eq_tree_value (c : Calculator) (line : String) (x : Float)
    (hcommas : CommasSeparate (lineTokens line)) (h : (c.evaluate line).result = .ok x) :
    ∃ t, Tree.ofTokens? (lineTokens line) = some t ∧
      (t.value c.settings.precision c.memory).1 = x ∧
      (c.evaluate line).calculator.memory =
        (t.value c.settings.precision c.memory).2.setLastAnswer x := by
  cases hs : Source.ofLine line with
  | error err =>
    rw [result_of_ofLine_error hs] at h
    cases h
  | ok source =>
    have hcomp := completes_start c source
    rw [evaluate_of_ofLine hs] at h ⊢
    rw [result_conclude] at h
    generalize (Evaluation.start c.settings c.memory source).complete = done at hcomp h ⊢
    obtain ⟨result, e⟩ := done
    cases h
    cases hcomp with
    | value hstop hend hrun hvalue =>
      have hproper := source.start.proper_of_mem_lexemes
      have hends : Reader.Ends source.start.halt ⟨.chain, [], .operand⟩ source.start.lexemes :=
        ⟨_, hstop, hend⟩
      have he : source.start.halt.atEnd = true := (Reader.derivable_of_ends hends hproper).1
      rw [lineTokens_of_atEnd hs he] at hcommas ⊢
      have hclimb := climb_of_run hends hproper source.start.isChain_tokens hcommas hrun
      refine ⟨_, ?_, by rw [hvalue], ?_⟩
      · rw [Tree.ofTokens?, hclimb]
      · rw [hvalue]
        rfl

/-- The tree of `log(2, x = 4) - -3x!^2^0`: an assignment as an argument, and under a negation a
    product of a power whose exponent is a power. -/
def Tree.sample : Tree :=
  .binary .sub (.binary .log (.literal 2) (.assign "x" (.literal 4)))
    (.unary .negate (.binary .mul (.literal 3)
      (.binary .pow (.unary .factorial (.read "x")) (.binary .pow (.literal 2) (.literal 0)))))

/-- The line has that tree, and the value of the tree, `2 + 3 * 24 ^ (2 ^ 0)`. -/
theorem value_eq_tree_value_arguments :
    CommasSeparate (lineTokens "log(2, x = 4) - -3x!^2^0") ∧
      Tree.ofTokens? (lineTokens "log(2, x = 4) - -3x!^2^0") = some .sample ∧
      (({} : Calculator).evaluate "log(2, x = 4) - -3x!^2^0").result =
        .ok (Tree.sample.value ({} : Settings).precision .seeded).1 ∧
      (({} : Calculator).evaluate "log(2, x = 4) - -3x!^2^0").calculator.memory =
        (Tree.sample.value ({} : Settings).precision .seeded).2.setLastAnswer
          (Tree.sample.value ({} : Settings).precision .seeded).1 := by
  have hcommas : CommasSeparate (lineTokens "log(2, x = 4) - -3x!^2^0") := by
    show separates 0 [] (lineTokens "log(2, x = 4) - -3x!^2^0") = true
    decide +kernel
  have htree : Tree.ofTokens? (lineTokens "log(2, x = 4) - -3x!^2^0") = some .sample := by
    decide +kernel
  have hok : (({} : Calculator).evaluate "log(2, x = 4) - -3x!^2^0").result.isOk = true := by
    decide +kernel
  cases hr : (({} : Calculator).evaluate "log(2, x = 4) - -3x!^2^0").result with
  | ok x =>
    obtain ⟨t, ht, hx, hmemory⟩ := value_eq_tree_value {} "log(2, x = 4) - -3x!^2^0" x hcommas hr
    cases htree.symm.trans ht
    cases hx
    exact ⟨hcommas, htree, rfl, hmemory⟩
  | error err =>
    rw [hr] at hok
    cases hok

end DeskCalculator
