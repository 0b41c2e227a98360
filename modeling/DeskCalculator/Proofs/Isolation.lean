import DeskCalculator.Proofs.Completion

/-!
# What lies below a chain

A chain is read over what others left on the stacks. This file fixes

* `Below`, `Machine.atop`, `Evaluation.atop` -- a machine and an evaluation over further operands,
  operators and events;
* `atop_run` -- code that a builder can run does the same over anything, and leaves it alone;
* `run_of_missing_call` -- code at which a function is overtaken without a tree fails there, and
  nothing strict evaluation complains of comes before;
* `Evaluation.Enters`, `Isolated` -- two evaluations of the same chain in an open scope, and what it
  means that neither the outcome nor what lies below depends on the other.

Main statement: **a chain is isolated from what lies below unless its tokens borrow**
(`isolated_iff`), and then it is not.
-/

namespace DeskCalculator

open Builder

/-! ## 1. Over what lies below -/

/-- What lies below on the stacks, and the events so far. -/
structure Below where
  operands : List Float
  operators : List Operator
  events : List Event

/-- An outcome seen as another, and then a second step, when both steps agree on what is reached. -/
theorem Outcome.map_andThen {σ : Type} {o : Outcome σ} {f : σ → σ} {g h : σ → Outcome σ}
    (hstep : ∀ m, o = .ok m → g (f m) = (h m).map f) :
    (o.map f).andThen g = (o.andThen h).map f := by
  cases o with
  | ok m => exact hstep m rfl
  | failed e m => rfl

namespace Machine

/-- The machine over what lies below. -/
def atop (below : Below) (m : Machine) : Machine :=
  ⟨m.operands ++ below.operands, m.operators ++ below.operators, m.memory,
    m.events ++ below.events⟩

variable {s : Settings} {position : Nat} {memory : Variables} {ts ts' : List Tree} {m : Machine}
  {below : Below}

theorem atop_deliver (m : Machine) (below : Below) (op : Operator) (operands : List Float)
    (raw : Float) :
    (m.atop below).deliver s position op operands raw =
      (m.deliver s position op operands raw).map (atop below) := by
  unfold deliver
  simp only
  split
  · rfl
  · rfl

/-- An operator that finds its operands finds them over anything. -/
theorem atop_applyOperator {op : Operator} (hl : m.operands.length = ts.length)
    (hb : Builder.applyOperator op ts = .ok ts') :
    (m.atop below).applyOperator s position op =
      (m.applyOperator s position op).map (atop below) := by
  obtain ⟨operands, operators, current, events⟩ := m
  cases op with
  | scope => cases hb
  | binary f =>
    match ts, operands, hl, hb with
    | [], _, _, hb => cases hb
    | [_], _, _, hb => cases hb
    | _ :: _ :: _, right :: left :: rest, _, _ =>
      exact atop_deliver ⟨rest, operators, current, events⟩ below _ _ _
  | unary f =>
    match ts, operands, hl, hb with
    | [], _, _, hb => cases hb
    | _ :: _, x :: rest, _, _ =>
      simp only [atop, applyOperator, List.cons_append]
      split
      · rfl
      · exact atop_deliver ⟨rest, operators, current, events⟩ below _ _ _

/-- So do several, one after the other. -/
theorem atop_reduceTimes (ops : List Operator) {rest : List Operator}
    (h : m.Holds s.precision memory ts) (ho : m.operators = ops ++ rest)
    (hb : Builder.applyAll ops ts = .ok ts') :
    (m.atop below).reduceTimes s position ops.length =
      (m.reduceTimes s position ops.length).map (atop below) := by
  induction ops generalizing ts m with
  | nil => rfl
  | cons op ops ih =>
    obtain ⟨ts₁, hop, hops⟩ := exists_of_bind_eq_ok hb
    obtain ⟨operands, operators, current, events⟩ := m
    have ho : operators = op :: (ops ++ rest) := ho
    subst ho
    have h' : Holds s.precision memory ts ⟨operands, ops ++ rest, current, events⟩ := h
    have hfirst :
        (atop below ⟨operands, ops ++ rest, current, events⟩).applyOperator s position op =
        (applyOperator s position op ⟨operands, ops ++ rest, current, events⟩).map (atop below) :=
      atop_applyOperator h'.length_eq hop
    have hnext : ∀ m',
        applyOperator s position op ⟨operands, ops ++ rest, current, events⟩ = .ok m' →
        (m'.atop below).reduceTimes s position ops.length =
          (m'.reduceTimes s position ops.length).map (atop below) := by
      intro m' hm'
      have hfollows : Follows s _ (Builder.applyOperator op ts)
        (applyOperator s position op ⟨operands, ops ++ rest, current, events⟩) :=
        follows_applyOperator op h'
      rw [hop, hm'] at hfollows
      cases hfollows with
      | ok hr => exact ih hr.1 hr.2 hops
    exact (congrArg (Outcome.andThen · _) hfirst).trans (Outcome.map_andThen hnext)

end Machine

section Over

variable {s : Settings} {memory : Variables} {b b' : Builder} {m : Machine}

theorem atop_reduceWhile (position : Nat) (below : Below) {test : Operator → Bool}
    (ht : test .scope = false)
    (h : b.Describes s.precision memory m) (hb : b.reduceWhile test = .ok b') :
    (m.atop below).reduceWhile s position test =
      (m.reduceWhile s position test).map (Machine.atop below) := by
  obtain ⟨ho, htake⟩ := h.operators_cut ht
  have hatop : (m.atop below).operators.takeWhile test = b.scope.takeWhile test := by
    rw [Machine.atop, h.operators, operators, List.append_assoc, List.cons_append]
    exact Lists.takeWhile_append_of_stop (by simpa using ht) _
  obtain ⟨ts', hts, -⟩ := exists_of_map_eq_ok hb
  rw [Machine.reduceWhile, Machine.reduceWhile, hatop, htake]
  exact Machine.atop_reduceTimes _ h.holds ho hts

/-- **An instruction that a builder can follow does the same over anything.** -/
theorem atop_step (position : Nat) (below : Below) (i : Instruction)
    (h : b.Describes s.precision memory m) (hb : step i b = .ok b') :
    (m.atop below).step s position i = (m.step s position i).map (Machine.atop below) := by
  cases i with
  | literal x => rfl
  | read name start =>
    have hsame : (m.atop below).lookUp s start name = m.lookUp s start name := rfl
    simp only [Machine.step, Machine.read, hsame]
    cases m.lookUp s start name with
    | ok x => rfl
    | error e => rfl
  | operator op =>
    obtain ⟨b₁, hr, -⟩ := exists_of_map_eq_ok hb
    have hfirst : (m.atop below).reduceWhile s position (yieldsTo op) =
        (m.reduceWhile s position (yieldsTo op)).map (Machine.atop below) :=
      atop_reduceWhile position below rfl h hr
    show ((m.atop below).reduceWhile s position (yieldsTo op)).andThen _ =
      ((m.reduceWhile s position (yieldsTo op)).andThen _).map _
    rw [hfirst]
    exact Outcome.map_andThen fun m' _ => rfl
  | hold op => rfl
  | openScope => rfl
  | closeScope =>
    obtain ⟨ts, ops, outer⟩ := b
    cases ops with
    | cons op ops => cases hb
    | nil =>
      cases outer with
      | nil => cases hb
      | cons ops' outer =>
        obtain ⟨operands, operators, current, events⟩ := m
        have ho : operators = .scope :: (ops' ++ .scope :: outer.flatMap (· ++ [.scope])) := by
          have := h.operators
          simpa [Builder.operators] using this
        subst ho
        rfl
  | settle => exact atop_reduceWhile position below (by simp) h hb
  | assign name =>
    obtain ⟨ts, ops, outer⟩ := b
    cases ts with
    | nil => cases hb
    | cons t ts =>
      obtain ⟨operands, operators, current, events⟩ := m
      cases h.holds
      rfl

end Over

/-- The evaluation over what lies below. -/
def Evaluation.atop (below : Below) (e : Evaluation) : Evaluation :=
  { e with machine := e.machine.atop below }

/-- **Code that a builder can run does the same over anything**, and leaves it alone. -/
theorem atop_run (code : Code) {s : Settings} {memory : Variables} {b b' : Builder}
    {e : Evaluation} (below : Below) (h : b.DescribesEvaluation s memory e)
    (hb : run code.instructions b = .ok b') :
    (e.atop below).run code = (e.run code).map (Evaluation.atop below) := by
  induction code generalizing b e with
  | nil => rfl
  | cons i code ih =>
    obtain ⟨settings, cursor, m⟩ := e
    obtain ⟨rfl, hm⟩ := h
    obtain ⟨b₁, hs, hrest⟩ := exists_of_bind_eq_ok hb
    have hatop := atop_step i.cursor.position below i.instruction hm hs
    have hfollows := follows_step i.cursor.position i.instruction hm
    have hrun : ∀ m, Evaluation.run (i :: code) ⟨settings, cursor, m⟩ =
        ((m.step settings i.cursor.position i.instruction).map fun m' =>
          (⟨settings, i.cursor, m'⟩ : Evaluation)).andThen (Evaluation.run code) := fun _ => rfl
    show Evaluation.run (i :: code) ⟨settings, cursor, m.atop below⟩ =
      (Evaluation.run (i :: code) ⟨settings, cursor, m⟩).map _
    rw [hrun, hrun, hatop]
    cases hm' : m.step settings i.cursor.position i.instruction with
    | failed err m' => rfl
    | ok m' =>
      rw [hs, hm'] at hfollows
      cases hfollows with
      | ok hd => exact @ih b₁ ⟨settings, i.cursor, m'⟩ ⟨rfl, hd⟩ hrest

/-! ## 2. A function without a tree -/

/-- A result with `P`, or a failure for want of something else than the operand of a function of one
    argument. -/
inductive Spares {α : Type} (P : α → Prop) : Except Flaw α → Prop where
  | ok {a : α} (h : P a) : Spares P (.ok a)
  | missing {op : Operator} (h : op.isCall = false) : Spares P (.error (.missing op))
  | misplaced : Spares P (.error .misplaced)

theorem Spares.bind {α β : Type} {P : α → Prop} {Q : β → Prop} {x : Except Flaw α}
    {f : α → Except Flaw β} (h : Spares P x) (hf : ∀ a, P a → Spares Q (f a)) :
    Spares Q (x.bind f) := by
  cases h with
  | ok h => exact hf _ h
  | missing h => exact .missing h
  | misplaced => exact .misplaced

theorem Spares.map {α β : Type} {P : α → Prop} {Q : β → Prop} {x : Except Flaw α} {f : α → β}
    (h : Spares P x) (hf : ∀ a, P a → Q (f a)) : Spares Q (x.map f) := by
  cases h with
  | ok h => exact .ok (hf _ h)
  | missing h => exact .missing h
  | misplaced => exact .misplaced

namespace Builder

theorem spares_applyOperator (op : Operator) {ts : List Tree} (h : ts ≠ []) :
    Spares (· ≠ []) (applyOperator op ts) := by
  cases op with
  | scope => exact .misplaced
  | binary f =>
    match ts, h with
    | [], h => exact absurd rfl h
    | [_], _ => exact .missing rfl
    | u :: t :: ts, _ => exact .ok (List.cons_ne_nil _ _)
  | unary f =>
    match ts, h with
    | [], h => exact absurd rfl h
    | t :: ts, _ => exact .ok (List.cons_ne_nil _ _)

theorem spares_reduceWhile (test : Operator → Bool) {b : Builder} (h : b.trees ≠ []) :
    Spares (fun b' => b'.trees ≠ []) (b.reduceWhile test) := by
  have hall : ∀ (ops : List Operator) (ts : List Tree), ts ≠ [] →
      Spares (· ≠ []) (applyAll ops ts) := by
    intro ops
    induction ops with
    | nil => exact fun ts hts => .ok hts
    | cons op ops ih => exact fun ts hts => (spares_applyOperator op hts).bind ih
  exact (hall _ _ h).map fun ts hts => hts

/-- **Where there is a tree, there is one from then on**, and no function lacks it. -/
theorem spares_step (i : Instruction) {b : Builder} (h : b.trees ≠ []) :
    Spares (fun b' => b'.trees ≠ []) (step i b) := by
  cases i with
  | literal x => exact .ok (List.cons_ne_nil _ _)
  | read name start => exact .ok (List.cons_ne_nil _ _)
  | operator op => exact (spares_reduceWhile _ h).map fun b' hb' => hb'
  | hold op => exact .ok h
  | openScope => exact .ok h
  | closeScope =>
    obtain ⟨ts, ops, outer⟩ := b
    match ops, outer with
    | [], [] => exact .misplaced
    | _ :: _, _ => exact .misplaced
    | [], _ :: _ => exact .ok h
  | settle => exact spares_reduceWhile _ h
  | assign name =>
    obtain ⟨ts, ops, outer⟩ := b
    match ts, h with
    | [], h => exact absurd rfl h
    | t :: ts, _ => exact .ok (List.cons_ne_nil _ _)

theorem spares_run (is : List Instruction) {b : Builder} (h : b.trees ≠ []) :
    Spares (fun b' => b'.trees ≠ []) (run is b) := by
  induction is generalizing b with
  | nil => exact .ok h
  | cons i is ih => exact (spares_step i h).bind fun b' hb' => ih hb'

end Builder

namespace Machine

variable {s : Settings} {position : Nat} {m m' : Machine} {err : EvalError}

/-- Without operands nothing is computed that strict evaluation could complain of. -/
theorem not_strictOnly_of_reduceTimes {n : Nat} (hnil : m.operands = [])
    (h : m.reduceTimes s position n = .failed err m') : ¬ err.cause.StrictOnly s := by
  obtain ⟨operands, operators, current, events⟩ := m
  subst hnil
  cases n with
  | zero => cases h
  | succ n =>
    match operators with
    | [] =>
      cases h
      exact not_false
    | .scope :: _ =>
      cases h
      exact not_false
    | .binary _ :: _ =>
      cases h
      exact not_false
    | .unary _ :: _ =>
      cases h
      exact not_false

theorem not_strictOnly_of_step {i : Instruction} (hnil : m.operands = [])
    (hi : ∀ name start, i ≠ .read name start) (h : m.step s position i = .failed err m') :
    ¬ err.cause.StrictOnly s := by
  cases i with
  | literal x => cases h
  | read name start => exact absurd rfl (hi name start)
  | operator op =>
    unfold step stackOperator reduceWhile at h
    simp only at h
    generalize hr : reduceTimes s position _ m = o at h
    cases o with
    | ok m₁ => cases h
    | failed err₁ m₁ =>
      cases h
      exact not_strictOnly_of_reduceTimes hnil hr
  | hold op => cases h
  | openScope => cases h
  | closeScope =>
    unfold step closeScope at h
    simp only at h
    split at h
    · cases h
      exact not_false
    · cases h
    · cases h
      exact not_false
  | settle => exact not_strictOnly_of_reduceTimes hnil h
  | assign name =>
    unfold step assign at h
    simp only at h
    split at h
    · cases h
      exact not_false
    · cases h

end Machine

/-- **Code at which a function is overtaken fails there**: all before it stacks operators only. -/
theorem run_of_missing_call (code : Code) {s : Settings} {memory : Variables} {b : Builder}
    {e : Evaluation} {call : Operator} (h : b.DescribesEvaluation s memory e)
    (hc : call.isCall = true) (hb : run code.instructions b = .error (.missing call)) :
    ∃ err e', e.run code = .failed err e' ∧ err.cause = .arithmetic (.missingOperand call) := by
  induction code generalizing b e with
  | nil => cases hb
  | cons i code ih =>
    obtain ⟨settings, cursor, m⟩ := e
    obtain ⟨rfl, hm⟩ := h
    have htrees : b.trees = [] := by
      by_contra hne
      have hspares := spares_run (i.instruction :: Code.instructions code) hne
      have hb : run (i.instruction :: Code.instructions code) b = .error (.missing call) := hb
      rw [hb] at hspares
      cases hspares with
      | missing h => exact Bool.false_ne_true (h.symm.trans hc)
    have hnil : m.operands = [] := by
      rw [← List.length_eq_zero_iff, hm.holds.length_eq, htrees, List.length_nil]
    have hrun : Evaluation.run (i :: code) ⟨settings, cursor, m⟩ =
        ((m.step settings i.cursor.position i.instruction).map fun m' =>
          (⟨settings, i.cursor, m'⟩ : Evaluation)).andThen (Evaluation.run code) := rfl
    have hb : (step i.instruction b).bind (run (Code.instructions code)) =
      .error (.missing call) := hb
    have hfollows := follows_step i.cursor.position i.instruction hm
    have hstrict : ∀ err m', m.step settings i.cursor.position i.instruction = .failed err m' →
        ¬ err.cause.StrictOnly settings := by
      refine fun err m' hs => Machine.not_strictOnly_of_step hnil (fun name start hi => ?_) hs
      -- a value that is read would be a tree from then on
      have hspares := spares_run (Code.instructions code)
        (b := { b with trees := .read name :: b.trees }) (List.cons_ne_nil _ _)
      rw [hi] at hb
      have hb : run (Code.instructions code) { b with trees := .read name :: b.trees } =
        .error (.missing call) := hb
      rw [hb] at hspares
      cases hspares with
      | missing h => exact Bool.false_ne_true (h.symm.trans hc)
    rw [hrun]
    cases hs : m.step settings i.cursor.position i.instruction with
    | ok m' =>
      rw [hs] at hfollows
      cases hbs : step i.instruction b with
      | ok b' =>
        rw [hbs] at hfollows hb
        cases hfollows with
        | ok hd => exact @ih b' ⟨settings, i.cursor, m'⟩ ⟨rfl, hd⟩ hb
      | error flaw =>
        rw [hbs] at hfollows hb
        cases hb
        cases hfollows
    | failed err m' =>
      refine ⟨err, ⟨settings, i.cursor, m'⟩, rfl, ?_⟩
      rw [hs] at hfollows
      cases hbs : step i.instruction b with
      | ok b' =>
        rw [hbs] at hfollows
        cases hfollows with
        | strict hst => exact absurd hst (hstrict err m' hs)
      | error flaw =>
        rw [hbs] at hfollows hb
        cases hb
        cases hfollows with
        | missing hcause => exact hcause
        | strict hst => exact absurd hst (hstrict err m' hs)

/-! ## 3. Isolation -/

/-- The evaluation is about to read a chain from `c` on, in a scope that was just opened. -/
structure Evaluation.Enters (s : Settings) (c : Cursor) (memory : Variables) (e : Evaluation) :
    Prop where
  settings : e.settings = s
  cursor : e.cursor = c
  memory : e.machine.memory = memory
  scope : e.machine.operators.head? = some .scope

/-- **Isolation**: either both evaluations fail in the chain with the same error, or they reach the
    same place with the same variables, each with one more operand, the same one, over its own. -/
def Isolated (e₁ e₂ : Evaluation) : Prop :=
  match e₁.chain, e₂.chain with
  | .failed err₁ _, .failed err₂ _ => err₁ = err₂
  | .ok d₁, .ok d₂ => d₁.cursor = d₂.cursor ∧ d₁.machine.memory = d₂.machine.memory ∧
      ∃ x, d₁.machine.operands = x :: e₁.machine.operands ∧
        d₂.machine.operands = x :: e₂.machine.operands
  | .ok _, .failed _ _ | .failed _ _, .ok _ => False

section Isolated

variable {s : Settings} {c : Cursor} {memory : Variables} {e e' e₁ e₂ : Evaluation}

/-- The evaluation of a chain with nothing below it. -/
def Evaluation.alone (s : Settings) (c : Cursor) (memory : Variables) : Evaluation :=
  ⟨s, c, .initial memory⟩

theorem Evaluation.Enters.eq_atop (h : e.Enters s c memory) :
    ∃ below, e = (Evaluation.alone s c memory).atop below ∧
      below.operands = e.machine.operands := by
  obtain ⟨settings, cursor, operands, operators, current, events⟩ := e
  obtain ⟨rfl, rfl, rfl, hscope⟩ := h
  match operators, hscope with
  | _ :: operators, rfl => exact ⟨⟨operands, operators, events⟩, rfl, rfl⟩

/-- A chain that does not borrow goes the same way over anything. -/
theorem chain_atop (below : Below) (hb : Awaiting.operand.borrows false c.tokens = false) :
    ((Evaluation.alone s c memory).atop below).chain =
      (Evaluation.alone s c memory).chain.map (Evaluation.atop below) := by
  have hstart : Builder.initial.DescribesEvaluation s memory (.alone s c memory) :=
    ⟨rfl, describes_initial _ _⟩
  obtain ⟨hok, -⟩ := Reader.run_read c.halt c.lexemes (balanced_start .chain [])
  obtain ⟨b, hrun, -⟩ := hok fun h => Bool.false_ne_true (hb.symm.trans h.2)
  have hatop := atop_run c.readChain.code below hstart hrun
  cases halone : (Evaluation.alone s c memory).run c.readChain.code with
  | failed err d =>
    rw [halone] at hatop
    rw [chain_of_run_failed (e := .alone s c memory) halone]
    exact chain_of_run_failed hatop
  | ok d =>
    rw [halone] at hatop
    cases hstop : c.readChain.stop with
    | ok stop =>
      rw [chain_of_stop (e := .alone s c memory) halone hstop]
      exact chain_of_stop (e := (Evaluation.alone s c memory).atop below) hatop hstop
    | error refusal =>
      rw [chain_of_refused (e := .alone s c memory) halone hstop]
      exact chain_of_refused (e := (Evaluation.alone s c memory).atop below) hatop hstop

/-- A chain with nothing below it leaves one operand. -/
theorem exists_operand_of_chain_alone (h : (Evaluation.alone s c memory).chain = .ok e') :
    ∃ x, e'.machine.operands = [x] := by
  have hstart : Builder.initial.DescribesEvaluation s memory (.alone s c memory) :=
    ⟨rfl, describes_initial _ _⟩
  have hfollows := follows_run c.readChain.code hstart
  obtain ⟨hok, hatop⟩ := Reader.run_read c.halt c.lexemes (balanced_start .chain [])
  cases hrun : (Evaluation.alone s c memory).run c.readChain.code with
  | failed err d =>
    rw [chain_of_run_failed hrun] at h
    cases h
  | ok d =>
    rw [hrun] at hfollows
    by_cases hb : Awaiting.operand.borrows false c.tokens = true
    · obtain ⟨call, -, herr⟩ := hatop ⟨rfl, hb⟩
      have herr : run c.readChain.code.instructions .initial = .error (.missing call) := herr
      rw [herr] at hfollows
      cases hfollows
    · obtain ⟨b, hr, hclosed⟩ := hok fun h => hb h.2
      have hr : run c.readChain.code.instructions .initial = .ok b := hr
      rw [hr] at hfollows
      cases hfollows with
      | ok hd =>
        cases hstop : c.readChain.stop with
        | error refusal =>
          rw [chain_of_refused hrun hstop] at h
          cases h
        | ok stop =>
          rw [chain_of_stop hrun hstop] at h
          cases h
          obtain ⟨t, rfl⟩ := (hclosed stop hstop).exists_tree
          exact List.length_eq_one_iff.1 hd.machine.holds.length_eq

/-- A chain that borrows fails alone, for want of the operand of a function. -/
theorem chain_alone_of_borrows (s : Settings) (memory : Variables)
    (hb : Awaiting.operand.borrows false c.tokens = true) :
    ∃ call err e', (Evaluation.alone s c memory).chain = .failed err e' ∧ call.isCall = true ∧
      err.cause = .arithmetic (.missingOperand call) := by
  have hstart : Builder.initial.DescribesEvaluation s memory (.alone s c memory) :=
    ⟨rfl, describes_initial _ _⟩
  obtain ⟨-, hatop⟩ := Reader.run_read c.halt c.lexemes (balanced_start .chain [])
  obtain ⟨call, hc, herr⟩ := hatop ⟨rfl, hb⟩
  obtain ⟨err, e', hrun, hcause⟩ := run_of_missing_call c.readChain.code hstart hc herr
  exact ⟨call, err, e', chain_of_run_failed hrun, hc, hcause⟩

/-- **Over an operand, no chain fails for want of one.** -/
theorem cause_ne_missing_atop (x : Float) {call : Operator} {err : EvalError}
    (h : ((Evaluation.alone s c memory).atop ⟨[x], [], []⟩).chain = .failed err e') :
    err.cause ≠ .arithmetic (.missingOperand call) := by
  intro hcause
  have hstart : Builder.DescribesEvaluation s memory ⟨[.literal x], [], []⟩
      ((Evaluation.alone s c memory).atop ⟨[x], [], []⟩) := ⟨rfl, rfl, rfl⟩
  have hfollows := follows_run c.readChain.code hstart
  obtain ⟨hok, -⟩ := Reader.run_read c.halt c.lexemes (balanced_start .chain [.literal x])
  obtain ⟨b, hr, -⟩ := hok (Reader.not_borrowing (List.cons_ne_nil _ _) _)
  have hr : run c.readChain.code.instructions ⟨[.literal x], [], []⟩ = .ok b := hr
  rw [hr] at hfollows
  cases hrun : ((Evaluation.alone s c memory).atop ⟨[x], [], []⟩).run c.readChain.code with
  | failed err' d =>
    rw [chain_of_run_failed hrun] at h
    rw [hrun] at hfollows
    cases h
    cases hfollows with
    | strict hst =>
      rw [hcause] at hst
      exact hst
  | ok d =>
    cases hstop : c.readChain.stop with
    | ok stop =>
      rw [chain_of_stop hrun hstop] at h
      cases h
    | error refusal =>
      rw [chain_of_refused hrun hstop] at h
      cases h
      refine absurd ?_ (Reader.kind_of_stop hstop)
      rw [EvalError.kind, hcause]

/-- A chain that does not borrow is isolated. -/
theorem isolated_of_not_borrows (hb : Awaiting.operand.borrows false c.tokens = false)
    (h₁ : e₁.Enters s c memory) (h₂ : e₂.Enters s c memory) : Isolated e₁ e₂ := by
  obtain ⟨below₁, he₁, hx₁⟩ := h₁.eq_atop
  obtain ⟨below₂, he₂, hx₂⟩ := h₂.eq_atop
  rw [Isolated, ← hx₁, ← hx₂, he₁, he₂, chain_atop below₁ hb, chain_atop below₂ hb]
  cases halone : (Evaluation.alone s c memory).chain with
  | failed err e' => rfl
  | ok e' =>
    obtain ⟨x, hx⟩ := exists_operand_of_chain_alone halone
    refine ⟨rfl, rfl, x, ?_, ?_⟩
    · show e'.machine.operands ++ below₁.operands = x :: below₁.operands
      rw [hx, List.singleton_append]
    · show e'.machine.operands ++ below₂.operands = x :: below₂.operands
      rw [hx, List.singleton_append]

/-- A chain that borrows is not isolated: alone it fails, over an operand it does not fail so. -/
theorem not_isolated_of_borrows (x : Float)
    (hb : Awaiting.operand.borrows false c.tokens = true) :
    ¬ Isolated (.alone s c memory) ((Evaluation.alone s c memory).atop ⟨[x], [], []⟩) := by
  intro h
  obtain ⟨call, err, e', halone, hc, hcause⟩ := chain_alone_of_borrows s memory hb
  rw [Isolated, halone] at h
  cases hatop : ((Evaluation.alone s c memory).atop ⟨[x], [], []⟩).chain with
  | ok d =>
    rw [hatop] at h
    exact h
  | failed err' d =>
    rw [hatop] at h
    have h : err = err' := h
    exact cause_ne_missing_atop x hatop (h ▸ hcause)

/-- **A chain is isolated from what lies below it unless its tokens borrow**: unless, before the
    chain has its first value, a function stands behind a function of one argument that still waits
    for its operand, with nothing but commas between them. If they borrow, it is not, whatever the
    settings and the variables. -/
theorem isolated_iff (s : Settings) (c : Cursor) (memory : Variables) :
    (∀ e₁ e₂ : Evaluation, e₁.Enters s c memory → e₂.Enters s c memory → Isolated e₁ e₂) ↔
      Awaiting.operand.borrows false c.tokens = false := by
  constructor
  · intro h
    rw [Bool.eq_false_iff]
    intro hb
    have hatop : ((Evaluation.alone s c memory).atop ⟨[0], [], []⟩).Enters s c memory :=
      ⟨rfl, rfl, rfl, rfl⟩
    exact not_isolated_of_borrows 0 hb (h _ _ ⟨rfl, rfl, rfl, rfl⟩ hatop)
  · intro hb e₁ e₂ h₁ h₂
    exact isolated_of_not_borrows hb h₁ h₂

/-- Behind the name of a function and a comma, a further function takes what lies below. -/
theorem not_isolated_sin_comma :
    ∃ (s : Settings) (c : Cursor) (memory : Variables) (e₁ e₂ : Evaluation),
      e₁.Enters s c memory ∧ e₂.Enters s c memory ∧ ¬ Isolated e₁ e₂ := by
  refine ⟨{}, ⟨0, "sin,cos(0)".toList⟩, .seeded, .alone _ _ _,
    (Evaluation.alone _ _ _).atop ⟨[5], [], []⟩, ⟨rfl, rfl, rfl, rfl⟩, ⟨rfl, rfl, rfl, rfl⟩, ?_⟩
  exact not_isolated_of_borrows 5 (by decide +kernel)

end Isolated

end DeskCalculator
