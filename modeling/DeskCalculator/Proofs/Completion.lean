import DeskCalculator.Calculator
import DeskCalculator.Proofs.Borrowing

/-!
# What an evaluation comes to

The reading of a text and a builder decide between them how an evaluation ends; the machine adds the
values and the complaints of strict evaluation. This file fixes

* `Completes` -- the ways an evaluation can end: with the value of the one tree that its code
  builds, with the refusal of the reader, before the end of the text, with a complaint that strict
  evaluation alone makes, or at a function that is overtaken;
* `Reader.kind_of_stop` -- a reader's refusal is never one of the arithmetic.

Main statement: **every evaluation of a new machine ends in one of these ways** (`completes`).
-/

namespace DeskCalculator

open Builder

/-! ## 1. Refusals -/

/-- No refusal among the moves of a turn is one of the arithmetic. -/
def Move.Polite : Move → Prop
  | .refuse refusal => refusal.error.kind ≠ .arithmetic
  | .next _ | .rest => True

namespace Reader

theorem polite_operandTurn (r : Reader) (l : Lexeme) : (r.operandTurn l).move.Polite := by
  have hrefuse : (refuseToken l).move.Polite := by simp [refuseToken, Move.Polite, EvalError.kind]
  unfold operandTurn
  split
  · split
    · trivial
    · simp [Move.Polite, EvalError.kind]
  · split <;> trivial
  · trivial
  · trivial
  · trivial
  · exact hrefuse
  · exact hrefuse

theorem polite_closingTurn (r : Reader) (l : Lexeme) (m : Mark) :
    (r.closingTurn l m).move.Polite := by
  unfold closingTurn
  simp only
  split
  · trivial
  · split
    · trivial
    · simp [refuseGroup, Move.Polite, EvalError.kind]
  · split
    · trivial
    · simp [refuseGroup, Move.Polite, EvalError.kind]

theorem polite_operatorTurn (r : Reader) (l : Lexeme) : (r.operatorTurn l).move.Polite := by
  unfold operatorTurn
  split
  · split
    · trivial
    · split <;> trivial
    · split
      · exact polite_operandTurn r l
      · exact polite_closingTurn r l _
  · exact polite_operandTurn r l

theorem polite_turn (r : Reader) (l : Lexeme) : (r.turn l).move.Polite := by
  unfold turn
  split
  · exact polite_operandTurn r l
  · unfold argumentsTurn
    split
    · trivial
    · simp [Move.Polite, EvalError.kind]
  · unfold bindingTurn
    split
    · trivial
    · exact polite_operatorTurn r l
  · exact polite_operatorTurn r l

theorem kind_of_finishChain {r : Reader} {c : Cursor} {refusal : Refusal}
    (h : (r.finishChain c).stop = .error refusal) : refusal.error.kind ≠ .arithmetic := by
  unfold finishChain at h
  simp only at h
  split at h
  · cases h
  · cases h
    simp [refuseGroup, EvalError.kind]

theorem kind_of_finish {r : Reader} {c : Cursor} {refusal : Refusal}
    (h : (r.finish c).stop = .error refusal) : refusal.error.kind ≠ .arithmetic := by
  unfold finish at h
  split at h
  · cases h
    unfold missingOperand
    split <;> simp [EvalError.kind]
  · cases h
    simp [EvalError.kind]
  · exact kind_of_finishChain h
  · exact kind_of_finishChain h

/-- **A reader's refusal is never one of the arithmetic.** -/
theorem kind_of_stop {halt : Cursor} {r : Reader} {ls : List Lexeme} {refusal : Refusal}
    (h : (read halt r ls).stop = .error refusal) : refusal.error.kind ≠ .arithmetic := by
  induction ls generalizing r with
  | nil => exact kind_of_finish h
  | cons l ls ih =>
    have hp := polite_turn r l
    rw [read] at h
    generalize r.turn l = t at h hp
    obtain ⟨code, move⟩ := t
    cases move with
    | next r' => exact ih h
    | rest => cases h
    | refuse refusal' =>
      cases h
      exact hp

end Reader

/-! ## 2. The ways to end -/

/-- How an evaluation of a text can end, with its reading. -/
inductive Completes (s : Settings) (memory : Variables) (c : Cursor) :
    Except EvalError Float × Evaluation → Prop where
  /-- With the value of the one tree that the code builds. -/
  | value {t : Tree} {x : Float} {e : Evaluation} {stop : Cursor}
      (hstop : c.readChain.stop = .ok stop) (hend : stop.atEnd = true)
      (hrun : run c.readChain.code.instructions .initial = .ok ⟨[t], [], []⟩)
      (hvalue : t.value s.precision memory = (x, e.machine.memory)) :
      Completes s memory c (.ok x, e)
  /-- With the refusal of the reader. -/
  | refused {refusal : Refusal} {e : Evaluation} (hstop : c.readChain.stop = .error refusal) :
      Completes s memory c (.error refusal.error, e)
  /-- Before the end of the text. -/
  | beforeEnd {e : Evaluation} {stop : Cursor} (hstop : c.readChain.stop = .ok stop)
      (hend : stop.atEnd = false) :
      Completes s memory c (.error ⟨stop.position, .expected .endOfExpression⟩, e)
  /-- With a complaint of strict evaluation. -/
  | strict {err : EvalError} {e : Evaluation} (h : err.cause.StrictOnly s) :
      Completes s memory c (.error err, e)
  /-- At a function of one argument that another function overtakes. -/
  | overtaken {f : Function} {err : EvalError} {e : Evaluation} (hf : f.arity = 1)
      (hb : Awaiting.operand.borrows false c.tokens = true)
      (h : err.cause = .arithmetic (.missingOperand f.operator)) :
      Completes s memory c (.error err, e)

theorem Operator.exists_function_of_isCall {op : Operator} (h : op.isCall = true) :
    ∃ f : Function, f.arity = 1 ∧ op = f.operator := by
  cases op with
  | scope => cases h
  | binary g => cases h
  | unary g =>
    cases g with
    | negate => cases h
    | factorial => cases h
    | sin => exact ⟨.sin, rfl, rfl⟩
    | cos => exact ⟨.cos, rfl, rfl⟩
    | tan => exact ⟨.tan, rfl, rfl⟩
    | asin => exact ⟨.asin, rfl, rfl⟩
    | acos => exact ⟨.acos, rfl, rfl⟩
    | atan => exact ⟨.atan, rfl, rfl⟩
    | log10 => exact ⟨.log10, rfl, rfl⟩
    | ln => exact ⟨.ln, rfl, rfl⟩
    | exp => exact ⟨.exp, rfl, rfl⟩
    | abs => exact ⟨.abs, rfl, rfl⟩
    | sqrt => exact ⟨.sqrt, rfl, rfl⟩

/-! ## 3. The end of an evaluation -/

section Complete

variable {s : Settings} {memory : Variables} {e e' : Evaluation} {b : Builder}

/-- A reader at the start, with a builder that holds trees of others and an open scope. -/
theorem balanced_start (extent : Extent) (trees : List Tree) :
    Reader.Balanced trees.length ⟨extent, [], .operand⟩ ⟨trees, [], []⟩ := by
  refine ⟨0, .nil, ?_, ?_⟩
  · intro op hop
    cases hop
  · rw [twos_nil]
    rfl

theorem chain_of_run_failed {err : EvalError}
    (h : e.run e.cursor.readChain.code = .failed err e') : e.chain = .failed err e' := by
  rw [Evaluation.chain, Evaluation.follow, h, Outcome.failed_andThen]

theorem chain_of_refused {refusal : Refusal} (h : e.run e.cursor.readChain.code = .ok e')
    (hstop : e.cursor.readChain.stop = .error refusal) :
    e.chain = .failed refusal.error { e' with cursor := refusal.cursor } := by
  rw [Evaluation.chain, Evaluation.follow, h, Outcome.ok_andThen, hstop]

theorem chain_of_stop {stop : Cursor} (h : e.run e.cursor.readChain.code = .ok e')
    (hstop : e.cursor.readChain.stop = .ok stop) : e.chain = .ok { e' with cursor := stop } := by
  rw [Evaluation.chain, Evaluation.follow, h, Outcome.ok_andThen, hstop]

/-- A chain whose code fails. -/
theorem complete_of_run_failed {err : EvalError}
    (h : e.run e.cursor.readChain.code = .failed err e') : e.complete = (.error err, e') := by
  simp only [Evaluation.complete, chain_of_run_failed h, Outcome.failed_andThen]

/-- A chain that is refused. -/
theorem complete_of_refused {refusal : Refusal}
    (h : e.run e.cursor.readChain.code = .ok e')
    (hstop : e.cursor.readChain.stop = .error refusal) :
    e.complete = (.error refusal.error, { e' with cursor := refusal.cursor }) := by
  simp only [Evaluation.complete, chain_of_refused h hstop, Outcome.failed_andThen]

/-- A chain that ends before the text does. -/
theorem complete_of_beforeEnd {stop : Cursor} (h : e.run e.cursor.readChain.code = .ok e')
    (hstop : e.cursor.readChain.stop = .ok stop) (hend : stop.atEnd = false) :
    e.complete =
      (.error ⟨stop.position, .expected .endOfExpression⟩, { e' with cursor := stop }) := by
  simp only [Evaluation.complete, chain_of_stop h hstop, Outcome.ok_andThen,
    Evaluation.expectEnd, hend, Bool.false_eq_true, if_false]

/-- A chain up to the end of the text, with one value and no operator left. -/
theorem complete_of_atEnd {stop : Cursor} {x : Float} (h : e.run e.cursor.readChain.code = .ok e')
    (hstop : e.cursor.readChain.stop = .ok stop) (hend : stop.atEnd = true)
    (hops : e'.machine.operators = [.scope]) (hx : e'.machine.operands = [x]) :
    e.complete = (.ok x, { e' with cursor := stop }) := by
  have hsettle : e'.machine.settle e'.settings stop.position = .ok e'.machine := by
    rw [Machine.settle, Machine.reduceWhile, hops]
    rfl
  simp only [Evaluation.complete, chain_of_stop h hstop, Outcome.ok_andThen,
    Evaluation.expectEnd, hend, if_true, Evaluation.takeValue, Evaluation.perform,
    Evaluation.lift, Machine.step, hsettle, Outcome.map, hx]

/-- What a builder leaves at the end of a chain that was its own from the start. -/
theorem Builder.Closed.exists_tree (h : b.Closed 0 .chain) : ∃ t, b = ⟨[t], [], []⟩ := by
  obtain ⟨trees, scope, outer⟩ := b
  have hscope : scope = [] := h.scope rfl
  have houter : outer = [] := h.outer
  have hlen : trees.length = 0 + twos scope + 1 := h.operand.length
  rw [hscope, twos_nil] at hlen
  obtain ⟨t, rfl⟩ := List.length_eq_one_iff.1 hlen
  exact ⟨t, by rw [hscope, houter]⟩

/-- **Every evaluation of a new machine ends in one of the ways.** -/
theorem completes (h : Builder.initial.DescribesEvaluation s memory e) :
    Completes s memory e.cursor e.complete := by
  have hfollows := follows_run e.cursor.readChain.code h
  obtain ⟨hok, hover⟩ := Reader.run_read e.cursor.halt e.cursor.lexemes (balanced_start .chain [])
  by_cases hb : Awaiting.operand.borrows false e.cursor.tokens = true
  · obtain ⟨op, hc, herr⟩ := hover ⟨rfl, hb⟩
    obtain ⟨f, hf, rfl⟩ := Operator.exists_function_of_isCall hc
    have hrun : run e.cursor.readChain.code.instructions .initial =
        .error (.missing f.operator) := herr
    rw [hrun] at hfollows
    cases ho : e.run e.cursor.readChain.code with
    | ok e' =>
      rw [ho] at hfollows
      cases hfollows
    | failed err e' =>
      rw [complete_of_run_failed ho]
      rw [ho] at hfollows
      cases hfollows with
      | missing hcause => exact .overtaken hf hb hcause
      | strict hstrict => exact .strict hstrict
  · obtain ⟨b, hrun, hclosed⟩ := hok fun h => hb h.2
    have hrun : run e.cursor.readChain.code.instructions .initial = .ok b := hrun
    rw [hrun] at hfollows
    cases ho : e.run e.cursor.readChain.code with
    | failed err e' =>
      rw [complete_of_run_failed ho]
      rw [ho] at hfollows
      cases hfollows with
      | strict hstrict => exact .strict hstrict
    | ok e' =>
      rw [ho] at hfollows
      cases hfollows with
      | ok hd =>
        cases hstop : e.cursor.readChain.stop with
        | error refusal =>
          rw [complete_of_refused ho hstop]
          exact .refused hstop
        | ok stop =>
          cases hend : stop.atEnd with
          | false =>
            rw [complete_of_beforeEnd ho hstop hend]
            exact .beforeEnd hstop hend
          | true =>
            obtain ⟨t, rfl⟩ := (hclosed stop hstop).exists_tree
            have hvalue : ([(t.value s.precision memory).1], (t.value s.precision memory).2) =
                (e'.machine.operands, e'.machine.memory) := hd.machine.holds
            obtain ⟨hx, hm⟩ := Prod.mk.inj hvalue
            rw [complete_of_atEnd ho hstop hend hd.machine.operators hx.symm]
            exact .value hstop hend hrun (Prod.ext rfl hm)

end Complete

/-! ## 4. The answer to a line -/

variable {c : Calculator} {line : String} {source : Source}

theorem evaluate_of_ofLine (h : Source.ofLine line = .ok source) :
    c.evaluate line =
      c.conclude source (Evaluation.start c.settings c.memory source).complete := by
  unfold Calculator.evaluate
  rw [h]

/-- A line without a source fails, and nothing happens. -/
theorem evaluate_of_ofLine_error {err : EvalError} (h : Source.ofLine line = .error err) :
    c.evaluate line = ⟨.error err, c, []⟩ := by
  unfold Calculator.evaluate
  rw [h]

/-- A line of which nothing is left is an error of its own. -/
theorem result_of_ofLine_error {err : EvalError} (h : Source.ofLine line = .error err) :
    (c.evaluate line).result = .error ⟨0, .emptyExpression⟩ := by
  unfold Calculator.evaluate
  rw [h]
  unfold Source.ofLine at h
  split at h
  · cases h
    rfl
  · cases h

theorem result_conclude (c : Calculator) (source : Source)
    (done : Except EvalError Float × Evaluation) : (c.conclude source done).result = done.1 := by
  obtain ⟨result, e⟩ := done
  cases result <;> rfl

theorem exists_ok_of_isOk {result : Except EvalError Float} (h : result.isOk = true) :
    ∃ x, result = .ok x := by
  cases result with
  | ok x => exact ⟨x, rfl⟩
  | error err => cases h

theorem exists_error_of_isOk {result : Except EvalError Float} (h : result.isOk = false) :
    ∃ err, result = .error err := by
  cases result with
  | ok x => cases h
  | error err => exact ⟨err, rfl⟩

/-- The evaluation of a source starts with a machine that a new builder describes. -/
theorem describes_start (c : Calculator) (source : Source) :
    Builder.initial.DescribesEvaluation c.settings c.memory
      (Evaluation.start c.settings c.memory source) :=
  ⟨rfl, describes_initial _ _⟩

/-- **The evaluation of a source ends in one of the ways.** -/
theorem completes_start (c : Calculator) (source : Source) :
    Completes c.settings c.memory source.start
      (Evaluation.start c.settings c.memory source).complete :=
  completes (describes_start c source)

/-- **A line with a value was read up to the end of its text**, and its code builds the one tree that
    has the value. -/
theorem built_of_ok {x : Float} (hs : Source.ofLine line = .ok source)
    (h : (c.evaluate line).result = .ok x) :
    ∃ stop t, source.start.readChain.stop = .ok stop ∧ stop.atEnd = true ∧
      run source.start.readChain.code.instructions .initial = .ok ⟨[t], [], []⟩ ∧
      (t.value c.settings.precision c.memory).1 = x := by
  have hcomp := completes_start c source
  rw [evaluate_of_ofLine hs, result_conclude] at h
  generalize (Evaluation.start c.settings c.memory source).complete = done at hcomp h
  obtain ⟨result, e⟩ := done
  cases h
  cases hcomp with
  | value hstop hend hrun hvalue => exact ⟨_, _, hstop, hend, hrun, by rw [hvalue]⟩

end DeskCalculator
