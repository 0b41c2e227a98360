import DeskCalculator.Proofs.Program

/-!
# Runs that differ in values only

Lenient evaluation never looks at a value: what it does next depends on the text and on how many
operands there are. This file fixes

* `Deed`, `Event.deed` -- what happened, without the values: the names that were read and bound, and
  the operators that were applied;
* `Machine.Parallel` -- machines with equally many operands, the same operators and the same deeds;
* `Outcome.Parallel` -- both steps succeed, or both fail with one error, and lead to such machines.

Main statement: **two lenient evaluations of one line both have a value or both fail with one error,
and do the same deeds** (`evaluate_lenient`), whatever their tables hold and to however many places
they round.
-/

namespace DeskCalculator

/-! ## 1. Deeds -/

/-- What happened, without the values. -/
inductive Deed where
  | read (name : String) (position : Nat)
  | reduced (op : Operator)
  | assigned (name : String)
  | evaluated (text : String)
  deriving Repr, DecidableEq

/-- The deed that an event is. -/
def Event.deed : Event → Deed
  | read name position _ => .read name position
  | reduced op _ _ => .reduced op
  | assigned name _ => .assigned name
  | evaluated text _ => .evaluated text

/-! ## 2. Parallel machines -/

/-- Equally many operands, the same operators and the same deeds. -/
structure Machine.Parallel (m m' : Machine) : Prop where
  operands : m.operands.length = m'.operands.length
  operators : m.operators = m'.operators
  deeds : m.events.map Event.deed = m'.events.map Event.deed

/-- Both succeed or both fail with one error, and the machines are parallel. -/
inductive Outcome.Parallel : Outcome Machine → Outcome Machine → Prop where
  | ok {m m' : Machine} (h : m.Parallel m') : Parallel (.ok m) (.ok m')
  | failed (err : EvalError) {m m' : Machine} (h : m.Parallel m') :
      Parallel (.failed err m) (.failed err m')

theorem Outcome.Parallel.andThen {o o' : Outcome Machine} {f f' : Machine → Outcome Machine}
    (h : o.Parallel o') (hf : ∀ m m' : Machine, m.Parallel m' → (f m).Parallel (f' m')) :
    (o.andThen f).Parallel (o'.andThen f') := by
  cases h with
  | ok h => exact hf _ _ h
  | failed err h => exact .failed err h

namespace Machine

variable {s s' : Settings} {m m' : Machine} {position : Nat}

theorem Parallel.pushOperand (h : m.Parallel m') (x x' : Float) :
    (m.pushOperand x).Parallel (m'.pushOperand x') :=
  ⟨congrArg (· + 1) h.operands, h.operators, h.deeds⟩

theorem Parallel.pushOperator (h : m.Parallel m') (op : Operator) :
    (m.pushOperator op).Parallel (m'.pushOperator op) :=
  ⟨h.operands, congrArg (op :: ·) h.operators, h.deeds⟩

theorem Parallel.record (h : m.Parallel m') {e e' : Event} (he : e.deed = e'.deed) :
    (m.record e).Parallel (m'.record e') := by
  refine ⟨h.operands, h.operators, ?_⟩
  show e.deed :: m.events.map Event.deed = e'.deed :: m'.events.map Event.deed
  rw [he, h.deeds]

theorem Parallel.withOperators (h : m.Parallel m') (ops : List Operator) :
    Parallel { m with operators := ops } { m' with operators := ops } := ⟨h.operands, rfl, h.deeds⟩

theorem Parallel.withOperands (h : m.Parallel m') {xs xs' : List Float}
    (hlen : xs.length = xs'.length) :
    Parallel { m with operands := xs } { m' with operands := xs' } := ⟨hlen, h.operators, h.deeds⟩

theorem Parallel.fault (h : m.Parallel m') (f : ArithmeticFault) :
    (m.fault position f).Parallel (m'.fault position f) := .failed _ h

/-! ## 3. Lenient steps -/

/-- Without strictness every result is delivered. -/
theorem deliver_of_lenient (hs : s.strict = false) (op : Operator) (operands : List Float)
    (raw : Float) (m : Machine) :
    m.deliver s position op operands raw =
      .ok ((m.record (.reduced op operands (Number.roundTo raw s.precision))).pushOperand
        (Number.roundTo raw s.precision)) := by
  simp only [deliver, hs, Bool.false_and, Bool.false_eq_true, if_false]

/-- Without strictness every name has a value. -/
theorem read_of_lenient (hs : s.strict = false) (name : String) (m : Machine) :
    m.read s position name =
      .ok ((m.record (.read name position (m.memory.get? name))).pushOperand
        (m.memory.getD name)) := by
  unfold read lookUp Variables.getD
  cases m.memory.get? name with
  | some x => rfl
  | none => simp only [hs, Bool.false_eq_true, if_false, Option.getD_none]

theorem parallel_deliver (hs : s.strict = false) (hs' : s'.strict = false) (h : m.Parallel m')
    (op : Operator) (operands operands' : List Float) (raw raw' : Float) :
    (m.deliver s position op operands raw).Parallel
      (m'.deliver s' position op operands' raw') := by
  rw [deliver_of_lenient hs, deliver_of_lenient hs']
  refine .ok (Parallel.pushOperand (h.record ?_) _ _)
  rfl

theorem parallel_applyOperator (hs : s.strict = false) (hs' : s'.strict = false)
    (h : m.Parallel m') (op : Operator) :
    (m.applyOperator s position op).Parallel (m'.applyOperator s' position op) := by
  obtain ⟨operands, operators, memory, events⟩ := m
  obtain ⟨operands', operators', memory', events'⟩ := m'
  cases op with
  | scope => exact h.fault _
  | binary f =>
    match operands, operands', h.operands with
    | [], [], _ => exact (h.withOperands rfl).fault _
    | [_], [_], _ => exact (h.withOperands rfl).fault _
    | right :: left :: rest, right' :: left' :: rest', hlen =>
      have hrest : rest.length = rest'.length := Nat.succ.inj (Nat.succ.inj hlen)
      exact parallel_deliver hs hs' (h.withOperands hrest) _ _ _ _ _
  | unary f =>
    match operands, operands', h.operands with
    | [], [], _ => exact h.fault _
    | x :: rest, x' :: rest', hlen =>
      have haccepts : ∀ {s : Settings} (y : Float), s.strict = false → refuses s f y = false := by
        intro s y hs
        simp only [refuses, hs, Bool.false_and]
      simp only [applyOperator, haccepts x hs, haccepts x' hs', Bool.false_eq_true, if_false]
      exact parallel_deliver hs hs' (h.withOperands (Nat.succ.inj hlen)) _ _ _ _ _

theorem parallel_reduceTimes (hs : s.strict = false) (hs' : s'.strict = false)
    (h : m.Parallel m') (n : Nat) :
    (m.reduceTimes s position n).Parallel (m'.reduceTimes s' position n) := by
  induction n generalizing m m' with
  | zero => exact .ok h
  | succ n ih =>
    refine Outcome.Parallel.andThen ?_ fun _ _ h => ih h
    unfold reduce
    rw [← h.operators]
    split
    · exact h.fault _
    · exact parallel_applyOperator hs hs' (h.withOperators _) _

theorem parallel_reduceWhile (hs : s.strict = false) (hs' : s'.strict = false)
    (h : m.Parallel m') (test : Operator → Bool) :
    (m.reduceWhile s position test).Parallel (m'.reduceWhile s' position test) := by
  unfold reduceWhile
  rw [← h.operators]
  exact parallel_reduceTimes hs hs' h _

theorem parallel_closeScope (h : m.Parallel m') :
    (m.closeScope position).Parallel (m'.closeScope position) := by
  unfold closeScope
  rw [← h.operators]
  split
  · exact h.fault _
  · exact .ok (h.withOperators _)
  · exact (h.withOperators _).fault _

theorem parallel_assign (h : m.Parallel m') (name : String) :
    (m.assign position name).Parallel (m'.assign position name) := by
  obtain ⟨operands, operators, memory, events⟩ := m
  obtain ⟨operands', operators', memory', events'⟩ := m'
  match operands, operands', h.operands with
  | [], [], _ => exact .failed _ h
  | x :: rest, x' :: rest', hlen =>
    exact .ok ⟨hlen, h.operators, congrArg (Deed.assigned name :: ·) h.deeds⟩

/-- **One instruction leads parallel machines to parallel machines.** -/
theorem parallel_step (hs : s.strict = false) (hs' : s'.strict = false) (h : m.Parallel m')
    (i : Instruction) : (m.step s position i).Parallel (m'.step s' position i) := by
  cases i with
  | literal x => exact .ok (h.pushOperand x x)
  | read name start =>
    simp only [step, read_of_lenient hs, read_of_lenient hs']
    refine .ok (Parallel.pushOperand (h.record ?_) _ _)
    rfl
  | operator op =>
    exact (parallel_reduceWhile hs hs' h _).andThen fun _ _ h => .ok (h.pushOperator op)
  | hold op => exact .ok (h.pushOperator op)
  | openScope => exact .ok (h.pushOperator .scope)
  | closeScope => exact parallel_closeScope h
  | settle => exact parallel_reduceWhile hs hs' h _
  | assign name => exact parallel_assign h name

/-- **So does any code.** -/
theorem parallel_exec (hs : s.strict = false) (hs' : s'.strict = false) (code : Code)
    (h : m.Parallel m') : (m.exec s code).Parallel (m'.exec s' code) := by
  induction code generalizing m m' with
  | nil => exact .ok h
  | cons i code ih => exact (parallel_step hs hs' h i.instruction).andThen fun _ _ h => ih h

end Machine

/-! ## 4. Evaluations -/

/-- Both have a value, or both fail with one error. -/
inductive SameFate : Except EvalError Float → Except EvalError Float → Prop where
  | ok (x x' : Float) : SameFate (.ok x) (.ok x')
  | error (err : EvalError) : SameFate (.error err) (.error err)

/-- **Two lenient runs of one program end alike.** -/
theorem Program.parallel_outcome (p : Program) {s s' : Settings} (hs : s.strict = false)
    (hs' : s'.strict = false) {m m' : Machine} (h : m.Parallel m') :
    SameFate (p.outcome s m).1 (p.outcome s' m').1 ∧
      (p.outcome s m).2.Parallel (p.outcome s' m').2 := by
  have hexec := Machine.parallel_exec hs hs' p.code h
  unfold outcome
  generalize m.exec s p.code = o, m'.exec s' p.code = o' at hexec
  cases hexec with
  | failed err h => exact ⟨.error err, h⟩
  | @ok m₁ m₁' h =>
    obtain ⟨operands, operators, memory, events⟩ := m₁
    obtain ⟨operands', operators', memory', events'⟩ := m₁'
    cases p.ending with
    | error err => exact ⟨.error err, h⟩
    | ok position =>
      match operands, operands', h.operands with
      | [], [], _ => exact ⟨.error _, h⟩
      | [x], [x'], _ => exact ⟨.ok x x', h⟩
      | _ :: _ :: _, _ :: _ :: _, _ => exact ⟨.error _, h⟩

theorem deeds_closing {result result' : Except EvalError Float} (h : SameFate result result')
    (source : Source) :
    (source.closing result).map Event.deed = (source.closing result').map Event.deed := by
  cases h <;> rfl

/-- **Two lenient evaluations of one line** both have a value or both fail with one error, at one
    place; they read the same names, apply the same operators and bind the same names, all in one
    order. -/
theorem evaluate_lenient (memory memory' : Variables) (places places' : Int) (line : String) :
    let answer := Calculator.evaluate ⟨memory, ⟨places, false⟩⟩ line
    let answer' := Calculator.evaluate ⟨memory', ⟨places', false⟩⟩ line
    SameFate answer.result answer'.result ∧
      answer.events.map Event.deed = answer'.events.map Event.deed := by
  simp only
  cases hs : Source.ofLine line with
  | error err =>
    rw [evaluate_of_ofLine_error hs, evaluate_of_ofLine_error hs]
    exact ⟨.error err, rfl⟩
  | ok source =>
    have hstart : (Machine.initial memory).Parallel (.initial memory') := ⟨rfl, rfl, rfl⟩
    have hlenient : ∀ places, (Settings.mk places false).strict = false := fun _ => rfl
    obtain ⟨hfate, hparallel⟩ :=
      source.program.parallel_outcome (hlenient places) (hlenient places') hstart
    rw [events_of_ofLine hs, events_of_ofLine hs, result_of_ofLine hs, result_of_ofLine hs]
    refine ⟨hfate, ?_⟩
    rw [List.map_append, List.map_append, List.map_reverse, List.map_reverse, hparallel.deeds,
      deeds_closing hfate]

end DeskCalculator
