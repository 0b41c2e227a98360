import DeskCalculator.Proofs.Frame

/-!
# The last answer

The last answer is the variable `r`, and an expression may assign it before it fails. This file fixes

* `Event.answer?`, `Answer.given` -- the value that an event gives to `r`, and those that an
  evaluation leaves there;
* `Calculator.answers`, `Calculator.following` -- evaluations one after the other, each with its
  own settings, and the calculator after them;
* `lastAnswer_of_ok`, `lastAnswer_of_error` -- the last answer after one evaluation.

Main statement: **the last answer is the last value that an evaluation or an assignment gave to `r`**;
it is the most recent result if no line that fails assigns `r` (`lastAnswer_following`).
-/

namespace DeskCalculator

/-! ## 1. Values for the last answer -/

/-- The value that an event gives to the last answer. -/
def Event.answer? (e : Event) : Option Float :=
  match e.binding? with
  | some (name, x) => if foldName name = foldName Variables.answerName then some x else none
  | none => none

theorem Variables.lastAnswer_set (v : Variables) (name : String) (x : Float) :
    (v.set name x).lastAnswer =
      if foldName name = foldName answerName then x else v.lastAnswer := by
  rw [lastAnswer, getD, get?_set]
  split <;> rfl

theorem Variables.lastAnswer_afterEvent (v : Variables) (e : Event) :
    (v.afterEvent e).lastAnswer = e.answer?.getD v.lastAnswer := by
  unfold afterEvent Event.answer?
  cases e.binding? with
  | none => rfl
  | some binding =>
    obtain ⟨name, x⟩ := binding
    simp only [lastAnswer_set]
    split <;> rfl

/-- **The last answer after some events** is the last value that one of them gave to it. -/
theorem Variables.lastAnswer_after (v : Variables) (events : List Event) :
    (v.after events).lastAnswer = (events.filterMap Event.answer?).getLastD v.lastAnswer := by
  induction events generalizing v with
  | nil => rfl
  | cons e events ih =>
    have hafter : v.after (e :: events) = (v.afterEvent e).after events := rfl
    rw [hafter, ih, lastAnswer_afterEvent, List.filterMap_cons]
    cases e.answer? with
    | none => rfl
    | some x => rw [List.getLastD_cons, Option.getD_some]

/-- The values that an evaluation gives to the last answer, the one it leaves there last: its result,
    or what was assigned before it failed. -/
def Answer.given (a : Answer) : List Float :=
  match a.result with
  | .ok x => [x]
  | .error _ => a.events.filterMap Event.answer?

/-! ## 2. One evaluation -/

section One

variable {c : Calculator} {line : String}

theorem lastAnswer_of_ok {x : Float} (h : (c.evaluate line).result = .ok x) :
    (c.evaluate line).calculator.memory.lastAnswer = x := by
  rw [Variables.lastAnswer, Variables.getD, get?_answerName_of_ok h, Option.getD_some]

/-- **The last answer after an evaluation** is the last value that it gave. -/
theorem lastAnswer_evaluate (c : Calculator) (line : String) :
    (c.evaluate line).calculator.memory.lastAnswer =
      (c.evaluate line).given.getLastD c.memory.lastAnswer := by
  cases hr : (c.evaluate line).result with
  | ok x => rw [lastAnswer_of_ok hr, Answer.given, hr, List.getLastD_cons, List.getLastD_nil]
  | error err => rw [memory_evaluate, Variables.lastAnswer_after, Answer.given, hr]

/-- **A line that fails leaves the last answer alone** if it does not assign it. -/
theorem lastAnswer_of_error {err : EvalError} (h : (c.evaluate line).result = .error err)
    (hr : ¬ Assigned (lineTokens line) Variables.answerName) :
    (c.evaluate line).calculator.memory.lastAnswer = c.memory.lastAnswer := by
  have hfails : ∀ x, (c.evaluate line).result ≠ .ok x := by
    intro x hx
    rw [h] at hx
    cases hx
  rw [← foldName_answerName] at hr
  rw [Variables.lastAnswer, Variables.getD, get?_evaluate hr fun _ => hfails]
  rfl

end One

/-! ## 3. Evaluations one after the other -/

namespace Calculator

/-- The lines with their answers, each given by the calculator that the one before left behind. -/
def answers (c : Calculator) : List (Settings × String) → List (String × Answer)
  | [] => []
  | (settings, line) :: calls =>
    let answer := { c with settings }.evaluate line
    (line, answer) :: answer.calculator.answers calls

/-- The calculator afterwards. -/
def following (c : Calculator) : List (Settings × String) → Calculator
  | [] => c
  | (settings, line) :: calls => ({ c with settings }.evaluate line).calculator.following calls

theorem answers_cons (c : Calculator) (settings : Settings) (line : String)
    (calls : List (Settings × String)) :
    c.answers ((settings, line) :: calls) = (line, evaluate { c with settings } line) ::
      (evaluate { c with settings } line).calculator.answers calls := rfl

theorem following_cons (c : Calculator) (settings : Settings) (line : String)
    (calls : List (Settings × String)) :
    c.following ((settings, line) :: calls) =
      (evaluate { c with settings } line).calculator.following calls := by
  rw [following]

end Calculator

/-- **The last answer is the last value that an evaluation or an assignment gave to it**: the most
    recent result, as long as no line that fails assigns it. -/
theorem lastAnswer_following (c : Calculator) (calls : List (Settings × String)) :
    (c.following calls).memory.lastAnswer =
      ((c.answers calls).flatMap fun entry => entry.2.given).getLastD c.memory.lastAnswer ∧
    ((∀ entry ∈ c.answers calls, Assigned (lineTokens entry.1) Variables.answerName →
        ∃ x, entry.2.result = .ok x) →
      (c.following calls).memory.lastAnswer =
        ((c.answers calls).filterMap fun entry => entry.2.result.toOption).getLastD
          c.memory.lastAnswer) := by
  induction calls generalizing c with
  | nil => exact ⟨rfl, fun _ => rfl⟩
  | cons call calls ih =>
    obtain ⟨settings, line⟩ := call
    have hfirst := lastAnswer_evaluate { c with settings } line
    have hok := @lastAnswer_of_ok { c with settings } line
    have herror := @lastAnswer_of_error { c with settings } line
    rw [Calculator.following_cons, Calculator.answers_cons]
    -- the other calls start from the calculator that the first one leaves
    generalize Calculator.evaluate { c with settings } line = a at hfirst hok herror ⊢
    obtain ⟨hlaw, hrecent⟩ := ih a.calculator
    constructor
    · rw [hlaw, hfirst, List.flatMap_cons, Lists.getLastD_append]
    · intro hkept
      rw [List.forall_mem_cons] at hkept
      rw [hrecent hkept.2, List.filterMap_cons]
      cases hr : a.result with
      | ok x => rw [hok hr, Except.toOption, List.getLastD_cons]
      | error err =>
        have hnot : ¬ Assigned (lineTokens line) Variables.answerName := by
          intro hassigned
          obtain ⟨x, hx⟩ := hkept.1 hassigned
          rw [hr] at hx
          cases hx
        rw [herror hr hnot, Except.toOption]

/-- A result that was assigned as well, and then a line that binds another name and fails. -/
theorem lastAnswer_following_assigned :
    (({} : Calculator).following [({}, "r=7"), ({ strict := true }, "x=5)")]).memory.lastAnswer =
      ((({} : Calculator).answers [({}, "r=7"), ({ strict := true }, "x=5)")]).filterMap
        fun entry => entry.2.result.toOption).getLastD
          ({} : Calculator).memory.lastAnswer := by
  refine (lastAnswer_following {} _).2 fun entry hentry hassigned => ?_
  have hok : ∀ entry ∈ ({} : Calculator).answers [({}, "r=7"), ({ strict := true }, "x=5)")],
      Assigned (lineTokens entry.1) Variables.answerName → entry.2.result.isOk = true := by
    decide +kernel
  have hok := hok entry hentry hassigned
  cases hr : entry.2.result with
  | ok x => exact ⟨x, rfl⟩
  | error err =>
    rw [hr] at hok
    cases hok

/-- An assignment to the last answer stays, even if the line fails. -/
theorem not_lastAnswer_following :
    ¬ ∀ (c : Calculator) (calls : List (Settings × String)),
      (c.following calls).memory.lastAnswer =
        ((c.answers calls).filterMap fun entry => entry.2.result.toOption).getLastD
          c.memory.lastAnswer := by
  intro h
  have := congrArg Float.toBits (h {} [({}, "r=5)")])
  revert this
  decide +kernel

end DeskCalculator
