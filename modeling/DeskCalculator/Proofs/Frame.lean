import DeskCalculator.Proofs.History
import DeskCalculator.Proofs.Places

/-!
# What an evaluation leaves alone

An evaluation binds the names that its text assigns, and makes its value the last answer. This file
fixes

* `exists_assign_of_exec` -- code changes a name only if it binds it;
* `boundBefore_of_failed` -- code that fails has bound it behind its equals sign, before the error;
* `boundBefore_of_ok`, `boundBefore_of_error` -- the same of a line, with a value and without;
* `get?_evaluate`, `get?_answerName_of_ok` -- what a line does not assign keeps its value, and a
  value becomes the last answer.

Main statement: **an evaluation unbinds nothing and binds only names that stand before an equals sign,
before its error if it fails; a value binds the last answer besides** (`assigned_of_get?_ne`).
-/

namespace DeskCalculator

/-! ## 1. Tables -/

theorem foldName_answerName : foldName Variables.answerName = Variables.answerName := by decide

namespace Variables

variable {v : Variables} {name : String}

/-- A value changes the last answer only. -/
theorem get?_concluded (h : foldName name ≠ answerName) (v : Variables)
    (result : Except EvalError Float) : (v.concluded result).get? name = v.get? name := by
  cases result with
  | error err => rfl
  | ok x =>
    rw [concluded, setLastAnswer, get?_set, foldName_answerName, if_neg fun e => h e.symm]

/-- An event unbinds nothing. -/
theorem isSome_get?_afterEvent (e : Event) (h : (v.get? name).isSome = true) :
    ((v.afterEvent e).get? name).isSome = true := by
  unfold afterEvent
  split
  · exact h
  · rw [get?_set]
    split
    · rfl
    · exact h

/-- **Events unbind nothing.** -/
theorem isSome_get?_after (events : List Event) (h : (v.get? name).isSome = true) :
    ((v.after events).get? name).isSome = true := by
  induction events generalizing v with
  | nil => exact h
  | cons e events ih => exact ih (isSome_get?_afterEvent e h)

end Variables

/-! ## 2. Code -/

section Code

variable {s : Settings} {m m' : Machine} {code : Code} {name : String} {err : EvalError}
  {ts : List Token}

/-- **Code changes a name only if it binds it.** -/
theorem exists_assign_of_exec
    (h : (m.exec s code).state.memory.get? name ≠ m.memory.get? name) :
    ∃ i ∈ code, ∃ bound, i.instruction = .assign bound ∧ foldName bound = foldName name := by
  by_contra hnone
  refine h (Machine.get?_exec s (fun bound hbound hfold => hnone ?_) m)
  obtain ⟨i, hi, hassign⟩ := List.mem_map.1 hbound
  exact ⟨i, hi, bound, Instruction.unplaced_eq_assign_iff.1 hassign, hfold⟩

/-- **Code that fails changes a name only if it binds it before the error.** -/
theorem boundBefore_of_failed (horder : code.Pairwise fun i j => ∀ name,
      i.instruction = .assign name → BoundBefore ts j.place name)
    (h : m.exec s code = .failed err m') (hne : m'.memory.get? name ≠ m.memory.get? name) :
    ∃ bound, foldName bound = foldName name ∧ BoundBefore ts err.position bound := by
  induction code generalizing m with
  | nil => cases h
  | cons i code ih =>
    obtain ⟨hfirst, hrest⟩ := List.pairwise_cons.1 horder
    rw [Machine.exec] at h
    cases hm : m.step s i.cursor.position i.instruction with
    | failed err₁ m₁ =>
      rw [hm] at h
      cases h
      exact absurd (congrArg (Variables.get? · name) (Machine.failed_step hm).2) hne
    | ok m₁ =>
      rw [hm] at h
      by_cases hsame : m₁.memory.get? name = m.memory.get? name
      · exact ih hrest h (by rwa [hsame])
      · -- the name is bound here, and a later instruction fails
        obtain ⟨j, hj, hplace⟩ := Machine.exists_place_of_exec h
        have hchanged : (m.exec s [i]).state.memory.get? name ≠ m.memory.get? name := by
          rwa [Machine.exec_singleton, hm]
        obtain ⟨i', hi', bound, hassign, hfold⟩ := exists_assign_of_exec hchanged
        cases List.mem_singleton.1 hi'
        exact ⟨bound, hfold, hplace ▸ hfirst j hj bound hassign⟩

/-- **A program changes a name only if it binds it before it ends.** -/
theorem Program.boundBefore_of_get?_ne {p : Program} {first : Nat}
    (hp : p.code.Dated ts first p.place)
    (hne : (p.outcome s m).2.memory.get? name ≠ m.memory.get? name) :
    ∃ bound, foldName bound = foldName name ∧ BoundBefore ts p.place bound := by
  rw [p.snd_outcome] at hne
  obtain ⟨i, hi, bound, hassign, hfold⟩ := exists_assign_of_exec hne
  exact ⟨bound, hfold, hp.binds i hi bound hassign⟩

/-- **A program that fails changes a name only if it binds it before the error.** -/
theorem Program.boundBefore_of_error {p : Program} {first : Nat}
    (hp : p.code.Dated ts first p.place) (h : (p.outcome s m).1 = .error err)
    (hne : (p.outcome s m).2.memory.get? name ≠ m.memory.get? name) :
    ∃ bound, foldName bound = foldName name ∧ BoundBefore ts err.position bound := by
  cases hexec : m.exec s p.code with
  | failed err₁ m₁ =>
    rw [Program.outcome_of_failed hexec] at h hne
    cases h
    exact boundBefore_of_failed hp.order hexec hne
  | ok m₁ =>
    rw [Program.position_of_error hexec h]
    exact p.boundBefore_of_get?_ne hp hne

end Code

/-! ## 3. Lines -/

section Line

variable {c : Calculator} {line name : String}

/-- What is bound under a name of a source is bound under the form of the name. -/
theorem boundBefore_foldName {source : Source} {position : Nat}
    (hs : Source.ofLine line = .ok source)
    (h : ∃ bound, foldName bound = foldName name ∧ BoundBefore source.start.tokens position bound) :
    BoundBefore (lineTokens line) position (foldName name) := by
  obtain ⟨bound, hfold, hbound⟩ := h
  have hmem : .name bound ∈ source.start.tokens := hbound.assigned_text.subset (by simp)
  rw [← hfold, foldName_of_mem_tokens hs hmem]
  exact hbound.mono (tokens_prefix_lineTokens hs) (Nat.le_refl _)

/-- **A line with a value changes a name other than the last answer only if it binds it.** -/
theorem boundBefore_of_ok {x : Float} (hr : (c.evaluate line).result = .ok x)
    (hname : foldName name ≠ Variables.answerName)
    (hne : (c.evaluate line).calculator.memory.get? name ≠ c.memory.get? name) :
    ∃ position, BoundBefore (lineTokens line) position (foldName name) := by
  cases hs : Source.ofLine line with
  | error err =>
    rw [result_of_ofLine_error hs] at hr
    cases hr
  | ok source =>
    rw [memory_of_ofLine hs, Variables.get?_concluded hname] at hne
    exact ⟨_, boundBefore_foldName hs
      (source.program.boundBefore_of_get?_ne (dated_program source) hne)⟩

/-- **A line that fails changes a name only if it binds it before the error.** -/
theorem boundBefore_of_error {err : EvalError} (hr : (c.evaluate line).result = .error err)
    (hne : (c.evaluate line).calculator.memory.get? name ≠ c.memory.get? name) :
    BoundBefore (lineTokens line) err.position (foldName name) := by
  cases hs : Source.ofLine line with
  | error err =>
    rw [evaluate_of_ofLine_error hs] at hne
    exact absurd rfl hne
  | ok source =>
    rw [memory_of_ofLine hs, hr] at hne
    rw [result_of_ofLine hs] at hr
    exact boundBefore_foldName hs
      (source.program.boundBefore_of_error (dated_program source) hr hne)

/-- **What a line does not assign keeps its value**, but for the last answer after a value. -/
theorem get?_evaluate (hname : ¬ Assigned (lineTokens line) (foldName name))
    (hr : foldName name = Variables.answerName → ∀ x, (c.evaluate line).result ≠ .ok x) :
    (c.evaluate line).calculator.memory.get? name = c.memory.get? name := by
  by_contra hne
  have hbound : ∃ position, BoundBefore (lineTokens line) position (foldName name) := by
    cases hresult : (c.evaluate line).result with
    | ok x => exact boundBefore_of_ok hresult (fun h => hr h x hresult) hne
    | error err => exact ⟨_, boundBefore_of_error hresult hne⟩
  obtain ⟨position, hbound⟩ := hbound
  exact hname hbound.assigned_text

/-- A value becomes the last answer. -/
theorem get?_answerName_of_ok {x : Float} (hr : (c.evaluate line).result = .ok x) :
    (c.evaluate line).calculator.memory.get? Variables.answerName = some x := by
  cases hs : Source.ofLine line with
  | error err =>
    rw [result_of_ofLine_error hs] at hr
    cases hr
  | ok source =>
    rw [memory_of_ofLine hs, hr, Variables.concluded, Variables.setLastAnswer, Variables.get?_set,
      if_pos rfl]

end Line

/-- **An evaluation unbinds nothing.** A name other than the last answer that a line with a value
    changes is no function and stands before an equals sign; any name that a line changes and then
    fails does so before the place of the error. -/
theorem assigned_of_get?_ne (c : Calculator) (line name : String) :
    let answer := c.evaluate line
    let after := answer.calculator.memory.get? name
    ((c.memory.get? name).isSome = true → after.isSome = true) ∧
    (∀ x, answer.result = .ok x → foldName name ≠ Variables.answerName →
      after ≠ c.memory.get? name →
      Function.ofName? (foldName name) = none ∧ Assigned (lineTokens line) (foldName name)) ∧
    ∀ err, answer.result = .error err → after ≠ c.memory.get? name →
      Function.ofName? (foldName name) = none ∧
        AssignedBefore (lineTokens line) (foldName name) err.position := by
  refine ⟨fun h => ?_, fun x hr hname hne => ?_, fun err hr hne => ?_⟩
  · rw [memory_evaluate]
    exact Variables.isSome_get?_after _ h
  · obtain ⟨position, hbound⟩ := boundBefore_of_ok hr hname hne
    exact ⟨hbound.function, hbound.assigned_text⟩
  · have hbound := boundBefore_of_error hr hne
    exact ⟨hbound.function, hbound.assigned⟩

/-- A constant keeps its value, and a new name was assigned, in the line that fails before the
    parenthesis that nothing opened. -/
theorem assigned_of_get?_ne_surplus :
    ((({} : Calculator).evaluate "2+(x=5))").calculator.memory.get? "pi").isSome = true ∧
    Assigned (lineTokens "2+(X = 5)") (foldName "x") ∧
    ∃ err, (({} : Calculator).evaluate "2+(x=5))").result = .error err ∧
      AssignedBefore (lineTokens "2+(x=5))") (foldName "x") err.position := by
  have hnew : ∀ line ∈ ["2+(X = 5)", "2+(x=5))"],
      (({} : Calculator).evaluate line).calculator.memory.get? "x" ≠
        ({} : Calculator).memory.get? "x" := by
    intro line hline h
    have hbound : ∀ line ∈ ["2+(X = 5)", "2+(x=5))"],
        ((({} : Calculator).evaluate line).calculator.memory.get? "x").isSome = true := by
      decide +kernel
    have hunbound : (({} : Calculator).memory.get? "x").isSome = false := by decide +kernel
    rw [← h, hbound line hline] at hunbound
    cases hunbound
  refine ⟨(assigned_of_get?_ne {} _ "pi").1 (by decide +kernel), ?_, ?_⟩
  · have hvalue : (({} : Calculator).evaluate "2+(X = 5)").result.isOk = true := by decide +kernel
    obtain ⟨x, hx⟩ := exists_ok_of_isOk hvalue
    exact ((assigned_of_get?_ne {} _ "x").2.1 x hx (by decide +kernel)
      (hnew _ List.mem_cons_self)).2
  · have hfails : (({} : Calculator).evaluate "2+(x=5))").result.isOk = false := by decide +kernel
    obtain ⟨err, herr⟩ := exists_error_of_isOk hfails
    exact ⟨err, herr, ((assigned_of_get?_ne {} _ "x").2.2 err herr
      (hnew _ (List.mem_cons_of_mem _ (List.mem_singleton_self _)))).2⟩

end DeskCalculator
