import DeskCalculator.Proofs.LastAnswer

/-!
# What an evaluation depends on

An evaluation looks up the names of its text and nothing else. This file fixes

* `error?_step`, `error?_exec` -- on machines that agree on what it reads, code fails with one error
  at one place, or not at all;
* `Program.outcome_of_agrees` -- a program has one result on such machines;
* `agrees_evaluate` -- a line has one result on tables that agree on its names, and the tables still
  agree wherever they did;
* `result_of_mem_answers` -- a line that binds nothing and does not look at the last answer, again
  and again.

Main statement: **an evaluation depends on the names in its text only** (`evaluate_of_agrees`).
-/

namespace DeskCalculator

/-! ## 1. Code on machines that agree -/

section Code

variable {P : String → Prop} {s : Settings} {m m' : Machine} {position : Nat} {code : Code}

namespace Machine

/-- **One instruction fails with one error** on machines that agree on what it reads. -/
theorem error?_step (h : m.Agrees P m') {i : Instruction} (hreads : ∀ name, i.Reads name → P name) :
    (m.step s position i).error? = (m'.step s position i).error? := by
  have hstep : (m.step s position i).Agrees P (m'.step s position i) := agrees_step h rfl hreads
  cases ho : m.step s position i with
  | ok m₁ =>
    cases ho' : m'.step s position i with
    | ok m₁' => rfl
    | failed err' m₁' =>
      rw [ho, ho'] at hstep
      cases hstep
  | failed err m₁ =>
    cases ho' : m'.step s position i with
    | ok m₁' =>
      rw [ho, ho'] at hstep
      cases hstep
    | failed err' m₁' =>
      rw [ho, ho'] at hstep
      cases hstep with
      | failed hcause _ =>
        have hplace : err.position = err'.position :=
          (failed_step ho).1.trans (failed_step ho').1.symm
        exact congrArg some (congrArg₂ EvalError.mk hplace hcause)

/-- **So does any code.** -/
theorem error?_exec (h : m.Agrees P m') (hreads : ReadsOnly P code.outline) :
    (m.exec s code).error? = (m'.exec s code).error? := by
  induction code generalizing m m' with
  | nil => rfl
  | cons i code ih =>
    rw [outline_cons] at hreads
    have hfirst : ∀ name, i.instruction.Reads name → P name := fun name hname =>
      hreads _ List.mem_cons_self name (Instruction.reads_unplaced.2 hname)
    have hstep : (m.step s i.cursor.position i.instruction).Agrees P
        (m'.step s i.cursor.position i.instruction) := agrees_step h rfl hfirst
    have herror : (m.step s i.cursor.position i.instruction).error? =
        (m'.step s i.cursor.position i.instruction).error? := error?_step h hfirst
    rw [exec, exec]
    generalize m.step s i.cursor.position i.instruction = o,
      m'.step s i.cursor.position i.instruction = o' at hstep herror
    cases hstep with
    | ok h => exact ih h fun j hj => hreads j (List.mem_cons_of_mem _ hj)
    | failed _ _ => exact herror

end Machine

/-- **A program has one result on machines that agree on what it reads**, and they still agree. -/
theorem Program.outcome_of_agrees {p : Program} (h : m.Agrees P m')
    (hreads : ReadsOnly P p.code.outline) :
    (p.outcome s m).1 = (p.outcome s m').1 ∧
      ∀ name, P name →
        (p.outcome s m).2.memory.get? name = (p.outcome s m').2.memory.get? name := by
  have hexec := Machine.agrees_exec (s := s) h rfl hreads
  have herror := Machine.error?_exec (s := s) h hreads
  unfold outcome
  generalize m.exec s p.code = o, m'.exec s p.code = o' at hexec herror
  cases hexec with
  | failed _ h =>
    cases herror
    exact ⟨rfl, h.memory⟩
  | @ok m₁ m₁' h =>
    cases p.ending with
    | error err => exact ⟨rfl, h.memory⟩
    | ok position =>
      simp only [← h.operands]
      match m₁.operands with
      | [] => exact ⟨rfl, h.memory⟩
      | [x] => exact ⟨rfl, h.memory⟩
      | _ :: _ :: _ => exact ⟨rfl, h.memory⟩

end Code

/-! ## 2. Lines on tables that agree -/

section Line

variable {memory memory' : Variables} {s : Settings} {line : String}

/-- **A line has one result on tables that agree on its names**, and the tables still agree wherever
    they did. -/
theorem agrees_evaluate (s : Settings) (h : ∀ name, .name name ∈ lineTokens line →
      foldName name = name → memory.get? name = memory'.get? name) :
    let answer := Calculator.evaluate ⟨memory, s⟩ line
    let answer' := Calculator.evaluate ⟨memory', s⟩ line
    answer.result = answer'.result ∧ ∀ name, memory.get? name = memory'.get? name →
      answer.calculator.memory.get? name = answer'.calculator.memory.get? name := by
  simp only
  cases hs : Source.ofLine line with
  | error err =>
    rw [evaluate_of_ofLine_error hs, evaluate_of_ofLine_error hs]
    exact ⟨rfl, fun _ hsame => hsame⟩
  | ok source =>
    -- the names to agree on are all those on which the tables agree
    have hstart : (Machine.initial memory).Agrees
        (fun name => memory.get? name = memory'.get? name) (.initial memory') :=
      ⟨rfl, rfl, fun _ hsame => hsame⟩
    have hreads : ReadsOnly (fun name => memory.get? name = memory'.get? name)
        source.program.code.outline := by
      intro i hi name hname
      have hmem : .name name ∈ source.start.tokens := readsOnly_program source i hi name hname
      exact h name ((tokens_prefix_lineTokens hs).subset hmem) (foldName_of_mem_tokens hs hmem)
    obtain ⟨hresult, hmemory⟩ := Program.outcome_of_agrees (s := s) hstart hreads
    have halike : Alike _ _ _ _ _ := ⟨congrArg (Except.mapError EvalError.cause) hresult, hmemory⟩
    rw [memory_of_ofLine hs, memory_of_ofLine hs, result_of_ofLine hs, result_of_ofLine hs]
    exact ⟨hresult, halike.concluded⟩

/-- **A line without equals sign that does not name the last answer has one result again and
    again.** -/
theorem result_of_mem_answers (hanswer : .name Variables.answerName ∉ lineTokens line)
    (hequals : .mark .equals ∉ lineTokens line) (n : Nat) :
    ∀ entry ∈ (⟨memory, s⟩ : Calculator).answers (List.replicate n (s, line)),
      entry.2.result = (Calculator.evaluate ⟨memory, s⟩ line).result := by
  -- from call to call the table stays what it was but for the last answer
  have hkept : ∀ c : Calculator,
      (∀ name, foldName name ≠ Variables.answerName → c.memory.get? name = memory.get? name) →
      ∀ entry ∈ c.answers (List.replicate n (s, line)),
        entry.2.result = (Calculator.evaluate ⟨memory, s⟩ line).result := by
    induction n with
    | zero => exact fun _ _ _ hentry => absurd hentry List.not_mem_nil
    | succ n ih =>
      intro c hmemory
      rw [List.replicate_succ, Calculator.answers_cons, List.forall_mem_cons]
      have hnamed : ∀ name, .name name ∈ lineTokens line → foldName name = name →
          c.memory.get? name = memory.get? name := by
        intro name hname hform
        refine hmemory name fun hr => ?_
        rw [hform] at hr
        exact hanswer (hr ▸ hname)
      constructor
      · exact (agrees_evaluate s hnamed).1
      · refine ih _ fun name hname => ?_
        have hbinds : ¬ Assigned (lineTokens line) (foldName name) :=
          fun hassigned => hequals (hassigned.subset (by simp))
        exact (get?_evaluate hbinds fun hr => absurd hr hname).trans (hmemory name hname)
  exact hkept ⟨memory, s⟩ fun _ _ => rfl

end Line

/-- **An evaluation depends on the names in its text only**: on two tables that agree on them it
    comes to the same and leaves them in agreement, on the last answer too if there is a value, and
    all other names keep what they had in either. Without equals sign and without the last answer in
    its text, it comes to the same however often it is repeated. -/
theorem evaluate_of_agrees {memory memory' : Variables} (s : Settings) {line : String}
    (h : ∀ name, .name name ∈ lineTokens line → memory.get? name = memory'.get? name) :
    let answer := Calculator.evaluate ⟨memory, s⟩ line
    let answer' := Calculator.evaluate ⟨memory', s⟩ line
    let after := answer.calculator.memory
    let after' := answer'.calculator.memory
    answer.result = answer'.result ∧
    (∀ name, .name name ∈ lineTokens line → after.get? name = after'.get? name) ∧
    (∀ x, answer.result = .ok x →
      after.get? Variables.answerName = after'.get? Variables.answerName) ∧
    (∀ name, .name (foldName name) ∉ lineTokens line →
      (foldName name = Variables.answerName → ∀ x, answer.result ≠ .ok x) →
      after.get? name = memory.get? name ∧ after'.get? name = memory'.get? name) ∧
    (.name Variables.answerName ∉ lineTokens line → .mark .equals ∉ lineTokens line →
      ∀ n, ∀ entry ∈ (⟨memory, s⟩ : Calculator).answers (List.replicate n (s, line)),
        entry.2.result = answer.result) := by
  obtain ⟨hresult, hmemory⟩ := agrees_evaluate s fun name hname _ => h name hname
  refine ⟨hresult, fun name hname => hmemory name (h name hname), fun x hx => ?_,
    fun name hname hr => ?_, fun hanswer hequals n => result_of_mem_answers hanswer hequals n⟩
  · rw [get?_answerName_of_ok hx, get?_answerName_of_ok (hresult ▸ hx)]
  · have hbinds : ¬ Assigned (lineTokens line) (foldName name) :=
      fun hassigned => hname (hassigned.subset (by simp))
    exact ⟨get?_evaluate hbinds hr, get?_evaluate hbinds (hresult ▸ hr)⟩

/-- A strict line, with a further variable in the second table that it does not name. -/
theorem evaluate_of_agrees_spare :
    let memory := Variables.seeded.set "y" 4
    let memory' := memory.set "z" 5
    let s : Settings := { strict := true }
    let answer := Calculator.evaluate ⟨memory, s⟩ "2y - sqrt(e)"
    let answer' := Calculator.evaluate ⟨memory', s⟩ "2y - sqrt(e)"
    answer.result = answer'.result ∧
    answer.calculator.memory.get? "y" = answer'.calculator.memory.get? "y" ∧
    answer.calculator.memory.get? "r" = answer'.calculator.memory.get? "r" ∧
    (answer.calculator.memory.get? "z" = memory.get? "z" ∧
      answer'.calculator.memory.get? "z" = memory'.get? "z") ∧
    ∀ entry ∈ (⟨memory, s⟩ : Calculator).answers (List.replicate 3 (s, "2y - sqrt(e)")),
      entry.2.result = answer.result := by
  intro memory memory' s answer answer'
  have hother : ∀ t ∈ lineTokens "2y - sqrt(e)",
      foldName "z" ≠ foldName (String.ofList t.chars) := by decide +kernel
  have hagrees : ∀ name, .name name ∈ lineTokens "2y - sqrt(e)" →
      memory.get? name = memory'.get? name := by
    intro name hname
    have hz := hother _ hname
    rw [Token.chars, String.ofList_toList] at hz
    exact ((Variables.get?_set memory "z" name 5).trans (if_neg hz)).symm
  have hvalue : answer.result.isOk = true := by decide +kernel
  obtain ⟨hresult, hnamed, hanswer, hkept, hagain⟩ := evaluate_of_agrees s hagrees
  refine ⟨hresult, hnamed "y" (by decide +kernel), ?_, hkept "z" (by decide +kernel) ?_,
    hagain (by decide +kernel) (by decide +kernel) 3⟩
  · obtain ⟨x, hx⟩ := exists_ok_of_isOk hvalue
    exact hanswer x hx
  · intro hz
    exact absurd hz (by decide)

end DeskCalculator
