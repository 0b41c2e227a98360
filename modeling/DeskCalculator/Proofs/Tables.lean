import DeskCalculator.Session
import DeskCalculator.Proofs.Finiteness
import DeskCalculator.Proofs.Frame
import DeskCalculator.Proofs.Replacement

/-!
# The tables that a calculator comes to

Whatever is typed, a table holds names that an expression can read again. This file fixes

* `IsVariableName` -- a small letter, then small letters and digits, and no function;
* `Action`, `Calculator.driven` -- what can be done to a calculator, and a calculator after it;
* `Variables.WellFormed` -- the names that a new table binds are bound, and all bound names are names
  of variables;
* `eq_or_mem_lineTokens_of_getElem?` -- a new name of a table stands in the line;
* `result_of_isVariableName` -- a name alone is evaluated to what the table holds.

Main statement: **every table that a new calculator comes to is well formed, and every name in it is
an expression with the value that it is bound to** (`wellFormed_driven`).
-/

namespace DeskCalculator

/-! ## 1. Names of variables -/

/-- A small letter, then small letters and digits, and not the name of a function. -/
structure IsVariableName (name : String) : Prop where
  start : name.toList.head?.any Char.isLower = true
  chars : ∀ c ∈ name.toList, c.isLower = true ∨ c.isDigit = true
  function : Function.ofName? name = none

instance (name : String) : Decidable (IsVariableName name) :=
  letI : Decidable (∀ c ∈ name.toList, c.isLower = true ∨ c.isDigit = true) :=
    List.decidableBAll _ _
  decidable_of_iff (name.toList.head?.any Char.isLower = true ∧
      (∀ c ∈ name.toList, c.isLower = true ∨ c.isDigit = true) ∧ Function.ofName? name = none)
    ⟨fun ⟨start, chars, function⟩ => ⟨start, chars, function⟩,
      fun h => ⟨h.start, h.chars, h.function⟩⟩

theorem isNameChar_of_isLower_or_isDigit {c : Char} (h : c.isLower = true ∨ c.isDigit = true) :
    isNameChar c = true := by
  show (c.isUpper || c.isLower || c.isDigit) = true
  rcases h with hlower | hdigit
  · rw [hlower, Bool.or_true, Bool.true_or]
  · rw [hdigit, Bool.or_true]

/-- The names that a text holds begin with a small letter and go on with letters and digits of the
    text. -/
theorem mem_of_name_mem_tokenize {cs : List Char} {name : String}
    (h : .name name ∈ tokenize cs) : name.toList.head?.any Char.isLower = true ∧
      ∀ c ∈ name.toList, isNameChar c = true ∧ c ∈ cs := by
  induction cs using tokenize.induct with
  | case1 =>
    rw [tokenize] at h
    cases h
  | case2 c cs hc ih =>
    rw [tokenize_of_isNumeralChar hc, List.mem_cons] at h
    obtain ⟨hstart, hchars⟩ := ih (h.resolve_left (by simp))
    exact ⟨hstart, fun x hx => ⟨(hchars x hx).1,
      List.mem_cons_of_mem _ ((List.dropWhile_suffix _).subset (hchars x hx).2)⟩⟩
  | case3 c cs hc hlower ih =>
    have hc : Number.isNumeralChar c = false := by simpa using hc
    rw [tokenize_of_isLower hc hlower, List.mem_cons] at h
    rcases h with h | h
    · cases h
      rw [String.toList_ofList]
      refine ⟨hlower, List.forall_mem_cons.2 ⟨⟨?_, List.mem_cons_self⟩, ?_⟩⟩
      · exact isNameChar_of_isLower_or_isDigit (.inl hlower)
      · intro x hx
        exact ⟨List.all_eq_true.1 List.all_takeWhile x hx,
          List.mem_cons_of_mem _ ((List.takeWhile_prefix _).subset hx)⟩
    · obtain ⟨hstart, hchars⟩ := ih h
      exact ⟨hstart, fun x hx => ⟨(hchars x hx).1,
        List.mem_cons_of_mem _ ((List.dropWhile_suffix _).subset (hchars x hx).2)⟩⟩
  | case4 c cs hc hlower ih =>
    have hc : Number.isNumeralChar c = false := by simpa using hc
    have hlower : c.isLower = false := by simpa using hlower
    rw [tokenize_of_single hc hlower, List.mem_cons] at h
    obtain ⟨hstart, hchars⟩ := ih (h.resolve_left fun e => Token.single_ne_name c name e.symm)
    exact ⟨hstart, fun x hx => ⟨(hchars x hx).1, List.mem_cons_of_mem _ (hchars x hx).2⟩⟩

/-- The names of a line have small letters and digits only. -/
theorem isLower_or_isDigit_of_mem_lineTokens {line name : String}
    (h : .name name ∈ lineTokens line) {c : Char} (hc : c ∈ name.toList) :
    c.isLower = true ∨ c.isDigit = true := by
  obtain ⟨hname, hmem⟩ := (mem_of_name_mem_tokenize h).2 c hc
  have hupper : c.isUpper = false := by
    rcases List.mem_append.1 hmem with hbody | hlast
    · exact isUpper_of_mem_bodyOf hbody
    · rw [List.mem_singleton.1 hlast]
      decide
  have hname : (c.isUpper || c.isLower || c.isDigit) = true := hname
  rw [hupper, Bool.false_or, Bool.or_eq_true] at hname
  exact hname

/-- **The names of a line that are no functions are names of variables.** -/
theorem isVariableName_of_mem_lineTokens {line name : String} (h : .name name ∈ lineTokens line)
    (hf : Function.ofName? name = none) : IsVariableName name :=
  ⟨(mem_of_name_mem_tokenize h).1, fun _ => isLower_or_isDigit_of_mem_lineTokens h, hf⟩

/-- What holds of all ASCII characters holds of letters and digits. -/
theorem forall_isNameChar {P : Char → Prop} (h : ∀ n < 0x80, P (Char.ofNat n)) {c : Char}
    (hc : isNameChar c = true) : P c :=
  Text.forall_ascii h (lt_of_isNameChar hc)

theorem mem_alphabet_of_isLower_or_isDigit {c : Char} (h : c.isLower = true ∨ c.isDigit = true) :
    c ∈ alphabet :=
  forall_isNameChar (P := fun c => c.isLower = true ∨ c.isDigit = true → c ∈ alphabet)
    (by decide +kernel) (isNameChar_of_isLower_or_isDigit h) h

theorem mem_alphabet_of_isNumeralChar {x : Char} (h : Number.isNumeralChar x = true) :
    x ∈ alphabet := by
  by_cases hpoint : x = '.'
  · subst hpoint
    decide
  · exact mem_alphabet_of_isLower_or_isDigit (.inr (isDigit_of_isNumeralChar h hpoint))

namespace IsVariableName

variable {name : String}

theorem isNameChar (h : IsVariableName name) : ∀ c ∈ name.toList, isNameChar c = true :=
  fun c hc => isNameChar_of_isLower_or_isDigit (h.chars c hc)

theorem exists_cons (h : IsVariableName name) :
    ∃ c cs, name.toList = c :: cs ∧ c.isLower = true := by
  have hstart := h.start
  cases hname : name.toList with
  | nil =>
    rw [hname] at hstart
    cases hstart
  | cons c cs =>
    rw [hname] at hstart
    exact ⟨c, cs, rfl, hstart⟩

/-- **The name of a variable is a plain text of one token.** -/
theorem isVariable (h : IsVariableName name) : IsVariable name where
  plain c hc := mem_alphabet_of_isLower_or_isDigit (h.chars c hc)
  single := by
    obtain ⟨c, cs, hname, hlower⟩ := h.exists_cons
    have hn : Number.isNumeralChar c = false :=
      forall_isNameChar (P := fun c => c.isLower = true → Number.isNumeralChar c = false)
        (by decide +kernel) (h.isNameChar c (by rw [hname]; exact List.mem_cons_self)) hlower
    have hall : ∀ x ∈ cs, DeskCalculator.isNameChar x = true :=
      fun x hx => h.isNameChar x (by rw [hname]; exact List.mem_cons_of_mem _ hx)
    rw [hname, tokenize_of_isLower hn hlower, List.takeWhile_eq_self_iff.2 hall,
      List.dropWhile_eq_nil_iff.2 hall, ← hname, String.ofList_toList, tokenize]
  function := h.function

/-- The name of a variable is its own form. -/
theorem foldName_eq (h : IsVariableName name) : foldName name = name := by
  refine foldName_of_plain h.isVariable.plain ?_
  rw [h.isVariable.single]
  exact List.mem_singleton_self _

end IsVariableName

/-! ## 2. A name alone -/

/-- **A name alone is evaluated to what the table holds under it**, in all settings. -/
theorem result_of_isVariableName {v : Variables} {name : String} {x : Float}
    (h : IsVariableName name) (hx : v.get? name = some x) (settings : Settings) :
    (Calculator.evaluate ⟨v, settings⟩ name).result = .ok x := by
  have hplain := h.isVariable.plain
  have hne : name.toList ≠ [] := by
    obtain ⟨c, cs, hname, -⟩ := h.exists_cons
    rw [hname]
    exact List.cons_ne_nil c cs
  have halike := alike_readChain (atEnd_halt_of_plain hplain hne)
  rw [tokens_of_plain hplain hne, h.isVariable.single] at halike
  obtain ⟨hends, hcode⟩ := scan_name h.function
  obtain ⟨stop, hstop, hend⟩ := ends_iff_fate.2 (halike.fate.trans (ends_iff_fate.1 hends))
  obtain ⟨m, hexec, hoperands, hoperators, -⟩ :=
    yields_of_variable (s := settings) (m := .initial v) rfl hx (halike.code.trans hcode)
  have hstop : (Source.start ⟨name.toList, hne⟩).readChain.stop = .ok stop := hstop
  rw [result_of_ofLine (hplain.ofLine hne), Source.program, Reading.program_of_atEnd hstop hend,
    Program.outcome,
    Machine.exec_append_of_ok hexec, Machine.exec_singleton, Machine.step,
    Machine.settle_of_scope hoperators]
  simp only [hoperands, Machine.initial]

/-! ## 3. Well-formed tables -/

/-- The names that a new table binds. -/
def Variables.constants : List String := ["pi", "e", answerName]

/-- The names that a new table binds have values, and all that have are names of variables. -/
structure Variables.WellFormed (v : Variables) : Prop where
  constants : ∀ name ∈ Variables.constants, (v.get? name).isSome = true
  names : ∀ key x, v.table[key]? = some x → IsVariableName key

theorem isVariableName_of_mem_constants {name : String} (h : name ∈ Variables.constants) :
    IsVariableName name := by
  have hall : ∀ name ∈ Variables.constants, IsVariableName name := by decide
  exact hall name h

theorem Variables.wellFormed_seeded : seeded.WellFormed where
  constants := by decide +kernel
  names key x h := by
    have hkeys : ∀ binding ∈ seeded.toList, binding.1 ∈ constants := by decide +kernel
    exact isVariableName_of_mem_constants (hkeys (key, x) (mem_toList_iff.2 h))

/-! ## 4. What is done to a calculator -/

section Line

variable {c : Calculator} {line key : String} {x : Float}

/-- **A new name of a table is the last answer's, or stands in the line.** -/
theorem eq_or_mem_lineTokens_of_getElem?
    (h : (c.evaluate line).calculator.memory.table[key]? = some x)
    (hnew : ∀ y, c.memory.table[key]? ≠ some y) :
    key = Variables.answerName ∨
      Function.ofName? key = none ∧ .name key ∈ lineTokens line := by
  by_cases hform : ∃ name, foldName name = key
  case neg =>
    rw [memory_evaluate, Variables.getElem?_after fun name he => hform ⟨name, he⟩] at h
    exact absurd h (hnew x)
  case pos =>
    obtain ⟨name, rfl⟩ := hform
    have hne : (c.evaluate line).calculator.memory.get? name ≠ c.memory.get? name := by
      intro he
      exact hnew x (he.symm.trans h)
    have hbound : foldName name = Variables.answerName ∨
        ∃ position, BoundBefore (lineTokens line) position (foldName name) := by
      by_cases hname : foldName name = Variables.answerName
      · exact .inl hname
      · cases hr : (c.evaluate line).result with
        | ok y => exact .inr (boundBefore_of_ok hr hname hne)
        | error err => exact .inr ⟨_, boundBefore_of_error hr hne⟩
    exact hbound.imp_right fun ⟨position, hbound⟩ =>
      ⟨hbound.function, hbound.assigned_text.subset (by simp)⟩

/-- **A line keeps a table well formed**, whether it has a value or not. -/
theorem wellFormed_evaluate (h : c.memory.WellFormed) (line : String) :
    (c.evaluate line).calculator.memory.WellFormed where
  constants name hname := by
    rw [memory_evaluate]
    exact Variables.isSome_get?_after _ (h.constants name hname)
  names key x hkey := by
    by_cases hold : ∃ y, c.memory.table[key]? = some y
    · obtain ⟨y, hy⟩ := hold
      exact h.names key y hy
    · rcases eq_or_mem_lineTokens_of_getElem? hkey fun y hy => hold ⟨y, hy⟩ with rfl | ⟨hf, hmem⟩
      · exact isVariableName_of_mem_constants (by decide)
      · exact isVariableName_of_mem_lineTokens hmem hf

end Line

/-- **So does a line of a session**, be it a command or not. -/
theorem wellFormed_respond {c : Calculator} (h : c.memory.WellFormed) (line : String) :
    (c.respond line).2.memory.WellFormed := by
  unfold Calculator.respond
  split
  · exact h
  · exact h
  · exact h
  · exact Variables.wellFormed_seeded
  · exact h
  · dsimp only
    exact wellFormed_evaluate h _

/-- What can be done to a calculator. -/
inductive Action where
  /-- A line of a session. -/
  | line (text : String)
  | expression (text : String)
  | adjust (settings : Settings)

namespace Calculator

/-- The calculator after an action. -/
def act (c : Calculator) : Action → Calculator
  | .line text => (c.respond text).2
  | .expression text => (c.evaluate text).calculator
  | .adjust settings => { c with settings }

/-- The calculator after some actions, first one first. -/
def driven (c : Calculator) (actions : List Action) : Calculator := actions.foldl act c

end Calculator

theorem wellFormed_act {c : Calculator} (h : c.memory.WellFormed) (action : Action) :
    (c.act action).memory.WellFormed := by
  unfold Calculator.act
  cases action with
  | line text => exact wellFormed_respond h text
  | expression text => exact wellFormed_evaluate h text
  | adjust settings => exact h

theorem wellFormed_of_actions {c : Calculator} (h : c.memory.WellFormed) (actions : List Action) :
    (c.driven actions).memory.WellFormed := by
  induction actions generalizing c with
  | nil => exact h
  | cons action actions ih => exact ih (wellFormed_act h action)

/-- **Whatever is done to a new calculator**, the names of a new table keep values, every bound name
    is the name of a variable, and such a name alone is evaluated to its value as it is, in all
    settings. -/
theorem wellFormed_driven (settings : Settings) (actions : List Action) :
    let v := (({ settings } : Calculator).driven actions).memory
    (∀ name ∈ ["pi", "e", "r"], (v.get? name).isSome = true) ∧
    ∀ name x, (name, x) ∈ v.toList → IsVariableName name ∧
      ∀ settings, (Calculator.evaluate ⟨v, settings⟩ name).result = .ok x := by
  intro v
  have h : v.WellFormed := wellFormed_of_actions Variables.wellFormed_seeded actions
  refine ⟨h.constants, fun name x hmem => ?_⟩
  have hx := Variables.mem_toList_iff.1 hmem
  have hname := h.names name x hx
  refine ⟨hname, result_of_isVariableName hname ?_⟩
  rw [Variables.get?, hname.foldName_eq, hx]

/-- A quarter, bound in a line that fails, in settings that round to whole numbers. -/
theorem wellFormed_driven_quarter :
    let v := (({} : Calculator).driven [.line "(X2 = 1/4)) ", .line ":vars", .expression "y=",
      .adjust { precision := 0, strict := true }]).memory
    ∃ x, ("x2", x) ∈ v.toList ∧
      (Calculator.evaluate ⟨v, { precision := 0, strict := true }⟩ "x2").result = .ok x := by
  intro v
  have hbound : ∃ binding ∈ v.toList, binding.1 = "x2" := by decide +kernel
  obtain ⟨⟨_, x⟩, hmem, rfl⟩ := hbound
  exact ⟨x, hmem, ((wellFormed_driven {} _).2 "x2" x hmem).2 _⟩

end DeskCalculator
