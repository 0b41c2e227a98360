import DeskCalculator.Script
import DeskCalculator.Session
import DeskCalculator.Proofs.LastAnswer
import DeskCalculator.Proofs.Trimming

/-!
# Scripts beside sessions

A script and a session go over lines in two ways. A script passes over the blank lines, evaluates the
others as they stand, and prints on two channels; a session trims a line, sorts it, and says
everything on one channel. This file fixes

* `IsCommand` -- a line that a session does not evaluate;
* `Printed.text`, `Answer.complaint?` -- what a line of output says, and what an answer complains of;
* `Calculator.entries` -- the lines of a script that are not blank, each with its answer.

Main statement: **without commands, a script and a session say the same and leave the same
calculator** (`runScript_eq_transcript`); the channels are the texts and the complaints of the
entries, and a failure ends nothing.
-/

namespace DeskCalculator

/-! ## 1. A line in a session -/

/-- A line that a session takes for a command, known or not. -/
def IsCommand (line : String) : Prop := (Text.trim line.toList).head? = some ':'

instance (line : String) : Decidable (IsCommand line) := inferInstanceAs (Decidable (_ = _))

/-- **A line is evaluated trimmed or not.** -/
theorem evaluate_trim (c : Calculator) (line : String) :
    c.evaluate (String.ofList (Text.trim line.toList)) = c.evaluate line := by
  refine evaluate_of_bodyOf ?_ c
  rw [String.toList_ofList, Source.bodyOf, Text.trim_trim, Source.bodyOf]

/-- A line that is no command is an expression, or nothing. -/
theorem SessionLine.ofText_of_not_isCommand {line : String} (h : ¬ IsCommand line) :
    ofText line =
      if isBlankLine line then .blank else .expression (String.ofList (Text.trim line.toList)) := by
  -- the text of a command begins with a colon, and this one does not
  have hnot : ∀ command : String, command.toList.head? = some ':' →
      String.ofList (Text.trim line.toList) ≠ command := by
    intro command hcolon he
    subst he
    rw [String.toList_ofList] at hcolon
    exact h hcolon
  have hexpression : ¬ (Text.trim line.toList).head? = some ':' := h
  simp only [ofText, isBlankLine, hnot ":quit" rfl, hnot ":q" rfl, hnot ":vars" rfl,
    hnot ":reset" rfl, hexpression, or_self, if_false]
  rfl

/-- **A session evaluates a line that is no command**, unless it is blank. -/
theorem respond_of_not_isCommand {line : String} (h : ¬ IsCommand line) (c : Calculator) :
    c.respond line =
      if isBlankLine line then (.silence, c)
      else (.text (c.evaluate line).reply, (c.evaluate line).calculator) := by
  rw [Calculator.respond, SessionLine.ofText_of_not_isCommand h]
  by_cases hblank : isBlankLine line
  · rw [if_pos hblank, if_pos hblank]
  · rw [if_neg hblank, if_neg hblank]
    simp only [evaluate_trim]

/-! ## 2. What is printed -/

/-- What a line of output says, on whichever channel. -/
def Printed.text : Printed → String
  | result text => text
  | complaint text => text

/-- The complaint of an answer without a value. -/
def Answer.complaint? (a : Answer) : Option String :=
  match a.result with
  | .ok _ => none
  | .error e => some e.message

theorem Calculator.text_printedOf (a : Answer) : (printedOf a).text = a.reply := by
  unfold printedOf Answer.reply
  cases a.text <;> rfl

theorem Calculator.result?_printedOf (a : Answer) :
    (printedOf a).result? = a.text.toOption := by
  unfold printedOf
  cases a.text <;> rfl

theorem Calculator.complaint?_printedOf (a : Answer) :
    (printedOf a).complaint? = a.complaint? := by
  unfold printedOf Answer.complaint? Answer.text
  cases a.result <;> rfl

theorem Number.formatNumber_ne_empty (x : Float) : formatNumber x ≠ "" := by
  have hnumeral : ∀ n : Numeral, n.text ≠ [] := by
    intro n hn
    have hback := Numeral.ofText?_text n
    rw [hn] at hback
    cases hback
  have hmagnitude : answerStyle.magnitude x ≠ "" := by
    unfold NumberStyle.magnitude
    split
    · decide
    · split
      · decide
      · simpa using hnumeral (shortest x.abs)
  unfold formatNumber NumberStyle.render
  split
  · decide
  · simp [hmagnitude]

/-- **No reply to an expression is empty.** -/
theorem Answer.reply_ne_empty (a : Answer) : a.reply ≠ "" := by
  unfold reply text
  cases a.result with
  | ok x => exact Number.formatNumber_ne_empty x
  | error e =>
    intro h
    have hfull : ("Error at position " ++ toString e.position ++ ": " ++ e.cause.text) ++ "." = "" := h
    exact absurd (String.append_eq_empty_iff.1 hfull).2 (by decide)

/-! ## 3. Line by line -/

namespace Calculator

/-- The lines that are not blank, each with its answer, given by the calculator that the one before
    left behind. -/
def entries (c : Calculator) (lines : List String) : List (String × Answer) :=
  c.answers ((lines.filter fun line => !isBlankLine line).map (c.settings, ·))

theorem entries_cons (c : Calculator) (line : String) (lines : List String) :
    c.entries (line :: lines) =
      if isBlankLine line then c.entries lines
      else (line, c.evaluate line) :: (c.evaluate line).calculator.entries lines := by
  by_cases hblank : isBlankLine line
  · simp only [entries, hblank, if_true, List.filter_cons, Bool.not_true, Bool.false_eq_true,
      if_false]
  · simp only [entries, hblank, List.filter_cons, Bool.not_false, if_true, List.map_cons,
      answers_cons, settings_evaluate, Bool.false_eq_true, if_false]

/-- **Every line that is not blank is evaluated**, whatever the lines before it came to. -/
theorem map_fst_entries (c : Calculator) (lines : List String) :
    (c.entries lines).map Prod.fst = lines.filter fun line => !isBlankLine line := by
  induction lines generalizing c with
  | nil => rfl
  | cons line lines ih =>
    rw [entries_cons, List.filter_cons]
    by_cases hblank : isBlankLine line
    · simp only [hblank, if_true, ih, Bool.not_true, Bool.false_eq_true, if_false]
    · simp only [hblank, Bool.false_eq_true, if_false, List.map_cons, ih, Bool.not_false, if_true]

/-- **A script prints its entries**, one line for each. -/
theorem runLines_eq_map_entries (c : Calculator) (lines : List String) :
    (c.runLines lines).1 = (c.entries lines).map fun entry => printedOf entry.2 := by
  induction lines generalizing c with
  | nil => rfl
  | cons line lines ih =>
    rw [entries_cons, runLines]
    by_cases hblank : isBlankLine line
    · rw [if_pos hblank, if_pos hblank, ih]
    · rw [if_neg hblank, if_neg hblank, List.map_cons, ← ih]

/-- **A session says what a script prints**, and both leave the same calculator. -/
theorem runLines_eq_transcript (c : Calculator) {lines : List String}
    (h : ∀ line ∈ lines, ¬ IsCommand line) :
    ((c.runLines lines).1.map Printed.text, (c.runLines lines).2) = c.transcript lines := by
  induction lines generalizing c with
  | nil => rfl
  | cons line lines ih =>
    rw [List.forall_mem_cons] at h
    rw [runLines, transcript, respond_of_not_isCommand h.1]
    by_cases hblank : isBlankLine line
    · rw [if_pos hblank, if_pos hblank]
      exact ih c h.2
    · rw [if_neg hblank, if_neg hblank]
      simp only [← ih (c.evaluate line).calculator h.2, List.map_cons, text_printedOf]

end Calculator

/-! ## 4. Whole scripts -/

/-- The two channels and the code of some entries. -/
theorem Report.ofPrinted_entries (entries : List (String × Answer)) :
    Report.ofPrinted (entries.map fun entry => Calculator.printedOf entry.2) =
      ⟨if ∀ entry ∈ entries, entry.2.result.isOk then 0 else 1,
        endedLines (entries.filterMap fun entry => entry.2.text.toOption),
        endedLines (entries.filterMap fun entry => entry.2.complaint?)⟩ := by
  have hcode : (entries.filterMap fun entry => entry.2.complaint?) = [] ↔
      ∀ entry ∈ entries, entry.2.result.isOk := by
    rw [List.filterMap_eq_nil_iff]
    refine forall₂_congr fun entry _ => ?_
    unfold Answer.complaint?
    cases entry.2.result <;> simp [Except.isOk, Except.toBool]
  simp only [Report.ofPrinted, List.filterMap_map, Function.comp_def,
    Calculator.result?_printedOf, Calculator.complaint?_printedOf, List.isEmpty_iff, hcode]

/-- **Without commands, a script and a session say the same, line by line, and leave the same
    calculator.** No text is empty. Every line that is not blank is evaluated; the output holds the
    texts of those with a value, the errors the messages of the others, and the code tells whether
    there were any. -/
theorem runScript_eq_transcript (c : Calculator) (script : String)
    (h : ∀ line ∈ Text.lines script, ¬ IsCommand line) :
    (c.runScript script).1.map Printed.text = (c.transcript (Text.lines script)).1 ∧
    (∀ printed ∈ (c.runScript script).1, printed.text ≠ "") ∧
    (c.runScript script).2 = (c.transcript (Text.lines script)).2 ∧
    (c.entries (Text.lines script)).map Prod.fst =
      ((Text.lines script).filter fun line => !isBlankLine line) ∧
    (c.runScript script).1 =
      ((c.entries (Text.lines script)).map fun entry => Calculator.printedOf entry.2) ∧
    Report.ofPrinted (c.runScript script).1 =
      ⟨if ∀ entry ∈ c.entries (Text.lines script), entry.2.result.isOk then 0 else 1,
        endedLines ((c.entries (Text.lines script)).filterMap fun entry => entry.2.text.toOption),
        endedLines ((c.entries (Text.lines script)).filterMap fun entry =>
          entry.2.complaint?)⟩ := by
  have hentries := c.runLines_eq_map_entries (Text.lines script)
  have hsame := c.runLines_eq_transcript h
  refine ⟨congrArg Prod.fst hsame, ?_, congrArg Prod.snd hsame, c.map_fst_entries _, hentries, ?_⟩
  · intro printed hprinted
    rw [Calculator.runScript, hentries, List.mem_map] at hprinted
    obtain ⟨entry, -, rfl⟩ := hprinted
    rw [Calculator.text_printedOf]
    exact entry.2.reply_ne_empty
  · rw [Calculator.runScript, hentries]
    exact Report.ofPrinted_entries _

/-- A script that goes on after a failure, with the table that the lines before it left. -/
theorem runScript_eq_transcript_failing :
    (({} : Calculator).transcript (Text.lines "x=2\n \n(x\n x+3; ")).1 =
        ["2", "Error at position 2: ')' expected.", "5"] ∧
      Report.ofPrinted (({} : Calculator).runScript "x=2\n \n(x\n x+3; ").1 =
        ⟨1, "2\n5\n", "Error at position 2: ')' expected.\n"⟩ := by
  obtain ⟨hsame, -, -, -, -, hreport⟩ :=
    runScript_eq_transcript {} "x=2\n \n(x\n x+3; " (by decide)
  exact ⟨hsame.symm.trans (by decide +kernel), hreport.trans (by decide +kernel)⟩

end DeskCalculator
