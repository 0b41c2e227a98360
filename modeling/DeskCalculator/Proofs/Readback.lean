import DeskCalculator.Proofs.ExactFloats
import DeskCalculator.Proofs.Tables

/-!
# Printed numbers, typed again

The text of a number is an expression. This file fixes

* `tokenize_of_numeralChars` -- digits and points are one token;
* `result_of_numeral` -- a numeral alone is evaluated to its value, and no setting rounds it.

Main statement: **the text of a finite number that is not negative is evaluated to that number**,
and written the same again (`evaluate_formatNumber`).
-/

namespace DeskCalculator

open Number (isNumeralChar formatNumber shortest)

/-! ## 1. The characters of a numeral -/

/-- A text that reads as a numeral is a run of digits and points. -/
theorem isNumeralChar_of_ofText? {cs : List Char} {n : Number.Numeral}
    (h : Number.Numeral.ofText? cs = some n) {x : Char} (hx : x ∈ cs) : isNumeralChar x = true := by
  have hsome := (isSome_ofText?_parts cs).1 (by rw [h]; rfl)
  have hdigit : ∀ y ∈ Number.Numeral.wholePart cs ++ Number.Numeral.fractionPart cs,
      isNumeralChar y = true := by
    intro y hy
    rw [isNumeralChar, hsome.2 y hy, Bool.true_or]
  by_cases hpoint : '.' ∈ cs
  · obtain ⟨ds, fs, rfl, hds⟩ := List.eq_append_cons_of_mem hpoint
    obtain ⟨hwhole, hfraction⟩ := parts_of_point hds fs
    rw [hwhole, hfraction] at hdigit
    simp only [List.mem_append, List.mem_cons] at hx hdigit
    rcases hx with hx | rfl | hx
    · exact hdigit x (.inl hx)
    · decide
    · exact hdigit x (.inr hx)
  · obtain ⟨hwhole, hfraction⟩ := parts_of_notMem hpoint
    rw [hwhole, hfraction, List.append_nil] at hdigit
    exact hdigit x hx

/-- Digits and points are one token. -/
theorem tokenize_of_numeralChars {cs : List Char} (h : ∀ x ∈ cs, isNumeralChar x = true)
    (hne : cs ≠ []) : tokenize cs = [.number (String.ofList cs)] := by
  cases cs with
  | nil => exact absurd rfl hne
  | cons c cs =>
    obtain ⟨hc, hcs⟩ := List.forall_mem_cons.1 h
    rw [tokenize_of_isNumeralChar hc, List.takeWhile_eq_self_iff.2 hcs,
      List.dropWhile_eq_nil_iff.2 hcs, tokenize]

/-! ## 2. A numeral alone -/

/-- **A cursor before one numeral reads it and nothing else.** -/
theorem readChain_of_numeral {c : Cursor} {lexeme : String} {n : Number.Numeral}
    (htokens : c.tokens = [.number lexeme])
    (hn : Number.Numeral.ofText? lexeme.toList = some n) :
    ∃ stop, c.readChain = ⟨[⟨stop, .literal n.value⟩, ⟨c.halt, .settle⟩], .ok c.halt⟩ := by
  obtain ⟨l, hlexemes, htoken⟩ := List.map_eq_singleton_iff.1 htokens
  have hturn : Reader.turn ⟨.chain, [], .operand⟩ l =
      ⟨[⟨l.stop, .literal n.value⟩], .next ⟨.chain, [], .operator⟩⟩ := by
    simp only [Reader.turn, Reader.operandTurn, htoken, hn]
    rfl
  refine ⟨l.stop, ?_⟩
  rw [Cursor.readChain, Cursor.reading, hlexemes, Reader.read_cons_of_next hturn]
  rfl

/-- **A numeral alone is evaluated to its value**, whatever the table and the settings are. -/
theorem result_of_numeral {text : String} {n : Number.Numeral}
    (h : Number.Numeral.ofText? text.toList = some n) (c : Calculator) :
    (c.evaluate text).result = .ok n.value := by
  have hchars : ∀ x ∈ text.toList, isNumeralChar x = true := fun x => isNumeralChar_of_ofText? h
  have hplain : Plain text := fun x hx => mem_alphabet_of_isNumeralChar (hchars x hx)
  have hne : text.toList ≠ [] := by
    intro hnil
    rw [hnil] at h
    cases h
  have htokens := (tokens_of_plain hplain hne).trans (tokenize_of_numeralChars hchars hne)
  rw [String.ofList_toList] at htokens
  obtain ⟨stop, hread⟩ := readChain_of_numeral htokens h
  have hend := atEnd_halt_of_plain hplain hne
  have hscope : ((Machine.initial c.memory).pushOperand n.value).operators = [.scope] := rfl
  rw [result_of_ofLine (hplain.ofLine hne), Source.program, hread,
    Reading.program_of_atEnd rfl hend, Program.outcome]
  simp only [List.cons_append, List.nil_append, Machine.exec, Machine.step, Outcome.ok_andThen,
    Machine.settle_of_scope hscope]
  rfl

/-! ## 3. A number written and typed -/

/-- The text of a number that is not negative is evaluated to it. -/
theorem result_of_formatNumber {v : Float} (hfinite : v.isFinite = true) (hv : 0 ≤ v)
    (c : Calculator) :
    (c.evaluate (formatNumber v)).result = .ok (if v == 0 then 0 else v) := by
  cases hzero : v == 0 with
  | true =>
    have hnumeral : Number.Numeral.ofText? "0".toList = some ⟨0, 0⟩ := by decide +kernel
    rw [Number.formatNumber_of_zero hzero, result_of_numeral hnumeral]
    rfl
  | false =>
    have hnumeral : Number.Numeral.ofText? (String.ofList (shortest v).text).toList =
        some (shortest v) := by
      rw [String.toList_ofList, Number.Numeral.ofText?_text]
    rw [Number.formatNumber_of_pos hfinite hv hzero, result_of_numeral hnumeral,
      Number.value_shortest hfinite hv hzero]
    rfl

/-- The two zeros have one text. -/
theorem formatNumber_ite_zero (v : Float) :
    formatNumber (if v == 0 then 0 else v) = formatNumber v := by
  cases hzero : v == 0 with
  | true =>
    have hnought : ((0 : Float) == 0) = true := rfl
    exact (Number.formatNumber_of_zero hnought).trans (Number.formatNumber_of_zero hzero).symm
  | false => rfl

/-- **A finite number that is not negative can be typed as it is written**: the value is that number
    and no other, or zero for either zero, and it is written the same. -/
theorem evaluate_formatNumber {v : Float} (hfinite : v.isFinite = true) (hv : 0 ≤ v)
    (c : Calculator) :
    (c.evaluate (formatNumber v)).result = .ok (if v == 0 then 0 else v) ∧
      (c.evaluate (formatNumber v)).text = .ok (formatNumber v) := by
  have hresult := result_of_formatNumber hfinite hv c
  refine ⟨hresult, ?_⟩
  rw [Answer.text, hresult, ← formatNumber_ite_zero v]
  rfl

/-- A tenth, which has no end in binary, in settings that round to whole numbers. -/
theorem evaluate_formatNumber_tenth :
    (0.1 : Float).isFinite = true ∧ (0 : Float) ≤ 0.1 ∧ formatNumber 0.1 = "0.1" ∧
      (Calculator.evaluate { settings := { precision := 0, strict := true } } "0.1").result =
        .ok 0.1 := by
  have hfinite : (0.1 : Float).isFinite = true := by decide +kernel
  have hpos : (0 : Float) ≤ 0.1 := by decide +kernel
  have htext : formatNumber 0.1 = "0.1" := by decide +kernel
  have hne : ((0.1 : Float) == 0) = false := by decide +kernel
  have hresult := (evaluate_formatNumber hfinite hpos
    { settings := { precision := 0, strict := true } }).1
  rw [htext, hne] at hresult
  exact ⟨hfinite, hpos, htext, hresult⟩

end DeskCalculator
