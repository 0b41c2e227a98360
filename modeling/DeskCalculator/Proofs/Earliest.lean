import DeskCalculator.Proofs.Places
import DeskCalculator.Proofs.Tables
import DeskCalculator.Proofs.ViablePrefix

/-!
# Errors at the earliest place

A text that is not an expression is refused at the first character that no expression could have
there. This file fixes

* `textOf` -- the text of a line as it is read; `Calculator.Accepts` -- the line has a value;
* `accepts_iff_ends` -- lenient evaluation accepts what is read to the end and does not borrow;
* `GoesOver.place_eq` -- where a reader is stuck, the reading ends; there it ends as well if the token
  goes on otherwise, unless it is a number that is no numeral (`Stuck.of_sameKind`);
* `Source.Front` -- what a reader goes over of a source: it begins a text that is accepted
  (`exists_accepts`), and with the next character it does not (`not_accepts`);
* `EvalError.IsMalformedNumeral` -- the error of a run of digits and points that is no numeral.

Main statement: **what is before the place of an error begins a text that has a value, and with the
character at the place it does not** (`earliest_error`).
-/

namespace DeskCalculator

/-! ## 1. What has a value -/

/-- The text of a line as it is read: what is left of the line, and the final terminator. -/
def textOf (line : String) : List Char := Source.bodyOf line.toList ++ [terminator]

/-- The line has a value. -/
def Calculator.Accepts (c : Calculator) (line : String) : Prop :=
  ∃ x, (c.evaluate line).result = .ok x

section Ends

variable {c : Calculator} {line : String} {source : Source}

/-- A text that borrows fails in the machine. -/
theorem kind_of_borrows (hs : Source.ofLine line = .ok source)
    (hb : Awaiting.operand.borrows false source.start.tokens = true) :
    ∃ err, (c.evaluate line).result = .error err ∧ err.kind = .arithmetic := by
  obtain ⟨call, err, e', hchain, -, hcause⟩ :=
    chain_alone_of_borrows c.settings c.memory hb
  have hchain : (Evaluation.start c.settings c.memory source).chain = .failed err e' := hchain
  refine ⟨err, ?_, by rw [EvalError.kind, hcause]⟩
  rw [evaluate_of_ofLine hs, result_conclude, Evaluation.complete, hchain]
  rfl

/-- **Lenient evaluation accepts what is read to the end and does not borrow.** -/
theorem accepts_iff_ends (hl : c.settings.strict = false) (hs : Source.ofLine line = .ok source) :
    c.Accepts line ↔ Reader.start.Ends source.start.halt source.start.lexemes ∧
      Awaiting.operand.borrows false source.start.tokens = false := by
  constructor
  · intro h
    obtain ⟨x, hx⟩ := h
    obtain ⟨stop, t, hstop, hend, -⟩ := built_of_ok hs hx
    refine ⟨⟨stop, hstop, hend⟩, ?_⟩
    rw [Bool.eq_false_iff]
    intro hb
    obtain ⟨err, herr, -⟩ := kind_of_borrows hs hb
    rw [hx] at herr
    cases herr
  · intro h
    obtain ⟨⟨stop, hstop, hend⟩, hb⟩ := h
    have hstop : source.start.readChain.stop = .ok stop := hstop
    have hcomp := completes_start c source
    rw [Calculator.Accepts, evaluate_of_ofLine hs, result_conclude]
    generalize (Evaluation.start c.settings c.memory source).complete = done at hcomp ⊢
    cases hcomp with
    | value => exact ⟨_, rfl⟩
    | refused h =>
      rw [hstop] at h
      cases h
    | beforeEnd h he =>
      rw [hstop] at h
      cases h
      rw [hend] at he
      cases he
    | strict h => exact absurd (hl.symm.trans h.strict) Bool.false_ne_true
    | overtaken _ hb' _ =>
      rw [hb] at hb'
      cases hb'

/-- **An error of the reader is reported where the reading ends**, and nothing borrows. -/
theorem place_of_error {err : EvalError} (hl : c.settings.strict = false)
    (hs : Source.ofLine line = .ok source) (h : (c.evaluate line).result = .error err)
    (hkind : err.kind = .malformed ∨ err.kind = .expectedToken) :
    Awaiting.operand.borrows false source.start.tokens = false ∧
      err.position = source.start.readChain.place ∧
      ∀ refusal, source.start.readChain.stop = .error refusal → err = refusal.error := by
  constructor
  · rw [Bool.eq_false_iff]
    intro hb
    obtain ⟨err', herr, hkind'⟩ := kind_of_borrows hs hb
    rw [h] at herr
    cases herr
    rw [hkind'] at hkind
    simp at hkind
  · have hcomp := completes_start c source
    rw [evaluate_of_ofLine hs, result_conclude] at h
    generalize (Evaluation.start c.settings c.memory source).complete = done at hcomp h
    obtain ⟨result, e⟩ := done
    cases h
    cases hcomp with
    | refused hstop =>
      rw [Reading.place, hstop]
      exact ⟨rfl, fun refusal h => by cases h; rfl⟩
    | beforeEnd hstop hend =>
      rw [Reading.place, hstop]
      exact ⟨rfl, fun refusal h => by cases h⟩
    | strict h => exact absurd (hl.symm.trans h.strict) Bool.false_ne_true
    | overtaken _ _ hcause =>
      rw [EvalError.kind, hcause] at hkind
      simp at hkind

end Ends

/-! ## 2. Where a reading ends -/

namespace Reader

variable {halt : Cursor} {r r' s : Reader} {l l' : Lexeme} {front rest : List Lexeme}

/-- A reader that does not go over a lexeme ends where it starts. -/
theorem Stuck.place_eq (h : r.Stuck l) (hl : l.start.position ≤ l.stop.position) (halt : Cursor)
    (ls : List Lexeme) : (read halt r (l :: ls)).place = l.start.position := by
  have hplace : ∀ refusal, (r.turn l).move = .refuse refusal →
      refusal.error.position = l.start.position := fun refusal => place_of_refuse hl
  have hnext : ∀ r', (r.turn l).move ≠ .next r' := h
  rw [read]
  generalize r.turn l = turn at hplace hnext
  obtain ⟨code, move⟩ := turn
  cases move with
  | next r' => exact absurd rfl (hnext r')
  | rest => rfl
  | refuse refusal => exact hplace refusal rfl

/-- **A reading ends behind what it goes over.** -/
theorem GoesOver.place_eq {position : Nat} (h : r.GoesOver front r')
    (hstuck : ∀ l ∈ rest.head?, r'.Stuck l) (htiles : Lexeme.Tiles position (front ++ rest) halt) :
    (read halt r (front ++ rest)).place = position + span (front.map Lexeme.token) := by
  have hrest := htiles.of_append
  have hplace : (read halt r (front ++ rest)).place = (read halt r' rest).place := by
    rw [Reading.place, Reading.place, h.stop_eq]
  rw [hplace]
  cases rest with
  | nil => exact (place_finish r' halt).trans hrest
  | cons l rest =>
    obtain ⟨hstart, hstop, -⟩ := hrest
    exact ((hstuck l rfl).place_eq (by omega) halt rest).trans hstart

/-! ## 3. What a reader does not go over -/

/-- A number or a name is read as an operand, but for the arguments of a function. -/
theorem turn_of_ne_mark (hl : ∀ m, l.token ≠ .mark m) (ha : ∀ f, r.awaiting ≠ .arguments f) :
    (r.turn l).move = (r.operandTurn l).move := by
  have himplied : (r.operatorTurn l).move = (r.operandTurn l).move := by
    rw [operatorTurn_eq_impliedTurn (.inr hl)]
    rfl
  unfold turn
  split
  · rfl
  · next f hf => exact absurd hf (ha f)
  · unfold bindingTurn
    rw [if_neg (hl .equals)]
    exact himplied
  · exact himplied

/-- A reader goes over all names, but for the arguments of a function. -/
theorem exists_next_of_name {name : String} (hl : l.token = .name name)
    (ha : ∀ f, r.awaiting ≠ .arguments f) : ∃ r', (r.turn l).move = .next r' := by
  rw [turn_of_ne_mark (by simp [hl]) ha, operandTurn, hl]
  simp only
  split <;> exact ⟨_, rfl⟩

/-- The reader refuses the lexeme for a number that is no numeral. -/
def RefusesNumber (r : Reader) (l : Lexeme) : Prop :=
  ∃ lexeme, l.token = .number lexeme ∧ Number.Numeral.ofText? lexeme.toList = none ∧
    (r.turn l).move = .refuse ⟨l.stop, ⟨l.start.position, .unexpectedToken lexeme⟩⟩

/-- So it does over all numerals, and refuses all other numbers. -/
theorem next_or_refusesNumber {lexeme : String} (hl : l.token = .number lexeme)
    (ha : ∀ f, r.awaiting ≠ .arguments f) :
    (∃ r', (r.turn l).move = .next r') ∨ r.RefusesNumber l := by
  have hmove : (r.turn l).move = (r.operandTurn l).move := turn_of_ne_mark (by simp [hl]) ha
  rw [operandTurn, hl] at hmove
  simp only at hmove
  cases hn : Number.Numeral.ofText? lexeme.toList with
  | some n =>
    rw [hn] at hmove
    exact .inl ⟨_, hmove⟩
  | none =>
    rw [hn] at hmove
    exact .inr ⟨lexeme, hl, hn, hmove⟩

theorem stuck_of_arguments {f : Function} (ha : r.awaiting = .arguments f)
    (hl : l.token ≠ .mark .leftParen) : r.Stuck l := by
  intro r' hnext
  rw [turn, ha] at hnext
  simp only [argumentsTurn, if_neg hl] at hnext
  cases hnext

/-- **What a reader does not go over, it does not go over if the token goes on otherwise**, unless it
    is a number that is no numeral. -/
theorem Stuck.of_sameKind (h : r.Stuck l) (halike : r.Alike s) (hkind : l.token.SameKind l'.token)
    (hnumeral : ¬ r.RefusesNumber l) : s.Stuck l' := by
  have hsame : l.token = l'.token → s.Stuck l' := by
    intro htoken s' hnext
    have hmove := (alike_turn halike htoken).move
    rw [hnext] at hmove
    generalize hturn : (r.turn l).move = move at hmove
    cases hmove with
    | next => exact h _ hturn
  -- where the arguments of a function have to come, every number and every name is refused
  have hwaiting : (∃ f, s.awaiting = .arguments f) ∨ ∀ f, r.awaiting ≠ .arguments f := by
    by_contra hneither
    push Not at hneither
    obtain ⟨hs, f, hf⟩ := hneither
    have hawaiting := halike.awaiting
    rw [hf] at hawaiting
    cases ha : s.awaiting <;> rw [ha] at hawaiting <;> cases hawaiting
    exact hs f ha
  generalize ht : l.token = t, ht' : l'.token = t' at hkind
  cases hkind with
  | same t => exact hsame (ht.trans ht'.symm)
  | number lexeme lexeme' =>
    rcases hwaiting with ⟨f, hf⟩ | ha
    · exact stuck_of_arguments hf (by simp [ht'])
    · rcases next_or_refusesNumber ht ha with ⟨r', hnext⟩ | hrefuses
      · exact absurd hnext (h r')
      · exact absurd hrefuses hnumeral
  | name name name' =>
    rcases hwaiting with ⟨f, hf⟩ | ha
    · exact stuck_of_arguments hf (by simp [ht'])
    · obtain ⟨r', hnext⟩ := exists_next_of_name ht ha
      exact absurd hnext (h r')

end Reader

/-! ## 4. The front of a source -/

/-- The reader of the source goes over the lexemes in front, comes to the state, and does not go over
    the next one. -/
structure Source.Front (source : Source) (front rest : List Lexeme) (r : Reader) : Prop where
  lexemes : source.start.lexemes = front ++ rest
  goesOver : Reader.start.GoesOver front r
  stuck : ∀ l ∈ rest.head?, r.Stuck l

theorem exists_front (source : Source) : ∃ front rest r, source.Front front rest r := by
  obtain ⟨front, rest, r, hlexemes, hover, hstuck⟩ :=
    Reader.exists_goesOver .start source.start.lexemes
  exact ⟨front, rest, r, hlexemes, hover, hstuck⟩

/-- The text of some lexemes. -/
def charsOf (ls : List Lexeme) : List Char := (ls.map Lexeme.token).flatMap Token.chars

namespace Source.Front

variable {line : String} {source : Source} {front rest : List Lexeme} {r : Reader}

theorem place_eq (h : source.Front front rest r) :
    source.start.readChain.place = (charsOf front).length := by
  have htiles := source.start.tiles_lexemes
  rw [h.lexemes] at htiles
  have hplace := h.goesOver.place_eq h.stuck htiles
  rw [Cursor.readChain, Cursor.reading, h.lexemes]
  exact hplace.trans (Nat.zero_add _)

theorem stop_eq {l : Lexeme} {refusal : Refusal} (h : source.Front front (l :: rest) r)
    (hrefuse : (r.turn l).move = .refuse refusal) :
    source.start.readChain.stop = .error refusal := by
  have hturn : r.turn l = ⟨(r.turn l).code, .refuse refusal⟩ := by rw [← hrefuse]
  rw [Cursor.readChain, Cursor.reading, h.lexemes]
  refine (h.goesOver.stop_eq (l :: rest)).trans ?_
  rw [Reader.read, hturn]

/-- **The text in front is what the reader went over**, and it would be found before any other text
    that does not go on with its last token. -/
theorem exists_text (h : source.Front front rest r) (hs : Source.ofLine line = .ok source) :
    ∃ ds us, textOf line = charsOf front ++ ds ∧
      tokenize ds = rest.map Lexeme.token ++ .mark .semicolon :: us ∧
      EndBefore (front.map Lexeme.token) ds ∧
      ∀ es, EndBefore (front.map Lexeme.token) es →
        tokenize (charsOf front ++ es) = front.map Lexeme.token ++ tokenize es := by
  obtain ⟨us, htokens⟩ := exists_lineTokens_eq hs
  rw [Cursor.tokens, h.lexemes, List.map_append, List.append_assoc] at htokens
  obtain ⟨ds, htext, hds, hends, hfound⟩ := tokenize_eq_append htokens
  exact ⟨ds, us, htext, hds, hends, hfound⟩

/-- What the reader went over has no strange characters. -/
theorem mem_alphabet (h : source.Front front rest r) (hs : Source.ofLine line = .ok source)
    {x : Char} (hx : x ∈ charsOf front) : x ∈ alphabet := by
  obtain ⟨t, ht, hx⟩ := List.mem_flatMap.1 hx
  obtain ⟨l, hl, rfl⟩ := List.mem_map.1 ht
  obtain ⟨r₁, r₂, hnext⟩ := h.goesOver.exists_next hl
  have hmem : l ∈ source.start.lexemes := by
    rw [h.lexemes]
    exact List.mem_append_left _ hl
  cases hl : l.token with
  | number lexeme =>
    rw [hl] at hx
    exact mem_alphabet_of_isNumeralChar
      ((source.start.proper_of_mem_lexemes l hmem).number lexeme hl x hx)
  | name name =>
    rw [hl] at hx
    have hname : .name name ∈ lineTokens line :=
      (tokens_prefix_lineTokens hs).subset (hl ▸ List.mem_map_of_mem hmem)
    exact mem_alphabet_of_isLower_or_isDigit (isLower_or_isDigit_of_mem_lineTokens hname hx)
  | foreign c => exact absurd hnext (Reader.turn_ne_next (.inl ⟨c, hl⟩))
  | mark m =>
    have hall : ∀ m ∈ [Mark.plus, .minus, .star, .slash, .caret, .percent, .bang, .leftParen,
        .rightParen, .comma, .equals], m.char ∈ alphabet := by decide +kernel
    rw [hl] at hx
    rw [List.mem_singleton.1 hx]
    refine hall m ?_
    cases m with
    | blank => exact absurd hnext (Reader.turn_ne_next (.inr (.inl hl)))
    | semicolon => exact absurd hnext (Reader.turn_ne_next (.inr (.inr hl)))
    | _ => decide

/-- **The front of a text without borrowing begins a text that is accepted.** -/
theorem exists_accepts (h : source.Front front rest r) (hs : Source.ofLine line = .ok source)
    (hb : Awaiting.operand.borrows false source.start.tokens = false) :
    ∃ line', charsOf front <+: textOf line' ∧
      ∀ c : Calculator, c.settings.strict = false → c.Accepts line' := by
  let ts : List Token := front.map Lexeme.token ++ r.completion
  let text : String := String.ofList (ts.flatMap Token.chars)
  have hchars : text.toList = ts.flatMap Token.chars := String.toList_ofList
  obtain ⟨us, hline⟩ := exists_lineTokens_eq hs
  rw [Cursor.tokens, h.lexemes, List.map_append, List.append_assoc] at hline
  have htokens : tokenize text.toList = ts := by
    rw [hchars]
    exact tokenize_append_completion hline r
  have hends : ∀ halt : Cursor, halt.atEnd = true → Reader.start.Ends halt (ts.map Token.loose) :=
    fun halt hhalt => h.goesOver.ends rfl hhalt
  have hplain : Plain text := by
    intro x hx
    rw [hchars, List.flatMap_append] at hx
    rcases List.mem_append.1 hx with hx | hx
    · exact h.mem_alphabet hs hx
    · obtain ⟨t, ht, hx⟩ := List.mem_flatMap.1 hx
      have hall : completingTokens.flatMap Token.chars ⊆ alphabet := by decide +kernel
      exact hall (List.mem_flatMap.2 ⟨t, completion_subset r ht, hx⟩)
  have hne : text.toList ≠ [] := by
    intro hnil
    have hts : ts = [] := by rw [← htokens, hnil, tokenize]
    have hempty := hends ⟨0, []⟩ rfl
    rw [hts] at hempty
    obtain ⟨stop, hstop, -⟩ := hempty
    cases hstop
  refine ⟨text, ?_, fun c hl => ?_⟩
  · rw [textOf, hplain.bodyOf_eq, hchars, List.flatMap_append, List.append_assoc]
    exact List.prefix_append _ _
  · refine (accepts_iff_ends hl (hplain.ofLine hne)).2 ⟨?_, ?_⟩
    · have halike := alike_read_loose (c := Source.start ⟨text.toList, hne⟩) rfl
      rw [tokens_of_plain hplain hne, htokens] at halike
      refine ends_iff_fate.2 (halike.fate.trans ?_)
      exact ends_iff_fate.1 (hends _ (atEnd_halt_of_plain hplain hne))
    · rw [tokens_of_plain hplain hne, htokens]
      rw [Cursor.tokens, h.lexemes, List.map_append] at hb
      exact Awaiting.borrows_append hb fun t ht => isName_of_mem_completion ht

end Source.Front

/-- Tokens that stand before a final terminator are those of lexemes. -/
theorem exists_of_closedTokens {ls : List Lexeme} {front us : List Token} {u : Token}
    (h : closedTokens ls = front ++ u :: us) (hu : u ≠ .mark .semicolon) :
    ∃ front' l rest, ls = front' ++ l :: rest ∧ front'.map Lexeme.token = front ∧ l.token = u := by
  induction front generalizing ls with
  | nil =>
    obtain ⟨l, rest, rfl, hl, -⟩ := closedTokens_eq_cons h hu
    exact ⟨[], l, rest, rfl, rfl, hl⟩
  | cons t front ih =>
    cases ls with
    | nil =>
      have hlen := congrArg List.length h
      simp [closedTokens] at hlen
    | cons l ls =>
      obtain ⟨rfl, hrest⟩ := List.cons.inj h
      obtain ⟨front', l', rest, rfl, rfl, hl'⟩ := ih hrest
      exact ⟨l :: front', l', rest, rfl, rfl, hl'⟩

/-- Two tokens of one kind are both terminators or neither is. -/
theorem Token.SameKind.ne_semicolon {t u : Token} (h : t.SameKind u) (ht : t ≠ .mark .semicolon) :
    u ≠ .mark .semicolon := by
  cases h with
  | same t => exact ht
  | number lexeme lexeme' => exact Token.noConfusion
  | name text text' => exact Token.noConfusion

namespace Source.Front

variable {line line' : String} {source : Source} {front rest : List Lexeme} {l : Lexeme}
  {r : Reader}

/-- **With the next character no text is accepted**, unless it begins a number that is no numeral. -/
theorem not_accepts (h : source.Front front (l :: rest) r) (hs : Source.ofLine line = .ok source)
    (hnumeral : ¬ r.RefusesNumber l)
    (hbegins : (textOf line).take ((charsOf front).length + 1) <+: textOf line')
    {c : Calculator} (hl : c.settings.strict = false) : ¬ c.Accepts line' := by
  obtain ⟨ds, us, htext, hds, hends, hfound⟩ := h.exists_text hs
  cases ds with
  | nil =>
    rw [tokenize] at hds
    cases hds
  | cons x more =>
    have htake : (textOf line).take ((charsOf front).length + 1) = charsOf front ++ [x] := by
      rw [htext, List.take_length_add_append]
      rfl
    obtain ⟨more', htext'⟩ := hbegins
    rw [htake, List.append_assoc, List.singleton_append] at htext'
    obtain ⟨t, ts, u, us', ht, hu, hkind⟩ := sameKind_of_cons x more more'
    rw [ht] at hds
    obtain ⟨rfl, -⟩ := List.cons.inj hds
    have hline' : lineTokens line' = front.map Lexeme.token ++ u :: us' := by
      rw [← hu, ← hfound (x :: more') hends, htext']
      rfl
    have hmem : l.token ∈ source.start.tokens := by
      rw [Cursor.tokens, h.lexemes, List.map_append]
      exact List.mem_append_right _ List.mem_cons_self
    have hsemicolon : l.token ≠ .mark .semicolon :=
      fun hl => source.start.semicolon_notMem_tokens (hl ▸ hmem)
    intro haccepts
    cases hs' : Source.ofLine line' with
    | error err =>
      obtain ⟨v, hv⟩ := haccepts
      rw [result_of_ofLine_error hs'] at hv
      cases hv
    | ok source' =>
      have hread := ((accepts_iff_ends hl hs').1 haccepts).1
      have hproper := source'.start.proper_of_mem_lexemes
      have hend := (Reader.derivable_of_ends hread hproper).1
      rw [lineTokens_of_atEnd hs' hend] at hline'
      obtain ⟨front', l', rest', hlexemes, hfront, rfl⟩ :=
        exists_of_closedTokens hline' (hkind.ne_semicolon hsemicolon)
      obtain ⟨s, hover, halike⟩ := h.goesOver.exists_alike (.refl _) hfront.symm
      rw [hlexemes] at hread hproper
      obtain ⟨stop, hstop, hatEnd⟩ := hread
      rw [hover.stop_eq] at hstop
      have hl' : l'.Proper := hproper l' (List.mem_append_right _ List.mem_cons_self)
      have hrest : s.Ends source'.start.halt (l' :: rest') := ⟨stop, hstop, hatEnd⟩
      obtain ⟨s', hnext, -⟩ := hrest.exists_next hl'
      exact (h.stuck l rfl).of_sameKind halike hkind hnumeral s' hnext

end Source.Front

/-! ## 5. Errors -/

/-- The error of a run of digits and points that is no numeral. -/
def EvalError.IsMalformedNumeral (err : EvalError) : Prop :=
  ∃ lexeme, err.cause = .unexpectedToken lexeme ∧
    (∀ x ∈ lexeme.toList, Number.isNumeralChar x = true) ∧ ¬ IsNumeral lexeme.toList

/-- **Errors are reported at the earliest place.** Where lenient evaluation fails for the form of a
    text, what is before the place of the error begins a text that has a value. With the character
    at the place it begins none, unless a run of digits and points there is no numeral, or a
    terminator stands there. -/
theorem earliest_error (c : Calculator) (line : String) {err : EvalError}
    (hl : c.settings.strict = false) (h : (c.evaluate line).result = .error err)
    (hkind : err.kind = .malformed ∨ err.kind = .expectedToken) :
    err.position < (textOf line).length ∧
    (∃ line', (textOf line).take err.position <+: textOf line' ∧
      ∀ c' : Calculator, c'.settings.strict = false → c'.Accepts line') ∧
    (¬ err.IsMalformedNumeral → (textOf line)[err.position]? ≠ some terminator →
      ∀ line', (textOf line).take (err.position + 1) <+: textOf line' →
        ∀ c' : Calculator, c'.settings.strict = false → ¬ c'.Accepts line') := by
  cases hs : Source.ofLine line with
  | error err' =>
    rw [result_of_ofLine_error hs] at h
    cases h
    simp [EvalError.kind] at hkind
  | ok source =>
    obtain ⟨hb, hplace, hcause⟩ := place_of_error hl hs h hkind
    obtain ⟨front, rest, r, hfront⟩ := exists_front source
    obtain ⟨ds, us, htext, hds, -⟩ := hfront.exists_text hs
    rw [hfront.place_eq] at hplace
    refine ⟨?_, ?_, fun hnumeral hterminator line' hbegins c' hl' => ?_⟩
    · have hne : ds ≠ [] := by
        rintro rfl
        rw [tokenize] at hds
        simp at hds
      rw [htext, hplace, List.length_append]
      exact Nat.lt_add_of_pos_right (List.length_pos_iff.2 hne)
    · obtain ⟨line', hline', haccepts⟩ := hfront.exists_accepts hs hb
      refine ⟨line', ?_, haccepts⟩
      rwa [htext, hplace, List.take_left]
    · cases rest with
      | nil =>
        obtain ⟨-, ds', hsemicolon, -⟩ := tokenize_eq_cons hds
        refine absurd ?_ hterminator
        rw [htext, hplace, hsemicolon, List.getElem?_append_right (Nat.le_refl _), Nat.sub_self]
        rfl
      | cons l rest =>
        refine hfront.not_accepts hs (fun hrefuses => hnumeral ?_) (hplace ▸ hbegins) hl'
        obtain ⟨lexeme, htoken, hnone, hrefuse⟩ := hrefuses
        have hmem : l ∈ source.start.lexemes := by
          rw [hfront.lexemes]
          exact List.mem_append_right _ List.mem_cons_self
        have hchars := (source.start.proper_of_mem_lexemes l hmem).number lexeme htoken
        refine ⟨lexeme, by rw [hcause _ (hfront.stop_eq hrefuse)], hchars, fun hnumeral => ?_⟩
        rw [← isSome_ofText?_iff hchars, hnone] at hnumeral
        cases hnumeral

/-- A comma in a group inside the arguments of a function. -/
theorem earliest_error_comma :
    ∃ err, (({} : Calculator).evaluate "log(1, (2 + 3, 4))").result = .error err ∧
      err.position = 10 ∧ err.kind = .expectedToken ∧
      (∃ line', "log(1,(2+3".toList <+: textOf line' ∧
        ∀ c : Calculator, c.settings.strict = false → c.Accepts line') ∧
      ∀ line', "log(1,(2+3,".toList <+: textOf line' →
        ∀ c : Calculator, c.settings.strict = false → ¬ c.Accepts line' := by
  have hfound : (match (({} : Calculator).evaluate "log(1, (2 + 3, 4))").result with
      | .error err => some (err.position, err.kind)
      | .ok _ => none) = some (10, .expectedToken) := by decide +kernel
  cases hr : (({} : Calculator).evaluate "log(1, (2 + 3, 4))").result with
  | ok x =>
    rw [hr] at hfound
    cases hfound
  | error err =>
    rw [hr] at hfound
    obtain ⟨hposition, hkind⟩ := Prod.mk.inj (Option.some.inj hfound)
    obtain ⟨-, hviable, hhopeless⟩ := earliest_error {} _ rfl hr (.inr hkind)
    have hnumeral : ¬ err.IsMalformedNumeral := by
      rintro ⟨lexeme, hcause, -⟩
      rw [EvalError.kind, hcause] at hkind
      cases hkind
    rw [hposition] at hviable hhopeless
    have hbefore : (textOf "log(1, (2 + 3, 4))").take 10 = "log(1,(2+3".toList := by
      decide +kernel
    have hwith : (textOf "log(1, (2 + 3, 4))").take 11 = "log(1,(2+3,".toList := by
      decide +kernel
    rw [hbefore] at hviable
    rw [hwith] at hhopeless
    exact ⟨err, rfl, hposition, hkind, hviable, hhopeless hnumeral (by decide +kernel)⟩

end DeskCalculator
