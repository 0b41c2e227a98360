import DeskCalculator.Reading
import DeskCalculator.Proofs.Tokens

/-!
# Reading by recursive descent

What a reader does with its open frames, functions that call each other would do without: one for
each kind of passage, which reads the passage from its first character on and leaves the cursor
behind it. This file fixes

* `Reading.after`, `Reading.andThen` -- readings in a row;
* `Passage`, `Passage.Reads` -- the passages of an expression, and what reading one comes to, with a
  rule for each way that reading it can go;
* `Reading.GoesAhead` -- the cursors of a reading follow each other in the text;
* `Cursor.EndsOperand`, `Cursor.EndsChain` -- the marks at which a passage ends.

Main statements: **the cursor never goes back nor past a terminator** (`Reads.goesAhead`) and **a
passage ends at its marks** (`Reads.ends`). That the descent ends (`Proofs/Progress`), and that a
reader with frames reads the same (`Proofs/Retracing`), are other matters.
-/

namespace DeskCalculator

/-! ## 1. Readings in a row -/

namespace Reading

/-- The reading with an instruction in front. -/
def after (issued : Issued) (r : Reading) : Reading := ⟨issued :: r.code, r.stop⟩

/-- A second reading from where the first one stops, unless the first one is refused. -/
def andThen (r : Reading) (next : Cursor → Reading) : Reading :=
  match r.stop with
  | .ok c => ⟨r.code ++ (next c).code, (next c).stop⟩
  | .error _ => r

/-- Nothing is read. -/
def stay (c : Cursor) : Reading := ⟨[], .ok c⟩

/-- Nothing is read, and there is an error. -/
def refused (c : Cursor) (e : EvalError) : Reading := ⟨[], .error ⟨c, e⟩⟩

variable {r : Reading} {c : Cursor} {next : Cursor → Reading}

theorem andThen_of_ok (h : r.stop = .ok c) (next : Cursor → Reading) :
    r.andThen next = ⟨r.code ++ (next c).code, (next c).stop⟩ := by
  rw [andThen, h]

theorem andThen_of_error {refusal : Refusal} (h : r.stop = .error refusal)
    (next : Cursor → Reading) : r.andThen next = r := by
  rw [andThen, h]

theorem after_andThen (issued : Issued) (r : Reading) (next : Cursor → Reading) :
    (r.after issued).andThen next = (r.andThen next).after issued := by
  obtain ⟨code, stop⟩ := r
  cases stop <;> rfl

theorem andThen_stay (r : Reading) : r.andThen stay = r := by
  obtain ⟨code, stop⟩ := r
  cases stop with
  | error refusal => rfl
  | ok c => exact congrArg (Reading.mk · _) (List.append_nil _)

theorem andThen_assoc (r : Reading) (next next' : Cursor → Reading) :
    (r.andThen next).andThen next' = r.andThen fun c => (next c).andThen next' := by
  obtain ⟨code, stop⟩ := r
  cases stop with
  | error refusal => rfl
  | ok c =>
    simp only [andThen]
    generalize next c = r'
    obtain ⟨code', stop'⟩ := r'
    cases stop' with
    | error refusal => rfl
    | ok c' => exact congrArg (Reading.mk · _) (List.append_assoc _ _ _)

/-- What comes to a stop behind two readings stopped between them. -/
theorem exists_stop_of_andThen {c' : Cursor} (h : (r.andThen next).stop = .ok c') :
    ∃ c, r.stop = .ok c ∧ (next c).stop = .ok c' := by
  cases hr : r.stop with
  | error refusal =>
    rw [andThen_of_error hr, hr] at h
    cases h
  | ok c =>
    rw [andThen_of_ok hr] at h
    exact ⟨c, rfl, h⟩

/-- The second reading matters where the first one stops only. -/
theorem andThen_congr {next' : Cursor → Reading} (h : ∀ c, r.stop = .ok c → next c = next' c) :
    r.andThen next = r.andThen next' := by
  cases hr : r.stop with
  | error refusal => rw [andThen_of_error hr, andThen_of_error hr]
  | ok c => rw [andThen_of_ok hr, andThen_of_ok hr, h c hr]

end Reading

/-! ## 2. Marks at the cursor -/

namespace Mark

/-- Whether a mark ends a chain. -/
def endsChain (m : Mark) : Bool := m ≠ leftParen && m.isStructural

/-- Whether a mark ends an operand: it ends the chain, or is an operator between operands. -/
def endsOperand (m : Mark) : Bool := m ≠ leftParen && (m.between?.isSome || m.isStructural)

theorem endsOperand_of_endsChain {m : Mark} (h : m.endsChain = true) : m.endsOperand = true := by
  revert h
  cases m <;> decide

theorem endsChain_of_endsOperand {m : Mark} (h : m.endsOperand = true) (hb : m.between? = none) :
    m.endsChain = true := by
  revert h hb
  cases m <;> decide

/-- **The marks that end a chain.** -/
theorem endsChain_iff {m : Mark} : m.endsChain = true ↔ m.char ∈ [')', ',', ';', '=', ' '] := by
  cases m <;> decide

/-- **The operators between two operands.** -/
theorem isSome_between?_iff {m : Mark} :
    m.between?.isSome = true ↔ m.char ∈ ['+', '-', '*', '/', '^', '%'] := by
  cases m <;> decide

theorem endsOperand_iff {m : Mark} :
    m.endsOperand = true ↔ m.between?.isSome = true ∨ m.endsChain = true := by
  cases m <;> decide

end Mark

/-- Whether an operand, its minus signs and idle commas among it, can begin with a token. -/
def Token.opensOperand : Token → Bool
  | number _ | name _ | mark .minus | mark .comma | mark .leftParen => true
  | mark _ | foreign _ => false

namespace Cursor

/-- The mark at the cursor. -/
def mark? (c : Cursor) : Option Mark := Mark.ofChar? c.current

/-- The cursor is at a mark that ends a chain. -/
def EndsChain (c : Cursor) : Prop := ∃ m, c.mark? = some m ∧ m.endsChain = true

/-- The cursor is at a mark that ends an operand. -/
def EndsOperand (c : Cursor) : Prop := ∃ m, c.mark? = some m ∧ m.endsOperand = true

theorem EndsChain.endsOperand {c : Cursor} (h : c.EndsChain) : c.EndsOperand := by
  obtain ⟨m, hm, he⟩ := h
  exact ⟨m, hm, Mark.endsOperand_of_endsChain he⟩

/-- A mark that has to stand at the cursor is passed. -/
def expecting (m : Mark) (needed : Requirement) (c : Cursor) : Reading :=
  if c.mark? = some m then .stay c.advance else .refused c ⟨c.position, .expected needed⟩

theorem code_expecting (m : Mark) (needed : Requirement) (c : Cursor) :
    (c.expecting m needed).code = [] := by
  unfold expecting
  split <;> rfl

/-- A group is closed by its parenthesis, and its scope with it. -/
def closing (c : Cursor) : Reading :=
  (c.expecting .rightParen .closing).andThen fun c' => ⟨[⟨c', .closeScope⟩], .ok c'⟩

/-- The scope of a value is closed, and a name is bound to it. -/
def binding (name : String) (c : Cursor) : Reading :=
  ⟨[⟨c, .closeScope⟩, ⟨c, .assign name⟩], .ok c⟩

/-- The refusal of what stands where an operand has to come. -/
def unexpected (c : Cursor) : EvalError :=
  ⟨c.position, if c.atEnd then .unexpectedEnd else .unexpectedToken (String.ofList [c.current])⟩

end Cursor

/-! ## 3. Passages -/

/-- The passages of an expression. -/
inductive Passage where
  /-- One operand with all that belongs to it. -/
  | operand
  /-- What belongs to an operand behind its first value: factorials, and further factors. -/
  | trail
  /-- A name, with the arguments of a call or the value that it is bound to. -/
  | name
  /-- The arguments of a function, with what belongs to the operand behind them. -/
  | arguments (f : Function)
  /-- A group with so many commas, from its parenthesis to its parenthesis. -/
  | group (separators : Nat)
  /-- The chains of a group. -/
  | members (separators : Nat)
  | chain
  /-- What follows the first operand of a chain. -/
  | links
  deriving DecidableEq

namespace Passage

/-- **Reading a passage**: `Reads p c r` says that the passage `p`, read from `c` on, comes to the
    reading `r`. A passage within another one is read by its own rules; where the first of two is
    refused, the second is not read. -/
inductive Reads : Passage → Cursor → Reading → Prop where
  | number {c c' : Cursor} {lexeme : String} {n : Number.Numeral} {r : Reading}
      (ht : c.next? = some (.number lexeme, c'))
      (hn : Number.Numeral.ofText? lexeme.toList = some n) (h : Reads .trail c' r) :
      Reads .operand c (r.after ⟨c', .literal n.value⟩)
  | malformed {c c' : Cursor} {lexeme : String} (ht : c.next? = some (.number lexeme, c'))
      (hn : Number.Numeral.ofText? lexeme.toList = none) :
      Reads .operand c (.refused c' ⟨c.position, .unexpectedToken lexeme⟩)
  | named {c c' : Cursor} {name : String} {r : Reading} (ht : c.next? = some (.name name, c'))
      (h : Reads .name c r) : Reads .operand c r
  | minus {c c' : Cursor} {r : Reading} (ht : c.next? = some (.mark .minus, c'))
      (h : Reads .operand c' r) : Reads .operand c (r.after ⟨c, .hold (.unary .negate)⟩)
  | comma {c c' : Cursor} {r : Reading} (ht : c.next? = some (.mark .comma, c'))
      (h : Reads .operand c' r) : Reads .operand c r
  | grouped {c c' : Cursor} {r : Reading} {next : Cursor → Reading}
      (ht : c.next? = some (.mark .leftParen, c')) (h : Reads (.group 0) c r)
      (h' : ∀ c₁, r.stop = .ok c₁ → Reads .trail c₁ (next c₁)) :
      Reads .operand c (r.andThen next)
  | unopened {c : Cursor} (ht : ∀ t c', c.next? = some (t, c') → t.opensOperand = false) :
      Reads .operand c (.refused c c.unexpected)
  | factorial {c c' : Cursor} {r : Reading} (ht : c.next? = some (.mark .bang, c'))
      (h : Reads .trail c' r) : Reads .trail c (r.after ⟨c, .operator (.unary .factorial)⟩)
  | ended {c : Cursor} (hc : c.EndsOperand) : Reads .trail c (.stay c)
  | factor {c c' : Cursor} {t : Token} {r : Reading} (ht : c.next? = some (t, c'))
      (hs : t = .mark .leftParen ∨ ∀ m, t ≠ .mark m) (h : Reads .operand c r) :
      Reads .trail c (r.after ⟨c, .operator (.binary .mul)⟩)
  | call {c c' : Cursor} {cs : List Char} {f : Function} {r : Reading}
      (hc : c.collect isNameChar = (cs, c')) (hf : Function.ofName? (String.ofList cs) = some f)
      (h : Reads (.arguments f) c' r) : Reads .name c (r.after ⟨c', .operator f.operator⟩)
  | bound {c c' : Cursor} {cs : List Char} {r : Reading} (hc : c.collect isNameChar = (cs, c'))
      (hf : Function.ofName? (String.ofList cs) = none) (he : c'.mark? = some .equals)
      (h : Reads .chain c'.advance r) :
      Reads .name c ((r.after ⟨c'.advance, .openScope⟩).andThen (Cursor.binding (String.ofList cs)))
  | read {c c' : Cursor} {cs : List Char} {r : Reading} (hc : c.collect isNameChar = (cs, c'))
      (hf : Function.ofName? (String.ofList cs) = none) (he : c'.mark? ≠ some .equals)
      (h : Reads .trail c' r) :
      Reads .name c (r.after ⟨c', .read (String.ofList cs) c.position⟩)
  | single {c : Cursor} {f : Function} {r : Reading} (ha : f.arity = 1) (h : Reads .operand c r) :
      Reads (.arguments f) c r
  | several {c : Cursor} {f : Function} {r : Reading} {next : Cursor → Reading} (ha : f.arity ≠ 1)
      (hp : c.mark? = some .leftParen) (h : Reads (.group (f.arity - 1)) c r)
      (h' : ∀ c₁, r.stop = .ok c₁ → Reads .trail c₁ (next c₁)) :
      Reads (.arguments f) c (r.andThen next)
  | bare {c : Cursor} {f : Function} (ha : f.arity ≠ 1) (hp : c.mark? ≠ some .leftParen) :
      Reads (.arguments f) c (.refused c ⟨c.position, .expected (.callOpening f)⟩)
  | group {c : Cursor} {separators : Nat} {r : Reading}
      (h : Reads (.members separators) c.advance r) :
      Reads (.group separators) c ((r.after ⟨c.advance, .openScope⟩).andThen Cursor.closing)
  | last {c : Cursor} {r : Reading} (h : Reads .chain c r) : Reads (.members 0) c r
  | further {c : Cursor} {separators : Nat} {r : Reading} {next : Cursor → Reading}
      (h : Reads .chain c r)
      (h' : ∀ c₁, (r.andThen (Cursor.expecting .comma .separator)).stop = .ok c₁ →
        Reads (.members separators) c₁ (next c₁)) :
      Reads (.members (separators + 1)) c
        ((r.andThen (Cursor.expecting .comma .separator)).andThen next)
  | chain {c : Cursor} {r : Reading} {next : Cursor → Reading} (h : Reads .operand c r)
      (h' : ∀ c₁, r.stop = .ok c₁ → Reads .links c₁ (next c₁)) : Reads .chain c (r.andThen next)
  | link {c : Cursor} {m : Mark} {op : BinaryOp} {r : Reading} {next : Cursor → Reading}
      (hc : c.mark? = some m) (hm : m.between? = some op) (h : Reads .operand c.advance r)
      (h' : ∀ c₁, r.stop = .ok c₁ → Reads .links c₁ (next c₁)) :
      Reads .links c ((r.andThen next).after ⟨c, .operator (.binary op)⟩)
  | settled {c : Cursor} (hc : ∀ m, c.mark? = some m → m.between? = none) :
      Reads .links c ⟨[⟨c, .settle⟩], .ok c⟩

end Passage

/-! ## 4. The cursors of a reading -/

/-- Where a reading leaves the cursor, whether it stops or is refused. -/
def Reading.last (r : Reading) : Cursor :=
  match r.stop with
  | .ok c => c
  | .error refusal => refusal.cursor

/-- The cursors of a reading: at each instruction, and at the end. -/
def Reading.cursors (r : Reading) : List Cursor := r.code.map Issued.cursor ++ [r.last]

/-- **The cursor goes ahead**: from `c` on, each cursor of the reading is reached from all those
    before it. -/
def Reading.GoesAhead (c : Cursor) (r : Reading) : Prop :=
  (c :: r.cursors).Pairwise fun c₁ c₂ => c₂.ReachedFrom c₁

namespace Reading.GoesAhead

variable {c c' : Cursor} {r : Reading} {next : Cursor → Reading}

theorem reached (h : r.GoesAhead c) : ∀ c₁ ∈ r.cursors, c₁.ReachedFrom c :=
  (List.pairwise_cons.1 h).1

theorem stop_reached (h : r.GoesAhead c) (hs : r.stop = .ok c') : c'.ReachedFrom c := by
  refine h.reached c' (List.mem_append_right _ ?_)
  rw [last, hs]
  exact List.mem_singleton_self c'

theorem mono (hc : c'.ReachedFrom c) (h : r.GoesAhead c') : r.GoesAhead c :=
  List.pairwise_cons.2 ⟨fun c₁ hc₁ => hc.trans (h.reached c₁ hc₁), (List.pairwise_cons.1 h).2⟩

theorem stay (hc : c'.ReachedFrom c) : (Reading.stay c').GoesAhead c :=
  List.pairwise_pair.2 hc

theorem refused (hc : c'.ReachedFrom c) (e : EvalError) : (Reading.refused c' e).GoesAhead c :=
  List.pairwise_pair.2 hc

/-- An instruction in front, issued on the way. -/
theorem after (hc : c'.ReachedFrom c) (h : r.GoesAhead c') (i : Instruction) :
    (r.after ⟨c', i⟩).GoesAhead c :=
  mono hc (List.pairwise_cons.2 ⟨fun c₁ hc₁ => (List.mem_cons.1 hc₁).elim
    (fun he => he ▸ .refl c') (h.reached c₁), h⟩)

/-- **Readings in a row go ahead.** -/
theorem andThen (h : r.GoesAhead c) (h' : ∀ c₁, r.stop = .ok c₁ → (next c₁).GoesAhead c₁) :
    (r.andThen next).GoesAhead c := by
  cases hs : r.stop with
  | error refusal => rwa [andThen_of_error hs]
  | ok c₁ =>
    have hnext := h' c₁ hs
    rw [GoesAhead, cursors, last, hs, ← List.cons_append, List.pairwise_append] at h
    obtain ⟨hfirst, -, hstop⟩ := h
    rw [andThen_of_ok hs, GoesAhead, cursors, List.map_append, List.append_assoc,
      ← List.cons_append, List.pairwise_append]
    refine ⟨hfirst, (List.pairwise_cons.1 hnext).2, fun c₂ hc₂ c₃ hc₃ => ?_⟩
    exact (hstop c₂ hc₂ c₁ (List.mem_singleton_self c₁)).trans (hnext.reached c₃ hc₃)

end Reading.GoesAhead

namespace Cursor

variable {c c' : Cursor} {t : Token}

theorem goesAhead_expecting (m : Mark) (needed : Requirement) (c : Cursor) :
    (c.expecting m needed).GoesAhead c := by
  unfold expecting
  split
  · exact .stay c.advance_reached
  · exact .refused (.refl c) _

theorem goesAhead_closing (c : Cursor) : c.closing.GoesAhead c :=
  (c.goesAhead_expecting .rightParen .closing).andThen fun c₁ _ =>
    .after (.refl c₁) (.stay (.refl c₁)) .closeScope

theorem goesAhead_binding (name : String) (c : Cursor) : (c.binding name).GoesAhead c :=
  .after (.refl c) (.after (.refl c) (.stay (.refl c)) (.assign name)) .closeScope

theorem next?_reached (h : c.next? = some (t, c')) : c'.ReachedFrom c := by
  unfold next? at h
  split at h
  · cases h
  · split at h
    · cases h
      exact collect_reached _ c
    · split at h
      · cases h
        exact collect_reached _ c
      · cases h
        exact advance_reached c

end Cursor

namespace Passage

variable {p : Passage} {c c' : Cursor} {r : Reading}

theorem collect_name_reached {cs : List Char} (h : c.collect isNameChar = (cs, c')) :
    c'.ReachedFrom c := by
  have hreached := Cursor.collect_reached isNameChar c
  rwa [h] at hreached

/-- **The cursor never goes back, nor past a terminator.** -/
theorem Reads.goesAhead (h : p.Reads c r) : r.GoesAhead c := by
  induction h with
  | number ht _ _ ih => exact .after (Cursor.next?_reached ht) ih _
  | malformed ht _ => exact .refused (Cursor.next?_reached ht) _
  | named _ _ ih => exact ih
  | minus ht _ ih => exact .after (.refl _) (ih.mono (Cursor.next?_reached ht)) _
  | comma ht _ ih => exact ih.mono (Cursor.next?_reached ht)
  | grouped _ _ _ ih ih' => exact ih.andThen ih'
  | unopened _ => exact .refused (.refl _) _
  | factorial ht _ ih => exact .after (.refl _) (ih.mono (Cursor.next?_reached ht)) _
  | ended _ => exact .stay (.refl _)
  | factor _ _ _ ih => exact .after (.refl _) ih _
  | call hc _ _ ih => exact .after (collect_name_reached hc) ih _
  | bound hc _ _ _ ih =>
    have hvalue := (collect_name_reached hc).trans (Cursor.advance_reached _)
    exact (Reading.GoesAhead.after hvalue ih _).andThen fun c₁ _ => Cursor.goesAhead_binding _ c₁
  | read hc _ _ _ ih => exact .after (collect_name_reached hc) ih _
  | single _ _ ih => exact ih
  | several _ _ _ _ ih ih' => exact ih.andThen ih'
  | bare _ _ => exact .refused (.refl _) _
  | group _ ih =>
    exact (Reading.GoesAhead.after (Cursor.advance_reached _) ih _).andThen fun c₁ _ =>
      Cursor.goesAhead_closing c₁
  | last _ ih => exact ih
  | further _ _ ih ih' =>
    exact (ih.andThen fun c₁ _ => Cursor.goesAhead_expecting _ _ c₁).andThen ih'
  | chain _ _ ih ih' => exact ih.andThen ih'
  | link _ _ _ _ ih ih' =>
    exact .after (.refl _) ((ih.mono (Cursor.advance_reached _)).andThen ih') _
  | settled _ => exact .after (.refl _) (.stay (.refl _)) _

/-- What a passage leaves behind it, if it begins as it should. -/
theorem Reads.stop_reached (h : p.Reads c r) (hs : r.stop = .ok c') : c'.ReachedFrom c :=
  h.goesAhead.stop_reached hs

/-! ## 5. Where passages end -/

/-- What the cursor is at behind a passage. -/
def Ends : Passage → Cursor → Prop
  | operand, c | trail, c | name, c | arguments _, c => c.EndsOperand
  | members _, c | chain, c | links, c => c.EndsChain
  | group _, _ => True

/-- **A passage ends at its marks**; the rest of a chain has to begin at such a mark, too. -/
theorem Reads.ends (h : p.Reads c r) (hp : p = .links → c.EndsOperand) (hs : r.stop = .ok c') :
    p.Ends c' := by
  induction h generalizing c' with
  | number _ _ _ ih => exact ih Passage.noConfusion hs
  | malformed _ _ => cases hs
  | named _ _ ih => exact ih Passage.noConfusion hs
  | minus _ _ ih => exact ih Passage.noConfusion hs
  | comma _ _ ih => exact ih Passage.noConfusion hs
  | grouped _ _ _ _ ih' =>
    obtain ⟨c₁, hs₁, hs'⟩ := Reading.exists_stop_of_andThen hs
    exact ih' c₁ hs₁ Passage.noConfusion hs'
  | unopened _ => cases hs
  | factorial _ _ ih => exact ih Passage.noConfusion hs
  | ended hc =>
    cases hs
    exact hc
  | factor _ _ _ ih => exact ih Passage.noConfusion hs
  | call _ _ _ ih => exact ih Passage.noConfusion hs
  | bound _ _ _ _ ih =>
    obtain ⟨c₁, hs₁, hs'⟩ := Reading.exists_stop_of_andThen hs
    cases hs'
    exact (ih Passage.noConfusion hs₁).endsOperand
  | read _ _ _ _ ih => exact ih Passage.noConfusion hs
  | single _ _ ih => exact ih Passage.noConfusion hs
  | several _ _ _ _ _ ih' =>
    obtain ⟨c₁, hs₁, hs'⟩ := Reading.exists_stop_of_andThen hs
    exact ih' c₁ hs₁ Passage.noConfusion hs'
  | bare _ _ => cases hs
  | group _ _ => trivial
  | last _ ih => exact ih Passage.noConfusion hs
  | further _ _ _ ih' =>
    obtain ⟨c₁, hs₁, hs'⟩ := Reading.exists_stop_of_andThen hs
    exact ih' c₁ hs₁ Passage.noConfusion hs'
  | chain _ _ ih ih' =>
    obtain ⟨c₁, hs₁, hs'⟩ := Reading.exists_stop_of_andThen hs
    exact ih' c₁ hs₁ (fun _ => ih Passage.noConfusion hs₁) hs'
  | link _ _ _ _ ih ih' =>
    obtain ⟨c₁, hs₁, hs'⟩ := Reading.exists_stop_of_andThen hs
    exact ih' c₁ hs₁ (fun _ => ih Passage.noConfusion hs₁) hs'
  | settled hc =>
    cases hs
    obtain ⟨m, hm, he⟩ := hp rfl
    exact ⟨m, hm, Mark.endsChain_of_endsOperand he (hc m hm)⟩

end Passage

end DeskCalculator
