import DeskCalculator.Proofs.Tokens

/-!
# The grammar of expressions

What an expression is, said of tokens alone. This file fixes

* `IsNumeral` -- the runs of digits and points that are numerals: those that `ofText?` reads
  (`isSome_ofText?_iff`);
* `Phrase`, `Derives` -- the grammar: a phrase stands at the head of some tokens, with others left
  over;
* `Derives.exists_consumed`, `Derives.head?_ne_equals`, `Derives.starts` -- what a phrase begins and
  goes on with.

A derivation says where a phrase may end, not where it has to: an assignment may leave over an
operator that its value could have taken in.
-/

namespace DeskCalculator

/-! ## 1. Numerals -/

/-- At least one digit and at most one point. -/
def IsNumeral (cs : List Char) : Prop := (∃ c ∈ cs, c.isDigit = true) ∧ cs.count '.' ≤ 1

theorem isDigit_of_isNumeralChar {c : Char} (h : Number.isNumeralChar c = true) (hc : c ≠ '.') :
    c.isDigit = true := by
  simpa [Number.isNumeralChar, hc] using h

/-- A text without a point is read as its digits. -/
theorem parts_of_notMem {cs : List Char} (h : '.' ∉ cs) :
    Number.Numeral.wholePart cs = cs ∧ Number.Numeral.fractionPart cs = [] := by
  have hall : ∀ c ∈ cs, decide (c ≠ '.') = true := by
    intro c hc
    exact decide_eq_true fun e => h (e ▸ hc)
  have htake : (cs ++ []).takeWhile (fun c => decide (c ≠ '.')) = cs ++ [] :=
    List.takeWhile_append_of_pos hall
  have hdrop : (cs ++ []).dropWhile (fun c => decide (c ≠ '.')) = [] :=
    List.dropWhile_append_of_pos hall
  rw [List.append_nil] at htake hdrop
  exact ⟨htake, by rw [Number.Numeral.fractionPart, hdrop, List.drop_nil]⟩

/-- A text with a point is read as the digits before the first one and those after it. -/
theorem parts_of_point {ds : List Char} (h : '.' ∉ ds) (fs : List Char) :
    Number.Numeral.wholePart (ds ++ '.' :: fs) = ds ∧
      Number.Numeral.fractionPart (ds ++ '.' :: fs) = fs := by
  have hall : ∀ c ∈ ds, decide (c ≠ '.') = true := by
    intro c hc
    exact decide_eq_true fun e => h (e ▸ hc)
  constructor
  · rw [Number.Numeral.wholePart, List.takeWhile_append_of_pos hall]
    simp
  · rw [Number.Numeral.fractionPart, List.dropWhile_append_of_pos hall]
    simp

theorem isSome_ofText?_parts (cs : List Char) :
    (Number.Numeral.ofText? cs).isSome = true ↔
      Number.Numeral.wholePart cs ++ Number.Numeral.fractionPart cs ≠ [] ∧
        ∀ c ∈ Number.Numeral.wholePart cs ++ Number.Numeral.fractionPart cs, c.isDigit = true := by
  unfold Number.Numeral.ofText?
  generalize Number.Numeral.wholePart cs ++ Number.Numeral.fractionPart cs = digits
  simp only
  cases hd : digits.isEmpty
  · cases ha : digits.all Char.isDigit
    · simp only [Bool.not_false, Bool.or_true, if_true, Option.isSome_none, Bool.false_eq_true,
        false_iff, not_and]
      intro _ hall
      rw [List.all_eq_true.2 hall] at ha
      cases ha
    · simp only [Bool.not_true, Bool.or_false, Bool.false_eq_true, if_false, Option.isSome_some,
        true_iff]
      refine ⟨?_, List.all_eq_true.1 ha⟩
      intro he
      subst he
      cases hd
  · simp only [Bool.true_or, if_true, Option.isSome_none, Bool.false_eq_true, false_iff, not_and]
    intro hne
    exact absurd (List.isEmpty_iff.1 hd) hne

/-- **A run of digits and points reads as a numeral if it is one.** -/
theorem isSome_ofText?_iff {cs : List Char} (h : ∀ c ∈ cs, Number.isNumeralChar c = true) :
    (Number.Numeral.ofText? cs).isSome = true ↔ IsNumeral cs := by
  rw [isSome_ofText?_parts, IsNumeral]
  by_cases hp : '.' ∈ cs
  · obtain ⟨ds, fs, rfl, hds⟩ := List.eq_append_cons_of_mem hp
    obtain ⟨hw, hf⟩ := parts_of_point hds fs
    rw [hw, hf, List.count_append, List.count_eq_zero.2 hds, List.count_cons_self, Nat.zero_add]
    constructor
    · intro h
      rcases h with ⟨hne, hall⟩
      obtain ⟨c, hc⟩ := List.exists_mem_of_ne_nil _ hne
      have hfs : '.' ∉ fs := by
        intro hm
        have := hall '.' (List.mem_append_right ds hm)
        exact absurd this (by decide)
      refine ⟨⟨c, ?_, hall c hc⟩, ?_⟩
      · rcases List.mem_append.1 hc with hc | hc
        · exact List.mem_append_left _ hc
        · exact List.mem_append_right _ (List.mem_cons_of_mem _ hc)
      · rw [List.count_eq_zero.2 hfs]
    · intro h
      rcases h with ⟨⟨c, hc, hd⟩, hcount⟩
      have hfs : '.' ∉ fs := List.count_eq_zero.1 (by omega)
      have hmem : ∀ x, x ∈ ds ++ fs → x ∈ ds ++ '.' :: fs := by
        intro x hx
        rcases List.mem_append.1 hx with hx | hx
        · exact List.mem_append_left _ hx
        · exact List.mem_append_right _ (List.mem_cons_of_mem _ hx)
      refine ⟨List.ne_nil_of_mem (a := c) ?_, fun x hx => ?_⟩
      · rcases List.mem_append.1 hc with hc | hc
        · exact List.mem_append_left _ hc
        · rcases List.mem_cons.1 hc with rfl | hc
          · exact absurd hd (by decide)
          · exact List.mem_append_right _ hc
      · refine isDigit_of_isNumeralChar (h x (hmem x hx)) ?_
        intro he
        subst he
        rcases List.mem_append.1 hx with hx | hx
        · exact hds hx
        · exact hfs hx
  · obtain ⟨hw, hf⟩ := parts_of_notMem hp
    rw [hw, hf, List.append_nil, List.count_eq_zero.2 hp]
    constructor
    · intro h
      rcases h with ⟨hne, hall⟩
      obtain ⟨c, hc⟩ := List.exists_mem_of_ne_nil cs hne
      exact ⟨⟨c, hc, hall c hc⟩, Nat.zero_le 1⟩
    · intro h
      rcases h with ⟨⟨c, hc, -⟩, -⟩
      refine ⟨List.ne_nil_of_mem hc, fun x hx => ?_⟩
      exact isDigit_of_isNumeralChar (h x hx) fun e => hp (e ▸ hx)

/-! ## 2. Phrases -/

/-- The kinds of phrases. -/
inductive Phrase where
  /-- Primaries with operators between them. -/
  | expression
  /-- The operators and primaries after the first one of an expression. -/
  | further
  /-- A core after any number of minus signs and commas. -/
  | primary
  /-- A value with all that belongs to it, an assignment or a call of one argument. -/
  | core
  /-- The factorials and the further core after a value. -/
  | factors
  /-- A numeral, a name, a group or a call of two arguments. -/
  | value
  deriving DecidableEq

/-- **The grammar**: `Derives p ts us` says that a phrase of kind `p` stands at the head of `ts` and
    that `us` is left over.

    * expression := primary (infix primary)*, infix one of `+ - * / ^ %`
    * primary := ('-' | ',')* core
    * core := value '!'* [core] | variable '=' expression | f1 primary
    * value := numeral | variable | '(' expression ')' | f2 '(' expression ',' expression ')'

    Here f1 and f2 are the names of functions of one and of two arguments; every other name is a
    variable. -/
inductive Derives : Phrase → List Token → List Token → Prop where
  | expression {ts us vs : List Token} (h : Derives .primary ts us) (h' : Derives .further us vs) :
      Derives .expression ts vs
  | noFurther {ts : List Token} : Derives .further ts ts
  | further {m : Mark} {op : BinaryOp} {ts us vs : List Token} (hm : m.between? = some op)
      (h : Derives .primary ts us) (h' : Derives .further us vs) :
      Derives .further (.mark m :: ts) vs
  | minus {ts us : List Token} (h : Derives .primary ts us) :
      Derives .primary (.mark .minus :: ts) us
  | comma {ts us : List Token} (h : Derives .primary ts us) :
      Derives .primary (.mark .comma :: ts) us
  | primary {ts us : List Token} (h : Derives .core ts us) : Derives .primary ts us
  | core {ts us vs : List Token} (h : Derives .value ts us) (h' : Derives .factors us vs) :
      Derives .core ts vs
  | assign {name : String} {ts us : List Token} (hf : Function.ofName? name = none)
      (h : Derives .expression ts us) : Derives .core (.name name :: .mark .equals :: ts) us
  | call {name : String} {f : Function} {ts us : List Token} (hf : Function.ofName? name = some f)
      (ha : f.arity = 1) (h : Derives .primary ts us) : Derives .core (.name name :: ts) us
  | bang {ts us : List Token} (h : Derives .factors ts us) :
      Derives .factors (.mark .bang :: ts) us
  | noFactor {ts : List Token} : Derives .factors ts ts
  | factor {ts us : List Token} (h : Derives .core ts us) : Derives .factors ts us
  | number {lexeme : String} {ts : List Token} (h : IsNumeral lexeme.toList) :
      Derives .value (.number lexeme :: ts) ts
  | name {name : String} {ts : List Token} (hf : Function.ofName? name = none) :
      Derives .value (.name name :: ts) ts
  | group {ts us : List Token} (h : Derives .expression ts (.mark .rightParen :: us)) :
      Derives .value (.mark .leftParen :: ts) us
  | pair {name : String} {f : Function} {ts us vs : List Token}
      (hf : Function.ofName? name = some f) (ha : f.arity = 2)
      (h : Derives .expression ts (.mark .comma :: us))
      (h' : Derives .expression us (.mark .rightParen :: vs)) :
      Derives .value (.name name :: .mark .leftParen :: ts) vs

namespace Derives

variable {p : Phrase} {ts us : List Token}

/-! ## 3. Where phrases begin and end -/

/-- **A phrase takes tokens from the head, never a terminator.** -/
theorem exists_consumed (h : Derives p ts us) :
    ∃ ws, ts = ws ++ us ∧ .mark .semicolon ∉ ws ∧ (p = .further ∨ p = .factors ∨ ws ≠ []) := by
  induction h with
  | expression _ _ ih ih' =>
    obtain ⟨ws, rfl, hs, hn⟩ := ih
    obtain ⟨ws', rfl, hs', -⟩ := ih'
    have hn : ws ≠ [] := by simpa using hn
    refine ⟨ws ++ ws', by rw [List.append_assoc], ?_, .inr (.inr ?_)⟩
    · simp [hs, hs']
    · simp [hn]
  | noFurther => exact ⟨[], rfl, List.not_mem_nil, .inl rfl⟩
  | @further m _ _ _ _ hm _ _ ih ih' =>
    obtain ⟨ws, rfl, hs, -⟩ := ih
    obtain ⟨ws', rfl, hs', -⟩ := ih'
    refine ⟨.mark m :: (ws ++ ws'), by simp, ?_, .inl rfl⟩
    have hne : m ≠ .semicolon := by
      intro he
      subst he
      cases hm
    simp [hs, hs', Ne.symm hne]
  | minus _ ih =>
    obtain ⟨ws, rfl, hs, -⟩ := ih
    exact ⟨.mark .minus :: ws, rfl, by simp [hs], by simp⟩
  | comma _ ih =>
    obtain ⟨ws, rfl, hs, -⟩ := ih
    exact ⟨.mark .comma :: ws, rfl, by simp [hs], by simp⟩
  | primary _ ih =>
    obtain ⟨ws, rfl, hs, hn⟩ := ih
    exact ⟨ws, rfl, hs, by simpa using hn⟩
  | core _ _ ih ih' =>
    obtain ⟨ws, rfl, hs, hn⟩ := ih
    obtain ⟨ws', rfl, hs', -⟩ := ih'
    have hn : ws ≠ [] := by simpa using hn
    refine ⟨ws ++ ws', by rw [List.append_assoc], ?_, .inr (.inr ?_)⟩
    · simp [hs, hs']
    · simp [hn]
  | @assign name _ _ _ _ ih =>
    obtain ⟨ws, rfl, hs, -⟩ := ih
    exact ⟨.name name :: .mark .equals :: ws, rfl, by simp [hs], by simp⟩
  | @call name _ _ _ _ _ _ ih =>
    obtain ⟨ws, rfl, hs, -⟩ := ih
    exact ⟨.name name :: ws, rfl, by simp [hs], by simp⟩
  | bang _ ih =>
    obtain ⟨ws, rfl, hs, -⟩ := ih
    exact ⟨.mark .bang :: ws, rfl, by simp [hs], by simp⟩
  | noFactor => exact ⟨[], rfl, List.not_mem_nil, by simp⟩
  | factor _ ih =>
    obtain ⟨ws, rfl, hs, -⟩ := ih
    exact ⟨ws, rfl, hs, by simp⟩
  | @number lexeme _ _ => exact ⟨[.number lexeme], rfl, by simp, by simp⟩
  | @name name _ _ => exact ⟨[.name name], rfl, by simp, by simp⟩
  | group _ ih =>
    obtain ⟨ws, rfl, hs, -⟩ := ih
    exact ⟨.mark .leftParen :: (ws ++ [.mark .rightParen]), by simp, by simp [hs], by simp⟩
  | @pair name _ _ _ _ _ _ _ _ ih ih' =>
    obtain ⟨ws, rfl, hs, -⟩ := ih
    obtain ⟨ws', rfl, hs', -⟩ := ih'
    refine ⟨.name name :: .mark .leftParen :: (ws ++ .mark .comma :: (ws' ++ [.mark .rightParen])),
      by simp, by simp [hs, hs'], by simp⟩

/-- An equals sign begins no phrase. -/
theorem head?_ne_equals (h : Derives p ts us) (hu : us.head? ≠ some (.mark .equals)) :
    ts.head? ≠ some (.mark .equals) := by
  induction h with
  | expression _ _ ih ih' => exact ih (ih' hu)
  | further hm _ _ _ _ =>
    intro he
    cases he
    cases hm
  | core _ _ ih ih' => exact ih (ih' hu)
  | primary _ ih => exact ih hu
  | factor _ ih => exact ih hu
  | noFurther => exact hu
  | noFactor => exact hu
  | _ => simp

/-- What starts a core could start a further factor. -/
theorem starts (h : Derives p ts us) (hp : p = .core ∨ p = .value) :
    ∃ t rest, ts = t :: rest ∧ (t = .mark .leftParen ∨ ∀ m, t ≠ .mark m) := by
  induction h with
  | core _ _ ih _ => exact ih (.inr rfl)
  | assign => exact ⟨_, _, rfl, .inr fun m => by simp⟩
  | call => exact ⟨_, _, rfl, .inr fun m => by simp⟩
  | number => exact ⟨_, _, rfl, .inr fun m => by simp⟩
  | name => exact ⟨_, _, rfl, .inr fun m => by simp⟩
  | group => exact ⟨_, _, rfl, .inl rfl⟩
  | pair => exact ⟨_, _, rfl, .inr fun m => by simp⟩
  | _ => simp at hp

end Derives

end DeskCalculator
