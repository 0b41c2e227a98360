import DeskCalculator.Proofs.Replacement

/-!
# Texts and their tokens

The tokens of a text make up the text, and where one of them ends is decided by the next character
alone. This file fixes

* `Cursor.tokens_eq_takeWhile`, `Cursor.atEnd_halt_eq` -- a cursor finds the tokens of its text before
  the first terminator;
* `Token.EndsBefore` -- a character does not go on with a token;
* `tokenize_eq_cons` -- the first token of a text, and what stands behind it;
* `Token.SameKind` -- what is known of two tokens that begin with one character.

Main statement: **the first tokens of a text make up its front, and are found whatever stands behind
them**, if it does not go on with the last one (`tokenize_eq_append`).
-/

namespace DeskCalculator

/-! ## 1. Tokens up to a terminator -/

namespace Cursor

variable {c : Cursor}

theorem semicolon_notMem_tokens (c : Cursor) : .mark .semicolon ∉ c.tokens := by
  induction c using lexemes.induct with
  | case1 c h =>
    rw [tokens_of_next?_eq_none h]
    exact List.not_mem_nil
  | case2 c t after h _ ih =>
    rw [tokens_of_next? h]
    intro hmem
    rcases List.mem_cons.1 hmem with rfl | hmem
    · exact terminator_notMem_chars h (by simp [Token.chars, Mark.char, terminator])
    · exact ih hmem

/-- **The tokens of a text are those up to its end**, or a terminator and more stand behind them. -/
theorem tokenize_rest_eq (hu : ∀ x ∈ c.rest, x.isUpper = false) :
    (tokenize c.rest = c.tokens ∧ c.halt.atEnd = true) ∨
      ∃ us, tokenize c.rest = c.tokens ++ .mark .semicolon :: us ∧ c.halt.atEnd = false := by
  have hends : ∀ cs, tokenize (cs ++ [terminator]) = tokenize cs ++ [.mark .semicolon] := by
    intro cs
    rw [tokenize_append_cons (by decide) (by decide) (by decide), tokenize]
    rfl
  have hall := c.tokenize_rest hu
  rw [hends, hends] at hall
  cases hrest : c.halt.rest with
  | nil =>
    rw [hrest, tokenize, List.nil_append] at hall
    exact .inl ⟨List.append_cancel_right hall, by rw [atEnd, hrest]; rfl⟩
  | cons x rest =>
    have hx : x = terminator := by
      have := List.head?_dropWhile_not (· ≠ terminator) c.rest
      rw [← rest_halt, hrest] at this
      simpa using this
    subst hx
    rw [hrest, tokenize_terminator, List.cons_append, ← List.cons_append, ← List.append_assoc]
      at hall
    exact .inr ⟨tokenize rest, List.append_cancel_right hall, by rw [atEnd, hrest]; rfl⟩

/-- The tokens of a text before its first terminator. -/
theorem tokens_eq_takeWhile (c : Cursor) (hu : ∀ x ∈ c.rest, x.isUpper = false) :
    c.tokens = (tokenize c.rest).takeWhile (· ≠ .mark .semicolon) := by
  have hall : ∀ t ∈ c.tokens, decide (t ≠ .mark .semicolon) = true :=
    fun t ht => decide_eq_true fun he => c.semicolon_notMem_tokens (he ▸ ht)
  rcases tokenize_rest_eq hu with ⟨htokens, -⟩ | ⟨us, htokens, -⟩
  · rw [htokens, List.takeWhile_eq_self_iff.2 hall]
  · rw [htokens, List.takeWhile_append_of_pos hall]
    simp

theorem atEnd_halt_eq (c : Cursor) (hu : ∀ x ∈ c.rest, x.isUpper = false) :
    c.halt.atEnd = decide (.mark .semicolon ∉ tokenize c.rest) := by
  rcases tokenize_rest_eq hu with ⟨htokens, hend⟩ | ⟨us, htokens, hend⟩
  · rw [htokens, hend, decide_eq_true c.semicolon_notMem_tokens]
  · rw [htokens, hend, decide_eq_false]
    exact fun h => h (List.mem_append_right _ List.mem_cons_self)

end Cursor

/-- The first terminator stands behind the tokens of a source. -/
theorem exists_lineTokens_eq {line : String} {source : Source}
    (hs : Source.ofLine line = .ok source) :
    ∃ us, lineTokens line = source.start.tokens ++ .mark .semicolon :: us := by
  have hbody : Source.bodyOf line.toList = source.start.rest := Source.ofLine_eq_ok_iff.1 hs
  have hall : lineTokens line = tokenize source.start.rest ++ [.mark .semicolon] := by
    rw [lineTokens, hbody, tokenize_append_cons (by decide) (by decide) (by decide), tokenize]
    rfl
  rw [hall]
  rcases Cursor.tokenize_rest_eq (c := source.start) (fun x hx => isUpper_of_mem_bodyOf (hbody ▸ hx))
    with ⟨htokens, -⟩ | ⟨us, htokens, -⟩
  · exact ⟨[], by rw [htokens]⟩
  · exact ⟨us ++ [.mark .semicolon], by rw [htokens, List.append_assoc, List.cons_append]⟩

/-! ## 2. The first token -/

/-- The character does not go on with the token. -/
def Token.EndsBefore (x : Char) : Token → Prop
  | number _ => Number.isNumeralChar x = false
  | name _ => isNameChar x = false
  | mark _ | foreign _ => True

/-- A character that stands alone goes on with no token. -/
theorem Token.endsBefore_of_alone {x : Char} (hn : Number.isNumeralChar x = false)
    (hx : isNameChar x = false) (t : Token) : t.EndsBefore x := by
  cases t with
  | number _ => exact hn
  | name _ => exact hx
  | mark _ => trivial
  | foreign _ => trivial

/-- **The first token of a text** goes up to a character that does not go on with it, and would be
    found before any other such character. -/
theorem tokenize_eq_cons {cs : List Char} {t : Token} {ts : List Token}
    (h : tokenize cs = t :: ts) :
    t.chars ≠ [] ∧ ∃ ds, cs = t.chars ++ ds ∧ tokenize ds = ts ∧ (∀ x ∈ ds.head?, t.EndsBefore x) ∧
      ∀ es : List Char, (∀ x ∈ es.head?, t.EndsBefore x) →
        tokenize (t.chars ++ es) = t :: tokenize es := by
  have hnone : ∀ (p : Char → Bool) (cs : List Char), (cs.takeWhile p).dropWhile p = [] :=
    fun p cs => List.dropWhile_eq_nil_iff.2 fun x => List.mem_takeWhile_imp
  cases cs with
  | nil =>
    rw [tokenize] at h
    cases h
  | cons c cs =>
    cases hn : Number.isNumeralChar c with
    | true =>
      rw [tokenize_of_isNumeralChar hn] at h
      cases h
      refine ⟨by simp [Token.chars], cs.dropWhile Number.isNumeralChar, ?_, rfl,
        fun x => Lists.eq_false_of_mem_head?_dropWhile, fun es hes => ?_⟩
      · simp [Token.chars]
      · have hes : ∀ x ∈ es.head?, Number.isNumeralChar x = false := hes
        rw [Token.chars, String.toList_ofList, List.cons_append, tokenize_of_isNumeralChar hn,
          Lists.takeWhile_append_of_stop hes, Lists.dropWhile_append_of_stop hes,
          List.takeWhile_idem, hnone, List.nil_append]
    | false =>
      cases hl : c.isLower with
      | true =>
        rw [tokenize_of_isLower hn hl] at h
        cases h
        refine ⟨by simp [Token.chars], cs.dropWhile isNameChar, ?_, rfl,
          fun x => Lists.eq_false_of_mem_head?_dropWhile, fun es hes => ?_⟩
        · simp [Token.chars]
        · have hes : ∀ x ∈ es.head?, isNameChar x = false := hes
          rw [Token.chars, String.toList_ofList, List.cons_append, tokenize_of_isLower hn hl,
            Lists.takeWhile_append_of_stop hes, Lists.dropWhile_append_of_stop hes,
            List.takeWhile_idem, hnone, List.nil_append]
      | false =>
        rw [tokenize_of_single hn hl] at h
        cases h
        refine ⟨by simp, cs, ?_, rfl, fun x _ => ?_, fun es _ => ?_⟩
        · rw [Token.chars_single]
          rfl
        · unfold Token.single
          split <;> trivial
        · rw [Token.chars_single, List.singleton_append, tokenize_of_single hn hl]

/-- Both are the same token, or both are numbers, or both are names. -/
inductive Token.SameKind : Token → Token → Prop where
  | same (t : Token) : SameKind t t
  | number (lexeme lexeme' : String) : SameKind (.number lexeme) (.number lexeme')
  | name (text text' : String) : SameKind (.name text) (.name text')

/-- **What kind of token comes first, the first character tells.** -/
theorem sameKind_of_cons (x : Char) (cs ds : List Char) : ∃ t ts u us,
    tokenize (x :: cs) = t :: ts ∧ tokenize (x :: ds) = u :: us ∧ t.SameKind u := by
  cases hn : Number.isNumeralChar x with
  | true =>
    exact ⟨_, _, _, _, tokenize_of_isNumeralChar hn, tokenize_of_isNumeralChar hn, .number _ _⟩
  | false =>
    cases hl : x.isLower with
    | true => exact ⟨_, _, _, _, tokenize_of_isLower hn hl, tokenize_of_isLower hn hl, .name _ _⟩
    | false => exact ⟨_, _, _, _, tokenize_of_single hn hl, tokenize_of_single hn hl, .same _⟩

/-! ## 3. The first tokens -/

/-- A text does not go on with the last of some tokens. -/
def EndBefore (ts : List Token) (es : List Char) : Prop :=
  ∀ t ∈ ts.getLast?, ∀ x ∈ es.head?, t.EndsBefore x

/-- **The first tokens of a text make up its front, and are found whatever stands behind them**, if
    it does not go on with the last one. -/
theorem tokenize_eq_append {cs : List Char} {front rest : List Token}
    (h : tokenize cs = front ++ rest) :
    ∃ ds, cs = front.flatMap Token.chars ++ ds ∧ tokenize ds = rest ∧ EndBefore front ds ∧
      ∀ es, EndBefore front es →
        tokenize (front.flatMap Token.chars ++ es) = front ++ tokenize es := by
  induction front generalizing cs with
  | nil => exact ⟨cs, rfl, h, fun t ht => (by cases ht), fun es _ => rfl⟩
  | cons t front ih =>
    obtain ⟨-, ds, rfl, hds, hnext, hfirst⟩ := tokenize_eq_cons h
    obtain ⟨ds', hfront, hrest, hends, hfound⟩ := ih hds
    cases front with
    | nil =>
      rw [hfront]
      refine ⟨ds', by simp, hrest, ?_, fun es hes => ?_⟩
      · rintro u hu x hx
        cases hu
        exact hnext x (by rwa [hfront])
      · rw [List.flatMap_singleton]
        exact hfirst es (hes t rfl)
    | cons u front =>
      -- behind the first token stands the second one, whatever stands behind them all
      have hsecond : ∀ es, ∀ x ∈ ((u :: front).flatMap Token.chars ++ es).head?,
          t.EndsBefore x := by
        intro es x hx
        refine hnext x ?_
        obtain ⟨hne, -⟩ := tokenize_eq_cons hds
        obtain ⟨y, ys, hu⟩ := List.exists_cons_of_ne_nil hne
        rw [hfront]
        simpa [hu] using hx
      refine ⟨ds', by rw [List.flatMap_cons, List.append_assoc, ← hfront], hrest, hends,
        fun es hes => ?_⟩
      rw [List.flatMap_cons, List.append_assoc, hfirst _ (hsecond es), hfound es hes]
      rfl

end DeskCalculator
