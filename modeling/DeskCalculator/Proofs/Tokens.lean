import Mathlib.Data.List.Chain
import DeskCalculator.Source
import DeskCalculator.Token
import DeskCalculator.Proofs.Lists

/-!
# The tokens of a cleaned text

`tokenize` splits a whole text, terminators included, without a cursor: runs of digits and points,
runs of a small letter followed by letters and digits, and single characters. A cursor finds the
same tokens up to the first terminator (`tokenize_rest`), for a cleaned text has no capital letter
(`isUpper_of_mem_bodyOf`). Beside it stand

* `lineTokens` -- the tokens of the cleaned text of a line, the final terminator among them;
* `Cursor.tokens` -- the tokens from a cursor on, up to the first terminator; two names never stand
  side by side there (`isChain_tokens`);
* `CommaAfterCall` -- a comma directly after the name of a function of one argument.
-/

namespace DeskCalculator

/-! ## 1. Splitting a text -/

/-- The tokens of a text, each as long as it can be. -/
def tokenize : List Char → List Token
  | [] => []
  | c :: cs =>
    if Number.isNumeralChar c then
      .number (String.ofList (c :: cs.takeWhile Number.isNumeralChar)) ::
        tokenize (cs.dropWhile Number.isNumeralChar)
    else if c.isLower then
      .name (String.ofList (c :: cs.takeWhile isNameChar)) :: tokenize (cs.dropWhile isNameChar)
    else .single c :: tokenize cs
  termination_by cs => cs.length
  decreasing_by
    · exact Nat.lt_succ_of_le (List.dropWhile_suffix _).length_le
    · exact Nat.lt_succ_of_le (List.dropWhile_suffix _).length_le
    · exact Nat.lt_succ_self _

/-- The tokens of the cleaned text of a line, with the terminator that ends it. -/
def lineTokens (line : String) : List Token :=
  tokenize (Source.bodyOf line.toList ++ [terminator])

/-- A comma directly after the name of a function of one argument. -/
def CommaAfterCall (ts : List Token) : Prop :=
  ∃ f : Function, f.arity = 1 ∧ [.name f.name, .mark .comma] <:+: ts

/-- Whether a token is a name. -/
def Token.isName : Token → Bool
  | name _ => true
  | number _ | mark _ | foreign _ => false

theorem Token.exists_of_isName {t : Token} (h : t.isName = true) : ∃ s, t = .name s := by
  cases t with
  | name s => exact ⟨s, rfl⟩
  | number _ => cases h
  | mark _ => cases h
  | foreign _ => cases h

theorem Token.single_ne_name (c : Char) (s : String) : Token.single c ≠ .name s := by
  unfold Token.single
  split <;> simp

theorem tokenize_of_isNumeralChar {c : Char} {cs : List Char} (h : Number.isNumeralChar c = true) :
    tokenize (c :: cs) = .number (String.ofList (c :: cs.takeWhile Number.isNumeralChar)) ::
      tokenize (cs.dropWhile Number.isNumeralChar) := by
  rw [tokenize, if_pos h]

theorem tokenize_of_isLower {c : Char} {cs : List Char} (hn : Number.isNumeralChar c = false)
    (h : c.isLower = true) :
    tokenize (c :: cs) = .name (String.ofList (c :: cs.takeWhile isNameChar)) ::
      tokenize (cs.dropWhile isNameChar) := by
  rw [tokenize, hn, if_neg Bool.false_ne_true, if_pos h]

theorem tokenize_of_single {c : Char} {cs : List Char} (hn : Number.isNumeralChar c = false)
    (h : c.isLower = false) : tokenize (c :: cs) = .single c :: tokenize cs := by
  rw [tokenize, hn, h, if_neg Bool.false_ne_true, if_neg Bool.false_ne_true]

/-! ## 2. No capitals -/

namespace Text

/-- What holds of all ASCII characters, which `decide` can tell, holds of each. -/
theorem forall_ascii {P : Char → Prop} (h : ∀ n < 0x80, P (Char.ofNat n)) {c : Char}
    (hc : c.toNat < 0x80) : P c := by
  have := h c.toNat hc
  rwa [Char.ofNat_toNat] at this

theorem isUpper_of_gt {c : Char} (h : 0x5a < c.toNat) : c.isUpper = false := by
  refine decide_eq_false ?_
  intro hc
  exact absurd (UInt32.le_iff_toNat_le.1 hc.2) (Nat.not_le_of_lt h)

theorem isUpper_ofNat {n : Nat} (h : 0x5a < n) : (Char.ofNat n).isUpper = false := by
  by_cases hv : n.isValidChar
  · have hn : (Char.ofNat n).toNat = n := by
      rw [Char.ofNat, dif_pos hv]
      rfl
    exact isUpper_of_gt (by rwa [hn])
  · have h0 : Char.ofNat n = '\x00' := by
      rw [Char.ofNat, dif_neg hv]
      rfl
    rw [h0]
    decide

theorem isUpper_toLower {c : Char} (h : c.toNat < 0x80) : c.toLower.isUpper = false :=
  forall_ascii (P := fun c => c.toLower.isUpper = false) (by decide) h

/-- Every form in the table lies above the capitals: the Kelvin sign alone has an ASCII one. -/
theorem lt_image {run : LowerRun} (h : run ∈ lowerRuns) : 0x5a < run.image := by
  have hall : lowerRuns.all (fun run => decide (0x5a < run.image)) = true := by decide +kernel
  simpa using List.all_eq_true.1 hall run h

theorem isUpper_lowerChar (c : Char) : (lowerChar c).isUpper = false := by
  by_cases h : c.toNat < 0x80
  · rw [lowerChar_of_ascii h]
    exact isUpper_toLower h
  · simp only [lowerChar, h, if_false]
    split
    · next run hr =>
      have hi := lt_image (List.mem_of_find?_eq_some hr)
      exact isUpper_ofNat (Nat.lt_of_lt_of_le hi (Nat.le_add_right _ _))
    · exact isUpper_of_gt (by omega)

theorem isUpper_of_mem_lowerAfter {before cs : List Char} {x : Char}
    (h : x ∈ lowerAfter before cs) : x.isUpper = false := by
  induction cs generalizing before with
  | nil => cases h
  | cons c rest ih =>
    simp only [lowerAfter, List.mem_append] at h
    rcases h with h | h
    · unfold lowerAt at h
      split at h
      · split at h <;> rw [List.mem_singleton.1 h] <;> decide
      · split at h
        · rcases List.mem_cons.1 h with rfl | h
          · decide
          · rw [List.mem_singleton.1 h]
            decide
        · rw [List.mem_singleton.1 h]
          exact isUpper_lowerChar c
    · exact ih h

end Text

/-- **A cleaned text has no capital letter.** -/
theorem isUpper_of_mem_bodyOf {line : List Char} {x : Char} (h : x ∈ Source.bodyOf line) :
    x.isUpper = false :=
  Text.isUpper_of_mem_lowerAfter h

/-! ## 3. The tokens from a cursor on -/

namespace Cursor

/-- The tokens from the cursor on, up to the first terminator. -/
def tokens (c : Cursor) : List Token := c.lexemes.map Lexeme.token

theorem tokens_of_next?_eq_none {c : Cursor} (h : c.next? = none) : c.tokens = [] := by
  rw [tokens, lexemes_of_next?_eq_none h, List.map_nil]

theorem tokens_of_next? {c after : Cursor} {t : Token} (h : c.next? = some (t, after)) :
    c.tokens = t :: after.tokens := by
  rw [tokens, lexemes_of_next? h, List.map_cons, tokens]

theorem isNameStart_eq_isLower {x : Char} (h : x.isUpper = false) : isNameStart x = x.isLower := by
  show (x.isUpper || x.isLower) = x.isLower
  rw [h, Bool.false_or]

theorem terminator_ne_of_isNumeralChar {x : Char} (h : Number.isNumeralChar x = true) :
    x ≠ terminator := by
  intro he
  subst he
  revert h
  decide

theorem terminator_ne_of_isNameChar {x : Char} (h : isNameChar x = true) : x ≠ terminator := by
  intro he
  subst he
  revert h
  decide

theorem run_of_forall_ne {p : Char → Bool} (h : ∀ x, p x = true → x ≠ terminator) (c : Cursor) :
    c.run p = c.rest.takeWhile p := by
  have : (fun x => decide (x ≠ terminator) && p x) = p := by
    funext x
    cases hp : p x
    · simp
    · simpa using h x hp
  rw [run, this]

/-- The rest after a run of characters that no terminator is among. -/
theorem rest_collect_of_forall_ne {p : Char → Bool} (h : ∀ x, p x = true → x ≠ terminator)
    (c : Cursor) : (c.collect p).2.rest = c.rest.dropWhile p := by
  simp only [collect, skip, run_of_forall_ne h, Lists.drop_length_takeWhile]

/-- **The text of a token and what follows it split apart.** -/
theorem tokenize_of_next? {c after : Cursor} {t : Token} (hu : ∀ x ∈ c.rest, x.isUpper = false)
    (h : c.next? = some (t, after)) :
    tokenize (c.rest ++ [terminator]) = t :: tokenize (after.rest ++ [terminator]) := by
  unfold next? at h
  split at h
  · cases h
  · next hc =>
    obtain ⟨tail, ht⟩ := rest_eq_cons hc
    have hup : c.current.isUpper = false := hu _ (by rw [ht]; exact List.mem_cons_self)
    split at h
    · next hn =>
      cases h
      rw [rest_collect_of_forall_ne (fun _ => terminator_ne_of_isNumeralChar), ht]
      simp only [List.cons_append, collect,
        run_of_forall_ne (fun _ => terminator_ne_of_isNumeralChar), ht]
      have hstop : ∀ x ∈ [terminator].head?, Number.isNumeralChar x = false := by
        rintro x ⟨⟩
        decide
      rw [tokenize_of_isNumeralChar hn, Lists.takeWhile_append_of_stop hstop,
        Lists.dropWhile_append_of_stop hstop]
      simp [hn]
    · next hn =>
      rw [Bool.not_eq_true] at hn
      split at h
      · next hs =>
        cases h
        have hl : c.current.isLower = true := by rwa [← isNameStart_eq_isLower hup]
        have hm : isNameChar c.current = true := isNameChar_of_isNameStart hs
        rw [rest_collect_of_forall_ne (fun _ => terminator_ne_of_isNameChar), ht]
        simp only [List.cons_append, collect,
          run_of_forall_ne (fun _ => terminator_ne_of_isNameChar), ht]
        have hstop : ∀ x ∈ [terminator].head?, isNameChar x = false := by
          rintro x ⟨⟩
          decide
        rw [tokenize_of_isLower hn hl, Lists.takeWhile_append_of_stop hstop,
          Lists.dropWhile_append_of_stop hstop]
        simp [hm]
      · next hs =>
        cases h
        have hl : c.current.isLower = false := by
          rw [← isNameStart_eq_isLower hup]
          simpa using hs
        rw [ht, List.cons_append, tokenize_of_single hn hl]
        simp [advance, hc, skip, ht]

theorem rest_halt (c : Cursor) : c.halt.rest = c.rest.dropWhile (· ≠ terminator) := by
  simp only [halt, collect, skip, run, Bool.and_true, Lists.drop_length_takeWhile]

theorem terminator_notMem_chars {c after : Cursor} {t : Token} (h : c.next? = some (t, after)) :
    terminator ∉ t.chars := by
  unfold next? at h
  split at h
  · cases h
  · next hc =>
    split at h
    · cases h
      simp only [Token.chars, String.toList_ofList]
      exact fun hm => (mem_collect hm).1 rfl
    · split at h
      · cases h
        simp only [Token.chars, String.toList_ofList]
        exact fun hm => (mem_collect hm).1 rfl
      · cases h
        simpa using Ne.symm hc

/-- The place where the tokens end is the same before and after a token. -/
theorem rest_halt_of_next? {c after : Cursor} {t : Token} (h : c.next? = some (t, after)) :
    after.halt.rest = c.halt.rest := by
  rw [rest_halt, rest_halt, ← chars_append_of_next? h, List.dropWhile_append_of_pos]
  intro x hx
  have := terminator_notMem_chars h
  simpa using fun e : x = terminator => this (e ▸ hx)

/-- **A cursor finds the tokens of the text up to the first terminator.** -/
theorem tokenize_rest (c : Cursor) (hu : ∀ x ∈ c.rest, x.isUpper = false) :
    tokenize (c.rest ++ [terminator]) = c.tokens ++ tokenize (c.halt.rest ++ [terminator]) := by
  induction c using lexemes.induct with
  | case1 c h =>
    have hc : c.current = terminator := next?_eq_none_iff.1 h
    have hr : c.halt.rest = c.rest := by
      rw [rest_halt]
      cases ht : c.rest with
      | nil => rfl
      | cons x tail =>
        have : x = terminator := by simpa [current, ht] using hc
        simp [this]
    rw [tokens_of_next?_eq_none h, hr, List.nil_append]
  | case2 c t after h _ ih =>
    have hu' : ∀ x ∈ after.rest, x.isUpper = false := fun x hx => hu x (by
      rw [← chars_append_of_next? h]
      exact List.mem_append_right _ hx)
    rw [tokenize_of_next? hu h, ih hu', rest_halt_of_next? h, tokens_of_next? h, List.cons_append]

/-! ## 4. Names stand apart -/

/-- What follows a name does not go on with it. -/
theorem not_isNameChar_of_next? {c after : Cursor} {s : String}
    (h : c.next? = some (.name s, after)) {x : Char} (hx : after.rest.head? = some x) :
    isNameChar x = false := by
  unfold next? at h
  split at h
  · cases h
  · split at h
    · cases h
    · split at h
      · cases h
        rw [rest_collect_of_forall_ne (fun _ => terminator_ne_of_isNameChar)] at hx
        have := List.head?_dropWhile_not isNameChar c.rest
        simpa [hx] using this
      · simp only [Option.some.injEq, Prod.mk.injEq] at h
        exact absurd h.1 (Token.single_ne_name c.current s)

theorem exists_isNameChar_of_next? {c after : Cursor} {s : String}
    (h : c.next? = some (.name s, after)) : ∃ x, c.rest.head? = some x ∧ isNameChar x = true := by
  unfold next? at h
  split at h
  · cases h
  · next hc =>
    obtain ⟨tail, ht⟩ := rest_eq_cons hc
    split at h
    · cases h
    · split at h
      · next hs => exact ⟨c.current, by rw [ht, List.head?_cons], isNameChar_of_isNameStart hs⟩
      · simp only [Option.some.injEq, Prod.mk.injEq] at h
        exact absurd h.1 (Token.single_ne_name c.current s)

/-- **Two names never stand side by side.** -/
theorem isChain_tokens (c : Cursor) :
    c.tokens.IsChain fun t u => t.isName = true → u.isName = false := by
  induction c using lexemes.induct with
  | case1 c h =>
    rw [tokens_of_next?_eq_none h]
    exact .nil
  | case2 c t after h _ ih =>
    rw [tokens_of_next? h]
    cases hn : after.next? with
    | none =>
      rw [tokens_of_next?_eq_none hn]
      exact .singleton t
    | some next =>
      obtain ⟨u, last⟩ := next
      rw [tokens_of_next? hn] at ih ⊢
      refine .cons_cons ?_ ih
      intro ht
      cases hu : u.isName with
      | false => rfl
      | true =>
        obtain ⟨s, rfl⟩ := Token.exists_of_isName ht
        obtain ⟨s', rfl⟩ := Token.exists_of_isName hu
        obtain ⟨x, hx, hx'⟩ := exists_isNameChar_of_next? hn
        rw [not_isNameChar_of_next? h hx] at hx'
        cases hx'

end Cursor

/-! ## 5. The tokens of a text -/

/-- What holds of every token that a cursor finds, with its place. -/
structure Lexeme.Proper (l : Lexeme) : Prop where
  /-- It does not start at the end of the text. -/
  atEnd : l.start.atEnd = false
  /-- A number has digits and points only. -/
  number : ∀ lexeme, l.token = .number lexeme →
    ∀ x ∈ lexeme.toList, Number.isNumeralChar x = true

namespace Cursor

theorem proper_of_next? {c after : Cursor} {t : Token} (h : c.next? = some (t, after)) :
    Lexeme.Proper ⟨c, t, after⟩ := by
  have hc : c.current ≠ terminator := by
    intro hc
    rw [next?_eq_none_iff.2 hc] at h
    cases h
  refine ⟨?_, fun lexeme ht x hx => ?_⟩
  · obtain ⟨tail, htail⟩ := rest_eq_cons hc
    show c.rest.isEmpty = false
    rw [htail]
    rfl
  · have ht : t = .number lexeme := ht
    subst ht
    unfold next? at h
    rw [if_neg hc] at h
    split at h
    · cases h
      rw [String.toList_ofList] at hx
      exact (mem_collect hx).2
    · split at h
      · cases h
      · simp only [Option.some.injEq, Prod.mk.injEq, Token.single] at h
        split at h
        · exact absurd h.1 (by simp)
        · exact absurd h.1 (by simp)

theorem proper_of_mem_lexemes (c : Cursor) : ∀ l ∈ c.lexemes, l.Proper := by
  induction c using lexemes.induct with
  | case1 c h =>
    rw [lexemes_of_next?_eq_none h]
    exact fun l hl => absurd hl List.not_mem_nil
  | case2 c t after h _ ih =>
    rw [lexemes_of_next? h]
    intro l hl
    rcases List.mem_cons.1 hl with rfl | hl
    · exact proper_of_next? h
    · exact ih l hl

end Cursor

/-- The tokens of some lexemes, with a final terminator. -/
def closedTokens (ls : List Lexeme) : List Token := ls.map Lexeme.token ++ [.mark .semicolon]

theorem closedTokens_cons (l : Lexeme) (ls : List Lexeme) :
    closedTokens (l :: ls) = l.token :: closedTokens ls := rfl

theorem closedTokens_eq_cons {ls : List Lexeme} {t : Token} {ts : List Token}
    (h : closedTokens ls = t :: ts) (ht : t ≠ .mark .semicolon) :
    ∃ l ls', ls = l :: ls' ∧ l.token = t ∧ closedTokens ls' = ts := by
  cases ls with
  | nil =>
    cases h
    exact absurd rfl ht
  | cons l ls =>
    rw [closedTokens_cons] at h
    obtain ⟨hl, hls⟩ := List.cons.inj h
    exact ⟨l, ls, rfl, hl, hls⟩

theorem closedTokens_eq_semicolon {ls : List Lexeme}
    (h : closedTokens ls = [.mark .semicolon]) : ls = [] := by
  cases ls with
  | nil => rfl
  | cons l ls =>
    have := congrArg List.length h
    simp [closedTokens] at this

/-- **The tokens of a line** are those of its source, then what the first terminator begins. -/
theorem lineTokens_eq {line : String} {source : Source} (h : Source.ofLine line = .ok source) :
    lineTokens line =
      source.start.tokens ++ tokenize (source.start.halt.rest ++ [terminator]) := by
  have hb := Source.ofLine_eq_ok_iff.1 h
  have hu : ∀ x ∈ source.start.rest, x.isUpper = false := by
    intro x hx
    have hx : x ∈ Source.bodyOf line.toList := by
      rw [hb]
      exact hx
    exact isUpper_of_mem_bodyOf hx
  rw [lineTokens, hb]
  exact Cursor.tokenize_rest _ hu

theorem tokenize_terminator (cs : List Char) :
    tokenize (terminator :: cs) = .mark .semicolon :: tokenize cs :=
  tokenize_of_single (by decide) (by decide)

theorem lineTokens_of_atEnd {line : String} {source : Source}
    (h : Source.ofLine line = .ok source) (he : source.start.halt.atEnd = true) :
    lineTokens line = closedTokens source.start.lexemes := by
  have hhalt : source.start.halt.rest = [] := List.isEmpty_iff.1 he
  rw [lineTokens_eq h, hhalt, List.nil_append, tokenize_terminator, tokenize]
  rfl

end DeskCalculator
