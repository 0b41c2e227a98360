import DeskCalculator.Cursor
import DeskCalculator.Symbol
import DeskCalculator.Number.Numeral

/-!
# Tokens

The text from a cursor on splits into tokens, each as long as it can be: runs of digits and points,
runs of a letter followed by letters and digits, and single characters. The tokens end at the first
terminator.

* `Token`, `Token.chars` -- a token and its text;
* `Cursor.next?` -- the token at a cursor and the cursor after it; it goes ahead
  (`rest_length_lt_of_next?`) by exactly the token's text (`chars_append_of_next?`);
* `Lexeme`, `Cursor.lexemes`, `Cursor.halt` -- all tokens with their places, and the place where
  they end.
-/

namespace DeskCalculator

/-! ## 1. One token -/

/-- The letters a name may start with. -/
def isNameStart (c : Char) : Bool := c.isAlpha

/-- The characters a name may go on with. -/
def isNameChar (c : Char) : Bool := c.isAlphanum

/-- A piece of text that is read as one. -/
inductive Token where
  /-- A run of digits and points, a numeral or not. -/
  | number (lexeme : String)
  | name (text : String)
  | mark (m : Mark)
  /-- A character without a meaning. -/
  | foreign (c : Char)
  deriving Repr, DecidableEq

namespace Token

/-- The token that a character alone is. -/
def single (c : Char) : Token :=
  match Mark.ofChar? c with
  | some m => mark m
  | none => foreign c

/-- The text of a token. -/
def chars : Token → List Char
  | number lexeme => lexeme.toList
  | name text => text.toList
  | mark m => [m.char]
  | foreign c => [c]

@[simp] theorem chars_single (c : Char) : (single c).chars = [c] := by
  unfold single
  split
  · next m h => simp [chars, Mark.ofChar?_eq_some_iff.1 h]
  · rfl

end Token

namespace Cursor

/-- The token at the cursor and the cursor after it; none at a terminator. -/
def next? (c : Cursor) : Option (Token × Cursor) :=
  if c.current = terminator then none
  else if Number.isNumeralChar c.current then
    let taken := c.collect Number.isNumeralChar
    some (.number (String.ofList taken.1), taken.2)
  else if isNameStart c.current then
    let taken := c.collect isNameChar
    some (.name (String.ofList taken.1), taken.2)
  else some (.single c.current, c.advance)

/-- Away from a terminator the cursor has its character in front of it. -/
theorem rest_eq_cons {c : Cursor} (h : c.current ≠ terminator) :
    ∃ tail, c.rest = c.current :: tail := by
  rcases c with ⟨p, _ | ⟨x, tail⟩⟩
  · exact absurd rfl h
  · exact ⟨tail, rfl⟩

/-- A run that the current character satisfies is not empty. -/
theorem run_ne_nil {c : Cursor} {p : Char → Bool} (h : c.current ≠ terminator)
    (hp : p c.current = true) : c.run p ≠ [] := by
  obtain ⟨tail, ht⟩ := rest_eq_cons h
  simp [run, ht, hp, h]

theorem isNameChar_of_isNameStart {x : Char} (h : isNameStart x = true) : isNameChar x = true := by
  simp only [isNameStart] at h
  simp [isNameChar, Char.isAlphanum, h]

/-- **A token's text is exactly what the cursor passes.** -/
theorem chars_append_of_next? {c after : Cursor} {t : Token} (h : c.next? = some (t, after)) :
    t.chars ++ after.rest = c.rest := by
  unfold next? at h
  split at h
  · cases h
  · next hc =>
    split at h
    · cases h
      simp only [Token.chars, String.toList_ofList]
      exact collect_append_rest Number.isNumeralChar c
    · split at h
      · cases h
        simp only [Token.chars, String.toList_ofList]
        exact collect_append_rest isNameChar c
      · cases h
        obtain ⟨tail, ht⟩ := rest_eq_cons hc
        simp [advance, hc, skip, ht]

theorem chars_ne_nil_of_next? {c after : Cursor} {t : Token} (h : c.next? = some (t, after)) :
    t.chars ≠ [] := by
  unfold next? at h
  split at h
  · cases h
  · next hc =>
    split at h
    · next hn =>
      cases h
      simpa [Token.chars, collect] using run_ne_nil hc hn
    · split at h
      · next hn =>
        cases h
        simpa [Token.chars, collect] using run_ne_nil hc (isNameChar_of_isNameStart hn)
      · cases h
        simp

theorem rest_length_lt_of_next? {c after : Cursor} {t : Token} (h : c.next? = some (t, after)) :
    after.rest.length < c.rest.length := by
  have h1 := congrArg List.length (chars_append_of_next? h)
  have h2 := List.length_pos_iff.2 (chars_ne_nil_of_next? h)
  simp only [List.length_append] at h1
  omega

theorem next?_eq_none_iff {c : Cursor} : c.next? = none ↔ c.current = terminator := by
  unfold next?
  split
  · simp_all
  · split
    · simp_all
    · split <;> simp_all

end Cursor

/-! ## 2. All tokens -/

/-- A token with the cursors before and after it. -/
structure Lexeme where
  start : Cursor
  token : Token
  stop : Cursor
  deriving Repr, DecidableEq

namespace Cursor

/-- The tokens from the cursor on. -/
def lexemes (c : Cursor) : List Lexeme :=
  match h : c.next? with
  | none => []
  | some (t, after) =>
    have := rest_length_lt_of_next? h
    ⟨c, t, after⟩ :: after.lexemes
  termination_by c.rest.length

/-- The place where the tokens end: the first terminator. -/
def halt (c : Cursor) : Cursor := (c.collect fun _ => true).2

theorem lexemes_of_next?_eq_none {c : Cursor} (h : c.next? = none) : c.lexemes = [] := by
  rw [lexemes]
  split
  · rfl
  · simp_all

theorem lexemes_of_next? {c after : Cursor} {t : Token} (h : c.next? = some (t, after)) :
    c.lexemes = ⟨c, t, after⟩ :: after.lexemes := by
  rw [lexemes]
  split <;> simp_all

end Cursor

end DeskCalculator
