import Mathlib.Logic.Basic
import DeskCalculator.Proofs.Descent

/-!
# The descent ends

A passage is read by way of passages further on, or of the next operand. Only the step from the
trail of an operand to a further factor passes nothing; but an operand is not empty, so the descent
gets on whatever it reads. This file fixes

* `Cursor.next?_of_mark?`, `Cursor.mark?_of_next?`, `Cursor.collect_of_name` -- tokens by the
  characters at the cursor;
* `Reads.operand_lt`, `Reads.chain_lt` -- an operand and a chain move the cursor on;
* `ReadsBeyond` -- all that lies further on can be read.

Main statements: **every passage can be read from everywhere** (`exists_reads`), and **in one way
only** (`Reads.unique`).
-/

namespace DeskCalculator

/-! ## 1. Tokens at the cursor -/

namespace Cursor

variable {c c' : Cursor}

theorem ReachedFrom.rest_length_le (h : c'.ReachedFrom c) : c'.rest.length ≤ c.rest.length := by
  have hsum := h.position_add
  have hle := h.position_le
  omega

/-- What is reached from a cursor further on is further on. -/
theorem ReachedFrom.rest_length_lt {c₁ : Cursor} (h : c'.ReachedFrom c₁)
    (hlt : c₁.rest.length < c.rest.length) : c'.rest.length < c.rest.length :=
  Nat.lt_of_le_of_lt h.rest_length_le hlt

theorem rest_length_advance_lt (h : c.current ≠ terminator) :
    c.advance.rest.length < c.rest.length := by
  rw [← current_cons_advance h]
  exact Nat.lt_succ_self _

/-- A mark at the cursor is passed, unless it is a terminator. -/
theorem advance_lt_of_mark? {m : Mark} (h : c.mark? = some m) (hm : m ≠ .semicolon) :
    c.advance.rest.length < c.rest.length := by
  refine rest_length_advance_lt fun hc => hm ?_
  have hmark : Mark.ofChar? terminator = some m := hc ▸ h
  exact (Option.some.inj hmark).symm

/-- A name at the cursor is what the cursor collects. -/
theorem collect_of_name {name : String} (h : c.next? = some (.name name, c')) :
    c.collect isNameChar = (name.toList, c') := by
  unfold next? at h
  split at h
  · cases h
  · split at h
    · cases h
    · split at h
      · cases h
        rw [String.toList_ofList]
      · obtain ⟨hsingle, -⟩ := Prod.mk.inj (Option.some.inj h)
        exact absurd hsingle (Token.single_ne_name c.current name)

/-- What is neither a number nor a name is the character at the cursor. -/
theorem single_of_next? {t : Token} (h : c.next? = some (t, c')) (hn : ∀ s, t ≠ .number s)
    (hs : ∀ s, t ≠ .name s) : t = .single c.current ∧ c' = c.advance := by
  unfold next? at h
  split at h
  · cases h
  · split at h
    · cases h
      exact absurd rfl (hn _)
    · split at h
      · cases h
        exact absurd rfl (hs _)
      · cases h
        exact ⟨rfl, rfl⟩

theorem current_ne_of_next? {t : Token} (h : c.next? = some (t, c')) : c.current ≠ terminator :=
  fun hc => nomatch h.symm.trans (next?_eq_none_iff.2 hc)

/-- A mark is a token of its own. -/
theorem mark?_of_next? {m : Mark} (h : c.next? = some (.mark m, c')) :
    c.mark? = some m ∧ c' = c.advance ∧ m ≠ .semicolon := by
  obtain ⟨hsingle, hc'⟩ :=
    single_of_next? h (fun _ => Token.noConfusion) (fun _ => Token.noConfusion)
  have hm : c.mark? = some m := by
    unfold Token.single at hsingle
    split at hsingle
    · next m' hm =>
      cases hsingle
      exact hm
    · cases hsingle
  refine ⟨hm, hc', fun he => current_ne_of_next? h ?_⟩
  subst he
  exact (Mark.ofChar?_eq_some_iff.1 hm).symm

/-- So is what opens no operand. -/
theorem chars_of_not_opensOperand {t : Token} (h : c.next? = some (t, c'))
    (ht : t.opensOperand = false) : t.chars = [c.current] ∧ c.atEnd = false := by
  have hsingle : t = .single c.current ∧ c' = c.advance := by
    refine single_of_next? h (fun s hs => ?_) (fun s hs => ?_)
    · subst hs
      cases ht
    · subst hs
      cases ht
  refine ⟨by rw [hsingle.1, Token.chars_single], ?_⟩
  obtain ⟨position, rest⟩ := c
  cases rest with
  | nil => exact absurd rfl (current_ne_of_next? h)
  | cons x tail => rfl

/-- Where the tokens end there is a terminator. -/
theorem mark?_of_next?_eq_none (h : c.next? = none) : c.mark? = some .semicolon := by
  rw [mark?, next?_eq_none_iff.1 h]
  rfl

/-- A mark at the cursor is the next token, unless it is a terminator. -/
theorem next?_of_mark? {m : Mark} (h : c.mark? = some m) (hm : m ≠ .semicolon) :
    c.next? = some (.mark m, c.advance) := by
  have hchar : m.char = c.current := Mark.ofChar?_eq_some_iff.1 h
  have hc : c.current ≠ terminator := by
    rw [← hchar]
    cases m <;> first | decide | exact absurd rfl hm
  have hnumber : Number.isNumeralChar c.current = false := by
    rw [← hchar]
    cases m <;> decide
  have hname : isNameStart c.current = false := by
    rw [← hchar]
    cases m <;> decide
  have hsingle : Token.single c.current = .mark m := by
    rw [← hchar, Token.single, Mark.ofChar?_char]
  rw [next?, if_neg hc, hnumber, hname, hsingle]
  rfl

/-- No operand ends where a further factor begins. -/
theorem not_endsOperand_of_factor {t : Token} (h : c.next? = some (t, c'))
    (hs : t = .mark .leftParen ∨ ∀ m, t ≠ .mark m) : ¬ c.EndsOperand := by
  rintro ⟨m, hm, he⟩
  by_cases hterminator : m = .semicolon
  · subst hterminator
    exact current_ne_of_next? h (Mark.ofChar?_eq_some_iff.1 hm).symm
  · cases h.symm.trans (next?_of_mark? hm hterminator)
    rcases hs with hs | hs
    · cases hs
      cases he
    · exact hs m rfl

end Cursor

/-! ## 2. Passages that are not empty -/

namespace Passage

variable {p : Passage} {c c' : Cursor} {r : Reading}

/-- A name leaves the cursor behind its characters. -/
theorem Reads.name_reached {cs : List Char} {c₁ : Cursor} (h : Passage.name.Reads c r)
    (hc : c.collect isNameChar = (cs, c₁)) (hs : r.stop = .ok c') : c'.ReachedFrom c₁ := by
  cases h with
  | call hc' _ h =>
    cases hc.symm.trans hc'
    exact h.stop_reached hs
  | bound hc' _ _ h =>
    cases hc.symm.trans hc'
    obtain ⟨c₂, hs₂, hs'⟩ := Reading.exists_stop_of_andThen hs
    cases hs'
    exact (Cursor.advance_reached _).trans (h.stop_reached hs₂)
  | read hc' _ _ h =>
    cases hc.symm.trans hc'
    exact h.stop_reached hs

/-- A group leaves the cursor behind its opening parenthesis. -/
theorem Reads.group_reached {separators : Nat} (h : (Passage.group separators).Reads c r)
    (hs : r.stop = .ok c') : c'.ReachedFrom c.advance := by
  cases h with
  | group h =>
    obtain ⟨c₁, hs₁, hs'⟩ := Reading.exists_stop_of_andThen hs
    exact (h.stop_reached hs₁).trans ((Cursor.goesAhead_closing c₁).stop_reached hs')

/-- **An operand is not empty.** -/
theorem Reads.operand_lt (h : Passage.operand.Reads c r) (hs : r.stop = .ok c') :
    c'.rest.length < c.rest.length := by
  cases h with
  | number ht _ h => exact (h.stop_reached hs).rest_length_lt (Cursor.rest_length_lt_of_next? ht)
  | malformed _ _ => cases hs
  | named ht h =>
    have hreached := h.name_reached (Cursor.collect_of_name ht) hs
    exact hreached.rest_length_lt (Cursor.rest_length_lt_of_next? ht)
  | minus ht h => exact (h.stop_reached hs).rest_length_lt (Cursor.rest_length_lt_of_next? ht)
  | comma ht h => exact (h.stop_reached hs).rest_length_lt (Cursor.rest_length_lt_of_next? ht)
  | grouped ht h h' =>
    obtain ⟨c₁, hs₁, hs'⟩ := Reading.exists_stop_of_andThen hs
    obtain ⟨-, rfl, -⟩ := Cursor.mark?_of_next? ht
    have hreached := (h.group_reached hs₁).trans ((h' c₁ hs₁).stop_reached hs')
    exact hreached.rest_length_lt (Cursor.rest_length_lt_of_next? ht)
  | unopened _ => cases hs

/-- **Nor is a chain.** -/
theorem Reads.chain_lt (h : Passage.chain.Reads c r) (hs : r.stop = .ok c') :
    c'.rest.length < c.rest.length := by
  cases h with
  | chain h h' =>
    obtain ⟨c₁, hs₁, hs'⟩ := Reading.exists_stop_of_andThen hs
    exact ((h' c₁ hs₁).stop_reached hs').rest_length_lt (h.operand_lt hs₁)

/-! ## 3. The descent ends -/

/-- Every passage has a reading from all cursors with less before them than `c` has. -/
def ReadsBeyond (c : Cursor) : Prop :=
  ∀ (p : Passage) (c' : Cursor), c'.rest.length < c.rest.length → ∃ r, p.Reads c' r

/-- Where a second passage can be read wherever a first one stops, there is a reading for each such
    place. -/
theorem exists_next (h : ∀ c', r.stop = .ok c' → ∃ r', p.Reads c' r') :
    ∃ next : Cursor → Reading, ∀ c', r.stop = .ok c' → p.Reads c' (next c') := by
  cases hs : r.stop with
  | error refusal => exact ⟨Reading.stay, fun c' hc' => nomatch hc'⟩
  | ok c₁ =>
    obtain ⟨r', hr'⟩ := h c₁ hs
    refine ⟨fun _ => r', fun c' hc' => ?_⟩
    cases hc'
    exact hr'

/-- A name has a reading if what can follow it has one. -/
theorem exists_reads_name {c₁ : Cursor} {cs : List Char} (hc : c.collect isNameChar = (cs, c₁))
    (hcall : ∀ f, ∃ r, (arguments f).Reads c₁ r) (htrail : ∃ r, trail.Reads c₁ r)
    (hvalue : c₁.mark? = some .equals → ∃ r, chain.Reads c₁.advance r) :
    ∃ r, Passage.name.Reads c r := by
  cases hf : Function.ofName? (String.ofList cs) with
  | some f =>
    obtain ⟨r, hr⟩ := hcall f
    exact ⟨_, .call hc hf hr⟩
  | none =>
    by_cases he : c₁.mark? = some .equals
    · obtain ⟨r, hr⟩ := hvalue he
      exact ⟨_, .bound hc hf he hr⟩
    · obtain ⟨r, hr⟩ := htrail
      exact ⟨_, .read hc hf he hr⟩

theorem exists_reads_operand (h : ReadsBeyond c) : ∃ r, operand.Reads c r := by
  cases ht : c.next? with
  | none => exact ⟨_, .unopened fun t c' he => by rw [ht] at he; cases he⟩
  | some next =>
    obtain ⟨t, c₁⟩ := next
    have hlt := Cursor.rest_length_lt_of_next? ht
    have hunopened (hopens : t.opensOperand = false) : ∃ r, operand.Reads c r := by
      refine ⟨_, .unopened fun t' c' he => ?_⟩
      rw [ht] at he
      cases he
      exact hopens
    cases t with
    | number lexeme =>
      cases hn : Number.Numeral.ofText? lexeme.toList with
      | none => exact ⟨_, .malformed ht hn⟩
      | some n =>
        obtain ⟨r, hr⟩ := h trail c₁ hlt
        exact ⟨_, .number ht hn hr⟩
    | name name =>
      obtain ⟨r, hr⟩ := exists_reads_name (Cursor.collect_of_name ht) (fun f => h _ c₁ hlt)
        (h trail c₁ hlt)
        (fun _ => h chain _ ((Cursor.advance_reached c₁).rest_length_lt hlt))
      exact ⟨r, .named ht hr⟩
    | foreign x => exact hunopened rfl
    | mark m =>
      cases m with
      | minus =>
        obtain ⟨r, hr⟩ := h operand c₁ hlt
        exact ⟨_, .minus ht hr⟩
      | comma =>
        obtain ⟨r, hr⟩ := h operand c₁ hlt
        exact ⟨r, .comma ht hr⟩
      | leftParen =>
        obtain ⟨-, rfl, -⟩ := Cursor.mark?_of_next? ht
        obtain ⟨r, hr⟩ := h (members 0) c.advance hlt
        obtain ⟨next, hnext⟩ := exists_next (p := trail) fun c' hc' =>
          h trail c' (((Reads.group hr).group_reached hc').rest_length_lt hlt)
        exact ⟨_, .grouped ht (.group hr) hnext⟩
      | plus | star | slash | caret | percent | bang | rightParen | semicolon | equals | blank =>
        exact hunopened rfl

theorem exists_reads_trail (h : ReadsBeyond c) : ∃ r, trail.Reads c r := by
  have hfactor {t : Token} {c₁ : Cursor} (ht : c.next? = some (t, c₁))
      (hs : t = .mark .leftParen ∨ ∀ m, t ≠ .mark m) : ∃ r, trail.Reads c r := by
    obtain ⟨r, hr⟩ := exists_reads_operand h
    exact ⟨_, .factor ht hs hr⟩
  cases ht : c.next? with
  | none => exact ⟨_, .ended ⟨_, Cursor.mark?_of_next?_eq_none ht, rfl⟩⟩
  | some next =>
    obtain ⟨t, c₁⟩ := next
    cases t with
    | number lexeme => exact hfactor ht (.inr fun m hm => nomatch hm)
    | name name => exact hfactor ht (.inr fun m hm => nomatch hm)
    | foreign x => exact hfactor ht (.inr fun m hm => nomatch hm)
    | mark m =>
      obtain ⟨hmark, -, -⟩ := Cursor.mark?_of_next? ht
      cases m with
      | bang =>
        obtain ⟨r, hr⟩ := h trail c₁ (Cursor.rest_length_lt_of_next? ht)
        exact ⟨_, .factorial ht hr⟩
      | leftParen => exact hfactor ht (.inl rfl)
      | plus | minus | star | slash | caret | percent | rightParen | comma | semicolon | equals
      | blank => exact ⟨_, .ended ⟨_, hmark, rfl⟩⟩

theorem exists_reads_links (h : ReadsBeyond c) : ∃ r, links.Reads c r := by
  by_cases hc : ∀ m, c.mark? = some m → m.between? = none
  · exact ⟨_, .settled hc⟩
  · obtain ⟨m, hm⟩ := not_forall.1 hc
    obtain ⟨hmark, hbetween⟩ := Classical.not_imp.1 hm
    obtain ⟨op, hop⟩ := Option.ne_none_iff_exists'.1 hbetween
    have hne : m ≠ .semicolon := by
      intro he
      subst he
      cases hop
    have hlt := Cursor.advance_lt_of_mark? hmark hne
    obtain ⟨r, hr⟩ := h operand c.advance hlt
    obtain ⟨next, hnext⟩ := exists_next (p := links) fun c' hc' =>
      h links c' (Nat.lt_trans (hr.operand_lt hc') hlt)
    exact ⟨_, .link hmark hop hr hnext⟩

theorem exists_reads_chain (h : ReadsBeyond c) : ∃ r, chain.Reads c r := by
  obtain ⟨r, hr⟩ := exists_reads_operand h
  obtain ⟨next, hnext⟩ := exists_next (p := links) fun c' hc' => h links c' (hr.operand_lt hc')
  exact ⟨_, .chain hr hnext⟩

theorem exists_reads_members (h : ReadsBeyond c) (separators : Nat) :
    ∃ r, (members separators).Reads c r := by
  obtain ⟨r, hr⟩ := exists_reads_chain h
  cases separators with
  | zero => exact ⟨r, .last hr⟩
  | succ separators =>
    obtain ⟨next, hnext⟩ := exists_next (p := members separators)
      (r := r.andThen (Cursor.expecting .comma .separator)) fun c' hc' => by
        obtain ⟨c₁, hs₁, hs'⟩ := Reading.exists_stop_of_andThen hc'
        have hreached := (Cursor.goesAhead_expecting .comma .separator c₁).stop_reached hs'
        exact h _ c' (hreached.rest_length_lt (hr.chain_lt hs₁))
    exact ⟨_, .further hr hnext⟩

theorem exists_reads_arguments (h : ReadsBeyond c) (f : Function) :
    ∃ r, (arguments f).Reads c r := by
  by_cases ha : f.arity = 1
  · obtain ⟨r, hr⟩ := exists_reads_operand h
    exact ⟨r, .single ha hr⟩
  · by_cases hp : c.mark? = some .leftParen
    · have hlt := Cursor.advance_lt_of_mark? hp (by decide)
      obtain ⟨r, hr⟩ := h (members (f.arity - 1)) c.advance hlt
      obtain ⟨next, hnext⟩ := exists_next (p := trail) fun c' hc' =>
        h trail c' (((Reads.group hr).group_reached hc').rest_length_lt hlt)
      exact ⟨_, .several ha hp (.group hr) hnext⟩
    · exact ⟨_, .bare ha hp⟩

/-- **The descent ends from everywhere**: every passage has a reading from every cursor. Only the
    step from the trail of an operand to a further factor passes nothing, and an operand is not
    empty. -/
theorem exists_reads (p : Passage) (c : Cursor) : ∃ r, p.Reads c r := by
  induction hn : c.rest.length using Nat.strongRecOn generalizing p c with
  | _ n ih =>
    subst hn
    have hbeyond {c₁ : Cursor} (hc : c₁.ReachedFrom c) : ReadsBeyond c₁ := fun p c' hlt =>
      ih _ (Nat.lt_of_lt_of_le hlt hc.rest_length_le) p c' rfl
    have h : ReadsBeyond c := hbeyond (.refl c)
    cases p with
    | operand => exact exists_reads_operand h
    | trail => exact exists_reads_trail h
    | chain => exact exists_reads_chain h
    | links => exact exists_reads_links h
    | members separators => exact exists_reads_members h separators
    | arguments f => exact exists_reads_arguments h f
    | group separators =>
      obtain ⟨r, hr⟩ := exists_reads_members (hbeyond c.advance_reached) separators
      exact ⟨_, .group hr⟩
    | name =>
      have hc := Cursor.collect_reached isNameChar c
      exact exists_reads_name rfl (exists_reads_arguments (hbeyond hc))
        (exists_reads_trail (hbeyond hc))
        (fun _ => exists_reads_chain (hbeyond (hc.trans (Cursor.advance_reached _))))

/-! ## 4. One reading only -/

/-- **A passage is read in one way only**: the rules exclude each other. -/
theorem Reads.unique (h : p.Reads c r) {r' : Reading} (h' : p.Reads c r') : r = r' := by
  induction h generalizing r' with
  | number ht hn _ ih =>
    cases h' with
    | number ht' hn' h' =>
      cases ht.symm.trans ht'
      cases hn.symm.trans hn'
      rw [ih h']
    | malformed ht' hn' =>
      cases ht.symm.trans ht'
      cases hn.symm.trans hn'
    | unopened ht' => cases ht' _ _ ht
    | named ht' _ | minus ht' _ | comma ht' _ | grouped ht' _ _ => cases ht.symm.trans ht'
  | malformed ht hn =>
    cases h' with
    | malformed ht' _ =>
      cases ht.symm.trans ht'
      rfl
    | number ht' hn' _ =>
      cases ht.symm.trans ht'
      cases hn.symm.trans hn'
    | unopened ht' => cases ht' _ _ ht
    | named ht' _ | minus ht' _ | comma ht' _ | grouped ht' _ _ => cases ht.symm.trans ht'
  | named ht _ ih =>
    cases h' with
    | named _ h' => exact ih h'
    | unopened ht' => cases ht' _ _ ht
    | number ht' _ _ | malformed ht' _ | minus ht' _ | comma ht' _ | grouped ht' _ _ =>
      cases ht.symm.trans ht'
  | minus ht _ ih =>
    cases h' with
    | minus ht' h' =>
      cases ht.symm.trans ht'
      rw [ih h']
    | unopened ht' => cases ht' _ _ ht
    | number ht' _ _ | malformed ht' _ | named ht' _ | comma ht' _ | grouped ht' _ _ =>
      cases ht.symm.trans ht'
  | comma ht _ ih =>
    cases h' with
    | comma ht' h' =>
      cases ht.symm.trans ht'
      exact ih h'
    | unopened ht' => cases ht' _ _ ht
    | number ht' _ _ | malformed ht' _ | named ht' _ | minus ht' _ | grouped ht' _ _ =>
      cases ht.symm.trans ht'
  | grouped ht _ _ ih ih' =>
    cases h' with
    | grouped _ h' hnext =>
      cases ih h'
      exact Reading.andThen_congr fun c₁ hc₁ => ih' c₁ hc₁ (hnext c₁ hc₁)
    | unopened ht' => cases ht' _ _ ht
    | number ht' _ _ | malformed ht' _ | named ht' _ | minus ht' _ | comma ht' _ =>
      cases ht.symm.trans ht'
  | unopened ht =>
    cases h' with
    | unopened _ => rfl
    | number ht' _ _ | malformed ht' _ | named ht' _ | minus ht' _ | comma ht' _
    | grouped ht' _ _ => cases ht _ _ ht'
  | factorial ht _ ih =>
    cases h' with
    | factorial ht' h' =>
      cases ht.symm.trans ht'
      rw [ih h']
    | ended hc =>
      obtain ⟨m, hm, he⟩ := hc
      cases (Cursor.mark?_of_next? ht).1.symm.trans hm
      cases he
    | factor ht' hs _ =>
      cases ht.symm.trans ht'
      exact hs.elim (fun hl => nomatch hl) fun hl => absurd rfl (hl _)
  | ended hc =>
    obtain ⟨m, hm, he⟩ := hc
    cases h' with
    | ended _ => rfl
    | factorial ht _ =>
      cases (Cursor.mark?_of_next? ht).1.symm.trans hm
      cases he
    | factor ht hs _ => exact absurd ⟨m, hm, he⟩ (Cursor.not_endsOperand_of_factor ht hs)
  | factor ht hs _ ih =>
    cases h' with
    | factor _ _ h' => rw [ih h']
    | ended hc => exact absurd hc (Cursor.not_endsOperand_of_factor ht hs)
    | factorial ht' _ =>
      cases ht.symm.trans ht'
      exact hs.elim (fun hl => nomatch hl) fun hl => absurd rfl (hl _)
  | call hc hf _ ih =>
    cases h' with
    | call hc' hf' h' =>
      cases hc.symm.trans hc'
      cases hf.symm.trans hf'
      rw [ih h']
    | bound hc' hf' _ _ | read hc' hf' _ _ =>
      cases hc.symm.trans hc'
      cases hf.symm.trans hf'
  | bound hc hf he _ ih =>
    cases h' with
    | bound hc' _ _ h' =>
      cases hc.symm.trans hc'
      rw [ih h']
    | call hc' hf' _ =>
      cases hc.symm.trans hc'
      cases hf.symm.trans hf'
    | read hc' _ he' _ =>
      cases hc.symm.trans hc'
      exact absurd he he'
  | read hc hf he _ ih =>
    cases h' with
    | read hc' _ _ h' =>
      cases hc.symm.trans hc'
      rw [ih h']
    | call hc' hf' _ =>
      cases hc.symm.trans hc'
      cases hf.symm.trans hf'
    | bound hc' _ he' _ =>
      cases hc.symm.trans hc'
      exact absurd he' he
  | single ha _ ih =>
    cases h' with
    | single _ h' => exact ih h'
    | several ha' _ _ _ | bare ha' _ => exact absurd ha ha'
  | several ha hp _ _ ih ih' =>
    cases h' with
    | several _ _ h' hnext =>
      cases ih h'
      exact Reading.andThen_congr fun c₁ hc₁ => ih' c₁ hc₁ (hnext c₁ hc₁)
    | single ha' _ => exact absurd ha' ha
    | bare _ hp' => exact absurd hp hp'
  | bare ha hp =>
    cases h' with
    | bare _ _ => rfl
    | single ha' _ => exact absurd ha' ha
    | several _ hp' _ _ => exact absurd hp' hp
  | group _ ih =>
    cases h' with
    | group h' => rw [ih h']
  | last _ ih =>
    cases h' with
    | last h' => exact ih h'
  | further _ _ ih ih' =>
    cases h' with
    | further h' hnext =>
      cases ih h'
      exact Reading.andThen_congr fun c₁ hc₁ => ih' c₁ hc₁ (hnext c₁ hc₁)
  | chain _ _ ih ih' =>
    cases h' with
    | chain h' hnext =>
      cases ih h'
      exact Reading.andThen_congr fun c₁ hc₁ => ih' c₁ hc₁ (hnext c₁ hc₁)
  | link hc hm _ _ ih ih' =>
    cases h' with
    | link hc' hm' h' hnext =>
      cases hc.symm.trans hc'
      cases hm.symm.trans hm'
      cases ih h'
      rw [Reading.andThen_congr fun c₁ hc₁ => ih' c₁ hc₁ (hnext c₁ hc₁)]
    | settled hc' => cases hm.symm.trans (hc' _ hc)
  | settled hc =>
    cases h' with
    | settled _ => rfl
    | link hc' hm _ _ => cases hm.symm.trans (hc _ hc')

end Passage

end DeskCalculator
