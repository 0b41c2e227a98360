import DeskCalculator.Proofs.Agreement
import DeskCalculator.Proofs.Faults

/-!
# The names in the code of a text

The code of a text looks up and binds no names but those that stand in the text. This file fixes

* `Reader.pending` -- the name that a reader has seen and not used yet;
* `Turn.Accounts` -- a turn looks up the pending name only, and binds the names of open frames only;
* `Assigned` -- a name stands directly before an equals sign;
* `foldName_of_mem_tokens` -- a name of a source is the form under which a table holds it.

Main statements: **what code looks up is a name of the text, and what it binds is assigned there**
(`name_mem_of_reads`, `assigned_of_assign`); so **the program of a source looks up names of the source
only** (`readsOnly_program`).
-/

namespace DeskCalculator

/-! ## 1. One turn -/

/-- The name that was read last, if it waits to be looked up or bound. -/
def Reader.pending (r : Reader) : List Token :=
  match r.awaiting with
  | .binding name _ => [.name name]
  | _ => []

/-- A turn looks up the pending name only, and binds the names of open frames only. The name that is
    pending next is its token, and a frame that it opens has the pending name. -/
structure Turn.Accounts (r : Reader) (l : Lexeme) (t : Turn) : Prop where
  reads : ∀ i ∈ t.code, ∀ name, i.instruction.Reads name → r.pending = [.name name]
  binds : ∀ i ∈ t.code, ∀ name, i.instruction = .assign name → .binding name ∈ r.frames
  pending : ∀ r', t.move = .next r' → r'.pending <+: [l.token]
  frames : ∀ r', t.move = .next r' → ∀ name, .binding name ∈ r'.frames →
    .binding name ∈ r.frames ∨ r.pending = [.name name] ∧ l.token = .mark .equals

theorem Turn.Accounts.after {r : Reader} {l : Lexeme} {t : Turn} {issued : Issued}
    (h : t.Accounts r l)
    (hreads : ∀ name, issued.instruction.Reads name → r.pending = [.name name])
    (hbinds : ∀ name, issued.instruction ≠ .assign name) : (t.after issued).Accounts r l where
  reads := List.forall_mem_cons.2 ⟨hreads, h.reads⟩
  binds := List.forall_mem_cons.2 ⟨fun name hi => absurd hi (hbinds name), h.binds⟩
  pending := h.pending
  frames := h.frames

namespace Reader

variable {r : Reader} {l : Lexeme}

/-- An instruction that neither looks up nor binds a name. -/
def Nameless (i : Instruction) : Prop :=
  ∀ name, ¬ i.Reads name ∧ i ≠ .assign name

/-- A turn without names that opens no binding. -/
theorem accounts_of_nameless {t : Turn} (hcode : ∀ i ∈ t.code, Nameless i.instruction)
    (hpending : ∀ r', t.move = .next r' → r'.pending <+: [l.token])
    (hframes : ∀ r', t.move = .next r' → ∀ name, .binding name ∈ r'.frames →
      .binding name ∈ r.frames) : t.Accounts r l where
  reads i hi name hreads := absurd hreads (hcode i hi name).1
  binds i hi name hbinds := absurd hbinds (hcode i hi name).2
  pending := hpending
  frames r' hnext name hmem := .inl (hframes r' hnext name hmem)

theorem accounts_operandTurn (r : Reader) (l : Lexeme) : (r.operandTurn l).Accounts r l := by
  unfold operandTurn
  split
  · split
    · refine accounts_of_nameless ?_ ?_ ?_ <;> simp [Nameless, Instruction.Reads, await, pending]
    · refine accounts_of_nameless ?_ ?_ ?_ <;> simp
  · next name hl =>
    split
    · next f hf =>
      by_cases harity : f.arity = 1 <;> refine accounts_of_nameless ?_ ?_ ?_ <;>
        simp [Nameless, Instruction.Reads, await, pending, harity]
    · refine accounts_of_nameless ?_ ?_ ?_ <;> simp [hl, await, pending]
  · refine accounts_of_nameless ?_ ?_ ?_ <;> simp [Nameless, Instruction.Reads, await, pending]
  · refine accounts_of_nameless ?_ ?_ ?_ <;> simp [Nameless, Instruction.Reads, enter, pending]
  · refine accounts_of_nameless ?_ ?_ ?_ <;> simp [Nameless, Instruction.Reads, await, pending]
  · refine accounts_of_nameless ?_ ?_ ?_ <;> simp [refuseToken]
  · refine accounts_of_nameless ?_ ?_ ?_ <;> simp [refuseToken]

/-- The end of a chain is issued in one place: operators are applied, scopes are closed, and the
    bindings that end there are made. -/
theorem mem_closeChain {extent : Extent} {c : Cursor} {frames : List Frame} :
    ∀ i ∈ (closeChain extent c frames).1, i.cursor = c ∧ (i.instruction = .settle ∨
      i.instruction = .closeScope ∨
      ∃ name, .binding name ∈ frames ∧ i.instruction = .assign name) := by
  induction frames with
  | nil => by_cases h : extent = .chain <;> simp [closeChain, h]
  | cons frame frames ih =>
    cases frame with
    | group separators => simp [closeChain]
    | binding bound =>
      simp only [closeChain]
      refine List.forall_mem_cons.2 ⟨⟨rfl, .inl rfl⟩,
        List.forall_mem_cons.2 ⟨⟨rfl, .inr (.inl rfl)⟩,
          List.forall_mem_cons.2 ⟨⟨rfl, .inr (.inr ⟨bound, List.mem_cons_self, rfl⟩)⟩, ?_⟩⟩⟩
      intro i hi
      obtain ⟨hcursor, hi⟩ := ih i hi
      exact ⟨hcursor, hi.imp_right (.imp_right fun ⟨name, hname, hassign⟩ =>
        ⟨name, List.mem_cons_of_mem _ hname, hassign⟩)⟩

theorem binds_closeChain {extent : Extent} {c : Cursor} {frames : List Frame} :
    ∀ i ∈ (closeChain extent c frames).1, (∀ name, ¬ i.instruction.Reads name) ∧
      ∀ name, i.instruction = .assign name → .binding name ∈ frames := by
  intro i hi
  obtain ⟨-, h | h | ⟨bound, hbound, h⟩⟩ := mem_closeChain i hi
  · simp [h, Instruction.Reads]
  · simp [h, Instruction.Reads]
  · refine ⟨by simp [h, Instruction.Reads], fun name hname => ?_⟩
    cases h.symm.trans hname
    exact hbound

/-- The end of a chain leaves frames that were open. -/
theorem suffix_closeChain {extent : Extent} {c : Cursor} {frames rest : List Frame} {n : Nat}
    (h : (closeChain extent c frames).2 = some (n, rest)) : rest <:+ frames := by
  induction frames with
  | nil => cases h
  | cons frame frames ih =>
    cases frame with
    | group separators =>
      cases h
      exact List.suffix_cons _ _
    | binding bound => exact (ih h).trans (List.suffix_cons _ _)

theorem accounts_closingTurn (r : Reader) (l : Lexeme) (m : Mark) :
    (r.closingTurn l m).Accounts r l := by
  have hcode := @binds_closeChain r.extent l.start r.frames
  have hrest := @suffix_closeChain r.extent l.start r.frames
  unfold closingTurn
  generalize closeChain r.extent l.start r.frames = closed at hcode hrest ⊢
  obtain ⟨code, group⟩ := closed
  have hreads : ∀ i ∈ code, ∀ name, i.instruction.Reads name → r.pending = [.name name] :=
    fun i hi name h => absurd h ((hcode i hi).1 name)
  have hbinds : ∀ i ∈ code, ∀ name, i.instruction = .assign name → .binding name ∈ r.frames :=
    fun i hi => (hcode i hi).2
  have hframes : ∀ n rest, group = some (n, rest) → ∀ name, .binding name ∈ rest →
      .binding name ∈ r.frames ∨ r.pending = [.name name] ∧ l.token = .mark .equals :=
    fun n rest h name hmem => .inl ((hrest h).subset hmem)
  match group, hframes with
  | none, _ => exact ⟨hreads, hbinds, by simp, by simp⟩
  | some (0, rest), hframes =>
    simp only
    split
    · refine ⟨?_, ?_, by simp [pending], ?_⟩
      · exact List.forall_mem_append.2 ⟨hreads, by simp [Instruction.Reads]⟩
      · exact List.forall_mem_append.2 ⟨hbinds, by simp⟩
      · rintro r' ⟨⟩
        exact hframes 0 rest rfl
    · exact ⟨hreads, hbinds, by simp, by simp⟩
  | some (n + 1, rest), hframes =>
    simp only
    split
    · refine ⟨hreads, hbinds, by simp [pending], ?_⟩
      rintro r' ⟨⟩ name hmem
      exact hframes (n + 1) rest rfl name (by simpa using hmem)
    · exact ⟨hreads, hbinds, by simp, by simp⟩

theorem accounts_operatorTurn (r : Reader) (l : Lexeme) : (r.operatorTurn l).Accounts r l := by
  have himplied : (r.impliedTurn l).Accounts r l :=
    (accounts_operandTurn r l).after (by simp [Instruction.Reads]) (by simp)
  unfold operatorTurn
  split
  · split
    · refine accounts_of_nameless ?_ ?_ ?_ <;> simp [Nameless, Instruction.Reads, await, pending]
    · split
      · refine accounts_of_nameless ?_ ?_ ?_ <;> simp
      · refine accounts_of_nameless ?_ ?_ ?_ <;> simp [Nameless, Instruction.Reads, await, pending]
    · split
      · exact himplied
      · exact accounts_closingTurn r l _
  · exact himplied

/-- **A turn looks up the pending name only and binds the names of open frames only.** -/
theorem accounts_turn (r : Reader) (l : Lexeme) : (r.turn l).Accounts r l := by
  unfold turn
  split
  · exact accounts_operandTurn r l
  · unfold argumentsTurn
    split
    · refine accounts_of_nameless ?_ ?_ ?_ <;> simp [Nameless, Instruction.Reads, enter, pending]
    · refine accounts_of_nameless ?_ ?_ ?_ <;> simp
  · next name start ha =>
    have hpending : r.pending = [.name name] := by rw [pending, ha]
    unfold bindingTurn
    -- an equals sign opens a frame with the pending name; before anything else it is looked up
    split
    · next hl =>
      refine ⟨by simp [Instruction.Reads], by simp, by simp [enter, pending], ?_⟩
      rintro r' ⟨⟩ other hmem
      rcases List.mem_cons.1 hmem with hnew | hold
      · cases hnew
        exact .inr ⟨hpending, hl⟩
      · exact .inl hold
    · refine (accounts_operatorTurn r l).after ?_ (by simp)
      rintro other ⟨position, hread⟩
      cases hread
      exact hpending
  · exact accounts_operatorTurn r l

/-! ## 2. A whole reading -/

theorem code_finishChain (r : Reader) (c : Cursor) :
    (r.finishChain c).code = (closeChain r.extent c r.frames).1 := by
  unfold finishChain
  generalize closeChain r.extent c r.frames = closed
  obtain ⟨code, group⟩ := closed
  cases group <;> rfl

theorem binds_finishChain (r : Reader) (c : Cursor) : ∀ i ∈ (r.finishChain c).code,
    (∀ name, ¬ i.instruction.Reads name) ∧
      ∀ name, i.instruction = .assign name → .binding name ∈ r.frames := by
  rw [code_finishChain]
  exact binds_closeChain

theorem names_finish (r : Reader) (c : Cursor) : ∀ i ∈ (r.finish c).code,
    (∀ name, i.instruction.Reads name → r.pending = [.name name]) ∧
      ∀ name, i.instruction = .assign name → .binding name ∈ r.frames := by
  have hchain : ∀ i ∈ (r.finishChain c).code,
      (∀ name, i.instruction.Reads name → r.pending = [.name name]) ∧
        ∀ name, i.instruction = .assign name → .binding name ∈ r.frames :=
    fun i hi => ⟨fun name h => absurd h ((binds_finishChain r c i hi).1 name),
      (binds_finishChain r c i hi).2⟩
  unfold finish
  split
  · simp
  · simp
  · next name start ha =>
    refine List.forall_mem_cons.2 ⟨⟨?_, by simp⟩, hchain⟩
    rintro other ⟨position, hread⟩
    cases hread
    rw [pending, ha]
  · exact hchain

/-- **What a reading looks up is pending or a name of the tokens; what it binds is the name of an open
    frame, or stands before an equals sign.** -/
theorem names_read (halt : Cursor) (r : Reader) (ls : List Lexeme) :
    ∀ i ∈ (read halt r ls).code,
      (∀ name, i.instruction.Reads name → .name name ∈ r.pending ++ ls.map Lexeme.token) ∧
      ∀ name, i.instruction = .assign name → .binding name ∈ r.frames ∨
        [.name name, .mark .equals] <:+: r.pending ++ ls.map Lexeme.token := by
  induction ls generalizing r with
  | nil =>
    intro i hi
    obtain ⟨hreads, hbinds⟩ := names_finish r halt i hi
    refine ⟨fun name h => ?_, fun name h => .inl (hbinds name h)⟩
    rw [hreads name h]
    exact List.mem_cons_self
  | cons l ls ih =>
    have ht := accounts_turn r l
    have hturn : ∀ i ∈ (r.turn l).code,
        (∀ name, i.instruction.Reads name → .name name ∈ r.pending ++ (l :: ls).map Lexeme.token) ∧
        ∀ name, i.instruction = .assign name → .binding name ∈ r.frames ∨
          [.name name, .mark .equals] <:+: r.pending ++ (l :: ls).map Lexeme.token := by
      intro i hi
      refine ⟨fun name h => ?_, fun name h => .inl (ht.binds i hi name h)⟩
      rw [ht.reads i hi name h]
      exact List.mem_cons_self
    rw [read]
    generalize r.turn l = t at ht hturn
    obtain ⟨code, move⟩ := t
    cases move with
    | rest => exact hturn
    | refuse refusal => exact hturn
    | next r' =>
      intro i hi
      rcases List.mem_append.1 hi with hi | hi
      · exact hturn i hi
      · -- the name that is pending next is the first token, so it stands before the others
        have hsuffix : r'.pending ++ ls.map Lexeme.token <:+:
            r.pending ++ (l :: ls).map Lexeme.token := by
          obtain ⟨rest, hrest⟩ := ht.pending r' rfl
          have hsuffix : r'.pending ++ ls.map Lexeme.token <:+ (l :: ls).map Lexeme.token := by
            rcases List.append_eq_singleton_iff.1 hrest with ⟨hp, -⟩ | ⟨hp, -⟩
            · rw [hp]
              exact List.suffix_cons _ _
            · rw [hp]
              exact List.suffix_refl _
          exact (hsuffix.trans (List.suffix_append _ _)).isInfix
        obtain ⟨hreads, hbinds⟩ := ih r' i hi
        refine ⟨fun name h => hsuffix.subset (hreads name h), fun name h => ?_⟩
        rcases hbinds name h with hframe | hequals
        · rcases ht.frames r' rfl name hframe with hold | ⟨hpending, hl⟩
          · exact .inl hold
          · right
            rw [hpending, List.map_cons, hl]
            exact ⟨[], ls.map Lexeme.token, rfl⟩
        · exact .inr (hequals.trans hsuffix)

end Reader

/-! ## 3. A whole text -/

/-- A name stands directly before an equals sign. -/
def Assigned (ts : List Token) (name : String) : Prop := [.name name, .mark .equals] <:+: ts

instance (ts : List Token) (name : String) : Decidable (Assigned ts name) :=
  inferInstanceAs (Decidable (_ <:+: _))

section Text

variable {halt : Cursor} {extent : Extent} {ls : List Lexeme} {name : String}

/-- **What the code of a text looks up is a name of the text**, if no name is pending. -/
theorem name_mem_of_reads {r : Reader} (hr : r.pending = []) {i : Instruction}
    (hi : i ∈ (r.read halt ls).code.outline) (h : i.Reads name) :
    .name name ∈ ls.map Lexeme.token := by
  obtain ⟨issued, hissued, rfl⟩ := List.mem_map.1 hi
  have hname := (r.names_read halt ls issued hissued).1 name (Instruction.reads_unplaced.1 h)
  rwa [hr, List.nil_append] at hname

/-- **What the code of a text binds is assigned in the text.** -/
theorem assigned_of_assign
    (h : .assign name ∈ (Reader.read halt ⟨extent, [], .operand⟩ ls).code.outline) :
    Assigned (ls.map Lexeme.token) name := by
  obtain ⟨issued, hissued, hi⟩ := List.mem_map.1 h
  have hassign := Instruction.unplaced_eq_assign_iff.1 hi
  exact ((Reader.names_read halt _ ls issued hissued).2 name hassign).resolve_left
    List.not_mem_nil

/-- **What the program of a source looks up is a name of the source.** -/
theorem readsOnly_program (source : Source) :
    ReadsOnly (fun name => .name name ∈ source.start.tokens) source.program.code.outline := by
  intro i hi name hreads
  obtain ⟨issued, hissued, rfl⟩ := List.mem_map.1 hi
  rcases Reading.mem_program hissued with hcode | hsettle
  · exact name_mem_of_reads rfl (List.mem_map_of_mem hcode) hreads
  · obtain ⟨position, hread⟩ := Instruction.reads_unplaced.1 hreads
    rw [hsettle] at hread
    cases hread

end Text

/-! ## 4. The form of a name -/

namespace Cursor

variable {c : Cursor} {name : String}

theorem mem_rest_of_mem_tokens {t : Token} (h : t ∈ c.tokens) : ∀ x ∈ t.chars, x ∈ c.rest := by
  induction c using lexemes.induct with
  | case1 c hnext =>
    rw [tokens_of_next?_eq_none hnext] at h
    cases h
  | case2 c u after hnext _ ih =>
    rw [tokens_of_next? hnext] at h
    rw [← chars_append_of_next? hnext]
    intro x hx
    rcases List.mem_cons.1 h with rfl | h
    · exact List.mem_append_left _ hx
    · exact List.mem_append_right _ (ih h x hx)

theorem isNameChar_of_mem_tokens (h : .name name ∈ c.tokens) :
    ∀ x ∈ name.toList, isNameChar x = true := by
  induction c using lexemes.induct with
  | case1 c hnext =>
    rw [tokens_of_next?_eq_none hnext] at h
    cases h
  | case2 c u after hnext _ ih =>
    rw [tokens_of_next? hnext] at h
    rcases List.mem_cons.1 h with rfl | h
    · intro x hx
      unfold next? at hnext
      split at hnext
      · cases hnext
      · split at hnext
        · cases hnext
        · split at hnext
          · cases hnext
            rw [String.toList_ofList] at hx
            exact (mem_collect hx).2
          · simp only [Option.some.injEq, Prod.mk.injEq] at hnext
            exact absurd hnext.1 (Token.single_ne_name c.current name)
    · exact ih h

end Cursor

theorem lt_of_isNameChar {x : Char} (h : isNameChar x = true) : x.toNat < 0x80 := by
  have h : (x.isUpper || x.isLower || x.isDigit) = true := h
  rw [Bool.or_eq_true, Bool.or_eq_true] at h
  have hle : x.val ≤ 'z'.val := by
    rcases h with (hupper | hlower) | hdigit
    · exact UInt32.le_trans (of_decide_eq_true hupper).2 (by decide)
    · exact of_decide_eq_true (Bool.and_eq_true_iff.1 hlower).2
    · exact UInt32.le_trans (of_decide_eq_true (Bool.and_eq_true_iff.1 hdigit).2) (by decide)
  exact Nat.lt_of_le_of_lt (UInt32.le_iff_toNat_le.1 hle) (by decide)

theorem toLower_of_not_isUpper {x : Char} (hx : x.toNat < 0x80) (h : x.isUpper = false) :
    x.toLower = x :=
  Text.forall_ascii (P := fun c => c.isUpper = false → c.toLower = c) (by decide) hx h

/-- Letters and digits without capitals are their own form. -/
theorem foldName_of_forall {name : String} (hname : ∀ x ∈ name.toList, isNameChar x = true)
    (hlower : ∀ x ∈ name.toList, x.isUpper = false) : foldName name = name := by
  have hascii : ∀ x ∈ name.toList, x.toNat < 0x80 := fun x hx => lt_of_isNameChar (hname x hx)
  have hmap : name.toList.map Char.toLower = name.toList :=
    (List.map_congr_left fun x hx => toLower_of_not_isUpper (hascii x hx) (hlower x hx)).trans
      (List.map_id _)
  rw [foldName, Text.lowercase_of_ascii hascii, hmap, String.ofList_toList]

/-- **A name of a source is its own form.** -/
theorem foldName_of_mem_tokens {line : String} {source : Source} {name : String}
    (hs : Source.ofLine line = .ok source) (h : .name name ∈ source.start.tokens) :
    foldName name = name := by
  refine foldName_of_forall (Cursor.isNameChar_of_mem_tokens h) fun x hx => ?_
  have hbody : x ∈ source.body := Cursor.mem_rest_of_mem_tokens h x hx
  rw [← Source.ofLine_eq_ok_iff.1 hs] at hbody
  exact isUpper_of_mem_bodyOf hbody

end DeskCalculator
