import DeskCalculator.Proofs.Acceptance

/-!
# Spaces and terminators around a line

A line is trimmed once: blanks at both ends first, then terminators at the end, then all spaces. So
spaces that part the terminators at its end, or a tab before them, keep the front ones in the text.
This file fixes

* `Source.kept`, `Source.cutOff` -- what the cuts at the ends of a line leave, and what stands behind
  it;
* `Parted` -- a text whose last character but spaces is a terminator;
* `Fades` -- spaces, then terminators, then blanks;
* `Stray` -- a terminator, or a blank other than a space: a line that keeps one has no value;
* `bodyOf_withoutSpaces_iff`, `bodyOf_append_iff` -- when the source of a line stays the same after
  its spaces were deleted, or after spaces and terminators were added to its end.

Main statement: **nothing changes as long as all terminators at the end stand together and close to
the text** (`evaluate_of_trimmed`); otherwise one of them stays inside, and the line has no value.
-/

namespace DeskCalculator

namespace Text

/-! ## 1. Trimming -/

/-- Spaces may be deleted before or after trimming. -/
theorem trim_filter (cs : List Char) :
    trim (cs.filter (· ≠ ' ')) = (trim cs).filter (· ≠ ' ') := by
  have hblank : ∀ x : Char, decide (x ≠ ' ') = false → isBlank x = true := by
    intro x hx
    have hx : x = ' ' := by simpa using hx
    rw [hx]
    decide
  simp only [trim, Lists.dropEndWhile_eq_rdropWhile, Lists.dropWhile_filter_of_imp hblank,
    Lists.rdropWhile_filter hblank]

/-- **A trimmed text has no blanks at its ends.** -/
theorem trim_trim (cs : List Char) : trim (trim cs) = trim cs := by
  have hpart : trim cs <+: cs.dropWhile isBlank := List.rdropWhile_prefix isBlank _
  have hfront : (trim cs).dropWhile isBlank = trim cs := by
    refine List.dropWhile_eq_self_iff.2 fun hlength => ?_
    rw [hpart.getElem hlength]
    exact List.dropWhile_get_zero_not isBlank cs _
  rw [trim, hfront]
  exact List.rdropWhile_idempotent isBlank _

/-! ## 2. The length of a text in lower case -/

/-- How many characters one becomes does not depend on its place. -/
theorem length_lowerAt (c : Char) (before after before' after' : List Char) :
    (lowerAt before c after).length = (lowerAt before' c after').length := by
  unfold lowerAt
  split
  · rfl
  · rfl

theorem length_lowerAfter (before before' cs : List Char) :
    (lowerAfter before cs).length = (lowerAfter before' cs).length := by
  induction cs generalizing before before' with
  | nil => rfl
  | cons c cs ih =>
    simp only [lowerAfter, List.length_append, length_lowerAt c before cs before' cs,
      ih (c :: before) (c :: before')]

/-- **Lower case makes each part as long alone as beside others.** -/
theorem length_lowercase_append (cs ds : List Char) :
    (lowercase (cs ++ ds)).length = (lowercase cs).length + (lowercase ds).length := by
  suffices ∀ before, (lowerAfter before (cs ++ ds)).length =
      (lowerAfter before cs).length + (lowercase ds).length from this []
  induction cs with
  | nil =>
    intro before
    rw [List.nil_append, lowerAfter, List.length_nil, Nat.zero_add]
    exact length_lowerAfter before [] ds
  | cons c cs ih =>
    intro before
    simp only [List.cons_append, lowerAfter, List.length_append, ih,
      length_lowerAt c before (cs ++ ds) before cs, Nat.add_assoc]

theorem length_le_length_lowercase (cs : List Char) : cs.length ≤ (lowercase cs).length := by
  suffices ∀ before, cs.length ≤ (lowerAfter before cs).length from this []
  induction cs with
  | nil => exact fun _ => Nat.le_refl 0
  | cons c cs ih =>
    intro before
    have hc : 1 ≤ (lowerAt before c cs).length := by
      unfold lowerAt
      split
      · exact Nat.le_refl 1
      · split
        · exact Nat.le_succ 1
        · exact Nat.le_refl 1
    simp only [lowerAfter, List.length_append, List.length_cons]
    have := ih (c :: before)
    omega

/-- A character that lower case leaves alone everywhere. -/
def Stays (x : Char) : Prop := x ≠ 'Σ' ∧ x ≠ 'İ' ∧ lowerChar x = x

instance (x : Char) : Decidable (Stays x) := inferInstanceAs (Decidable (_ ∧ _ ∧ _))

theorem mem_lowercase_of_stays {x : Char} {cs : List Char} (hx : Stays x) (h : x ∈ cs) :
    x ∈ lowercase cs := by
  suffices ∀ before, x ∈ lowerAfter before cs from this []
  induction cs with
  | nil => cases h
  | cons c cs ih =>
    intro before
    rw [lowerAfter, List.mem_append]
    rcases List.mem_cons.1 h with rfl | h
    · left
      rw [lowerAt, if_neg hx.1, if_neg hx.2.1, hx.2.2]
      exact List.mem_singleton_self x
    · exact .inr (ih h (c :: before))

/-- What holds of every character of the ranges of blanks holds of every blank. -/
theorem forall_isBlank {P : Char → Prop}
    (h : ∀ range ∈ blankRanges, ∀ k < range.2 + 1 - range.1, P (Char.ofNat (range.1 + k)))
    {c : Char} (hc : isBlank c = true) : P c := by
  rw [isBlank, inRanges, List.any_eq_true] at hc
  obtain ⟨range, hrange, hin⟩ := hc
  simp only [Bool.and_eq_true, decide_eq_true_eq] at hin
  have := h range hrange (c.toNat - range.1) (by omega)
  rwa [Nat.add_sub_cancel' hin.1, Char.ofNat_toNat] at this

theorem stays_of_isBlank {c : Char} (h : isBlank c = true) : Stays c :=
  forall_isBlank (by decide +kernel) h

/-- A text that goes on has another lower-case form. -/
theorem lowercase_append_eq_iff {cs ds : List Char} :
    lowercase (cs ++ ds) = lowercase cs ↔ ds = [] := by
  constructor
  · intro h
    have hlen := congrArg List.length h
    have hle := length_le_length_lowercase ds
    rw [length_lowercase_append] at hlen
    exact List.length_eq_zero_iff.1 (by omega)
  · intro h
    rw [h, List.append_nil]

end Text

namespace Source

/-! ## 3. What is kept of a line -/

/-- The text without blanks, then terminators, at its end. -/
def cut (cs : List Char) : List Char :=
  Text.dropEndWhile (· = terminator) (Text.dropEndWhile Text.isBlank cs)

/-- What the cuts at both ends of a line leave. -/
def kept (line : List Char) : List Char := cut (line.dropWhile Text.isBlank)

/-- What stands behind the text that is kept. -/
def cutOff (line : List Char) : List Char :=
  (line.dropWhile Text.isBlank).drop (kept line).length

theorem cut_eq_rdropWhile (cs : List Char) :
    cut cs = (cs.rdropWhile Text.isBlank).rdropWhile (· = terminator) := rfl

theorem bodyOf_eq (line : List Char) : bodyOf line = Text.lowercase (clean (kept line)) := rfl

theorem clean_append (cs ds : List Char) : clean (cs ++ ds) = clean cs ++ clean ds := by
  simp only [clean, List.filter_append, List.map_append]

theorem clean_eq_nil_iff {cs : List Char} : clean cs = [] ↔ ∀ c ∈ cs, c = ' ' := by
  simp [clean]

/-- **A text that goes on is the same source only if it goes on with spaces.** -/
theorem lowercase_clean_append_iff {cs ds : List Char} :
    Text.lowercase (clean (cs ++ ds)) = Text.lowercase (clean cs) ↔ ∀ c ∈ ds, c = ' ' := by
  rw [clean_append, Text.lowercase_append_eq_iff, clean_eq_nil_iff]

theorem isPrefix_cut (cs : List Char) : cut cs <+: cs :=
  (List.rdropWhile_prefix _ _).trans (List.rdropWhile_prefix _ _)

theorem kept_append_cutOff (line : List Char) :
    kept line ++ cutOff line = line.dropWhile Text.isBlank :=
  List.prefix_iff_eq_append.1 (isPrefix_cut _)

/-- What is kept of a line does not end in a terminator. -/
theorem getLast?_kept_ne (line : List Char) : (kept line).getLast? ≠ some terminator := by
  intro hlast
  have hne : kept line ≠ [] := by
    intro hnil
    rw [hnil] at hlast
    cases hlast
  rw [← List.getLast_eq_iff_getLast?_eq_some hne] at hlast
  exact List.rdropWhile_last_not _ _ hne (decide_eq_true hlast)

/-- Equal texts are equal sources, or no sources both. -/
theorem ofLine_eq_iff {line line' : String} :
    ofLine line' = ofLine line ↔ bodyOf line'.toList = bodyOf line.toList := by
  unfold ofLine
  split
  · next h' =>
    split
    · next h => simp [h, h']
    · next h =>
      simp only [reduceCtorEq, false_iff]
      rw [h']
      exact Ne.symm h
  · next h' =>
    split
    · next h =>
      simp only [reduceCtorEq, false_iff]
      rw [h]
      exact h'
    · next h => simp

/-! ## 4. Spaces -/

/-- A line without its spaces. -/
def withoutSpaces (line : String) : String := String.ofList (line.toList.filter (· ≠ ' '))

/-- A text whose last character but spaces is a terminator. -/
def Parted (cs : List Char) : Prop :=
  ∃ before n, cs = before ++ terminator :: List.replicate n ' '

theorem parted_of_filter {cs front : List Char}
    (h : cs.filter (· ≠ ' ') = front ++ [terminator]) : Parted cs := by
  obtain ⟨cs₁, cs₂, rfl, -, h₂⟩ := List.filter_eq_append_iff.1 h
  obtain ⟨cs₃, cs₄, rfl, -, -, h₄⟩ := List.filter_eq_cons_iff.1 h₂
  have hspaces : ∀ c ∈ cs₄, c = ' ' := by
    intro c hc
    simpa using List.filter_eq_nil_iff.1 h₄ c hc
  refine ⟨cs₁ ++ cs₃, cs₄.length, ?_⟩
  rw [← List.eq_replicate_of_mem hspaces, List.append_assoc]

theorem parted_iff {cs : List Char} :
    Parted cs ↔ (cs.filter (· ≠ ' ')).getLast? = some terminator := by
  constructor
  · rintro ⟨before, n, rfl⟩
    simp [terminator]
  · intro h
    obtain ⟨front, hfront⟩ := List.getLast?_eq_some_iff.1 h
    exact parted_of_filter hfront

instance (cs : List Char) : Decidable (Parted cs) := decidable_of_iff' _ parted_iff

/-- Without its spaces, of a line is kept what was kept before, cut once more. -/
theorem kept_filter (line : List Char) :
    kept (line.filter (· ≠ ' ')) = ((kept line).filter (· ≠ ' ')).rdropWhile (· = terminator) := by
  have hkept : kept line ++ (Text.trim line).rtakeWhile (· = terminator) = Text.trim line :=
    List.rdropWhile_append_rtakeWhile
  show (Text.trim (line.filter (· ≠ ' '))).rdropWhile _ = _
  rw [Text.trim_filter, ← hkept, List.filter_append]
  refine Lists.rdropWhile_append_of_pos (fun y hy => ?_) _
  have hmem := List.mem_of_mem_filter hy
  simpa using List.mem_rtakeWhile_imp hmem

/-- **Deleting the spaces of a line leaves its source alone** unless what is kept of the line ends in
    a terminator with spaces behind it. -/
theorem bodyOf_withoutSpaces_iff (line : List Char) :
    bodyOf (line.filter (· ≠ ' ')) = bodyOf line ↔
      ¬ Parted (kept line) := by
  -- `zs` are the terminators that the spaces kept from being cut off: nothing else can change
  obtain ⟨zs, hzs, hall⟩ : ∃ zs, (kept line).filter (· ≠ ' ') = kept (line.filter (· ≠ ' ')) ++ zs ∧
      ∀ z ∈ zs, z = terminator := by
    refine ⟨((kept line).filter (· ≠ ' ')).rtakeWhile (· = terminator), ?_,
      fun z hz => by simpa using List.mem_rtakeWhile_imp hz⟩
    rw [kept_filter, List.rdropWhile_append_rtakeWhile]
  have hclean : clean (kept line) = clean (kept (line.filter (· ≠ ' ')) ++ zs) := by
    rw [← hzs, clean, clean, List.filter_filter]
    simp
  rw [bodyOf_eq, bodyOf_eq, hclean, eq_comm, lowercase_clean_append_iff]
  constructor
  · rintro hspaces ⟨cs, n, hkept⟩
    have hnil : zs = [] := by
      refine List.eq_nil_iff_forall_not_mem.2 fun z hz => ?_
      exact absurd ((hall z hz).symm.trans (hspaces z hz)) (by decide)
    have hlast : (kept (line.filter (· ≠ ' '))).getLast? = some terminator := by
      rw [hnil, List.append_nil, hkept] at hzs
      rw [← hzs]
      simp [terminator]
    exact getLast?_kept_ne _ hlast
  · intro hnone z hz
    exfalso
    have hne : zs ≠ [] := List.ne_nil_of_mem hz
    have hlast : zs.getLast hne = terminator := hall _ (List.getLast_mem hne)
    rw [← List.dropLast_append_getLast hne, hlast, ← List.append_assoc] at hzs
    exact hnone (parted_of_filter hzs)

/-! ## 5. Terminators -/

/-- Spaces, then terminators, then blanks. -/
def Fades (cs : List Char) : Prop :=
  ∃ n k blanks, cs = List.replicate n ' ' ++ List.replicate k terminator ++ blanks ∧
    ∀ c ∈ blanks, Text.isBlank c = true

/-- The cuts part a text into what they leave, terminators, and blanks. -/
theorem exists_append_of_cut (cs : List Char) :
    ∃ ends blanks, cs = cut cs ++ ends ++ blanks ∧ (∀ c ∈ ends, c = terminator) ∧
      ∀ c ∈ blanks, Text.isBlank c = true := by
  refine ⟨(cs.rdropWhile Text.isBlank).rtakeWhile (· = terminator), cs.rtakeWhile Text.isBlank,
    ?_, fun c hc => by simpa using List.mem_rtakeWhile_imp hc,
    fun c => List.mem_rtakeWhile_imp⟩
  rw [cut_eq_rdropWhile, List.rdropWhile_append_rtakeWhile, List.rdropWhile_append_rtakeWhile]

/-- **The cuts leave spaces only of a text that fades**, and of no other. -/
theorem fades_iff {cs : List Char} : Fades cs ↔ ∀ c ∈ cut cs, c = ' ' := by
  constructor
  · intro h
    obtain ⟨n, k, blanks, rfl, hblanks⟩ := h
    intro c hc
    rw [cut_eq_rdropWhile, Lists.rdropWhile_append_of_pos hblanks] at hc
    -- without a terminator behind them, the spaces in front are blanks at the end themselves
    cases k with
    | zero =>
      rw [List.replicate_zero, List.append_nil] at hc
      exact List.eq_of_mem_replicate ((isPrefix_cut _).subset hc)
    | succ k =>
      have hterminators : ∀ y ∈ List.replicate (k + 1) terminator,
          decide (y = terminator) = true :=
        fun y hy => decide_eq_true (List.eq_of_mem_replicate hy)
      have hlast : (List.replicate n ' ' ++ List.replicate (k + 1) terminator).rdropWhile
          Text.isBlank = List.replicate n ' ' ++ List.replicate (k + 1) terminator := by
        rw [List.replicate_succ', ← List.append_assoc]
        exact List.rdropWhile_concat_neg _ _ _ (by decide)
      rw [hlast, Lists.rdropWhile_append_of_pos hterminators] at hc
      exact List.eq_of_mem_replicate ((List.rdropWhile_prefix _ _).subset hc)
  · intro h
    obtain ⟨ends, blanks, hcs, hends, hblanks⟩ := exists_append_of_cut cs
    refine ⟨(cut cs).length, ends.length, blanks, ?_, hblanks⟩
    rw [← List.eq_replicate_of_mem h, ← List.eq_replicate_of_mem hends]
    exact hcs

instance (cs : List Char) : Decidable (Fades cs) :=
  @decidable_of_iff' _ _ fades_iff (List.decidableBAll _ _)

theorem fades_space_cons {cs : List Char} : Fades (' ' :: cs) ↔ Fades cs := by
  constructor
  · rintro ⟨n, k, blanks, hcs, hblanks⟩
    cases n with
    | succ n =>
      rw [List.replicate_succ, List.cons_append, List.cons_append, List.cons.injEq] at hcs
      exact ⟨n, k, blanks, hcs.2, hblanks⟩
    | zero =>
      cases k with
      | succ k =>
        rw [List.replicate_zero, List.nil_append, List.replicate_succ, List.cons_append,
          List.cons.injEq] at hcs
        exact absurd hcs.1 (by decide)
      | zero =>
        have hblanks' : ∀ c ∈ ' ' :: cs, Text.isBlank c = true := by
          rw [hcs]
          exact hblanks
        exact ⟨0, 0, cs, rfl, fun c hc => hblanks' c (List.mem_cons_of_mem _ hc)⟩
  · rintro ⟨n, k, blanks, rfl, hblanks⟩
    exact ⟨n + 1, k, blanks, by simp [List.replicate_succ], hblanks⟩

/-- Of spaces and terminators, the spaces in front do not matter. -/
theorem fades_dropWhile {cs : List Char} (h : ∀ c ∈ cs, c = ' ' ∨ c = terminator) :
    Fades (cs.dropWhile Text.isBlank) ↔ Fades cs := by
  induction cs with
  | nil => rfl
  | cons c cs ih =>
    rcases h c List.mem_cons_self with rfl | rfl
    · rw [fades_space_cons, ← ih fun c hc => h c (List.mem_cons_of_mem _ hc)]
      rfl
    · rfl

/-- What is kept of a line is cut no further, whatever stands behind it. -/
theorem cut_kept_append {line rest added : List Char} (h : cutOff line ++ added = rest) :
    cut (kept line ++ rest) = kept line ++ cut rest := by
  have honce : (kept line).rdropWhile (· = terminator) = kept line :=
    List.rdropWhile_idempotent _ _
  rw [cut_eq_rdropWhile, cut_eq_rdropWhile, Lists.rdropWhile_append]
  split
  · next hnil =>
    -- then nothing but blanks was cut off at first
    have hblank : ∀ c ∈ cutOff line, Text.isBlank c = true := by
      intro c hc
      refine List.rdropWhile_eq_nil_iff.1 hnil c ?_
      rw [← h]
      exact List.mem_append_left _ hc
    have hkept : cut (kept line) = kept line := by
      rw [cut_eq_rdropWhile, ← Lists.rdropWhile_append_of_pos hblank (kept line),
        kept_append_cutOff]
      rfl
    rw [hnil, List.rdropWhile_nil, List.append_nil]
    exact hkept
  · rw [Lists.rdropWhile_append, honce]
    split
    · next hnil => rw [hnil, List.append_nil]
    · rfl

/-- What is cut off are terminators and blanks. -/
theorem eq_or_isBlank_of_mem_cutOff {line : List Char} {c : Char} (h : c ∈ cutOff line) :
    c = terminator ∨ Text.isBlank c = true := by
  obtain ⟨ends, blanks, hline, hends, hblanks⟩ := exists_append_of_cut (line.dropWhile Text.isBlank)
  have hcut : cutOff line = ends ++ blanks := by
    rw [List.append_assoc] at hline
    exact List.append_cancel_left ((kept_append_cutOff line).trans hline)
  rw [hcut, List.mem_append] at h
  exact h.imp (hends c) (hblanks c)

/-- **What is kept of a line with more at its end.** -/
theorem exists_kept_append (line : List Char) {added : List Char}
    (h : ∀ c ∈ added, c = ' ' ∨ c = terminator) :
    ∃ rest, kept (line ++ added) = kept line ++ cut rest ∧ rest <:+ cutOff line ++ added ∧
      (Fades rest ↔ Fades (cutOff line ++ added)) := by
  have htext := kept_append_cutOff line
  rw [kept, List.dropWhile_append]
  split
  · next hnil =>
    -- a line of blanks: blanks are cut off what is added, too
    rw [List.isEmpty_iff] at hnil
    rw [hnil, List.append_eq_nil_iff] at htext
    rw [htext.1, htext.2, List.nil_append]
    exact ⟨added.dropWhile Text.isBlank, rfl, List.dropWhile_suffix _, fades_dropWhile h⟩
  · next hne =>
    refine ⟨cutOff line ++ added, ?_, List.suffix_refl _, Iff.rfl⟩
    rw [← htext, List.append_assoc, cut_kept_append rfl]

/-- **Spaces and terminators at the end of a line leave its source alone** if with what was cut off
    there they are spaces, then terminators, then blanks; and only then. -/
theorem bodyOf_append_iff {line added : List Char} (h : ∀ c ∈ added, c = ' ' ∨ c = terminator) :
    bodyOf (line ++ added) = bodyOf line ↔ Fades (cutOff line ++ added) := by
  obtain ⟨rest, hrest, -, hiff⟩ := exists_kept_append line h
  rw [bodyOf_eq, bodyOf_eq, hrest, lowercase_clean_append_iff, ← hiff, fades_iff]

/-! ## 6. What may not stand inside -/

/-- A terminator, or a blank other than a space. -/
def Stray (c : Char) : Prop := c = terminator ∨ Text.isBlank c = true ∧ c ≠ ' '

/-- **What is kept of a line that does not fade on** holds a terminator or a blank. -/
theorem exists_stray_of_not_fades {line added : List Char}
    (h : ∀ c ∈ added, c = ' ' ∨ c = terminator) (hf : ¬ Fades (cutOff line ++ added)) :
    ∃ c ∈ kept (line ++ added), Stray c := by
  obtain ⟨rest, hrest, hsuffix, hiff⟩ := exists_kept_append line h
  rw [← hiff, fades_iff] at hf
  push Not at hf
  obtain ⟨c, hc, hne⟩ := hf
  refine ⟨c, by rw [hrest]; exact List.mem_append_right _ hc, ?_⟩
  have hmem : c ∈ rest :=
    (isPrefix_cut _).subset hc
  rcases List.mem_append.1 (hsuffix.subset hmem) with hcut | hadded
  · exact (eq_or_isBlank_of_mem_cutOff hcut).imp_right fun hblank => ⟨hblank, hne⟩
  · exact .inl ((h c hadded).resolve_left hne)

/-- What a terminator or a blank becomes in a source. -/
theorem exists_mem_bodyOf_of_stray {line : List Char} {c : Char} (h : c ∈ kept line)
    (hs : Stray c) : ∃ x ∈ bodyOf line, x = terminator ∨ Text.isBlank x = true := by
  have hne : c ≠ ' ' := by
    rcases hs with rfl | hs
    · decide
    · exact hs.2
  have hmem : (if c = '\t' then ' ' else c) ∈ clean (kept line) :=
    List.mem_map.2 ⟨c, List.mem_filter.2 ⟨h, by simpa using hne⟩, rfl⟩
  rw [bodyOf_eq]
  rcases hs with rfl | hs
  · exact ⟨terminator, Text.mem_lowercase_of_stays (by decide) hmem, .inl rfl⟩
  · have hblank : Text.isBlank (if c = '\t' then ' ' else c) = true := by
      split
      · decide
      · exact hs.1
    exact ⟨_, Text.mem_lowercase_of_stays (Text.stays_of_isBlank hblank) hmem, .inr hblank⟩

end Source

/-- A blank in the text is a token of its own. -/
theorem Cursor.single_mem_tokens {c : Cursor} {x : Char} (h : x ∈ c.rest)
    (hx : Text.isBlank x = true) (hend : c.halt.atEnd = true) : .single x ∈ c.tokens := by
  obtain ⟨hnumeral, hname⟩ := Text.forall_isBlank
    (P := fun x => Number.isNumeralChar x = false ∧ isNameChar x = false) (by decide +kernel) hx
  induction c using lexemes.induct with
  | case1 c hnext =>
    have hc : c.current = terminator := next?_eq_none_iff.1 hnext
    rw [atEnd, List.isEmpty_iff, rest_halt, List.dropWhile_eq_nil_iff] at hend
    obtain ⟨y, tail, hrest⟩ := List.exists_cons_of_ne_nil (List.ne_nil_of_mem h)
    have hy : y = terminator := by simpa [current, hrest] using hc
    have := hend y (by rw [hrest]; exact List.mem_cons_self)
    simp [hy] at this
  | case2 c t after hnext _ ih =>
    rw [tokens_of_next? hnext]
    rw [← chars_append_of_next? hnext, List.mem_append] at h
    rw [atEnd, ← rest_halt_of_next? hnext] at hend
    rcases h with h | h
    · have ht : t = .single x := by
        unfold next? at hnext
        split at hnext
        · cases hnext
        · split at hnext
          · cases hnext
            rw [Token.chars, String.toList_ofList] at h
            exact absurd (mem_collect h).2 (by simp [hnumeral])
          · split at hnext
            · cases hnext
              rw [Token.chars, String.toList_ofList] at h
              exact absurd (mem_collect h).2 (by simp [hname])
            · cases hnext
              rw [Token.chars_single, List.mem_singleton] at h
              rw [h]
      rw [ht]
      exact List.mem_cons_self
    · exact List.mem_cons_of_mem _ (ih h hend)

/-- No group goes on after a mark that is neither its end nor its comma. -/
theorem Reader.closingTurn_ne_next {r r' : Reader} {l : Lexeme} {m : Mark} (hr : m ≠ .rightParen)
    (hc : m ≠ .comma) : (r.closingTurn l m).move ≠ .next r' := by
  unfold closingTurn
  generalize closeChain r.extent l.start r.frames = closed
  obtain ⟨code, group⟩ := closed
  match group with
  | none => exact Move.noConfusion
  | some (0, frames) => simp [hr]
  | some (separators + 1, frames) => simp [hc]

/-- **No rule admits a blank, a terminator or a character without a meaning.** -/
theorem Reader.turn_ne_next {r r' : Reader} {l : Lexeme} (hl : (∃ x, l.token = .foreign x) ∨
    l.token = .mark .blank ∨ l.token = .mark .semicolon) : (r.turn l).move ≠ .next r' := by
  -- only where an operator may stand is a mark looked at once more: it might close a group
  have hblank : (r.closingTurn l .blank).move ≠ .next r' :=
    closingTurn_ne_next (by decide) (by decide)
  have hsemicolon : (r.closingTurn l .semicolon).move ≠ .next r' :=
    closingTurn_ne_next (by decide) (by decide)
  rcases hl with ⟨x, hl⟩ | hl | hl <;> cases ha : r.awaiting <;>
    simp [turn, ha, operandTurn, argumentsTurn, bindingTurn, operatorTurn, impliedTurn,
      refuseToken, Turn.after, Mark.after?, Mark.between?, hl, hblank, hsemicolon]

/-- A text that is read to the end has no such token. -/
theorem Reader.notMem_of_ends {halt : Cursor} {r : Reader} {ls : List Lexeme}
    (h : Ends halt r ls) (hls : ∀ l ∈ ls, l.Proper) {t : Token}
    (ht : (∃ x, t = .foreign x) ∨ t = .mark .blank ∨ t = .mark .semicolon) :
    t ∉ ls.map Lexeme.token := by
  induction ls generalizing r with
  | nil => exact List.not_mem_nil
  | cons l ls ih =>
    obtain ⟨r', hnext, hends⟩ := h.exists_next (hls l List.mem_cons_self)
    rw [List.map_cons, List.mem_cons]
    rintro (hl | hl)
    · exact turn_ne_next (hl ▸ ht) hnext
    · exact ih hends (fun l hl => hls l (List.mem_cons_of_mem _ hl)) hl

/-- Nor has it a blank. -/
theorem Reader.single_notMem_of_ends {halt : Cursor} {r : Reader} {ls : List Lexeme}
    (h : Ends halt r ls) (hls : ∀ l ∈ ls, l.Proper) {x : Char} (hx : Text.isBlank x = true) :
    .single x ∉ ls.map Lexeme.token := by
  have hsingle := Text.forall_isBlank
    (P := fun x => Token.single x = .foreign x ∨ Token.single x = .mark .blank)
    (by decide +kernel) hx
  exact notMem_of_ends h hls (hsingle.imp (fun hx => ⟨x, hx⟩) .inl)

/-! ## 7. Evaluations -/

/-- The text of an evaluation that has a value holds no terminator and no blank. -/
theorem not_blank_of_ok {c : Calculator} {line : String} {v : Float}
    (h : (c.evaluate line).result = .ok v) {x : Char} (hx : x ∈ Source.bodyOf line.toList) :
    x ≠ terminator ∧ Text.isBlank x = false := by
  cases hs : Source.ofLine line with
  | error err =>
    rw [result_of_ofLine_error hs] at h
    cases h
  | ok source =>
    rw [Source.ofLine_eq_ok_iff.1 hs] at hx
    obtain ⟨stop, t, hstop, hend, -, -⟩ := built_of_ok hs h
    have hproper := source.start.proper_of_mem_lexemes
    have hends : Reader.Ends source.start.halt ⟨.chain, [], .operand⟩ source.start.lexemes :=
      ⟨stop, hstop, hend⟩
    have hhalt := (Reader.derivable_of_ends hends hproper).1
    constructor
    · rw [Cursor.atEnd, List.isEmpty_iff, Cursor.rest_halt, List.dropWhile_eq_nil_iff] at hhalt
      simpa using hhalt x hx
    · rw [Bool.eq_false_iff]
      intro hblank
      exact Reader.single_notMem_of_ends hends hproper hblank
        (Cursor.single_mem_tokens (c := source.start) hx hblank hhalt)

theorem exists_error_of_stray (c : Calculator) {line : String} {x : Char}
    (h : x ∈ Source.kept line.toList) (hx : Source.Stray x) :
    ∃ err, (c.evaluate line).result = .error err := by
  obtain ⟨y, hy, hy'⟩ := Source.exists_mem_bodyOf_of_stray h hx
  cases hr : (c.evaluate line).result with
  | error err => exact ⟨err, rfl⟩
  | ok v =>
    obtain ⟨hne, hblank⟩ := not_blank_of_ok hr hy
    rcases hy' with hy' | hy'
    · exact absurd hy' hne
    · rw [hblank] at hy'
      cases hy'

theorem evaluate_of_bodyOf {line line' : String}
    (h : Source.bodyOf line'.toList = Source.bodyOf line.toList) (c : Calculator) :
    c.evaluate line' = c.evaluate line := by
  rw [Calculator.evaluate, Calculator.evaluate, Source.ofLine_eq_iff.2 h]

open Source in
/-- **Spaces do not change an evaluation**, unless they part the terminators at the end of the line:
    then the line has no value. **Spaces and terminators behind a line do not change its evaluation**
    if, with what was cut off there, they are spaces, then terminators, then blanks; otherwise the
    longer line has no value. -/
theorem evaluate_of_trimmed (c : Calculator) (line added : String)
    (h : ∀ x ∈ added.toList, x = ' ' ∨ x = terminator) :
    ((Parted (kept line.toList) → ∃ err, (c.evaluate line).result = .error err) ∧
      (¬ Parted (kept line.toList) → c.evaluate (withoutSpaces line) = c.evaluate line)) ∧
    (Fades (cutOff line.toList ++ added.toList) → c.evaluate (line ++ added) = c.evaluate line) ∧
      (¬ Fades (cutOff line.toList ++ added.toList) →
        ∃ err, (c.evaluate (line ++ added)).result = .error err) := by
  refine ⟨⟨fun hparted => ?parted, fun hparted => ?together⟩, fun hfades => ?fades,
    fun hfades => ?stray⟩
  case parted =>
    obtain ⟨before, n, hkept⟩ := hparted
    refine exists_error_of_stray c (x := terminator) ?_ (.inl rfl)
    rw [hkept]
    exact List.mem_append_right _ List.mem_cons_self
  case together =>
    refine evaluate_of_bodyOf ?_ c
    rw [withoutSpaces, String.toList_ofList]
    exact (bodyOf_withoutSpaces_iff _).2 hparted
  case fades =>
    refine evaluate_of_bodyOf ?_ c
    rw [String.toList_append]
    exact (bodyOf_append_iff h).2 hfades
  case stray =>
    obtain ⟨x, hx, hstray⟩ := exists_stray_of_not_fades h hfades
    rw [← String.toList_append] at hx
    exact exists_error_of_stray c hx hstray

/-- Terminators that stand together, with spaces in the text and behind it. -/
theorem evaluate_of_trimmed_sum :
    ({} : Calculator).evaluate (Source.withoutSpaces " 2 + 3;;") =
        ({} : Calculator).evaluate " 2 + 3;;" ∧
      ({} : Calculator).evaluate (" 2 + 3;;" ++ "; ") = ({} : Calculator).evaluate " 2 + 3;;" := by
  have h := evaluate_of_trimmed {} " 2 + 3;;" "; " (by simp [terminator])
  exact ⟨h.1.2 (by decide), h.2.1 (by decide)⟩

/-- A space between two terminators makes the first one a part of the text. -/
theorem not_evaluate_of_trimmed :
    ¬ (∀ (c : Calculator) (line : String),
      c.evaluate (Source.withoutSpaces line) = c.evaluate line) ∧
    ¬ ∀ (c : Calculator) (line added : String), (∀ x ∈ added.toList, x = ' ' ∨ x = terminator) →
      c.evaluate (line ++ added) = c.evaluate line := by
  have hparted : (({} : Calculator).evaluate "2; ;").reply =
      "Error at position 1: end of expression expected." := by decide +kernel
  have htwo : ∀ line ∈ ["2", "2;;"], (({} : Calculator).evaluate line).reply = "2" := by
    decide +kernel
  constructor
  · intro h
    have := congrArg Answer.reply (h {} "2; ;")
    rw [hparted] at this
    exact absurd ((htwo "2;;" (by simp)).symm.trans this) (by decide)
  · intro h
    have := congrArg Answer.reply (h {} "2" "; ;" (by simp [terminator]))
    rw [htwo "2" (by simp)] at this
    exact absurd (hparted.symm.trans this) (by decide)

end DeskCalculator
