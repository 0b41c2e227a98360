import DeskCalculator.Proofs.Finiteness
import DeskCalculator.Proofs.Frame
import DeskCalculator.Proofs.Trimming

/-!
# The table as a map

A table is changed under any spelling of a name and read under any other. This file fixes

* `Text.lowercase_lowercase` -- the lower-case form of a text is its own lower-case form;
* `Variables.Folded` -- every name that is bound is its own form;
* `Change`, `Variables.changed` -- what can be done to a table, and a table after it;
* `Change.says?` -- what a change says about the names of one form.

Main statement: **after any changes a new table is the map that they describe**: the last one that
says something about a form decides, and the bindings are that map in the order of the names
(`isMap_changed`).
-/

namespace DeskCalculator

/-! ## 1. Lower case, twice -/

namespace Text

/-- All letters that have a lower-case form: ASCII and İ, which have rules of their own, and the
    runs. -/
def letterRuns : List LowerRun := ⟨0x41, 0x5a, 1, 0x61⟩ :: ⟨0x130, 0x130, 2, 0x69⟩ :: lowerRuns

/-- The letters of a run. -/
def LowerRun.letters (run : LowerRun) : List Nat :=
  List.range' run.first ((run.last - run.first) / run.step + 1) run.step

theorem LowerRun.mem_letters {run : LowerRun} {n : Nat} (h : run.covers n = true) :
    n ∈ run.letters := by
  simp only [covers, Bool.and_eq_true, decide_eq_true_eq, beq_iff_eq] at h
  obtain ⟨⟨hfirst, hlast⟩, hstep⟩ := h
  refine List.mem_range'.2 ⟨(n - run.first) / run.step, ?_, ?_⟩
  · exact Nat.lt_succ_of_le (Nat.div_le_div_right (Nat.sub_le_sub_right hlast _))
  · have hsplit := Nat.div_add_mod (n - run.first) run.step
    omega

/-- Sets of numbers as the bits of numbers, all together. -/
def unite (sets : List Nat) : Nat := sets.foldr (· ||| ·) 0

theorem testBit_unite {sets : List Nat} {set n : Nat} (hset : set ∈ sets)
    (hn : set.testBit n = true) : (unite sets).testBit n = true := by
  induction sets with
  | nil => cases hset
  | cons head sets ih =>
    rw [unite, List.foldr_cons, Nat.testBit_or, Bool.or_eq_true]
    rcases List.mem_cons.1 hset with rfl | hset
    · exact .inl hn
    · exact .inr (ih hset)

/-- The letters of a run as bits, each sent on by `f`. -/
def LowerRun.bits (f : Nat → Nat) (run : LowerRun) : Nat :=
  unite (run.letters.map fun n => Number.twoTo (f n))

theorem LowerRun.testBit_bits {runs : List LowerRun} {run : LowerRun} {n : Nat}
    (f : LowerRun → Nat → Nat) (hrun : run ∈ runs) (h : run.covers n = true) :
    (unite (runs.map fun run => run.bits (f run))).testBit (f run n) = true := by
  refine testBit_unite (List.mem_map_of_mem hrun) ?_
  exact testBit_unite (List.mem_map_of_mem (mem_letters h)) Nat.testBit_two_pow_self

/-- No letter is the image of another. -/
theorem images_and_letters :
    unite (lowerRuns.map fun run => run.bits run.send) &&&
      unite (letterRuns.map fun run => run.bits id) = 0 := by decide +kernel

theorem covers_send {run other : LowerRun} (hrun : run ∈ lowerRuns) (hother : other ∈ letterRuns)
    {n : Nat} (hn : run.covers n = true) : other.covers (run.send n) = false := by
  rw [Bool.eq_false_iff]
  intro hcovers
  have himage := LowerRun.testBit_bits LowerRun.send hrun hn
  have hletter := LowerRun.testBit_bits (fun _ => id) hother hcovers
  have hboth := congrArg (Nat.testBit · (run.send n)) images_and_letters
  simp only [Nat.testBit_and, himage, id] at hboth hletter
  rw [hletter, Nat.zero_testBit] at hboth
  cases hboth

theorem toLower_of_covers {x : Char} (h : (⟨0x41, 0x5a, 1, 0x61⟩ : LowerRun).covers x.toNat = false)
    (hascii : x.toNat < 0x80) : x.toLower = x :=
  forall_ascii (P := fun c =>
    (⟨0x41, 0x5a, 1, 0x61⟩ : LowerRun).covers c.toNat = false → c.toLower = c) (by decide) hascii h

/-- **A character stays if it is no letter with a lower-case form.** -/
theorem stays_of_covers {x : Char} (h : ∀ run ∈ letterRuns, run.covers x.toNat = false) :
    Stays x := by
  refine ⟨?_, ?_, ?_⟩
  · rintro rfl
    exact absurd (h ⟨0x3a3, 0x3ab, 1, 0x3c3⟩ (by decide)) (by decide)
  · rintro rfl
    exact absurd (h ⟨0x130, 0x130, 2, 0x69⟩ (by decide)) (by decide)
  · by_cases hascii : x.toNat < 0x80
    · rw [lowerChar_of_ascii hascii]
      exact toLower_of_covers (h _ List.mem_cons_self) hascii
    · have hfind : lowerRuns.find? (·.covers x.toNat) = none :=
        List.find?_eq_none.2 fun run hrun =>
          Bool.eq_false_iff.1 (h run (List.mem_cons_of_mem _ (List.mem_cons_of_mem _ hrun)))
      simp only [lowerChar, if_neg hascii, hfind]

/-- **The images of a run stay.** -/
theorem stays_of_mem_lowerRuns {run : LowerRun} (hrun : run ∈ lowerRuns) {n : Nat}
    (hn : run.covers n = true) : Stays (Char.ofNat (run.send n)) := by
  by_cases hvalid : (run.send n).isValidChar
  · have hnat : (Char.ofNat (run.send n)).toNat = run.send n := by
      rw [Char.ofNat, dif_pos hvalid]
      rfl
    refine stays_of_covers fun other hother => ?_
    rw [hnat]
    exact covers_send hrun hother hn
  · rw [Char.ofNat, dif_neg hvalid]
    decide

theorem stays_lowerChar {c : Char} (h1 : c ≠ 'Σ') (h2 : c ≠ 'İ') : Stays (lowerChar c) := by
  by_cases hascii : c.toNat < 0x80
  · rw [lowerChar_of_ascii hascii]
    exact forall_ascii (P := fun c => Stays c.toLower) (by decide) hascii
  · cases hfind : lowerRuns.find? (·.covers c.toNat) with
    | some run =>
      have he : lowerChar c = Char.ofNat (run.send c.toNat) := by
        simp only [lowerChar, if_neg hascii, hfind]
      have hcovers : run.covers c.toNat = true :=
        List.find?_some (p := fun run : LowerRun => run.covers c.toNat) hfind
      rw [he]
      exact stays_of_mem_lowerRuns (List.mem_of_find?_eq_some hfind) hcovers
    | none =>
      have he : lowerChar c = c := by simp only [lowerChar, if_neg hascii, hfind]
      rw [he]
      exact ⟨h1, h2, he⟩

theorem stays_of_mem_lowerAt {before after : List Char} {c x : Char}
    (h : x ∈ lowerAt before c after) : Stays x := by
  unfold lowerAt at h
  split at h
  · split at h <;> rw [List.mem_singleton.1 h] <;> decide
  · next h1 =>
    split at h
    · have hall : ['i', '\u0307'].all (fun x => decide (Stays x)) = true := by decide
      exact of_decide_eq_true (List.all_eq_true.1 hall x h)
    · next h2 =>
      rw [List.mem_singleton.1 h]
      exact stays_lowerChar h1 h2

/-- **All characters of a lower-case form stay.** -/
theorem stays_of_mem_lowercase {cs : List Char} {x : Char} (h : x ∈ lowercase cs) : Stays x := by
  suffices ∀ before, x ∈ lowerAfter before cs → Stays x from this [] h
  clear h
  induction cs with
  | nil => exact fun _ h => nomatch h
  | cons c cs ih =>
    intro before h
    rw [lowerAfter, List.mem_append] at h
    exact h.elim stays_of_mem_lowerAt (ih (c :: before))

theorem lowercase_of_stays {cs : List Char} (h : ∀ x ∈ cs, Stays x) : lowercase cs = cs := by
  suffices ∀ before, lowerAfter before cs = cs from this []
  induction cs with
  | nil => exact fun _ => rfl
  | cons c cs ih =>
    intro before
    obtain ⟨h1, h2, hc⟩ := h c List.mem_cons_self
    rw [lowerAfter, lowerAt, if_neg h1, if_neg h2, hc,
      ih fun x hx => h x (List.mem_cons_of_mem _ hx)]
    rfl

/-- **The lower-case form of a text is its own lower-case form.** -/
theorem lowercase_lowercase (cs : List Char) : lowercase (lowercase cs) = lowercase cs :=
  lowercase_of_stays fun _ => stays_of_mem_lowercase

end Text

theorem foldName_foldName (name : String) : foldName (foldName name) = foldName name := by
  rw [foldName, foldName, String.toList_ofList, Text.lowercase_lowercase]

/-! ## 2. Folded tables -/

namespace Variables

variable {v : Variables} {key : String} {x : Float}

/-- Every name that is bound is its own form. -/
def Folded (v : Variables) : Prop := ∀ key x, v.table[key]? = some x → foldName key = key

theorem folded_seeded : seeded.Folded := by
  intro key x h
  have hall : ∀ binding ∈ seeded.toList, foldName binding.1 = binding.1 := by decide
  exact hall (key, x) (mem_toList_iff.2 h)

theorem Folded.set (h : v.Folded) (name : String) (x : Float) : (v.set name x).Folded := by
  intro key y hy
  rw [Variables.set, Std.TreeMap.getElem?_insert] at hy
  split at hy
  · next he => rw [← Std.LawfulEqCmp.compare_eq_iff_eq.1 he, foldName_foldName]
  · exact h key y hy

theorem Folded.remove (h : v.Folded) (name : String) : (v.remove name).Folded := by
  intro key y hy
  rw [Variables.remove, Std.TreeMap.getElem?_erase] at hy
  split at hy
  · cases hy
  · exact h key y hy

/-- **A folded table lists exactly what it holds.** -/
theorem Folded.mem_toList_iff (h : v.Folded) :
    (key, x) ∈ v.toList ↔ foldName key = key ∧ v.get? key = some x := by
  rw [Variables.mem_toList_iff]
  constructor
  · intro hx
    have hkey := h key x hx
    exact ⟨hkey, by rw [get?, hkey, hx]⟩
  · rintro ⟨hkey, hx⟩
    rwa [get?, hkey] at hx

/-- **The names of a table are listed in ascending order**, each of them once. -/
theorem pairwise_toList (v : Variables) : (v.toList.map Prod.fst).Pairwise (· < ·) :=
  List.pairwise_map.2 ((Std.TreeMap.ordered_keys_toList (t := v.table)).imp fun h =>
    compareOfLessAndEq_eq_lt.1 h)

theorem length_toList (v : Variables) : v.toList.length = v.size := Std.TreeMap.length_toList

/-- What a new table holds under a form. -/
def seed? (key : String) : Option Float :=
  if answerName = key then some 0
  else if "e" = key then some eulerValue
  else if "pi" = key then some piValue
  else none

theorem get?_seeded (name : String) : seeded.get? name = seed? (foldName name) := by
  simp only [get?, seeded, seed?, Std.TreeMap.getElem?_insert, Std.TreeMap.getElem?_emptyc,
    Std.LawfulEqCmp.compare_eq_iff_eq]

end Variables

/-! ## 3. Changes -/

/-- What can be done to a table. -/
inductive Change where
  | set (name : String) (value : Float)
  | remove (name : String)
  | answer (value : Float)
  | reset

/-- What a change says about the names of a form: a value, that there is none, or nothing. -/
def Change.says? (key : String) : Change → Option (Option Float)
  | set name value => if foldName name = key then some (some value) else none
  | remove name => if foldName name = key then some none else none
  | answer value => if Variables.answerName = key then some (some value) else none
  | reset => some (Variables.seed? key)

namespace Variables

/-- The table after a change. -/
def change (v : Variables) : Change → Variables
  | .set name value => v.set name value
  | .remove name => (v.take name).2
  | .answer value => v.setLastAnswer value
  | .reset => seeded

/-- The table after some changes, first one first. -/
def changed (v : Variables) (changes : List Change) : Variables := changes.foldl change v

variable {v : Variables}

theorem Folded.change (h : v.Folded) (change : Change) : (v.change change).Folded := by
  cases change with
  | set name value => exact h.set name value
  | remove name => exact h.remove name
  | answer value => exact h.set answerName value
  | reset => exact folded_seeded

theorem Folded.changed (h : v.Folded) (changes : List Change) : (v.changed changes).Folded := by
  induction changes generalizing v with
  | nil => exact h
  | cons change changes ih => exact ih (h.change change)

/-- **A table after a change** holds what the change says, and what it held if it says nothing. -/
theorem get?_change (v : Variables) (change : Change) (name : String) :
    (v.change change).get? name = (change.says? (foldName name)).getD (v.get? name) := by
  cases change with
  | set name' value =>
    rw [Variables.change, get?_set, Change.says?]
    split <;> rfl
  | remove name' =>
    rw [Variables.change, take, get?_remove, Change.says?]
    split <;> rfl
  | answer value =>
    rw [Variables.change, setLastAnswer, get?_set, foldName_answerName, Change.says?]
    split <;> rfl
  | reset => exact get?_seeded name

/-- **A table after some changes** holds what the last of them says that says something. -/
theorem get?_changed (v : Variables) (changes : List Change) (name : String) :
    (v.changed changes).get? name =
      (changes.filterMap (Change.says? (foldName name))).getLastD (v.get? name) := by
  induction changes generalizing v with
  | nil => rfl
  | cons change changes ih =>
    have hchanged : v.changed (change :: changes) = (v.change change).changed changes := rfl
    rw [hchanged, ih, get?_change, List.filterMap_cons]
    cases change.says? (foldName name) with
    | none => rfl
    | some said => rw [List.getLastD_cons, Option.getD_some]

end Variables

/-! ## 4. The map -/

/-- **A new table after any changes, under any spellings.** The last change that says something about
    a form decides what its names read, with the constants of a new table at the start; a removal
    gives back what the name read and leaves the names of other forms alone; the names are listed in
    ascending order, one for each binding; a form is listed with exactly what it reads, and whatever
    is listed can be read under its name. -/
theorem isMap_changed (changes : List Change) :
    let v := Variables.seeded.changed changes
    (∀ name, v.get? name =
      (changes.filterMap (Change.says? (foldName name))).getLastD
        (Variables.seed? (foldName name))) ∧
    (∀ name, (v.take name).1 = v.get? name ∧ (v.take name).2.get? name = none ∧
      ∀ other, foldName other ≠ foldName name → (v.take name).2.get? other = v.get? other) ∧
    (v.toList.map Prod.fst).Pairwise (· < ·) ∧ v.toList.length = v.size ∧
    (∀ name x, foldName name = name → ((name, x) ∈ v.toList ↔ v.get? name = some x)) ∧
    ∀ name x, (name, x) ∈ v.toList → v.get? name = some x := by
  intro v
  have hfolded : v.Folded := Variables.folded_seeded.changed changes
  refine ⟨fun name => ?_, fun name => ⟨rfl, ?_, fun other hother => ?_⟩, v.pairwise_toList,
    v.length_toList, fun name x hname => ?_, fun name x hmem => ?_⟩
  · rw [Variables.get?_changed, Variables.get?_seeded]
  · rw [Variables.take, Variables.get?_remove, if_pos rfl]
  · rw [Variables.take, Variables.get?_remove, if_neg fun he => hother he.symm]
  · rw [hfolded.mem_toList_iff]
    exact and_iff_right hname
  · exact (hfolded.mem_toList_iff.1 hmem).2

/-- Two spellings of one name, the second with a final sigma, and a constant that is removed. -/
theorem isMap_changed_spellings :
    let v := Variables.seeded.changed [.set "ΟΔΟΣ" 1, .remove "Pi", .answer 2]
    v.get? "Οδος" = some 1 ∧ v.get? "pI" = none ∧ v.get? "R" = some 2 ∧ ("οδος", 1) ∈ v.toList := by
  intro v
  obtain ⟨hget, -, -, -, hmem, -⟩ := isMap_changed [.set "ΟΔΟΣ" 1, .remove "Pi", .answer 2]
  have hstreet : foldName "ΟΔΟΣ" = "οδος" ∧ foldName "Οδος" = "οδος" ∧ foldName "οδος" = "οδος" := by
    decide +kernel
  have hconstant : foldName "Pi" = "pi" ∧ foldName "pI" = "pi" ∧ foldName "R" = "r" := by
    decide
  refine ⟨?_, ?_, ?_, (hmem "οδος" 1 hstreet.2.2).2 ?_⟩ <;> rw [hget] <;>
    simp [Change.says?, hstreet, hconstant, Variables.answerName]

end DeskCalculator
