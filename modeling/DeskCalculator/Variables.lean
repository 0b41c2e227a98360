import Std.Data.TreeMap
import DeskCalculator.Text.LowerCase

/-!
# Variables

A table of values by name. The case of a name does not matter: each access goes through `foldName`.
A new table holds two constants and the last answer, which is the variable `r`.

* `Variables` -- the table; `get?`, `getD`, `set`, `remove`, `take`, `lastAnswer`, `setLastAnswer`;
* `get?_set` -- what a table holds after a name was set; `get?_remove` -- after it was removed;
* `toList` -- all bindings in the order of their names; `agrees` compares two tables by their values
  as floats.
-/

namespace DeskCalculator

/-- The form of a name under which a table holds it. -/
def foldName (name : String) : String := String.ofList (Text.lowercase name.toList)

/-- A table of variables. -/
structure Variables where
  table : Std.TreeMap String Float

namespace Variables

/-! ## 1. New tables -/

/-- The name of the last answer. -/
def answerName : String := "r"

/-- The float nearest to the ratio of a circle to its diameter. -/
def piValue : Float := Float.ofBits 0x400921fb54442d18

/-- The float nearest to the base of the natural logarithm. -/
def eulerValue : Float := Float.ofBits 0x4005bf0a8b145769

/-- A new table. -/
def seeded : Variables :=
  ⟨(((∅ : Std.TreeMap String Float).insert "pi" piValue).insert "e" eulerValue).insert answerName 0⟩

/-! ## 2. Access -/

/-- The value of a name. -/
def get? (v : Variables) (name : String) : Option Float := v.table[foldName name]?

/-- The value of a name, zero if it has none. -/
def getD (v : Variables) (name : String) : Float := (v.get? name).getD 0

/-- The table with a name bound to a value. -/
def set (v : Variables) (name : String) (value : Float) : Variables :=
  ⟨v.table.insert (foldName name) value⟩

/-- The table without a name. -/
def remove (v : Variables) (name : String) : Variables := ⟨v.table.erase (foldName name)⟩

/-- The value that a name gives up when it is removed, and the table without it. -/
def take (v : Variables) (name : String) : Option Float × Variables := (v.get? name, v.remove name)

/-- The value of the last expression that was evaluated. -/
def lastAnswer (v : Variables) : Float := v.getD answerName

/-- The table with a new last answer. -/
def setLastAnswer (v : Variables) (value : Float) : Variables := v.set answerName value

/-- **A table after a name was set**: the value, and no other name is touched. -/
theorem get?_set (v : Variables) (name other : String) (value : Float) :
    (v.set name value).get? other =
      if foldName name = foldName other then some value else v.get? other := by
  simp only [get?, set, Std.TreeMap.getElem?_insert, Std.LawfulEqCmp.compare_eq_iff_eq]

/-- **A table after a name was removed.** -/
theorem get?_remove (v : Variables) (name other : String) :
    (v.remove name).get? other =
      if foldName name = foldName other then none else v.get? other := by
  simp only [get?, remove, Std.TreeMap.getElem?_erase, Std.LawfulEqCmp.compare_eq_iff_eq]

/-! ## 3. All bindings -/

/-- The bindings in the order of their names, character by character. -/
def toList (v : Variables) : List (String × Float) := v.table.toList

/-- How many names have a value. -/
def size (v : Variables) : Nat := v.table.size

/-- Whether no name has a value. -/
def isEmpty (v : Variables) : Bool := v.table.isEmpty

/-- Whether two tables bind the same names to equal values; NaN equals nothing, and the two zeros
    are equal. -/
def agrees (v w : Variables) : Bool := v.toList == w.toList

end Variables

end DeskCalculator
