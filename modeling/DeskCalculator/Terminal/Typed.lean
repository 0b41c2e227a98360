import DeskCalculator.Terminal.Cluster

/-!
# Typed lines

A line that comes through a pipe can hold backspaces. Each takes back the cluster before it, and
none is left in the line. This file belongs to the outer layer: it stands for what the line editor
of a session makes of such a line, and no statement on the calculator rests on it.

* `Typed` -- what is typed so far; `Typed.push`, `Typed.takeBack?`, `Typed.key?` -- one more cluster;
* `applyBackspaces?` -- the line that is meant.

What a backspace takes back is counted in bytes of UTF-8, and the count of a cluster is kept modulo
256. So of a cluster of 256 bytes or more only the end is taken back, and a line where that would
leave a part of a character has no meaning.
-/

namespace DeskCalculator.Terminal

/-- The character that takes back the cluster before it. -/
def backspace : Char := '\x08'

/-! ## 1. Bytes -/

/-- The bytes of a text in UTF-8. -/
def byteLength : List Char → Nat
  | [] => 0
  | c :: cs => c.utf8Size + byteLength cs

/-- The text without so many bytes at its beginning, if they are whole characters. -/
def dropBytes? : List Char → Nat → Option (List Char)
  | cs, 0 => some cs
  | [], _ + 1 => none
  | c :: cs, n + 1 => if c.utf8Size ≤ n + 1 then dropBytes? cs (n + 1 - c.utf8Size) else none

/-! ## 2. One cluster after the other -/

/-- What is typed so far. -/
structure Typed where
  /-- The characters, newest first. -/
  chars : List Char := []
  /-- For each cluster, newest first, the bytes that a backspace takes back. -/
  spans : List Nat := []

namespace Typed

/-- One more cluster. -/
def push (cluster : List Char) (t : Typed) : Typed :=
  ⟨cluster.reverse ++ t.chars, byteLength cluster % 256 :: t.spans⟩

/-- A backspace; without a cluster it does nothing. -/
def takeBack? (t : Typed) : Option Typed :=
  match t.spans with
  | [] => some t
  | span :: spans => (dropBytes? t.chars span).map (⟨·, spans⟩)

/-- A cluster or a backspace. -/
def key? (t : Typed) (cluster : List Char) : Option Typed :=
  if cluster = [backspace] then t.takeBack? else some (t.push cluster)

/-- The characters in the order in which they were typed. -/
def toList (t : Typed) : List Char := t.chars.reverse

end Typed

/-! ## 3. The line -/

/-- The line that is meant by a typed line, if it has a meaning. -/
def applyBackspaces? (line : String) : Option String :=
  ((clusters line.toList).foldlM Typed.key? {}).map fun t => String.ofList t.toList

end DeskCalculator.Terminal
