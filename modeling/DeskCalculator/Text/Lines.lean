/-!
# Lines of a text

A line ends at a line feed, and a carriage return right before the line feed belongs to the line
end. A last line need not be ended; the empty text after a last line feed is no line.

* `lines` -- the lines of a text.
-/

namespace DeskCalculator.Text

/-- The line gathered so far, newest character first, when a line feed ends it. -/
def endedLine (gathered : List Char) : List Char :=
  match gathered with
  | '\r' :: before => before.reverse
  | _ => gathered.reverse

/-- The lines of `gathered.reverse ++ cs`, where `gathered` has no line feed. -/
def linesAfter (gathered : List Char) : List Char → List (List Char)
  | [] => if gathered.isEmpty then [] else [gathered.reverse]
  | '\n' :: rest => endedLine gathered :: linesAfter [] rest
  | c :: rest => linesAfter (c :: gathered) rest

/-- The lines of a text, without their ends. -/
def lines (text : String) : List String :=
  (linesAfter [] text.toList).map String.ofList

end DeskCalculator.Text
