import Accumulator.Text.Character

set_option autoImplicit false

/-!
Lines, and the blank-separated fields of a line.
-/

namespace Accumulator.Text

/-- The lines of a text. A line ends at a line feed, which takes a carriage return directly before
it along; nothing after the last line feed is no line. -/
def lines : List Char → List (List Char)
  | [] => []
  | '\n' :: cs => [] :: lines cs
  | '\r' :: '\n' :: cs => [] :: lines cs
  | c :: cs =>
    match lines cs with
    | [] => [[c]]
    | line :: rest => (c :: line) :: rest

/-- Drops the blanks at the end. -/
def trimEnd : List Char → List Char
  | [] => []
  | c :: cs =>
    match trimEnd cs with
    | [] => if isBlank c then [] else [c]
    | kept => c :: kept

/-- Drops the blanks at both ends. -/
def trim (cs : List Char) : List Char :=
  trimEnd (cs.dropWhile isBlank)

/-- The maximal runs of characters that are not blank. -/
def fields (cs : List Char) : List (List Char) :=
  (cs.splitOnP isBlank).filter fun field => !field.isEmpty

/-- The text with its lines joined by line feeds. -/
def joinLines (rows : List String) : String :=
  "\n".intercalate rows

end Accumulator.Text
