import Accumulator.Text.Cluster.Basic
import Accumulator.Text.Line
import Accumulator.Text.Width.Basic

set_option autoImplicit false

/-!
Rows of a terminal. A row has a fixed number of cells, and a cluster is written into the first of
the cells that it takes.
-/

namespace Accumulator.Text

/-- What the free cells at the end of a row show of a line: its clusters up to the first that does
not fit. The cells of a cluster after its first are blank. A cluster of no width is not shown, and
neither is one that is wider than the whole row. -/
def fill (cells free : Nat) : List Char → List Char
  | [] => []
  | c :: cs =>
    let cluster := (splitCluster c cs).1
    let rest := (splitCluster c cs).2
    let taken := width cluster
    if taken = 0 || cells < taken then fill cells free rest
    else if free < taken then []
    else cluster ++ List.replicate (taken - 1) ' ' ++ fill cells (free - taken) rest
termination_by line => line.length
decreasing_by all_goals exact length_splitCluster_lt c cs

/-- The part of a line that fits into a row. -/
def clip (cells : Nat) (line : List Char) : List Char := fill cells cells line

/-- Drops the empty rows at the end. -/
def dropEmptyRows : List (List Char) → List (List Char)
  | [] => []
  | row :: rows =>
    match dropEmptyRows rows with
    | [] => if row.isEmpty then [] else [row]
    | kept => row :: kept

/-- What a pane of a size shows of some lines: the part of each that fits, without the blanks at its
end. -/
def pane (width height : Nat) (lines : List (List Char)) : List (List Char) :=
  dropEmptyRows ((lines.take height).map fun line => trimEnd (clip width line))

end Accumulator.Text
