import FuzzyLogic.Command.Console
import FuzzyLogic.Text.Path

/-!
# Host/Layout — tables laid out

A table has a title, perhaps a header, and rows of cells; a cell may have several lines.  A column
is as wide as its widest line.  A table with a header is framed.  The title is broken to the width
of a framed table, inside a word only if the word alone is too wide.
-/

namespace FuzzyLogic

open Text

namespace Table

/-! ## Titles -/

/-- The pieces of a list with a number of elements each, the last perhaps with fewer. -/
def chunks {α : Type} (width : Nat) (xs : List α) : List (List α) :=
  if width = 0 || xs.length ≤ width then [xs]
  else xs.take width :: chunks width (xs.drop width)
termination_by xs.length
decreasing_by
  simp_all only [Bool.or_eq_true, decide_eq_true_eq, List.length_drop]
  omega

/-- The lines that words fill, after those of a line that is begun. -/
def fill (width : Nat) : List Char → List (List Char) → List (List Char)
  | line, [] => [line]
  | line, word :: rest =>
    if line.isEmpty then
      let pieces := chunks width word
      pieces.dropLast ++ fill width (pieces.getLast?.getD []) rest
    else if line.length + 1 + word.length ≤ width then fill width (line ++ ' ' :: word) rest
    else
      let pieces := chunks width word
      line :: (pieces.dropLast ++ fill width (pieces.getLast?.getD []) rest)

/-! ## Columns -/

/-- The lines of a cell. -/
def lines (cell : String) : List (List Char) := pieces '\n' cell.toList

/-- The cells of a column. -/
def column (t : Table) (i : Nat) : List String :=
  (t.header :: t.rows).filterMap fun row => row[i]?

/-- The width of a column. -/
def columnWidth (t : Table) (i : Nat) : Nat :=
  (t.column i).foldl (fun w cell => (lines cell).foldl (fun w line => max w line.length) w) 0

/-- How many columns there are. -/
def columnCount (t : Table) : Nat :=
  (t.header :: t.rows).foldl (fun n row => max n row.length) 0

/-- The widths of the columns. -/
def widths (t : Table) : List Nat := (List.range t.columnCount).map t.columnWidth

/-- Whether the table has a frame. -/
def isFramed (t : Table) : Bool := !t.header.isEmpty

/-- A line of the frame. -/
def ruler (widths : List Nat) : List Char :=
  '─' :: widths.flatMap fun w => List.replicate (w + 3) '─'

/-- One line of a row. -/
def rowLine (framed : Bool) (widths : List Nat) (cells : List (List (List Char))) (i : Nat) :
    List Char :=
  let bar : List Char := if framed then ['│'] else []
  bar ++ (cells.zip widths).flatMap fun (cell, w) =>
    let line := cell[i]?.getD []
    ' ' :: (line ++ List.replicate (w - line.length) ' ') ++ ' ' :: bar

/-- The lines of a row. -/
def rowLines (framed : Bool) (widths : List Nat) (row : List String) : List (List Char) :=
  let cells := row.map lines
  (List.range (cells.foldl (fun n cell => max n cell.length) 0)).map (rowLine framed widths cells)

/-- The lines of the title. -/
def titleLines (t : Table) : List (List Char) :=
  fill (ruler t.widths).length [] ((pieces ' ' t.title.toList).filter (· != []))

/-- A table as text. -/
def written (t : Table) : String :=
  let widths := t.widths
  let body := t.rows.flatMap (rowLines t.isFramed widths)
  let all :=
    if t.isFramed then
      t.titleLines ++ ruler widths :: rowLines true widths t.header ++ ruler widths :: body ++
        [ruler widths]
    else t.title.toList :: body
  String.ofList (all.flatMap (· ++ ['\n']))

end Table

end FuzzyLogic
