import TreeFold.Text.Width

/-!
# Tables

A table is drawn with a rule above and below every row. A column is as wide as its widest line,
with a blank on either side; a cell with several lines makes its row as high as it is.
-/

namespace TreeFold

/-- A table of texts. -/
structure Table where
  header : List Text
  rows : List (List Text)

namespace Table

open Text

/-- The lines of a cell; they end in line feeds. -/
def cellLines (cell : Text) : List Text :=
  cell.splitOn '\n'

/-- The columns that a cell takes. -/
def cellWidth (cell : Text) : Nat :=
  ((cellLines cell).map width).foldl max 0

/-- The widths of the columns of rows that are as long as `count` says. -/
def widths (count : Nat) (rows : List (List Text)) : List Nat :=
  rows.foldl (fun sofar row => List.zipWith max sofar (row.map cellWidth))
    (List.replicate count 0)

/-- The rule between rows. -/
def rule (columns : List Nat) : Text :=
  '+' :: columns.flatMap fun w => List.replicate (w + 2) '-' ++ ['+']

/-- A line of a cell, filled up to the width of its column. -/
def pad (columns : Nat) (line : Text) : Text :=
  ' ' :: line ++ List.replicate (columns - width line) ' ' ++ [' ']

/-- One line of a row. -/
def rowLine (columns : List Nat) (row : List (List Text)) (n : Nat) : Text :=
  '|' :: (List.zip columns row).flatMap fun (w, lines) => pad w (lines[n]?.getD []) ++ ['|']

/-- The lines of a row. -/
def rowLines (columns : List Nat) (row : List Text) : List Text :=
  let cells := row.map cellLines
  (List.range ((cells.map List.length).foldl max 0)).map (rowLine columns cells)

/-- The lines of a table. -/
def lines (table : Table) : List Text :=
  let rows := table.header :: table.rows
  let columns := widths table.header.length rows
  rule columns :: rows.flatMap fun row => rowLines columns row ++ [rule columns]

/-- The table as drawn. -/
def render (table : Table) : Text :=
  joinWith ['\n'] table.lines

end Table

end TreeFold
