import InertText.Text.Parts

/-!
# Tables drawn with letters

The cells of a line stand between bars, with a blank on either side of a cell. A
drawn table has a frame of box letters, and each of its columns is as wide as the
longest cell in it. Cells are measured in units, so they should hold letters that
are one unit and one column wide.
-/
namespace InertText.Table

def barred (bar : CodeUnit) (cells : List Text) : Text :=
  bar :: cells.flatMap fun cell => unit ' ' :: (cell ++ [unit ' ', bar])

/-- The width of a column. A row may be too short to have a cell in it. -/
def width (rows : List (List Text)) (column : Nat) : Nat :=
  (rows.map fun row => (row[column]?.getD []).length).foldl max 0

/-- The cells of a row, each filled up with blanks to the width of its column. -/
def filled (width : Nat → Nat) (row : List Text) : List Text :=
  row.mapIdx fun column cell => cell ++ List.replicate (width column - cell.length) (unit ' ')

/-- A line of the frame from its left corner to its right one, with a crossing
between columns. -/
def framed (left crossing right : Char) (widths : List Nat) : Text :=
  unit left :: (Text.join [unit crossing]
    (widths.map fun width => List.replicate (width + 2) (unit '─')) ++ [unit right])

/-- The lines of a table with a head, which says how many columns there are. -/
def draw (head : List Text) (rows : List (List Text)) : List Text :=
  let width := width (head :: rows)
  let widths := (List.range head.length).map width
  let line (row : List Text) := barred (unit '│') (filled width row)
  framed '┌' '┬' '┐' widths :: line head :: framed '├' '┼' '┤' widths ::
    (rows.map line ++ [framed '└' '┴' '┘' widths])

end InertText.Table
