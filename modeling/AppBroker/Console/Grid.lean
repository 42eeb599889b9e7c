import AppBroker.Console.Markup
import AppBroker.Text.Width

/-!
# Grids

A grid has a title, headers and rows, and is printed in a frame that is heavy around the headers.
Every cell is text with markup. A column is as wide as its widest cell, and the title stands in the
middle above the frame. A cell with several lines makes its row as high.
-/

namespace AppBroker.Console

/-- A table for the screen. -/
structure Grid where
  title : String
  headers : List String
  rows : List (List String)
  deriving Repr

namespace Grid

/-- A cell by its lines. -/
abbrev Cell := List (List Char)

/-- A cell of a text with markup. -/
def cellOf (s : String) : Outcome Cell := do
  return (← Markup.render s).splitOn '\n'

/-- A row of cells. -/
def cellsOf (row : List String) : Outcome (List Cell) := row.mapM cellOf

/-- How wide each column is. -/
def widths (rows : List (List Cell)) (columns : Nat) : List Nat :=
  (List.range columns).map fun i =>
    (rows.flatMap fun row => (row.getD i []).map Text.width).foldl max 0

/-- The strokes of a horizontal line of the frame. -/
structure Rule where
  left : Char
  fill : Char
  middle : Char
  right : Char

/-- Above the headers. -/
def topRule : Rule := ⟨'┏', '━', '┳', '┓'⟩

/-- Between the headers and the rows. -/
def headRule : Rule := ⟨'┡', '━', '╇', '┩'⟩

/-- Below the rows. -/
def footRule : Rule := ⟨'└', '─', '┴', '┘'⟩

/-- A horizontal line of the frame. -/
def Rule.draw (r : Rule) (widths : List Nat) : List Char :=
  r.left :: [r.middle].intercalate (widths.map fun w => List.replicate (w + 2) r.fill) ++ [r.right]

/-- A line of a cell, filled up to a width. -/
def padded (w : Nat) (line : List Char) : List Char :=
  ' ' :: line ++ List.replicate (w - Text.width line + 1) ' '

/-- The lines of a row between upright strokes. -/
def drawRow (stroke : Char) (widths : List Nat) (row : List Cell) : List (List Char) :=
  let height := (row.map List.length).foldl max 1
  (List.range height).map fun k =>
    let lines := (row.zip widths).map fun (cell, w) => padded w (cell.getD k [])
    stroke :: [stroke].intercalate lines ++ [stroke]

/-- The title in the middle of a width. -/
def drawTitle (total : Nat) (title : List Char) : List Char :=
  List.replicate ((total - Text.width title) / 2) ' ' ++ title

/-- The lines of a grid. -/
def draw (g : Grid) : Outcome (List (List Char)) := do
  let title ← Markup.render g.title
  let headers ← cellsOf g.headers
  let rows ← g.rows.mapM cellsOf
  let widths := widths (headers :: rows) g.headers.length
  let frame := topRule.draw widths
  return [drawTitle frame.length title, frame] ++ drawRow '┃' widths headers
    ++ [headRule.draw widths] ++ rows.flatMap (drawRow '│' widths) ++ [footRule.draw widths]

end Grid

end AppBroker.Console
