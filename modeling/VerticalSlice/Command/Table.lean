import VerticalSlice.Text.Search

/-!
# Tables in a frame

A table has a title above it, a row of headings in a heavy frame, and rows of cells in a light one.
Every column is as wide as its widest cell, and the title stands over the middle.
-/

namespace VerticalSlice.Command

/-- A column: its heading, and whether its cells stand to the right. -/
structure Column where
  heading : Text
  toRight : Bool
deriving DecidableEq, Repr

/-- The characters of a line of a frame: at the left end, between columns, and at the right end. -/
structure Frame where
  left : Char
  between : Char
  right : Char

namespace Table

/-- Blanks. -/
def blanks (count : Nat) : Text := List.replicate count ' '

/-- The text with blanks beside it up to the width. -/
def pad (toRight : Bool) (width : Nat) (text : Text) : Text :=
  let space := blanks (width - text.length)
  if toRight then space ++ text else text ++ space

/-- The text over the middle of the width; of an odd number of blanks one more comes behind. -/
def centre (width : Nat) (text : Text) : Text :=
  let before := (width - text.length) / 2
  blanks before ++ pad false (width - before) text

/-- Cells, each with a blank on either side, in a frame. -/
def framed (frame : Frame) (cells : List Text) : Text :=
  [frame.left] ++ Text.joinWith [frame.between] (cells.map fun cell => ' ' :: cell ++ [' ']) ++
    [frame.right]

/-- A line of a frame without cells. -/
def rule (frame : Frame) (stroke : Char) (widths : List Nat) : Text :=
  [frame.left] ++
    Text.joinWith [frame.between] (widths.map fun width => List.replicate (width + 2) stroke) ++
    [frame.right]

/-- The width of each column: that of its heading or of the widest of its cells. -/
def widths (columns : List Column) (rows : List (List Text)) : List Nat :=
  rows.foldl (fun widths row => List.zipWith max widths (row.map List.length))
    (columns.map (·.heading.length))

/-- The cells of a row at the widths of the columns. -/
def fit (columns : List Column) (widths : List Nat) (row : List Text) : List Text :=
  List.zipWith (fun (column, width) cell => pad column.toRight width cell)
    (List.zip columns widths) row

/-- The lines of a table. -/
def lines (title : Text) (columns : List Column) (rows : List (List Text)) : List Text :=
  let widths := widths columns rows
  let top := rule ⟨'┏', '┳', '┓'⟩ '━' widths
  [centre top.length title, top,
    framed ⟨'┃', '┃', '┃'⟩ (fit columns widths (columns.map (·.heading))),
    rule ⟨'┡', '╇', '┩'⟩ '━' widths] ++
  rows.map (fun row => framed ⟨'│', '│', '│'⟩ (fit columns widths row)) ++
  [rule ⟨'└', '┴', '┘'⟩ '─' widths]

theorem length_pad {toRight : Bool} {width : Nat} {text : Text} (h : text.length ≤ width) :
    (pad toRight width text).length = width := by
  cases toRight <;> simp [pad, blanks] <;> omega

end Table

end VerticalSlice.Command
