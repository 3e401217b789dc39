import Coverage.Text.Align

/-!
# Tables and frames

Text in boxes.  A table has a title, a heavy frame around its headers and a light one around its
rows; a column is as wide as its widest cell.  A panel is a light frame around one line.  A sheet
is a table without frames or headers.  Every line ends with a line feed.
-/

namespace Coverage.Render

open Text

/-- The side of its column on which a cell stands. -/
inductive Alignment where
  | left
  | right
deriving DecidableEq, Repr

/-- A cell at its side of a column. -/
def Alignment.apply : Alignment → Nat → String → String
  | left => alignLeft
  | right => alignRight

/-- A column: its header and the side of its cells. -/
structure Column where
  header : String
  alignment : Alignment := .left
deriving DecidableEq, Repr

/-- A table.  A row has a cell for every column. -/
structure Table where
  title : String
  columns : List Column
  rows : List (List String)
deriving DecidableEq, Repr

/-- A line of text. -/
def textLine (text : String) : String :=
  text ++ "\n"

/-- So many copies of a character. -/
def bar (c : Char) (count : Nat) : String :=
  String.ofList (List.replicate count c)

/-! ## Framed lines -/

/-- The widths of columns: each is that of its widest text. -/
def widths (texts : List (List String)) (columns : Nat) : List Nat :=
  (List.range columns).map fun i =>
    (texts.map fun row => (row[i]?.map String.length).getD 0).foldl max 0

/-- A line of a frame, with a corner at either end and a joint between columns. -/
def rule (first dash joint last : Char) (widths : List Nat) : String :=
  let spans := widths.map fun w => bar dash (w + 2)
  textLine (bar first 1 ++ (bar joint 1).intercalate spans ++ bar last 1)

/-- A line of cells between bars. -/
def cells (side : Char) (texts : List String) : String :=
  let padded := texts.map fun text => " " ++ text ++ " "
  textLine (bar side 1 ++ (bar side 1).intercalate padded ++ bar side 1)

namespace Table

/-- The cells of a row, each at its side of its column. -/
def align (table : Table) (widths : List Nat) (row : List String) : List String :=
  (row.zip (table.columns.zip widths)).map fun (text, column, width) =>
    column.alignment.apply width text

/-- The headers of the columns. -/
def headers (table : Table) : List String :=
  table.columns.map (·.header)

/-- The widths of the columns. -/
def columnWidths (table : Table) : List Nat :=
  widths (table.headers :: table.rows) table.columns.length

/-- The lines of a table.  Its title stands in the middle of its width. -/
def render (table : Table) : String :=
  let widths := table.columnWidths
  let width := widths.foldl (fun sum w => sum + (w + 3)) 1
  textLine (alignCenter width table.title)
    ++ rule '┏' '━' '┳' '┓' widths
    ++ cells '┃' (table.align widths table.headers)
    ++ rule '┡' '━' '╇' '┩' widths
    ++ String.join (table.rows.map fun row => cells '│' (table.align widths row))
    ++ rule '└' '─' '┴' '┘' widths

end Table

/-! ## Panels and sheets -/

/-- A line in a frame. -/
def panel (text : String) : String :=
  rule '╭' '─' '─' '╮' [text.length] ++ cells '│' [text]
    ++ rule '╰' '─' '─' '╯' [text.length]

/-- Rows of labels and values in two columns. -/
def sheet (rows : List (String × String)) : String :=
  let labelWidth := (rows.map (·.1.length)).foldl max 0
  let valueWidth := (rows.map (·.2.length)).foldl max 0
  String.join (rows.map fun (label, value) =>
    textLine (" " ++ alignLeft labelWidth label ++ "  " ++ alignLeft valueWidth value ++ " "))

end Coverage.Render
