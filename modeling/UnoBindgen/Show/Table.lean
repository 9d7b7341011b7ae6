import UnoBindgen.Text.Basic

/-!
# Tables and notices

What the program prints for a person: tables with aligned columns, and messages behind a label.
-/

namespace UnoBindgen.Show

/-! ## Tables -/

/-- Whether a character combines with the one before it and takes no room of its own. -/
def isCombining (character : Char) : Bool :=
  let code := character.toNat
  code < 0x20 || (0x7f ≤ code && code < 0xa0) || (0x300 ≤ code && code ≤ 0x36f) ||
    (0x200b ≤ code && code ≤ 0x200f) || (0x20d0 ≤ code && code ≤ 0x20ff) ||
    (0xfe00 ≤ code && code ≤ 0xfe0f) || code == 0xfeff

/-- Whether a character takes the room of two. -/
def isWide (character : Char) : Bool :=
  let code := character.toNat
  (0x1100 ≤ code && code ≤ 0x115f) || (0x2e80 ≤ code && code ≤ 0x303e) ||
    (0x3041 ≤ code && code ≤ 0xa4cf) || (0xac00 ≤ code && code ≤ 0xd7a3) ||
    (0xf900 ≤ code && code ≤ 0xfaff) || (0xfe30 ≤ code && code ≤ 0xfe6f) ||
    (0xff01 ≤ code && code ≤ 0xff60) || (0xffe0 ≤ code && code ≤ 0xffe6) ||
    (0x1f300 ≤ code && code ≤ 0x1f64f) || (0x1f680 ≤ code && code ≤ 0x1f6ff) ||
    (0x1f900 ≤ code && code ≤ 0x1f9ff) || (0x20000 ≤ code && code ≤ 0x3fffd)

/-- How much room a text takes on a line. -/
def displayWidth (text : Text) : Nat :=
  text.foldl
    (fun width character =>
      if isCombining character then width else if isWide character then width + 2 else width + 1)
    0

/-- The room that a cell needs: that of its widest line. -/
def cellWidth (cell : Text) : Nat :=
  (cell.lines.map displayWidth).foldl max 0

/-- The widths of the columns of a table. -/
def columnWidths (rows : List (List Text)) : List Nat :=
  rows.foldl
    (fun widths row =>
      (List.range (max widths.length row.length)).map fun column =>
        max (widths.getD column 0) ((row.map cellWidth).getD column 0))
    []

/-- A text filled up with blanks to a width. -/
def fillUp (width : Nat) (text : Text) : Text :=
  text ++ List.replicate (width - displayWidth text) ' '

/-- A line of a row: the same line of each of its cells. -/
def rowLine (widths : List Nat) (row : List Text) (number : Nat) : Text :=
  let parts :=
    (widths.zip row).map fun (width, cell) => fillUp width (cell.lines.getD number [])
  Text.join " | " parts ++ "\n"

/-- A row, which has as many lines as its tallest cell. -/
def tableRow (widths : List Nat) (row : List Text) : Text :=
  let height := (row.map fun cell => cell.lines.length).foldl max 1
  (List.range height).flatMap (rowLine widths row)

/-- A table with an empty line behind it. -/
def table (rows : List (List Text)) : Text :=
  rows.flatMap (tableRow (columnWidths rows)) ++ "\n"

/-! ## Notices -/

/-- The labels of messages. -/
inductive Label where
  | success
  | warning
  | error
  deriving DecidableEq, Repr

/-- How a label is printed. -/
def Label.text : Label → Text
  | .success => " SUCCESS "
  | .warning => " WARNING "
  | .error => "  ERROR  "

/-- The lines of a message, behind a label or below it. -/
def noticeLines (start : Text) (filler : Text) : List Text → Text
  | [] => []
  | line :: rest => start ++ " " ++ line ++ "\n" ++ noticeLines filler filler rest

/-- A message behind a label. -/
def notice (label : Label) (message : Text) : Text :=
  noticeLines label.text (List.replicate label.text.length ' ') message.lines

end UnoBindgen.Show
