import CursorMachine.Program

/-!
# Listings

A program as a table with one row for each statement: its line in at least four digits, the
statement with every operand, an arrow, and the parameters as they were written. Cells of a column
are padded with spaces to the widest of them and one space more; the last column is not padded.
-/

namespace CursorMachine.CommandLine

namespace Listing

/-- A text filled up on the left with zeros. -/
def zeroPadded (width : Nat) (s : String) : String :=
  String.ofList (List.replicate (width - s.length) '0') ++ s

/-- A text filled up on the right with spaces. -/
def padded (width : Nat) (s : String) : String :=
  s ++ String.ofList (List.replicate (width - s.length) ' ')

/-- The padded cells of a row, and its last cell. -/
structure Row where
  cells : List String
  last : String
  deriving DecidableEq, Repr

/-- The row of a statement. -/
def Row.ofStatement (s : Statement) : Row :=
  { cells := [zeroPadded 4 (toString s.line) ++ ":", s.text, "<="]
    last := "[" ++ ", ".intercalate s.params ++ "]" }

/-- The greatest length of each column. -/
def widths (rows : List Row) : List Nat :=
  rows.foldl (fun ws row ↦ List.zipWith max ws (row.cells.map String.length)) [0, 0, 0]

/-- A row as written, in columns of these widths. -/
def Row.text (widths : List Nat) (row : Row) : String :=
  String.join (List.zipWith (fun w cell ↦ padded (w + 1) cell) widths row.cells) ++ row.last ++ "\n"

end Listing

/-- The listing of a program. An empty line ends it. -/
def listing (p : Program) : String :=
  let rows := p.statements.map Listing.Row.ofStatement
  String.join (rows.map (Listing.Row.text (Listing.widths rows))) ++ "\n"

end CursorMachine.CommandLine
