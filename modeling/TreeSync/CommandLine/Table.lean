import TreeSync.Text.Blank

/-!
# Tables

Rows of cells in columns two blanks apart.  A column is as wide as its longest
cell in bytes, a cell is padded by characters, and rows have no blanks at their
end.

Main definition: `Table.lines`.
-/

namespace TreeSync

namespace Table

/-- The widths of columns that also hold a row of cells. -/
def widen : List Nat → List String → List Nat
  | width :: widths, cell :: cells => max width cell.utf8ByteSize :: widen widths cells
  | widths, _ => widths

/-- A cell padded to a width. -/
def pad (width : Nat) (cell : String) : List Char :=
  cell.toList ++ List.replicate (width - cell.length) ' '

/-- The cells of a row side by side. -/
def joinCells : List Nat → List String → List Char
  | [width], cell :: _ => pad width cell
  | width :: widths, cell :: cells =>
      match cells with
      | [] => pad width cell
      | cells => pad width cell ++ ' ' :: ' ' :: joinCells widths cells
  | _, _ => []

/-- A row as one line. -/
def row (widths : List Nat) (cells : List String) : String :=
  String.ofList (Blank.trimEnd (joinCells widths cells))

/-- The lines of a table; none if it has no rows. -/
def lines (header : List String) (rows : List (List String)) : List String :=
  let widths := rows.foldl widen (header.map String.utf8ByteSize)
  if rows.isEmpty then [] else (header :: rows).map (row widths)

end Table

end TreeSync
