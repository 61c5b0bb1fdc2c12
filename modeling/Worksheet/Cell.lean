import Std.Data.ExtTreeMap
import Std.Data.ExtTreeSet

/-!
# Cells

A cell is an address: a row and a column, both counted from zero and not
bounded by any grid. Cells are ordered row by row. The order is total and
separates cells, so that sets and maps keyed by cells are determined by
what they contain.
-/

namespace Worksheet

structure Cell where
  row : Int
  column : Int
  deriving DecidableEq, Repr

namespace Cell

instance : Ord Cell :=
  ⟨compareLex (compareOn Cell.row) (compareOn Cell.column)⟩

instance : Std.TransOrd Cell :=
  inferInstanceAs (Std.TransCmp (compareLex (compareOn Cell.row) (compareOn Cell.column)))

theorem compare_eq_eq_iff {a b : Cell} : compare a b = .eq ↔ a = b := by
  obtain ⟨r, c⟩ := a
  obtain ⟨s, d⟩ := b
  change compareLex _ _ _ _ = .eq ↔ _
  simp only [compareLex_eq_eq, compareOn, Std.LawfulEqOrd.compare_eq_iff_eq, Cell.mk.injEq]

instance : Std.LawfulEqOrd Cell where
  eq_of_compare := compare_eq_eq_iff.mp

def precedes (a b : Cell) : Bool :=
  (compare a b).isLE

/-- Row-major order, with repetitions kept. -/
def sort (cells : List Cell) : List Cell :=
  cells.mergeSort precedes

def offset (cell : Cell) (rows columns : Int) : Cell :=
  ⟨cell.row + rows, cell.column + columns⟩

@[simp] theorem offset_zero (cell : Cell) : cell.offset 0 0 = cell := by
  simp [offset]

@[simp] theorem offset_offset (cell : Cell) (r c s d : Int) :
    (cell.offset r c).offset s d = cell.offset (r + s) (c + d) := by
  simp [offset, Int.add_assoc]

/-- The cells of the rectangle with the given corner and extent, row by row. -/
def rectangle (corner : Cell) (rows columns : Nat) : List Cell :=
  (List.range rows).flatMap fun (i : Nat) =>
    (List.range columns).map fun (j : Nat) => corner.offset i j

theorem mem_rectangle {corner cell : Cell} {rows columns : Nat} :
    cell ∈ corner.rectangle rows columns ↔
      corner.row ≤ cell.row ∧ cell.row < corner.row + rows ∧
        corner.column ≤ cell.column ∧ cell.column < corner.column + columns := by
  obtain ⟨r, c⟩ := cell
  simp only [rectangle, List.mem_flatMap, List.mem_range, List.mem_map, offset, Cell.mk.injEq]
  constructor
  · rintro ⟨i, hi, j, hj, hr, hc⟩
    omega
  · rintro ⟨h₁, h₂, h₃, h₄⟩
    exact ⟨(r - corner.row).toNat, by omega, (c - corner.column).toNat, by omega, by omega,
      by omega⟩

end Cell

abbrev CellSet :=
  Std.ExtTreeSet Cell

abbrev CellMap (α : Type) :=
  Std.ExtTreeMap Cell α

end Worksheet
