import Worksheet.Dependencies.Order

/-!
# Evaluation order by recursion

The order of a depth-first search, said without a stack. The recursion carries the
path of the cells that it is inside of, the innermost first, and the cells that it
has finished, the latest first. It ends because a cell of the path is not entered
again, and there are finitely many formula cells.
-/

namespace Worksheet.Dependencies

/-- The formula cells that are not on the path. -/
def offPath (index : Dependencies) (path : List Cell) : Nat :=
  index.cells.countP fun cell => !path.contains cell

theorem offPath_cons_lt {index : Dependencies} {path : List Cell} {cell : Cell}
    (hcell : index.contains cell) (hpath : cell ∉ path) :
    index.offPath (cell :: path) < index.offPath path := by
  refine countP_lt_countP (x := cell) ?_ ?_ (by simpa using hpath) (by simp)
  · intro c _ hc
    simp at hc ⊢
    exact hc.2
  · simpa [cells, contains] using hcell

mutual

/-- A cell is finished after the cells that it reads, unless it has been finished
before or holds no formula. -/
def descend (index : Dependencies) (path order : List Cell) (cell : Cell) :
    Except (List Cell) (List Cell) :=
  if _ : cell ∈ path then .error (cycleAt path cell)
  else if cell ∈ order then .ok order
  else if _ : index.contains cell then do
    let order ← descendEach index (cell :: path) order (index.referencesOf cell)
    return cell :: order
  else .ok order
termination_by (index.offPath path, 0)
decreasing_by exact .left _ _ (offPath_cons_lt ‹_› ‹_›)

/-- The cells are gone into from left to right, up to the first cycle. -/
def descendEach (index : Dependencies) (path order : List Cell) (cells : List Cell) :
    Except (List Cell) (List Cell) :=
  match cells with
  | [] => .ok order
  | cell :: cells => do
      let order ← descend index path order cell
      descendEach index path order cells
termination_by (index.offPath path, cells.length + 1)
decreasing_by
  · exact .right _ (by simp)
  · exact .right _ (by simp)

end

end Worksheet.Dependencies
