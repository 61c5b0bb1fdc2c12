import Worksheet.Resolution

/-!
# Evaluation by recursion

What a value means over a grid, said without stack and memo. The evaluator
carries the path of the cells that it is inside of, the innermost first, and
goes down into operands and stored values. It ends because a cell of the
path is not entered again, and the grid has finitely many cells.
-/

namespace Worksheet

/-- The cells of the grid that are not on the path. -/
def Grid.offPath (grid : Grid) (path : List Cell) : Nat :=
  grid.cells.countP fun cell => !path.contains cell

theorem Grid.offPath_cons_lt {grid : Grid} {path : List Cell} {cell : Cell}
    (hcell : grid.InBounds cell) (hpath : cell ∉ path) :
    grid.offPath (cell :: path) < grid.offPath path := by
  refine countP_lt_countP (x := cell) ?_ (Block.mem_cells.mpr hcell) (by simpa using hpath)
    (by simp)
  intro c _ hc
  simp at hc ⊢
  exact hc.2

namespace Value

mutual

/-- The simple value that a value stands for inside the cells of a path. -/
def evaluate (grid : Grid) (path : List Cell) : Value → Except Failure Simple
  | .simple value => .ok value
  | .reference cell =>
      match _ : grid.get? cell with
      | none => .error (grid.outside cell)
      | some v =>
          if _ : cell ∈ path then .error (.cycle (cycleAt path cell))
          else evaluate grid (cell :: path) v
  | .call function operands => do
      Function.applyNamed function (← evaluateEach grid path operands)
termination_by v => (grid.offPath path, 2 * v.size)
decreasing_by
  · exact .left _ _ (Grid.offPath_cons_lt (Block.get?_isSome_iff.mp (by simp [*])) ‹_›)
  · exact .right _ (by simp only [size]; omega)

/-- The operands are evaluated from left to right, up to the first failure. -/
def evaluateEach (grid : Grid) (path : List Cell) : List Value → Except Failure (List Simple)
  | [] => .ok []
  | v :: vs => do
      let value ← evaluate grid path v
      let values ← evaluateEach grid path vs
      return value :: values
termination_by vs => (grid.offPath path, 2 * sizeEach vs + 1)
decreasing_by
  · exact .right _ (by simp only [sizeEach]; omega)
  · exact .right _ (by have := size_pos v; simp only [sizeEach]; omega)

end

end Value

end Worksheet
