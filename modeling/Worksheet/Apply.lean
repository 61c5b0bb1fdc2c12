import Worksheet.Resolution

/-!
# Element-wise application

A function is applied to the cells of a rectangle and the entries of a
patch, pair by pair. Both operands are resolved over the grid as it was, and
nothing is stored before every result is at hand, so that the whole change
is made or none of it.
-/

namespace Worksheet.Grid

open Resolution

/-- The cells that a patch covers from a start cell on, with its entries. -/
def targets (start : Cell) (patch : Block Value) : List (Cell × Value) :=
  patch.toList.map fun (place, v) => (start.offset place.row place.column, v)

/-- The function on what a cell and a patch entry resolve to, with the memo
that is left. The cell is resolved first. -/
def combineAt (grid : Grid) (f : Function) (cell : Cell) (v : Value) (memo : Memo) :
    Except Failure Simple × Memo :=
  match resolveFrom grid (.reference cell) memo with
  | ⟨.error failure, memo⟩ => (.error failure, memo)
  | ⟨.ok current, memo⟩ =>
      match resolveFrom grid v memo with
      | ⟨.error failure, memo⟩ => (.error failure, memo)
      | ⟨.ok operand, memo⟩ => (f.combine current operand, memo)

/-- The results at all targets in turn. The first failure comes to light at
its target. -/
def combineAll (grid : Grid) (f : Function) :
    List (Cell × Value) → Memo → Except Fault (List (Cell × Simple))
  | [], _ => .ok []
  | (cell, v) :: rest, memo =>
      match combineAt grid f cell v memo with
      | (.error failure, _) => .error (.locatedAt cell failure)
      | (.ok result, memo) =>
          (combineAll grid f rest memo).map fun results => (cell, result) :: results

/-- The grid with simple values stored at some of its cells. -/
def store (grid : Grid) (results : CellMap Simple) : Grid :=
  grid.mapCells fun cell v =>
    match results[cell]? with
    | some value => .simple value
    | none => v

theorem get?_store (grid : Grid) (results : CellMap Simple) (cell : Cell) :
    (grid.store results).get? cell = (grid.get? cell).map fun v =>
      ((results[cell]?).map .simple).getD v := by
  rw [store, Block.get?_mapCells]
  cases results[cell]? <;> rfl

/-- Applies the function of the given name to the rectangle from a start
cell on and a patch. A patch without entries changes nothing, whatever the
name and the start. -/
def applyBlock (grid : Grid) (start : Cell) (name : String) (patch : Block Value) :
    Except Fault Grid :=
  if patch.isEmpty then .ok grid
  else do
    let f ← (Function.named name).mapError .unlocated
    (grid.checkFit start patch).mapError .unlocated
    let results ← combineAll grid f (targets start patch) ∅
    return grid.store (.ofList results)

def apply (grid : Grid) (start : Cell) (name : String) (rows : List (List Value)) :
    Except Fault Grid := do
  grid.applyBlock start name (← Block.ofRows rows)

end Worksheet.Grid
