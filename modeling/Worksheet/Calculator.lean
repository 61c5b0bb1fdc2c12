import Worksheet.Apply
import Worksheet.Dependencies.Order

/-!
# Calculation

A calculator holds a grid and the index of its formulas. It resolves all
formula cells in evaluation order, and applies patches with a report of the
cells whose resolved values they change: those of the patch and those
downstream of it. Only these are resolved, once before and once after.
-/

namespace Worksheet

/-- A cell whose resolved value has changed; a cell downstream of the patch
comes with its formula. -/
structure Delta where
  cell : Cell
  before : Simple
  after : Simple
  formula : Option Value

structure Report where
  function : String
  start : Cell
  patched : List Cell
  deltas : List Delta

namespace Report

def changed (report : Report) : List Cell :=
  report.deltas.map Delta.cell

def propagated (report : Report) : List Delta :=
  let covered : CellSet := .ofList report.patched
  report.deltas.filter fun delta => !covered.contains delta.cell

def delta? (report : Report) (cell : Cell) : Option Delta :=
  report.deltas.find? fun delta => delta.cell == cell

end Report

/-- Whether two resolved values count as different. Floats of one precision
may lie apart by the tolerance. -/
def Simple.differs (tolerance : Binary64) : Simple → Simple → Bool
  | .float x p, .float y q =>
      p != q || ((x.convert : Binary64).sub y.convert).abs.exceeds tolerance
  | a, b => !a.equals b

structure Calculator where
  grid : Option Grid
  dependencies : Dependencies

namespace Calculator

open Resolution

def empty : Calculator :=
  ⟨none, .empty⟩

def load (grid : Grid) : Calculator :=
  ⟨some grid, .ofGrid grid⟩

def calculate (calculator : Calculator) : Except Fault (List (Cell × Simple)) :=
  match calculator.grid with
  | none => .error .notLoaded
  | some grid => do
      resolveCells grid (← calculator.dependencies.order) ∅

structure Applied where
  grid : Grid
  patched : List Cell
  downstream : List Cell
  before : List (Cell × Simple)

namespace Applied

def watched (applied : Applied) : List Cell :=
  applied.before.map Prod.fst

/-- The changes from the values before to those after, cell by cell. -/
def deltas (applied : Applied) (tolerance : Binary64) (formulas : CellMap Value)
    (after : List (Cell × Simple)) : List Delta :=
  (applied.before.zip after).filterMap fun ((cell, old), (_, new)) =>
    if old.differs tolerance new then
      some ⟨cell, old, new, if applied.downstream.contains cell then formulas[cell]? else none⟩
    else none

end Applied

/-- Resolves what is to be watched and applies a patch. Cells of the patch
that lie outside the grid are not watched. -/
def applyPatch (grid : Grid) (index : Dependencies) (start : Cell) (name : String)
    (rows : List (List Value)) : Except Fault Applied := do
  let patch ← Block.ofRows rows
  let patched := start.rectangle patch.rows patch.columns
  let covered : CellSet := .ofList patched
  let downstream := (← index.downstream patched).filter fun cell => !covered.contains cell
  let watched := patched.filter (grid.InBounds ·) ++ downstream
  let before ← resolveCells grid watched ∅
  let grid ← grid.applyBlock start name patch
  return { grid, patched, downstream, before }

/-- What comes of applying a patch: a report or a fault, the cells that were
written in either case, and the calculator as it is left. -/
structure Recalculation where
  report : Except Fault Report
  written : List Cell
  calculator : Calculator

/-- Applies a patch and reports what it changed. The patch stays applied if
a cell downstream fails to resolve after it; the cells of the patch then
hold simple values and have left the index all the same. -/
def recalculate (calculator : Calculator) (start : Cell) (name : String)
    (rows : List (List Value)) (tolerance : Binary64) : Recalculation :=
  match calculator.grid with
  | none => ⟨.error .notLoaded, [], calculator⟩
  | some grid =>
      match applyPatch grid calculator.dependencies start name rows with
      | .error fault => ⟨.error fault, [], calculator⟩
      | .ok applied =>
          let index := applied.patched.foldl Dependencies.erase calculator.dependencies
          let report := (resolveCells applied.grid applied.watched ∅).map fun after =>
            { function := name
              start
              patched := applied.patched
              deltas := applied.deltas tolerance index.formulas after : Report }
          ⟨report, applied.patched, ⟨some applied.grid, index⟩⟩

/-- The tolerance unless another is given: one millionth. -/
def defaultTolerance : Binary64 :=
  .ofDecimal false 1 6

end Calculator

end Worksheet
