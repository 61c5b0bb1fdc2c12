import Worksheet.Block
import Worksheet.Value.Reader
import Worksheet.Word

/-!
# Grids

A grid is a block of values. Blocks of values are written into it as they
stand, without being resolved: a block that does not fit is refused and one
without entries changes nothing. A grid is addressed by words, even one
without entries.
-/

namespace Worksheet

abbrev Grid := Block Value

namespace Grid

/-- The bytes that a grid of this shape asks for: eight for an entry, where
an extent of zero is passed over. -/
def demand (rows columns : Int) : Int :=
  8 * max 1 rows * max 1 columns

def blank (rows columns : Int) : Except Fault Grid :=
  if rows < 0 ∨ columns < 0 then .error (Fault.negativeShape rows columns).raised
  else if ¬ FitsWord rows ∨ ¬ FitsWord columns then .error .extentTooLarge
  else if ¬ FitsWord (demand rows columns) then .error .gridTooLarge
  else .ok (Block.replicate rows.toNat columns.toNat (.simple .null))

def ofRows (rows : List (List Value)) : Except Fault Grid :=
  Block.ofRows rows

def readRows (pattern : String) (rows : List (List String)) :
    Except ReadingFault (List (List Value)) :=
  rows.mapM fun row => row.mapM (Value.read pattern)

/-- The grid of cell texts. Their shape is looked at before any is read. -/
def ofText (pattern : String) (rows : List (List String)) : Except Fault Grid := do
  let _ ← Block.shape rows
  ofRows (← (readRows pattern rows).mapError .reading)

/-- The failure of looking for a cell that is not in the grid. -/
def outside (grid : Grid) (cell : Cell) : Failure :=
  (Failure.outOfBounds cell grid.rows grid.columns).raised

theorem outside_eq {grid : Grid} {cell : Cell} (hrow : Numeral.IsWritable cell.row)
    (hcolumn : Numeral.IsWritable cell.column) :
    grid.outside cell = .outOfBounds cell grid.rows grid.columns :=
  Failure.raised_outOfBounds hrow hcolumn

/-- What is said of a cell outside depends on the shape of the grid only. -/
theorem outside_congr {grid other : Grid} (hrows : other.rows = grid.rows)
    (hcolumns : other.columns = grid.columns) (cell : Cell) :
    other.outside cell = grid.outside cell := by
  rw [outside, outside, hrows, hcolumns]

@[simp] theorem outside_ne_cycle (grid : Grid) (cell : Cell) (chain : List Cell) :
    grid.outside cell ≠ .cycle chain := by
  rcases Failure.raised_outOfBounds_cases cell grid.rows grid.columns with h | ⟨cause, h⟩ <;>
    simp [outside, h]

def checkBounds (grid : Grid) (cell : Cell) : Except Failure Unit :=
  if grid.InBounds cell then .ok () else .error (grid.outside cell)

theorem checkBounds_eq_ok_iff {grid : Grid} {cell : Cell} :
    grid.checkBounds cell = .ok () ↔ grid.InBounds cell := by
  unfold checkBounds
  split <;> simp_all

def stored (grid : Grid) (cell : Cell) : Except Failure Value :=
  match grid.get? cell with
  | some v => .ok v
  | none => .error (grid.outside cell)

/-- The grid with the entries of a block laid over it from a start cell. -/
def overlay (grid : Grid) (start : Cell) (block : Block Value) : Grid :=
  grid.mapCells fun cell v => (block.get? (cell.offset (-start.row) (-start.column))).getD v

@[simp] theorem get?_overlay (grid : Grid) (start : Cell) (block : Block Value) (cell : Cell) :
    (grid.overlay start block).get? cell = (grid.get? cell).map fun v =>
      (block.get? (cell.offset (-start.row) (-start.column))).getD v :=
  Block.get?_mapCells ..

/-- The start of a block is checked before the opposite corner. -/
def checkFit (grid : Grid) (start : Cell) (block : Block Value) : Except Failure Unit := do
  grid.checkBounds start
  grid.checkBounds (start.offset (block.rows - 1) (block.columns - 1))

def write (grid : Grid) (start : Cell) (rows : List (List Value)) : Except Fault Grid := do
  let block ← Block.ofRows rows
  if block.isEmpty then return grid
  (grid.checkFit start block).mapError .unlocated
  return grid.overlay start block

def summary (grid : Grid) : String :=
  "<Grid " ++ toString grid.rows ++ "x" ++ toString grid.columns ++ ">"

end Grid

end Worksheet
