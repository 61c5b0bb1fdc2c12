import Worksheet.Apply

/-!
# Sheets

An undefined number is not equal to itself, so that equality of contents
alone would tell a grid from its own copy. A sheet is a grid that remembers
for each cell the edition in which it was last written. Copies share this
memory: a cell of the same edition in two sheets holds one and the same
entry in both, and one entry counts as equal to itself whatever it holds.
-/

namespace Worksheet

structure Sheet where
  grid : Grid
  /-- The edition of the cells that have not been written since. -/
  first : Nat
  later : CellMap Nat

namespace Sheet

def make (edition : Nat) (grid : Grid) : Sheet :=
  ⟨grid, edition, ∅⟩

def edition (sheet : Sheet) (cell : Cell) : Nat :=
  sheet.later.getD cell sheet.first

/-- The sheet after some of its cells have been written in an edition. -/
def revise (sheet : Sheet) (edition : Nat) (grid : Grid) (written : List Cell) : Sheet :=
  { sheet with
    grid
    later := written.foldl (fun later cell => later.insert cell edition) sheet.later }

/-- The cells that rows of values cover from a start cell on. -/
def covered (start : Cell) (rows : List (List Value)) : List Cell :=
  start.rectangle rows.length (rows.head?.getD []).length

def write (sheet : Sheet) (edition : Nat) (start : Cell) (rows : List (List Value)) :
    Except Fault Sheet :=
  (sheet.grid.write start rows).map fun grid => sheet.revise edition grid (covered start rows)

def apply (sheet : Sheet) (edition : Nat) (start : Cell) (name : String)
    (rows : List (List Value)) : Except Fault Sheet :=
  (sheet.grid.apply start name rows).map fun grid =>
    sheet.revise edition grid (covered start rows)

/-- Whether two sheets hold in a cell the same entry or equal values. -/
def agreesAt (sheet other : Sheet) (cell : Cell) : Bool :=
  match sheet.grid.get? cell, other.grid.get? cell with
  | some v, some w => sheet.edition cell == other.edition cell || v.equals w
  | _, _ => false

def equals (sheet other : Sheet) : Bool :=
  sheet.grid.rows == other.grid.rows && sheet.grid.columns == other.grid.columns &&
    sheet.grid.cells.all (sheet.agreesAt other)

end Sheet

end Worksheet
