import Worksheet.Grid
import Worksheet.Value.References

/-!
# Dependencies

The index of a worksheet's formulas: for each formula cell its value and the
cells that it reads, and for each cell that is read the formula cells that
read it. A cell that nothing reads has no entry among the readers, so that
the index is determined by the formulas alone.
-/

namespace Worksheet

structure Dependencies where
  formulas : CellMap Value
  references : CellMap (List Cell)
  readers : CellMap CellSet

namespace Dependencies

def empty : Dependencies :=
  ⟨∅, ∅, ∅⟩

def addReader (reader : Cell) (readers : CellMap CellSet) (cell : Cell) : CellMap CellSet :=
  readers.insert cell ((readers.getD cell ∅).insert reader)

def removeReader (reader : Cell) (readers : CellMap CellSet) (cell : Cell) : CellMap CellSet :=
  match readers[cell]? with
  | none => readers
  | some others =>
      if (others.erase reader).isEmpty then readers.erase cell
      else readers.insert cell (others.erase reader)

/-- Forgets a cell as a formula cell. -/
def erase (index : Dependencies) (cell : Cell) : Dependencies where
  formulas := index.formulas.erase cell
  references := index.references.erase cell
  readers := (index.references.getD cell []).foldl (removeReader cell) index.readers

@[simp] theorem formulas_erase (index : Dependencies) (cell : Cell) :
    (index.erase cell).formulas = index.formulas.erase cell := rfl

@[simp] theorem references_erase (index : Dependencies) (cell : Cell) :
    (index.erase cell).references = index.references.erase cell := rfl

/-- Takes a value in as the formula of a cell, in place of any earlier one. -/
def insert (index : Dependencies) (cell : Cell) (formula : Value) : Dependencies :=
  let cleared := index.erase cell
  { formulas := cleared.formulas.insert cell formula
    references := cleared.references.insert cell formula.references
    readers := formula.references.foldl (addReader cell) cleared.readers }

@[simp] theorem formulas_insert (index : Dependencies) (cell : Cell) (formula : Value) :
    (index.insert cell formula).formulas = (index.formulas.erase cell).insert cell formula := rfl

@[simp] theorem references_insert (index : Dependencies) (cell : Cell) (formula : Value) :
    (index.insert cell formula).references =
      (index.references.erase cell).insert cell formula.references := rfl

/-- The index of the values of a grid that are not simple. -/
def ofGrid (grid : Grid) : Dependencies :=
  grid.toList.foldl
    (fun index (cell, v) => if v.isSimple then index else index.insert cell v) empty

def contains (index : Dependencies) (cell : Cell) : Bool :=
  index.formulas.contains cell

def size (index : Dependencies) : Nat :=
  index.formulas.size

def cells (index : Dependencies) : List Cell :=
  index.formulas.keys

def referencesOf (index : Dependencies) (cell : Cell) : List Cell :=
  index.references.getD cell []

def readersOf (index : Dependencies) (cell : Cell) : List Cell :=
  (index.readers.getD cell ∅).toList

end Dependencies

end Worksheet
