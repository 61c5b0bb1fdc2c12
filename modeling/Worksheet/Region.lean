import Worksheet.Fault
import Worksheet.Word

/-!
# Regions

A region keeps the values of a rectangle in one list, row after row, with
the extent of the rectangle beside it. Nothing ties the extent to the
length of the list. Rows are cut out of the list as far as it reaches, and
single values are indexed; in both, a negative place counts from the end.
An index has to fit a word.
-/

namespace Worksheet

/-- The place in a list that a bound of a slice stands for. -/
def sliceBound (length : Nat) (bound : Int) : Nat :=
  if bound < 0 then (bound + length).toNat else min bound.toNat length

def slice {α : Type} (values : List α) (start stop : Int) : List α :=
  let first := sliceBound values.length start
  let last := sliceBound values.length stop
  (values.drop first).take (last - first)

/-- The entry at an index, which counts from the end if it is negative. -/
def indexed {α : Type} (values : List α) (index : Int) : Except Fault α :=
  let place := if index < 0 then index + values.length else index
  if ¬ FitsWord index then .error .outsideWord
  else if place < 0 then .error .outsideList
  else
    match values[place.toNat]? with
    | some v => .ok v
    | none => .error .outsideList

structure Region where
  values : List Value
  rows : Int
  columns : Int

namespace Region

def get (region : Region) (row column : Int) : Except Fault Value :=
  if 0 ≤ row ∧ row < region.rows ∧ 0 ≤ column ∧ column < region.columns then
    indexed region.values (row * region.columns + column)
  else .error (Fault.outsideRegion row column region.rows region.columns).raised

def row (region : Region) (row : Int) : List Value :=
  let start := row * region.columns
  slice region.values start (start + region.columns)

/-- The values at an index and at equal steps after it. -/
def strided (values : List Value) (index step : Int) : Nat → Except Fault (List Value)
  | 0 => .ok []
  | count + 1 => do
      let v ← indexed values index
      let rest ← strided values (index + step) step count
      return v :: rest

def column (region : Region) (column : Int) : Except Fault (List Value) :=
  strided region.values column region.columns region.rows.toNat

def toRows (region : Region) : List (List Value) :=
  (List.range region.rows.toNat).map fun (row : Nat) => region.row row

def display (region : Region) : Except DisplayFault (List (List String)) :=
  region.toRows.mapM fun row => row.mapM Value.display

def length (region : Region) : Nat :=
  region.values.length

end Region

end Worksheet
