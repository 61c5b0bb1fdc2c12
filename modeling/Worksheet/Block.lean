import Worksheet.Fault

/-!
# Rectangular blocks

A block has a fixed number of rows and columns and one entry at each place.
A list of rows makes a block if all rows are as wide as the first. Places
are addressed by cells, counted from the corner of the block; a cell outside
has no entry. Two blocks of one shape with the same entries are equal.
-/

namespace Worksheet

structure Block (α : Type) where
  rows : Nat
  columns : Nat
  entries : Vector (Vector α columns) rows

namespace Block

variable {α β : Type}

def InBounds (block : Block α) (cell : Cell) : Prop :=
  0 ≤ cell.row ∧ cell.row < block.rows ∧ 0 ≤ cell.column ∧ cell.column < block.columns

instance (block : Block α) (cell : Cell) : Decidable (block.InBounds cell) :=
  inferInstanceAs (Decidable (_ ∧ _))

theorem row_lt {block : Block α} {cell : Cell} (h : block.InBounds cell) :
    cell.row.toNat < block.rows := by
  obtain ⟨_, _, _, _⟩ := h
  omega

theorem column_lt {block : Block α} {cell : Cell} (h : block.InBounds cell) :
    cell.column.toNat < block.columns := by
  obtain ⟨_, _, _, _⟩ := h
  omega

def entry (block : Block α) (i : Fin block.rows) (j : Fin block.columns) : α :=
  block.entries[i][j]

theorem entry_mk {rows columns : Nat} (entries : Vector (Vector α columns) rows)
    (i : Fin rows) (j : Fin columns) :
    entry ⟨rows, columns, entries⟩ i j = entries[(i : Nat)][(j : Nat)] := rfl

def get (block : Block α) (cell : Cell) (h : block.InBounds cell) : α :=
  block.entry ⟨cell.row.toNat, row_lt h⟩ ⟨cell.column.toNat, column_lt h⟩

/-- The entry at a cell, if the cell lies in the block. -/
def get? (block : Block α) (cell : Cell) : Option α :=
  if h : block.InBounds cell then some (block.get cell h) else none

@[simp] theorem get?_isSome_iff {block : Block α} {cell : Cell} :
    (block.get? cell).isSome ↔ block.InBounds cell := by
  unfold get?
  split <;> simp_all

theorem get?_eq_none_iff {block : Block α} {cell : Cell} :
    block.get? cell = none ↔ ¬ block.InBounds cell := by
  unfold get?
  split <;> simp_all

def replicate (rows columns : Nat) (value : α) : Block α :=
  ⟨rows, columns, .ofFn fun _ => .replicate columns value⟩

@[ext] theorem ext_get? {block other : Block α} (hr : block.rows = other.rows)
    (hc : block.columns = other.columns) (h : ∀ cell, block.get? cell = other.get? cell) :
    block = other := by
  obtain ⟨rows, columns, entries⟩ := block
  obtain ⟨_, _, others⟩ := other
  obtain rfl : rows = _ := hr
  obtain rfl : columns = _ := hc
  congr
  ext i hi j hj
  have hcell := h ⟨i, j⟩
  simpa [get?, InBounds, get, entry, hi, hj] using hcell

/-- The block with every entry replaced by a function of its cell and itself. -/
def mapCells (block : Block α) (f : Cell → α → β) : Block β :=
  ⟨block.rows, block.columns, .ofFn fun i => .ofFn fun j =>
    f ⟨(i : Nat), (j : Nat)⟩ (block.entry i j)⟩

@[simp] theorem rows_mapCells (block : Block α) (f : Cell → α → β) :
    (block.mapCells f).rows = block.rows := rfl

@[simp] theorem columns_mapCells (block : Block α) (f : Cell → α → β) :
    (block.mapCells f).columns = block.columns := rfl

theorem entry_mapCells {block : Block α} {f : Cell → α → β} (i : Fin block.rows)
    (j : Fin block.columns) :
    (block.mapCells f).entry i j = f ⟨(i : Nat), (j : Nat)⟩ (block.entry i j) := by
  refine (entry_mk _ i j).trans ?_
  rw [Vector.getElem_ofFn, Vector.getElem_ofFn]

theorem get_mapCells {block : Block α} {f : Cell → α → β} {cell : Cell}
    (h : block.InBounds cell) :
    (block.mapCells f).get cell h = f cell (block.get cell h) := by
  obtain ⟨hr, -, hc, -⟩ := id h
  refine (entry_mapCells _ _).trans ?_
  simp [get, Int.toNat_of_nonneg hr, Int.toNat_of_nonneg hc]

@[simp] theorem get?_mapCells (block : Block α) (f : Cell → α → β) (cell : Cell) :
    (block.mapCells f).get? cell = (block.get? cell).map (f cell) := by
  by_cases h : block.InBounds cell
  · have h' : (block.mapCells f).InBounds cell := h
    rw [get?, dif_pos h', get?, dif_pos h, Option.map_some]
    exact congrArg some (get_mapCells h)
  · have h' : ¬ (block.mapCells f).InBounds cell := h
    rw [get?, dif_neg h', get?, dif_neg h, Option.map_none]

/-- Row by row. -/
def cells (block : Block α) : List Cell :=
  Cell.rectangle ⟨0, 0⟩ block.rows block.columns

theorem mem_cells {block : Block α} {cell : Cell} : cell ∈ block.cells ↔ block.InBounds cell := by
  simp only [cells, Cell.mem_rectangle, InBounds]
  omega

def toList (block : Block α) : List (Cell × α) :=
  block.cells.filterMap fun cell => (block.get? cell).map fun entry => (cell, entry)

def toRows (block : Block α) : List (List α) :=
  block.entries.toList.map Vector.toList

/-- The number of rows and columns of a list of rows, none of which may
differ in width from the first. -/
def shape (rows : List (List α)) : Except Fault (Nat × Nat) :=
  match rows with
  | [] => .ok (0, 0)
  | first :: _ =>
      match rows.zipIdx.find? fun (row, _) => row.length != first.length with
      | some (row, i) => .error (.ragged i row.length first.length)
      | none => .ok (rows.length, first.length)

theorem length_of_shape {rows : List (List α)} {m n : Nat} (h : shape rows = .ok (m, n)) :
    rows.length = m ∧ ∀ row ∈ rows, row.length = n := by
  unfold shape at h
  split at h
  · obtain ⟨rfl, rfl⟩ : 0 = m ∧ 0 = n := by simpa using h
    simp
  · next first rest =>
    split at h
    · simp at h
    · next hfind =>
      obtain ⟨rfl, rfl⟩ : (first :: rest).length = m ∧ first.length = n := by simpa using h
      refine ⟨rfl, fun row hrow => ?_⟩
      obtain ⟨i, hi, rfl⟩ := List.getElem_of_mem hrow
      rw [List.find?_eq_none] at hfind
      have hmem : ((first :: rest)[i], i) ∈ (first :: rest).zipIdx :=
        List.mem_zipIdx_iff_getElem?.mpr (List.getElem?_eq_getElem hi)
      simpa using hfind _ hmem

def ofRows (rows : List (List α)) : Except Fault (Block α) :=
  match h : shape rows with
  | .error fault => .error fault
  | .ok (m, n) =>
      .ok ⟨m, n, ⟨(rows.attach.map fun ⟨row, hrow⟩ =>
          (⟨row.toArray, by simpa using (length_of_shape h).2 row hrow⟩ : Vector α n)).toArray,
        by simpa using (length_of_shape h).1⟩⟩

theorem toRows_of_ofRows {rows : List (List α)} {block : Block α} (h : ofRows rows = .ok block) :
    block.toRows = rows := by
  unfold ofRows at h
  split at h
  · simp at h
  · obtain rfl := Except.ok.inj h
    simp [toRows, Vector.toList]

def isEmpty (block : Block α) : Bool :=
  block.rows == 0 || block.columns == 0

end Block

end Worksheet
