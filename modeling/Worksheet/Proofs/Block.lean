import Worksheet.Block

/-!
# Entries of blocks

A block lists each of its entries with the cell at which it stands. Writing
into some of its cells leaves its shape and its other entries as they are.
Rows make a block, with an entry at each place, exactly if they are
rectangular; otherwise the first row of another width than the top is at fault.
-/

namespace Worksheet.Block

variable {α : Type} {block : Block α} {rows : List (List α)} {m n i j : Nat}

theorem mem_toList {cell : Cell} {a : α} :
    (cell, a) ∈ block.toList ↔ block.get? cell = some a := by
  simp only [toList, List.mem_filterMap, mem_cells, Option.map_eq_some_iff, Prod.mk.injEq]
  constructor
  · rintro ⟨c, -, b, hb, rfl, rfl⟩
    exact hb
  · intro h
    exact ⟨cell, get?_isSome_iff.mp (by simp [h]), a, h, rfl, rfl⟩

/-- One block comes from another by writing into the given cells. -/
structure WrittenAt (changed : List Cell) (before after : Block α) : Prop where
  rows : after.rows = before.rows
  columns : after.columns = before.columns
  stored : ∀ c, c ∉ changed → after.get? c = before.get? c

theorem WrittenAt.refl (changed : List Cell) (block : Block α) : WrittenAt changed block block :=
  ⟨rfl, rfl, fun _ _ => rfl⟩

/-- The entry at a place in a list of rows. -/
def EntryAt (rows : List (List α)) (i j : Nat) (a : α) : Prop :=
  ∃ row, rows[i]? = some row ∧ row[j]? = some a

/-- All rows are equally wide. Where there are none there is no width either. -/
structure Rectangular (rows : List (List α)) (m n : Nat) : Prop where
  length : rows.length = m
  width : ∀ row ∈ rows, row.length = n
  empty : m = 0 → n = 0

/-- The first row that is not as wide as the row at the top. -/
structure RaggedAt (rows : List (List α)) (i width expected : Nat) : Prop where
  top : ∃ first, rows.head? = some first ∧ first.length = expected
  row : ∃ row, rows[i]? = some row ∧ row.length = width
  differs : width ≠ expected
  before : ∀ k < i, ∀ row, rows[k]? = some row → row.length = expected

theorem RaggedAt.shape_eq {width expected : Nat} (h : RaggedAt rows i width expected) :
    shape rows = .error (.ragged i width expected) := by
  obtain ⟨first, hfirst, rfl⟩ := h.top
  obtain ⟨row, hrow, rfl⟩ := h.row
  obtain ⟨rest, rfl⟩ := List.head?_eq_some_iff.mp hfirst
  have hfind : (first :: rest).zipIdx.find? (fun entry => entry.1.length != first.length) =
      some (row, i) := by
    rw [List.find?_eq_some_iff_getElem]
    obtain ⟨hi, hget⟩ := List.getElem?_eq_some_iff.mp hrow
    refine ⟨by simpa using h.differs, i, by simpa using hi, ?_, fun k hk => ?_⟩
    · rw [List.getElem_zipIdx, hget, Nat.zero_add]
    · have hlt : k < (first :: rest).length := Nat.lt_trans hk hi
      have hwidth := h.before k hk _ (List.getElem?_eq_getElem hlt)
      rw [List.getElem_zipIdx]
      simpa using hwidth
  rw [shape]
  split
  next other k hother =>
      obtain ⟨rfl, rfl⟩ := Prod.mk.inj (Option.some.inj (hother.symm.trans hfind))
      rfl
  next hnone => exact absurd (hnone.symm.trans hfind) (Option.some_ne_none _).symm

theorem Rectangular.shape_eq (h : Rectangular rows m n) : shape rows = .ok (m, n) := by
  cases rows with
  | nil =>
      obtain rfl : 0 = m := h.length
      rw [h.empty rfl]
      rfl
  | cons first rest =>
      have hwidth : ∀ row ∈ first :: rest, row.length = first.length := fun row hrow =>
        (h.width row hrow).trans (h.width first List.mem_cons_self).symm
      have hfind : (first :: rest).zipIdx.find? (fun entry => entry.1.length != first.length) =
          none := by
        rw [List.find?_eq_none]
        rintro ⟨row, k⟩ hrow
        have hmem : row ∈ first :: rest :=
          List.mem_of_getElem? (List.mem_zipIdx_iff_getElem?.mp hrow)
        simpa using hwidth row hmem
      rw [shape]
      split
      next hsome => exact absurd (hfind.symm.trans hsome) (Option.some_ne_none _).symm
      next => rw [h.length, h.width first List.mem_cons_self]

/-- Rows are rectangular, or one of them is the first that is not. -/
theorem rectangular_or_ragged (rows : List (List α)) :
    (∃ m n, Rectangular rows m n) ∨ ∃ i width expected, RaggedAt rows i width expected := by
  cases rows with
  | nil => exact .inl ⟨0, 0, rfl, by simp, fun _ => rfl⟩
  | cons first rest =>
      cases hfind : (first :: rest).findIdx? fun row => row.length != first.length with
      | none =>
          refine .inl ⟨_, first.length, rfl, fun row hrow => ?_, by simp⟩
          simpa using List.findIdx?_eq_none_iff.mp hfind row hrow
      | some i =>
          obtain ⟨hi, hrow, hbefore⟩ := List.findIdx?_eq_some_iff_getElem.mp hfind
          refine .inr ⟨i, _, first.length, ⟨first, rfl, rfl⟩,
            ⟨_, List.getElem?_eq_getElem hi, rfl⟩, by simpa using hrow, fun k hk row hget => ?_⟩
          obtain ⟨hlt, rfl⟩ := List.getElem?_eq_some_iff.mp hget
          simpa using hbefore k hk

theorem ofRows_eq_error {fault : Fault} (h : shape rows = .error fault) :
    ofRows rows = .error fault := by
  unfold ofRows
  split <;> simp_all

theorem entryAt_toRows {a : α} : EntryAt block.toRows i j a ↔ block.get? ⟨i, j⟩ = some a := by
  obtain ⟨m, n, entries⟩ := block
  have hplace : InBounds ⟨m, n, entries⟩ ⟨i, j⟩ ↔ i < m ∧ j < n := by
    simp only [InBounds]
    omega
  by_cases hij : i < m ∧ j < n
  · obtain ⟨hi, hj⟩ := hij
    simp [EntryAt, toRows, get?, hplace, get, entry_mk, hi, hj]
  · have hget : get? ⟨m, n, entries⟩ ⟨i, j⟩ = none :=
      get?_eq_none_iff.mpr fun h => hij (hplace.mp h)
    rw [hget]
    simp only [reduceCtorEq, iff_false]
    rintro ⟨row, hrow, ha⟩
    obtain ⟨line, hline, rfl⟩ : ∃ line, entries[i]? = some line ∧ line.toList = row := by
      simpa [toRows] using hrow
    obtain ⟨hi, -⟩ := Vector.getElem?_eq_some_iff.mp hline
    obtain ⟨hj, -⟩ := List.getElem?_eq_some_iff.mp ha
    exact hij ⟨hi, by simpa using hj⟩

/-- Whatever stands in a block that was made of rows stands in one of the rows. -/
theorem exists_mem_of_ofRows (h : ofRows rows = .ok block) {cell : Cell} {a : α}
    (ha : block.get? cell = some a) : ∃ row ∈ rows, a ∈ row := by
  obtain ⟨i, j⟩ := cell
  obtain ⟨hi, -, hj, -⟩ := get?_isSome_iff.mp (Option.isSome_of_eq_some ha)
  obtain ⟨i, rfl⟩ := Int.eq_ofNat_of_zero_le hi
  obtain ⟨j, rfl⟩ := Int.eq_ofNat_of_zero_le hj
  rw [← toRows_of_ofRows h]
  obtain ⟨row, hrow, hentry⟩ := entryAt_toRows.mpr ha
  exact ⟨row, List.mem_of_getElem? hrow, List.mem_of_getElem? hentry⟩

theorem shape_of_ofRows (h : ofRows rows = .ok block) :
    shape rows = .ok (block.rows, block.columns) := by
  unfold ofRows at h
  split at h
  · simp at h
  next hshape =>
      obtain rfl := Except.ok.inj h
      exact hshape

theorem rectangular_of_ofRows (h : ofRows rows = .ok block) :
    Rectangular rows block.rows block.columns := by
  have hshape := shape_of_ofRows h
  rcases rectangular_or_ragged rows with ⟨m, n, hrows⟩ | ⟨i, width, expected, hragged⟩
  · obtain ⟨rfl, rfl⟩ := Prod.mk.inj (Except.ok.inj (hrows.shape_eq.symm.trans hshape))
    exact hrows
  · simp [hragged.shape_eq] at hshape

/-- Every cell that rows cover from a start on has an entry. -/
theorem Rectangular.exists_entryAt (h : Rectangular rows m n) {start cell : Cell}
    (hcell : cell ∈ start.rectangle m n) :
    ∃ i j a, EntryAt rows i j a ∧ start.offset i j = cell := by
  obtain ⟨r, c⟩ := cell
  obtain ⟨hr, hr', hc, hc'⟩ := Cell.mem_rectangle.mp hcell
  dsimp only at hr hr' hc hc'
  have hi : (r - start.row).toNat < rows.length := by
    rw [h.length]
    omega
  have hj : (c - start.column).toNat < rows[(r - start.row).toNat].length := by
    rw [h.width _ (List.getElem_mem hi)]
    omega
  refine ⟨_, _, _, ⟨_, List.getElem?_eq_getElem hi, List.getElem?_eq_getElem hj⟩, ?_⟩
  simp only [Cell.offset, Cell.mk.injEq]
  omega

theorem Rectangular.lt_of_entryAt (h : Rectangular rows m n) {a : α} (ha : EntryAt rows i j a) :
    i < m ∧ j < n := by
  obtain ⟨row, hrow, hentry⟩ := ha
  obtain ⟨hi, rfl⟩ := List.getElem?_eq_some_iff.mp hrow
  obtain ⟨hj, -⟩ := List.getElem?_eq_some_iff.mp hentry
  rw [h.width _ (List.getElem_mem _)] at hj
  exact ⟨h.length ▸ hi, hj⟩

/-- Between two corners inside a block all cells are inside. -/
theorem inBounds_offset {start : Cell} (hstart : block.InBounds start)
    (hlast : block.InBounds (start.offset m n)) (hi : i ≤ m) (hj : j ≤ n) :
    block.InBounds (start.offset i j) := by
  obtain ⟨hrow, -, hcolumn, -⟩ := hstart
  obtain ⟨-, hrow', -, hcolumn'⟩ := hlast
  simp only [Cell.offset] at hrow' hcolumn'
  refine ⟨?_, ?_, ?_, ?_⟩ <;> simp only [Cell.offset] <;> omega

theorem Rectangular.exists_ofRows (h : Rectangular rows m n) :
    ∃ block, ofRows rows = .ok block ∧ block.rows = m ∧ block.columns = n ∧
      block.toRows = rows := by
  cases hblock : ofRows rows with
  | error fault =>
      unfold ofRows at hblock
      split at hblock <;> simp_all [h.shape_eq]
  | ok block =>
      have hshape : Except.ok (block.rows, block.columns) = Except.ok (m, n) :=
        (shape_of_ofRows hblock).symm.trans h.shape_eq
      obtain ⟨hrows, hcolumns⟩ := Prod.mk.inj (Except.ok.inj hshape)
      exact ⟨block, rfl, hrows, hcolumns, toRows_of_ofRows hblock⟩

end Worksheet.Block
