import Worksheet.Dependencies
import Worksheet.Proofs.Block
import Worksheet.Proofs.Cells
import Worksheet.Proofs.Reach

/-!
# The index of formulas

In a coherent index the readers of a cell are the formula cells that have it
among their references, and these are those of the formula. Taking a formula
in and forgetting one keep the index coherent, so that the index of a grid
says exactly which cell reads which.
-/

namespace Worksheet.Dependencies

variable {index : Dependencies} {c d reader cell : Cell}

theorem mem_getD_addReader {readers : CellMap CellSet} :
    reader ∈ (addReader c readers d).getD cell ∅ ↔
      (reader = c ∧ cell = d) ∨ reader ∈ readers.getD cell ∅ := by
  rw [addReader, CellMap.getD_insert]
  split
  next h => simp only [CellSet.mem_insert_iff, h, and_true]
  next h => simp [h]

theorem mem_getD_foldl_addReader {cells : List Cell} {readers : CellMap CellSet} :
    reader ∈ (cells.foldl (addReader c) readers).getD cell ∅ ↔
      (reader = c ∧ cell ∈ cells) ∨ reader ∈ readers.getD cell ∅ := by
  induction cells generalizing readers with
  | nil => simp
  | cons d cells ih =>
      rw [List.foldl_cons, ih, mem_getD_addReader, List.mem_cons]
      tauto

theorem mem_getD_removeReader {readers : CellMap CellSet} :
    reader ∈ (removeReader c readers d).getD cell ∅ ↔
      reader ∈ readers.getD cell ∅ ∧ ¬ (reader = c ∧ cell = d) := by
  have hgetD : ∀ others : CellSet, readers[d]? = some others → readers.getD d ∅ = others := by
    intro others h
    rw [Std.ExtTreeMap.getD_eq_getD_getElem?, h, Option.getD_some]
  unfold removeReader
  split
  next hnone =>
      have hempty : readers.getD d ∅ = ∅ := by
        rw [Std.ExtTreeMap.getD_eq_getD_getElem?, hnone, Option.getD_none]
      by_cases hcell : cell = d
      · simp [hcell, hempty]
      · simp [hcell]
  next others hsome =>
      split
      next hempty =>
          rw [CellMap.getD_erase]
          split
          next hcell =>
              have herase : reader ∉ others.erase c := by
                simp [Std.ExtTreeSet.isEmpty_iff.mp hempty]
              rw [CellSet.mem_erase_iff] at herase
              rw [hcell, hgetD others hsome]
              simpa [and_comm] using herase
          next hcell => simp [hcell]
      next =>
          rw [CellMap.getD_insert]
          split
          next hcell =>
              rw [hcell, hgetD others hsome, CellSet.mem_erase_iff]
              simp [and_comm]
          next hcell => simp [hcell]

theorem mem_getD_foldl_removeReader {cells : List Cell} {readers : CellMap CellSet} :
    reader ∈ (cells.foldl (removeReader c) readers).getD cell ∅ ↔
      reader ∈ readers.getD cell ∅ ∧ ¬ (reader = c ∧ cell ∈ cells) := by
  induction cells generalizing readers with
  | nil => simp
  | cons d cells ih =>
      rw [List.foldl_cons, ih, mem_getD_removeReader, List.mem_cons]
      tauto

theorem mem_readersOf : reader ∈ index.readersOf cell ↔ reader ∈ index.readers.getD cell ∅ := by
  rw [readersOf, Std.ExtTreeSet.mem_toList]

structure Coherent (index : Dependencies) : Prop where
  references : ∀ c : Cell, index.references[c]? = index.formulas[c]?.map Value.references
  readers : ∀ reader cell, reader ∈ index.readersOf cell ↔ cell ∈ index.referencesOf reader

theorem formulas_foldl_erase {cells : List Cell} (h : c ∉ cells) :
    (cells.foldl erase index).formulas[c]? = index.formulas[c]? := by
  induction cells generalizing index with
  | nil => rfl
  | cons d cells ih =>
      rw [List.mem_cons, not_or] at h
      rw [List.foldl_cons, ih h.2, formulas_erase, CellMap.getElem?_erase, if_neg h.1]

theorem referencesOf_erase :
    (index.erase c).referencesOf reader = if reader = c then [] else index.referencesOf reader := by
  rw [referencesOf, references_erase, CellMap.getD_erase, referencesOf]

theorem referencesOf_insert {formula : Value} :
    (index.insert c formula).referencesOf reader =
      if reader = c then formula.references else index.referencesOf reader := by
  rw [referencesOf, references_insert, CellMap.getD_insert, CellMap.getD_erase, referencesOf]
  split <;> rfl

theorem coherent_empty : empty.Coherent where
  references := by simp [empty]
  readers := by simp [empty, readersOf, referencesOf]

theorem Coherent.erase (h : index.Coherent) (c : Cell) : (index.erase c).Coherent where
  references d := by
    rw [references_erase, formulas_erase, CellMap.getElem?_erase, CellMap.getElem?_erase]
    split
    · rfl
    · exact h.references d
  readers reader cell := by
    rw [mem_readersOf, Dependencies.erase, mem_getD_foldl_removeReader, ← mem_readersOf,
      h.readers, ← Dependencies.erase, referencesOf_erase, ← referencesOf]
    split
    next heq => simp [heq]
    next hne => simp [hne]

theorem Coherent.insert (h : index.Coherent) (c : Cell) (formula : Value) :
    (index.insert c formula).Coherent where
  references d := by
    rw [references_insert, formulas_insert, CellMap.getElem?_insert, CellMap.getElem?_insert]
    split
    · rfl
    · exact (h.erase c).references d
  readers reader cell := by
    have hcleared := (h.erase c).readers reader cell
    rw [mem_readersOf, referencesOf_erase] at hcleared
    rw [mem_readersOf, Dependencies.insert, mem_getD_foldl_addReader, hcleared,
      ← Dependencies.insert, referencesOf_insert]
    split
    next heq => simp [heq]
    next hne => simp [hne]

theorem Coherent.mem_referencesOf_iff (h : index.Coherent) :
    cell ∈ index.referencesOf reader ↔
      ∃ formula, index.formulas[reader]? = some formula ∧ cell ∈ formula.references := by
  rw [referencesOf, Std.ExtTreeMap.getD_eq_getD_getElem?, h.references]
  cases index.formulas[reader]? <;> simp

theorem contains_iff : index.contains c ↔ ∃ formula, index.formulas[c]? = some formula := by
  rw [contains, Std.ExtTreeMap.contains_eq_isSome_getElem?, Option.isSome_iff_exists]

/-- Takes the value of a cell in, if it is a formula. -/
def scan (index : Dependencies) (entry : Cell × Value) : Dependencies :=
  if entry.2.isSimple then index else index.insert entry.1 entry.2

theorem ofGrid_eq_foldl_scan (grid : Grid) : ofGrid grid = grid.toList.foldl scan empty := rfl

/-- What taking a formula in keeps holds after a scan. -/
theorem foldl_scan_of_insert {p : Dependencies → Prop}
    (hinsert : ∀ index c formula, p index → p (index.insert c formula)) (h : p index)
    (entries : List (Cell × Value)) : p (entries.foldl scan index) := by
  induction entries generalizing index with
  | nil => exact h
  | cons entry entries ih =>
      rw [List.foldl_cons, scan]
      split
      · exact ih h
      · exact ih (hinsert index entry.1 entry.2 h)

/-- The scanned entries are those of a grid, which has one value at each cell. -/
theorem formulas_foldl_scan {grid : Grid} {entries : List (Cell × Value)} {v : Value}
    (hindex : ∀ (c : Cell) v, index.formulas[c]? = some v → grid.get? c = some v)
    (hentries : ∀ entry ∈ entries, grid.get? entry.1 = some entry.2) :
    (entries.foldl scan index).formulas[c]? = some v ↔
      index.formulas[c]? = some v ∨ ((c, v) ∈ entries ∧ v.isSimple = false) := by
  induction entries generalizing index with
  | nil => simp
  | cons entry entries ih =>
      obtain ⟨d, w⟩ := entry
      obtain ⟨hd, hrest⟩ := List.forall_mem_cons.mp hentries
      rw [List.foldl_cons, scan]
      split
      next hsimple =>
          rw [ih hindex hrest]
          grind
      next hformula =>
          have hinsert : ∀ (c : Cell) v, (index.insert d w).formulas[c]? = some v ↔
              if c = d then w = v else index.formulas[c]? = some v := by
            intro c v
            rw [formulas_insert, CellMap.getElem?_insert, CellMap.getElem?_erase]
            by_cases hc : c = d
            · simp only [if_pos hc, Option.some.injEq]
            · simp only [if_neg hc]
          rw [ih ?_ hrest, hinsert]
          · grind
          · grind

theorem formulas_ofGrid {grid : Grid} {v : Value} :
    (ofGrid grid).formulas[c]? = some v ↔ grid.get? c = some v ∧ v.isSimple = false := by
  have hentries : ∀ entry ∈ grid.toList, grid.get? entry.1 = some entry.2 :=
    fun _ hentry => Block.mem_toList.mp hentry
  rw [ofGrid_eq_foldl_scan, formulas_foldl_scan (by simp [empty]) hentries]
  simp [empty, Block.mem_toList]

theorem coherent_ofGrid (grid : Grid) : (ofGrid grid).Coherent :=
  foldl_scan_of_insert (fun _ c formula h => h.insert c formula) coherent_empty grid.toList

theorem isSimple_of_mem_references {v : Value} (h : c ∈ v.references) : v.isSimple = false := by
  cases v with
  | simple value => simp at h
  | call function operands => rfl
  | reference cell => rfl

theorem mem_referencesOf_ofGrid {grid : Grid} :
    cell ∈ (ofGrid grid).referencesOf reader ↔ grid.Reads reader cell := by
  rw [(coherent_ofGrid grid).mem_referencesOf_iff]
  constructor
  · rintro ⟨v, hv, hcell⟩
    exact ⟨v, (formulas_ofGrid.mp hv).1, hcell⟩
  · rintro ⟨v, hv, hcell⟩
    exact ⟨v, formulas_ofGrid.mpr ⟨hv, isSimple_of_mem_references hcell⟩, hcell⟩

theorem mem_readersOf_ofGrid {grid : Grid} :
    reader ∈ (ofGrid grid).readersOf cell ↔ grid.Reads reader cell := by
  rw [(coherent_ofGrid grid).readers, mem_referencesOf_ofGrid]

theorem contains_ofGrid {grid : Grid} :
    (ofGrid grid).contains c ↔ ∃ v, grid.get? c = some v ∧ v.isSimple = false := by
  simp only [contains_iff, formulas_ofGrid]

theorem contains_ofGrid_of_reads {grid : Grid} (h : grid.Reads reader cell) :
    (ofGrid grid).contains reader := by
  obtain ⟨v, hv, hcell⟩ := h
  exact contains_ofGrid.mpr ⟨v, hv, isSimple_of_mem_references hcell⟩

end Worksheet.Dependencies
