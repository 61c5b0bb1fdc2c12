import Worksheet.Proofs.Index
import Worksheet.Proofs.Overwriting

/-!
# One index for the formulas of a grid

An index that takes formulas in and forgets them never keeps an empty set of
readers. It is then determined by its formulas, whatever the order in which it
came to hold them: forgetting the cells that have been overwritten with simple
values gives the index of the grid as it is now.
-/

namespace Worksheet.Dependencies

variable {index other : Dependencies} {c d cell : Cell}

/-- No cell is listed as read without a reader. -/
def Occupied (readers : CellMap CellSet) : Prop :=
  ∀ (cell : Cell) (others : CellSet), readers[cell]? = some others → others.isEmpty = false

namespace Occupied

variable {readers : CellMap CellSet}

theorem addReader (h : Occupied readers) (reader cell : Cell) :
    Occupied (addReader reader readers cell) := by
  intro d others hothers
  rw [Dependencies.addReader, CellMap.getElem?_insert] at hothers
  split at hothers
  · obtain rfl := Option.some.inj hothers
    simp
  · exact h d others hothers

theorem removeReader (h : Occupied readers) (reader cell : Cell) :
    Occupied (removeReader reader readers cell) := by
  unfold Dependencies.removeReader
  split
  · exact h
  next kept _ =>
      split
      next =>
          intro d others hothers
          rw [CellMap.getElem?_erase] at hothers
          split at hothers
          · simp at hothers
          · exact h d others hothers
      next hkept =>
          intro d others hothers
          rw [CellMap.getElem?_insert] at hothers
          split at hothers
          · obtain rfl := Option.some.inj hothers
            exact Bool.eq_false_iff.mpr hkept
          · exact h d others hothers

theorem foldl {f : CellMap CellSet → Cell → CellMap CellSet}
    (hf : ∀ readers cell, Occupied readers → Occupied (f readers cell)) (h : Occupied readers)
    (cells : List Cell) : Occupied (cells.foldl f readers) := by
  induction cells generalizing readers with
  | nil => exact h
  | cons cell cells ih => exact ih (hf readers cell h)

/-- The set kept for a cell is the set of its readers, if it has any. -/
theorem getElem?_eq (h : Occupied readers) (cell : Cell) :
    readers[cell]? =
      if (readers.getD cell ∅).isEmpty then none else some (readers.getD cell ∅) := by
  rw [Std.ExtTreeMap.getD_eq_getD_getElem?]
  cases hcell : readers[cell]? with
  | none => simp
  | some others => simp [h cell others hcell]

end Occupied

structure Canonical (index : Dependencies) : Prop where
  coherent : index.Coherent
  occupied : Occupied index.readers

namespace Canonical

theorem erase (h : index.Canonical) (c : Cell) : (index.erase c).Canonical where
  coherent := h.coherent.erase c
  occupied := h.occupied.foldl (fun _ d hreaders => hreaders.removeReader c d) _

theorem insert (h : index.Canonical) (c : Cell) (formula : Value) :
    (index.insert c formula).Canonical where
  coherent := h.coherent.insert c formula
  occupied := (h.erase c).occupied.foldl (fun _ d hreaders => hreaders.addReader c d) _

theorem foldl_erase (h : index.Canonical) (cells : List Cell) :
    (cells.foldl Dependencies.erase index).Canonical := by
  induction cells generalizing index with
  | nil => exact h
  | cons c cells ih => exact ih (h.erase c)

/-- Indices of the same formulas are the same. -/
theorem eq_of_formulas (h : index.Canonical) (hother : other.Canonical)
    (hformulas : ∀ c : Cell, index.formulas[c]? = other.formulas[c]?) : index = other := by
  have hreferences : ∀ c : Cell, index.references[c]? = other.references[c]? := by
    intro c
    rw [h.coherent.references, hother.coherent.references, hformulas]
  have hgetD : ∀ cell : Cell, index.readers.getD cell ∅ = other.readers.getD cell ∅ := by
    intro cell
    apply Std.ExtTreeSet.ext_mem
    intro reader
    rw [← mem_readersOf, ← mem_readersOf, h.coherent.readers, hother.coherent.readers,
      referencesOf, referencesOf, Std.ExtTreeMap.getD_eq_getD_getElem?,
      Std.ExtTreeMap.getD_eq_getD_getElem?, hreferences]
  have hreaders : ∀ cell : Cell, index.readers[cell]? = other.readers[cell]? := by
    intro cell
    rw [h.occupied.getElem?_eq, hother.occupied.getElem?_eq, hgetD]
  obtain ⟨formulas, references, readers⟩ := index
  obtain ⟨_, _, _⟩ := other
  obtain rfl := Std.ExtTreeMap.ext_getElem? hformulas
  obtain rfl := Std.ExtTreeMap.ext_getElem? hreferences
  obtain rfl := Std.ExtTreeMap.ext_getElem? hreaders
  rfl

end Canonical

theorem canonical_empty : empty.Canonical where
  coherent := coherent_empty
  occupied := by simp [Occupied, empty]

theorem canonical_ofGrid (grid : Grid) : (ofGrid grid).Canonical :=
  foldl_scan_of_insert (fun _ c formula h => h.insert c formula) canonical_empty grid.toList

theorem formulas_foldl_erase_of_mem {cells : List Cell} (h : c ∈ cells) :
    (cells.foldl erase index).formulas[c]? = none := by
  induction cells generalizing index with
  | nil => simp at h
  | cons d cells ih =>
      by_cases hc : c ∈ cells
      · exact ih hc
      · obtain rfl : c = d := (List.mem_cons.mp h).resolve_right hc
        rw [List.foldl_cons, formulas_foldl_erase hc, formulas_erase, CellMap.getElem?_erase,
          if_pos rfl]

/-- Cells overwritten with simple values leave the index. -/
theorem foldl_erase_ofGrid {before after : Grid} {changed : List Cell}
    (h : Grid.Overwritten changed before after) :
    changed.foldl erase (ofGrid before) = ofGrid after := by
  apply ((canonical_ofGrid before).foldl_erase changed).eq_of_formulas (canonical_ofGrid after)
  intro c
  apply Option.ext
  intro v
  by_cases hc : c ∈ changed
  · rw [formulas_foldl_erase_of_mem hc, formulas_ofGrid]
    have hnot : ¬ (after.get? c = some v ∧ v.isSimple = false) := by
      rintro ⟨hv, hformula⟩
      simp [h.simple c hc v hv] at hformula
    simp [hnot]
  · rw [formulas_foldl_erase hc, formulas_ofGrid, formulas_ofGrid, h.written.stored c hc]

end Worksheet.Dependencies
