import Worksheet.Proofs.Canonical
import Worksheet.Proofs.Freezing

/-!
# Histories of an index

An index is edited by taking formulas in and by forgetting cells. In the end a cell
has the formula that was taken in for it last, unless it has been forgotten since,
and all else in the index follows from these formulas. Two histories that leave the
same formulas therefore leave the same index, and the index of a grid follows a value
that is stored in one of its cells.
-/

namespace Worksheet.Dependencies

variable {index other : Dependencies} {edits others : List Edit} {c d r : Cell} {v : Value}

inductive Edit where
  | insert (cell : Cell) (formula : Value)
  | erase (cell : Cell)

namespace Edit

/-- The cell whose entry is edited. -/
def cell : Edit → Cell
  | .insert c _ => c
  | .erase c => c

/-- The edit by which an index follows a value that is stored in a cell. -/
def storing (c : Cell) (v : Value) : Edit :=
  if v.isSimple then .erase c else .insert c v

end Edit

def edit (index : Dependencies) : Edit → Dependencies
  | .insert c formula => index.insert c formula
  | .erase c => index.erase c

/-- The index that edits leave, one after the other, where there was none. -/
def build (edits : List Edit) : Dependencies :=
  edits.foldl edit empty

/-- The value was taken in for the cell, and the cell has not been edited since. -/
def Stands (edits : List Edit) (c : Cell) (v : Value) : Prop :=
  ∃ earlier later, edits = earlier ++ .insert c v :: later ∧ ∀ e ∈ later, e.cell ≠ c

theorem formulas_edit (e : Edit) (c : Cell) (v : Value) :
    (index.edit e).formulas[c]? = some v ↔
      e = .insert c v ∨ e.cell ≠ c ∧ index.formulas[c]? = some v := by
  cases e with
  | insert d formula =>
      rw [edit, formulas_insert, CellMap.getElem?_insert, CellMap.getElem?_erase]
      by_cases h : c = d
      · simp [h, Edit.cell]
      · simp [h, Edit.cell, Ne.symm h]
  | erase d =>
      rw [edit, formulas_erase, CellMap.getElem?_erase]
      by_cases h : c = d
      · simp [h, Edit.cell]
      · simp [h, Edit.cell, Ne.symm h]

theorem not_stands_nil : ¬ Stands [] c v := by
  rintro ⟨earlier, later, heq, -⟩
  simp at heq

theorem stands_concat_iff {e : Edit} :
    Stands (edits ++ [e]) c v ↔ e = .insert c v ∨ e.cell ≠ c ∧ Stands edits c v := by
  constructor
  · rintro ⟨earlier, later, heq, hlater⟩
    rcases List.eq_nil_or_concat later with rfl | ⟨between, last, rfl⟩
    · exact .inl (List.append_inj' heq rfl |>.2 |> List.singleton_inj.mp)
    · rw [List.concat_eq_append, ← List.cons_append, ← List.append_assoc] at heq
      obtain ⟨hedits, hlast⟩ := List.append_inj' heq rfl
      obtain rfl := List.singleton_inj.mp hlast
      exact .inr ⟨hlater e (by simp), earlier, between, hedits, fun d hd => hlater d (by simp [hd])⟩
  · rintro (rfl | ⟨he, earlier, later, rfl, hlater⟩)
    · exact ⟨edits, [], rfl, by simp⟩
    · refine ⟨earlier, later ++ [e], by simp, fun d hd => ?_⟩
      rcases List.mem_append.mp hd with hd | hd
      · exact hlater d hd
      · exact List.mem_singleton.mp hd ▸ he

/-- The formulas of an index are those that stand in its history. -/
theorem formulas_build : (build edits).formulas[c]? = some v ↔ Stands edits c v := by
  induction edits using List.reverseRecOn generalizing c v with
  | nil => simp [build, empty, not_stands_nil]
  | append_singleton edits e ih =>
      rw [build, List.foldl_concat, ← build, formulas_edit, stands_concat_iff, ih]

theorem canonical_edit (h : index.Canonical) (e : Edit) : (index.edit e).Canonical := by
  cases e with
  | insert c formula => exact h.insert c formula
  | erase c => exact h.erase c

theorem canonical_build (edits : List Edit) : (build edits).Canonical := by
  induction edits using List.reverseRecOn with
  | nil => exact canonical_empty
  | append_singleton edits e ih =>
      rw [build, List.foldl_concat, ← build]
      exact canonical_edit ih e

theorem build_eq_of_stands (h : ∀ c v, Stands edits c v ↔ Stands others c v) :
    build edits = build others := by
  apply (canonical_build edits).eq_of_formulas (canonical_build others)
  intro c
  apply Option.ext
  intro v
  rw [formulas_build, formulas_build, h]

namespace Canonical

theorem mem_getD_iff (h : index.Canonical) :
    c ∈ index.readers.getD r ∅ ↔
      ∃ v : Value, index.formulas[c]? = some v ∧ r ∈ v.references := by
  rw [← mem_readersOf, h.coherent.readers, h.coherent.mem_referencesOf_iff]

/-- The set kept for a cell is that of the formula cells that read it. -/
theorem mem_of_readers (h : index.Canonical) {readers : CellSet}
    (hr : index.readers[r]? = some readers) :
    c ∈ readers ↔ ∃ v : Value, index.formulas[c]? = some v ∧ r ∈ v.references := by
  rw [← h.mem_getD_iff, Std.ExtTreeMap.getD_eq_getD_getElem?, hr, Option.getD_some]

/-- A set is kept for a cell exactly if some formula cell reads it. -/
theorem exists_readers_iff (h : index.Canonical) :
    (∃ readers, index.readers[r]? = some readers) ↔
      ∃ (c : Cell) (v : Value), index.formulas[c]? = some v ∧ r ∈ v.references := by
  constructor
  · rintro ⟨readers, hr⟩
    have hne : readers.toList.isEmpty = false := by
      rw [Std.ExtTreeSet.isEmpty_toList, h.occupied r readers hr]
    obtain ⟨c, hc⟩ := List.isEmpty_eq_false_iff_exists_mem.mp hne
    exact ⟨c, (h.mem_of_readers hr).mp (Std.ExtTreeSet.mem_toList.mp hc)⟩
  · rintro ⟨c, hc⟩
    have hmem : c ∈ index.readers.getD r ∅ := h.mem_getD_iff.mpr hc
    rw [Std.ExtTreeMap.getD_eq_getD_getElem?] at hmem
    cases hr : index.readers[r]? with
    | some readers => exact ⟨readers, rfl⟩
    | none => simp [hr] at hmem

end Canonical

/-- Formulas of different cells that are taken in one after the other all stand. -/
theorem stands_map_insert {entries : List (Cell × Value)} (h : (entries.map Prod.fst).Nodup) :
    Stands (entries.map fun entry => .insert entry.1 entry.2) c v ↔ (c, v) ∈ entries := by
  induction entries using List.reverseRecOn with
  | nil => simp [not_stands_nil]
  | append_singleton entries entry ih =>
      obtain ⟨d, w⟩ := entry
      rw [List.map_append, List.nodup_append] at h
      obtain ⟨hentries, -, hfresh⟩ := h
      rw [List.map_append, List.map_singleton, stands_concat_iff, ih hentries, List.mem_append,
        List.mem_singleton]
      simp only [Edit.insert.injEq, Prod.mk.injEq, Edit.cell]
      constructor
      · rintro (⟨rfl, rfl⟩ | ⟨-, hmem⟩)
        · exact .inr ⟨rfl, rfl⟩
        · exact .inl hmem
      · rintro (hmem | ⟨rfl, rfl⟩)
        · have hne : c ≠ d := hfresh c (List.mem_map_of_mem (f := Prod.fst) hmem) d (by simp)
          exact .inr ⟨hne.symm, hmem⟩
        · exact .inl ⟨rfl, rfl⟩

end Worksheet.Dependencies

namespace Worksheet

/-- A single value can be stored wherever there is a cell. -/
theorem Grid.exists_write_single {grid : Grid} {c : Cell} (h : grid.InBounds c) (v : Value) :
    ∃ after, grid.write c [[v]] = .ok after ∧
      ∀ d, after.get? d = if d = c then some v else grid.get? d := by
  have hrows : Block.Rectangular [[v]] 1 1 := ⟨rfl, by simp, by simp⟩
  obtain ⟨block, hwrite, hheight, hwidth, hentry⟩ :=
    write_eq_overlay hrows h (by simpa using h)
  refine ⟨_, hwrite, fun d => ?_⟩
  have hplace : block.get? (d.offset (-c.row) (-c.column)) = if d = c then some v else none := by
    by_cases hd : d = c
    · subst hd
      rw [if_pos rfl]
      simpa [Cell.offset, Block.EntryAt] using (hentry 0 0 v).symm
    · rw [if_neg hd, Block.get?_eq_none_iff]
      intro hin
      obtain ⟨hr, hr', hs, hs'⟩ := hin
      obtain ⟨r, s⟩ := c
      obtain ⟨i, j⟩ := d
      simp only [Cell.offset, hheight, hwidth, Cell.mk.injEq] at hr hr' hs hs' hd
      omega
  rw [get?_overlay, hplace]
  by_cases hd : d = c
  · obtain ⟨w, hw⟩ := Option.isSome_iff_exists.mp (Block.get?_isSome_iff.mpr h)
    simp [hd, hw]
  · simp only [if_neg hd, Option.getD_none]
    cases grid.get? d <;> rfl

namespace Dependencies

/-- The index of a grid follows a value that is stored in one of its cells. -/
theorem edit_storing_ofGrid {grid after : Grid} {c : Cell} {v : Value}
    (hstored : ∀ d, after.get? d = if d = c then some v else grid.get? d) :
    (ofGrid grid).edit (.storing c v) = ofGrid after := by
  apply (canonical_edit (canonical_ofGrid grid) _).eq_of_formulas (canonical_ofGrid after)
  intro d
  apply Option.ext
  intro w
  rw [formulas_edit, formulas_ofGrid, formulas_ofGrid, hstored, Edit.storing]
  by_cases hd : d = c
  · subst hd
    rw [if_pos rfl, Option.some.injEq]
    cases hsimple : v.isSimple with
    | true =>
        have hnot : ¬ (v = w ∧ w.isSimple = false) := by
          rintro ⟨rfl, hformula⟩
          simp [hsimple] at hformula
        simp [Edit.cell, hnot]
    | false =>
        have hiff : v = w ↔ v = w ∧ w.isSimple = false :=
          ⟨fun heq => ⟨heq, heq ▸ hsimple⟩, And.left⟩
        simp only [Bool.false_eq_true, if_false, Edit.insert.injEq, true_and, Edit.cell, ne_eq,
          not_true_eq_false, false_and, or_false]
        exact hiff
  · have hcell : (if v.isSimple then Edit.erase c else .insert c v).cell ≠ d := by
      split <;> exact Ne.symm hd
    have hne : (if v.isSimple then Edit.erase c else .insert c v) ≠ .insert d w := by
      intro heq
      exact hcell (by rw [heq]; rfl)
    simp only [hcell, hne, if_neg hd, ne_eq, not_false_eq_true, true_and, false_or]

/-- An index is determined by the formulas that stand in its history. -/
theorem build_determined (edits : List Edit) :
    (∀ (c : Cell) v, (build edits).formulas[c]? = some v ↔ Stands edits c v) ∧
    (∀ c, c ∈ (build edits).references ↔ c ∈ (build edits).formulas) ∧
    (∀ c : Cell, (build edits).references[c]? =
      (build edits).formulas[c]?.map Value.references) ∧
    (∀ r, r ∈ (build edits).readers ↔
      ∃ (c : Cell) (v : Value), (build edits).formulas[c]? = some v ∧ r ∈ v.references) ∧
    (∀ (r : Cell) (readers : CellSet), (build edits).readers[r]? = some readers →
      readers.isEmpty = false ∧
        ∀ c, c ∈ readers ↔
          ∃ v : Value, (build edits).formulas[c]? = some v ∧ r ∈ v.references) ∧
    (∀ others, (∀ c v, Stands edits c v ↔ Stands others c v) → build edits = build others) ∧
    (∀ entries : List (Cell × Value), (entries.map Prod.fst).Nodup →
      (∀ c v, (c, v) ∈ entries ↔ Stands edits c v) →
        build edits = build (entries.map fun entry => .insert entry.1 entry.2)) ∧
    ∀ (grid : Grid) (c : Cell) (v : Value), build edits = ofGrid grid → grid.InBounds c →
      ∃ after, grid.write c [[v]] = .ok after ∧
        (∀ d, after.get? d = if d = c then some v else grid.get? d) ∧
        (build edits).edit (.storing c v) = ofGrid after := by
  have hcanonical := canonical_build edits
  refine ⟨fun c v => formulas_build, fun c => ?_, hcanonical.coherent.references, fun r => ?_,
    fun r readers hr => ⟨hcanonical.occupied r readers hr, fun c => hcanonical.mem_of_readers hr⟩,
    fun others h => build_eq_of_stands h, fun entries hkeys h => ?_, fun grid c v hgrid hc => ?_⟩
  · rw [← Std.ExtTreeMap.isSome_getElem?_iff_mem, hcanonical.coherent.references,
      Option.isSome_map, Std.ExtTreeMap.isSome_getElem?_iff_mem]
  · rw [← hcanonical.exists_readers_iff, ← Std.ExtTreeMap.isSome_getElem?_iff_mem,
      Option.isSome_iff_exists]
  · exact build_eq_of_stands fun c v => by rw [stands_map_insert hkeys, h]
  · obtain ⟨after, hwrite, hstored⟩ := Grid.exists_write_single hc v
    exact ⟨after, hwrite, hstored, hgrid ▸ edit_storing_ofGrid hstored⟩

/-- A formula that was replaced by one that reads its own cell, and one that was discarded. -/
theorem build_determined_of_replaced :
    build [.insert ⟨0, 1⟩ (.reference ⟨0, 0⟩), .insert ⟨0, 0⟩ (.reference ⟨0, 1⟩),
        .insert ⟨0, 1⟩ (.reference ⟨0, 1⟩), .erase ⟨0, 0⟩] =
      build [.insert ⟨0, 1⟩ (.reference ⟨0, 1⟩)] ∧
    ∃ after, Grid.write (.replicate 1 2 (.simple .null)) ⟨0, 1⟩ [[.reference ⟨0, 1⟩]] = .ok after ∧
      (∀ d, after.get? d = if d = ⟨0, 1⟩ then some (.reference ⟨0, 1⟩)
        else Block.get? (.replicate 1 2 (.simple .null)) d) ∧
      (build []).edit (.storing ⟨0, 1⟩ (.reference ⟨0, 1⟩)) = ofGrid after := by
  constructor
  · refine (build_determined _).2.2.2.2.2.2.1 [(⟨0, 1⟩, .reference ⟨0, 1⟩)] (by simp) fun c v => ?_
    rw [← formulas_build]
    simp only [build, List.foldl_cons, List.foldl_nil, edit, formulas_erase, formulas_insert,
      CellMap.getElem?_erase, CellMap.getElem?_insert, empty]
    grind
  · exact (build_determined []).2.2.2.2.2.2.2 (.replicate 1 2 (.simple .null)) ⟨0, 1⟩ _ (by cbv)
      (by decide)

end Dependencies

end Worksheet
