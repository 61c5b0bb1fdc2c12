import Worksheet.Calculator
import Worksheet.Proofs.Apply
import Worksheet.Proofs.Downstream

/-!
# Recalculation

Over the index of its grid, a calculator reports exactly the cells that would
be found to differ if the whole grid was resolved before and after the patch
is applied. Cells that are neither patched nor downstream of the patch need
not be looked at, and those that are looked at are resolved on their own.
-/

namespace Worksheet

open Relation (TransGen)
open Resolution

namespace Binary

variable {f : BinaryFormat}

theorem abs_zero (negative : Bool) : (zero negative : Binary f).abs = zero false := by
  unfold zero ofRank
  split <;> rfl

theorem sub_self (x : Binary f) : x.sub x = .nan ∨ x.sub x = zero false := by
  cases x with
  | nan => exact .inl rfl
  | infinite negative => exact .inl (by cases negative <;> rfl)
  | finite negative rank =>
      have hsum : f.signedUnits negative rank + f.signedUnits (!negative) rank = 0 := by
        cases negative with
        | false => exact Int.add_right_neg _
        | true => exact Int.add_left_neg _
      right
      simp [sub, negate, add, hsum]

end Binary

/-- A value lies apart from itself by no more than nothing. -/
theorem Simple.differs_self {tolerance : Binary64}
    (h : (Binary.zero false : Binary64).exceeds tolerance = false) (x : Simple) :
    x.differs tolerance x = false := by
  cases x with
  | float x precision =>
      rcases Binary.sub_self (x.convert : Binary64) with hsub | hsub
      · simp [differs, hsub, Binary.abs, Binary.exceeds, Binary.place?]
      · simp [differs, hsub, Binary.abs_zero, h]
  | _ => simp [differs, equals]

/-- The change at a cell from one grid to another, if it resolves in both and
to different values. -/
def Delta.between? (before after : Grid) (tolerance : Binary64) (formula : Option Value)
    (cell : Cell) : Option Delta :=
  match (Value.reference cell).resolve before, (Value.reference cell).resolve after with
  | .ok old, .ok new =>
      if old.differs tolerance new then some ⟨cell, old, new, formula⟩ else none
  | _, _ => none

theorem Delta.between?_eq_some_iff {before after : Grid} {tolerance : Binary64}
    {formula : Option Value} {cell : Cell} {delta : Delta} :
    between? before after tolerance formula cell = some delta ↔
      delta.cell = cell ∧ delta.formula = formula ∧
        (Value.reference cell).resolve before = .ok delta.before ∧
        (Value.reference cell).resolve after = .ok delta.after ∧
        delta.before.differs tolerance delta.after := by
  obtain ⟨c, x, y, v⟩ := delta
  unfold between?
  grind

namespace Report

/-- Every change is one between what its cell resolves to in the two grids. -/
def Sound (report : Report) (before after : Grid) (tolerance : Binary64) : Prop :=
  ∀ delta ∈ report.deltas,
    (Value.reference delta.cell).resolve before = .ok delta.before ∧
      (Value.reference delta.cell).resolve after = .ok delta.after ∧
      delta.before.differs tolerance delta.after

/-- The report of a patch says which cells of the whole grid have changed. The
cells of the patch come first, row by row, and no cell before one it reads. -/
structure Exact (report : Report) (before after : Grid) (tolerance : Binary64) : Prop where
  changed : ∀ c, c ∈ report.changed ↔
    ∃ old new, (Value.reference c).resolve before = .ok old ∧
      (Value.reference c).resolve after = .ok new ∧ old.differs tolerance new
  untouched : ∀ c, c ∉ report.patched → (∀ d ∈ report.patched, ¬ TransGen before.Reads c d) →
    (Value.reference c).resolve after = (Value.reference c).resolve before
  once : report.changed.Nodup
  formula_patched : ∀ delta ∈ report.deltas, delta.cell ∈ report.patched → delta.formula = none
  formula_propagated : ∀ delta ∈ report.deltas, delta.cell ∉ report.patched →
    ∃ v, delta.formula = some v ∧ before.get? delta.cell = some v ∧
      after.get? delta.cell = some v ∧ v.isSimple = false
  order : ∃ direct propagated, report.changed = direct ++ propagated ∧
    (∀ c ∈ direct, c ∈ report.patched) ∧ direct.Pairwise (fun c d => compare c d = .lt) ∧
    (∀ c ∈ propagated, c ∉ report.patched) ∧
    propagated.Pairwise fun earlier later => ¬ TransGen before.Reads earlier later

end Report

theorem sublist_map_filterMap {α β : Type} {f : α → Option β} {g : β → α}
    (h : ∀ x y, f x = some y → g y = x) (xs : List α) : ((xs.filterMap f).map g).Sublist xs := by
  induction xs with
  | nil => simp
  | cons x xs ih =>
      cases hx : f x with
      | none => simpa [hx] using ih.cons x
      | some y => simpa [hx, h x y hx] using ih

namespace Calculator

variable {before after : Grid} {tolerance : Binary64}

theorem Applied.deltas_eq_filterMap {applied : Applied} {watched : List Cell}
    {formulas : CellMap Value} {entries : List (Cell × Simple)}
    (hbefore : List.Forall₂ (fun cell entry => entry.1 = cell ∧
      (Value.reference cell).resolve before = .ok entry.2) watched applied.before)
    (hafter : List.Forall₂ (fun cell entry => entry.1 = cell ∧
      (Value.reference cell).resolve after = .ok entry.2) watched entries) :
    applied.deltas tolerance formulas entries = watched.filterMap fun cell =>
      Delta.between? before after tolerance
        (if applied.downstream.contains cell then formulas[cell]? else none) cell := by
  -- Both lists of entries follow the watched cells, so that the zip pairs like with like.
  unfold deltas
  generalize applied.before = olds at hbefore
  induction hbefore generalizing entries with
  | nil => simp
  | @cons cell old watched olds hold _ ih =>
      cases hafter with
      | @cons _ new _ news hnew hrest =>
          obtain ⟨c, x⟩ := old
          obtain ⟨d, y⟩ := new
          obtain ⟨rfl, hx⟩ := hold
          obtain ⟨rfl, hy⟩ := hnew
          rw [List.zip_cons_cons, List.filterMap_cons, List.filterMap_cons, ih hrest]
          simp only [Delta.between?, hx, hy]

/-- The cells that are looked at: those of the patch that lie in the grid, and
the others downstream of it. -/
def watchedCells (grid : Grid) (patched readers : List Cell) : List Cell :=
  patched.filter (grid.InBounds ·) ++ readers.filter (· ∉ patched)

theorem filter_not_covered (patched cells : List Cell) :
    cells.filter (fun cell => !(Std.ExtTreeSet.ofList patched : CellSet).contains cell) =
      cells.filter (· ∉ patched) := by
  refine List.filter_congr fun cell _ => ?_
  rw [Bool.eq_iff_iff, Bool.not_eq_true', ← Bool.not_eq_true, CellSet.contains_ofList_iff,
    decide_eq_true_iff]

/-- The formula that a change at a cell is reported with. -/
def reportedFormula (index : Dependencies) (patched readers : List Cell) (cell : Cell) :
    Option Value :=
  if cell ∈ readers ∧ cell ∉ patched then
    (patched.foldl Dependencies.erase index).formulas[cell]?
  else none

/-- What has been done where there is a report. The report lists the changes at
the cells that were looked at. -/
structure Recalculated (index : Dependencies) (before after : Grid) (start : Cell) (name : String)
    (patch : Block Value) (tolerance : Binary64) (readers : List Cell) (report : Report) :
    Prop where
  downstream : index.downstream report.patched = .ok readers
  applied : before.applyBlock start name patch = .ok after
  patched : report.patched = start.rectangle patch.rows patch.columns
  deltas : report.deltas = (watchedCells before report.patched readers).filterMap fun cell =>
    Delta.between? before after tolerance
      (reportedFormula index report.patched readers cell) cell

/-- A patch is applied in four steps, each of which may fail. -/
theorem applyPatch_eq_ok_iff {index : Dependencies} {start : Cell} {name : String}
    {rows : List (List Value)} {applied : Applied} :
    applyPatch before index start name rows = .ok applied ↔
      ∃ patch readers entries after, Block.ofRows rows = .ok patch ∧
        index.downstream (start.rectangle patch.rows patch.columns) = .ok readers ∧
        resolveCells before
          (watchedCells before (start.rectangle patch.rows patch.columns) readers) ∅ =
            .ok entries ∧
        before.applyBlock start name patch = .ok after ∧
        applied = ⟨after, start.rectangle patch.rows patch.columns,
          readers.filter (· ∉ start.rectangle patch.rows patch.columns), entries⟩ := by
  simp only [applyPatch, Except.bind_eq_ok_iff, Except.pure_eq_ok, Except.ok.injEq,
    filter_not_covered, watchedCells, @eq_comm _ _ applied]
  grind

section Step

variable {calculator : Calculator} {start : Cell} {name : String} {rows : List (List Value)}

theorem recalculate_of_error {fault : Fault} (hgrid : calculator.grid = some before)
    (h : applyPatch before calculator.dependencies start name rows = .error fault) :
    calculator.recalculate start name rows tolerance = ⟨.error fault, [], calculator⟩ := by
  unfold recalculate
  simp only [hgrid, h]

/-- Once the patch has been applied, the calculator holds the new grid whether
or not the report can be made. -/
theorem recalculate_of_ok {applied : Applied} (hgrid : calculator.grid = some before)
    (h : applyPatch before calculator.dependencies start name rows = .ok applied) :
    calculator.recalculate start name rows tolerance =
      let index := applied.patched.foldl Dependencies.erase calculator.dependencies
      ⟨(resolveCells applied.grid applied.watched ∅).map fun entries =>
          { function := name
            start
            patched := applied.patched
            deltas := applied.deltas tolerance index.formulas entries },
        applied.patched, ⟨some applied.grid, index⟩⟩ := by
  unfold recalculate
  simp only [hgrid, h]

theorem recalculated_of_report {report : Report} (hgrid : calculator.grid = some before)
    (hreport : (calculator.recalculate start name rows tolerance).report = .ok report) :
    ∃ patch after readers, Block.ofRows rows = .ok patch ∧
      (calculator.recalculate start name rows tolerance).calculator.grid = some after ∧
      Recalculated calculator.dependencies before after start name patch tolerance readers
        report := by
  cases happly : applyPatch before calculator.dependencies start name rows with
  | error fault =>
      rw [recalculate_of_error hgrid happly] at hreport
      simp at hreport
  | ok applied =>
      rw [recalculate_of_ok hgrid happly] at hreport ⊢
      obtain ⟨patch, readers, entries, after, hpatch, hreaders, hentries, hafter, rfl⟩ :=
        applyPatch_eq_ok_iff.mp happly
      obtain ⟨news, hnews, rfl⟩ := Except.map_eq_ok_iff.mp hreport
      rw [Applied.watched, map_fst_of_resolveCells hentries] at hnews
      have holdValues := resolveCells_eq_ok_iff.mp hentries
      have hnewValues := resolveCells_eq_ok_iff.mp hnews
      refine ⟨patch, after, readers, hpatch, rfl, hreaders, hafter, rfl, ?_⟩
      refine (Applied.deltas_eq_filterMap holdValues hnewValues).trans ?_
      simp [watchedCells, reportedFormula]

end Step

namespace Recalculated

variable {index : Dependencies} {start cell : Cell} {name : String} {patch : Block Value}
  {readers : List Cell} {report : Report} {delta : Delta}

section AnyIndex

variable (h : Recalculated index before after start name patch tolerance readers report)

include h

theorem writtenAt : Block.WrittenAt report.patched before after :=
  h.patched ▸ Grid.writtenAt_of_applyBlock h.applied

theorem mem_deltas_iff :
    delta ∈ report.deltas ↔
      delta.cell ∈ watchedCells before report.patched readers ∧
        delta.formula = reportedFormula index report.patched readers delta.cell ∧
        (Value.reference delta.cell).resolve before = .ok delta.before ∧
        (Value.reference delta.cell).resolve after = .ok delta.after ∧
        delta.before.differs tolerance delta.after := by
  rw [h.deltas, List.mem_filterMap]
  constructor
  · rintro ⟨c, hc, hdelta⟩
    obtain ⟨rfl, hrest⟩ := Delta.between?_eq_some_iff.mp hdelta
    exact ⟨hc, hrest⟩
  · rintro ⟨hc, hrest⟩
    exact ⟨delta.cell, hc, Delta.between?_eq_some_iff.mpr ⟨rfl, hrest⟩⟩

theorem mem_watchedCells_iff :
    cell ∈ watchedCells before report.patched readers ↔
      cell ∈ report.patched ∨ cell ∈ readers := by
  have hinside : cell ∈ report.patched → before.InBounds cell := fun hcell =>
    Grid.inBounds_of_applyBlock h.applied (h.patched ▸ hcell)
  simp only [watchedCells, List.mem_append, List.mem_filter, decide_eq_true_eq]
  by_cases hcell : cell ∈ report.patched
  · simp [hcell, hinside hcell]
  · simp [hcell]

/-- A cell that is looked at is reported exactly if its values differ. -/
theorem mem_changed_iff_differs {old new : Simple}
    (hwatched : cell ∈ watchedCells before report.patched readers)
    (hold : (Value.reference cell).resolve before = .ok old)
    (hnew : (Value.reference cell).resolve after = .ok new) :
    cell ∈ report.changed ↔ old.differs tolerance new := by
  rw [Report.changed, List.mem_map]
  constructor
  · rintro ⟨delta, hdelta, rfl⟩
    obtain ⟨-, -, hbefore, hafter, hdiffers⟩ := h.mem_deltas_iff.mp hdelta
    obtain rfl := Except.ok.inj (hbefore.symm.trans hold)
    obtain rfl := Except.ok.inj (hafter.symm.trans hnew)
    exact hdiffers
  · intro hdiffers
    exact ⟨⟨cell, old, new, reportedFormula index report.patched readers cell⟩,
      h.mem_deltas_iff.mpr ⟨hwatched, rfl, hold, hnew, hdiffers⟩, rfl⟩

theorem changed_sublist : report.changed.Sublist (watchedCells before report.patched readers) := by
  rw [Report.changed, h.deltas]
  apply sublist_map_filterMap
  intro c delta hdelta
  exact (Delta.between?_eq_some_iff.mp hdelta).1

theorem sound : report.Sound before after tolerance := by
  intro delta hdelta
  obtain ⟨-, -, hvalues⟩ := h.mem_deltas_iff.mp hdelta
  exact hvalues

theorem nodup_watchedCells : (watchedCells before report.patched readers).Nodup := by
  rw [watchedCells, List.nodup_append]
  refine ⟨?_, (Dependencies.nodup_downstream h.downstream).filter _, ?_⟩
  · rw [h.patched]
    exact (Cell.nodup_rectangle ..).filter _
  · rintro c hc d hd rfl
    have hpatched := (List.mem_filter.mp hc).1
    have hoff := (List.mem_filter.mp hd).2
    simp [hpatched] at hoff

theorem formula_eq_none (hdelta : delta ∈ report.deltas) (hpatched : delta.cell ∈ report.patched) :
    delta.formula = none := by
  obtain ⟨-, hformula, -⟩ := h.mem_deltas_iff.mp hdelta
  rw [hformula, reportedFormula, if_neg]
  exact fun hreader => hreader.2 hpatched

end AnyIndex

section OwnIndex

variable
  (h : Recalculated (.ofGrid before) before after start name patch tolerance readers report)

include h

theorem watched_of_differs {old new : Simple}
    (htolerance : (Binary.zero false : Binary64).exceeds tolerance = false)
    (hold : (Value.reference cell).resolve before = .ok old)
    (hnew : (Value.reference cell).resolve after = .ok new)
    (hdiffers : old.differs tolerance new) :
    cell ∈ watchedCells before report.patched readers := by
  rw [h.mem_watchedCells_iff]
  by_cases hpatched : cell ∈ report.patched
  · exact .inl hpatched
  · by_cases hreader : cell ∈ readers
    · exact .inr hreader
    · -- The cell resolves as it did, and no value differs from itself.
      exfalso
      have hsame : (Value.reference cell).resolve after = (Value.reference cell).resolve before := by
        apply Value.resolve_eq_of_writtenAt h.writtenAt hpatched
        intro d hd hreads
        exact hreader ((Dependencies.mem_downstream_ofGrid_iff h.downstream).mpr ⟨d, hd, hreads⟩)
      have heq : old = new := by
        rw [hnew, hold] at hsame
        exact (Except.ok.inj hsame).symm
      rw [heq, Simple.differs_self htolerance] at hdiffers
      exact absurd hdiffers Bool.false_ne_true

theorem mem_changed_iff
    (htolerance : (Binary.zero false : Binary64).exceeds tolerance = false) :
    cell ∈ report.changed ↔ ∃ old new, (Value.reference cell).resolve before = .ok old ∧
      (Value.reference cell).resolve after = .ok new ∧ old.differs tolerance new := by
  constructor
  · intro hchanged
    obtain ⟨delta, hdelta, rfl⟩ := List.mem_map.mp hchanged
    obtain ⟨-, -, hbefore, hafter, hdiffers⟩ := h.mem_deltas_iff.mp hdelta
    exact ⟨delta.before, delta.after, hbefore, hafter, hdiffers⟩
  · rintro ⟨old, new, hold, hnew, hdiffers⟩
    have hwatched := h.watched_of_differs htolerance hold hnew hdiffers
    exact (h.mem_changed_iff_differs hwatched hold hnew).mpr hdiffers

theorem exists_formula (hdelta : delta ∈ report.deltas) (hpatched : delta.cell ∉ report.patched) :
    ∃ v, delta.formula = some v ∧ before.get? delta.cell = some v ∧
      after.get? delta.cell = some v ∧ v.isSimple = false := by
  obtain ⟨hwatched, hformula, -⟩ := h.mem_deltas_iff.mp hdelta
  have hreader : delta.cell ∈ readers := by
    rcases List.mem_append.mp hwatched with hmem | hmem
    · exact absurd (List.mem_filter.mp hmem).1 hpatched
    · exact (List.mem_filter.mp hmem).1
  have hcontains : (Dependencies.ofGrid before).contains delta.cell :=
    ((Dependencies.mem_downstream_iff h.downstream).mp hreader).1
  obtain ⟨v, hv, hsimple⟩ := Dependencies.contains_ofGrid.mp hcontains
  have hafter : after.get? delta.cell = some v := (h.writtenAt.stored _ hpatched).trans hv
  refine ⟨v, ?_, hv, hafter, hsimple⟩
  rw [hformula, reportedFormula, if_pos ⟨hreader, hpatched⟩,
    Dependencies.formulas_foldl_erase hpatched]
  exact Dependencies.formulas_ofGrid.mpr ⟨hv, hsimple⟩

theorem exists_changed_eq_append :
    ∃ direct propagated, report.changed = direct ++ propagated ∧
      (∀ c ∈ direct, c ∈ report.patched) ∧ direct.Pairwise (fun c d => compare c d = .lt) ∧
      (∀ c ∈ propagated, c ∉ report.patched) ∧
      propagated.Pairwise fun earlier later => ¬ TransGen before.Reads earlier later := by
  obtain ⟨direct, propagated, hchanged, hdirect, hpropagated⟩ :=
    List.sublist_append_iff.mp h.changed_sublist
  refine ⟨direct, propagated, hchanged, ?_, ?_, ?_, ?_⟩
  · exact fun c hc => (List.mem_filter.mp (hdirect.subset hc)).1
  · have hrows : report.patched.Pairwise fun c d => compare c d = .lt :=
      h.patched ▸ Cell.pairwise_rectangle start patch.rows patch.columns
    exact (hrows.filter _).sublist hdirect
  · intro c hc
    simpa using (List.mem_filter.mp (hpropagated.subset hc)).2
  · have horder := Dependencies.pairwise_downstream_ofGrid h.downstream
    exact (horder.filter _).sublist hpropagated

end OwnIndex

end Recalculated

/-- A report gives the two values of each of its cells whatever the index, and
over the index of the grid it says exactly what the patch has changed. -/
theorem recalculate_report {calculator : Calculator} {start : Cell} {name : String}
    {rows : List (List Value)} {report : Report} (hgrid : calculator.grid = some before)
    (hreport : (calculator.recalculate start name rows tolerance).report = .ok report) :
    ∃ patch after, Block.ofRows rows = .ok patch ∧
      report.patched = start.rectangle patch.rows patch.columns ∧
      before.apply start name rows = .ok after ∧
      (calculator.recalculate start name rows tolerance).calculator.grid = some after ∧
      report.Sound before after tolerance ∧
      (calculator.dependencies = .ofGrid before →
        (Binary.zero false : Binary64).exceeds tolerance = false →
        report.Exact before after tolerance) := by
  obtain ⟨patch, after, readers, hpatch, hafter, h⟩ := recalculated_of_report hgrid hreport
  refine ⟨patch, after, hpatch, h.patched, ?_, hafter, h.sound, ?_⟩
  · rw [Grid.apply, hpatch, Except.ok_bind, h.applied]
  · intro hindex htolerance
    rw [hindex] at h
    exact {
      changed := fun c => h.mem_changed_iff htolerance
      untouched := fun c hc hreads => Value.resolve_eq_of_writtenAt h.writtenAt hc hreads
      once := h.nodup_watchedCells.sublist h.changed_sublist
      formula_patched := fun delta hdelta => h.formula_eq_none hdelta
      formula_propagated := fun delta hdelta => h.exists_formula hdelta
      order := h.exists_changed_eq_append }

/-- One is added to the number beside the loop. -/
def incrementReport : Report :=
  ⟨"ADD", ⟨0, 0⟩, [⟨0, 0⟩],
    [⟨⟨0, 0⟩, .integer .one, .integer ⟨2, by decide⟩, none⟩,
      ⟨⟨0, 1⟩, .integer .one, .integer ⟨2, by decide⟩, some (.reference ⟨0, 0⟩)⟩]⟩

theorem recalculate_copyBesideLoop :
    ((load Grid.copyBesideLoop).recalculate ⟨0, 0⟩ "ADD"
        [[.simple (.integer ⟨1, by decide⟩)]] (.zero false)).report = .ok incrementReport ∧
      ∃ after, Grid.copyBesideLoop.apply ⟨0, 0⟩ "ADD" [[.simple (.integer ⟨1, by decide⟩)]] =
          .ok after ∧
        incrementReport.Exact Grid.copyBesideLoop after (.zero false) := by
  have hreport : ((load Grid.copyBesideLoop).recalculate ⟨0, 0⟩ "ADD"
      [[.simple (.integer ⟨1, by decide⟩)]] (.zero false)).report = .ok incrementReport := by cbv
  obtain ⟨patch, after, -, -, happly, -, -, hexact⟩ := recalculate_report rfl hreport
  exact ⟨hreport, after, happly, hexact rfl (by cbv)⟩

end Calculator

end Worksheet
