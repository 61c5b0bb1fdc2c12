import Worksheet.Apply
import Worksheet.Proofs.Block
import Worksheet.Proofs.Cells
import Worksheet.Proofs.Overwriting

/-!
# Element-wise application

The results of an application are those of its targets one by one, each from
what its two operands resolve to on their own. They are stored at the cells
that the patch covers, and nowhere else.
-/

namespace Worksheet.Grid

open Resolution

variable {grid after : Grid} {f : Function} {start cell : Cell} {memo : Memo} {patch : Block Value}

/-- The function on what a cell and a value resolve to on their own. The cell
is resolved first. -/
def combined (grid : Grid) (f : Function) (cell : Cell) (v : Value) : Except Failure Simple := do
  let current ← (Value.reference cell).resolve grid
  let operand ← v.resolve grid
  f.combine current operand

/-- The function on what a target and its patch entry resolve to on their own,
where a failure comes to light at the target. -/
def combineOn (grid : Grid) (f : Function) (target : Cell × Value) :
    Except Fault (Cell × Simple) :=
  ((grid.combined f target.1 target.2).mapError (.locatedAt target.1)).map fun value =>
    (target.1, value)

theorem combineAt_eq (f : Function) (cell : Cell) (v : Value) (h : Memo.Sound grid memo) :
    (combineAt grid f cell v memo).1 = grid.combined f cell v ∧
      Memo.Sound grid (combineAt grid f cell v memo).2 := by
  obtain ⟨hcell, hmemo⟩ := result_resolveFrom (v := .reference cell) h
  rw [combined, Value.resolve_eq_evaluate, Value.resolve_eq_evaluate, ← hcell]
  unfold combineAt
  generalize resolveFrom grid (.reference cell) memo = first at hmemo ⊢
  obtain ⟨result, memo'⟩ := first
  cases result with
  | error failure => exact ⟨rfl, hmemo⟩
  | ok current =>
      obtain ⟨hentry, hmemo'⟩ := result_resolveFrom (v := v) hmemo
      rw [← hentry]
      dsimp only at hmemo' ⊢
      generalize resolveFrom grid v memo' = second at hmemo' ⊢
      obtain ⟨result', memo''⟩ := second
      cases result' with
      | error failure => exact ⟨rfl, hmemo'⟩
      | ok operand => exact ⟨rfl, hmemo'⟩

theorem combineAll_eq_mapM {targets : List (Cell × Value)} (h : Memo.Sound grid memo) :
    combineAll grid f targets memo = targets.mapM (combineOn grid f) := by
  induction targets generalizing memo with
  | nil => rfl
  | cons target targets ih =>
      obtain ⟨cell, v⟩ := target
      obtain ⟨hresult, hmemo⟩ := combineAt_eq f cell v h
      rw [combineAll, List.mapM_cons, combineOn, ← hresult]
      generalize combineAt grid f cell v memo = outcome at hmemo ⊢
      obtain ⟨result, memo'⟩ := outcome
      cases result with
      | error failure => rfl
      | ok value =>
          change (combineAll grid f targets memo').map _ = _
          rw [ih hmemo]
          rfl

/-- Every target gets a result, and no other cell does. -/
theorem map_fst_of_combineAll {targets : List (Cell × Value)} {results : List (Cell × Simple)}
    (h : combineAll grid f targets ∅ = .ok results) :
    results.map Prod.fst = targets.map Prod.fst := by
  rw [combineAll_eq_mapM Memo.sound_empty] at h
  apply Except.map_eq_map_of_mapM _ h
  intro target entry hentry
  simp only [combineOn, Except.map_eq_ok_iff] at hentry
  obtain ⟨value, -, rfl⟩ := hentry
  rfl

theorem rectangle_of_isEmpty (start : Cell) (h : patch.isEmpty) :
    start.rectangle patch.rows patch.columns = [] := by
  have hnone : patch.rows = 0 ∨ patch.columns = 0 := by simpa [Block.isEmpty] using h
  refine List.eq_nil_iff_forall_not_mem.mpr fun cell hcell => ?_
  rw [Cell.mem_rectangle] at hcell
  omega

theorem map_fst_targets (start : Cell) (patch : Block Value) :
    (targets start patch).map Prod.fst = start.rectangle patch.rows patch.columns := by
  have hcells : patch.toList.map Prod.fst = patch.cells := by
    have hstored : ∀ c ∈ patch.cells,
        ((patch.get? c).map fun v => (c, v)).map Prod.fst = some c := by
      intro c hc
      obtain ⟨v, hv⟩ := Option.isSome_iff_exists.mp
        (Block.get?_isSome_iff.mpr (Block.mem_cells.mp hc))
      rw [hv, Option.map_some, Option.map_some]
    rw [Block.toList, List.map_filterMap, List.filterMap_congr hstored, List.filterMap_some]
  have htargets : (targets start patch).map Prod.fst =
      patch.cells.map fun place => start.offset place.row place.column := by
    rw [targets, List.map_map, ← hcells, List.map_map]
    rfl
  rw [htargets, Block.cells]
  simp [Cell.rectangle, List.map_flatMap, Cell.offset, Function.comp_def]

theorem targets_of_isEmpty (start : Cell) (h : patch.isEmpty) : targets start patch = [] :=
  List.map_eq_nil_iff.mp ((map_fst_targets start patch).trans (rectangle_of_isEmpty start h))

theorem mem_targets_iff {v : Value} :
    (cell, v) ∈ targets start patch ↔
      ∃ i j : Nat, patch.get? ⟨i, j⟩ = some v ∧ start.offset i j = cell := by
  simp only [targets, List.mem_map, Prod.exists, Prod.mk.injEq, Block.mem_toList]
  constructor
  · rintro ⟨place, w, hw, rfl, rfl⟩
    have hplace : patch.InBounds place := Block.get?_isSome_iff.mp (by simp [hw])
    obtain ⟨hr, -, hc, -⟩ := hplace
    refine ⟨place.row.toNat, place.column.toNat, ?_, ?_⟩
    · rw [Int.toNat_of_nonneg hr, Int.toNat_of_nonneg hc]
      exact hw
    · rw [Int.toNat_of_nonneg hr, Int.toNat_of_nonneg hc]
  · rintro ⟨i, j, hv, rfl⟩
    exact ⟨⟨i, j⟩, v, hv, rfl, rfl⟩

theorem pairwise_targets (start : Cell) (patch : Block Value) :
    (targets start patch).Pairwise fun a b => compare a.1 b.1 = .lt := by
  have hordered := Cell.pairwise_rectangle start patch.rows patch.columns
  rw [← map_fst_targets, List.pairwise_map] at hordered
  exact hordered

theorem applyBlock_eq_ok_iff {name : String} :
    grid.applyBlock start name patch = .ok after ↔
      (patch.isEmpty ∧ after = grid) ∨
        (patch.isEmpty = false ∧ ∃ f, Function.named name = .ok f ∧
          grid.checkFit start patch = .ok () ∧ ∃ results,
            combineAll grid f (targets start patch) ∅ = .ok results ∧
              after = grid.store (.ofList results)) := by
  unfold applyBlock
  split
  next hempty => simp [hempty, eq_comm]
  next hfull =>
      simp only [Except.bind_eq_ok_iff, Except.mapError_eq_ok_iff, Except.pure_eq_ok,
        Except.ok.injEq, hfull, false_and, true_and, false_or, Bool.false_eq_true,
        @eq_comm _ _ after]
      grind

theorem getElem?_of_combineAll {results : List (Cell × Simple)} {value : Simple}
    (h : combineAll grid f (targets start patch) ∅ = .ok results)
    (hvalue : (cell, value) ∈ results) :
    (Std.ExtTreeMap.ofList results : CellMap Simple)[cell]? = some value := by
  apply CellMap.getElem?_ofList_of_mem _ hvalue
  rw [map_fst_of_combineAll h, map_fst_targets]
  exact Cell.pairwise_rectangle ..

theorem writtenAt_of_applyBlock {name : String}
    (h : grid.applyBlock start name patch = .ok after) :
    Block.WrittenAt (start.rectangle patch.rows patch.columns) grid after := by
  rcases applyBlock_eq_ok_iff.mp h with ⟨-, rfl⟩ | ⟨-, f, -, -, results, hresults, rfl⟩
  · exact .refl _ _
  · refine ⟨rfl, rfl, fun c hc => ?_⟩
    have hnone : (Std.ExtTreeMap.ofList results : CellMap Simple)[c]? = none := by
      apply Std.ExtTreeMap.getElem?_ofList_of_contains_eq_false
      rw [map_fst_of_combineAll hresults, map_fst_targets, ← Bool.not_eq_true,
        List.contains_iff_mem]
      exact hc
    rw [get?_store, hnone]
    simp

/-- Whatever is written is the result of the function at that place. -/
theorem exists_combined_of_applyBlock {name : String}
    (h : grid.applyBlock start name patch = .ok after) {v : Value}
    (hcell : cell ∈ start.rectangle patch.rows patch.columns) (hv : after.get? cell = some v) :
    ∃ f entry value, (cell, entry) ∈ targets start patch ∧
      grid.combined f cell entry = .ok value ∧ v = .simple value := by
  rcases applyBlock_eq_ok_iff.mp h with ⟨hempty, rfl⟩ | ⟨-, f, -, -, results, hresults, rfl⟩
  · simp [rectangle_of_isEmpty start hempty] at hcell
  · have hresult : cell ∈ results.map Prod.fst := by
      rw [map_fst_of_combineAll hresults, map_fst_targets]
      exact hcell
    obtain ⟨⟨c, value⟩, hmem, rfl⟩ := List.mem_map.mp hresult
    rw [get?_store, getElem?_of_combineAll hresults hmem, Option.map_eq_some_iff] at hv
    obtain ⟨_, -, rfl⟩ := hv
    rw [combineAll_eq_mapM Memo.sound_empty] at hresults
    obtain ⟨⟨c', entry⟩, htarget, hcombine⟩ := Except.exists_source_of_mapM hresults hmem
    simp only [combineOn, Except.map_eq_ok_iff, Except.mapError_eq_ok_iff, Prod.mk.injEq]
      at hcombine
    obtain ⟨value', hvalue, rfl, rfl⟩ := hcombine
    exact ⟨f, entry, value', htarget, hvalue, rfl⟩

theorem simple_of_applyBlock {name : String} (h : grid.applyBlock start name patch = .ok after)
    {v : Value} (hcell : cell ∈ start.rectangle patch.rows patch.columns)
    (hv : after.get? cell = some v) : v.isSimple := by
  obtain ⟨f, entry, value, -, -, rfl⟩ := exists_combined_of_applyBlock h hcell hv
  rfl

theorem overwritten_of_applyBlock {name : String}
    (h : grid.applyBlock start name patch = .ok after) :
    Overwritten (start.rectangle patch.rows patch.columns) grid after :=
  ⟨writtenAt_of_applyBlock h, fun _ hcell _ hv => simple_of_applyBlock h hcell hv⟩

/-- A patch that has been applied lay inside the grid. -/
theorem inBounds_of_applyBlock {name : String}
    (h : grid.applyBlock start name patch = .ok after)
    (hcell : cell ∈ start.rectangle patch.rows patch.columns) : grid.InBounds cell := by
  rcases applyBlock_eq_ok_iff.mp h with ⟨hempty, -⟩ | ⟨-, f, -, hfit, -⟩
  · simp [rectangle_of_isEmpty start hempty] at hcell
  · rw [Cell.mem_rectangle] at hcell
    obtain ⟨_, hstart, hlast⟩ := Except.bind_eq_ok_iff.mp hfit
    rw [checkBounds_eq_ok_iff, Block.InBounds] at hstart hlast
    unfold Block.InBounds
    simp only [Cell.offset] at hlast
    omega

end Worksheet.Grid
