import Worksheet.Proofs.Canonical
import Worksheet.Proofs.Recalculation

/-!
# Upkeep of the index

A calculator that has been loaded with a grid stays the calculator that would
be loaded with the grid as it is at the time: the index follows every change
that a patch makes, also where no report comes of it.
-/

namespace Worksheet.Calculator

/-- What a loaded calculator may be asked to do. -/
inductive Request where
  | calculate
  | recalculate (start : Cell) (name : String) (rows : List (List Value)) (tolerance : Binary64)

/-- The calculator as a request leaves it, answered or not. To calculate writes
nothing. -/
def serve (calculator : Calculator) : Request → Calculator
  | .calculate => calculator
  | .recalculate start name rows tolerance =>
      (calculator.recalculate start name rows tolerance).calculator

variable {before : Grid}

/-- What has been overwritten is simple, and the cells overwritten are the ones
that leave the index. -/
theorem foldl_erase_of_applyBlock {start : Cell} {name : String} {patch : Block Value}
    {after : Grid} (h : before.applyBlock start name patch = .ok after) :
    (start.rectangle patch.rows patch.columns).foldl Dependencies.erase (.ofGrid before) =
      .ofGrid after :=
  Dependencies.foldl_erase_ofGrid (Grid.overwritten_of_applyBlock h)

/-- After a patch the calculator is as if loaded anew. -/
theorem exists_load_of_recalculate (before : Grid) (start : Cell) (name : String)
    (rows : List (List Value)) (tolerance : Binary64) :
    ∃ after, ((load before).recalculate start name rows tolerance).calculator = load after := by
  have hgrid : (load before).grid = some before := rfl
  cases happly : applyPatch before (load before).dependencies start name rows with
  | error fault =>
      rw [recalculate_of_error hgrid happly]
      exact ⟨before, rfl⟩
  | ok applied =>
      rw [recalculate_of_ok hgrid happly]
      obtain ⟨patch, readers, entries, after, -, -, -, hafter, rfl⟩ :=
        applyPatch_eq_ok_iff.mp happly
      exact ⟨after, congrArg (Calculator.mk (some after)) (foldl_erase_of_applyBlock hafter)⟩

theorem exists_load_of_serve (grid : Grid) (request : Request) :
    ∃ current, (load grid).serve request = load current := by
  cases request with
  | calculate => exact ⟨grid, rfl⟩
  | recalculate start name rows tolerance =>
      exact exists_load_of_recalculate grid start name rows tolerance

theorem exists_load_of_foldl_serve (grid : Grid) (requests : List Request) :
    ∃ current, requests.foldl serve (load grid) = load current := by
  induction requests generalizing grid with
  | nil => exact ⟨grid, rfl⟩
  | cons request requests ih =>
      obtain ⟨next, hnext⟩ := exists_load_of_serve grid request
      rw [List.foldl_cons, hnext]
      exact ih next

/-- Whatever a loaded calculator has been asked, its index is that of its grid,
and it calculates what a calculator fresh on that grid would. -/
theorem dependencies_eq_ofGrid (grid : Grid) (requests : List Request) :
    ∃ current, (requests.foldl serve (load grid)).grid = some current ∧
      (requests.foldl serve (load grid)).dependencies = .ofGrid current ∧
      (requests.foldl serve (load grid)).calculate = (load current).calculate := by
  obtain ⟨current, hcurrent⟩ := exists_load_of_foldl_serve grid requests
  rw [hcurrent]
  exact ⟨current, rfl, rfl, rfl⟩

end Worksheet.Calculator
