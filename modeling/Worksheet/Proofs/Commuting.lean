import Worksheet.Proofs.Downstream
import Worksheet.Proofs.Stages

/-!
# Independent applications

Two applications are independent if neither covers a cell that the other looks at.
What each of them stores is then the same whether or not the other has come
before it, and so are its faults; and values that are stored at different cells
may be stored in either order.
-/

namespace Worksheet

open Block (WrittenAt)

namespace Grid

open Resolution

variable {grid before after : Grid} {changed : List Cell} {start : Cell} {name : String}
  {patch : Block Value} {c : Cell}

/-- The values that an application is to store, by their cells. -/
def changes (grid : Grid) (start : Cell) (name : String) (patch : Block Value) :
    Except Fault (CellMap Simple) :=
  if patch.isEmpty then .ok ∅
  else do
    let f ← (Function.named name).mapError .unlocated
    (grid.checkFit start patch).mapError .unlocated
    let results ← combineAll grid f (targets start patch) ∅
    return .ofList results

theorem store_empty (grid : Grid) : grid.store ∅ = grid := by
  refine Block.ext_get? rfl rfl fun c => ?_
  simp [get?_store]

theorem applyBlock_eq_map_changes (grid : Grid) (start : Cell) (name : String)
    (patch : Block Value) :
    grid.applyBlock start name patch = (grid.changes start name patch).map grid.store := by
  unfold applyBlock changes
  split
  next => exact congrArg Except.ok (store_empty grid).symm
  next =>
      cases Function.named name with
      | error failure => rfl
      | ok f =>
          cases grid.checkFit start patch with
          | error failure => rfl
          | ok _ =>
              simp only [Except.mapError_ok, Except.ok_bind]
              cases combineAll grid f (targets start patch) ∅ <;> rfl

/-- Nothing is stored outside of the patch. -/
theorem mem_rectangle_of_changes {results : CellMap Simple}
    (h : grid.changes start name patch = .ok results) (hc : c ∈ results) :
    c ∈ start.rectangle patch.rows patch.columns := by
  unfold changes at h
  split at h
  next =>
      obtain rfl := Except.ok.inj h
      simp at hc
  next =>
      simp only [Except.bind_eq_ok_iff, Except.pure_eq_ok] at h
      obtain ⟨f, -, -, -, entries, hentries, h⟩ := h
      obtain rfl := Except.ok.inj h
      rw [← map_fst_targets, ← map_fst_of_combineAll hentries, ← List.contains_iff_mem]
      exact Std.ExtTreeMap.mem_ofList.mp hc

theorem changes_eq_of_not_reaches (h : WrittenAt changed before after)
    (hcell : ∀ d ∈ start.rectangle patch.rows patch.columns, ∀ c ∈ changed,
      ¬ (Value.reference d).Reaches before c)
    (hentry : ∀ place v, patch.get? place = some v → ∀ c ∈ changed, ¬ v.Reaches before c) :
    after.changes start name patch = before.changes start name patch := by
  have hbounds : ∀ c, after.checkBounds c = before.checkBounds c := fun c => by
    have hin : after.InBounds c ↔ before.InBounds c := by
      simp only [Block.InBounds, h.rows, h.columns]
    simp only [checkBounds, hin, outside_congr h.rows h.columns]
  have hcombine : ∀ f, (targets start patch).mapM (combineOn after f) =
      (targets start patch).mapM (combineOn before f) := by
    refine fun f => Except.mapM_congr fun target htarget => ?_
    obtain ⟨d, v⟩ := target
    obtain ⟨i, j, hv, -⟩ := mem_targets_iff.mp htarget
    have hd : d ∈ start.rectangle patch.rows patch.columns := by
      rw [← map_fst_targets]
      exact List.mem_map_of_mem htarget
    rw [combineOn, combineOn, combined, combined, Value.resolve_eq_of_not_reaches h (hcell d hd),
      Value.resolve_eq_of_not_reaches h (hentry _ v hv)]
  simp only [changes, checkFit, hbounds, combineAll_eq_mapM Memo.sound_empty, hcombine]

/-- Values that are stored at different cells may be stored in either order. -/
theorem store_comm {first second : CellMap Simple} (h : ∀ c ∈ first, c ∉ second) :
    (grid.store first).store second = (grid.store second).store first := by
  refine Block.ext_get? rfl rfl fun c => ?_
  simp only [get?_store, Option.map_map]
  congr 1
  funext v
  by_cases hc : c ∈ first
  · have hnone : second[c]? = none := Std.ExtTreeMap.getElem?_eq_none (h c hc)
    simp [hnone]
  · have hnone : first[c]? = none := Std.ExtTreeMap.getElem?_eq_none hc
    simp [hnone]

end Grid

/-- An application of the function of the given name to rows of values, from a start
cell on. -/
structure Application where
  start : Cell
  name : String
  rows : List (List Value)

namespace Application

variable {grid : Grid} {a b : Application} {c : Cell}

/-- The cells to which the function is applied. -/
def cells (a : Application) : List Cell :=
  Sheet.covered a.start a.rows

/-- The cells to which the function is applied, those named by the rows, and all
that these read, directly or not. -/
inductive LooksAt (a : Application) (grid : Grid) (c : Cell) : Prop where
  | target {d : Cell} : d ∈ a.cells → (Value.reference d).Reaches grid c → a.LooksAt grid c
  | entry {row : List Value} {v : Value} :
      row ∈ a.rows → v ∈ row → v.Reaches grid c → a.LooksAt grid c

/-- Neither application covers a cell that the other looks at. -/
structure Independent (grid : Grid) (a b : Application) : Prop where
  left : ∀ c ∈ b.cells, ¬ a.LooksAt grid c
  right : ∀ c ∈ a.cells, ¬ b.LooksAt grid c

def outcome (a : Application) (grid : Grid) : Except Fault Unit :=
  (grid.apply a.start a.name a.rows).map fun _ => ()

/-- The grid as the application leaves it. One that fails changes nothing. -/
def after (a : Application) (grid : Grid) : Grid :=
  match grid.apply a.start a.name a.rows with
  | .ok after => after
  | .error _ => grid

def changes (a : Application) (grid : Grid) : Except Fault (CellMap Simple) := do
  grid.changes a.start a.name (← Block.ofRows a.rows)

theorem apply_eq_map_changes (a : Application) (grid : Grid) :
    grid.apply a.start a.name a.rows = (a.changes grid).map grid.store := by
  rw [Grid.apply, changes]
  cases Block.ofRows a.rows with
  | error fault => rfl
  | ok patch => exact Grid.applyBlock_eq_map_changes grid a.start a.name patch

theorem outcome_eq (a : Application) (grid : Grid) :
    a.outcome grid = (a.changes grid).map fun _ => () := by
  rw [outcome, apply_eq_map_changes]
  cases a.changes grid <;> rfl

theorem mem_cells_of_changes {results : CellMap Simple} (h : a.changes grid = .ok results)
    (hc : c ∈ results) : c ∈ a.cells := by
  obtain ⟨patch, hpatch, hresults⟩ := Except.bind_eq_ok_iff.mp h
  rw [cells, covered_eq_of_ofRows hpatch]
  exact Grid.mem_rectangle_of_changes hresults hc

theorem writtenAt_after (a : Application) (grid : Grid) :
    WrittenAt a.cells grid (a.after grid) := by
  unfold after
  split
  next after h => exact (overwritten_of_apply h).written
  next => exact .refl _ _

theorem Independent.symm (h : Independent grid a b) : Independent grid b a :=
  ⟨h.right, h.left⟩

theorem Independent.changes_after (h : Independent grid a b) :
    a.changes (b.after grid) = a.changes grid := by
  unfold changes
  cases hpatch : Block.ofRows a.rows with
  | error fault => rfl
  | ok patch =>
      refine Grid.changes_eq_of_not_reaches (b.writtenAt_after grid) ?_ ?_
      · intro d hd c hc hreach
        rw [← covered_eq_of_ofRows hpatch] at hd
        exact h.left c hc (.target hd hreach)
      · intro place v hv c hc hreach
        obtain ⟨row, hrow, hmem⟩ := Block.exists_mem_of_ofRows hpatch hv
        exact h.left c hc (.entry hrow hmem hreach)

theorem Independent.not_mem_of_mem {first second : CellMap Simple} (h : Independent grid a b)
    (hfirst : a.changes grid = .ok first) (hsecond : b.changes grid = .ok second) :
    ∀ c ∈ first, c ∉ second := by
  intro c hc hc'
  exact h.right c (mem_cells_of_changes hfirst hc)
    (.target (mem_cells_of_changes hsecond hc') (.direct (by simp)))

theorem after_eq_of_changes {results : CellMap Simple} (h : a.changes grid = .ok results) :
    a.after grid = grid.store results := by
  rw [after, apply_eq_map_changes, h]
  rfl

theorem after_eq_of_fault {fault : Fault} (h : a.changes grid = .error fault) :
    a.after grid = grid := by
  rw [after, apply_eq_map_changes, h]
  rfl

/-- Independent applications leave the same grid in either order, and each of them
comes to the same whether or not the other has come before it. -/
theorem after_after_comm (h : Independent grid a b) :
    b.after (a.after grid) = a.after (b.after grid) ∧
      a.outcome (b.after grid) = a.outcome grid ∧ b.outcome (a.after grid) = b.outcome grid := by
  have ha : a.changes (b.after grid) = a.changes grid := h.changes_after
  have hb : b.changes (a.after grid) = b.changes grid := h.symm.changes_after
  refine ⟨?_, by rw [outcome_eq, outcome_eq, ha], by rw [outcome_eq, outcome_eq, hb]⟩
  cases hfirst : a.changes grid with
  | error fault =>
      rw [after_eq_of_fault hfirst, after_eq_of_fault (ha.trans hfirst)]
  | ok first =>
      cases hsecond : b.changes grid with
      | error fault =>
          rw [after_eq_of_fault hsecond, after_eq_of_fault (hb.trans hsecond)]
      | ok second =>
          rw [after_eq_of_changes (ha.trans hfirst), after_eq_of_changes (hb.trans hsecond),
            after_eq_of_changes hfirst, after_eq_of_changes hsecond]
          exact Grid.store_comm (h.not_mem_of_mem hfirst hsecond)

/-- The copy is doubled, and the cell that refers to itself fails, in either order. -/
theorem after_after_comm_copyBesideLoop :
    ∃ a b : Application, a = ⟨⟨0, 1⟩, "ADD", [[.reference ⟨0, 0⟩]]⟩ ∧
      b = ⟨⟨0, 2⟩, "CONCAT", [[.simple .null]]⟩ ∧ Independent Grid.copyBesideLoop a b ∧
      b.after (a.after Grid.copyBesideLoop) = a.after (b.after Grid.copyBesideLoop) ∧
      a.outcome (b.after Grid.copyBesideLoop) = .ok () ∧
      b.outcome (a.after Grid.copyBesideLoop) =
        .error (.failure (.cycle [⟨0, 2⟩, ⟨0, 2⟩]) (some ⟨0, 2⟩)) := by
  have hcopy : ∀ {v : Value} {c}, (∀ d ∈ v.references, d ≠ ⟨0, 2⟩) →
      v.Reaches Grid.copyBesideLoop c → c ≠ ⟨0, 2⟩ := by
    refine fun hv hc => hc.of_closed hv fun d e hread hd => ?_
    rcases Grid.reads_copyBesideLoop hread with ⟨-, rfl⟩ | ⟨rfl, -⟩
    · decide
    · exact absurd rfl hd
  have hloop : ∀ {v : Value} {c}, (∀ d ∈ v.references, d = ⟨0, 2⟩) →
      v.Reaches Grid.copyBesideLoop c → c = ⟨0, 2⟩ := by
    refine fun hv hc => hc.of_closed hv fun d e hread hd => ?_
    simpa [hd] using Grid.reads_copyBesideLoop hread
  have h : Independent Grid.copyBesideLoop ⟨⟨0, 1⟩, "ADD", [[.reference ⟨0, 0⟩]]⟩
      ⟨⟨0, 2⟩, "CONCAT", [[.simple .null]]⟩ := by
    constructor
    · intro c hc hlook
      obtain rfl : c = ⟨0, 2⟩ := List.mem_singleton.mp hc
      cases hlook with
      | target hd hreach =>
          obtain rfl := List.mem_singleton.mp hd
          exact hcopy (by simp) hreach rfl
      | entry hrow hv hreach =>
          obtain rfl := List.mem_singleton.mp hrow
          obtain rfl := List.mem_singleton.mp hv
          exact hcopy (by simp) hreach rfl
    · intro c hc hlook
      obtain rfl : c = ⟨0, 1⟩ := List.mem_singleton.mp hc
      cases hlook with
      | target hd hreach =>
          obtain rfl := List.mem_singleton.mp hd
          exact absurd (hloop (by simp) hreach) (by decide)
      | entry hrow hv hreach =>
          obtain rfl := List.mem_singleton.mp hrow
          obtain rfl := List.mem_singleton.mp hv
          exact absurd hreach Value.not_reaches_simple
  obtain ⟨hgrid, hadd, hconcat⟩ := after_after_comm h
  refine ⟨_, _, rfl, rfl, h, hgrid, hadd.trans ?_, hconcat.trans ?_⟩
  · cbv
  · cbv

end Application

end Worksheet
