import Worksheet.Proofs.Resolution

/-!
# Resolved rectangles

A region whose values fill its extent shows the same entry at a place in each
of its forms: by itself, in its row, in its column and in the list of all
rows. The region of a rectangle of cells shows at each offset what the cell
there resolves to on its own; there is none if a cell fails, and the fault is
then that of the first cell, row by row, that fails on its own.
-/

namespace Worksheet

namespace Region

variable {α : Type} {values : List α} {region : Region} {i j m n : Nat}

theorem slice_natCast (values : List α) (start : Nat) {stop : Nat} (h : stop ≤ values.length) :
    slice values start stop = (values.drop start).take (stop - start) := by
  have hneg : ∀ k : Nat, ¬ (k : Int) < 0 := by omega
  simp only [slice, sliceBound, hneg, if_false, Int.toNat_natCast, Nat.min_eq_left h]
  rcases Nat.le_total start values.length with hle | hle
  · rw [Nat.min_eq_left hle]
  · rw [Nat.min_eq_right hle, List.drop_eq_nil_of_le hle]
    simp

theorem indexed_natCast {index : Nat} (hword : FitsWord index) {a : α}
    (ha : values[index]? = some a) : indexed values index = .ok a := by
  have hneg : ¬ (index : Int) < 0 := by omega
  simp [indexed, hneg, hword, ha]

/-- The values fill the extent of the region, row after row. -/
structure Filled (region : Region) (m n : Nat) : Prop where
  rows : region.rows = m
  columns : region.columns = n
  length : region.values.length = m * n

namespace Filled

variable {v : Value}

/-- A row is cut out of the values. -/
theorem row_eq (h : region.Filled m n) (hi : i < m) :
    region.row i = (region.values.drop (i * n)).take n := by
  have hstop : i * n + n ≤ region.values.length := by
    have hrow : (i + 1) * n ≤ m * n := Nat.mul_le_mul_right n hi
    rw [Nat.succ_mul] at hrow
    rw [h.length]
    exact hrow
  have hslice := slice_natCast region.values (i * n) hstop
  push_cast at hslice
  rw [row, h.columns, hslice, Nat.add_sub_cancel_left]

theorem getElem?_row (h : region.Filled m n) (hi : i < m) (hj : j < n) :
    (region.row i)[j]? = region.values[i * n + j]? := by
  rw [h.row_eq hi, List.getElem?_take_of_lt hj, List.getElem?_drop]

theorem length_row (h : region.Filled m n) (hi : i < m) : (region.row i).length = n := by
  have hrow : (i + 1) * n ≤ m * n := Nat.mul_le_mul_right n hi
  rw [Nat.succ_mul, ← h.length] at hrow
  rw [h.row_eq hi, List.length_take, List.length_drop]
  omega

theorem getElem?_toRows (h : region.Filled m n) (hi : i < m) :
    region.toRows[i]? = some (region.row i) := by
  simp [toRows, h.rows, hi]

theorem get_eq_ok (h : region.Filled m n) (hword : FitsWord (m * n : Nat)) (hi : i < m) (hj : j < n)
    (hv : region.values[i * n + j]? = some v) : region.get i j = .ok v := by
  have hplace : i * n + j < m * n := Cell.place_lt hi hj
  have hindex : FitsWord (i * n + j : Nat) := by
    unfold FitsWord at hword ⊢
    omega
  have hrows : (i : Int) < region.rows := by
    rw [h.rows]
    exact_mod_cast hi
  have hcolumns : (j : Int) < region.columns := by
    rw [h.columns]
    exact_mod_cast hj
  have hinside : 0 ≤ (i : Int) ∧ (i : Int) < region.rows ∧
      0 ≤ (j : Int) ∧ (j : Int) < region.columns := ⟨by omega, hrows, by omega, hcolumns⟩
  have hindexed := indexed_natCast hindex hv
  push_cast at hindexed
  rw [get, if_pos hinside, h.columns, hindexed]

/-- A column is a walk through the values in steps of a row. -/
theorem strided_eq_ok {values : List Value} {entry : Nat → Value} {index step count : Nat}
    (h : ∀ i < count, FitsWord (index + i * step : Nat) ∧
      values[index + i * step]? = some (entry i)) :
    strided values index step count = .ok ((List.range count).map entry) := by
  induction count generalizing index entry with
  | zero => rfl
  | succ count ih =>
      have hfirst := h 0 (Nat.succ_pos count)
      simp only [Nat.zero_mul, Nat.add_zero] at hfirst
      have hrest : ∀ i < count, FitsWord (index + step + i * step : Nat) ∧
          values[index + step + i * step]? = some (entry (i + 1)) := by
        intro i hi
        have hnext := h (i + 1) (Nat.succ_lt_succ hi)
        rwa [Nat.succ_mul, Nat.add_comm (i * step) step, ← Nat.add_assoc] at hnext
      have htail := ih hrest
      push_cast at htail
      rw [strided, indexed_natCast hfirst.1 hfirst.2, htail, List.range_succ_eq_map,
        List.map_cons, List.map_map]
      rfl

theorem column_eq_ok (h : region.Filled m n) (hword : FitsWord (m * n : Nat)) (hj : j < n) :
    ∃ column, region.column j = .ok column ∧
      ∀ i < m, column[i]? = region.values[i * n + j]? := by
  have hentry : ∀ i < m, ∃ v, region.values[i * n + j]? = some v := by
    intro i hi
    have hplace : i * n + j < region.values.length := h.length ▸ Cell.place_lt hi hj
    exact ⟨_, List.getElem?_eq_getElem hplace⟩
  let entry (i : Nat) : Value := region.values[i * n + j]?.getD (.simple .null)
  have hstrided : strided region.values j n m = .ok ((List.range m).map entry) := by
    apply strided_eq_ok
    intro i hi
    obtain ⟨v, hv⟩ := hentry i hi
    have hplace : i * n + j < m * n := Cell.place_lt hi hj
    rw [Nat.add_comm j]
    refine ⟨?_, by simp [entry, hv]⟩
    unfold FitsWord at hword ⊢
    omega
  refine ⟨(List.range m).map entry, ?_, fun i hi => ?_⟩
  · rw [column, h.columns, h.rows, Int.toNat_natCast, hstrided]
  · obtain ⟨v, hv⟩ := hentry i hi
    simp [hi, entry, hv]

end Filled
end Region

namespace Cell

/-- Inside the rectangle between two corners, both of them included. -/
def Between (cell topLeft bottomRight : Cell) : Prop :=
  topLeft.row ≤ cell.row ∧ cell.row ≤ bottomRight.row ∧
    topLeft.column ≤ cell.column ∧ cell.column ≤ bottomRight.column

end Cell

/-- At every offset the region shows what the cell there resolves to, whichever
way the entry is asked for. -/
structure Region.Shows (region : Region) (grid : Grid) (topLeft bottomRight : Cell) : Prop where
  rows : region.rows = bottomRight.row - topLeft.row + 1
  columns : region.columns = bottomRight.column - topLeft.column + 1
  length : region.length = region.rows * region.columns
  entry : ∀ i j : Nat, i < region.rows → j < region.columns → ∃ value row column,
    (Value.reference (topLeft.offset i j)).resolve grid = .ok value ∧
      region.get i j = .ok (.simple value) ∧
      (region.row i)[j]? = some (.simple value) ∧
      region.column j = .ok column ∧ column[i]? = some (.simple value) ∧
      region.toRows[i]? = some row ∧ row[j]? = some (.simple value)

namespace Grid

open Resolution

variable {grid : Grid} {topLeft bottomRight cell : Cell} {region : Region}

theorem mem_cellsBetween :
    cell ∈ cellsBetween topLeft bottomRight ↔ cell.Between topLeft bottomRight := by
  simp only [cellsBetween, Cell.mem_rectangle, Cell.Between]
  omega

/-- A part of a grid that fits the memory has no more entries than a word counts. -/
theorem fitsWord_of_demand {m n : Nat} (h : FitsWord (demand grid.rows grid.columns))
    (hm : m ≤ grid.rows) (hn : n ≤ grid.columns) : FitsWord (m * n : Nat) := by
  have hpart : m * n ≤ max 1 grid.rows * max 1 grid.columns :=
    Nat.mul_le_mul (hm.trans (Nat.le_max_right ..)) (hn.trans (Nat.le_max_right ..))
  have hdemand : demand grid.rows grid.columns =
      8 * (max 1 grid.rows * max 1 grid.columns : Nat) := by
    have hrows : max 1 (grid.rows : Int) = (max 1 grid.rows : Nat) := by omega
    have hcolumns : max 1 (grid.columns : Int) = (max 1 grid.columns : Nat) := by omega
    rw [demand, hrows, hcolumns, Int.mul_assoc, Int.natCast_mul]
  rw [hdemand] at h
  unfold FitsWord at h ⊢
  omega

theorem resolveRegion_eq_map (htop : grid.InBounds topLeft) (hbottom : grid.InBounds bottomRight)
    (hrows : topLeft.row ≤ bottomRight.row) (hcolumns : topLeft.column ≤ bottomRight.column) :
    grid.resolveRegion topLeft bottomRight =
      (resolveCells grid (cellsBetween topLeft bottomRight) ∅).map fun resolved =>
        { values := resolved.map fun entry => .simple entry.2
          rows := bottomRight.row - topLeft.row + 1
          columns := bottomRight.column - topLeft.column + 1 } := by
  have hordered : ¬ (bottomRight.row < topLeft.row ∨ bottomRight.column < topLeft.column) := by
    omega
  rw [resolveRegion, checkBounds_eq_ok_iff.mpr htop, checkBounds_eq_ok_iff.mpr hbottom]
  simp only [Except.mapError, Except.ok_bind, if_neg hordered]
  rfl

/-- The values of a region fill the rectangle, each what its cell resolves to. -/
theorem filled_of_resolveRegion (htop : grid.InBounds topLeft) (hbottom : grid.InBounds bottomRight)
    (hrows : topLeft.row ≤ bottomRight.row) (hcolumns : topLeft.column ≤ bottomRight.column)
    (h : grid.resolveRegion topLeft bottomRight = .ok region) :
    ∃ m n : Nat, bottomRight.row - topLeft.row + 1 = m ∧
      bottomRight.column - topLeft.column + 1 = n ∧ region.Filled m n ∧
      ∀ i < m, ∀ j < n, ∃ value, (Value.reference (topLeft.offset i j)).resolve grid = .ok value ∧
        region.values[i * n + j]? = some (.simple value) := by
  rw [resolveRegion_eq_map htop hbottom hrows hcolumns, Except.map_eq_ok_iff] at h
  obtain ⟨entries, hentries, rfl⟩ := h
  obtain ⟨m, hm⟩ : ∃ m : Nat, bottomRight.row - topLeft.row + 1 = m :=
    Int.eq_ofNat_of_zero_le (by omega)
  obtain ⟨n, hn⟩ : ∃ n : Nat, bottomRight.column - topLeft.column + 1 = n :=
    Int.eq_ofNat_of_zero_le (by omega)
  have hcells : cellsBetween topLeft bottomRight = topLeft.rectangle m n := by
    rw [cellsBetween, hm, hn, Int.toNat_natCast, Int.toNat_natCast]
  rw [hcells] at hentries
  have hlength : entries.length = m * n := by
    rw [← Cell.length_rectangle topLeft m n, ← map_fst_of_resolveCells hentries, List.length_map]
  refine ⟨m, n, hm, hn, ⟨hm, hn, by rw [List.length_map, hlength]⟩, fun i hi j hj => ?_⟩
  obtain ⟨value, hvalue, hentry⟩ :=
    getElem?_of_resolveCells hentries (Cell.getElem?_rectangle hi hj)
  exact ⟨value, hvalue, by rw [List.getElem?_map, hentry, Option.map_some]⟩

theorem shows_of_resolveRegion (hfits : FitsWord (demand grid.rows grid.columns))
    (htop : grid.InBounds topLeft) (hbottom : grid.InBounds bottomRight)
    (hrows : topLeft.row ≤ bottomRight.row) (hcolumns : topLeft.column ≤ bottomRight.column)
    (h : grid.resolveRegion topLeft bottomRight = .ok region) :
    region.Shows grid topLeft bottomRight := by
  obtain ⟨m, n, hm, hn, hfilled, hvalues⟩ :=
    filled_of_resolveRegion htop hbottom hrows hcolumns h
  have hword : FitsWord (m * n : Nat) := by
    obtain ⟨htop', -, htop'', -⟩ := htop
    obtain ⟨-, hbottom', -, hbottom''⟩ := hbottom
    exact fitsWord_of_demand hfits (by omega) (by omega)
  refine ⟨hfilled.rows.trans hm.symm, hfilled.columns.trans hn.symm, ?_, fun i j hi hj => ?_⟩
  · rw [Region.length, hfilled.length, hfilled.rows, hfilled.columns]
    push_cast
    rfl
  · have hi' : i < m := Int.ofNat_lt.mp (hfilled.rows ▸ hi)
    have hj' : j < n := Int.ofNat_lt.mp (hfilled.columns ▸ hj)
    obtain ⟨value, hvalue, hstored⟩ := hvalues i hi' j hj'
    obtain ⟨column, hcolumn, hplace⟩ := hfilled.column_eq_ok hword hj'
    exact ⟨value, _, column, hvalue, hfilled.get_eq_ok hword hi' hj' hstored,
      (hfilled.getElem?_row hi' hj').trans hstored, hcolumn, (hplace i hi').trans hstored,
      hfilled.getElem?_toRows hi', (hfilled.getElem?_row hi' hj').trans hstored⟩

theorem resolveRegion_eq_error_iff {fault : Fault} (htop : grid.InBounds topLeft)
    (hbottom : grid.InBounds bottomRight) (hrows : topLeft.row ≤ bottomRight.row)
    (hcolumns : topLeft.column ≤ bottomRight.column) :
    grid.resolveRegion topLeft bottomRight = .error fault ↔ ∃ cell failure,
      Fault.locatedAt cell failure = fault ∧ cell.Between topLeft bottomRight ∧
        (∀ c : Cell, c.Between topLeft bottomRight → compare c cell = .lt →
          ∃ value, (Value.reference c).resolve grid = .ok value) ∧
        (Value.reference cell).resolve grid = .error failure := by
  have hordered : (cellsBetween topLeft bottomRight).Pairwise fun a b => compare a b = .lt :=
    Cell.pairwise_rectangle ..
  rw [resolveRegion_eq_map htop hbottom hrows hcolumns, Except.map_eq_error_iff,
    resolveCells_eq_error_iff]
  simp only [Except.failsFirst_iff_of_pairwise Cell.compare_asymm hordered, mem_cellsBetween]

/-- A rectangle resolves if each of its cells does on its own. Otherwise the
first that does not, row by row, is where its failure comes to light. The places
of any grid that can be made are words. -/
theorem resolveRegion_outcome (grid : Grid) (topLeft bottomRight : Cell)
    (hfits : FitsWord (demand grid.rows grid.columns))
    (htop : grid.InBounds topLeft) (hbottom : grid.InBounds bottomRight)
    (hrows : topLeft.row ≤ bottomRight.row) (hcolumns : topLeft.column ≤ bottomRight.column) :
    ((∃ region, grid.resolveRegion topLeft bottomRight = .ok region) ↔
      ∀ c : Cell, c.Between topLeft bottomRight →
        ∃ value, (Value.reference c).resolve grid = .ok value) ∧
    (∀ region, grid.resolveRegion topLeft bottomRight = .ok region →
      region.Shows grid topLeft bottomRight) ∧
    (∀ fault, grid.resolveRegion topLeft bottomRight = .error fault → ∃ cell failure,
      fault = .locatedAt cell failure ∧ cell.Between topLeft bottomRight ∧
        (Value.reference cell).resolve grid = .error failure ∧
        ∀ c : Cell, c.Between topLeft bottomRight → compare c cell = .lt →
          ∃ value, (Value.reference c).resolve grid = .ok value) := by
  refine ⟨?_, fun region => shows_of_resolveRegion hfits htop hbottom hrows hcolumns, ?_⟩
  · simp only [resolveRegion_eq_map htop hbottom hrows hcolumns, Except.map_eq_ok_iff,
      ← mem_cellsBetween, ← exists_resolveCells_eq_ok_iff]
    constructor
    · rintro ⟨_, entries, hentries, -⟩
      exact ⟨entries, hentries⟩
    · rintro ⟨entries, hentries⟩
      exact ⟨_, entries, hentries, rfl⟩
  · intro fault h
    obtain ⟨cell, failure, hfault, hcell, hbefore, hfailure⟩ :=
      (resolveRegion_eq_error_iff htop hbottom hrows hcolumns).mp h
    exact ⟨cell, failure, hfault.symm, hcell, hfailure, hbefore⟩

theorem resolveRegion_copyBesideLoop :
    ∃ region, copyBesideLoop.resolveRegion ⟨0, 0⟩ ⟨0, 1⟩ = .ok region ∧
      region.Shows copyBesideLoop ⟨0, 0⟩ ⟨0, 1⟩ := by
  have houtcome := resolveRegion_outcome copyBesideLoop ⟨0, 0⟩ ⟨0, 1⟩ (by decide) (by decide)
    (by decide) (by decide) (by decide)
  have hregion : copyBesideLoop.resolveRegion ⟨0, 0⟩ ⟨0, 1⟩ = .ok
      ⟨[.simple (.integer ⟨1, by decide⟩), .simple (.integer ⟨1, by decide⟩)], 1, 2⟩ := by cbv
  exact ⟨_, hregion, houtcome.2.1 _ hregion⟩

/-- A text joined from a float with more decimal places than can be displayed. -/
def overlongText : Grid :=
  ⟨1, 1, #v[#v[.call "CONCAT" [.simple (.float (.zero false) (2 ^ 31)), .simple .null]]]⟩

/-- A failure to display comes to light at no cell. -/
theorem resolveRegion_overlongText :
    (Value.reference ⟨0, 0⟩).resolve overlongText = .error (.undisplayable (.precision ⟨2 ^ 31⟩)) ∧
      overlongText.resolveRegion ⟨0, 0⟩ ⟨0, 0⟩ =
        .error (.failure (.undisplayable (.precision ⟨2 ^ 31⟩)) none) ∧
      overlongText.resolveRegion ⟨0, 0⟩ ⟨0, 0⟩ ≠
        .error (.failure (.undisplayable (.precision ⟨2 ^ 31⟩)) (some ⟨0, 0⟩)) := by
  have hregion : overlongText.resolveRegion ⟨0, 0⟩ ⟨0, 0⟩ =
      .error (.failure (.undisplayable (.precision ⟨2 ^ 31⟩)) none) := by cbv
  refine ⟨by cbv, hregion, ?_⟩
  rw [hregion]
  simp

end Grid

end Worksheet
