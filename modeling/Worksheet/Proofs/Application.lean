import Worksheet.Proofs.Apply

/-!
# What an application comes to

Rows that are not rectangular are refused, and rows without entries change
nothing. The name, the start and the opposite corner are looked at next, in
this order. After that the outcome depends on the places of the patch one by
one: the first that fails, row by row, fails the whole, and otherwise all
results are stored.
-/

namespace Worksheet.Grid

open Block (EntryAt Rectangular RaggedAt)
open Resolution

variable {grid after : Grid} {f : Function} {start cell : Cell} {name : String}
  {rows : List (List Value)} {patch : Block Value} {m n i j : Nat}

/-- Rows of entries that may be combined with the cells from a start on. The
last of them has the offset `(m, n)`. -/
structure Admits (grid : Grid) (start : Cell) (f : Function) (name : String)
    (rows : List (List Value)) (m n : Nat) : Prop where
  rectangular : Rectangular rows (m + 1) (n + 1)
  known : f.name = name
  first : grid.InBounds start
  last : grid.InBounds (start.offset m n)

/-- The grid after the application: the result at each place of the patch, and
what was there before at all other cells. -/
structure Combines (grid : Grid) (start : Cell) (f : Function) (rows : List (List Value))
    (m n : Nat) (after : Grid) : Prop where
  elsewhere : Block.WrittenAt (start.rectangle (m + 1) (n + 1)) grid after
  result : ∀ i j v, EntryAt rows i j v → ∃ value,
    grid.combined f (start.offset i j) v = .ok value ∧
      after.get? (start.offset i j) = some (.simple value)

/-- The outcomes of applying a named function to rows, each under its own
conditions. -/
inductive Applies (grid : Grid) (start : Cell) (name : String) (rows : List (List Value)) :
    Except Fault Grid → Prop where
  | ragged {i width expected : Nat} :
      RaggedAt rows i width expected →
      Applies grid start name rows (.error (.ragged i width expected))
  | empty {m n : Nat} :
      Rectangular rows m n → m = 0 ∨ n = 0 → Applies grid start name rows (.ok grid)
  | unknownFunction {m n : Nat} :
      Rectangular rows (m + 1) (n + 1) → (∀ f : Function, f.name ≠ name) →
      Applies grid start name rows (.error (.failure (.unknownFunction name) none))
  | startOutside {m n : Nat} {f : Function} :
      Rectangular rows (m + 1) (n + 1) → f.name = name → ¬ grid.InBounds start →
      Applies grid start name rows
        (.error (.failure (grid.outside start) none))
  | lastOutside {m n : Nat} {f : Function} :
      Rectangular rows (m + 1) (n + 1) → f.name = name → grid.InBounds start →
      ¬ grid.InBounds (start.offset m n) →
      Applies grid start name rows
        (.error (.failure (grid.outside (start.offset m n)) none))
  | fails {m n i j : Nat} {f : Function} {v : Value} {failure : Failure} :
      grid.Admits start f name rows m n → EntryAt rows i j v →
      (∀ k l w, k < i ∨ k = i ∧ l < j → EntryAt rows k l w →
        ∃ value, grid.combined f (start.offset k l) w = .ok value) →
      grid.combined f (start.offset i j) v = .error failure →
      Applies grid start name rows (.error (.locatedAt (start.offset i j) failure))
  | stored {m n : Nat} {f : Function} {after : Grid} :
      grid.Admits start f name rows m n → grid.Combines start f rows m n after →
      Applies grid start name rows (.ok after)

theorem apply_of_ragged {i width expected : Nat} (h : RaggedAt rows i width expected) :
    grid.apply start name rows = .error (.ragged i width expected) := by
  rw [apply, Block.ofRows_eq_error h.shape_eq, Except.error_bind]

theorem apply_eq_applyBlock (grid : Grid) (start : Cell) (name : String)
    (h : Rectangular rows m n) :
    ∃ patch : Block Value, patch.rows = m ∧ patch.columns = n ∧
      (∀ i j v, EntryAt rows i j v ↔ patch.get? ⟨i, j⟩ = some v) ∧
      grid.apply start name rows = grid.applyBlock start name patch := by
  obtain ⟨patch, hpatch, hrows, hcolumns, rfl⟩ := h.exists_ofRows
  refine ⟨patch, hrows, hcolumns, fun i j v => Block.entryAt_toRows, ?_⟩
  rw [apply, hpatch, Except.ok_bind]

/-- Under a known name the two corners are looked at, and then the places. -/
theorem apply_eq_of_known (h : Rectangular rows (m + 1) (n + 1)) (hname : f.name = name) :
    ∃ patch : Block Value, patch.rows = m + 1 ∧ patch.columns = n + 1 ∧
      (∀ i j v, EntryAt rows i j v ↔ patch.get? ⟨i, j⟩ = some v) ∧
      grid.apply start name rows = (do
        (grid.checkBounds start).mapError .unlocated
        (grid.checkBounds (start.offset m n)).mapError .unlocated
        ((targets start patch).mapM (combineOn grid f)).map fun results =>
          grid.store (.ofList results)) := by
  obtain ⟨patch, hrows, hcolumns, hentry, happly⟩ :=
    apply_eq_applyBlock grid start name h
  refine ⟨patch, hrows, hcolumns, hentry, ?_⟩
  have hfull : ¬ patch.isEmpty = true := by simp [Block.isEmpty, hrows, hcolumns]
  have hlast : start.offset (patch.rows - 1) (patch.columns - 1) = start.offset m n := by
    simp [hrows, hcolumns]
  have hnamed : Function.named name = .ok f :=
    Function.named_eq_ok_iff.mpr (Function.ofName?_eq_some_iff.mpr hname)
  rw [happly, applyBlock, if_neg hfull, hnamed, Except.mapError_ok, Except.ok_bind,
    combineAll_eq_mapM Memo.sound_empty, checkFit, hlast, Except.mapError_bind, bind_assoc]
  cases (targets start patch).mapM (combineOn grid f) <;> rfl

/-- Rows without entries change nothing. -/
theorem apply_of_empty (h : Rectangular rows m n) (hempty : m = 0 ∨ n = 0) :
    grid.apply start name rows = .ok grid := by
  obtain ⟨patch, rfl, rfl, -, happly⟩ :=
    apply_eq_applyBlock grid start name h
  have hpatch : patch.isEmpty := by simpa [Block.isEmpty] using hempty
  rw [happly, applyBlock, if_pos hpatch]

theorem apply_of_unknown (h : Rectangular rows (m + 1) (n + 1))
    (hname : ∀ f : Function, f.name ≠ name) :
    grid.apply start name rows = .error (.failure (.unknownFunction name) none) := by
  obtain ⟨patch, hrows, hcolumns, -, happly⟩ :=
    apply_eq_applyBlock grid start name h
  have hfull : ¬ patch.isEmpty = true := by simp [Block.isEmpty, hrows, hcolumns]
  rw [happly, applyBlock, if_neg hfull, Function.named_eq_error hname, Except.mapError_error,
    Except.error_bind]
  rfl

theorem apply_of_startOutside (h : Rectangular rows (m + 1) (n + 1)) (hname : f.name = name)
    (hstart : ¬ grid.InBounds start) :
    grid.apply start name rows = .error (.failure (grid.outside start) none) := by
  obtain ⟨patch, -, -, -, happly⟩ := apply_eq_of_known h hname
  rw [happly, checkBounds, if_neg hstart, Except.mapError_error, Except.error_bind]
  rfl

theorem apply_of_lastOutside (h : Rectangular rows (m + 1) (n + 1)) (hname : f.name = name)
    (hstart : grid.InBounds start) (hlast : ¬ grid.InBounds (start.offset m n)) :
    grid.apply start name rows = .error (.failure (grid.outside (start.offset m n)) none) := by
  obtain ⟨patch, -, -, -, happly⟩ := apply_eq_of_known h hname
  rw [happly, checkBounds_eq_ok_iff.mpr hstart, checkBounds, if_neg hlast, Except.mapError_ok,
    Except.ok_bind, Except.mapError_error, Except.error_bind]
  rfl

namespace Admits

variable (h : grid.Admits start f name rows m n)

include h

theorem apply_eq : ∃ patch : Block Value, patch.rows = m + 1 ∧ patch.columns = n + 1 ∧
    (∀ i j v, EntryAt rows i j v ↔ patch.get? ⟨i, j⟩ = some v) ∧
    grid.apply start name rows =
      ((targets start patch).mapM (combineOn grid f)).map fun results =>
        grid.store (.ofList results) := by
  obtain ⟨patch, hrows, hcolumns, hentry, happly⟩ := apply_eq_of_known h.rectangular h.known
  refine ⟨patch, hrows, hcolumns, hentry, ?_⟩
  rw [happly, checkBounds_eq_ok_iff.mpr h.first, checkBounds_eq_ok_iff.mpr h.last,
    Except.mapError_ok, Except.ok_bind, Except.ok_bind]

/-- The application fails where the first place, row by row, fails on its own. -/
theorem apply_eq_error_iff {fault : Fault} :
    grid.apply start name rows = .error fault ↔ ∃ i j v failure, EntryAt rows i j v ∧
      (∀ k l w, k < i ∨ k = i ∧ l < j → EntryAt rows k l w →
        ∃ value, grid.combined f (start.offset k l) w = .ok value) ∧
      grid.combined f (start.offset i j) v = .error failure ∧
      .locatedAt (start.offset i j) failure = fault := by
  obtain ⟨patch, -, -, hentry, happly⟩ := h.apply_eq
  have hlocate : ∀ target fault, Except.FailsFirst (combineOn grid f) (targets start patch) target
      fault ↔ ∃ failure, .locatedAt target.1 failure = fault ∧
        Except.FailsFirst (fun t => grid.combined f t.1 t.2) (targets start patch) target failure :=
    fun _ _ => Except.failsFirst_located_iff
  have horder : ∀ i j k l : Nat, compare (start.offset k l) (start.offset i j) = .lt ↔
      k < i ∨ k = i ∧ l < j := by
    intro i j k l
    simp only [Cell.compare_eq_lt_iff, Cell.offset]
    omega
  rw [happly, Except.map_eq_error_iff, Except.mapM_eq_error_iff]
  simp only [hlocate, Except.failsFirst_iff_of_pairwise
    (r := fun a b : Cell × Value => compare a.1 b.1 = .lt) (fun a b => Cell.compare_asymm a.1 b.1)
    (pairwise_targets start patch), Prod.exists, Prod.forall, mem_targets_iff, ← hentry]
  constructor
  · rintro ⟨_, v, failure, hfault, ⟨i, j, hv, rfl⟩, hbefore, hfailure⟩
    refine ⟨i, j, v, failure, hv, fun k l w hkl hw => ?_, hfailure, hfault⟩
    exact hbefore _ w ⟨k, l, hw, rfl⟩ ((horder i j k l).mpr hkl)
  · rintro ⟨i, j, v, failure, hv, hbefore, hfailure, hfault⟩
    refine ⟨_, v, failure, hfault, ⟨i, j, hv, rfl⟩, ?_, hfailure⟩
    rintro _ w ⟨k, l, hw, rfl⟩ hlt
    exact hbefore k l w ((horder i j k l).mp hlt) hw

theorem inBounds {v : Value} (hv : EntryAt rows i j v) : grid.InBounds (start.offset i j) := by
  obtain ⟨hi, hj⟩ := h.rectangular.lt_of_entryAt hv
  exact Block.inBounds_offset h.first h.last (Nat.le_of_lt_succ hi) (Nat.le_of_lt_succ hj)

theorem combines_of_apply (happly : grid.apply start name rows = .ok after) :
    grid.Combines start f rows m n after where
  elsewhere := by
    obtain ⟨patch, hrows, hcolumns, -, heq⟩ :=
      apply_eq_applyBlock grid start name h.rectangular
    rw [← hrows, ← hcolumns]
    exact writtenAt_of_applyBlock (heq ▸ happly)
  result i j v hv := by
    obtain ⟨patch, hrows, hcolumns, hentry, heq⟩ := h.apply_eq
    rw [heq, Except.map_eq_ok_iff] at happly
    obtain ⟨results, hresults, rfl⟩ := happly
    have htarget : (start.offset i j, v) ∈ targets start patch :=
      mem_targets_iff.mpr ⟨i, j, (hentry i j v).mp hv, rfl⟩
    obtain ⟨entry, hmem, hcombine⟩ := Except.exists_mem_of_mapM hresults htarget
    simp only [combineOn, Except.map_eq_ok_iff, Except.mapError_eq_ok_iff] at hcombine
    obtain ⟨value, hvalue, rfl⟩ := hcombine
    rw [← combineAll_eq_mapM Memo.sound_empty] at hresults
    obtain ⟨w, hw⟩ := Option.isSome_iff_exists.mp (Block.get?_isSome_iff.mpr (h.inBounds hv))
    refine ⟨value, hvalue, ?_⟩
    rw [get?_store, hw, getElem?_of_combineAll hresults hmem]
    rfl

/-- The places and the cells elsewhere are all there is to a grid. -/
theorem eq_of_combines {other : Grid} (hafter : grid.Combines start f rows m n after)
    (hother : grid.Combines start f rows m n other) : after = other := by
  apply Block.ext_get?
  · rw [hafter.elsewhere.rows, hother.elsewhere.rows]
  · rw [hafter.elsewhere.columns, hother.elsewhere.columns]
  · intro c
    by_cases hc : c ∈ start.rectangle (m + 1) (n + 1)
    · obtain ⟨i, j, v, hv, rfl⟩ := h.rectangular.exists_entryAt hc
      obtain ⟨value, hvalue, hget⟩ := hafter.result i j v hv
      obtain ⟨value', hvalue', hget'⟩ := hother.result i j v hv
      obtain rfl : value = value' := Except.ok.inj (hvalue.symm.trans hvalue')
      rw [hget, hget']
    · rw [hafter.elsewhere.stored c hc, hother.elsewhere.stored c hc]

theorem apply_eq_ok_iff :
    grid.apply start name rows = .ok after ↔ grid.Combines start f rows m n after := by
  refine ⟨h.combines_of_apply, fun hafter => ?_⟩
  cases happly : grid.apply start name rows with
  | error fault =>
      obtain ⟨i, j, v, failure, hv, -, hfailure, -⟩ := h.apply_eq_error_iff.mp happly
      obtain ⟨value, hvalue, -⟩ := hafter.result i j v hv
      simp [hvalue] at hfailure
  | ok other => rw [h.eq_of_combines (h.combines_of_apply happly) hafter]

end Admits

/-- Some outcome is always the one whose conditions hold. -/
theorem applies_apply (grid : Grid) (start : Cell) (name : String) (rows : List (List Value)) :
    grid.Applies start name rows (grid.apply start name rows) := by
  rcases Block.rectangular_or_ragged rows with ⟨m, n, hrows⟩ | ⟨i, width, expected, hragged⟩
  · by_cases hempty : m = 0 ∨ n = 0
    · rw [apply_of_empty hrows hempty]
      exact .empty hrows hempty
    · obtain ⟨m, rfl⟩ := Nat.exists_eq_succ_of_ne_zero fun hm => hempty (.inl hm)
      obtain ⟨n, rfl⟩ := Nat.exists_eq_succ_of_ne_zero fun hn => hempty (.inr hn)
      by_cases hname : ∃ f : Function, f.name = name
      · obtain ⟨f, hf⟩ := hname
        by_cases hstart : grid.InBounds start
        · by_cases hlast : grid.InBounds (start.offset m n)
          · have h : grid.Admits start f name rows m n := ⟨hrows, hf, hstart, hlast⟩
            cases happly : grid.apply start name rows with
            | error fault =>
                obtain ⟨i, j, v, failure, hv, hbefore, hfailure, rfl⟩ :=
                  h.apply_eq_error_iff.mp happly
                exact .fails h hv hbefore hfailure
            | ok after => exact .stored h (h.apply_eq_ok_iff.mp happly)
          · rw [apply_of_lastOutside hrows hf hstart hlast]
            exact .lastOutside hrows hf hstart hlast
        · rw [apply_of_startOutside hrows hf hstart]
          exact .startOutside hrows hf hstart
      · have hunknown : ∀ f : Function, f.name ≠ name := fun f hf => hname ⟨f, hf⟩
        rw [apply_of_unknown hrows hunknown]
        exact .unknownFunction hrows hunknown
  · rw [apply_of_ragged hragged]
    exact .ragged hragged

/-- Applying a function to rows comes to an outcome exactly if the conditions of
that outcome hold. The rows may be those of a region. -/
theorem apply_eq_iff_applies (grid : Grid) (start : Cell) (name : String)
    (rows : List (List Value)) (result : Except Fault Grid) :
    grid.apply start name rows = result ↔ grid.Applies start name rows result := by
  constructor
  · rintro rfl
    exact applies_apply grid start name rows
  · intro h
    cases h with
    | ragged hragged => exact apply_of_ragged hragged
    | empty hrows hempty => exact apply_of_empty hrows hempty
    | unknownFunction hrows hname => exact apply_of_unknown hrows hname
    | startOutside hrows hname hstart => exact apply_of_startOutside hrows hname hstart
    | lastOutside hrows hname hstart hlast => exact apply_of_lastOutside hrows hname hstart hlast
    | fails h hv hbefore hfailure =>
        exact h.apply_eq_error_iff.mpr ⟨_, _, _, _, hv, hbefore, hfailure, rfl⟩
    | stored h hafter => exact h.apply_eq_ok_iff.mpr hafter

/-- The first place fails here, but a failure to display comes to light at no cell. -/
theorem apply_overlongPatch :
    copyBesideLoop.combined .concat ⟨0, 0⟩ (.simple (.float (.zero false) (2 ^ 31))) =
        .error (.undisplayable (.precision ⟨2 ^ 31⟩)) ∧
      copyBesideLoop.apply ⟨0, 0⟩ "CONCAT" [[.simple (.float (.zero false) (2 ^ 31))]] =
        .error (.failure (.undisplayable (.precision ⟨2 ^ 31⟩)) none) ∧
      copyBesideLoop.apply ⟨0, 0⟩ "CONCAT" [[.simple (.float (.zero false) (2 ^ 31))]] ≠
        .error (.failure (.undisplayable (.precision ⟨2 ^ 31⟩)) (some ⟨0, 0⟩)) := by
  have happly : copyBesideLoop.apply ⟨0, 0⟩ "CONCAT"
      [[.simple (.float (.zero false) (2 ^ 31))]] =
        .error (.failure (.undisplayable (.precision ⟨2 ^ 31⟩)) none) := by cbv
  refine ⟨by cbv, happly, ?_⟩
  rw [happly]
  simp

end Worksheet.Grid
