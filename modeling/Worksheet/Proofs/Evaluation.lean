import Worksheet.Proofs.Function
import Worksheet.Proofs.Reach
import Worksheet.Resolution.Evaluation

/-!
# What an evaluation depends on

Evaluation succeeds only if no cell that the value reaches lies on the path or
reaches itself. Its outcome depends on the cells that the value reaches and on
nothing else, and a value once found is found again inside any other path that
it does not reach.
-/

namespace Worksheet.Value

open Relation (TransGen)

variable {grid other : Grid} {path : List Cell} {cell : Cell} {v : Value}

@[simp] theorem evaluate_simple (value : Simple) :
    (Value.simple value).evaluate grid path = .ok value := by
  rw [evaluate]

theorem evaluate_outside (h : grid.get? cell = none) :
    (Value.reference cell).evaluate grid path = .error (grid.outside cell) := by
  rw [evaluate]
  split <;> simp_all

theorem evaluate_cycle (h : grid.get? cell = some v) (hcell : cell ∈ path) :
    (Value.reference cell).evaluate grid path = .error (.cycle (cycleAt path cell)) := by
  rw [evaluate]
  split <;> simp_all

theorem evaluate_enter (h : grid.get? cell = some v) (hcell : cell ∉ path) :
    (Value.reference cell).evaluate grid path = v.evaluate grid (cell :: path) := by
  rw [evaluate]
  split <;> simp_all

theorem evaluate_call (function : String) (operands : List Value) :
    (Value.call function operands).evaluate grid path =
      evaluateEach grid path operands >>= Function.applyNamed function := by
  rw [evaluate]

@[simp] theorem evaluateEach_nil : evaluateEach grid path [] = .ok [] := by
  rw [evaluateEach]

theorem evaluateEach_cons (v : Value) (vs : List Value) :
    evaluateEach grid path (v :: vs) = do
      let value ← v.evaluate grid path
      let values ← evaluateEach grid path vs
      return value :: values := by
  rw [evaluateEach]

/-- The evaluator's own induction, for one property of values inside a path. -/
theorem evaluate_induction (grid : Grid) {motive : List Cell → Value → Prop}
    (simple : ∀ path value, motive path (.simple value))
    (outside : ∀ path cell, grid.get? cell = none → motive path (.reference cell))
    (cycle : ∀ path cell v, grid.get? cell = some v → cell ∈ path →
      motive path (.reference cell))
    (enter : ∀ path cell v, grid.get? cell = some v → cell ∉ path → motive (cell :: path) v →
      motive path (.reference cell))
    (call : ∀ path function operands, (∀ v ∈ operands, motive path v) →
      motive path (.call function operands))
    (path : List Cell) (v : Value) : motive path v := by
  refine evaluate.induct grid motive (fun path vs => ∀ v ∈ vs, motive path v)
    simple outside cycle enter call ?nil ?cons path v
  case nil => simp
  case cons =>
    intro path v vs hv hvs
    simpa using ⟨hv, hvs⟩

theorem exists_of_evaluateEach_eq_ok {vs : List Value} {values : List Simple}
    (h : evaluateEach grid path vs = .ok values) :
    ∀ v ∈ vs, ∃ value, v.evaluate grid path = .ok value := by
  induction vs generalizing values with
  | nil => simp
  | cons w vs ih =>
      simp only [evaluateEach_cons, Except.bind_eq_ok_iff] at h
      obtain ⟨value, hw, rest, hrest, -⟩ := h
      rintro v (_ | ⟨_, hv⟩)
      · exact ⟨value, hw⟩
      · exact ih hrest v hv

theorem exists_of_evaluateEach_eq_error {vs : List Value} {failure : Failure}
    (h : evaluateEach grid path vs = .error failure) :
    ∃ v ∈ vs, v.evaluate grid path = .error failure := by
  induction vs with
  | nil => simp at h
  | cons w vs ih =>
      simp only [evaluateEach_cons, Except.bind_eq_error_iff] at h
      rcases h with h | ⟨_, -, h | ⟨_, -, h⟩⟩
      · exact ⟨w, List.mem_cons_self, h⟩
      · obtain ⟨v, hv, hfail⟩ := ih h
        exact ⟨v, List.mem_cons_of_mem w hv, hfail⟩
      · cases h

theorem evaluateEach_eq_mapM (vs : List Value) :
    evaluateEach grid path vs = vs.mapM fun v => v.evaluate grid path := by
  induction vs with
  | nil => simp
  | cons v vs ih => rw [evaluateEach_cons, ih, List.mapM_cons]

theorem length_of_evaluateEach {vs : List Value} {values : List Simple}
    (h : evaluateEach grid path vs = .ok values) : values.length = vs.length := by
  induction vs generalizing values with
  | nil => simp_all
  | cons w vs ih =>
      simp only [evaluateEach_cons, Except.bind_eq_ok_iff, Except.pure_eq_ok,
        Except.ok.injEq] at h
      obtain ⟨_, -, rest, hrest, rfl⟩ := h
      rw [List.length_cons, List.length_cons, ih hrest]

theorem evaluateEach_congr {path' : List Cell} {vs : List Value}
    (h : ∀ v ∈ vs, v.evaluate other path' = v.evaluate grid path) :
    evaluateEach other path' vs = evaluateEach grid path vs := by
  induction vs with
  | nil => simp
  | cons v vs ih =>
      rw [evaluateEach_cons, evaluateEach_cons, h v List.mem_cons_self,
        ih fun w hw => h w (List.mem_cons_of_mem v hw)]

theorem evaluate_eq_of_agree (hrows : other.rows = grid.rows)
    (hcolumns : other.columns = grid.columns)
    (hagree : ∀ c, v.Reaches grid c → other.get? c = grid.get? c) :
    v.evaluate other path = v.evaluate grid path := by
  induction path, v using evaluate_induction grid with
  | simple path value => simp
  | outside path c hc =>
      have hc' : other.get? c = none := hagree c (.direct (by simp)) ▸ hc
      rw [evaluate_outside hc, evaluate_outside hc', Grid.outside_congr hrows hcolumns]
  | cycle path c v hc hpath =>
      have hc' : other.get? c = some v := hagree c (.direct (by simp)) ▸ hc
      rw [evaluate_cycle hc hpath, evaluate_cycle hc' hpath]
  | enter path c v hc hpath ih =>
      have hc' : other.get? c = some v := hagree c (.direct (by simp)) ▸ hc
      rw [evaluate_enter hc hpath, evaluate_enter hc' hpath]
      exact ih fun d hd => hagree d (hd.of_stored hc)
  | call path function operands ih =>
      have heach : evaluateEach other path operands = evaluateEach grid path operands :=
        evaluateEach_congr fun w hw =>
          ih w hw fun c hc => hagree c (reaches_call_iff.mpr ⟨w, hw, hc⟩)
      rw [evaluate_call, evaluate_call, heach]

/-- Where evaluation succeeds it has met no cell twice on one path. -/
theorem of_evaluate_eq_ok {value : Simple} (h : v.evaluate grid path = .ok value)
    (hreach : v.Reaches grid cell) :
    grid.InBounds cell ∧ cell ∉ path ∧ ¬ TransGen grid.Reads cell cell := by
  induction path, v using evaluate_induction grid generalizing value cell with
  | simple path value => exact absurd hreach not_reaches_simple
  | outside path c hc => simp [evaluate_outside hc] at h
  | cycle path c v hc hpath => simp [evaluate_cycle hc hpath] at h
  | enter path c v hc hpath ih =>
      rw [evaluate_enter hc hpath] at h
      rcases reaches_reference_cases hc hreach with rfl | hcell
      · refine ⟨Block.get?_isSome_iff.mp (by simp [hc]), hpath, fun hself => ?_⟩
        have hmem := (ih h ((reaches_iff_transGen hc).mpr hself)).2.1
        exact hmem List.mem_cons_self
      · obtain ⟨hin, hmem, hself⟩ := ih h hcell
        exact ⟨hin, fun hp => hmem (List.mem_cons_of_mem c hp), hself⟩
  | call path function operands ih =>
      rw [evaluate_call, Except.bind_eq_ok_iff] at h
      obtain ⟨values, hvalues, -⟩ := h
      obtain ⟨w, hw, hcell⟩ := reaches_call_iff.mp hreach
      obtain ⟨x, hx⟩ := exists_of_evaluateEach_eq_ok hvalues w hw
      exact ih w hw hx hcell

/-- Values that are found do not depend on the shape of the grid, nor on a path
that is not met. -/
theorem evaluate_eq_ok_of_agree {path' : List Cell} {value : Simple}
    (h : v.evaluate grid path = .ok value)
    (hagree : ∀ c, v.Reaches grid c → other.get? c = grid.get? c ∧ c ∉ path') :
    v.evaluate other path' = .ok value := by
  induction path, v using evaluate_induction grid generalizing value path' with
  | simple path x => simpa using h
  | outside path c hc => simp [evaluate_outside hc] at h
  | cycle path c v hc hpath => simp [evaluate_cycle hc hpath] at h
  | enter path c v hc hpath ih =>
      rw [evaluate_enter hc hpath] at h
      obtain ⟨hstored, hmem⟩ := hagree c (.direct (by simp))
      rw [evaluate_enter (hstored.trans hc) hmem]
      apply ih h
      intro d hd
      obtain ⟨hsame, hmem'⟩ := hagree d (hd.of_stored hc)
      have hne : d ∉ c :: path := (of_evaluate_eq_ok h hd).2.1
      simp only [List.mem_cons, not_or] at hne ⊢
      exact ⟨hsame, hne.1, hmem'⟩
  | call path function operands ih =>
      rw [evaluate_call, Except.bind_eq_ok_iff] at h
      obtain ⟨values, hvalues, happly⟩ := h
      have heach : evaluateEach other path' operands = evaluateEach grid path operands := by
        apply evaluateEach_congr
        intro w hw
        obtain ⟨x, hx⟩ := exists_of_evaluateEach_eq_ok hvalues w hw
        rw [hx]
        exact ih w hw hx fun c hc => hagree c (reaches_call_iff.mpr ⟨w, hw, hc⟩)
      rw [evaluate_call, heach, hvalues, Except.ok_bind, happly]

theorem evaluate_eq_ok_of_disjoint {path' : List Cell} {value : Simple}
    (h : v.evaluate grid path = .ok value) (hpath : ∀ c, v.Reaches grid c → c ∉ path') :
    v.evaluate grid path' = .ok value :=
  evaluate_eq_ok_of_agree h fun c hc => ⟨rfl, hpath c hc⟩

/-- A cell that resolves on its own does so inside a path of cells that lead to
it, because none of them can be met again. -/
theorem evaluate_eq_ok_of_isTrail {value : Simple}
    (h : (Value.reference cell).evaluate grid [] = .ok value)
    (htrail : grid.IsTrail (cell :: path)) :
    (Value.reference cell).evaluate grid path = .ok value := by
  apply evaluate_eq_ok_of_disjoint h
  intro c hc hmem
  have hself : TransGen grid.Reads c c :=
    (htrail.transGen hmem).trans_left (reaches_reference_iff.mp hc)
  exact (of_evaluate_eq_ok h hc).2.2 hself

end Worksheet.Value
