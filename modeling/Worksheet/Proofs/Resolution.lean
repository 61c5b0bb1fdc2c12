import Mathlib
import Worksheet.Proofs.Cells
import Worksheet.Proofs.Evaluation
import Worksheet.Proofs.Writing

/-!
# The machine finds what evaluation finds

Each state of the machine stands for an outcome: that of its focus, handed to
the frames of the stack one after the other. A step changes neither the
outcome nor that the memo holds cells with what they resolve to on their own,
so that a run ends in the outcome of the value it started from. The memo does
not get in the way, because a cell that has resolved lies on no cycle and is
never met inside itself.
-/

namespace Worksheet

namespace Resolution

/-- The cells on a stack, the innermost first. -/
def pathOf : List Frame → List Cell
  | [] => []
  | .cell c :: stack => c :: pathOf stack
  | .call .. :: stack => pathOf stack

def Memo.Sound (grid : Grid) (memo : Memo) : Prop :=
  ∀ ⦃cell value⦄, memo[cell]? = some value →
    (Value.reference cell).evaluate grid [] = .ok value

/-- What the frames of a stack come to in the end, once handed an outcome. -/
inductive Awaits (grid : Grid) :
    List Frame → Except Failure Simple → Except Failure Simple → Prop where
  | empty (outcome : Except Failure Simple) : Awaits grid [] outcome outcome
  | cell {c : Cell} {stack : List Frame} {outcome final : Except Failure Simple} :
      (Value.reference c).evaluate grid (pathOf stack) = outcome →
      Awaits grid stack outcome final → Awaits grid (.cell c :: stack) outcome final
  | call {function : String} {results : List Simple} {operands : List Value}
      {stack : List Frame} {outcome final : Except Failure Simple} :
      (∀ v ∈ operands, v.Continues grid (pathOf stack)) →
      Awaits grid stack
        (do
          let value ← outcome
          let values ← Value.evaluateEach grid (pathOf stack) operands
          Function.applyNamed function ((value :: results).reverse ++ values))
        final →
      Awaits grid (.call function results operands :: stack) outcome final

namespace Focus

def outcome (grid : Grid) (path : List Cell) : Focus → Except Failure Simple
  | .todo v => v.evaluate grid path
  | .result value => .ok value

def Continues (grid : Grid) (path : List Cell) : Focus → Prop
  | .todo v => v.Continues grid path
  | .result _ => True

end Focus

/-- The state comes to the final outcome if its focus comes to the given one. -/
structure Ready (grid : Grid) (s : State) (outcome final : Except Failure Simple) : Prop where
  path : s.path = pathOf s.stack
  nodup : s.path.Nodup
  onPath : ∀ c, c ∈ s.onPath ↔ c ∈ s.path
  memo : Memo.Sound grid s.memo
  stack : Awaits grid s.stack outcome final

structure Invariant (grid : Grid) (s : State) (final : Except Failure Simple) : Prop where
  ready : Ready grid s (s.focus.outcome grid s.path) final
  continues : s.focus.Continues grid s.path

def Step.Keeps (grid : Grid) (final : Except Failure Simple) : Step → Prop
  | .next t => Invariant grid t final
  | .stop outcome => outcome.result = final ∧ Memo.Sound grid outcome.memo

variable {grid : Grid} {s t : State} {outcome final : Except Failure Simple}

/-- No frame recovers from a failure. -/
theorem Awaits.eq_error {stack : List Frame} {failure : Failure}
    (h : Awaits grid stack outcome final) (hfail : outcome = .error failure) :
    final = .error failure := by
  induction h with
  | empty => exact hfail
  | cell _ _ ih => exact ih hfail
  | call _ _ ih => exact ih (by rw [hfail, Except.error_bind])

theorem Memo.Sound.insert {memo : Memo} {cell : Cell} {value : Simple} {path : List Cell}
    (h : Memo.Sound grid memo) (hcell : (Value.reference cell).evaluate grid path = .ok value) :
    Memo.Sound grid (memo.insert cell value) := by
  intro c x hc
  rw [Std.ExtTreeMap.getElem?_insert] at hc
  split at hc
  next heq =>
      obtain rfl := Std.LawfulEqOrd.eq_of_compare heq
      obtain rfl := Option.some.inj hc
      exact Value.evaluate_eq_ok_of_disjoint hcell fun _ _ => List.not_mem_nil
  next => exact h hc

theorem keeps_yield (h : Ready grid s outcome final) : (s.yield outcome).Keeps grid final := by
  cases outcome with
  | error failure => exact ⟨(h.stack.eq_error rfl).symm, h.memo⟩
  | ok value => exact ⟨{ h with }, trivial⟩

theorem keeps_visit {cell : Cell}
    (h : Ready grid s ((Value.reference cell).evaluate grid s.path) final)
    (hcell : (Value.reference cell).Continues grid s.path) :
    (visit grid s cell).Keeps grid final := by
  unfold visit
  split
  next hget =>
      rw [Value.evaluate_outside hget] at h
      exact keeps_yield h
  next v hget =>
      split
      next value hmemo =>
          -- What a cell resolves to on its own it resolves to inside a path that leads to it.
          rw [Value.evaluate_eq_ok_of_isTrail (h.memo hmemo) hcell.isTrail] at h
          exact keeps_yield h
      next hmemo =>
          split
          next honPath =>
              have hpath : cell ∈ s.path := (h.onPath cell).mp honPath
              rw [Value.evaluate_cycle hget hpath] at h
              exact keeps_yield h
          next honPath =>
              have hpath : cell ∉ s.path := fun hmem => honPath ((h.onPath cell).mpr hmem)
              have henter := Value.evaluate_enter hget hpath
              rw [henter] at h
              refine ⟨⟨?_, List.nodup_cons.mpr ⟨hpath, h.nodup⟩, ?_, h.memo, ?_⟩,
                hcell.stored hget⟩
              · simp [State.openCell, pathOf, h.path]
              · intro c
                simp only [State.openCell, CellSet.mem_insert_iff, h.onPath, List.mem_cons]
              · exact .cell (h.path ▸ henter) h.stack

theorem keeps_closeCell {cell : Cell} {value : Simple} {stack : List Frame}
    (h : Ready grid s (.ok value) final) (hstack : s.stack = .cell cell :: stack) :
    Invariant grid (s.closeCell cell value stack) final := by
  have hpath : s.path = cell :: pathOf stack := by rw [h.path, hstack, pathOf]
  have hcell : cell ∉ pathOf stack := (List.nodup_cons.mp (hpath ▸ h.nodup)).1
  have hawaits := hstack ▸ h.stack
  cases hawaits with
  | cell hvalue hrest =>
      refine ⟨⟨?_, ?_, ?_, h.memo.insert hvalue, hrest⟩, trivial⟩
      · simp [State.closeCell, hpath]
      · exact h.nodup.tail
      · intro c
        simp only [State.closeCell, CellSet.mem_erase_iff, h.onPath, hpath, List.mem_cons,
          List.tail_cons]
        constructor
        · rintro ⟨hne, hc⟩
          exact hc.resolve_left hne
        · intro hc
          exact ⟨fun heq => hcell (heq ▸ hc), .inr hc⟩

/-- A step keeps the outcome that the state stands for. -/
theorem keeps_step (h : Invariant grid s final) : (step grid s).Keeps grid final := by
  obtain ⟨stack, path, onPath, memo, focus⟩ := s
  obtain ⟨h, hcontinues⟩ := h
  have hpath : path = pathOf stack := h.path
  cases focus with
  | todo v =>
      cases v with
      | simple value => exact keeps_yield (by simpa [Focus.outcome] using h)
      | reference cell => exact keeps_visit h hcontinues
      | call function operands =>
          simp only [Focus.outcome, Value.evaluate_call] at h
          cases operands with
          | nil => exact keeps_yield (by simpa using h)
          | cons v operands =>
              refine ⟨{ h with stack := ?_ }, hcontinues.operand List.mem_cons_self⟩
              refine .call (fun w hw => hpath ▸ hcontinues.operand (List.mem_cons_of_mem v hw)) ?_
              simpa [Value.evaluateEach_cons, Focus.outcome, hpath] using h.stack
  | result value =>
      cases stack with
      | nil =>
          cases h.stack
          exact ⟨rfl, h.memo⟩
      | cons frame stack =>
          cases frame with
          | cell cell => exact keeps_closeCell h rfl
          | call function results operands =>
              have hawaits := h.stack
              cases hawaits with
              | call hoperands hrest =>
                  cases operands with
                  | nil => exact keeps_yield { h with stack := by simpa [Focus.outcome] using hrest }
                  | cons v operands =>
                      refine ⟨{ h with stack := ?_ }, ?_⟩
                      · refine .call (fun w hw => hoperands w (List.mem_cons_of_mem v hw)) ?_
                        simpa [Value.evaluateEach_cons, Focus.outcome, hpath, pathOf] using hrest
                      · exact hpath ▸ hoperands v List.mem_cons_self

theorem run_of_next (h : step grid s = .next t) : run grid s = run grid t := by
  rw [run]
  split <;> simp_all

theorem run_of_stop {stopped : Outcome} (h : step grid s = .stop stopped) :
    run grid s = stopped := by
  rw [run]
  split <;> simp_all

/-- A run comes to a last state, which has whatever each step keeps. -/
theorem exists_last {p : State → Prop} (h : p s)
    (hnext : ∀ s t, p s → step grid s = .next t → p t) :
    ∃ last, p last ∧ step grid last = .stop (run grid s) := by
  induction s using run.induct grid with
  | case1 s t hstep ih =>
      rw [run_of_next hstep]
      exact ih (hnext s t h hstep)
  | case2 s stopped hstep => exact ⟨s, h, by rw [run_of_stop hstep, hstep]⟩

/-- A run ends in the outcome that its first state stands for. -/
theorem result_run (h : Invariant grid s final) :
    (run grid s).result = final ∧ Memo.Sound grid (run grid s).memo := by
  have hnext : ∀ s t, Invariant grid s final → step grid s = .next t → Invariant grid t final := by
    intro s t hs hstep
    have hkeeps := keeps_step hs
    rwa [hstep] at hkeeps
  obtain ⟨last, hlast, hstop⟩ := exists_last (p := (Invariant grid · final)) h hnext
  have hkeeps := keeps_step hlast
  rwa [hstop] at hkeeps

theorem result_resolveFrom {v : Value} {memo : Memo} (h : Memo.Sound grid memo) :
    (resolveFrom grid v memo).result = v.evaluate grid [] ∧
      Memo.Sound grid (resolveFrom grid v memo).memo :=
  result_run ⟨⟨rfl, List.nodup_nil, by simp [State.start], h, .empty _⟩, Value.continues_nil⟩

theorem Memo.sound_empty : Memo.Sound grid ∅ := by
  intro cell value h
  simp at h

end Resolution

theorem Value.resolve_eq_evaluate (v : Value) (grid : Grid) : v.resolve grid = v.evaluate grid [] :=
  (Resolution.result_resolveFrom Resolution.Memo.sound_empty).1

/-- A call of a function on two simple values is the function of these values. -/
theorem Value.resolve_call_pair (f : Function) (a b : Simple) (grid : Grid) :
    (Value.call f.name [.simple a, .simple b]).resolve grid = f.combine a b := by
  have hnamed : Function.named f.name = .ok f :=
    Function.named_eq_ok_iff.mpr (Function.ofName?_eq_some_iff.mpr rfl)
  rw [resolve_eq_evaluate, evaluate_call]
  simp [evaluateEach_cons, Function.applyNamed, hnamed, Function.apply]

namespace Resolution

variable {grid : Grid}

/-- What a cell resolves to on its own, where a failure comes to light at it. -/
def resolveAt (grid : Grid) (cell : Cell) : Except Fault (Cell × Simple) :=
  (((Value.reference cell).resolve grid).mapError (Fault.locatedAt cell)).map fun value =>
    (cell, value)

theorem resolveAt_eq_ok_iff {cell : Cell} {entry : Cell × Simple} :
    resolveAt grid cell = .ok entry ↔
      entry.1 = cell ∧ (Value.reference cell).resolve grid = .ok entry.2 := by
  obtain ⟨c, value⟩ := entry
  simp only [resolveAt, Except.map_eq_ok_iff, Except.mapError_eq_ok_iff, Prod.mk.injEq]
  grind

/-- The memo that cells share makes no difference to any of them. -/
theorem resolveCells_eq_mapM {cells : List Cell} {memo : Memo} (h : Memo.Sound grid memo) :
    resolveCells grid cells memo = cells.mapM (resolveAt grid) := by
  induction cells generalizing memo with
  | nil => rfl
  | cons cell cells ih =>
      obtain ⟨hresult, hmemo⟩ := result_resolveFrom (v := .reference cell) h
      rw [resolveCells, List.mapM_cons, resolveAt, Value.resolve_eq_evaluate, ← hresult]
      generalize resolveFrom grid (.reference cell) memo = outcome at hmemo ⊢
      obtain ⟨result, memo'⟩ := outcome
      cases result with
      | error failure => rfl
      | ok value =>
          change (resolveCells grid cells memo').map _ = _
          rw [ih hmemo]
          rfl

theorem map_fst_of_resolveCells {cells : List Cell} {entries : List (Cell × Simple)}
    (h : resolveCells grid cells ∅ = .ok entries) : entries.map Prod.fst = cells := by
  rw [resolveCells_eq_mapM Memo.sound_empty] at h
  have hcells : entries.map Prod.fst = cells.map id :=
    Except.map_eq_map_of_mapM (fun _ _ hentry => (resolveAt_eq_ok_iff.mp hentry).1) h
  rw [hcells, List.map_id]

theorem resolveCells_eq_ok_iff {cells : List Cell} {entries : List (Cell × Simple)} :
    resolveCells grid cells ∅ = .ok entries ↔
      List.Forall₂ (fun cell entry => entry.1 = cell ∧
        (Value.reference cell).resolve grid = .ok entry.2) cells entries := by
  simp only [resolveCells_eq_mapM Memo.sound_empty, Except.mapM_eq_ok_iff, resolveAt_eq_ok_iff]

theorem getElem?_of_resolveCells {cells : List Cell} {entries : List (Cell × Simple)} {k : Nat}
    {cell : Cell} (h : resolveCells grid cells ∅ = .ok entries) (hcell : cells[k]? = some cell) :
    ∃ value, (Value.reference cell).resolve grid = .ok value ∧
      entries[k]? = some (cell, value) := by
  rw [resolveCells_eq_ok_iff] at h
  obtain ⟨hk, rfl⟩ := List.getElem?_eq_some_iff.mp hcell
  have hk' : k < entries.length := h.length_eq ▸ hk
  obtain ⟨hentry, hvalue⟩ : entries[k].1 = cells[k] ∧
    (Value.reference cells[k]).resolve grid = .ok entries[k].2 := h.get hk hk'
  refine ⟨entries[k].2, hvalue, ?_⟩
  rw [List.getElem?_eq_getElem hk', ← hentry]

theorem exists_resolveCells_eq_ok_iff {cells : List Cell} :
    (∃ entries, resolveCells grid cells ∅ = .ok entries) ↔
      ∀ cell ∈ cells, ∃ value, (Value.reference cell).resolve grid = .ok value := by
  rw [resolveCells_eq_mapM Memo.sound_empty, Except.exists_mapM_eq_ok_iff]
  refine forall₂_congr fun cell _ => ?_
  simp only [resolveAt, Except.map_eq_ok_iff, Except.mapError_eq_ok_iff]
  grind

/-- Cells in turn fail where the first of them fails on its own. -/
theorem resolveCells_eq_error_iff {cells : List Cell} {fault : Fault} :
    resolveCells grid cells ∅ = .error fault ↔ ∃ cell failure,
      Fault.locatedAt cell failure = fault ∧
        Except.FailsFirst (fun c => (Value.reference c).resolve grid) cells cell failure := by
  rw [resolveCells_eq_mapM Memo.sound_empty, Except.mapM_eq_error_iff]
  exact exists_congr fun _ => Except.failsFirst_located_iff

/-- The memo holds cells of the grid, each with what it resolves to on its own. -/
def Memo.Faithful (grid : Grid) (memo : Memo) : Prop :=
  ∀ ⦃cell value⦄, memo[cell]? = some value →
    grid.InBounds cell ∧ (Value.reference cell).resolve grid = .ok value

theorem Memo.faithful_iff_sound {memo : Memo} :
    Memo.Faithful grid memo ↔ Memo.Sound grid memo := by
  simp only [Memo.Faithful, Memo.Sound, Value.resolve_eq_evaluate]
  constructor
  · exact fun h cell value hmemo => (h hmemo).2
  · intro h cell value hmemo
    have hvalue := h hmemo
    exact ⟨(Value.of_evaluate_eq_ok hvalue (.direct (by simp))).1, hvalue⟩

/-- A cell out of the grid is reported as such exactly if its coordinates have numerals. -/
theorem evaluate_outside_eq_iff {path : List Cell} {c : Cell} (hc : ¬ grid.InBounds c) :
    (Value.reference c).evaluate grid path = .error (.outOfBounds c grid.rows grid.columns) ↔
      Numeral.IsWritable c.row ∧ Numeral.IsWritable c.column := by
  rw [Value.evaluate_outside (Block.get?_eq_none_iff.mpr hc), Except.error.injEq]
  constructor
  · intro houtside
    obtain ⟨text, hmessage⟩ :=
      Failure.exists_message_raised (.outOfBounds c grid.rows grid.columns)
    rw [← Grid.outside, houtside] at hmessage
    obtain ⟨row, hrow, hmessage⟩ := Except.bind_eq_ok_iff.mp hmessage
    obtain ⟨column, hcolumn, -⟩ := Except.bind_eq_ok_iff.mp hmessage
    rw [DisplayFault.ofNumeral, Except.mapError_eq_ok_iff] at hrow hcolumn
    exact ⟨Numeral.isWritable_iff_exists_write.mpr ⟨row, hrow⟩,
      Numeral.isWritable_iff_exists_write.mpr ⟨column, hcolumn⟩⟩
  · rintro ⟨hrow, hcolumn⟩
    exact Grid.outside_eq hrow hcolumn

/-- The machine with a memo gives the outcome of evaluation without one, and
adds to the memo only what it would hold of each cell on its own. Either reports
a cell as out of the grid exactly if its coordinates have numerals. -/
theorem resolveFrom_eq_evaluate (grid : Grid) (v : Value) (memo : Memo)
    (h : Memo.Faithful grid memo) :
    (resolveFrom grid v memo).result = v.evaluate grid [] ∧
      Memo.Faithful grid (resolveFrom grid v memo).memo ∧
      ∀ c path, ¬ grid.InBounds c →
        ((Value.reference c).evaluate grid path =
            .error (.outOfBounds c grid.rows grid.columns) ↔
          Numeral.IsWritable c.row ∧ Numeral.IsWritable c.column) := by
  have hsound := Memo.faithful_iff_sound.mp h
  obtain ⟨hresult, hmemo⟩ := result_resolveFrom hsound
  exact ⟨hresult, Memo.faithful_iff_sound.mpr hmemo, fun c path => evaluate_outside_eq_iff⟩

/-- The copy is found with the memo; the loop then fails the call. -/
theorem resolveFrom_copyBesideLoop :
    Memo.Faithful Grid.copyBesideLoop ((∅ : Memo).insert ⟨0, 0⟩ (.integer ⟨1, by decide⟩)) ∧
      (resolveFrom Grid.copyBesideLoop (.call "ADD" [.reference ⟨0, 1⟩, .reference ⟨0, 2⟩])
        ((∅ : Memo).insert ⟨0, 0⟩ (.integer ⟨1, by decide⟩))).result =
          .error (.cycle [⟨0, 2⟩, ⟨0, 2⟩]) := by
  have hmemo : Memo.Faithful Grid.copyBesideLoop
      ((∅ : Memo).insert ⟨0, 0⟩ (.integer ⟨1, by decide⟩)) := by
    intro cell value h
    rw [CellMap.getElem?_insert] at h
    split at h
    next heq =>
        obtain rfl := heq
        obtain rfl := Option.some.inj h
        exact ⟨by decide, by cbv⟩
    next => simp at h
  have hresult := (resolveFrom_eq_evaluate Grid.copyBesideLoop
    (.call "ADD" [.reference ⟨0, 1⟩, .reference ⟨0, 2⟩]) _ hmemo).1
  refine ⟨hmemo, hresult.trans ?_⟩
  cbv

/-- A column with a number of one digit too many is out of the grid, but what is reported
is that the number cannot be written. -/
theorem result_beyondNumerals :
    ¬ Grid.copyBesideLoop.InBounds ⟨0, (10 ^ Numeral.limit : Nat)⟩ ∧
      (∃ cause, (resolveFrom Grid.copyBesideLoop
        (.reference ⟨0, (10 ^ Numeral.limit : Nat)⟩) ∅).result =
          .error (.undisplayable (.numeral cause))) ∧
      (resolveFrom Grid.copyBesideLoop (.reference ⟨0, (10 ^ Numeral.limit : Nat)⟩) ∅).result ≠
        .error (.outOfBounds ⟨0, (10 ^ Numeral.limit : Nat)⟩ 1 3) := by
  have hlimit : 10 ^ 1 ≤ 10 ^ Numeral.limit := Nat.pow_le_pow_right (by decide) (by decide)
  have houtside : ¬ Grid.copyBesideLoop.InBounds ⟨0, (10 ^ Numeral.limit : Nat)⟩ := by
    rintro ⟨-, -, -, hcolumn⟩
    have hcolumns : Grid.copyBesideLoop.columns = 3 := rfl
    simp only [hcolumns] at hcolumn
    omega
  have hresult : (resolveFrom Grid.copyBesideLoop
      (.reference ⟨0, (10 ^ Numeral.limit : Nat)⟩) ∅).result ≠
        .error (.outOfBounds ⟨0, (10 ^ Numeral.limit : Nat)⟩ 1 3) := by
    intro h
    rw [(result_resolveFrom Memo.sound_empty).1] at h
    have hwritable := ((evaluate_outside_eq_iff houtside).mp h).2
    rw [Numeral.isWritable_iff_lt, Int.natAbs_natCast] at hwritable
    exact Nat.lt_irrefl _ hwritable
  refine ⟨houtside, ?_, hresult⟩
  rw [(result_resolveFrom Memo.sound_empty).1,
    Value.evaluate_outside (Block.get?_eq_none_iff.mpr houtside)] at hresult ⊢
  rcases Failure.raised_outOfBounds_cases ⟨0, (10 ^ Numeral.limit : Nat)⟩
    Grid.copyBesideLoop.rows Grid.copyBesideLoop.columns with hraised | ⟨cause, hraised⟩
  · exact absurd (congrArg Except.error hraised) hresult
  · exact ⟨cause, congrArg Except.error hraised⟩

end Resolution

end Worksheet
