import Mathlib
import Worksheet.Proofs.Apply
import Worksheet.Proofs.Steps

/-!
# No cell is taken up twice

The record of a call goes with what the call comes to, and has one run for each value that
the call resolves. It proceeds from run to run as it does from state to state: a run that
succeeds leaves a memo that holds all that was taken up, and the next one starts from it. Of
all the cells that a call resolves, each is therefore taken up at most once.
-/

namespace Worksheet

namespace Resolution

variable {grid : Grid}

theorem result_resolveFromTraced (v : Value) (memo : Memo) :
    (resolveFromTraced grid v memo).result =
      (resolveFrom grid v memo).result.map fun value => (value, (resolveFrom grid v memo).memo) :=
  rfl

theorem result_resolveCellsTraced (cells : List Cell) (memo : Memo) :
    (resolveCellsTraced grid cells memo).result = resolveCells grid cells memo := by
  induction cells generalizing memo with
  | nil => rfl
  | cons cell cells ih =>
      rw [resolveCells, resolveCellsTraced, Traced.result_bind, Traced.result_mapError,
        result_resolveFromTraced]
      generalize resolveFrom grid (.reference cell) memo = outcome
      obtain ⟨result, memo'⟩ := outcome
      cases result with
      | error failure => rfl
      | ok value =>
          simp only [← ih]
          rfl

end Resolution

open Resolution

theorem Value.result_resolveTraced (v : Value) (grid : Grid) :
    (v.resolveTraced grid).result = v.resolve grid := by
  rw [Value.resolve, Value.resolveTraced, Traced.result_bind, result_resolveFromTraced]
  cases (resolveFrom grid v ∅).result <;> rfl

namespace Grid

variable {grid : Grid}

theorem result_resolveRegionTraced (topLeft bottomRight : Cell) :
    (grid.resolveRegionTraced topLeft bottomRight).result =
      grid.resolveRegion topLeft bottomRight := by
  unfold resolveRegion resolveRegionTraced
  rw [← result_resolveCellsTraced]
  simp only [Traced.result_bind, Traced.result_liftM]
  split <;> rfl

theorem result_combineAtTraced (f : Function) (cell : Cell) (v : Value) (memo : Memo) :
    (combineAtTraced grid f cell v memo).result =
      (combineAt grid f cell v memo).1.map fun result =>
        (result, (combineAt grid f cell v memo).2) := by
  rw [combineAt, combineAtTraced, Traced.result_bind, result_resolveFromTraced]
  generalize resolveFrom grid (.reference cell) memo = outcome
  obtain ⟨result, memo⟩ := outcome
  cases result with
  | error failure => rfl
  | ok current =>
      simp only [Except.map, Except.ok_bind, Traced.result_bind, result_resolveFromTraced]
      generalize resolveFrom grid v memo = outcome
      obtain ⟨result, memo⟩ := outcome
      cases result with
      | error failure => rfl
      | ok operand => cases f.combine current operand <;> rfl

theorem result_combineAllTraced (f : Function) (targets : List (Cell × Value)) (memo : Memo) :
    (combineAllTraced grid f targets memo).result = combineAll grid f targets memo := by
  induction targets generalizing memo with
  | nil => rfl
  | cons target targets ih =>
      obtain ⟨cell, v⟩ := target
      rw [combineAll, combineAllTraced, Traced.result_bind, Traced.result_mapError,
        result_combineAtTraced]
      generalize combineAt grid f cell v memo = outcome
      obtain ⟨result, memo'⟩ := outcome
      cases result with
      | error failure => rfl
      | ok value =>
          simp only [← ih]
          rfl

theorem result_applyTraced (start : Cell) (name : String) (rows : List (List Value)) :
    (grid.applyTraced start name rows).result = grid.apply start name rows := by
  unfold apply applyTraced
  simp only [Traced.result_bind, Traced.result_liftM]
  congr 1
  funext patch
  unfold applyBlock applyBlockTraced
  split
  · rfl
  · simp only [Traced.result_bind, Traced.result_liftM, result_combineAllTraced]
    rfl

end Grid

theorem Calculator.result_calculateTraced (calculator : Calculator) :
    calculator.calculateTraced.result = calculator.calculate := by
  obtain ⟨grid, dependencies⟩ := calculator
  cases grid with
  | none => rfl
  | some grid =>
      simp only [calculate, calculateTraced, Traced.result_bind, Traced.result_liftM,
        result_resolveCellsTraced]

namespace Resolution

variable {grid : Grid}

/-- What is recorded from a memo on: runs of tidy states that know what the memo holds,
and of which each precedes those after it. -/
structure Proceeds (grid : Grid) (memo : Memo) (runs : List (List State)) : Prop where
  isRun : ∀ run ∈ runs, ∃ v memo, IsRun grid v memo run
  tidy : ∀ s ∈ runs.flatten, s.Tidy
  knows : ∀ s ∈ runs.flatten, ∀ c ∈ memo, s.Knows c
  precedes : runs.flatten.Pairwise (Precedes grid)

/-- The later memo holds what the earlier one does, and what was taken up in between. -/
structure Collects (grid : Grid) (memo : Memo) (runs : List (List State)) (memo' : Memo) :
    Prop where
  kept : ∀ c ∈ memo, c ∈ memo'
  taken : ∀ s ∈ runs.flatten, ∀ c, s.Knows c ∨ s.Takes grid c → c ∈ memo'

variable {memo memo' memo'' : Memo} {xs ys : List (List State)}

theorem proceeds_nil : Proceeds grid memo [] :=
  ⟨by simp, by simp, by simp, .nil⟩

theorem Proceeds.append (h : Proceeds grid memo xs) (hbetween : Collects grid memo xs memo')
    (h' : Proceeds grid memo' ys) : Proceeds grid memo (xs ++ ys) where
  isRun := List.forall_mem_append.mpr ⟨h.isRun, h'.isRun⟩
  tidy := by
    rw [List.flatten_append]
    exact List.forall_mem_append.mpr ⟨h.tidy, h'.tidy⟩
  knows := by
    rw [List.flatten_append]
    exact List.forall_mem_append.mpr
      ⟨h.knows, fun s hs c hc => h'.knows s hs c (hbetween.kept c hc)⟩
  precedes := by
    rw [List.flatten_append, List.pairwise_append]
    exact ⟨h.precedes, h'.precedes, fun s hs t ht c hc =>
      h'.knows t ht c (hbetween.taken s hs c hc)⟩

theorem Collects.append (h : Collects grid memo xs memo') (h' : Collects grid memo' ys memo'') :
    Collects grid memo (xs ++ ys) memo'' where
  kept c hc := h'.kept c (h.kept c hc)
  taken := by
    rw [List.flatten_append]
    exact List.forall_mem_append.mpr ⟨fun s hs c hc => h'.kept c (h.taken s hs c hc), h'.taken⟩

end Resolution

namespace Traced

variable {grid : Grid} {memo : Memo} {ε δ α β : Type}

/-- A record that proceeds from a memo, to the one that comes with the result. -/
structure Carries (grid : Grid) (memo : Memo) (x : Traced ε (α × Memo)) : Prop where
  proceeds : Proceeds grid memo x.runs
  collects : ∀ a memo', x.result = .ok (a, memo') → Collects grid memo x.runs memo'

theorem Carries.mapError {x : Traced ε (α × Memo)} (f : ε → δ) (h : x.Carries grid memo) :
    (x.mapError f).Carries grid memo :=
  ⟨h.proceeds, fun a memo' hresult => h.collects a memo' (Except.mapError_eq_ok_iff.mp hresult)⟩

theorem Carries.proceeds_bind {x : Traced ε (α × Memo)} {f : α × Memo → Traced ε β}
    (h : x.Carries grid memo) (hf : ∀ a memo', Proceeds grid memo' (f (a, memo')).runs) :
    Proceeds grid memo (x >>= f).runs := by
  rw [runs_bind]
  cases hresult : x.result with
  | error failure => simpa [runsAfter] using h.proceeds
  | ok pair =>
      obtain ⟨a, memo'⟩ := pair
      exact h.proceeds.append (h.collects a memo' hresult) (hf a memo')

theorem Carries.bind {x : Traced ε (α × Memo)} {f : α × Memo → Traced ε (β × Memo)}
    (h : x.Carries grid memo) (hf : ∀ a memo', (f (a, memo')).Carries grid memo') :
    (x >>= f).Carries grid memo := by
  refine ⟨h.proceeds_bind fun a memo' => (hf a memo').proceeds, fun b memo'' hresult => ?_⟩
  obtain ⟨⟨a, memo'⟩, hx, hb⟩ := Except.bind_eq_ok_iff.mp hresult
  rw [runs_bind, hx]
  exact (h.collects a memo' hx).append ((hf a memo').collects b memo'' hb)

theorem proceeds_liftM_bind {result : Except ε α} {f : α → Traced ε β}
    (hf : ∀ a, Proceeds grid memo (f a).runs) :
    Proceeds grid memo ((liftM result : Traced ε α) >>= f).runs := by
  cases result with
  | error failure => exact proceeds_nil
  | ok a => exact hf a

theorem carries_liftM (result : Except ε α) (memo : Memo) :
    ((liftM result : Traced ε α) >>= fun a => pure (a, memo)).Carries grid memo := by
  refine ⟨proceeds_liftM_bind fun _ => proceeds_nil, fun a memo' hresult => ?_⟩
  obtain ⟨b, rfl, hb⟩ := Except.bind_eq_ok_iff.mp hresult
  obtain ⟨rfl, rfl⟩ := Prod.mk.inj (Except.ok.inj hb)
  exact ⟨fun _ hc => hc, by simp [runsAfter]⟩

/-- What goes on without a run adds nothing to the record. -/
theorem runs_bind_of_nil {f : α → Traced ε β} (x : Traced ε α) (hf : ∀ a, (f a).runs = []) :
    (x >>= f).runs = x.runs := by
  rw [runs_bind]
  cases x.result with
  | error failure => exact List.append_nil _
  | ok a => rw [runsAfter, hf, List.append_nil]

theorem runs_bind_pure (x : Traced ε α) (f : α → β) :
    (x >>= fun a => pure (f a)).runs = x.runs :=
  runs_bind_of_nil x fun _ => rfl

theorem proceeds_bind_pure {x : Traced ε α} {f : α → β} (h : Proceeds grid memo x.runs) :
    Proceeds grid memo (x >>= fun a => pure (f a)).runs :=
  (runs_bind_pure x f).symm ▸ h

end Traced

namespace Resolution

open Traced

variable {grid : Grid}

theorem carries_resolveFromTraced (v : Value) (memo : Memo) :
    (resolveFromTraced grid v memo).Carries grid memo := by
  have hflatten : (resolveFromTraced grid v memo).runs.flatten = states grid (.start v memo) :=
    List.flatten_singleton
  have hknows : ∀ s ∈ states grid (.start v memo), ∀ c ∈ memo, s.Knows c := fun s hs c hc =>
    knows_of_mem_states (.inr hc) hs
  refine ⟨⟨?_, ?_, ?_, ?_⟩, fun value memo' hresult => ?_⟩
  · exact List.forall_mem_singleton.mpr ⟨v, memo, isRun_states v memo⟩
  · rw [hflatten]
    exact forall_mem_states (tidy_start v memo) fun _ _ => tidy_step
  · rw [hflatten]
    exact hknows
  · rw [hflatten]
    exact pairwise_states grid _
  · rw [result_resolveFromTraced] at hresult
    obtain ⟨value, hvalue, heq⟩ := Except.map_eq_ok_iff.mp hresult
    obtain ⟨rfl, rfl⟩ := Prod.mk.inj heq
    have hmem : ∀ s ∈ states grid (.start v memo), ∀ c, s.Knows c ∨ s.Takes grid c →
        c ∈ (resolveFrom grid v memo).memo := fun s hs c hc =>
      mem_memo_of_mem_states (tidy_start v memo) hvalue hs hc
    refine ⟨fun c hc => ?_, by rwa [hflatten]⟩
    have hfirst := List.mem_of_mem_head? (head?_states grid (.start v memo))
    exact hmem _ hfirst c (.inl (hknows _ hfirst c hc))

theorem proceeds_resolveCellsTraced (cells : List Cell) (memo : Memo) :
    Proceeds grid memo (resolveCellsTraced grid cells memo).runs := by
  induction cells generalizing memo with
  | nil => exact proceeds_nil
  | cons cell cells ih =>
      exact ((carries_resolveFromTraced _ memo).mapError _).proceeds_bind fun value memo' =>
        proceeds_bind_pure (ih memo')

end Resolution

theorem Value.proceeds_resolveTraced (v : Value) (grid : Grid) :
    Proceeds grid ∅ (v.resolveTraced grid).runs :=
  Traced.proceeds_bind_pure (carries_resolveFromTraced v ∅).proceeds

namespace Grid

open Traced

variable {grid : Grid}

theorem proceeds_resolveRegionTraced (topLeft bottomRight : Cell) :
    Proceeds grid ∅ (grid.resolveRegionTraced topLeft bottomRight).runs := by
  refine proceeds_liftM_bind fun _ => proceeds_liftM_bind fun _ => ?_
  split
  · exact proceeds_nil
  · exact proceeds_bind_pure (proceeds_resolveCellsTraced _ _)

theorem carries_combineAtTraced (f : Function) (cell : Cell) (v : Value) (memo : Memo) :
    (combineAtTraced grid f cell v memo).Carries grid memo := by
  refine (carries_resolveFromTraced (.reference cell) memo).bind fun current memo => ?_
  exact (carries_resolveFromTraced v memo).bind fun operand memo => carries_liftM _ memo

theorem proceeds_combineAllTraced (f : Function) (targets : List (Cell × Value)) (memo : Memo) :
    Proceeds grid memo (combineAllTraced grid f targets memo).runs := by
  induction targets generalizing memo with
  | nil => exact proceeds_nil
  | cons target targets ih =>
      obtain ⟨cell, v⟩ := target
      exact ((carries_combineAtTraced f cell v memo).mapError _).proceeds_bind fun value memo' =>
        proceeds_bind_pure (ih memo')

theorem proceeds_applyTraced (start : Cell) (name : String) (rows : List (List Value)) :
    Proceeds grid ∅ (grid.applyTraced start name rows).runs := by
  refine proceeds_liftM_bind fun patch => ?_
  unfold applyBlockTraced
  split
  · exact proceeds_nil
  · exact proceeds_liftM_bind fun f => proceeds_liftM_bind fun _ =>
      proceeds_bind_pure (proceeds_combineAllTraced f _ _)

end Grid

theorem Calculator.proceeds_calculateTraced (grid : Grid) (dependencies : Dependencies) :
    Proceeds grid ∅ (calculateTraced ⟨some grid, dependencies⟩).runs :=
  Traced.proceeds_liftM_bind fun order => proceeds_resolveCellsTraced order ∅

namespace Resolution

variable {grid : Grid} {memo : Memo} {vs : List Value} {runs : List (List State)}

/-- There is one run for each of the values, in their order. -/
def Serves (grid : Grid) (vs : List Value) (runs : List (List State)) : Prop :=
  List.Forall₂ (fun v run => ∃ memo, IsRun grid v memo run) vs runs

theorem Serves.append {ws : List Value} {runs' : List (List State)} (h : Serves grid vs runs)
    (h' : Serves grid ws runs') : Serves grid (vs ++ ws) (runs ++ runs') :=
  List.rel_append h h'

theorem serves_resolveFromTraced (v : Value) (memo : Memo) :
    Serves grid [v] (resolveFromTraced grid v memo).runs :=
  .cons ⟨memo, isRun_states v memo⟩ .nil

/-- Of values that are to be resolved in turn, those up to the first that does not resolve. -/
def attempted (grid : Grid) (vs : List Value) : List Value :=
  Except.attempted (fun v => v.resolve grid) vs

theorem serves_resolveCellsTraced (cells : List Cell) (h : Memo.Sound grid memo) :
    Serves grid (attempted grid (cells.map .reference))
      (resolveCellsTraced grid cells memo).runs := by
  induction cells generalizing memo with
  | nil => exact .nil
  | cons cell cells ih =>
      obtain ⟨hresult, hmemo⟩ := result_resolveFrom (v := .reference cell) h
      rw [← Value.resolve_eq_evaluate] at hresult
      have hrun : Serves grid [.reference cell] _ := serves_resolveFromTraced (.reference cell) memo
      rw [resolveCellsTraced, Traced.runs_bind, Traced.result_mapError, Traced.runs_mapError,
        result_resolveFromTraced, List.map_cons, attempted]
      cases hv : (resolveFrom grid (.reference cell) memo).result with
      | error failure =>
          rw [Except.attempted_of_error (hresult ▸ hv)]
          exact hrun.append .nil
      | ok value =>
          rw [Except.attempted_of_ok (hresult ▸ hv)]
          refine hrun.append ?_
          simp only [Except.map, Except.mapError, Traced.runsAfter, Traced.runs_bind_pure]
          exact ih hmemo

end Resolution

namespace Grid

variable {grid : Grid}

/-- What is resolved for a function to be applied at a target: the cell, then the entry. -/
def attemptedAt (grid : Grid) (target : Cell × Value) : List Value :=
  attempted grid [.reference target.1, target.2]

theorem serves_combineAtTraced (f : Function) (cell : Cell) (v : Value) {memo : Memo}
    (h : Memo.Sound grid memo) :
    Serves grid (grid.attemptedAt (cell, v)) (combineAtTraced grid f cell v memo).runs := by
  obtain ⟨hresult, hmemo⟩ := result_resolveFrom (v := .reference cell) h
  rw [← Value.resolve_eq_evaluate] at hresult
  have hrun : Serves grid [.reference cell] _ := serves_resolveFromTraced (.reference cell) memo
  rw [combineAtTraced, Traced.runs_bind, result_resolveFromTraced, attemptedAt, attempted]
  cases hv : (resolveFrom grid (.reference cell) memo).result with
  | error failure =>
      rw [Except.attempted_of_error (hresult ▸ hv)]
      exact hrun.append .nil
  | ok value =>
      rw [Except.attempted_of_ok (hresult ▸ hv), Except.attempted_singleton]
      have hentry : Serves grid [v] ((resolveFromTraced grid v
          (resolveFrom grid (.reference cell) memo).memo) >>= fun pair => do
            let result ← (liftM (f.combine value pair.1) : Traced Failure Simple)
            return (result, pair.2)).runs := by
        rw [Traced.runs_bind_of_nil _ fun _ => Traced.runs_bind_pure _ _]
        exact serves_resolveFromTraced v _
      exact hrun.append hentry

theorem serves_combineAllTraced (f : Function) (targets : List (Cell × Value)) {memo : Memo}
    (h : Memo.Sound grid memo) :
    Serves grid
      ((Except.attempted (fun t => grid.combined f t.1 t.2) targets).flatMap grid.attemptedAt)
      (combineAllTraced grid f targets memo).runs := by
  induction targets generalizing memo with
  | nil => exact .nil
  | cons target targets ih =>
      obtain ⟨cell, v⟩ := target
      obtain ⟨hresult, hmemo⟩ := combineAt_eq f cell v h
      have hruns := serves_combineAtTraced f cell v h
      rw [combineAllTraced, Traced.runs_bind, Traced.result_mapError, Traced.runs_mapError,
        result_combineAtTraced]
      cases hv : (combineAt grid f cell v memo).1 with
      | error failure =>
          rw [Except.attempted_of_error (hresult ▸ hv), List.flatMap_singleton]
          simpa [Except.map, Except.mapError, Traced.runsAfter] using hruns
      | ok value =>
          rw [Except.attempted_of_ok (hresult ▸ hv), List.flatMap_cons]
          refine hruns.append ?_
          simp only [Except.map, Except.mapError, Traced.runsAfter, Traced.runs_bind_pure]
          exact ih hmemo

theorem serves_resolveRegionTraced {topLeft bottomRight : Cell} (htop : grid.InBounds topLeft)
    (hbottom : grid.InBounds bottomRight) (hrows : topLeft.row ≤ bottomRight.row)
    (hcolumns : topLeft.column ≤ bottomRight.column) :
    Serves grid (attempted grid ((cellsBetween topLeft bottomRight).map .reference))
      (grid.resolveRegionTraced topLeft bottomRight).runs := by
  have hordered : ¬ (bottomRight.row < topLeft.row ∨ bottomRight.column < topLeft.column) := by
    omega
  unfold resolveRegionTraced
  rw [checkBounds_eq_ok_iff.mpr htop, checkBounds_eq_ok_iff.mpr hbottom, if_neg hordered]
  exact (Traced.runs_bind_pure _ _).symm ▸ serves_resolveCellsTraced _ Memo.sound_empty

theorem serves_applyTraced {start : Cell} {name : String} {rows : List (List Value)}
    {patch : Block Value} {f : Function} (hpatch : Block.ofRows rows = .ok patch)
    (hname : Function.named name = .ok f) (hfit : grid.checkFit start patch = .ok ()) :
    Serves grid
      ((Except.attempted (fun target => grid.combined f target.1 target.2)
        (targets start patch)).flatMap grid.attemptedAt)
      (grid.applyTraced start name rows).runs := by
  have hrun : (grid.applyTraced start name rows).runs =
      (grid.applyBlockTraced start name patch).runs := by
    rw [applyTraced, hpatch]
    rfl
  rw [hrun, applyBlockTraced]
  split
  next hempty =>
      rw [targets_of_isEmpty start hempty]
      exact .nil
  next =>
      rw [hname, hfit]
      exact (Traced.runs_bind_pure _ _).symm ▸ serves_combineAllTraced f _ Memo.sound_empty

end Grid

theorem Value.serves_resolveTraced (v : Value) (grid : Grid) :
    Serves grid [v] (v.resolveTraced grid).runs :=
  (Traced.runs_bind_pure _ _).symm ▸ serves_resolveFromTraced v ∅

theorem Calculator.serves_calculateTraced (grid : Grid) {dependencies : Dependencies}
    {order : List Cell} (h : dependencies.order = .ok order) :
    Serves grid (attempted grid (order.map .reference))
      (calculateTraced ⟨some grid, dependencies⟩).runs := by
  unfold calculateTraced
  rw [h]
  exact serves_resolveCellsTraced order Memo.sound_empty

namespace Resolution

/-- Runs that end, through states in which stack, path and memo agree, and that take up each
cell at most once between them. -/
structure Orderly (grid : Grid) (runs : List (List State)) : Prop where
  isRun : ∀ run ∈ runs, ∃ v memo, IsRun grid v memo run
  tidy : ∀ s ∈ runs.flatten, s.Tidy
  once : runs.flatten.Pairwise fun s t => ∀ c, s.Takes grid c → ¬ t.Takes grid c

theorem Proceeds.orderly {memo : Memo} {runs : List (List State)}
    (h : Proceeds grid memo runs) : Orderly grid runs :=
  ⟨h.isRun, h.tidy, h.precedes.imp fun hprecedes c htakes htakes' =>
    not_knows_of_takes htakes' (hprecedes c (.inr htakes))⟩

/-- The machine halts from every state. However many runs a call is made of and however it
ends, it is orderly over all of them. There is one run for each value that is resolved: for
the value of the call, for the cells of a rectangle or of an order up to the first that fails,
or for the targets and entries of an application up to the first failure among them. -/
theorem calls_orderly (grid : Grid) :
    (WellFounded fun t s => step grid s = .next t) ∧
    (∀ v : Value, (v.resolveTraced grid).result = v.resolve grid ∧
      Orderly grid (v.resolveTraced grid).runs ∧ Serves grid [v] (v.resolveTraced grid).runs) ∧
    (∀ topLeft bottomRight : Cell,
      (grid.resolveRegionTraced topLeft bottomRight).result =
        grid.resolveRegion topLeft bottomRight ∧
      Orderly grid (grid.resolveRegionTraced topLeft bottomRight).runs ∧
      (grid.InBounds topLeft → grid.InBounds bottomRight → topLeft.row ≤ bottomRight.row →
        topLeft.column ≤ bottomRight.column →
          Serves grid (attempted grid ((Grid.cellsBetween topLeft bottomRight).map .reference))
            (grid.resolveRegionTraced topLeft bottomRight).runs)) ∧
    (∀ dependencies : Dependencies,
      (Calculator.calculateTraced ⟨some grid, dependencies⟩).result =
        Calculator.calculate ⟨some grid, dependencies⟩ ∧
      Orderly grid (Calculator.calculateTraced ⟨some grid, dependencies⟩).runs ∧
      ∀ order, dependencies.order = .ok order →
        Serves grid (attempted grid (order.map .reference))
          (Calculator.calculateTraced ⟨some grid, dependencies⟩).runs) ∧
    ∀ (start : Cell) (name : String) (rows : List (List Value)),
      (grid.applyTraced start name rows).result = grid.apply start name rows ∧
      Orderly grid (grid.applyTraced start name rows).runs ∧
      ∀ patch f, Block.ofRows rows = .ok patch → Function.named name = .ok f →
        grid.checkFit start patch = .ok () →
          Serves grid ((Except.attempted (fun target => grid.combined f target.1 target.2)
            (Grid.targets start patch)).flatMap grid.attemptedAt)
              (grid.applyTraced start name rows).runs :=
  ⟨wellFounded_step grid,
    fun v => ⟨v.result_resolveTraced grid, (v.proceeds_resolveTraced grid).orderly,
      v.serves_resolveTraced grid⟩,
    fun _ _ => ⟨Grid.result_resolveRegionTraced _ _,
      (Grid.proceeds_resolveRegionTraced _ _).orderly, Grid.serves_resolveRegionTraced⟩,
    fun dependencies => ⟨Calculator.result_calculateTraced _,
      (Calculator.proceeds_calculateTraced grid dependencies).orderly,
      fun _ => Calculator.serves_calculateTraced grid⟩,
    fun _ _ _ => ⟨Grid.result_applyTraced _ _ _, (Grid.proceeds_applyTraced _ _ _).orderly,
      fun _ _ => Grid.serves_applyTraced⟩⟩

/-- The loop in the last cell is met in the third run. -/
theorem calls_orderly_copyBesideLoop :
    Serves Grid.copyBesideLoop [.reference ⟨0, 0⟩, .reference ⟨0, 1⟩, .reference ⟨0, 2⟩]
        (Grid.copyBesideLoop.resolveRegionTraced ⟨0, 0⟩ ⟨0, 2⟩).runs ∧
      (Grid.copyBesideLoop.resolveRegionTraced ⟨0, 0⟩ ⟨0, 2⟩).result =
        .error (.failure (.cycle [⟨0, 2⟩, ⟨0, 2⟩]) (some ⟨0, 2⟩)) := by
  obtain ⟨-, -, hregion, -⟩ := calls_orderly Grid.copyBesideLoop
  obtain ⟨hresult, -, hserves⟩ := hregion ⟨0, 0⟩ ⟨0, 2⟩
  have hattempted : attempted Grid.copyBesideLoop
      ((Grid.cellsBetween ⟨0, 0⟩ ⟨0, 2⟩).map .reference) =
        [.reference ⟨0, 0⟩, .reference ⟨0, 1⟩, .reference ⟨0, 2⟩] := by cbv
  have hruns := hserves (by decide) (by decide) (by decide) (by decide)
  rw [hattempted] at hruns
  exact ⟨hruns, hresult.trans (by cbv)⟩

/-- A cell that is read twice is on the path once. -/
example :
    ((Value.call "ADD" [.reference ⟨0, 0⟩, .reference ⟨0, 0⟩]).resolveTraced
      Grid.copyBesideLoop).runs.map (List.map State.path) =
      [[[], [], [⟨0, 0⟩], [⟨0, 0⟩], [], [], [], []]] := by cbv

end Resolution

end Worksheet
