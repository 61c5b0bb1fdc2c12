import Mathlib
import Worksheet.Apply
import Worksheet.Proofs.Resolution

/-!
# What a resolution looks at

At any time during a run, each cell that the value or a cell inside of which the
run is reads is in the memo, is being looked at, or is read by an operand that
waits. A run that succeeds has nothing left that waits: the memo then holds the
cells that the value reaches, and no others. Nothing else of the grid matters to
the outcome, and to a failure only its shape besides.
-/

namespace Worksheet

namespace Resolution

variable {grid : Grid} {v : Value} {memo memo' : Memo} {stack : List Frame}
  {ahead ahead' : List Cell} {s t : State} {c : Cell}

/-- A memo with a cell holds the cells that it reads too. -/
def Memo.Closed (grid : Grid) (memo : Memo) : Prop :=
  ∀ ⦃c d⦄, c ∈ memo → grid.Reads c d → d ∈ memo

theorem Memo.closed_empty : Memo.Closed grid ∅ := by
  intro c d hc
  simp at hc

theorem Memo.Closed.mem_of_reaches (h : Memo.Closed grid memo)
    (hv : ∀ d ∈ v.references, d ∈ memo) (hc : v.Reaches grid c) : c ∈ memo :=
  hc.of_closed hv fun _ _ hread hd => h hd hread

/-- The cells that are read by what is looked at. -/
def Focus.occurrences : Focus → List Cell
  | .todo v => v.occurrences
  | .result _ => []

/-- A frame holds on to nothing but what the value reaches. -/
def Frame.Within (grid : Grid) (v : Value) : Frame → Prop
  | .cell c => v.Reaches grid c
  | .call _ _ operands => ∀ c ∈ Value.occurrencesEach operands, v.Reaches grid c

/-- What the value and the cells of the stack read is in the memo, or lies ahead,
or is read by an operand that waits on the stack. -/
def Accounted (grid : Grid) (v : Value) (memo : Memo) : List Frame → List Cell → Prop
  | [], ahead => ∀ d ∈ v.references, d ∈ memo ∨ d ∈ ahead
  | .cell c :: stack, ahead =>
      (∀ d, grid.Reads c d → d ∈ memo ∨ d ∈ ahead) ∧ Accounted grid v memo stack [c]
  | .call _ _ operands :: stack, ahead =>
      Accounted grid v memo stack (ahead ++ Value.occurrencesEach operands)

theorem Accounted.mono (h : Accounted grid v memo stack ahead) (hmemo : ∀ d ∈ memo, d ∈ memo')
    (hahead : ∀ d ∈ ahead, d ∈ memo' ∨ d ∈ ahead') : Accounted grid v memo' stack ahead' := by
  induction stack generalizing ahead ahead' with
  | nil => exact fun d hd => (h d hd).elim (fun hd => .inl (hmemo d hd)) (hahead d)
  | cons frame stack ih =>
      cases frame with
      | cell c =>
          obtain ⟨hreads, hrest⟩ := h
          exact ⟨fun d hd => (hreads d hd).elim (fun hd => .inl (hmemo d hd)) (hahead d),
            ih hrest fun d hd => .inr hd⟩
      | call function results operands =>
          refine ih h fun d hd => ?_
          rcases List.mem_append.mp hd with hd | hd
          · exact (hahead d hd).imp_right (List.mem_append_left _)
          · exact .inr (List.mem_append_right _ hd)

/-- How far a run for a value has come from the memo it started with. -/
structure Gathers (grid : Grid) (v : Value) (memo : Memo) (s : State) : Prop where
  kept : ∀ c ∈ memo, c ∈ s.memo
  sound : ∀ c ∈ s.memo, c ∈ memo ∨ v.Reaches grid c
  closed : s.memo.Closed grid
  stack : ∀ frame ∈ s.stack, frame.Within grid v
  focus : ∀ c ∈ s.focus.occurrences, v.Reaches grid c
  accounted : Accounted grid v s.memo s.stack s.focus.occurrences

/-- A run that stops with a result has gathered what the value reaches. -/
def Step.Gathers (grid : Grid) (v : Value) (memo : Memo) : Step → Prop
  | .next t => Resolution.Gathers grid v memo t
  | .stop outcome => ∀ value, outcome.result = .ok value →
      ∀ c, c ∈ outcome.memo ↔ c ∈ memo ∨ v.Reaches grid c

theorem gathers_start (h : memo.Closed grid) : Gathers grid v memo (.start v memo) where
  kept _ hc := hc
  sound _ hc := .inl hc
  closed := h
  stack := by simp [State.start]
  focus c hc := .direct (Value.mem_references.mpr hc)
  accounted d hd := .inr (Value.mem_references.mp hd)

/-- Nothing is left to be read once a result is at hand. -/
theorem gathers_yield (outcome : Except Failure Simple) (h : Gathers grid v memo s)
    (hread : ∀ c ∈ s.focus.occurrences, c ∈ s.memo) : (s.yield outcome).Gathers grid v memo := by
  cases outcome with
  | error failure => exact fun _ hvalue => nomatch hvalue
  | ok value =>
      exact { h with
        focus := by simp [Focus.occurrences]
        accounted := h.accounted.mono (fun _ hd => hd) fun d hd => .inl (hread d hd) }

theorem gathers_visit (h : Gathers grid v memo s) (hfocus : s.focus = .todo (.reference c)) :
    (visit grid s c).Gathers grid v memo := by
  have hc : s.focus.occurrences = [c] := by rw [hfocus]; rfl
  have hreach : v.Reaches grid c := h.focus c (by simp [hc])
  unfold visit
  split
  next => exact fun _ hvalue => nomatch hvalue
  next w hget =>
      split
      next value hmemo =>
          refine gathers_yield _ h fun d hd => ?_
          obtain rfl : d = c := by simpa [hc] using hd
          exact Std.ExtTreeMap.mem_iff_isSome_getElem?.mpr (by simp [hmemo])
      next =>
          split
          next => exact fun _ hvalue => nomatch hvalue
          next =>
              have hreads : ∀ d ∈ w.occurrences, grid.Reads c d := fun d hd =>
                (Grid.reads_iff hget).mpr (Value.mem_references.mpr hd)
              exact {
                kept := h.kept
                sound := h.sound
                closed := h.closed
                stack := List.forall_mem_cons.mpr ⟨hreach, h.stack⟩
                focus := fun d hd => hreach.stored (hreads d hd)
                accounted := ⟨fun d hd => .inr (Value.mem_references.mp
                  ((Grid.reads_iff hget).mp hd)), hc ▸ h.accounted⟩ }

theorem gathers_closeCell {value : Simple} (h : Gathers grid v memo s)
    (hstack : s.stack = .cell c :: stack) (hfocus : s.focus.occurrences = []) :
    Gathers grid v memo (s.closeCell c value stack) := by
  have hframes := List.forall_mem_cons.mp (hstack ▸ h.stack)
  have haccounted := hstack ▸ h.accounted
  obtain ⟨hreads, hrest⟩ := haccounted
  have hread : ∀ d, grid.Reads c d → d ∈ s.memo := fun d hd => by
    simpa [hfocus] using hreads d hd
  have hmem : ∀ d, d ∈ (s.closeCell c value stack).memo ↔ d = c ∨ d ∈ s.memo := fun d =>
    CellMap.mem_insert_iff
  refine ⟨fun d hd => ?_, fun d hd => ?_, fun d e hd he => ?_, hframes.2, ?_, ?_⟩
  · exact (hmem d).mpr (.inr (h.kept d hd))
  · rcases (hmem d).mp hd with rfl | hd
    · exact .inr hframes.1
    · exact h.sound d hd
  · rcases (hmem d).mp hd with rfl | hd
    · exact (hmem e).mpr (.inr (hread e he))
    · exact (hmem e).mpr (.inr (h.closed hd he))
  · simp [State.closeCell, Focus.occurrences]
  · refine hrest.mono (fun d hd => (hmem d).mpr (.inr hd)) fun d hd => ?_
    exact .inl ((hmem d).mpr (.inl (List.mem_singleton.mp hd)))

theorem gathers_step (h : Gathers grid v memo s) : (step grid s).Gathers grid v memo := by
  obtain ⟨stack, path, onPath, memo', focus⟩ := s
  cases focus with
  | todo w =>
      cases w with
      | simple value =>
          exact gathers_yield (.ok value) h (by simp [Focus.occurrences, Value.occurrences])
      | reference cell => exact gathers_visit h rfl
      | call function operands =>
          cases operands with
          | nil =>
              exact gathers_yield _ h
                (by simp [Focus.occurrences, Value.occurrences, Value.occurrencesEach])
          | cons w operands =>
              obtain ⟨hw, hoperands⟩ := List.forall_mem_append.mp h.focus
              exact { h with
                stack := List.forall_mem_cons.mpr ⟨hoperands, h.stack⟩
                focus := hw }
  | result value =>
      cases stack with
      | nil =>
          intro _ _ c
          have hv : ∀ d ∈ v.references, d ∈ memo' := fun d hd => by
            simpa [Focus.occurrences] using h.accounted d hd
          refine ⟨h.sound c, ?_⟩
          rintro (hc | hc)
          · exact h.kept c hc
          · exact h.closed.mem_of_reaches hv hc
      | cons frame stack =>
          obtain ⟨hframe, hstack⟩ := List.forall_mem_cons.mp h.stack
          cases frame with
          | cell cell => exact gathers_closeCell h rfl rfl
          | call function results operands =>
              cases operands with
              | nil =>
                  exact gathers_yield _ { h with stack := hstack } (by simp [Focus.occurrences])
              | cons w operands =>
                  obtain ⟨hw, hoperands⟩ := List.forall_mem_append.mp hframe
                  exact { h with
                    stack := List.forall_mem_cons.mpr ⟨hoperands, hstack⟩
                    focus := hw }

/-- A run that succeeds has added to the memo what the value reaches. -/
theorem mem_memo_run (h : Gathers grid v memo s) {value : Simple}
    (hvalue : (run grid s).result = .ok value) :
    c ∈ (run grid s).memo ↔ c ∈ memo ∨ v.Reaches grid c := by
  have hnext : ∀ s t, Gathers grid v memo s → step grid s = .next t → Gathers grid v memo t := by
    intro s t hs hstep
    have hgathers := gathers_step hs
    rwa [hstep] at hgathers
  obtain ⟨last, hlast, hstop⟩ := exists_last h hnext
  have hgathers := gathers_step hlast
  rw [hstop] at hgathers
  exact hgathers value hvalue c

theorem mem_memo_resolveFrom (h : memo.Closed grid) {value : Simple}
    (hvalue : (resolveFrom grid v memo).result = .ok value) :
    c ∈ (resolveFrom grid v memo).memo ↔ c ∈ memo ∨ v.Reaches grid c :=
  mem_memo_run (gathers_start h) hvalue

end Resolution

namespace Value

open Resolution

/-- A resolution that succeeds looks at exactly the cells that the value reaches, and
succeeds alike over every grid that holds them. Any resolution comes to the same over
every grid of the same shape that agrees on those of them that lie inside. -/
theorem resolve_footprint (v : Value) (grid : Grid) :
    (∀ value, (resolveFrom grid v ∅).result = .ok value →
      (∀ c, c ∈ (resolveFrom grid v ∅).memo ↔ v.Reaches grid c) ∧
      ∀ other : Grid, (∀ c, v.Reaches grid c → other.InBounds c ∧ other.get? c = grid.get? c) →
        v.resolve other = .ok value) ∧
    ∀ other : Grid, other.rows = grid.rows → other.columns = grid.columns →
      (∀ c, v.Reaches grid c → grid.InBounds c → other.get? c = grid.get? c) →
      v.resolve other = v.resolve grid := by
  refine ⟨fun value hvalue => ⟨fun c => ?_, fun other hagree => ?_⟩, ?_⟩
  · simp [mem_memo_resolveFrom Memo.closed_empty hvalue]
  · rw [resolve_eq_evaluate]
    rw [← resolve, resolve_eq_evaluate] at hvalue
    exact evaluate_eq_ok_of_agree hvalue fun c hc => ⟨(hagree c hc).2, List.not_mem_nil⟩
  · intro other hrows hcolumns hagree
    rw [resolve_eq_evaluate, resolve_eq_evaluate]
    refine evaluate_eq_of_agree hrows hcolumns fun c hc => ?_
    by_cases hin : grid.InBounds c
    · exact hagree c hc hin
    · have hout : ¬ other.InBounds c := by simpa only [Block.InBounds, hrows, hcolumns] using hin
      rw [Block.get?_eq_none_iff.mpr hin, Block.get?_eq_none_iff.mpr hout]

/-- The copy looks at itself and at the number, wherever these stand. The loop beside
it fails whatever the number is. -/
theorem resolve_footprint_copyBesideLoop :
    (∀ c, (Value.reference ⟨0, 1⟩).Reaches Grid.copyBesideLoop c ↔ c ∈ [⟨0, 0⟩, ⟨0, 1⟩]) ∧
      (Value.reference ⟨0, 1⟩).resolve
          ⟨2, 2, #v[#v[.simple (.integer .one), .reference ⟨0, 0⟩],
            #v[.simple .null, .simple .null]]⟩ = .ok (.integer .one) ∧
      (Value.reference ⟨0, 2⟩).resolve
          (Grid.copyBesideLoop.store ((∅ : CellMap Simple).insert ⟨0, 0⟩ .null)) =
        (Value.reference ⟨0, 2⟩).resolve Grid.copyBesideLoop := by
  have hvalue : (resolveFrom Grid.copyBesideLoop (.reference ⟨0, 1⟩) ∅).result =
      .ok (.integer .one) := by cbv
  have hkeys : (resolveFrom Grid.copyBesideLoop (.reference ⟨0, 1⟩) ∅).memo.keys =
      [⟨0, 0⟩, ⟨0, 1⟩] := by cbv
  obtain ⟨hmemo, hother⟩ := (resolve_footprint _ _).1 _ hvalue
  have hreach : ∀ c, (Value.reference ⟨0, 1⟩).Reaches Grid.copyBesideLoop c ↔
      c ∈ [⟨0, 0⟩, ⟨0, 1⟩] := fun c => by
    rw [← hmemo, ← hkeys, Std.ExtTreeMap.mem_keys]
  have hloop : ∀ c, (Value.reference ⟨0, 2⟩).Reaches Grid.copyBesideLoop c → c = ⟨0, 2⟩ := by
    refine fun c hc => hc.of_closed (p := (· = ⟨0, 2⟩)) (by simp) fun d e hread hd => ?_
    simpa [hd] using Grid.reads_copyBesideLoop hread
  refine ⟨hreach, hother _ fun c hc => ?_, (resolve_footprint _ _).2 _ rfl rfl fun c hc _ => ?_⟩
  · rw [hreach, List.mem_pair] at hc
    rcases hc with rfl | rfl
    · exact ⟨by decide, rfl⟩
    · exact ⟨by decide, rfl⟩
  · rw [hloop c hc]
    simp [Grid.get?_store]

end Value

end Worksheet
