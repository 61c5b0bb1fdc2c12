import Mathlib
import Worksheet.Proofs.Resolution
import Worksheet.Resolution.Trace

/-!
# The states of a run

A step opens a cell that is not known, closes the innermost one, or leaves path and memo as
they are. Stack, path and memo therefore agree in every state, what has been taken up stays
known for the rest of the run, and nothing is taken up that is known.
-/

namespace Worksheet

namespace Resolution

variable {grid : Grid} {s t : State} {c : Cell}

namespace State

/-- Stack, path and memo of a state agree. -/
structure Tidy (s : State) : Prop where
  path : s.path = pathOf s.stack
  nodup : s.path.Nodup
  onPath : ∀ c, c ∈ s.onPath ↔ c ∈ s.path
  memo : ∀ c ∈ s.path, c ∉ s.memo

/-- The next step takes up the value that is stored at the cell. -/
def Takes (grid : Grid) (s : State) (c : Cell) : Prop :=
  ∃ v, grid.get? c = some v ∧ step grid s = .next (s.openCell c v)

/-- The cell is on the path or in the memo. -/
def Knows (s : State) (c : Cell) : Prop :=
  c ∈ s.onPath ∨ c ∈ s.memo

end State

/-- The path and the memo of a state are what they were before. -/
structure Stays (s t : State) : Prop where
  path : t.path = s.path
  onPath : t.onPath = s.onPath
  memo : t.memo = s.memo
  stack : pathOf t.stack = pathOf s.stack

/-- A step opens a cell that is not known, closes the innermost one, or leaves path and
memo as they are. -/
theorem step_cases (h : step grid s = .next t) :
    (∃ c v, grid.get? c = some v ∧ ¬ s.Knows c ∧ t = s.openCell c v) ∨
      (∃ c value stack, s.stack = .cell c :: stack ∧ t = s.closeCell c value stack) ∨
      Stays s t := by
  obtain ⟨stack, path, onPath, memo, focus⟩ := s
  cases focus with
  | todo v =>
      cases v with
      | simple value =>
          simp only [step] at h
          obtain ⟨_, -, rfl⟩ := Step.next_of_yield h
          exact .inr (.inr ⟨rfl, rfl, rfl, rfl⟩)
      | reference cell =>
          simp only [step, visit] at h
          split at h
          · simp [State.yield] at h
          next v hv =>
              split at h
              · obtain ⟨_, -, rfl⟩ := Step.next_of_yield h
                exact .inr (.inr ⟨rfl, rfl, rfl, rfl⟩)
              next hmemo =>
                  split at h
                  · simp [State.yield] at h
                  next hpath =>
                      refine .inl ⟨cell, v, hv, ?_, (Step.next.inj h).symm⟩
                      rintro (hcell | hcell)
                      · exact hpath hcell
                      · exact absurd (Std.ExtTreeMap.mem_iff_isSome_getElem?.mp hcell)
                          (by simp [hmemo])
      | call function operands =>
          cases operands with
          | nil =>
              simp only [step] at h
              obtain ⟨_, -, rfl⟩ := Step.next_of_yield h
              exact .inr (.inr ⟨rfl, rfl, rfl, rfl⟩)
          | cons v operands =>
              obtain rfl := Step.next.inj h
              exact .inr (.inr ⟨rfl, rfl, rfl, rfl⟩)
  | result value =>
      cases stack with
      | nil => simp [step] at h
      | cons frame stack =>
          cases frame with
          | cell cell => exact .inr (.inl ⟨cell, value, stack, rfl, (Step.next.inj h).symm⟩)
          | call function results operands =>
              cases operands with
              | nil =>
                  obtain ⟨_, -, rfl⟩ := Step.next_of_yield h
                  exact .inr (.inr ⟨rfl, rfl, rfl, rfl⟩)
              | cons v operands =>
                  obtain rfl := Step.next.inj h
                  exact .inr (.inr ⟨rfl, rfl, rfl, rfl⟩)

/-- What is taken up is not known before. -/
theorem not_knows_of_takes (h : s.Takes grid c) : ¬ s.Knows c := by
  obtain ⟨v, -, hstep⟩ := h
  obtain ⟨d, w, -, hnot, heq⟩ | ⟨d, value, stack, -, heq⟩ | hstays := step_cases hstep
  · obtain rfl : c = d := (List.cons.inj (congrArg State.path heq)).1
    exact hnot
  · have hpath := congrArg (List.length ∘ State.path) heq
    simp [State.openCell, State.closeCell] at hpath
    omega
  · exact absurd hstays.path (List.cons_ne_self c s.path)

theorem knows_openCell_iff {v : Value} {d : Cell} :
    (s.openCell c v).Knows d ↔ d = c ∨ s.Knows d := by
  simp only [State.Knows, State.openCell, CellSet.mem_insert_iff, or_assoc]

/-- What is known or taken up is known after the step. -/
theorem knows_of_step (hstep : step grid s = .next t) (h : s.Knows c ∨ s.Takes grid c) :
    t.Knows c := by
  obtain hknows | ⟨v, -, hopen⟩ := h
  · obtain ⟨d, w, -, -, rfl⟩ | ⟨d, value, stack, -, rfl⟩ | hstays := step_cases hstep
    · exact knows_openCell_iff.mpr (.inr hknows)
    · simp only [State.Knows, State.closeCell, CellSet.mem_erase_iff, CellMap.mem_insert_iff]
      by_cases hc : c = d
      · exact .inr (.inl hc)
      · exact hknows.imp (fun honPath => ⟨hc, honPath⟩) .inr
    · rwa [State.Knows, hstays.onPath, hstays.memo]
  · obtain rfl := Step.next.inj (hopen.symm.trans hstep)
    exact knows_openCell_iff.mpr (.inl rfl)

theorem tidy_start (v : Value) (memo : Memo) : (State.start v memo).Tidy :=
  ⟨rfl, List.nodup_nil, by simp [State.start], by simp [State.start]⟩

theorem tidy_step (h : s.Tidy) (hstep : step grid s = .next t) : t.Tidy := by
  obtain ⟨c, v, -, hnot, rfl⟩ | ⟨c, value, stack, hstack, rfl⟩ | hstays := step_cases hstep
  · have hc : c ∉ s.path := fun hmem => hnot (.inl ((h.onPath c).mpr hmem))
    refine ⟨?_, List.nodup_cons.mpr ⟨hc, h.nodup⟩, fun d => ?_, ?_⟩
    · exact congrArg (List.cons c) h.path
    · simp only [State.openCell, CellSet.mem_insert_iff, h.onPath, List.mem_cons]
    · exact List.forall_mem_cons.mpr ⟨fun hmem => hnot (.inr hmem), h.memo⟩
  · have hpath : s.path = c :: pathOf stack := by rw [h.path, hstack, pathOf]
    have hc : c ∉ pathOf stack := (List.nodup_cons.mp (hpath ▸ h.nodup)).1
    refine ⟨?_, h.nodup.tail, fun d => ?_, fun d hd => ?_⟩
    · simp [State.closeCell, hpath]
    · simp only [State.closeCell, CellSet.mem_erase_iff, h.onPath, hpath, List.mem_cons,
        List.tail_cons]
      constructor
      · rintro ⟨hne, hd⟩
        exact hd.resolve_left hne
      · intro hd
        exact ⟨fun heq => hc (heq ▸ hd), .inr hd⟩
    · simp only [State.closeCell, hpath, List.tail_cons] at hd
      simp only [State.closeCell, CellMap.mem_insert_iff, not_or]
      exact ⟨fun heq => hc (heq ▸ hd), h.memo d (hpath ▸ List.mem_cons_of_mem c hd)⟩
  · exact ⟨by rw [hstays.path, hstays.stack, h.path], hstays.path ▸ h.nodup,
      by rw [hstays.path, hstays.onPath]; exact h.onPath,
      by rw [hstays.path, hstays.memo]; exact h.memo⟩

theorem result_ne_ok_of_yield {r : Except Failure Simple} {outcome : Outcome} {value : Simple}
    (h : s.yield r = .stop outcome) : outcome.result ≠ .ok value := by
  cases r with
  | error failure =>
      obtain rfl := Step.stop.inj h
      simp
  | ok value => simp [State.yield] at h

/-- The machine stops with a result only when its stack is empty. -/
theorem eq_of_step_eq_stop {outcome : Outcome} {value : Simple}
    (hstep : step grid s = .stop outcome) (h : outcome.result = .ok value) :
    s.stack = [] ∧ outcome.memo = s.memo := by
  obtain ⟨stack, path, onPath, memo, focus⟩ := s
  cases focus with
  | todo v =>
      cases v with
      | simple value => exact absurd h (result_ne_ok_of_yield (by simpa only [step] using hstep))
      | reference cell =>
          simp only [step, visit] at hstep
          repeat' split at hstep
          all_goals first
            | exact absurd h (result_ne_ok_of_yield hstep)
            | cases hstep
      | call function operands =>
          cases operands with
          | nil => exact absurd h (result_ne_ok_of_yield (by simpa only [step] using hstep))
          | cons v operands => cases hstep
  | result value =>
      cases stack with
      | nil =>
          obtain rfl := Step.stop.inj hstep
          exact ⟨rfl, rfl⟩
      | cons frame stack =>
          cases frame with
          | cell cell => cases hstep
          | call function results operands =>
              cases operands with
              | nil => exact absurd h (result_ne_ok_of_yield (by simpa only [step] using hstep))
              | cons v operands => cases hstep

theorem wellFounded_step (grid : Grid) : WellFounded fun t s => step grid s = .next t :=
  Subrelation.wf less_of_step (InvImage.wf (fun s : State => (unopened grid s.memo s.onPath, s.work))
    (Prod.lex Nat.lt_wfRel Nat.lt_wfRel).wf)

theorem states_of_next (h : step grid s = .next t) : states grid s = s :: states grid t := by
  rw [states]
  split <;> simp_all

theorem states_of_stop {outcome : Outcome} (h : step grid s = .stop outcome) :
    states grid s = [s] := by
  rw [states]
  split <;> simp_all

theorem head?_states (grid : Grid) (s : State) : (states grid s).head? = some s := by
  cases h : step grid s with
  | next t => rw [states_of_next h, List.head?_cons]
  | stop outcome => rw [states_of_stop h, List.head?_cons]

/-- What each step keeps holds in every state of a run. -/
theorem forall_mem_states {p : State → Prop} (h : p s)
    (hnext : ∀ s t, p s → step grid s = .next t → p t) : ∀ t ∈ states grid s, p t := by
  induction s using states.induct grid with
  | case1 s t hstep ih =>
      rw [states_of_next hstep]
      exact List.forall_mem_cons.mpr ⟨h, ih (hnext s t h hstep)⟩
  | case2 s outcome hstep =>
      rw [states_of_stop hstep]
      exact List.forall_mem_singleton.mpr h

/-- What is known stays known. -/
theorem knows_of_mem_states (h : s.Knows c) (ht : t ∈ states grid s) : t.Knows c :=
  forall_mem_states (p := (State.Knows · c)) h
    (fun _ _ hknows hstep => knows_of_step hstep (.inl hknows)) t ht

/-- A run for a value: its states, each a step after the one before, from the start to a
state at which the machine stops with the outcome of the run. -/
structure IsRun (grid : Grid) (v : Value) (memo : Memo) (run : List State) : Prop where
  start : run.head? = some (.start v memo)
  steps : run.IsChain fun s t => step grid s = .next t
  stops : ∃ last ∈ run.getLast?, step grid last = .stop (resolveFrom grid v memo)

theorem isChain_states (grid : Grid) (s : State) :
    (states grid s).IsChain fun s t => step grid s = .next t := by
  induction s using states.induct grid with
  | case1 s t hstep ih =>
      rw [states_of_next hstep, List.isChain_cons]
      refine ⟨fun u hu => ?_, ih⟩
      rw [head?_states] at hu
      obtain rfl := Option.some.inj hu
      exact hstep
  | case2 s outcome hstep =>
      rw [states_of_stop hstep]
      exact .singleton s

theorem stops_states (grid : Grid) (s : State) :
    ∃ last ∈ (states grid s).getLast?, step grid last = .stop (run grid s) := by
  induction s using states.induct grid with
  | case1 s t hstep ih =>
      obtain ⟨last, hlast, hstop⟩ := ih
      refine ⟨last, ?_, run_of_next hstep ▸ hstop⟩
      rw [states_of_next hstep, List.getLast?_cons, hlast]
      rfl
  | case2 s outcome hstep =>
      refine ⟨s, ?_, run_of_stop hstep ▸ hstep⟩
      rw [states_of_stop hstep]
      rfl

theorem isRun_states (v : Value) (memo : Memo) :
    IsRun grid v memo (states grid (.start v memo)) :=
  ⟨head?_states _ _, isChain_states _ _, stops_states _ _⟩

/-- What is known or taken up in one state is known in the other. -/
def Precedes (grid : Grid) (s t : State) : Prop :=
  ∀ c, s.Knows c ∨ s.Takes grid c → t.Knows c

theorem pairwise_states (grid : Grid) (s : State) :
    (states grid s).Pairwise (Precedes grid) := by
  induction s using states.induct grid with
  | case1 s t hstep ih =>
      rw [states_of_next hstep]
      exact List.pairwise_cons.mpr
        ⟨fun u hu c hc => knows_of_mem_states (knows_of_step hstep hc) hu, ih⟩
  | case2 s outcome hstep =>
      rw [states_of_stop hstep]
      exact List.pairwise_singleton _ _

/-- The memo that a successful run leaves holds all that it has taken up. -/
theorem mem_memo_of_mem_states {value : Simple} (h : s.Tidy)
    (hvalue : (run grid s).result = .ok value) (ht : t ∈ states grid s)
    (hc : t.Knows c ∨ t.Takes grid c) : c ∈ (run grid s).memo := by
  induction s using states.induct grid generalizing t with
  | case1 s u hstep ih =>
      rw [states_of_next hstep] at ht
      rw [run_of_next hstep] at hvalue ⊢
      obtain rfl | ht := List.mem_cons.mp ht
      · exact ih (tidy_step h hstep) hvalue (List.mem_of_mem_head? (head?_states grid u))
          (.inl (knows_of_step hstep hc))
      · exact ih (tidy_step h hstep) hvalue ht hc
  | case2 s outcome hstep =>
      rw [states_of_stop hstep] at ht
      obtain rfl := List.mem_singleton.mp ht
      rw [run_of_stop hstep] at hvalue ⊢
      obtain ⟨hstack, hmemo⟩ := eq_of_step_eq_stop hstep hvalue
      obtain (honPath | hknown) | ⟨v, -, htakes⟩ := hc
      · rw [h.onPath, h.path, hstack] at honPath
        cases honPath
      · rwa [hmemo]
      · rw [hstep] at htakes
        cases htakes

end Resolution

end Worksheet
