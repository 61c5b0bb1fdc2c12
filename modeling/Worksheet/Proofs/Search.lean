import Worksheet.Proofs.Cycle
import Worksheet.Proofs.Downstream

/-!
# Circuits that a search meets

The cells that a search is inside of form a trail from one of its roots. When
it meets one of them again it has gone round a circuit, which it reports. Over
an index without a circuit in reach of the roots a search comes to an end, and has
then finished nothing but cells in reach of the roots.
-/

namespace Worksheet.Dependencies

open Relation (TransGen ReflTransGen)

variable {index : Dependencies} {grid : Grid} {roots chain changed order : List Cell}
  {cell c : Cell} {fault : Fault}

namespace Search

variable {s t : Search}

/-- What a search has come through from its roots. -/
structure Traced (index : Dependencies) (roots : List Cell) (s : Search) : Prop where
  trail : s.path.IsChain fun inner outer => index.Refers outer inner
  origin : ∀ c ∈ s.path ++ s.order, ∃ root ∈ roots, ReflTransGen index.Refers root c
  ahead : ∀ frame ∈ s.stack, ∀ d ∈ frame.2, index.Refers frame.1 d
  roots : ∀ c ∈ s.roots, c ∈ roots

/-- The cell may be looked at next: it is a root, or read by the innermost cell. -/
structure Faces (index : Dependencies) (roots : List Cell) (s : Search) (cell : Cell) : Prop where
  trail : (cell :: s.path).IsChain fun inner outer => index.Refers outer inner
  origin : ∃ root ∈ roots, ReflTransGen index.Refers root cell

theorem traced_start (index : Dependencies) (roots : List Cell) :
    (start roots).Traced index roots where
  trail := List.isChain_nil
  origin := by simp [start, path]
  ahead := by simp [start]
  roots _ hc := hc

theorem Traced.visit (h : s.Traced index roots) (hcell : s.Faces index roots cell)
    (hvisit : s.visit index cell = .next t) : t.Traced index roots := by
  unfold Search.visit at hvisit
  split at hvisit
  · simp at hvisit
  · split at hvisit
    next =>
        obtain rfl := SearchStep.next.inj hvisit
        exact h
    next =>
        obtain rfl := SearchStep.next.inj hvisit
        exact {
          trail := hcell.trail
          origin := List.forall_mem_cons.mpr ⟨hcell.origin, h.origin⟩
          ahead := List.forall_mem_cons.mpr ⟨fun _ hd => hd, h.ahead⟩
          roots := h.roots }

theorem Traced.leave {stack : List (Cell × List Cell)} (h : s.Traced index roots)
    (hstack : s.stack = (cell, []) :: stack) : (s.leave cell stack).Traced index roots := by
  have hpath : s.path = cell :: (s.leave cell stack).path := by
    rw [path, hstack, List.map_cons]
    rfl
  refine ⟨?_, fun c hc => h.origin c ?_, fun frame hframe => ?_, h.roots⟩
  · exact List.IsChain.tail (hpath ▸ h.trail)
  · rw [hpath]
    exact List.perm_middle.subset hc
  · exact h.ahead frame (hstack ▸ List.mem_cons_of_mem _ hframe)

/-- A step ends the search, leaves a cell, or looks at one. -/
theorem Traced.step_cases (h : s.Traced index roots) :
    step index s = .stop (.ok s.order.reverse) ∨
      (∃ c stack, s.stack = (c, []) :: stack ∧ step index s = .next (s.leave c stack)) ∨
      ∃ (r : Search) (c : Cell), r.Traced index roots ∧ r.Faces index roots c ∧ r.path = s.path ∧
        r.onPath = s.onPath ∧ step index s = r.visit index c := by
  obtain ⟨ahead, stack, onPath, finished, order⟩ := s
  cases stack with
  | nil =>
      cases ahead with
      | nil => exact .inl rfl
      | cons root ahead =>
          obtain ⟨hroot, hroots⟩ := List.forall_mem_cons.mp h.roots
          refine .inr (.inr ⟨⟨ahead, [], onPath, finished, order⟩, root,
            ⟨h.trail, h.origin, h.ahead, hroots⟩, ⟨?_, ?_⟩, rfl, rfl, rfl⟩)
          · exact List.isChain_singleton root
          · exact ⟨root, hroot, .refl⟩
  | cons frame stack =>
      obtain ⟨c, references⟩ := frame
      cases references with
      | nil => exact .inr (.inl ⟨c, stack, rfl, rfl⟩)
      | cons d references =>
          obtain ⟨hframe, hstack⟩ := List.forall_mem_cons.mp h.ahead
          obtain ⟨hread, hreferences⟩ := List.forall_mem_cons.mp hframe
          obtain ⟨root, hroot, hreach⟩ := h.origin c List.mem_cons_self
          refine .inr (.inr ⟨⟨ahead, (c, references) :: stack, onPath, finished, order⟩, d,
            ⟨h.trail, h.origin, ?_, h.roots⟩, ⟨?_, ?_⟩, rfl, rfl, rfl⟩)
          · exact List.forall_mem_cons.mpr ⟨hreferences, hstack⟩
          · exact List.isChain_cons_cons.mpr ⟨hread, h.trail⟩
          · exact ⟨root, hroot, hreach.tail hread⟩

theorem Traced.step (h : s.Traced index roots) (hstep : step index s = .next t) :
    t.Traced index roots := by
  rcases h.step_cases with hstop | ⟨c, stack, hstack, hleave⟩ | ⟨r, c, hr, hc, -, -, hvisit⟩
  · simp [hstop] at hstep
  · obtain rfl := SearchStep.next.inj (hleave.symm.trans hstep)
    exact h.leave hstack
  · exact hr.visit hc (hvisit.symm.trans hstep)

/-- What is met again lies on the path, and the walk back to it is a circuit. -/
theorem Traced.isCircuit_of_stop (h : s.Traced index roots)
    (hinvariant : s.Invariant index roots none)
    (hstop : Search.step index s = .stop (.error chain)) :
    IsCircuit index.Refers chain ∧
      ∀ c ∈ chain, ∃ root ∈ roots, ReflTransGen index.Refers root c := by
  rcases h.step_cases with hend | ⟨c, stack, -, hleave⟩ | ⟨r, c, -, hc, hpath, honPath, hvisit⟩
  · simp [hend] at hstop
  · simp [hleave] at hstop
  · rw [hvisit, Search.visit] at hstop
    split at hstop
    next hmet =>
        obtain rfl : cycleAt r.path c = chain := by simpa using hstop
        rw [honPath, ← Std.ExtTreeSet.mem_iff_contains, hinvariant.onPath] at hmet
        rw [hpath]
        refine ⟨isCircuit_cycleAt hinvariant.nodup (hpath ▸ hc.trail) hmet, fun d hd => ?_⟩
        exact h.origin d (List.mem_append_left _ (mem_of_mem_cycleAt hmet hd))
    next => split at hstop <;> simp at hstop

theorem Traced.exists_last (h : s.Traced index roots) (hinvariant : s.Invariant index roots none) :
    ∃ last, last.Traced index roots ∧ last.Invariant index roots none ∧
      Search.step index last = .stop (run index s) := by
  obtain ⟨last, ⟨htraced, hlast⟩, hstop⟩ := Search.exists_last
    (p := fun s => s.Traced index roots ∧ s.Invariant index roots none) ⟨h, hinvariant⟩
    fun _ _ hs hstep => ⟨hs.1.step hstep, hs.2.step hstep⟩
  exact ⟨last, htraced, hlast, hstop⟩

theorem isCircuit_of_run (h : run index (start roots) = .error chain) :
    IsCircuit index.Refers chain ∧
      ∀ c ∈ chain, ∃ root ∈ roots, ReflTransGen index.Refers root c := by
  obtain ⟨last, htraced, hlast, hstop⟩ :=
    (traced_start index roots).exists_last (invariant_start index roots)
  exact htraced.isCircuit_of_stop hlast (h ▸ hstop)

theorem reflTransGen_of_run (h : run index (start roots) = .ok order) (hc : c ∈ order) :
    ∃ root ∈ roots, ReflTransGen index.Refers root c := by
  obtain ⟨last, htraced, -, hstop⟩ :=
    (traced_start index roots).exists_last (invariant_start index roots)
  rw [h] at hstop
  obtain ⟨-, -, rfl⟩ := order_eq_ok_of_stop hstop
  exact htraced.origin c (List.mem_append_right _ (List.mem_reverse.mp hc))

end Search

/-- The order fails with a cycle in reach of a cell downstream of the change. -/
theorem isCycle_of_downstream (h : (ofGrid grid).downstream changed = .error fault) :
    ∃ chain, grid.IsCycle chain ∧ cycleFault chain = fault ∧ ∀ c ∈ chain,
      ∃ reader, (∃ d ∈ changed, TransGen grid.Reads reader d) ∧
        ReflTransGen grid.Reads reader c := by
  simp only [downstream, Except.map_eq_error_iff, orderOf, Except.mapError_eq_error_iff] at h
  obtain ⟨chain, hrun, hfault⟩ := h
  obtain ⟨hcircuit, hreach⟩ := Search.isCircuit_of_run hrun
  rw [refers_ofGrid] at hcircuit hreach
  refine ⟨chain, Grid.isCycle_iff_isCircuit.mpr hcircuit, hfault, fun c hc => ?_⟩
  obtain ⟨reader, hreader, hwalk⟩ := hreach c hc
  rw [Std.ExtTreeSet.mem_toList, mem_readersFrom_iff, follows_ofGrid] at hreader
  exact ⟨reader, hreader, hwalk⟩

end Worksheet.Dependencies
