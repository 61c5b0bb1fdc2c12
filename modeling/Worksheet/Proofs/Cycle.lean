import Worksheet.Proofs.Circuit
import Worksheet.Proofs.Resolution

/-!
# Cycles of references

A reported cycle is a closed walk along references that meets no other cell
twice, among the cells that the value reaches. If the value reaches a cell
that reaches itself then it has no resolution, and otherwise no cycle is
reported.
-/

namespace Worksheet

open Relation (TransGen)

namespace Grid

structure IsCycle (grid : Grid) (chain : List Cell) : Prop where
  closed : ∃ c rest, chain = c :: rest ++ [c] ∧ (c :: rest).Nodup
  reads : chain.IsChain grid.Reads

variable {grid : Grid} {path chain : List Cell} {cell : Cell}

theorem isCycle_iff_isCircuit : grid.IsCycle chain ↔ IsCircuit grid.Reads chain :=
  ⟨fun h => ⟨h.closed, h.reads⟩, fun h => ⟨h.closed, h.walk⟩⟩

theorem isCycle_cycleAt (hpath : path.Nodup) (htrail : grid.IsTrail (cell :: path))
    (hcell : cell ∈ path) : grid.IsCycle (cycleAt path cell) :=
  isCycle_iff_isCircuit.mpr (isCircuit_cycleAt hpath htrail hcell)

theorem IsCycle.transGen (h : grid.IsCycle chain) (hcell : cell ∈ chain) :
    TransGen grid.Reads cell cell :=
  (isCycle_iff_isCircuit.mp h).transGen hcell

theorem inBounds_of_transGen {d : Cell} (h : TransGen grid.Reads cell d) :
    grid.InBounds cell := by
  obtain ⟨c, hread, -⟩ := Relation.TransGen.head'_iff.mp h
  exact hread.inBounds

end Grid

namespace Value

variable {grid : Grid} {path chain : List Cell} {v : Value}

theorem isCycle_of_evaluate (h : v.evaluate grid path = .error (.cycle chain))
    (hpath : path.Nodup) (hv : v.Continues grid path) :
    grid.IsCycle chain ∧ ∀ c ∈ chain, c ∈ path ∨ v.Reaches grid c := by
  induction path, v using evaluate_induction grid with
  | simple path value => simp at h
  | outside path c hc => simp [evaluate_outside hc] at h
  | cycle path c v hc hmem =>
      simp only [evaluate_cycle hc hmem, Except.error.injEq, Failure.cycle.injEq] at h
      subst h
      exact ⟨Grid.isCycle_cycleAt hpath hv.isTrail hmem, fun d hd =>
        .inl (mem_of_mem_cycleAt hmem hd)⟩
  | enter path c v hc hmem ih =>
      rw [evaluate_enter hc hmem] at h
      obtain ⟨hcycle, hcells⟩ := ih h (List.nodup_cons.mpr ⟨hmem, hpath⟩) (hv.stored hc)
      refine ⟨hcycle, fun d hd => ?_⟩
      rcases hcells d hd with hd | hd
      · rcases List.mem_cons.mp hd with rfl | hd
        · exact .inr (.direct (by simp))
        · exact .inl hd
      · exact .inr (hd.of_stored hc)
  | call path function operands ih =>
      rw [evaluate_call, Except.bind_eq_error_iff] at h
      rcases h with h | ⟨values, -, h⟩
      · obtain ⟨w, hw, hfail⟩ := exists_of_evaluateEach_eq_error h
        obtain ⟨hcycle, hcells⟩ := ih w hw hfail hpath (hv.operand hw)
        refine ⟨hcycle, fun d hd => (hcells d hd).imp_right fun hreach => ?_⟩
        exact reaches_call_iff.mpr ⟨w, hw, hreach⟩
      · exact absurd (Function.isReading_of_applyNamed h) (by simp [Failure.isReading])

/-- Cycles are reported where there are some, and only there. -/
theorem resolve_cycle (v : Value) (grid : Grid) :
    (∀ chain, v.resolve grid = .error (.cycle chain) →
      grid.IsCycle chain ∧ ∀ c ∈ chain, grid.InBounds c ∧ v.Reaches grid c) ∧
    ((∃ c, v.Reaches grid c ∧ TransGen grid.Reads c c) →
      ∀ value, v.resolve grid ≠ .ok value) ∧
    ((∀ c, v.Reaches grid c → ¬ TransGen grid.Reads c c) →
      ∀ chain, v.resolve grid ≠ .error (.cycle chain)) := by
  have hsound : ∀ chain, v.resolve grid = .error (.cycle chain) →
      grid.IsCycle chain ∧ ∀ c ∈ chain, v.Reaches grid c := by
    intro chain h
    rw [resolve_eq_evaluate] at h
    obtain ⟨hcycle, hcells⟩ := isCycle_of_evaluate h List.nodup_nil continues_nil
    exact ⟨hcycle, fun c hc => (hcells c hc).resolve_left List.not_mem_nil⟩
  refine ⟨?_, ?_, ?_⟩
  · intro chain h
    obtain ⟨hcycle, hcells⟩ := hsound chain h
    exact ⟨hcycle, fun c hc => ⟨Grid.inBounds_of_transGen (hcycle.transGen hc), hcells c hc⟩⟩
  · rintro ⟨c, hc, hself⟩ value h
    rw [resolve_eq_evaluate] at h
    exact (of_evaluate_eq_ok h hc).2.2 hself
  · intro hacyclic chain h
    obtain ⟨hcycle, hcells⟩ := hsound chain h
    obtain ⟨c, rest, rfl, -⟩ := hcycle.closed
    exact hacyclic c (hcells c List.mem_cons_self) (hcycle.transGen List.mem_cons_self)

theorem resolve_loop_copyBesideLoop :
    (Value.reference ⟨0, 2⟩).resolve Grid.copyBesideLoop = .error (.cycle [⟨0, 2⟩, ⟨0, 2⟩]) ∧
      Grid.copyBesideLoop.IsCycle [⟨0, 2⟩, ⟨0, 2⟩] := by
  have h : (Value.reference ⟨0, 2⟩).resolve Grid.copyBesideLoop =
      .error (.cycle [⟨0, 2⟩, ⟨0, 2⟩]) := by cbv
  exact ⟨h, ((resolve_cycle _ _).1 _ h).1⟩

end Value

end Worksheet
