import Mathlib.Data.List.Chain
import Mathlib.Data.List.Nodup
import Mathlib.Logic.Relation
import Worksheet.Path

/-!
# Circuits

Meeting a cell of a path again closes a circuit: the walk along the path back to
that cell, which comes to no other cell twice.
-/

namespace Worksheet

open Relation (TransGen)

variable {r : Cell → Cell → Prop} {path chain : List Cell} {cell c : Cell}

/-- A closed walk that meets no other cell twice. -/
structure IsCircuit (r : Cell → Cell → Prop) (chain : List Cell) : Prop where
  closed : ∃ c rest, chain = c :: rest ++ [c] ∧ (c :: rest).Nodup
  walk : chain.IsChain r

theorem cycleAt_append {inner outer : List Cell} (h : cell ∉ inner) :
    cycleAt (inner ++ cell :: outer) cell = cell :: inner.reverse ++ [cell] := by
  have hinner : ∀ c ∈ inner, decide (c ≠ cell) = true := by
    intro c hc
    simpa using fun heq : c = cell => h (heq ▸ hc)
  rw [cycleAt, List.takeWhile_append_of_pos hinner, List.takeWhile_cons_of_neg (by simp),
    List.append_nil]

theorem mem_of_mem_cycleAt (hcell : cell ∈ path) (hc : c ∈ cycleAt path cell) : c ∈ path := by
  simp only [cycleAt, List.cons_append, List.mem_cons, List.mem_append, List.mem_reverse,
    List.not_mem_nil, or_false] at hc
  rcases hc with rfl | hc | rfl
  · exact hcell
  · exact (List.takeWhile_prefix _).subset hc
  · exact hcell

/-- The walk along the path, back from the outermost to the innermost cell. -/
theorem isCircuit_cycleAt (hpath : path.Nodup)
    (htrail : (cell :: path).IsChain fun inner outer => r outer inner) (hcell : cell ∈ path) :
    IsCircuit r (cycleAt path cell) := by
  obtain ⟨inner, outer, rfl, hinner⟩ := List.eq_append_cons_of_mem hcell
  rw [cycleAt_append hinner]
  refine ⟨⟨cell, inner.reverse, rfl, ?_⟩, ?_⟩
  · rw [List.nodup_cons, List.mem_reverse, List.nodup_reverse]
    exact ⟨hinner, (List.nodup_append.mp hpath).1⟩
  · have hprefix : cell :: inner ++ [cell] <+: cell :: (inner ++ cell :: outer) :=
      ⟨outer, by simp⟩
    have hpart := List.IsChain.prefix htrail hprefix
    have hwalk := List.isChain_reverse.mpr hpart
    simpa using hwalk

theorem IsCircuit.exists_mem (h : IsCircuit r chain) : ∃ c, c ∈ chain := by
  obtain ⟨c, rest, rfl, -⟩ := h.closed
  exact ⟨c, List.mem_cons_self⟩

theorem IsCircuit.transGen (h : IsCircuit r chain) (hcell : cell ∈ chain) :
    TransGen r cell cell := by
  obtain ⟨⟨c, rest, rfl, -⟩, hsteps⟩ := h
  have hwalk : (c :: rest ++ [c]).Pairwise (TransGen r) :=
    List.isChain_iff_pairwise.mp (hsteps.imp fun _ _ => .single)
  have hback : ∀ d ∈ c :: rest, TransGen r d c := by
    intro d hd
    exact (List.pairwise_append.mp hwalk).2.2 d hd c List.mem_cons_self
  have hforth : ∀ d ∈ rest ++ [c], TransGen r c d :=
    (List.pairwise_cons.mp hwalk).1
  rcases List.mem_cons.mp hcell with rfl | hrest
  · exact hforth _ (by simp)
  · rcases List.mem_append.mp hrest with hmem | hlast
    · exact (hback cell (List.mem_cons_of_mem c hmem)).trans (hforth cell hrest)
    · obtain rfl := List.mem_singleton.mp hlast
      exact hforth _ hrest

end Worksheet
