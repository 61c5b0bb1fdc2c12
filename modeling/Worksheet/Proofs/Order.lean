import Mathlib.Logic.Relation
import Worksheet.Dependencies.Order
import Worksheet.Proofs.Index
import Worksheet.Proofs.Outcome

/-!
# Evaluation order

The cells that a search has finished are settled: each is a formula cell whose
formula cells were finished before it. A search that comes to an end has
finished its roots, and in its order no cell reads a later one, directly or
not.
-/

namespace Worksheet.Dependencies

open Relation (TransGen ReflTransGen)

/-- A formula cell among those that a cell reads. -/
def Links (index : Dependencies) (reader cell : Cell) : Prop :=
  cell ∈ index.referencesOf reader ∧ index.contains cell

section Refers

variable {index : Dependencies} {c d : Cell}

/-- A cell among those that a cell reads, whether or not it holds a formula. -/
def Refers (index : Dependencies) (reader cell : Cell) : Prop :=
  cell ∈ index.referencesOf reader

theorem refers_ofGrid (grid : Grid) : (ofGrid grid).Refers = grid.Reads := by
  funext reader cell
  exact propext mem_referencesOf_ofGrid

theorem Coherent.contains_of_refers (h : index.Coherent) (hread : index.Refers c d) :
    index.contains c := by
  obtain ⟨formula, hformula, -⟩ := h.mem_referencesOf_iff.mp hread
  exact contains_iff.mpr ⟨formula, hformula⟩

theorem Coherent.contains_of_reflTransGen (h : index.Coherent)
    (hwalk : ReflTransGen index.Refers c d) (hd : index.contains d) : index.contains c := by
  rcases Relation.ReflTransGen.cases_head hwalk with rfl | ⟨e, hread, -⟩
  · exact hd
  · exact h.contains_of_refers hread

/-- On the way from a cell to a formula cell all cells are formula cells. -/
theorem Coherent.transGen_links (h : index.Coherent) (hd : index.contains d)
    (hreads : TransGen index.Refers c d) : TransGen index.Links c d := by
  induction hreads using TransGen.head_induction_on with
  | single hread => exact .single ⟨hread, hd⟩
  | head hread hrest ih =>
      exact .head ⟨hread, h.contains_of_reflTransGen hrest.to_reflTransGen hd⟩ ih

end Refers

/-- Finished cells, the latest first. -/
def Settled (index : Dependencies) : List Cell → Prop
  | [] => True
  | c :: order =>
      (index.contains c ∧ c ∉ order ∧ ∀ d, index.Links c d → d ∈ order) ∧ Settled index order

namespace Settled

variable {index : Dependencies} {order : List Cell} {c d : Cell}

theorem contains (h : index.Settled order) (hc : c ∈ order) : index.contains c := by
  induction order with
  | nil => simp at hc
  | cons e order ih =>
      rcases List.mem_cons.mp hc with rfl | hc
      · exact h.1.1
      · exact ih h.2 hc

theorem nodup (h : index.Settled order) : order.Nodup := by
  induction order with
  | nil => exact List.nodup_nil
  | cons e order ih => exact List.nodup_cons.mpr ⟨h.1.2.1, ih h.2⟩

theorem mem_of_links (h : index.Settled order) (hc : c ∈ order) (hlink : index.Links c d) :
    d ∈ order := by
  induction order with
  | nil => simp at hc
  | cons e order ih =>
      rcases List.mem_cons.mp hc with rfl | hc
      · exact List.mem_cons_of_mem c (h.1.2.2 d hlink)
      · exact List.mem_cons_of_mem e (ih h.2 hc)

theorem mem_of_transGen (h : index.Settled order) (hc : c ∈ order)
    (hlinks : TransGen index.Links c d) : d ∈ order := by
  induction hlinks with
  | single hlink => exact h.mem_of_links hc hlink
  | tail _ hlink ih => exact h.mem_of_links ih hlink

theorem not_transGen (h : index.Settled order) (hc : c ∈ order) : ¬ TransGen index.Links c c := by
  induction order with
  | nil => simp at hc
  | cons e order ih =>
      rcases List.mem_cons.mp hc with rfl | hc
      · intro hlinks
        obtain ⟨d, hlink, hback⟩ := Relation.TransGen.head'_iff.mp hlinks
        have hd : d ∈ order := h.1.2.2 d hlink
        rcases Relation.reflTransGen_iff_eq_or_transGen.mp hback with rfl | hback
        · exact h.1.2.1 hd
        · exact h.1.2.1 (h.2.mem_of_transGen hd hback)
      · exact ih h.2 hc

theorem pairwise (h : index.Settled order) :
    order.Pairwise fun later earlier => ¬ TransGen index.Links earlier later := by
  induction order with
  | nil => exact .nil
  | cons e order ih =>
      refine List.pairwise_cons.mpr ⟨fun c hc hlinks => ?_, ih h.2⟩
      exact h.1.2.1 (h.2.mem_of_transGen hc hlinks)

end Settled

/-- What a cell of the stack links to lies ahead of it, has been finished, or
is the cell above it. -/
def Explored (index : Dependencies) (order : List Cell) :
    Option Cell → List (Cell × List Cell) → Prop
  | _, [] => True
  | above, (c, ahead) :: stack =>
      (∀ d, index.Links c d → d ∈ ahead ∨ d ∈ order ∨ above = some d) ∧
        Explored index order (some c) stack

theorem Explored.mono {index : Dependencies} {order order' : List Cell} {above above' : Option Cell}
    {stack : List (Cell × List Cell)} (h : index.Explored order above stack)
    (horder : order ⊆ order')
    (habove : ∀ d, above = some d → index.contains d → d ∈ order' ∨ above' = some d) :
    index.Explored order' above' stack := by
  induction stack generalizing above above' with
  | nil => trivial
  | cons frame stack ih =>
      refine ⟨fun d hlink => ?_, ih h.2 fun d hd _ => .inr hd⟩
      rcases h.1 d hlink with hahead | hdone | hd
      · exact .inl hahead
      · exact .inr (.inl (horder hdone))
      · exact .inr (habove d hd hlink.2)

namespace Search

/-- What holds throughout a search from the given roots. A cell that has been
taken off the roots or off a frame, but not yet looked at, is pending. -/
structure Invariant (index : Dependencies) (roots : List Cell) (pending : Option Cell)
    (s : Search) : Prop where
  settled : index.Settled s.order
  finished : ∀ c, c ∈ s.finished ↔ c ∈ s.order
  onPath : ∀ c, c ∈ s.onPath ↔ c ∈ s.path
  nodup : s.path.Nodup
  formulas : ∀ c ∈ s.path, index.contains c
  apart : ∀ c ∈ s.path, c ∉ s.order
  explored : index.Explored s.order pending s.stack
  roots : ∀ c ∈ roots, index.contains c →
    c ∈ s.roots ∨ c ∈ s.order ∨ c ∈ s.path ∨ pending = some c

variable {index : Dependencies} {roots : List Cell} {s t : Search} {cell : Cell}

theorem invariant_start (index : Dependencies) (roots : List Cell) :
    (start roots).Invariant index roots none where
  settled := trivial
  finished := by simp [start]
  onPath := by simp [start, path]
  nodup := List.nodup_nil
  formulas := by simp [start, path]
  apart := by simp [start, path]
  explored := trivial
  roots c hc _ := .inl hc

theorem Invariant.enter (h : s.Invariant index roots (some cell)) (hpath : cell ∉ s.path)
    (horder : cell ∉ s.order) (hcell : index.contains cell) :
    (s.enter index cell).Invariant index roots none where
  settled := h.settled
  finished := h.finished
  onPath c := by
    rw [Search.enter, CellSet.mem_insert_iff, h.onPath, path, path, List.map_cons, List.mem_cons]
  nodup := List.nodup_cons.mpr ⟨hpath, h.nodup⟩
  formulas := List.forall_mem_cons.mpr ⟨hcell, h.formulas⟩
  apart := List.forall_mem_cons.mpr ⟨horder, h.apart⟩
  explored := ⟨fun d hlink => .inl hlink.1, h.explored⟩
  roots c hc hformula := by
    rcases h.roots c hc hformula with hahead | hdone | hmem | heq
    · exact .inl hahead
    · exact .inr (.inl hdone)
    · exact .inr (.inr (.inl (List.mem_cons_of_mem cell hmem)))
    · obtain rfl := Option.some.inj heq
      exact .inr (.inr (.inl List.mem_cons_self))

theorem Invariant.pass (h : s.Invariant index roots (some cell))
    (hcell : index.contains cell → cell ∈ s.order) : s.Invariant index roots none where
  settled := h.settled
  finished := h.finished
  onPath := h.onPath
  nodup := h.nodup
  formulas := h.formulas
  apart := h.apart
  explored := by
    refine h.explored.mono (List.Subset.refl _) fun d hd hformula => .inl ?_
    obtain rfl := Option.some.inj hd
    exact hcell hformula
  roots c hc hformula := by
    rcases h.roots c hc hformula with hahead | hdone | hmem | heq
    · exact .inl hahead
    · exact .inr (.inl hdone)
    · exact .inr (.inr (.inl hmem))
    · obtain rfl := Option.some.inj heq
      exact .inr (.inl (hcell hformula))

theorem Invariant.visit (h : s.Invariant index roots (some cell))
    (hvisit : s.visit index cell = .next t) : t.Invariant index roots none := by
  unfold Search.visit at hvisit
  split at hvisit
  · simp at hvisit
  next honPath =>
      have hpath : cell ∉ s.path := fun hmem => honPath ((h.onPath cell).mpr hmem)
      split at hvisit
      next hpass =>
          obtain rfl := SearchStep.next.inj hvisit
          refine h.pass fun hformula => ?_
          have hfinished : s.finished.contains cell := by simpa [hformula] using hpass
          exact (h.finished cell).mp hfinished
      next henter =>
          obtain rfl := SearchStep.next.inj hvisit
          rw [Bool.or_eq_true, not_or, Bool.not_eq_true', Bool.not_eq_false] at henter
          exact h.enter hpath (fun hmem => henter.1 ((h.finished cell).mpr hmem)) henter.2

theorem Invariant.leave {stack : List (Cell × List Cell)} (h : s.Invariant index roots none)
    (hstack : s.stack = (cell, []) :: stack) :
    (s.leave cell stack).Invariant index roots none := by
  have hpath : s.path = cell :: stack.map Prod.fst := by rw [path, hstack, List.map_cons]
  have hnodup := hpath ▸ h.nodup
  have hcell : cell ∉ stack.map Prod.fst := (List.nodup_cons.mp hnodup).1
  have hmem : cell ∈ s.path := hpath ▸ List.mem_cons_self
  have hexplored := hstack ▸ h.explored
  refine ⟨⟨⟨h.formulas cell hmem, h.apart cell hmem, ?_⟩, h.settled⟩, ?_, ?_,
    (List.nodup_cons.mp hnodup).2, ?_, ?_, ?_, ?_⟩
  · intro d hlink
    simpa using hexplored.1 d hlink
  · intro c
    rw [Search.leave, CellSet.mem_insert_iff, h.finished, List.mem_cons]
  · intro c
    rw [Search.leave, CellSet.mem_erase_iff, h.onPath, hpath, List.mem_cons]
    constructor
    · rintro ⟨hne, hc⟩
      exact hc.resolve_left hne
    · intro hc
      exact ⟨fun heq => hcell (heq ▸ hc), .inr hc⟩
  · intro c hc
    exact h.formulas c (hpath ▸ List.mem_cons_of_mem cell hc)
  · intro c hc hdone
    rcases List.mem_cons.mp hdone with rfl | hdone
    · exact hcell hc
    · exact h.apart c (hpath ▸ List.mem_cons_of_mem cell hc) hdone
  · refine hexplored.2.mono (List.subset_cons_self cell s.order) fun d hd _ => .inl ?_
    obtain rfl := Option.some.inj hd
    exact List.mem_cons_self
  · intro c hc hformula
    rcases h.roots c hc hformula with hahead | hdone | hmem | hnone
    · exact .inl hahead
    · exact .inr (.inl (List.mem_cons_of_mem cell hdone))
    · rw [hpath, List.mem_cons] at hmem
      rcases hmem with rfl | hmem
      · exact .inr (.inl List.mem_cons_self)
      · exact .inr (.inr (.inl hmem))
    · simp at hnone

/-- A root that is taken off the list is pending. -/
theorem Invariant.takeRoot {ahead : List Cell} (h : s.Invariant index roots none)
    (hstack : s.stack = []) (hroots : s.roots = cell :: ahead) :
    { s with roots := ahead }.Invariant index roots (some cell) := by
  have hexplored : index.Explored s.order (some cell) s.stack := by
    rw [hstack]
    trivial
  refine { h with explored := hexplored, roots := fun c hc hformula => ?_ }
  rcases h.roots c hc hformula with hahead | hdone | hmem | hnone
  · rw [hroots, List.mem_cons] at hahead
    rcases hahead with rfl | hahead
    · exact .inr (.inr (.inr rfl))
    · exact .inl hahead
  · exact .inr (.inl hdone)
  · exact .inr (.inr (.inl hmem))
  · simp at hnone

/-- A reference that is taken off the innermost frame is pending. -/
theorem Invariant.takeReference {c : Cell} {references : List Cell}
    {stack : List (Cell × List Cell)} (h : s.Invariant index roots none)
    (hstack : s.stack = (c, cell :: references) :: stack) :
    { s with stack := (c, references) :: stack }.Invariant index roots (some cell) := by
  have hpath : s.path = ({ s with stack := (c, references) :: stack } : Search).path := by
    rw [path, hstack, path, List.map_cons, List.map_cons]
  have hexplored := hstack ▸ h.explored
  refine ⟨h.settled, h.finished, hpath ▸ h.onPath, hpath ▸ h.nodup, hpath ▸ h.formulas,
    hpath ▸ h.apart, ⟨fun d hlink => ?_, hexplored.2⟩, fun d hd hformula => ?_⟩
  · rcases hexplored.1 d hlink with hahead | hdone | hnone
    · rcases List.mem_cons.mp hahead with rfl | hahead
      · exact .inr (.inr rfl)
      · exact .inl hahead
    · exact .inr (.inl hdone)
    · simp at hnone
  · rcases h.roots d hd hformula with hahead | hdone | hmem | hnone
    · exact .inl hahead
    · exact .inr (.inl hdone)
    · exact .inr (.inr (.inl (hpath ▸ hmem)))
    · simp at hnone

theorem Invariant.step (h : s.Invariant index roots none) (hstep : step index s = .next t) :
    t.Invariant index roots none := by
  obtain ⟨ahead, stack, onPath, finished, order⟩ := s
  cases stack with
  | nil =>
      cases ahead with
      | nil => simp [Search.step] at hstep
      | cons root ahead => exact (h.takeRoot rfl rfl).visit hstep
  | cons frame stack =>
      obtain ⟨c, references⟩ := frame
      cases references with
      | nil =>
          obtain rfl := SearchStep.next.inj hstep
          exact h.leave rfl
      | cons reference references => exact (h.takeReference rfl).visit hstep

theorem order_eq_ok_of_stop {order : List Cell} (hstop : step index s = .stop (.ok order)) :
    s.stack = [] ∧ s.roots = [] ∧ order = s.order.reverse := by
  have hvisit : ∀ (r : Search) c, r.visit index c ≠ .stop (.ok order) := by
    intro r c h
    unfold Search.visit at h
    split at h
    · simp at h
    · split at h <;> simp at h
  obtain ⟨ahead, stack, onPath, finished, done⟩ := s
  cases stack with
  | nil =>
      cases ahead with
      | nil =>
          refine ⟨rfl, rfl, ?_⟩
          simpa [Search.step, eq_comm] using hstop
      | cons root ahead => exact absurd hstop (hvisit _ _)
  | cons frame stack =>
      obtain ⟨c, references⟩ := frame
      cases references with
      | nil => simp [Search.step] at hstop
      | cons reference references => exact absurd hstop (hvisit _ _)

theorem run_of_next (h : step index s = .next t) : run index s = run index t := by
  rw [run]
  split <;> simp_all

theorem run_of_stop {result : Except (List Cell) (List Cell)}
    (h : step index s = .stop result) : run index s = result := by
  rw [run]
  split <;> simp_all

/-- A search comes to a last state, which has whatever each step keeps. -/
theorem exists_last {p : Search → Prop} (h : p s)
    (hnext : ∀ s t, p s → step index s = .next t → p t) :
    ∃ last, p last ∧ step index last = .stop (run index s) := by
  induction s using Search.run.induct index with
  | case1 s t hstep ih =>
      rw [run_of_next hstep]
      exact ih (hnext s t h hstep)
  | case2 s result hstop => exact ⟨s, h, by rw [run_of_stop hstop, hstop]⟩

/-- A search that comes to an end has finished its roots. -/
theorem Invariant.run (h : s.Invariant index roots none) {order : List Cell}
    (hrun : run index s = .ok order) :
    index.Settled order.reverse ∧ ∀ c ∈ roots, index.contains c → c ∈ order := by
  obtain ⟨last, hlast, hstop⟩ := exists_last (p := (Invariant index roots none)) h
    fun _ _ hs hstep => hs.step hstep
  rw [hrun] at hstop
  obtain ⟨hstack, hroots, rfl⟩ := order_eq_ok_of_stop hstop
  refine ⟨by simpa using hlast.settled, fun c hc hformula => ?_⟩
  rcases hlast.roots c hc hformula with hahead | hdone | hmem | hnone
  · simp [hroots] at hahead
  · exact List.mem_reverse.mpr hdone
  · simp [path, hstack] at hmem
  · simp at hnone

end Search

variable {index : Dependencies} {roots : CellSet} {order : List Cell} {c : Cell}

theorem settled_of_orderOf (h : index.orderOf roots = .ok order) :
    index.Settled order.reverse :=
  ((Search.invariant_start index roots.toList).run (Except.mapError_eq_ok_iff.mp h)).1

theorem mem_order_of_orderOf (h : index.orderOf roots = .ok order) (hc : c ∈ roots)
    (hformula : index.contains c) : c ∈ order :=
  ((Search.invariant_start index roots.toList).run (Except.mapError_eq_ok_iff.mp h)).2 c
    (Std.ExtTreeSet.mem_toList.mpr hc) hformula

end Worksheet.Dependencies
