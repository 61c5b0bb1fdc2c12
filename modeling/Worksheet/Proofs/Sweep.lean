import Mathlib
import Worksheet.Proofs.Descent

/-!
# Sweeps

The readers of changed cells, their readers, and so on, may be gathered in many ways:
any cell of the frontier may be taken next, and its readers may be listed in any order.
Each way comes to an end, also where there are circuits, and all gather the same cells.
What lies downstream of a change is their evaluation order without the cells that were
not gathered.
-/

namespace Worksheet.Dependencies

open Relation (TransGen ReflTransGen)

variable {index : Dependencies} {changed order given : List Cell} {all : CellSet} {c d : Cell}

structure Sweep where
  seen : CellSet
  frontier : List Cell

namespace Sweep

variable {s t last : Sweep}

/-- A cell is taken from anywhere in the frontier, and those of its readers that have not
been seen come in for it, listed in any order. -/
inductive Next (index : Dependencies) : Sweep → Sweep → Prop
  | take (seen : CellSet) (front back : List Cell) (cell : Cell) (readers : List Cell)
      (hreaders : readers.Perm
        ((index.readersOf cell).filter fun reader => !seen.contains reader)) :
      Next index ⟨seen.insertMany readers, front ++ back ++ readers⟩ ⟨seen, front ++ cell :: back⟩

/-- The readers that have not been seen, and the length of the frontier. -/
def potential (index : Dependencies) (s : Sweep) : Nat ×ₗ Nat :=
  toLex (index.allReaders.countP fun reader => !s.seen.contains reader, s.frontier.length)

theorem Next.decreases (h : Next index t s) : t.potential index < s.potential index := by
  obtain ⟨seen, front, back, cell, readers, hreaders⟩ := h
  rw [potential, potential, Prod.Lex.toLex_lt_toLex]
  cases readers with
  | nil => exact .inr ⟨by simp, by simp⟩
  | cons reader readers =>
      have hmem := List.mem_filter.mp (hreaders.subset List.mem_cons_self)
      refine .inl (countP_lt_countP (x := reader) ?_ ?_ hmem.2 ?_)
      · intro c _ hc
        simp at hc ⊢
        exact hc.1
      · exact mem_allReaders_of_mem_readersOf hmem.1
      · simp

theorem next_wellFounded (index : Dependencies) : WellFounded (Next index) :=
  (InvImage.wf (potential index) wellFounded_lt).mono fun _ _ h => h.decreases

/-- What is gathered from the next state on is what is gathered from this one on. -/
theorem Next.gathers (h : Next index t s) (hall : index.Gathers t.seen t.frontier all) :
    index.Gathers s.seen s.frontier all := by
  obtain ⟨seen, front, back, cell, readers, hreaders⟩ := h
  have hmem : ∀ c, c ∈ readers ↔ index.Follows c cell ∧ c ∉ seen := by
    intro c
    rw [hreaders.mem_iff, List.mem_filter, Bool.not_eq_true', ← Bool.not_eq_true,
      Std.ExtTreeSet.contains_iff_mem, Follows]
  have hrest : index.Gathers (seen.insertMany readers) (readers ++ (front ++ back)) all :=
    hall.of_frontier fun c => List.perm_append_comm.mem_iff
  have hmore : ∀ c, c ∈ seen.insertMany readers ↔ c ∈ seen ∨ index.Follows c cell := by
    intro c
    rw [CellSet.mem_insertMany_iff, hmem]
    tauto
  exact (hrest.extend hmore hmem).of_frontier fun c => List.perm_middle.mem_iff

theorem gathers_of_run (h : ReflTransGen (flip (Next index)) s last)
    (hlast : ∀ t, ¬ Next index t last) : index.Gathers s.seen s.frontier last.seen := by
  induction h using ReflTransGen.head_induction_on with
  | refl =>
      obtain ⟨seen, frontier⟩ := last
      cases frontier with
      | nil => exact gathers_nil
      | cons cell frontier => exact absurd (.take seen [] frontier cell _ (.refl _)) (hlast _)
  | head hnext _ ih => exact Next.gathers hnext ih

theorem seen_eq_readersFrom (h : ReflTransGen (flip (Next index)) ⟨∅, changed⟩ last)
    (hlast : ∀ t, ¬ Next index t last) : last.seen = index.readersFrom ∅ changed := by
  apply Std.ExtTreeSet.ext_mem
  intro c
  rw [mem_readersFrom_iff]
  exact (gathers_of_run h hlast).mem_iff

end Sweep

/-- The cell reads one of the changed cells, directly or not. -/
def Affected (index : Dependencies) (changed : List Cell) (c : Cell) : Prop :=
  ∃ d ∈ changed, TransGen index.Refers c d

/-- A cell that reads a changed cell leads to a cell that reads itself. -/
def Entangled (index : Dependencies) (changed : List Cell) : Prop :=
  ∃ c d, index.Affected changed c ∧ ReflTransGen index.Refers c d ∧ TransGen index.Refers d d

/-- The affected cells, each once and after the others that it reads, directly or not. -/
structure IsDownstream (index : Dependencies) (changed order : List Cell) : Prop where
  nodup : order.Nodup
  cells : ∀ c, c ∈ order ↔ index.Affected changed c
  sorted : ∀ earlier c later, order = earlier ++ c :: later →
    ∀ d ∈ order, TransGen index.Refers c d → d ∈ earlier
  changed : ∀ c ∈ changed, c ∈ order → ∃ d ∈ changed, d ≠ c ∧ TransGen index.Refers c d

theorem Affected.contains (hindex : index.Coherent) (h : index.Affected changed c) :
    index.contains c := by
  obtain ⟨d, -, hreads⟩ := h
  obtain ⟨e, hread, -⟩ := TransGen.head'_iff.mp hreads
  exact hindex.contains_of_refers hread

theorem mem_readersFrom_iff_affected (hindex : index.Coherent) :
    c ∈ index.readersFrom ∅ changed ↔ index.Affected changed c := by
  rw [mem_readersFrom_iff, hindex.follows_eq, Affected]

theorem given_iff_affected (hindex : index.Coherent)
    (hgiven : ∀ c, c ∈ given ↔ index.Affected changed c) :
    index.Given (some given) c ↔ index.Affected changed c := by
  simp only [Given, Option.some.injEq, forall_eq', hgiven]
  exact and_iff_right_of_imp fun h => h.contains hindex

theorem circular_iff_entangled (hindex : index.Coherent)
    (hgiven : ∀ c, c ∈ given ↔ index.Affected changed c) :
    index.Circular (some given) ↔ index.Entangled changed := by
  simp only [Circular, Entangled, given_iff_affected hindex hgiven]

theorem orderOf_readersFrom (hindex : index.Coherent)
    (hgiven : ∀ c, c ∈ given ↔ index.Affected changed c) :
    index.orderOf (index.readersFrom ∅ changed) = index.orderFrom (some given) := by
  have hreaders : index.readersFrom ∅ changed = .ofList given := by
    apply Std.ExtTreeSet.ext_mem
    intro c
    rw [mem_readersFrom_iff_affected hindex, ← hgiven, Std.ExtTreeSet.mem_iff_contains,
      CellSet.contains_ofList_iff]
  rw [hreaders, orderFrom]

theorem exists_affected (hindex : index.Coherent) (changed : List Cell) :
    ∃ given : List Cell, ∀ c, c ∈ given ↔ index.Affected changed c :=
  ⟨(index.readersFrom ∅ changed).toList, fun c => by
    rw [Std.ExtTreeSet.mem_toList, mem_readersFrom_iff_affected hindex]⟩

theorem IsOrderFrom.mem_of_transGen {earlier later : List Cell} (hindex : index.Coherent)
    (h : index.IsOrderFrom (some given) (earlier ++ c :: later))
    (hreads : TransGen index.Refers c d) (hd : index.contains d) : d ∈ earlier := by
  induction hreads with
  | single hread => exact h.sorted earlier c later rfl _ hread hd
  | tail _ hread ih =>
      obtain ⟨front, back, rfl⟩ := List.append_of_mem (ih (hindex.contains_of_refers hread))
      exact List.mem_append_left _ (h.sorted front _ (back ++ c :: later) (by simp) _ hread hd)

/-- Leaving out what is not affected keeps the others in order. -/
theorem IsOrderFrom.isDownstream (hindex : index.Coherent)
    (hgiven : ∀ c, c ∈ given ↔ index.Affected changed c)
    (h : index.IsOrderFrom (some given) order) (hacyclic : ¬ index.Entangled changed) :
    index.IsDownstream changed (order.filter (index.readersFrom ∅ changed).contains) := by
  have hfilter : ∀ c, (index.readersFrom ∅ changed).contains c ↔ index.Affected changed c := by
    intro c
    rw [← Std.ExtTreeSet.mem_iff_contains, mem_readersFrom_iff_affected hindex]
  have hcells : ∀ c, c ∈ order.filter (index.readersFrom ∅ changed).contains ↔
      index.Affected changed c := by
    intro c
    rw [List.mem_filter, hfilter, h.cells]
    refine and_iff_right_of_imp fun hc => ⟨hc.contains hindex, c, ?_, .refl⟩
    exact (given_iff_affected hindex hgiven).mpr hc
  refine ⟨h.nodup.filter _, hcells, ?_, fun c hc hmem => ?_⟩
  · intro earlier c later heq d hd hreads
    obtain ⟨front, back, rfl, rfl, hback⟩ := List.filter_eq_append_iff.mp heq
    obtain ⟨skipped, rest, rfl, hskipped, -, -⟩ := List.filter_eq_cons_iff.mp hback
    have hformula : index.contains d := ((hcells d).mp hd).contains hindex
    have hd' := (hfilter d).mpr ((hcells d).mp hd)
    rw [← List.append_assoc] at h
    rcases List.mem_append.mp (h.mem_of_transGen hindex hreads hformula) with hfront | hskip
    · exact List.mem_filter.mpr ⟨hfront, hd'⟩
    · exact absurd hd' (hskipped d hskip)
  · obtain ⟨d, hd, hreads⟩ := (hcells c).mp hmem
    refine ⟨d, hd, ?_, hreads⟩
    rintro rfl
    exact hacyclic ⟨d, d, ⟨d, hc, hreads⟩, .refl, hreads⟩

theorem exists_downstream_of_not_entangled (hindex : index.Coherent)
    (h : ¬ index.Entangled changed) :
    ∃ order, index.downstream changed = .ok order ∧ index.IsDownstream changed order := by
  obtain ⟨given, hgiven⟩ := exists_affected hindex changed
  have hacyclic : ¬ index.Circular (some given) := fun hcircular =>
    h ((circular_iff_entangled hindex hgiven).mp hcircular)
  obtain ⟨order, horder, hisOrder⟩ := exists_order_of_not_circular hindex hacyclic
  refine ⟨_, ?_, hisOrder.isDownstream hindex hgiven h⟩
  rw [downstream, orderOf_readersFrom hindex hgiven, horder]
  rfl

/-- Asking for the order of the affected cells reports the same circuit. -/
theorem exists_circuit_of_entangled (hindex : index.Coherent) (h : index.Entangled changed) :
    ∃ chain fault, index.downstream changed = .error fault ∧
      (∀ given, (∀ c, c ∈ given ↔ index.Affected changed c) →
        index.orderFrom (some given) = .error fault) ∧
      IsCircuit index.Refers chain ∧
      (∀ d ∈ chain, ∃ c, index.Affected changed c ∧ ReflTransGen index.Refers c d) ∧
      Reports chain fault := by
  obtain ⟨given, hgiven⟩ := exists_affected hindex changed
  obtain ⟨chain, fault, hfault, hcircuit, hreach, hreports⟩ :=
    exists_circuit_of_circular hindex ((circular_iff_entangled hindex hgiven).mpr h)
  refine ⟨chain, fault, ?_, fun others hothers => ?_, hcircuit, fun d hd => ?_, hreports⟩
  · rw [downstream, orderOf_readersFrom hindex hgiven, hfault]
    rfl
  · rw [← orderOf_readersFrom hindex hothers, orderOf_readersFrom hindex hgiven, hfault]
  · obtain ⟨c, hc, hwalk⟩ := hreach d hd
    exact ⟨c, (given_iff_affected hindex hgiven).mp hc, hwalk⟩

theorem downstream_congr {changed' : List Cell} (h : ∀ c, c ∈ changed' ↔ c ∈ changed) :
    index.downstream changed' = index.downstream changed := by
  have hreaders : index.readersFrom ∅ changed' = index.readersFrom ∅ changed := by
    apply Std.ExtTreeSet.ext_mem
    intro c
    simp only [mem_readersFrom_iff, h]
  rw [downstream, hreaders, downstream]

/-- Where no affected cell leads to a circuit the affected cells come in order, and otherwise
a circuit is reported as their evaluation order reports it. Either outcome depends on
nothing but the formulas that stand and the changed cells. Every sweep comes to an end,
and the outcome is the same with the cells that it has gathered. -/
theorem downstream_outcome (edits : List Edit) (changed : List Cell) :
    (¬ (build edits).Entangled changed →
      ∃ order, (build edits).downstream changed = .ok order ∧
        (build edits).IsDownstream changed order) ∧
    ((build edits).Entangled changed →
      ∃ chain fault, (build edits).downstream changed = .error fault ∧
        (∀ given, (∀ c, c ∈ given ↔ (build edits).Affected changed c) →
          (build edits).orderFrom (some given) = .error fault) ∧
        IsCircuit (build edits).Refers chain ∧
        (∀ d ∈ chain, ∃ c, (build edits).Affected changed c ∧
          ReflTransGen (build edits).Refers c d) ∧
        Reports chain fault) ∧
    (∀ others changed', (∀ c v, Stands others c v ↔ Stands edits c v) →
      (∀ c, c ∈ changed' ↔ c ∈ changed) →
        (build others).downstream changed' = (build edits).downstream changed) ∧
    WellFounded (Sweep.Next (build edits)) ∧
    ∀ last, ReflTransGen (flip (Sweep.Next (build edits))) ⟨∅, changed⟩ last →
      (∀ t, ¬ Sweep.Next (build edits) t last) →
        (build edits).downstream changed =
          ((build edits).orderOf last.seen).map fun order => order.filter last.seen.contains := by
  have hindex := (canonical_build edits).coherent
  refine ⟨exists_downstream_of_not_entangled hindex, exists_circuit_of_entangled hindex,
    fun others changed' hstands hchanged => ?_, Sweep.next_wellFounded _,
    fun last hrun hlast => ?_⟩
  · rw [build_eq_of_stands hstands, downstream_congr hchanged]
  · rw [downstream, Sweep.seen_eq_readersFrom hrun hlast]

/-- A formula that reads its own cell, and one that reads it from beside. -/
def Edit.loopBeside : List Edit :=
  [.insert ⟨0, 0⟩ (.reference ⟨0, 0⟩), .insert ⟨0, 1⟩ (.reference ⟨0, 0⟩)]

/-- The loop is reported while it stands. Once it is discarded, the cell beside is downstream
even of itself, if both have changed. -/
theorem downstream_outcome_loopBeside :
    (∃ chain fault, (build Edit.loopBeside).downstream [⟨0, 0⟩] = .error fault ∧
      (∀ given, (∀ c, c ∈ given ↔ (build Edit.loopBeside).Affected [⟨0, 0⟩] c) →
        (build Edit.loopBeside).orderFrom (some given) = .error fault) ∧
      IsCircuit (build Edit.loopBeside).Refers chain ∧
      (∀ d ∈ chain, ∃ c, (build Edit.loopBeside).Affected [⟨0, 0⟩] c ∧
        ReflTransGen (build Edit.loopBeside).Refers c d) ∧
      Reports chain fault) ∧
    ∃ order, (build (Edit.loopBeside ++ [.erase ⟨0, 0⟩])).downstream [⟨0, 1⟩, ⟨0, 0⟩, ⟨0, 1⟩] =
        .ok order ∧
      order = [⟨0, 1⟩] ∧
      (build (Edit.loopBeside ++ [.erase ⟨0, 0⟩])).IsDownstream [⟨0, 1⟩, ⟨0, 0⟩, ⟨0, 1⟩] order := by
  have hfault : (build Edit.loopBeside).downstream [⟨0, 0⟩] =
      .error (.failure (.cycle [⟨0, 0⟩, ⟨0, 0⟩]) none) := by
    cbv
  have horder : (build (Edit.loopBeside ++ [.erase ⟨0, 0⟩])).downstream
      [⟨0, 1⟩, ⟨0, 0⟩, ⟨0, 1⟩] = .ok [⟨0, 1⟩] := by
    cbv
  constructor
  · refine (downstream_outcome _ [⟨0, 0⟩]).2.1 ?_
    by_contra hacyclic
    obtain ⟨order, hok, -⟩ := (downstream_outcome _ [⟨0, 0⟩]).1 hacyclic
    simp [hfault] at hok
  · have houtcome := downstream_outcome (Edit.loopBeside ++ [.erase ⟨0, 0⟩])
      [⟨0, 1⟩, ⟨0, 0⟩, ⟨0, 1⟩]
    obtain ⟨order, hok, hisDownstream⟩ := houtcome.1 fun hentangled => by
      obtain ⟨chain, fault, herror, -⟩ := houtcome.2.1 hentangled
      simp [horder] at herror
    exact ⟨order, hok, (Except.ok.inj (horder.symm.trans hok)).symm, hisDownstream⟩

end Worksheet.Dependencies
