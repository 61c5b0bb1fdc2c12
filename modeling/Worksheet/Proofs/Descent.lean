import Mathlib
import Worksheet.Dependencies.Descent
import Worksheet.Proofs.FirstCycle
import Worksheet.Proofs.History

/-!
# The order as a recursion

At any time a search still owes what the recursion makes of the cells ahead, from the
innermost cell outwards. Its order is therefore that of the recursion, taken over the
given formula cells row by row. The search comes to an order exactly if none of these
cells leads to one that reads itself.
-/

namespace Worksheet.Dependencies

open Relation (TransGen ReflTransGen)

variable {index : Dependencies} {path order roots cells chain : List Cell} {c d cell : Cell}
  {given : Option (List Cell)}

theorem descend_of_mem (h : cell ∈ path) :
    index.descend path order cell = .error (cycleAt path cell) := by
  rw [descend, dif_pos h]

theorem descend_of_passed (hpath : cell ∉ path) (h : index.contains cell → cell ∈ order) :
    index.descend path order cell = .ok order := by
  rw [descend, dif_neg hpath]
  by_cases horder : cell ∈ order
  · rw [if_pos horder]
  · rw [if_neg horder, dif_neg fun hcell => horder (h hcell)]

theorem descend_of_new (hpath : cell ∉ path) (horder : cell ∉ order)
    (hcell : index.contains cell) :
    index.descend path order cell =
      index.descendEach (cell :: path) order (index.referencesOf cell) >>= fun order =>
        .ok (cell :: order) := by
  rw [descend, dif_neg hpath, if_neg horder, dif_pos hcell]
  rfl

@[simp] theorem descendEach_nil : index.descendEach path order [] = .ok order := by
  rw [descendEach]

theorem descendEach_cons : index.descendEach path order (cell :: cells) =
    index.descend path order cell >>= fun order => index.descendEach path order cells := by
  rw [descendEach]

/-- Cells without a formula may be left out. -/
theorem descendEach_filter :
    index.descendEach [] order (cells.filter index.contains) = index.descendEach [] order cells := by
  induction cells generalizing order with
  | nil => rfl
  | cons cell cells ih =>
      cases hcell : index.contains cell with
      | true =>
          rw [List.filter_cons_of_pos hcell, descendEach_cons, descendEach_cons]
          exact congrArg _ (funext fun _ => ih)
      | false =>
          rw [List.filter_cons_of_neg (by simp [hcell]), ih, descendEach_cons,
            descend_of_passed List.not_mem_nil (by simp [hcell]), Except.ok_bind]

namespace Search

variable {s t : Search}

/-- What is still owed with the given cells finished, inside the stack and then at the
roots. -/
def owed (index : Dependencies) (roots order : List Cell) :
    List (Cell × List Cell) → Except (List Cell) (List Cell)
  | [] => index.descendEach [] order roots
  | (cell, references) :: stack =>
      index.descendEach (cell :: stack.map Prod.fst) order references >>= fun order =>
        owed index roots (cell :: order) stack

/-- The step leaves as much owed as there was, or ends the search with it. -/
def Pays (index : Dependencies) (total : Except (List Cell) (List Cell)) : SearchStep → Prop
  | .next t => total = owed index t.roots t.order t.stack
  | .stop result => result = total.map List.reverse

theorem pays_visit (h : s.Invariant index roots (some cell)) :
    Pays index (index.descend s.path s.order cell >>= fun order => owed index s.roots order s.stack)
      (s.visit index cell) := by
  unfold visit
  split
  next hmet =>
      rw [descend_of_mem ((h.onPath cell).mp hmet)]
      rfl
  next hnew =>
      have hpath : cell ∉ s.path := fun hmem => hnew ((h.onPath cell).mpr hmem)
      split
      next hpass =>
          rw [descend_of_passed hpath fun hcell => (h.finished cell).mp ?_]
          · rfl
          · simpa [hcell] using hpass
      next henter =>
          rw [Bool.or_eq_true, not_or, Bool.not_eq_true', Bool.not_eq_false] at henter
          have horder : cell ∉ s.order := fun hmem => henter.1 ((h.finished cell).mpr hmem)
          rw [descend_of_new hpath horder henter.2, bind_assoc]
          rfl

theorem pays_step (h : s.Invariant index roots none) :
    Pays index (owed index s.roots s.order s.stack) (step index s) := by
  obtain ⟨ahead, stack, onPath, finished, order⟩ := s
  cases stack with
  | nil =>
      cases ahead with
      | nil => simp [Pays, owed, step, Except.map]
      | cons root ahead =>
          have hvisit := pays_visit (h.takeRoot rfl rfl)
          rwa [owed, descendEach_cons]
  | cons frame stack =>
      obtain ⟨reader, references⟩ := frame
      cases references with
      | nil => simp [Pays, owed, step, leave]
      | cons reference references =>
          have hvisit := pays_visit (h.takeReference rfl)
          rwa [owed, descendEach_cons, bind_assoc]

/-- A search comes to what the recursion comes to. -/
theorem run_eq_descendEach (index : Dependencies) (roots : List Cell) :
    run index (start roots) = (index.descendEach [] [] roots).map List.reverse := by
  obtain ⟨last, ⟨hlast, howed⟩, hstop⟩ := exists_last (s := start roots)
    (p := fun s => s.Invariant index roots none ∧
      owed index s.roots s.order s.stack = index.descendEach [] [] roots)
    ⟨invariant_start index roots, rfl⟩ fun s t hs hstep => by
      have hpays := pays_step hs.1
      rw [hstep] at hpays
      exact ⟨hs.1.step hstep, hpays.symm.trans hs.2⟩
  have hpays := pays_step hlast
  rwa [hstop, howed] at hpays

end Search

/-- The evaluation order of the formula cells among the given cells, or of all formula
cells if none are given. -/
def orderFrom (index : Dependencies) : Option (List Cell) → Except Fault (List Cell)
  | none => index.order
  | some cells => index.orderOf (.ofList cells)

/-- A formula cell that the order is asked for. -/
def Given (index : Dependencies) (given : Option (List Cell)) (c : Cell) : Prop :=
  index.contains c ∧ ∀ cells, given = some cells → c ∈ cells

/-- The given formula cells lead to a cell that reads itself, directly or not. -/
def Circular (index : Dependencies) (given : Option (List Cell)) : Prop :=
  ∃ c d, index.Given given c ∧ ReflTransGen index.Refers c d ∧ TransGen index.Refers d d

/-- The given formula cells and those that they lead to, each once and after the
formula cells that it reads. -/
structure IsOrderFrom (index : Dependencies) (given : Option (List Cell)) (order : List Cell) :
    Prop where
  nodup : order.Nodup
  cells : ∀ d, d ∈ order ↔
    index.contains d ∧ ∃ c, index.Given given c ∧ ReflTransGen index.Refers c d
  sorted : ∀ earlier c later, order = earlier ++ c :: later →
    ∀ d, index.Refers c d → index.contains d → d ∈ earlier

/-- The given formula cells row by row, each once. -/
structure IsRoots (index : Dependencies) (given : Option (List Cell)) (roots : List Cell) :
    Prop where
  sorted : roots.Pairwise fun a b => compare a b = .lt
  cells : ∀ c, c ∈ roots ↔ index.Given given c

/-- A circuit is reported by its cells, or by the first of them that has no label. -/
def Reports (chain : List Cell) (fault : Fault) : Prop :=
  ((∀ c ∈ chain, c.IsLabelled) → fault = .failure (.cycle chain) none) ∧
  ((∃ c ∈ chain, ¬ c.IsLabelled) →
    ∃ c cause, Except.FailsFirst Cell.label chain c cause ∧ fault = .label cause)

theorem reports_cycleFault (chain : List Cell) : Reports chain (cycleFault chain) := by
  have hlabels : (∃ labels, chain.mapM Cell.label = .ok labels) ↔ ∀ c ∈ chain, c.IsLabelled := by
    simp only [Except.exists_mapM_eq_ok_iff, Cell.isLabelled_iff_exists_label]
  unfold cycleFault
  split
  next labels hok =>
      have hall := hlabels.mp ⟨labels, hok⟩
      exact ⟨fun _ => rfl, fun ⟨c, hc, hnot⟩ => absurd (hall c hc) hnot⟩
  next cause herror =>
      refine ⟨fun hall => ?_, fun _ => ?_⟩
      · obtain ⟨labels, hok⟩ := hlabels.mpr hall
        simp [hok] at herror
      · obtain ⟨c, hfirst⟩ := Except.mapM_eq_error_iff.mp herror
        exact ⟨c, cause, hfirst, rfl⟩

theorem Settled.of_append {front : List Cell} (h : index.Settled (front ++ order)) :
    index.Settled order := by
  induction front with
  | nil => exact h
  | cons c front ih => exact ih h.2

namespace IsRoots

theorem unique {others : List Cell} (h : index.IsRoots given roots)
    (h' : index.IsRoots given others) : roots = others := by
  have hnodup : ∀ cells : List Cell, (cells.Pairwise fun a b => compare a b = .lt) →
      cells.Nodup := by
    intro cells hcells
    exact hcells.imp fun hlt heq => by simp [heq] at hlt
  have hperm : roots.Perm others :=
    (List.perm_ext_iff_of_nodup (hnodup _ h.sorted) (hnodup _ h'.sorted)).mpr fun c =>
      (h.cells c).trans (h'.cells c).symm
  refine hperm.eq_of_pairwise (fun a b _ _ hab hba => ?_) h.sorted h'.sorted
  exact absurd hba (Cell.compare_asymm a b hab)

theorem cells_none (index : Dependencies) : index.IsRoots none index.cells where
  sorted := Std.ExtTreeMap.ordered_keys
  cells c := by simp [Given, mem_cells_iff]

theorem toList_filter (index : Dependencies) (given : List Cell) :
    index.IsRoots (some given)
      ((Std.ExtTreeSet.ofList given : CellSet).toList.filter index.contains) where
  sorted := Std.ExtTreeSet.ordered_toList.filter _
  cells c := by
    rw [List.mem_filter, Std.ExtTreeSet.mem_toList, Std.ExtTreeSet.mem_iff_contains,
      CellSet.contains_ofList_iff]
    simp [Given, and_comm]

theorem exists_isRoots (index : Dependencies) (given : Option (List Cell)) :
    ∃ roots, index.IsRoots given roots := by
  cases given with
  | none => exact ⟨_, cells_none index⟩
  | some cells => exact ⟨_, toList_filter index cells⟩

/-- The order is that of the recursion over the given formula cells. -/
theorem orderFrom_eq (h : index.IsRoots given roots) :
    index.orderFrom given =
      ((index.descendEach [] [] roots).map List.reverse).mapError cycleFault := by
  cases given with
  | none =>
      rw [h.unique (cells_none index), orderFrom, order, Search.run_eq_descendEach]
  | some cells =>
      rw [h.unique (toList_filter index cells), descendEach_filter, orderFrom, orderOf,
        Search.run_eq_descendEach]

theorem orderFrom_eq_run (h : index.IsRoots given roots) :
    index.orderFrom given = (Search.run index (.start roots)).mapError cycleFault := by
  rw [h.orderFrom_eq, Search.run_eq_descendEach]

theorem isOrderFrom_of_run (h : index.IsRoots given roots) (hindex : index.Coherent)
    (hrun : Search.run index (.start roots) = .ok order) : index.IsOrderFrom given order := by
  obtain ⟨hsettled, hroots⟩ := (Search.invariant_start index roots).run hrun
  refine ⟨List.nodup_reverse.mp hsettled.nodup, fun d => ⟨fun hd => ?_, ?_⟩, ?_⟩
  · obtain ⟨c, hc, hwalk⟩ := Search.reflTransGen_of_run hrun hd
    exact ⟨hsettled.contains (List.mem_reverse.mpr hd), c, (h.cells c).mp hc, hwalk⟩
  · rintro ⟨hd, c, hc, hwalk⟩
    have hmem : c ∈ order := hroots c ((h.cells c).mpr hc) hc.1
    induction hwalk with
    | refl => exact hmem
    | tail _ hread ih =>
        have hreader := ih (hindex.contains_of_refers hread)
        exact List.mem_reverse.mp (hsettled.mem_of_links (List.mem_reverse.mpr hreader) ⟨hread, hd⟩)
  · rintro earlier c later rfl d hread hd
    rw [List.reverse_append, List.reverse_cons, List.append_assoc] at hsettled
    exact List.mem_reverse.mp (hsettled.of_append.1.2.2 d ⟨hread, hd⟩)

theorem circular_of_run (h : index.IsRoots given roots)
    (hrun : Search.run index (.start roots) = .error chain) : index.Circular given := by
  obtain ⟨hcircuit, hreach⟩ := Search.isCircuit_of_run hrun
  obtain ⟨d, hd⟩ := hcircuit.exists_mem
  obtain ⟨c, hc, hwalk⟩ := hreach d hd
  exact ⟨c, d, (h.cells c).mp hc, hwalk, hcircuit.transGen hd⟩

/-- On the way round a circuit every cell would have to come after itself. -/
theorem not_circular_of_run (h : index.IsRoots given roots) (hindex : index.Coherent)
    (hrun : Search.run index (.start roots) = .ok order) : ¬ index.Circular given := by
  rintro ⟨c, d, hc, hwalk, hloop⟩
  have hsettled := ((Search.invariant_start index roots).run hrun).1
  obtain ⟨e, hread, -⟩ := TransGen.head'_iff.mp hloop
  have hformula := hindex.contains_of_refers hread
  have hd : d ∈ order := ((h.isOrderFrom_of_run hindex hrun).cells d).mpr ⟨hformula, c, hc, hwalk⟩
  exact hsettled.not_transGen (List.mem_reverse.mpr hd) (hindex.transGen_links hformula hloop)

end IsRoots

theorem exists_order_of_not_circular (hindex : index.Coherent) (h : ¬ index.Circular given) :
    ∃ order, index.orderFrom given = .ok order ∧ index.IsOrderFrom given order := by
  obtain ⟨roots, hroots⟩ := IsRoots.exists_isRoots index given
  cases hrun : Search.run index (.start roots) with
  | ok order =>
      refine ⟨order, ?_, hroots.isOrderFrom_of_run hindex hrun⟩
      rw [hroots.orderFrom_eq_run, hrun, Except.mapError_ok]
  | error chain => exact absurd (hroots.circular_of_run hrun) h

theorem exists_circuit_of_circular (hindex : index.Coherent) (h : index.Circular given) :
    ∃ chain fault, index.orderFrom given = .error fault ∧ IsCircuit index.Refers chain ∧
      (∀ d ∈ chain, ∃ c, index.Given given c ∧ ReflTransGen index.Refers c d) ∧
      Reports chain fault := by
  obtain ⟨roots, hroots⟩ := IsRoots.exists_isRoots index given
  cases hrun : Search.run index (.start roots) with
  | ok order => exact absurd h (hroots.not_circular_of_run hindex hrun)
  | error chain =>
      obtain ⟨hcircuit, hreach⟩ := Search.isCircuit_of_run hrun
      refine ⟨chain, cycleFault chain, ?_, hcircuit, fun d hd => ?_, reports_cycleFault chain⟩
      · rw [hroots.orderFrom_eq_run, hrun, Except.mapError_error]
      · obtain ⟨c, hc, hwalk⟩ := hreach d hd
        exact ⟨c, (hroots.cells c).mp hc, hwalk⟩

/-- What is given counts, and neither in which order nor how often. -/
theorem orderFrom_congr {given' : Option (List Cell)}
    (h : ∀ c, index.Given given' c ↔ index.Given given c) :
    index.orderFrom given' = index.orderFrom given := by
  obtain ⟨roots, hroots⟩ := IsRoots.exists_isRoots index given
  have hroots' : index.IsRoots given' roots :=
    ⟨hroots.sorted, fun c => (hroots.cells c).trans (h c).symm⟩
  rw [hroots'.orderFrom_eq, hroots.orderFrom_eq]

/-- There is an order exactly if the given formula cells do not lead to a circuit. Otherwise
one that they lead to is reported. Either outcome is that of the recursion, and depends on
nothing but the formulas that stand and the given formula cells. -/
theorem orderFrom_outcome (edits : List Edit) (given : Option (List Cell)) :
    (¬ (build edits).Circular given →
      ∃ order, (build edits).orderFrom given = .ok order ∧ (build edits).IsOrderFrom given order) ∧
    ((build edits).Circular given →
      ∃ chain fault, (build edits).orderFrom given = .error fault ∧
        IsCircuit (build edits).Refers chain ∧
        (∀ d ∈ chain, ∃ c, (build edits).Given given c ∧
          ReflTransGen (build edits).Refers c d) ∧
        Reports chain fault) ∧
    (∀ roots, (build edits).IsRoots given roots → (build edits).orderFrom given =
      (((build edits).descendEach [] [] roots).map List.reverse).mapError cycleFault) ∧
    ∀ others given', (∀ c v, Stands others c v ↔ Stands edits c v) →
      (∀ c, (build edits).Given given' c ↔ (build edits).Given given c) →
        (build others).orderFrom given' = (build edits).orderFrom given := by
  have hindex := (canonical_build edits).coherent
  refine ⟨exists_order_of_not_circular hindex, exists_circuit_of_circular hindex,
    fun roots h => h.orderFrom_eq, fun others given' hstands hgiven => ?_⟩
  rw [build_eq_of_stands hstands, orderFrom_congr hgiven]

/-- Two formulas that read one another and lie above the grid. -/
def Edit.pairAbove : List Edit :=
  [.insert ⟨-1, 0⟩ (.reference ⟨-1, 1⟩), .insert ⟨-1, 1⟩ (.reference ⟨-1, 0⟩)]

/-- The pair is reported by its first cell, which has no label. Once one of the formulas is
discarded the other is in order, however often it is asked for. -/
theorem orderFrom_outcome_pairAbove :
    (∃ chain fault, (build Edit.pairAbove).orderFrom none = .error fault ∧
      IsCircuit (build Edit.pairAbove).Refers chain ∧
      (∀ d ∈ chain, ∃ c, (build Edit.pairAbove).Given none c ∧
        ReflTransGen (build Edit.pairAbove).Refers c d) ∧
      Reports chain fault) ∧
    (build Edit.pairAbove).orderFrom none = .error (.label (.negativeRow (-1))) ∧
    ∃ order, (build (Edit.pairAbove ++ [.erase ⟨-1, 0⟩])).orderFrom
        (some [⟨-1, 1⟩, ⟨-1, 0⟩, ⟨-1, 1⟩]) = .ok order ∧
      (build (Edit.pairAbove ++ [.erase ⟨-1, 0⟩])).IsOrderFrom
        (some [⟨-1, 1⟩, ⟨-1, 0⟩, ⟨-1, 1⟩]) order := by
  have hfault : (build Edit.pairAbove).orderFrom none = .error (.label (.negativeRow (-1))) := by
    cbv
  have horder : (build (Edit.pairAbove ++ [.erase ⟨-1, 0⟩])).orderFrom
      (some [⟨-1, 1⟩, ⟨-1, 0⟩, ⟨-1, 1⟩]) = .ok [⟨-1, 1⟩] := by
    cbv
  refine ⟨(orderFrom_outcome _ none).2.1 ?_, hfault, (orderFrom_outcome _ _).1 fun hcircular => ?_⟩
  · by_contra hacyclic
    obtain ⟨order, hok, -⟩ := (orderFrom_outcome _ none).1 hacyclic
    simp [hfault] at hok
  · obtain ⟨chain, fault, herror, -⟩ := (orderFrom_outcome _ _).2.1 hcircular
    simp [horder] at herror

end Worksheet.Dependencies
