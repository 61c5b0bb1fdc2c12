import Mathlib
import Worksheet.Proofs.FirstCycle
import Worksheet.Proofs.Region
import Worksheet.Proofs.Stages
import Worksheet.Proofs.Writing

/-!
# Calculating a whole sheet

A sheet has an evaluation order exactly if no cell of it reads itself, directly or
not. Its formula cells are then resolved in this order. Whatever a cell reads that is
not simple has come before it, so that the first cell to fail is where the fault lies.
-/

namespace Worksheet

open Relation (TransGen)

namespace Grid

variable {grid : Grid} {order chain : List Cell} {c d : Cell}

/-- The formula cells of a grid, each once, and none before a cell that it reads,
directly or not. -/
structure IsOrder (grid : Grid) (order : List Cell) : Prop where
  nodup : order.Nodup
  formulas : ∀ c, c ∈ order ↔ ∃ v, grid.get? c = some v ∧ v.isSimple = false
  sorted : order.Pairwise fun earlier later => ¬ TransGen grid.Reads earlier later

/-- The cells of any grid that can be made have labels. -/
theorem isLabelled_of_inBounds (hfits : FitsWord grid.rows) (h : grid.InBounds c) :
    c.IsLabelled := by
  obtain ⟨hrow, hrow', hcolumn, -⟩ := h
  refine ⟨hrow, hcolumn, Numeral.isWritable_of_fitsWord ?_⟩
  unfold FitsWord at hfits ⊢
  omega

theorem IsCycle.cycleFault_eq (h : grid.IsCycle chain) (hfits : FitsWord grid.rows) :
    Dependencies.cycleFault chain = .unlocated (.cycle chain) := by
  have hlabels : ∃ labels, chain.mapM Cell.label = .ok labels :=
    Except.exists_mapM_eq_ok_iff.mpr fun c hc => Cell.isLabelled_iff_exists_label.mp
      (isLabelled_of_inBounds hfits (inBounds_of_transGen (h.transGen hc)))
  obtain ⟨labels, hlabels⟩ := hlabels
  rw [Dependencies.cycleFault, hlabels]

/-- A cell whose fault comes first in the order reads only cells that resolve. -/
theorem IsOrder.resolves_of_failsFirst {failure : Failure} (h : grid.IsOrder order)
    (hacyclic : ¬ TransGen grid.Reads c c)
    (hfirst : Except.FailsFirst (fun d => (Value.reference d).resolve grid) order c failure)
    (hread : grid.Reads c d) (hd : grid.InBounds d) : grid.Resolves d := by
  obtain ⟨v, hv⟩ := Option.isSome_iff_exists.mp (Block.get?_isSome_iff.mpr hd)
  cases hsimple : v.isSimple with
  | true =>
      obtain ⟨value, rfl⟩ : ∃ value, v = .simple value := by
        cases v <;> simp_all [Value.isSimple]
      refine ⟨value, ?_⟩
      rw [Value.resolve_eq_evaluate, Value.evaluate_enter hv List.not_mem_nil,
        Value.evaluate_simple]
  | false =>
      have hmem : d ∈ order := (h.formulas d).mpr ⟨v, hv, hsimple⟩
      have hsorted := h.sorted
      obtain ⟨earlier, later, rfl, hearlier, -⟩ := hfirst
      rcases List.mem_append.mp hmem with hmem | hmem
      · exact hearlier d hmem
      · -- Otherwise the cell would come before what it reads, or read itself.
        exfalso
        rcases List.mem_cons.mp hmem with rfl | hmem
        · exact hacyclic (.single hread)
        · have hpairwise := (List.pairwise_append.mp hsorted).2.1
          exact (List.pairwise_cons.mp hpairwise).1 d hmem (.single hread)

end Grid

namespace Dependencies

variable {grid : Grid} {order : List Cell} {fault : Fault}

theorem isOrder_of_order (h : (ofGrid grid).order = .ok order) : grid.IsOrder order := by
  obtain ⟨hsettled, hroots⟩ :=
    (Search.invariant_start _ _).run (Except.mapError_eq_ok_iff.mp h)
  have hmem : ∀ c, c ∈ order ↔ (ofGrid grid).contains c := fun c =>
    ⟨fun hc => hsettled.contains (List.mem_reverse.mpr hc),
      fun hc => hroots c (mem_cells_iff.mpr hc) hc⟩
  refine ⟨List.nodup_reverse.mp hsettled.nodup, fun c => (hmem c).trans contains_ofGrid, ?_⟩
  refine (List.pairwise_reverse.mp hsettled.pairwise).imp_of_mem ?_
  intro earlier later _ hlater hlinks hreads
  exact hlinks (transGen_links_ofGrid ((hmem later).mp hlater) hreads)

theorem isCycle_of_order (h : (ofGrid grid).order = .error fault) :
    ∃ chain, grid.IsCycle chain ∧ cycleFault chain = fault := by
  obtain ⟨chain, hrun, hfault⟩ := Except.mapError_eq_error_iff.mp h
  have hcircuit := (Search.isCircuit_of_run hrun).1
  rw [refers_ofGrid] at hcircuit
  exact ⟨chain, Grid.isCycle_iff_isCircuit.mpr hcircuit, hfault⟩

/-- There is an order exactly if no cell reads itself, directly or not. -/
theorem exists_order_iff :
    (∃ order, (ofGrid grid).order = .ok order) ↔ ∀ c, ¬ TransGen grid.Reads c c := by
  constructor
  · rintro ⟨order, horder⟩ c hself
    exact not_loops_of_order horder c ⟨c, .refl, hself⟩
  · intro hacyclic
    cases horder : (ofGrid grid).order with
    | ok order => exact ⟨order, rfl⟩
    | error fault =>
        obtain ⟨chain, hcycle, -⟩ := isCycle_of_order horder
        obtain ⟨c, rest, rfl, -⟩ := hcycle.closed
        exact absurd (hcycle.transGen List.mem_cons_self) (hacyclic c)

end Dependencies

namespace Calculator

open Resolution

variable {grid : Grid} {order : List Cell}

theorem calculate_load (grid : Grid) :
    (load grid).calculate =
      (Dependencies.ofGrid grid).order >>= fun order => resolveCells grid order ∅ := rfl

/-- A sheet with a cycle is not calculated, and the cycle is reported before any cell is
resolved. Otherwise the formula cells are resolved in evaluation order, each as on
its own; where some do not resolve the fault is that of the first of them, which
reads only cells that do. -/
theorem calculate_outcome (grid : Grid) (hfits : FitsWord grid.rows) :
    ((∃ c, TransGen grid.Reads c c) →
      ∃ chain, grid.IsCycle chain ∧
        (Dependencies.ofGrid grid).order = .error (.failure (.cycle chain) none) ∧
        (load grid).calculate = .error (.failure (.cycle chain) none)) ∧
    ((∀ c, ¬ TransGen grid.Reads c c) →
      ∃ order, (Dependencies.ofGrid grid).order = .ok order ∧ grid.IsOrder order ∧
        ((∀ c ∈ order, grid.Resolves c) →
          ∃ entries, (load grid).calculate = .ok entries ∧ entries.map Prod.fst = order ∧
            ∀ c value, (c, value) ∈ entries → (Value.reference c).resolve grid = .ok value) ∧
        ((∃ c ∈ order, ¬ grid.Resolves c) →
          ∃ c failure, (load grid).calculate = .error (.locatedAt c failure) ∧
            Except.FailsFirst (fun d => (Value.reference d).resolve grid) order c failure ∧
            ∀ d, grid.Reads c d → grid.InBounds d → grid.Resolves d)) := by
  constructor
  · rintro ⟨c, hself⟩
    cases horder : (Dependencies.ofGrid grid).order with
    | ok order => exact absurd hself (Dependencies.exists_order_iff.mp ⟨order, horder⟩ c)
    | error fault =>
        obtain ⟨chain, hcycle, rfl⟩ := Dependencies.isCycle_of_order horder
        rw [hcycle.cycleFault_eq hfits] at horder ⊢
        refine ⟨chain, hcycle, rfl, ?_⟩
        rw [calculate_load, horder, Except.error_bind]
        rfl
  · intro hacyclic
    obtain ⟨order, horder⟩ := Dependencies.exists_order_iff.mpr hacyclic
    have hisOrder := Dependencies.isOrder_of_order horder
    refine ⟨order, horder, hisOrder, fun hresolves => ?_, fun hfails => ?_⟩
    · obtain ⟨entries, hentries⟩ := exists_resolveCells_eq_ok_iff.mpr hresolves
      refine ⟨entries, ?_, map_fst_of_resolveCells hentries, fun c value hmem => ?_⟩
      · rw [calculate_load, horder, Except.ok_bind, hentries]
      · obtain ⟨k, hk⟩ := List.mem_iff_getElem?.mp hmem
        have hcell : order[k]? = some c := by
          rw [← map_fst_of_resolveCells hentries, List.getElem?_map, hk, Option.map_some]
        obtain ⟨value', hvalue, hk'⟩ := getElem?_of_resolveCells hentries hcell
        obtain ⟨-, rfl⟩ := Prod.mk.inj (Option.some.inj (hk.symm.trans hk'))
        exact hvalue
    · cases hresult : resolveCells grid order ∅ with
      | ok entries =>
          obtain ⟨c, hc, hnot⟩ := hfails
          exact absurd (exists_resolveCells_eq_ok_iff.mp ⟨entries, hresult⟩ c hc) hnot
      | error fault =>
          obtain ⟨c, failure, rfl, hfirst⟩ := resolveCells_eq_error_iff.mp hresult
          refine ⟨c, failure, ?_, hfirst, fun d hread hd => ?_⟩
          · rw [calculate_load, horder, Except.ok_bind, hresult]
          · exact hisOrder.resolves_of_failsFirst (hacyclic c) hfirst hread hd

/-- A sum in front of a remainder that it reads, and what both of them read. -/
def sumOfRemainder : Grid :=
  ⟨1, 3, #v[#v[.call "ADD" [.reference ⟨0, 1⟩, .reference ⟨0, 2⟩],
    .call "MOD" [.reference ⟨0, 2⟩, .reference ⟨0, 2⟩], .simple .null]]⟩

/-- The sum fails too, and stands first, but the remainder is to blame. -/
theorem calculate_sumOfRemainder :
    (Dependencies.ofGrid sumOfRemainder).order = .ok [⟨0, 1⟩, ⟨0, 0⟩] ∧
      (load sumOfRemainder).calculate =
        .error (.failure (.notArithmetic (.simple .null) (.simple .null)) (some ⟨0, 1⟩)) ∧
      ¬ sumOfRemainder.Resolves ⟨0, 0⟩ ∧ sumOfRemainder.Resolves ⟨0, 2⟩ := by
  have horder : (Dependencies.ofGrid sumOfRemainder).order = .ok [⟨0, 1⟩, ⟨0, 0⟩] := by cbv
  have hresult : (load sumOfRemainder).calculate =
      .error (.failure (.notArithmetic (.simple .null) (.simple .null)) (some ⟨0, 1⟩)) := by
    cbv
  have hsum : ¬ sumOfRemainder.Resolves ⟨0, 0⟩ := by
    have hfailure : (Value.reference ⟨0, 0⟩).resolve sumOfRemainder =
        .error (.notArithmetic (.simple .null) (.simple .null)) := by cbv
    simp [Grid.Resolves, hfailure]
  obtain ⟨order, horder', -, -, hblame⟩ := (calculate_outcome sumOfRemainder (by decide)).2
    (Dependencies.exists_order_iff.mp ⟨_, horder⟩)
  obtain rfl := Except.ok.inj (horder.symm.trans horder')
  obtain ⟨c, failure, hlocated, -, hreads⟩ := hblame ⟨⟨0, 0⟩, by simp, hsum⟩
  obtain ⟨rfl, hc⟩ := Fault.failure.inj (Except.error.inj (hresult.symm.trans hlocated))
  obtain rfl : ⟨0, 1⟩ = c := Option.some.inj hc
  refine ⟨horder, hresult, hsum, hreads ⟨0, 2⟩ ?_ (by decide)⟩
  exact ⟨.call "MOD" [.reference ⟨0, 2⟩, .reference ⟨0, 2⟩], rfl,
    Value.mem_references_call.mpr ⟨.reference ⟨0, 2⟩, by simp, by simp⟩⟩

/-- A failure to display comes to light at no cell. -/
theorem calculate_overlongText :
    (Value.reference ⟨0, 0⟩).resolve Grid.overlongText =
        .error (.undisplayable (.precision ⟨2 ^ 31⟩)) ∧
      (Dependencies.ofGrid Grid.overlongText).order = .ok [⟨0, 0⟩] ∧
      (load Grid.overlongText).calculate =
        .error (.failure (.undisplayable (.precision ⟨2 ^ 31⟩)) none) ∧
      (load Grid.overlongText).calculate ≠
        .error (.failure (.undisplayable (.precision ⟨2 ^ 31⟩)) (some ⟨0, 0⟩)) := by
  have hresult : (load Grid.overlongText).calculate =
      .error (.failure (.undisplayable (.precision ⟨2 ^ 31⟩)) none) := by cbv
  refine ⟨by cbv, by cbv, hresult, ?_⟩
  rw [hresult]
  simp

end Calculator

end Worksheet
