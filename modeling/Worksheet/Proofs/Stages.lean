import Worksheet.Proofs.Recalculation
import Worksheet.Proofs.Search
import Worksheet.Sheet

/-!
# Stages of a recalculation

A recalculation can fail before the patch is applied, and then nothing has
changed, or after that, when a cell downstream of the patch does not resolve any
more. What such a cell reads is as much within the grid and as free of cycles as
before, so that only the operands of a function can be at fault.
-/

namespace Worksheet

open Relation (TransGen ReflTransGen)
open Block (Rectangular)
open Resolution
open Sheet (covered)

namespace Grid

/-- Reading on from the cell leads to one of the given cells. -/
def ReadsInto (grid : Grid) (cells : List Cell) (c : Cell) : Prop :=
  ∃ d ∈ cells, TransGen grid.Reads c d

def Resolves (grid : Grid) (c : Cell) : Prop :=
  ∃ value, (Value.reference c).resolve grid = .ok value

variable {grid : Grid} {cells : List Cell} {c d : Cell}

theorem ReadsInto.inBounds (h : grid.ReadsInto cells c) : grid.InBounds c := by
  obtain ⟨d, -, hreads⟩ := h
  exact inBounds_of_transGen hreads

theorem Resolves.acyclic (h : grid.Resolves c) (hreach : ReflTransGen grid.Reads c d) :
    ¬ TransGen grid.Reads d d := by
  obtain ⟨value, hvalue⟩ := h
  rw [Value.resolve_eq_evaluate] at hvalue
  exact (Value.of_evaluate_eq_ok hvalue (Value.reaches_reference_iff.mpr hreach)).2.2

end Grid

variable {before after : Grid} {start : Cell} {name : String} {rows : List (List Value)}

theorem covered_eq_of_ofRows {patch : Block Value} (h : Block.ofRows rows = .ok patch) :
    covered start rows = start.rectangle patch.rows patch.columns := by
  have hshape := Block.shape_of_ofRows h
  cases rows with
  | nil =>
      obtain ⟨hrows, hcolumns⟩ : 0 = patch.rows ∧ 0 = patch.columns := by
        simpa [Block.shape] using hshape
      rw [covered, ← hrows, ← hcolumns]
      rfl
  | cons first rest =>
      obtain ⟨hrows, hcolumns⟩ := Block.length_of_shape hshape
      rw [covered, hrows, ← hcolumns first List.mem_cons_self]
      rfl

theorem overwritten_of_apply (h : before.apply start name rows = .ok after) :
    Grid.Overwritten (covered start rows) before after := by
  obtain ⟨patch, hpatch, happly⟩ := Except.bind_eq_ok_iff.mp h
  rw [covered_eq_of_ofRows hpatch]
  exact Grid.overwritten_of_applyBlock happly

namespace Calculator

variable {tolerance : Binary64} {applied : Applied}

/-- All that a recalculation asks for before it writes. -/
structure Applicable (before : Grid) (start : Cell) (name : String) (rows : List (List Value))
    (after : Grid) : Prop where
  rectangular : ∃ m n, Rectangular rows m n
  acyclic : ∀ c, before.ReadsInto (covered start rows) c →
    ∀ d, ReflTransGen before.Reads c d → ¬ TransGen before.Reads d d
  patched : ∀ c ∈ covered start rows, before.InBounds c → before.Resolves c
  downstream : ∀ c, before.ReadsInto (covered start rows) c → before.Resolves c
  applied : before.apply start name rows = .ok after

/-- The cells that are looked at are those of the patch and those downstream of it. -/
theorem forall_watchedCells_iff {patched readers : List Cell} {p : Cell → Prop}
    (h : (Dependencies.ofGrid before).downstream patched = .ok readers) :
    (∀ c ∈ watchedCells before patched readers, p c) ↔
      (∀ c ∈ patched, before.InBounds c → p c) ∧
        ∀ c, before.ReadsInto patched c → c ∉ patched → p c := by
  have hreader : ∀ c, c ∈ readers ↔ before.ReadsInto patched c := fun _ =>
    Dependencies.mem_downstream_ofGrid_iff h
  simp only [watchedCells, List.mem_append, List.mem_filter, decide_eq_true_eq, hreader]
  constructor
  · intro hall
    exact ⟨fun c hc hcell => hall c (.inl ⟨hc, hcell⟩), fun c hc hnot => hall c (.inr ⟨hc, hnot⟩)⟩
  · rintro ⟨hpatched, hdownstream⟩ c (⟨hc, hcell⟩ | ⟨hc, hnot⟩)
    · exact hpatched c hc hcell
    · exact hdownstream c hc hnot

theorem applicable_of_applyPatch
    (h : applyPatch before (.ofGrid before) start name rows = .ok applied) :
    Applicable before start name rows applied.grid ∧ applied.patched = covered start rows ∧
      ∃ readers, (Dependencies.ofGrid before).downstream (covered start rows) = .ok readers ∧
        applied.watched = watchedCells before (covered start rows) readers := by
  obtain ⟨patch, readers, entries, after, hpatch, hreaders, hentries, hafter, rfl⟩ :=
    applyPatch_eq_ok_iff.mp h
  rw [← covered_eq_of_ofRows hpatch] at hreaders hentries
  have hwatched : ∀ c ∈ watchedCells before (covered start rows) readers, before.Resolves c :=
    exists_resolveCells_eq_ok_iff.mp ⟨entries, hentries⟩
  obtain ⟨hpatched, hothers⟩ := (forall_watchedCells_iff hreaders).mp hwatched
  have hdownstream : ∀ c, before.ReadsInto (covered start rows) c → before.Resolves c := by
    intro c hc
    by_cases hmem : c ∈ covered start rows
    · exact hpatched c hmem hc.inBounds
    · exact hothers c hc hmem
  refine ⟨?_, (covered_eq_of_ofRows hpatch).symm, readers, hreaders,
    map_fst_of_resolveCells hentries⟩
  exact {
    rectangular := ⟨_, _, Block.rectangular_of_ofRows hpatch⟩
    -- No search is needed to see this: what resolves reaches no cycle.
    acyclic := fun c hc d hd => (hdownstream c hc).acyclic hd
    patched := hpatched
    downstream := hdownstream
    applied := by rw [Grid.apply, hpatch, Except.ok_bind, hafter] }

theorem Applicable.exists_downstream (h : Applicable before start name rows after) :
    ∃ readers, (Dependencies.ofGrid before).downstream (covered start rows) = .ok readers := by
  cases hreaders : (Dependencies.ofGrid before).downstream (covered start rows) with
  | error fault =>
      exfalso
      obtain ⟨chain, hcycle, -, hreach⟩ := Dependencies.isCycle_of_downstream hreaders
      obtain ⟨c, rest, rfl, -⟩ := hcycle.closed
      obtain ⟨reader, hreader, hwalk⟩ := hreach c List.mem_cons_self
      exact h.acyclic reader hreader c hwalk (hcycle.transGen List.mem_cons_self)
  | ok readers => exact ⟨readers, rfl⟩

theorem Applicable.exists_applyPatch (h : Applicable before start name rows after) :
    ∃ applied, applyPatch before (.ofGrid before) start name rows = .ok applied := by
  obtain ⟨readers, hreaders⟩ := h.exists_downstream
  obtain ⟨patch, hpatch, hafter⟩ := Except.bind_eq_ok_iff.mp h.applied
  have hwatched : ∀ c ∈ watchedCells before (covered start rows) readers, before.Resolves c :=
    (forall_watchedCells_iff hreaders).mpr ⟨h.patched, fun c hc _ => h.downstream c hc⟩
  obtain ⟨entries, hentries⟩ := exists_resolveCells_eq_ok_iff.mpr hwatched
  rw [covered_eq_of_ofRows hpatch] at hreaders hentries
  exact ⟨_, applyPatch_eq_ok_iff.mpr
    ⟨patch, readers, entries, after, hpatch, hreaders, hentries, hafter, rfl⟩⟩

theorem Applicable.resolves_of_patched (h : Applicable before start name rows after) {c : Cell}
    (hc : c ∈ covered start rows) (hcell : before.InBounds c) : after.Resolves c := by
  obtain ⟨value, hvalue⟩ := Value.evaluate_of_overwritten (overwritten_of_apply h.applied) hc
    hcell List.not_mem_nil
  exact ⟨value, (Value.resolve_eq_evaluate _ _).trans hvalue⟩

section Report

variable {calculator : Calculator} (hgrid : calculator.grid = some before)
  (hindex : calculator.dependencies = .ofGrid before)

include hgrid hindex

theorem exists_report_iff_of_applyPatch
    (h : applyPatch before (.ofGrid before) start name rows = .ok applied) :
    (∃ report, (calculator.recalculate start name rows tolerance).report = .ok report) ↔
      ∀ c, before.ReadsInto (covered start rows) c → c ∉ covered start rows →
        applied.grid.Resolves c := by
  obtain ⟨happlicable, -, readers, hreaders, hwatched⟩ := applicable_of_applyPatch h
  have hreport : (∃ report,
      (calculator.recalculate start name rows tolerance).report = .ok report) ↔
      ∃ entries, resolveCells applied.grid applied.watched ∅ = .ok entries := by
    rw [recalculate_of_ok hgrid (hindex ▸ h)]
    simp
  rw [hreport, exists_resolveCells_eq_ok_iff, hwatched]
  refine (forall_watchedCells_iff hreaders).trans (and_iff_right ?_)
  exact fun c hc hcell => happlicable.resolves_of_patched hc hcell

/-- The failure is that of the first cell downstream, and comes from operands. -/
theorem failsFirst_of_report_eq_error {fault : Fault}
    (h : applyPatch before (.ofGrid before) start name rows = .ok applied)
    (hreport : (calculator.recalculate start name rows tolerance).report = .error fault) :
    ∃ readers cell failure,
      (Dependencies.ofGrid before).downstream (covered start rows) = .ok readers ∧
        Except.FailsFirst (fun c => (Value.reference c).resolve applied.grid)
          (readers.filter (· ∉ covered start rows)) cell failure ∧
        fault = .locatedAt cell failure ∧ failure.isOperand := by
  obtain ⟨happlicable, -, readers, hreaders, hwatched⟩ := applicable_of_applyPatch h
  rw [recalculate_of_ok hgrid (hindex ▸ h)] at hreport
  obtain ⟨cell, failure, rfl, hfirst⟩ :=
    resolveCells_eq_error_iff.mp (Except.map_eq_error_iff.mp hreport)
  rw [hwatched, watchedCells] at hfirst
  -- The cells of the patch come first, and none of them fails.
  have hfails := hfirst.of_append fun c hc => by
    obtain ⟨hpatched, hcell⟩ := List.mem_filter.mp hc
    exact happlicable.resolves_of_patched hpatched (by simpa using hcell)
  refine ⟨readers, cell, failure, hreaders, hfails, rfl, ?_⟩
  have hreader : cell ∈ readers := (List.mem_filter.mp hfails.mem).1
  obtain ⟨value, hvalue⟩ :=
    happlicable.downstream cell ((Dependencies.mem_downstream_ofGrid_iff hreaders).mp hreader)
  obtain ⟨earlier, later, -, -, hfailure⟩ := hfails
  exact Value.isOperand_of_resolve (overwritten_of_apply happlicable.applied) hvalue hfailure

/-- A recalculation succeeds exactly if the patch can be applied and the cells
downstream of it still resolve. Otherwise nothing has changed, or the patch stays
applied and the first of these cells fails by operands. -/
theorem recalculate_outcome :
    ((∃ report, (calculator.recalculate start name rows tolerance).report = .ok report) ↔
      ∃ after, Applicable before start name rows after ∧
        ∀ c, before.ReadsInto (covered start rows) c → c ∉ covered start rows →
          after.Resolves c) ∧
    ∀ fault, (calculator.recalculate start name rows tolerance).report = .error fault →
      ((¬ ∃ after, Applicable before start name rows after) ∧
        calculator.recalculate start name rows tolerance = ⟨.error fault, [], calculator⟩) ∨
      ∃ after, Applicable before start name rows after ∧
        calculator.recalculate start name rows tolerance =
          ⟨.error fault, covered start rows, ⟨some after,
            (covered start rows).foldl Dependencies.erase calculator.dependencies⟩⟩ ∧
        ∃ readers cell failure,
          calculator.dependencies.downstream (covered start rows) = .ok readers ∧
          Except.FailsFirst (fun c => (Value.reference c).resolve after)
            (readers.filter (· ∉ covered start rows)) cell failure ∧
          fault = .locatedAt cell failure ∧ failure.isOperand := by
  cases happly : applyPatch before (.ofGrid before) start name rows with
  | error cause =>
      have hnot : ¬ ∃ after, Applicable before start name rows after := by
        rintro ⟨after, h⟩
        obtain ⟨applied, happlied⟩ := h.exists_applyPatch
        simp [happly] at happlied
      have heq : calculator.recalculate start name rows tolerance =
          ⟨.error cause, [], calculator⟩ := recalculate_of_error hgrid (hindex ▸ happly)
      refine ⟨⟨?_, fun ⟨after, h, _⟩ => absurd ⟨after, h⟩ hnot⟩, fun fault hreport => ?_⟩
      · rintro ⟨report, hreport⟩
        simp [heq] at hreport
      · rw [heq] at hreport ⊢
        obtain rfl : cause = fault := Except.error.inj hreport
        exact .inl ⟨hnot, rfl⟩
  | ok applied =>
      obtain ⟨happlicable, hpatched, -⟩ := applicable_of_applyPatch happly
      have hafter : ∀ after, Applicable before start name rows after → after = applied.grid :=
        fun after h => Except.ok.inj (h.applied.symm.trans happlicable.applied)
      refine ⟨?_, fun fault hreport => .inr ⟨applied.grid, happlicable, ?_, ?_⟩⟩
      · rw [exists_report_iff_of_applyPatch hgrid hindex happly]
        constructor
        · intro h
          exact ⟨applied.grid, happlicable, h⟩
        · rintro ⟨after, h, hresolves⟩
          rwa [← hafter after h]
      · have heq : calculator.recalculate start name rows tolerance = _ :=
          recalculate_of_ok hgrid (hindex ▸ happly)
        rw [heq] at hreport ⊢
        rw [← hpatched]
        exact congrArg (Recalculation.mk · _ _) hreport
      · rw [hindex]
        exact failsFirst_of_report_eq_error hgrid hindex happly hreport

end Report

/-- A number and a remainder by it. -/
def remainderBeside : Grid :=
  ⟨1, 2, #v[#v[.simple (.integer .one),
    .call "MOD" [.simple (.integer ⟨5, by decide⟩), .reference ⟨0, 0⟩]]]⟩

/-- The number becomes zero, and stays so though there is no remainder any more. -/
theorem recalculate_remainderBeside :
    ((load remainderBeside).recalculate ⟨0, 0⟩ "ADD" [[.simple (.integer ⟨-1, by decide⟩)]]
        (.zero false)).report = .error (.failure .divisionByZero (some ⟨0, 1⟩)) ∧
      ∃ after,
        Applicable remainderBeside ⟨0, 0⟩ "ADD" [[.simple (.integer ⟨-1, by decide⟩)]] after ∧
        ((load remainderBeside).recalculate ⟨0, 0⟩ "ADD" [[.simple (.integer ⟨-1, by decide⟩)]]
          (.zero false)).calculator.grid = some after := by
  have hreport : ((load remainderBeside).recalculate ⟨0, 0⟩ "ADD"
      [[.simple (.integer ⟨-1, by decide⟩)]] (.zero false)).report =
        .error (.failure .divisionByZero (some ⟨0, 1⟩)) := by cbv
  have hwritten : ((load remainderBeside).recalculate ⟨0, 0⟩ "ADD"
      [[.simple (.integer ⟨-1, by decide⟩)]] (.zero false)).written = [⟨0, 0⟩] := by cbv
  refine ⟨hreport, ?_⟩
  rcases (recalculate_outcome rfl rfl).2 _ hreport with ⟨-, heq⟩ | ⟨after, happlicable, heq, -⟩
  · simp [heq] at hwritten
  · exact ⟨after, happlicable, by rw [heq]⟩

/-- A float and a text that shows it. -/
def shownBeside : Grid :=
  ⟨1, 2, #v[#v[.simple (.float (.zero false) 0),
    .call "CONCAT" [.reference ⟨0, 0⟩, .simple .null]]]⟩

/-- The float is given more decimal places than can be displayed. The failure of
the text beside it then has no origin. -/
theorem recalculate_shownBeside :
    ∃ result, (load shownBeside).recalculate ⟨0, 0⟩ "ADD"
        [[.simple (.float (.zero false) (2 ^ 31))]] (.zero false) = result ∧
      result.report = .error (.failure (.undisplayable (.precision ⟨2 ^ 31⟩)) none) ∧
      (∀ cause cell, result.report ≠ .error (.failure cause (some cell))) ∧
      (result.calculator.grid.bind fun after => after.get? ⟨0, 0⟩) ≠
        shownBeside.get? ⟨0, 0⟩ := by
  have hreport : ((load shownBeside).recalculate ⟨0, 0⟩ "ADD"
      [[.simple (.float (.zero false) (2 ^ 31))]] (.zero false)).report =
        .error (.failure (.undisplayable (.precision ⟨2 ^ 31⟩)) none) := by cbv
  have hafter : (((load shownBeside).recalculate ⟨0, 0⟩ "ADD"
      [[.simple (.float (.zero false) (2 ^ 31))]] (.zero false)).calculator.grid.bind
        fun after => after.get? ⟨0, 0⟩) = some (.simple (.float (.zero false) (2 ^ 31))) := by cbv
  have hbefore : shownBeside.get? ⟨0, 0⟩ = some (.simple (.float (.zero false) 0)) := by cbv
  refine ⟨_, rfl, hreport, ?_, ?_⟩
  · rw [hreport]
    simp
  · rw [hafter, hbefore]
    simp

end Calculator

end Worksheet
