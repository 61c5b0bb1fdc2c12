import Mathlib.Data.List.Nodup
import Worksheet.Proofs.Search

/-!
# The first cycle on the way

A cell loops if references lead from it into a cycle. Whoever follows the
references of a cell from left to right, going into each before the next, gets
through those that do not loop and is caught inside the first that does. The
cell alone therefore determines the cycle in the end: the search that orders
the formula cells and the resolution of the first of them that loops agree on it.
-/

namespace Worksheet

open Relation (TransGen ReflTransGen)

namespace Grid

variable {grid : Grid} {path chain chain' cells : List Cell} {cell c d : Cell}

/-- References lead from the cell into a cycle. -/
def Loops (grid : Grid) (c : Cell) : Prop :=
  ∃ d, ReflTransGen grid.Reads c d ∧ TransGen grid.Reads d d

theorem Loops.of_reads (hread : grid.Reads c d) (h : grid.Loops d) : grid.Loops c := by
  obtain ⟨e, hwalk, hcycle⟩ := h
  exact ⟨e, .head hread hwalk, hcycle⟩

theorem Loops.exists_reads (h : grid.Loops c) : ∃ d, grid.Reads c d := by
  obtain ⟨e, hwalk, hcycle⟩ := h
  obtain ⟨d, hread, -⟩ := Relation.TransGen.head'_iff.mp (hcycle.trans_right hwalk)
  exact ⟨d, hread⟩

theorem IsTrail.loops (h : grid.IsTrail (c :: path)) (hc : c ∈ path) : grid.Loops c :=
  ⟨c, .refl, h.transGen hc⟩

open Classical in
noncomputable def firstLoop? (grid : Grid) (cells : List Cell) : Option Cell :=
  cells.find? fun c => decide (grid.Loops c)

theorem loops_of_firstLoop? (h : grid.firstLoop? cells = some c) : grid.Loops c := by
  simpa using List.find?_some h

theorem mem_of_firstLoop? (h : grid.firstLoop? cells = some c) : c ∈ cells :=
  List.mem_of_find?_eq_some h

theorem firstLoop?_append {others : List Cell} (hcells : ∀ d ∈ cells, ¬ grid.Loops d) :
    grid.firstLoop? (cells ++ others) = grid.firstLoop? others := by
  have hnone : grid.firstLoop? cells = none := by simpa [firstLoop?] using hcells
  rw [firstLoop?, List.find?_append, ← firstLoop?, hnone, Option.none_or, firstLoop?]

theorem firstLoop?_cons (h : grid.Loops c) (cells : List Cell) :
    grid.firstLoop? (c :: cells) = some c := by
  simp [firstLoop?, h]

theorem firstLoop?_references (v : Value) :
    grid.firstLoop? v.references = grid.firstLoop? v.occurrences :=
  Value.find?_references _ v

/-- Among cells in order the first that loops comes before the others. -/
theorem isLE_of_firstLoop? (hcells : cells.Pairwise fun a b => compare a b = .lt)
    (h : grid.firstLoop? cells = some c) (hd : d ∈ cells) (hloops : grid.Loops d) :
    (compare c d).isLE := by
  obtain ⟨-, before, after, rfl, hbefore⟩ := List.find?_eq_some_iff_append.mp h
  rcases List.mem_append.mp hd with hd | hd
  · exact absurd hloops (by simpa using hbefore d hd)
  · rcases List.mem_cons.mp hd with rfl | hd
    · simp
    · have hlt : compare c d = .lt :=
        List.rel_of_pairwise_cons (List.pairwise_append.mp hcells).2.1 hd
      simp [hlt]

/-- The cycle that is closed by following the first looping references from a
cell on, inside the cells of a path. -/
inductive Closes (grid : Grid) : List Cell → Cell → List Cell → Prop where
  | again {path : List Cell} {cell : Cell} :
      cell ∈ path → Closes grid path cell (cycleAt path cell)
  | inside {path chain : List Cell} {cell next : Cell} {v : Value} :
      cell ∉ path → grid.get? cell = some v → grid.firstLoop? v.references = some next →
      Closes grid (cell :: path) next chain → Closes grid path cell chain

theorem Closes.unique (h : grid.Closes path cell chain) (h' : grid.Closes path cell chain') :
    chain = chain' := by
  induction h with
  | again hmem =>
      cases h' with
      | again => rfl
      | inside hnot => exact absurd hmem hnot
  | inside hnot hv hnext _ ih =>
      cases h' with
      | again hmem => exact absurd hmem hnot
      | inside _ hv' hnext' hrest =>
          obtain rfl := Option.some.inj (hv.symm.trans hv')
          obtain rfl := Option.some.inj (hnext.symm.trans hnext')
          exact ih hrest

end Grid

namespace Value

variable {grid : Grid} {path chain : List Cell} {c : Cell} {v : Value}

/-- What resolves reads no cell that loops. -/
theorem not_loops_of_evaluate {value : Simple} (h : v.evaluate grid path = .ok value)
    (hc : c ∈ v.references) : ¬ grid.Loops c := by
  rintro ⟨d, hwalk, hcycle⟩
  exact (of_evaluate_eq_ok h (Reaches.trans (.direct hc) hwalk)).2.2 hcycle

theorem firstLoop?_reference (h : grid.Loops c) :
    grid.firstLoop? (Value.reference c).references = some c := by
  rw [Grid.firstLoop?_references, occurrences]
  exact Grid.firstLoop?_cons h []

/-- Operands that resolve are passed over. -/
theorem firstLoop?_call {function : String} {earlier later : List Value} {w : Value}
    (hearlier : ∀ u ∈ earlier, ∃ value, u.evaluate grid path = .ok value)
    (hw : grid.firstLoop? w.references = some c) :
    grid.firstLoop? (Value.call function (earlier ++ w :: later)).references = some c := by
  have hpassed : ∀ d ∈ occurrencesEach earlier, ¬ grid.Loops d := by
    intro d hd
    obtain ⟨u, hu, hdu⟩ := mem_occurrencesEach.mp hd
    obtain ⟨value, hvalue⟩ := hearlier u hu
    exact not_loops_of_evaluate hvalue (mem_references.mpr hdu)
  rw [Grid.firstLoop?_references] at hw ⊢
  rw [occurrences, occurrencesEach_append, Grid.firstLoop?_append hpassed, occurrencesEach,
    Grid.firstLoop?, List.find?_append, ← Grid.firstLoop?, hw, Option.some_or]

/-- A cycle that fails an evaluation is the first on the way. -/
theorem exists_closes_of_evaluate (h : v.evaluate grid path = .error (.cycle chain))
    (hv : v.Continues grid path) :
    ∃ next, grid.firstLoop? v.references = some next ∧ grid.Closes path next chain := by
  induction path, v using evaluate_induction grid with
  | simple path value => simp at h
  | outside path c hc => simp [evaluate_outside hc] at h
  | cycle path c v hc hmem =>
      obtain rfl : cycleAt path c = chain := by simpa [evaluate_cycle hc hmem] using h
      exact ⟨c, firstLoop?_reference (hv.isTrail.loops hmem), .again hmem⟩
  | enter path c v hc hmem ih =>
      rw [evaluate_enter hc hmem] at h
      obtain ⟨next, hnext, hcloses⟩ := ih h (hv.stored hc)
      have hread : grid.Reads c next := (Grid.reads_iff hc).mpr (Grid.mem_of_firstLoop? hnext)
      have hloops : grid.Loops c := (Grid.loops_of_firstLoop? hnext).of_reads hread
      exact ⟨c, firstLoop?_reference hloops, .inside hmem hc hnext hcloses⟩
  | call path function operands ih =>
      rw [evaluate_call, Except.bind_eq_error_iff, evaluateEach_eq_mapM,
        Except.mapM_eq_error_iff] at h
      rcases h with ⟨w, earlier, later, rfl, hearlier, hfail⟩ | ⟨values, -, h⟩
      · have hw : w ∈ earlier ++ w :: later := by simp
        obtain ⟨next, hnext, hcloses⟩ := ih w hw hfail (hv.operand hw)
        exact ⟨next, firstLoop?_call hearlier hnext, hcloses⟩
      · exact absurd (Function.isReading_of_applyNamed h) (by simp [Failure.isReading])

end Value

namespace Dependencies

variable {grid : Grid} {roots ahead cells chain : List Cell} {now : Option Cell} {c d : Cell}
  {v : Value}

theorem referencesOf_ofGrid (hv : grid.get? c = some v) (hformula : v.isSimple = false) :
    (ofGrid grid).referencesOf c = v.references := by
  rw [referencesOf, Std.ExtTreeMap.getD_eq_getD_getElem?, (coherent_ofGrid grid).references,
    formulas_ofGrid.mpr ⟨hv, hformula⟩]
  rfl

theorem contains_of_loops (h : grid.Loops c) : (ofGrid grid).contains c := by
  obtain ⟨d, hread⟩ := h.exists_reads
  exact contains_ofGrid_of_reads hread

theorem Settled.not_loops {order : List Cell} (h : (ofGrid grid).Settled order) (hc : c ∈ order) :
    ¬ grid.Loops c := by
  rintro ⟨d, hwalk, hcycle⟩
  have hformula : (ofGrid grid).contains d := contains_of_loops ⟨d, .refl, hcycle⟩
  have hd : d ∈ order := by
    rcases Relation.reflTransGen_iff_eq_or_transGen.mp hwalk with rfl | hwalk
    · exact hc
    · exact h.mem_of_transGen hc (transGen_links_ofGrid hformula hwalk)
  exact h.not_transGen hd (transGen_links_ofGrid hformula hcycle)

/-- Cells are looked at from left to right. Those before the one looked at now,
or before those that lie ahead if there is none, do not loop. -/
def Passes (grid : Grid) (cells : List Cell) (now : Option Cell) (ahead : List Cell) : Prop :=
  ∃ before, cells = before ++ now.toList ++ ahead ∧ ∀ c ∈ before, ¬ grid.Loops c

namespace Passes

theorem start (grid : Grid) (cells : List Cell) : Passes grid cells none cells :=
  ⟨[], rfl, by simp⟩

theorem take (h : Passes grid cells none (c :: ahead)) : Passes grid cells (some c) ahead := by
  obtain ⟨before, rfl, hbefore⟩ := h
  exact ⟨before, by simp, hbefore⟩

theorem pass (h : Passes grid cells (some c) ahead) (hc : ¬ grid.Loops c) :
    Passes grid cells none ahead := by
  obtain ⟨before, rfl, hbefore⟩ := h
  refine ⟨before ++ [c], by simp, fun d hd => ?_⟩
  rcases List.mem_append.mp hd with hd | hd
  · exact hbefore d hd
  · exact List.mem_singleton.mp hd ▸ hc

theorem firstLoop?_eq (h : Passes grid cells (some c) ahead) (hc : grid.Loops c) :
    grid.firstLoop? cells = some c := by
  obtain ⟨before, rfl, hbefore⟩ := h
  rw [List.append_assoc, Grid.firstLoop?_append hbefore]
  exact Grid.firstLoop?_cons hc ahead

end Passes

namespace Search

variable {s t : Search} {stack : List (Cell × List Cell)}

/-- At its roots and at each cell of the stack the search has passed over cells
that do not loop only. -/
def Passed (grid : Grid) (roots ahead : List Cell) :
    Option Cell → List (Cell × List Cell) → Prop
  | now, [] => Passes grid roots now ahead
  | now, (c, references) :: stack =>
      Passes grid ((ofGrid grid).referencesOf c) now references ∧
        Passed grid roots ahead (some c) stack

theorem Passed.pass (h : Passed grid roots ahead (some c) stack) (hc : ¬ grid.Loops c) :
    Passed grid roots ahead none stack := by
  cases stack with
  | nil => exact Passes.pass h hc
  | cons frame stack => exact ⟨h.1.pass hc, h.2⟩

/-- The cycle met at the roots and below them. -/
def Catches (grid : Grid) (roots chain : List Cell) : Prop :=
  ∃ root, grid.firstLoop? roots = some root ∧ grid.Closes [] root chain

/-- The way to a cycle goes back through the stack to the first root that loops. -/
theorem Passed.catches (h : Passed grid roots ahead (some c) stack)
    (htrail : grid.IsTrail (c :: stack.map Prod.fst)) (hnodup : (stack.map Prod.fst).Nodup)
    (hloops : grid.Loops c) (hcloses : grid.Closes (stack.map Prod.fst) c chain) :
    Catches grid roots chain := by
  induction stack generalizing c with
  | nil => exact ⟨c, Passes.firstLoop?_eq h hloops, hcloses⟩
  | cons frame stack ih =>
      obtain ⟨reader, references⟩ := frame
      obtain ⟨hread, hrest⟩ := List.isChain_cons_cons.mp htrail
      obtain ⟨hreader, hnodup⟩ := List.nodup_cons.mp hnodup
      obtain ⟨v, hv, hc⟩ := id hread
      have hfirst : grid.firstLoop? v.references = some c :=
        referencesOf_ofGrid hv (isSimple_of_mem_references hc) ▸ h.1.firstLoop?_eq hloops
      exact ih h.2 hrest hnodup (hloops.of_reads hread) (.inside hreader hv hfirst hcloses)

def Keeps (grid : Grid) (roots : List Cell) : SearchStep → Prop
  | .next t => Passed grid roots t.roots none t.stack
  | .stop (.ok _) => True
  | .stop (.error chain) => Catches grid roots chain

theorem keeps_visit (h : Passed grid roots s.roots (some c) s.stack)
    (hinvariant : s.Invariant (ofGrid grid) roots (some c)) (htrail : grid.IsTrail (c :: s.path)) :
    Keeps grid roots (s.visit (ofGrid grid) c) := by
  unfold visit
  split
  next hmet =>
      have hpath : c ∈ s.path := (hinvariant.onPath c).mp hmet
      exact h.catches htrail hinvariant.nodup (htrail.loops hpath) (.again hpath)
  next =>
      split
      next hpass =>
          refine h.pass fun hloops => ?_
          have hfinished : s.finished.contains c := by
            simpa [contains_of_loops hloops] using hpass
          exact hinvariant.settled.not_loops ((hinvariant.finished c).mp hfinished) hloops
      next => exact ⟨Passes.start _ _, h⟩

theorem Traced.isTrail (h : s.Traced (ofGrid grid) roots) : grid.IsTrail s.path := by
  have htrail := h.trail
  rwa [refers_ofGrid] at htrail

theorem keeps_step (h : Passed grid roots s.roots none s.stack)
    (hinvariant : s.Invariant (ofGrid grid) roots none)
    (htraced : s.Traced (ofGrid grid) roots) :
    Keeps grid roots (step (ofGrid grid) s) := by
  obtain ⟨ahead, stack, onPath, finished, order⟩ := s
  cases stack with
  | nil =>
      cases ahead with
      | nil => trivial
      | cons root ahead =>
          exact keeps_visit (Passes.take h) (hinvariant.takeRoot rfl rfl)
            (List.isChain_singleton root)
  | cons frame stack =>
      obtain ⟨reader, references⟩ := frame
      cases references with
      | nil =>
          have hsettled := (hinvariant.leave rfl).settled
          exact Passed.pass h.2 (hsettled.not_loops List.mem_cons_self)
      | cons c references =>
          have hread : grid.Reads reader c :=
            mem_referencesOf_ofGrid.mp (htraced.ahead _ List.mem_cons_self c List.mem_cons_self)
          exact keeps_visit (s := ⟨ahead, (reader, references) :: stack, onPath, finished, order⟩)
            ⟨h.1.take, h.2⟩ (hinvariant.takeReference rfl)
            (List.isChain_cons_cons.mpr ⟨hread, htraced.isTrail⟩)

theorem Passed.run (h : Passed grid roots s.roots none s.stack)
    (hinvariant : s.Invariant (ofGrid grid) roots none) (htraced : s.Traced (ofGrid grid) roots)
    (hrun : run (ofGrid grid) s = .error chain) : Catches grid roots chain := by
  obtain ⟨last, ⟨hpassed, hlast, htraced⟩, hstop⟩ := exists_last
    (p := fun s => Passed grid roots s.roots none s.stack ∧
      s.Invariant (ofGrid grid) roots none ∧ s.Traced (ofGrid grid) roots)
    ⟨h, hinvariant, htraced⟩ <| by
    rintro s t ⟨hpassed, hinvariant, htraced⟩ hstep
    have hkeeps := keeps_step hpassed hinvariant htraced
    rw [hstep] at hkeeps
    exact ⟨hkeeps, hinvariant.step hstep, htraced.step hstep⟩
  have hkeeps := keeps_step hpassed hlast htraced
  rwa [hstop, hrun] at hkeeps

end Search

theorem mem_cells_iff {index : Dependencies} : c ∈ index.cells ↔ index.contains c := by
  rw [cells, contains, Std.ExtTreeMap.mem_keys, Std.ExtTreeMap.mem_iff_contains]

theorem not_loops_of_order {order : List Cell} (h : (ofGrid grid).order = .ok order) (c : Cell) :
    ¬ grid.Loops c := by
  intro hloops
  obtain ⟨hsettled, hroots⟩ :=
    (Search.invariant_start _ _).run (Except.mapError_eq_ok_iff.mp h)
  have hformula := contains_of_loops hloops
  have hc : c ∈ order := hroots c (mem_cells_iff.mpr hformula) hformula
  exact hsettled.not_loops (List.mem_reverse.mpr hc) hloops

theorem eq_of_cycleFault (h : cycleFault cells = .unlocated (.cycle chain)) : cells = chain := by
  unfold cycleFault at h
  split at h
  · simpa [Fault.unlocated] using h
  · simp [Fault.unlocated] at h

/-- The cycle that the order reports is the first on the way from its roots. -/
theorem catches_of_order (h : (ofGrid grid).order = .error (.unlocated (.cycle chain))) :
    grid.IsCycle chain ∧ Search.Catches grid (ofGrid grid).cells chain := by
  obtain ⟨cells, hrun, hfault⟩ := Except.mapError_eq_error_iff.mp h
  obtain rfl := eq_of_cycleFault hfault
  have hcircuit := (Search.isCircuit_of_run hrun).1
  rw [refers_ofGrid] at hcircuit
  have hpassed : Search.Passed grid (ofGrid grid).cells (ofGrid grid).cells none [] :=
    Passes.start ..
  exact ⟨Grid.isCycle_iff_isCircuit.mpr hcircuit,
    Search.Passed.run hpassed (Search.invariant_start _ _) (Search.traced_start _ _) hrun⟩

end Dependencies

namespace Grid

variable {grid : Grid} {chain : List Cell} {c : Cell}

theorem Loops.exists_failure (h : grid.Loops c) :
    ∃ failure, (Value.reference c).resolve grid = .error failure := by
  rw [Value.resolve_eq_evaluate]
  cases hvalue : (Value.reference c).evaluate grid [] with
  | error failure => exact ⟨failure, rfl⟩
  | ok value => exact absurd h (Value.not_loops_of_evaluate hvalue (by simp))

theorem closes_of_resolve (h : (Value.reference c).resolve grid = .error (.cycle chain)) :
    grid.Closes [] c chain := by
  rw [Value.resolve_eq_evaluate] at h
  obtain ⟨next, hnext, hcloses⟩ := Value.exists_closes_of_evaluate h Value.continues_nil
  obtain rfl : next = c := Value.mem_references_reference.mp (mem_of_firstLoop? hnext)
  exact hcloses

/-- The first formula cell, row by row, from which references lead into a cycle. -/
structure IsFirstLoop (grid : Grid) (root : Cell) : Prop where
  formula : (Dependencies.ofGrid grid).contains root
  loops : grid.Loops root
  least : ∀ c, (Dependencies.ofGrid grid).contains c → grid.Loops c → (compare root c).isLE

theorem isFirstLoop_of_firstLoop? (h : grid.firstLoop? (Dependencies.ofGrid grid).cells = some c) :
    grid.IsFirstLoop c where
  formula := Dependencies.mem_cells_iff.mp (mem_of_firstLoop? h)
  loops := loops_of_firstLoop? h
  least _ hd hloops :=
    isLE_of_firstLoop? Std.ExtTreeMap.ordered_keys h (Dependencies.mem_cells_iff.mpr hd) hloops

theorem IsFirstLoop.eq {root other : Cell} (h : grid.IsFirstLoop root)
    (h' : grid.IsFirstLoop other) : root = other :=
  Std.LawfulEqOrd.eq_of_compare
    (Std.OrientedCmp.isLE_antisymm (h.least _ h'.formula h'.loops) (h'.least _ h.formula h.loops))

end Grid

namespace Dependencies

/-- If the formula cells can be ordered then nothing resolves to a cycle. A cycle
that prevents it fails every cell on it; and the first formula cell that leads
into a cycle either fails otherwise or reports the same. -/
theorem order_cycle_agrees (grid : Grid) :
    (∀ order, (ofGrid grid).order = .ok order →
      ∀ (v : Value) chain, v.resolve grid ≠ .error (.cycle chain)) ∧
    (∀ chain, (ofGrid grid).order = .error (.unlocated (.cycle chain)) →
      (∀ c ∈ chain, ∃ failure, (Value.reference c).resolve grid = .error failure) ∧
      (∃ root, grid.IsFirstLoop root) ∧
      ∀ root, grid.IsFirstLoop root →
        ∃ failure, (Value.reference root).resolve grid = .error failure ∧
          ∀ other, failure = .cycle other → other = chain) := by
  constructor
  · intro order horder v chain h
    rw [Value.resolve_eq_evaluate] at h
    obtain ⟨next, hnext, -⟩ := Value.exists_closes_of_evaluate h Value.continues_nil
    exact not_loops_of_order horder next (Grid.loops_of_firstLoop? hnext)
  · intro chain horder
    obtain ⟨hcycle, first, hfirst, hcloses⟩ := catches_of_order horder
    have hfirst := Grid.isFirstLoop_of_firstLoop? hfirst
    refine ⟨fun c hc => ?_, ⟨first, hfirst⟩, fun root hroot => ?_⟩
    · exact Grid.Loops.exists_failure ⟨c, .refl, hcycle.transGen hc⟩
    · obtain rfl := hroot.eq hfirst
      obtain ⟨failure, hfailure⟩ := hroot.loops.exists_failure
      refine ⟨failure, hfailure, ?_⟩
      rintro other rfl
      exact (Grid.closes_of_resolve hfailure).unique hcloses

theorem order_cycle_copyBesideLoop :
    (ofGrid Grid.copyBesideLoop).order = .error (.unlocated (.cycle [⟨0, 2⟩, ⟨0, 2⟩])) ∧
      ∃ failure, (Value.reference ⟨0, 2⟩).resolve Grid.copyBesideLoop = .error failure := by
  have horder : (ofGrid Grid.copyBesideLoop).order =
      .error (.unlocated (.cycle [⟨0, 2⟩, ⟨0, 2⟩])) := by cbv
  exact ⟨horder, ((order_cycle_agrees _).2 _ horder).1 _ List.mem_cons_self⟩

end Dependencies

end Worksheet
