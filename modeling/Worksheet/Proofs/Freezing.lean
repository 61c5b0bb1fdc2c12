import Worksheet.Proofs.Block
import Worksheet.Proofs.Region

/-!
# Frozen rectangles

Cells may be overwritten with what they resolve to. Whatever reads them then
finds at once what it would have found by going into them: a cell that resolves
lies on no cycle, so that no other value and no failure is met before. Writing a
resolved region back over its rectangle changes the outcome of nothing.
-/

namespace Worksheet

variable {grid before after : Grid} {path : List Cell} {topLeft bottomRight start : Cell}
  {region : Region} {m n : Nat} {v : Value}

namespace Region.Filled

theorem rectangular (h : region.Filled m n) (hn : m = 0 → n = 0) :
    Block.Rectangular region.toRows m n where
  length := by simp [toRows, h.rows]
  width row hrow := by
    obtain ⟨i, hi, rfl⟩ := List.mem_map.mp hrow
    exact h.length_row (by simpa [h.rows] using hi)
  empty := hn

theorem entryAt_toRows {i j : Nat} (h : region.Filled m n) (hi : i < m) (hj : j < n) :
    Block.EntryAt region.toRows i j v ↔ region.values[i * n + j]? = some v := by
  simp [Block.EntryAt, h.getElem?_toRows hi, h.getElem?_row hi hj]

end Region.Filled

namespace Grid

/-- Rows that fit are laid over the grid. -/
theorem write_eq_overlay {rows : List (List Value)}
    (h : Block.Rectangular rows (m + 1) (n + 1)) (hstart : grid.InBounds start)
    (hlast : grid.InBounds (start.offset m n)) :
    ∃ block : Block Value, grid.write start rows = .ok (grid.overlay start block) ∧
      block.rows = m + 1 ∧ block.columns = n + 1 ∧
      ∀ i j v, Block.EntryAt rows i j v ↔ block.get? ⟨(i : Nat), (j : Nat)⟩ = some v := by
  obtain ⟨block, hblock, hrows, hcolumns, rfl⟩ := h.exists_ofRows
  refine ⟨block, ?_, hrows, hcolumns, fun i j v => Block.entryAt_toRows⟩
  have hfull : ¬ block.isEmpty = true := by simp [Block.isEmpty, hrows, hcolumns]
  have hcorner : start.offset (block.rows - 1) (block.columns - 1) = start.offset m n := by
    simp [hrows, hcolumns]
  rw [write, hblock, Except.ok_bind, if_neg hfull, checkFit, hcorner,
    checkBounds_eq_ok_iff.mpr hstart, Except.ok_bind, checkBounds_eq_ok_iff.mpr hlast]
  rfl

/-- Each cell holds what it held before, or what it resolved to. -/
structure Frozen (before after : Grid) : Prop where
  rows : after.rows = before.rows
  columns : after.columns = before.columns
  stored : ∀ c, after.get? c = before.get? c ∨ ∃ value, after.get? c = some (.simple value) ∧
    (Value.reference c).resolve before = .ok value

theorem inBounds_of_resolve {c : Cell} {value : Simple}
    (h : (Value.reference c).resolve grid = .ok value) : grid.InBounds c := by
  rw [Value.resolve_eq_evaluate] at h
  exact (Value.of_evaluate_eq_ok h (.direct (by simp))).1

theorem ordered_of_resolveRegion (h : grid.resolveRegion topLeft bottomRight = .ok region) :
    grid.InBounds topLeft ∧ grid.InBounds bottomRight ∧ topLeft.row ≤ bottomRight.row ∧
      topLeft.column ≤ bottomRight.column := by
  unfold resolveRegion at h
  obtain ⟨_, htop, h⟩ := Except.bind_eq_ok_iff.mp h
  obtain ⟨_, hbottom, h⟩ := Except.bind_eq_ok_iff.mp h
  rw [Except.mapError_eq_ok_iff, checkBounds_eq_ok_iff] at htop hbottom
  by_cases hordered : bottomRight.row < topLeft.row ∨ bottomRight.column < topLeft.column
  · rw [if_pos hordered] at h
    cases h
  · exact ⟨htop, hbottom, by omega, by omega⟩

/-- A resolved region fits where it comes from, and freezes the cells there. -/
theorem exists_frozen_write (h : grid.resolveRegion topLeft bottomRight = .ok region) :
    ∃ after, grid.write topLeft region.toRows = .ok after ∧ grid.Frozen after := by
  obtain ⟨htop, hbottom, hrows, hcolumns⟩ := ordered_of_resolveRegion h
  obtain ⟨m, n, hm, hn, hfilled, hvalues⟩ :=
    filled_of_resolveRegion htop hbottom hrows hcolumns h
  obtain ⟨k, rfl⟩ : ∃ k, m = k + 1 := ⟨m - 1, by omega⟩
  obtain ⟨l, rfl⟩ : ∃ l, n = l + 1 := ⟨n - 1, by omega⟩
  have hlast : topLeft.offset k l = bottomRight := by
    obtain ⟨r, c⟩ := bottomRight
    simp only [Cell.offset, Cell.mk.injEq] at hm hn ⊢
    omega
  obtain ⟨block, hwrite, hheight, hwidth, hentry⟩ :=
    write_eq_overlay (hfilled.rectangular (by simp)) htop (hlast ▸ hbottom)
  refine ⟨_, hwrite, rfl, rfl, fun c => ?_⟩
  rw [get?_overlay]
  cases hplace : block.get? (c.offset (-topLeft.row) (-topLeft.column)) with
  | none => exact .inl (by cases grid.get? c <;> rfl)
  | some w =>
      obtain ⟨hr, hr', hc, hc'⟩ : block.InBounds (c.offset (-topLeft.row) (-topLeft.column)) :=
        Block.get?_isSome_iff.mp (by simp [hplace])
      simp only [Cell.offset, hheight, hwidth] at hplace hr hr' hc hc'
      obtain ⟨i, hi⟩ := Int.eq_ofNat_of_zero_le hr
      obtain ⟨j, hj⟩ := Int.eq_ofNat_of_zero_le hc
      have hi' : i < k + 1 := by omega
      have hj' : j < l + 1 := by omega
      have hcell : topLeft.offset i j = c := by
        obtain ⟨r, s⟩ := c
        simp only [Cell.offset, Cell.mk.injEq] at hi hj ⊢
        omega
      rw [hi, hj, ← hentry, hfilled.entryAt_toRows hi' hj'] at hplace
      obtain ⟨value, hvalue, hstored⟩ := hvalues i hi' j hj'
      obtain rfl : w = .simple value := Option.some.inj (hplace.symm.trans hstored)
      rw [hcell] at hvalue
      obtain ⟨v, hv⟩ := Option.isSome_iff_exists.mp
        (Block.get?_isSome_iff.mpr (inBounds_of_resolve hvalue))
      exact .inr ⟨value, by rw [hv]; rfl, hvalue⟩

end Grid

namespace Value

/-- What a frozen cell holds is what would be found inside any path that leads to it. -/
theorem evaluate_of_frozen (h : before.Frozen after) (hv : v.Continues before path) :
    v.evaluate after path = v.evaluate before path := by
  induction path, v using evaluate_induction before with
  | simple path value => simp
  | outside path c hc =>
      rcases h.stored c with hsame | ⟨value, -, hvalue⟩
      · rw [evaluate_outside hc, evaluate_outside (hsame.trans hc),
          Grid.outside_congr h.rows h.columns]
      · rw [resolve_eq_evaluate, evaluate_outside hc] at hvalue
        cases hvalue
  | cycle path c v hc hmem =>
      rcases h.stored c with hsame | ⟨value, hstored, -⟩
      · rw [evaluate_cycle hc hmem, evaluate_cycle (hsame.trans hc) hmem]
      · rw [evaluate_cycle hc hmem, evaluate_cycle hstored hmem]
  | enter path c v hc hmem ih =>
      rcases h.stored c with hsame | ⟨value, hstored, hvalue⟩
      · rw [evaluate_enter hc hmem, evaluate_enter (hsame.trans hc) hmem]
        exact ih (hv.stored hc)
      · rw [resolve_eq_evaluate] at hvalue
        rw [evaluate_enter hstored hmem, evaluate_simple,
          evaluate_eq_ok_of_isTrail hvalue hv.isTrail]
  | call path function operands ih =>
      rw [evaluate_call, evaluate_call,
        evaluateEach_congr fun w hw => ih w hw (hv.operand hw)]

theorem resolve_of_frozen (h : before.Frozen after) (v : Value) :
    v.resolve after = v.resolve before := by
  rw [resolve_eq_evaluate, resolve_eq_evaluate, evaluate_of_frozen h continues_nil]

end Value

namespace Grid

theorem resolve_eq_of_frozen (h : before.Frozen after) (c : Cell) :
    after.resolve c = before.resolve c := by
  have hbounds : after.checkBounds c = before.checkBounds c := by
    have hiff : after.InBounds c ↔ before.InBounds c := by
      simp only [Block.InBounds, h.rows, h.columns]
    by_cases hc : before.InBounds c
    · rw [checkBounds_eq_ok_iff.mpr hc, checkBounds_eq_ok_iff.mpr (hiff.mpr hc)]
    · rw [checkBounds, checkBounds, if_neg hc, if_neg (hiff.not.mpr hc),
        outside_congr h.rows h.columns]
  rw [resolve, resolve, hbounds, Value.resolve_of_frozen h]

/-- A resolved region can be written back over its rectangle. Every value then has
the same outcome as before, and so has every cell of the grid. -/
theorem resolve_write_region (h : grid.resolveRegion topLeft bottomRight = .ok region) :
    ∃ after, grid.write topLeft region.toRows = .ok after ∧
      (∀ v : Value, v.resolve after = v.resolve grid) ∧
      ∀ c, after.resolve c = grid.resolve c := by
  obtain ⟨after, hwrite, hfrozen⟩ := exists_frozen_write h
  exact ⟨after, hwrite, Value.resolve_of_frozen hfrozen, resolve_eq_of_frozen hfrozen⟩

/-- The copy is frozen and the loop beside it is not touched. -/
theorem resolve_write_copyBesideLoop :
    ∃ region after, copyBesideLoop.resolveRegion ⟨0, 1⟩ ⟨0, 1⟩ = .ok region ∧
      copyBesideLoop.write ⟨0, 1⟩ region.toRows = .ok after ∧
      after.get? ⟨0, 1⟩ = some (.simple (.integer ⟨1, by decide⟩)) ∧
      (Value.call "ADD" [.reference ⟨0, 1⟩, .reference ⟨0, 2⟩]).resolve after =
        .error (.cycle [⟨0, 2⟩, ⟨0, 2⟩]) := by
  have hregion : copyBesideLoop.resolveRegion ⟨0, 1⟩ ⟨0, 1⟩ =
      .ok ⟨[.simple (.integer ⟨1, by decide⟩)], 1, 1⟩ := by cbv
  obtain ⟨after, hwrite, hresolve, -⟩ := resolve_write_region hregion
  refine ⟨_, after, hregion, hwrite, ?_, ?_⟩
  · obtain rfl := Except.ok.inj (hwrite.symm.trans (by cbv))
    cbv
  · rw [hresolve]
    cbv

end Grid

end Worksheet
