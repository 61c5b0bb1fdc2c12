import Worksheet.Proofs.Block
import Worksheet.Proofs.Resolution

/-!
# Overwriting with simple values

To overwrite cells with simple values takes references away and adds none. What
has resolved before still reads cells of the grid only, meets no cycle and
calls known functions on as many operands; it can come to fail by what the
operands are, and by nothing else.
-/

namespace Worksheet

/-- One grid comes from another by writing simple values into the given cells. -/
structure Grid.Overwritten (changed : List Cell) (before after : Grid) : Prop where
  written : Block.WrittenAt changed before after
  simple : ∀ c ∈ changed, ∀ v, after.get? c = some v → v.isSimple

variable {before after : Grid} {changed path path' : List Cell} {cell : Cell} {v : Value}
  {value : Simple} {failure : Failure}

/-- An overwritten cell of the grid holds a simple value. -/
theorem Grid.Overwritten.exists_simple (h : Grid.Overwritten changed before after)
    (hchanged : cell ∈ changed) (hcell : before.InBounds cell) :
    ∃ value, after.get? cell = some (.simple value) := by
  have hafter : after.InBounds cell := by
    unfold Block.InBounds at hcell ⊢
    rw [h.written.rows, h.written.columns]
    exact hcell
  obtain ⟨v, hv⟩ := Option.isSome_iff_exists.mp (Block.get?_isSome_iff.mpr hafter)
  have hsimple : v.isSimple := h.simple cell hchanged v hv
  cases v with
  | simple value => exact ⟨value, hv⟩
  | call function operands => simp [Value.isSimple] at hsimple
  | reference c => simp [Value.isSimple] at hsimple

namespace Value

/-- An overwritten cell resolves to what it holds. -/
theorem evaluate_of_overwritten (h : Grid.Overwritten changed before after)
    (hchanged : cell ∈ changed) (hcell : before.InBounds cell) (hpath : cell ∉ path) :
    ∃ value, (Value.reference cell).evaluate after path = .ok value := by
  obtain ⟨value, hvalue⟩ := h.exists_simple hchanged hcell
  exact ⟨value, (evaluate_enter hvalue hpath).trans (evaluate_simple value)⟩

/-- A value that has been found before fails by the operands of a call only. -/
theorem isOperand_of_evaluate (h : Grid.Overwritten changed before after)
    (hvalue : v.evaluate before path = .ok value)
    (hpath : ∀ c, v.Reaches before c → c ∉ path')
    (hfail : v.evaluate after path' = .error failure) : failure.isOperand := by
  induction path, v using evaluate_induction before generalizing value path' failure with
  | simple path x => simp at hfail
  | outside path c hc => simp [evaluate_outside hc] at hvalue
  | cycle path c v hc hmem => simp [evaluate_cycle hc hmem] at hvalue
  | enter path c v hc hmem ih =>
      rw [evaluate_enter hc hmem] at hvalue
      have hnot : c ∉ path' := hpath c (.direct (by simp))
      by_cases hchanged : c ∈ changed
      · -- An overwritten cell holds its result, and does not fail at all.
        have hcell : before.InBounds c := Block.get?_isSome_iff.mp (by simp [hc])
        obtain ⟨x, hx⟩ := evaluate_of_overwritten h hchanged hcell hnot
        simp [hx] at hfail
      · have hkept : after.get? c = some v := (h.written.stored c hchanged).trans hc
        rw [evaluate_enter hkept hnot] at hfail
        refine ih hvalue (fun d hd => ?_) hfail
        have hne : d ∉ c :: path := (of_evaluate_eq_ok hvalue hd).2.1
        have hmem' : d ∉ path' := hpath d (hd.of_stored hc)
        simp only [List.mem_cons, not_or] at hne ⊢
        exact ⟨hne.1, hmem'⟩
  | call path function operands ih =>
      rw [evaluate_call, Except.bind_eq_ok_iff] at hvalue
      rw [evaluate_call, Except.bind_eq_error_iff] at hfail
      obtain ⟨values, hvalues, happly⟩ := hvalue
      rcases hfail with hfail | ⟨values', hvalues', hfail⟩
      · obtain ⟨w, hw, hfail⟩ := exists_of_evaluateEach_eq_error hfail
        obtain ⟨x, hx⟩ := exists_of_evaluateEach_eq_ok hvalues w hw
        exact ih w hw hx (fun c hc => hpath c (reaches_call_iff.mpr ⟨w, hw, hc⟩)) hfail
      · have hlength : values'.length = values.length :=
          (length_of_evaluateEach hvalues').trans (length_of_evaluateEach hvalues).symm
        exact Function.isOperand_of_applyNamed happly hlength hfail

theorem isOperand_of_resolve (h : Grid.Overwritten changed before after)
    (hvalue : v.resolve before = .ok value) (hfail : v.resolve after = .error failure) :
    failure.isOperand := by
  rw [resolve_eq_evaluate] at hvalue hfail
  exact isOperand_of_evaluate h hvalue (fun _ _ => List.not_mem_nil) hfail

end Value

end Worksheet
