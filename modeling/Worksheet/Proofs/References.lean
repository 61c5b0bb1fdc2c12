import Worksheet.Value.References

/-!
# References and occurrences

The cells that a value reads are those that occur in its tree. A call reads
what its operands read.
-/

namespace Worksheet.Value

@[simp] theorem occurrencesEach_append (vs ws : List Value) :
    occurrencesEach (vs ++ ws) = occurrencesEach vs ++ occurrencesEach ws := by
  induction vs with
  | nil => simp [occurrencesEach]
  | cons v vs ih => simp [occurrencesEach, ih]

theorem mem_collect {seen : CellSet} {stack : List Value} {cell : Cell} :
    cell ∈ collect seen stack ↔ cell ∈ occurrencesEach stack ∧ cell ∉ seen := by
  induction seen, stack using collect.induct with
  | case1 seen => simp [collect, occurrencesEach]
  | case2 seen value stack ih => simp [collect, occurrencesEach, occurrences, ih]
  | case3 seen c stack hc ih =>
      simp only [collect, hc, if_true, occurrencesEach, occurrences, ih, List.cons_append,
        List.nil_append, List.mem_cons]
      constructor
      · exact fun h => ⟨.inr h.1, h.2⟩
      · rintro ⟨rfl | h, hcell⟩
        · exact absurd hc hcell
        · exact ⟨h, hcell⟩
  | case4 seen c stack hc ih =>
      simp only [collect, if_neg hc, occurrencesEach, occurrences, ih, List.mem_cons,
        List.cons_append, List.nil_append, Std.ExtTreeSet.mem_insert,
        Std.LawfulEqOrd.compare_eq_iff_eq, not_or]
      rw [← Std.ExtTreeSet.mem_iff_contains] at hc
      by_cases h : cell = c
      · simp [h, hc]
      · simp [h, Ne.symm h]
  | case5 seen function operands stack ih =>
      simp [collect, occurrencesEach, occurrences, ih]

theorem mem_references {v : Value} {cell : Cell} :
    cell ∈ v.references ↔ cell ∈ v.occurrences := by
  simp [references, mem_collect, occurrencesEach]

theorem mem_occurrencesEach {vs : List Value} {cell : Cell} :
    cell ∈ occurrencesEach vs ↔ ∃ v ∈ vs, cell ∈ v.occurrences := by
  induction vs with
  | nil => simp [occurrencesEach]
  | cons v vs ih => simp [occurrencesEach, ih]

/-- Leaving repetitions out does not change which cell is met first. -/
theorem find?_collect (p : Cell → Bool) (seen : CellSet) (stack : List Value) :
    (collect seen stack).find? p =
      (occurrencesEach stack).find? fun cell => p cell && !seen.contains cell := by
  induction seen, stack using collect.induct with
  | case1 seen => simp [collect, occurrencesEach]
  | case2 seen value stack ih => simp [collect, occurrencesEach, occurrences, ih]
  | case3 seen c stack hc ih => simp [collect, hc, occurrencesEach, occurrences, ih]
  | case4 seen c stack hc ih =>
      have hnew : seen.contains c = false := Bool.eq_false_iff.mpr hc
      simp only [collect, hnew, Bool.false_eq_true, if_false, occurrencesEach, occurrences,
        List.cons_append, List.nil_append, List.find?_cons, Bool.not_false, Bool.and_true, ih]
      cases hp : p c with
      | true => rfl
      | false =>
          -- What makes the cell seen from here on is no hit either way.
          have hsame : ∀ d, (p d && !(seen.insert c).contains d) = (p d && !seen.contains d) := by
            intro d
            by_cases hd : c = d
            · rw [← hd, hp, Bool.false_and, Bool.false_and]
            · have hne : (compare c d == .eq) = false := by
                simpa [Std.LawfulEqOrd.compare_eq_iff_eq] using hd
              rw [Std.ExtTreeSet.contains_insert, hne, Bool.false_or]
          simp only [hsame]
  | case5 seen function operands stack ih =>
      simp [collect, occurrencesEach, occurrences, ih]

theorem find?_references (p : Cell → Bool) (v : Value) :
    v.references.find? p = v.occurrences.find? p := by
  simp [references, find?_collect, occurrencesEach]

@[simp] theorem references_simple (value : Simple) : (Value.simple value).references = [] := by
  simp [references, collect]

@[simp] theorem mem_references_reference {c cell : Cell} :
    cell ∈ (Value.reference c).references ↔ cell = c := by
  simp [mem_references, occurrences]

@[simp] theorem mem_references_call {function : String} {operands : List Value} {cell : Cell} :
    cell ∈ (Value.call function operands).references ↔ ∃ v ∈ operands, cell ∈ v.references := by
  simp [mem_references, occurrences, mem_occurrencesEach]

end Worksheet.Value
