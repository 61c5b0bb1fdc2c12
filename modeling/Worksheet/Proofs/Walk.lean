import Mathlib
import Worksheet.Proofs.Known

/-!
# The walk behind the references

The references of a value are gathered with a stack. The value on top is taken off; a cell that
has not been seen is noted, and the operands of a call are put back on the stack, the first of
them on top. The walk takes one step for each node of the value and then stops. What it has
found are the references in the tree from left to right, each where it is met first, and a call
reads what its operands read, in their order.
-/

namespace Worksheet

section Repetitions

variable {α : Type} [BEq α] [LawfulBEq α] {x : α} {xs ys : List α}

/-- It does not matter whether repetitions or the elements without a property go first. -/
theorem eraseDups_filter (p : α → Bool) (xs : List α) :
    (xs.filter p).eraseDups = xs.eraseDups.filter p := by
  induction hlength : xs.length using Nat.strong_induction_on generalizing xs with
  | h n ih =>
      subst hlength
      cases xs with
      | nil => simp
      | cons x xs =>
          have hrest := ih _ (Nat.lt_succ_of_le (List.length_filter_le _ _))
            (xs.filter fun y => !y == x) rfl
          have hcomm : (xs.filter p).filter (fun y => !y == x) =
              (xs.filter fun y => !y == x).filter p := List.filter_comm _ _ _
          by_cases hx : p x
          · rw [List.filter_cons_of_pos hx, List.eraseDups_cons, List.eraseDups_cons,
              List.filter_cons_of_pos hx, hcomm, hrest]
          · -- The first element goes, and with it all that are equal to it.
            have hall : xs.filter p = (xs.filter fun y => !y == x).filter p := by
              rw [List.filter_filter]
              refine List.filter_congr fun y _ => ?_
              by_cases hy : y = x
              · simp [hy, hx]
              · simp [hy]
            rw [List.filter_cons_of_neg hx, List.eraseDups_cons, List.filter_cons_of_neg hx,
              hall, hrest]

theorem eraseDups_eq_self (h : xs.Nodup) : xs.eraseDups = xs := by
  induction xs with
  | nil => simp
  | cons x xs ih =>
      obtain ⟨hx, hxs⟩ := List.nodup_cons.mp h
      have hall : xs.filter (fun y => !y == x) = xs :=
        List.filter_eq_self.mpr fun y hy => by
          have hne : y ≠ x := fun heq => hx (heq ▸ hy)
          simp [hne]
      rw [List.eraseDups_cons, hall, ih hxs]

theorem eraseDups_append_congr {others more : List α} (hxs : xs.eraseDups = others.eraseDups)
    (hys : ys.eraseDups = more.eraseDups) : (xs ++ ys).eraseDups = (others ++ more).eraseDups := by
  have hmem : ∀ y, List.elem y xs = List.elem y others := fun y => by
    rw [Bool.eq_iff_iff, List.elem_iff, List.elem_iff, ← List.mem_eraseDups, hxs,
      List.mem_eraseDups]
  rw [List.eraseDups_append, List.eraseDups_append, List.removeAll, List.removeAll,
    eraseDups_filter, eraseDups_filter, hxs, hys]
  simp only [hmem]

/-- One more element in front moves all other first places alike. -/
theorem pairwise_idxOf_cons (hx : x ∉ ys)
    (h : ys.Pairwise fun y z => xs.idxOf y < xs.idxOf z) :
    ys.Pairwise fun y z => (x :: xs).idxOf y < (x :: xs).idxOf z := by
  refine h.imp_of_mem fun {y z} hy hz hlt => ?_
  have hne : ∀ y ∈ ys, x ≠ y := fun y hy heq => hx (heq ▸ hy)
  rw [List.idxOf_cons_ne _ (hne y hy), List.idxOf_cons_ne _ (hne z hz)]
  exact Nat.succ_lt_succ hlt

end Repetitions

namespace Value

variable {v : Value} {vs : List Value} {cell : Cell}

/-! ## What is met first -/

/-- The cells that are collected are met for the first time in this order. -/
theorem pairwise_collect (seen : CellSet) (stack : List Value) :
    (collect seen stack).Pairwise fun c d =>
      (occurrencesEach stack).idxOf c < (occurrencesEach stack).idxOf d := by
  induction seen, stack using collect.induct with
  | case1 seen => simp [collect]
  | case2 seen value stack ih => simpa [collect, occurrencesEach, occurrences] using ih
  | case3 seen c stack hc ih =>
      have hc' : c ∉ collect seen stack := fun h => (mem_collect.mp h).2 hc
      rw [collect, if_pos hc]
      exact pairwise_idxOf_cons hc' ih
  | case4 seen c stack hc ih =>
      have hc' : c ∉ collect (seen.insert c) stack := fun h =>
        (mem_collect.mp h).2 (CellSet.mem_insert_iff.mpr (.inl rfl))
      rw [collect, if_neg hc, List.pairwise_cons]
      refine ⟨fun d hd => ?_, pairwise_idxOf_cons hc' ih⟩
      have hne : c ≠ d := fun heq => hc' (heq ▸ hd)
      simp [occurrencesEach, occurrences, List.idxOf_cons_ne _ hne]
  | case5 seen function operands stack ih => simpa [collect, occurrencesEach, occurrences] using ih

theorem nodup_references (v : Value) : v.references.Nodup :=
  (pairwise_collect ∅ [v]).imp fun hlt heq => by simp [heq] at hlt

theorem collect_eq_eraseDups (seen : CellSet) (stack : List Value) :
    collect seen stack =
      ((occurrencesEach stack).filter fun c => !seen.contains c).eraseDups := by
  induction seen, stack using collect.induct with
  | case1 seen => simp [collect, occurrencesEach]
  | case2 seen value stack ih => simpa [collect, occurrencesEach, occurrences] using ih
  | case3 seen c stack hc ih => simpa [collect, hc, occurrencesEach, occurrences] using ih
  | case4 seen c stack hc ih =>
      -- To have seen `c` as well leaves out what is equal to `c`, as `eraseDups` does.
      have hinsert : ((occurrencesEach stack).filter fun d => !(seen.insert c).contains d) =
          ((occurrencesEach stack).filter fun d => !seen.contains d).filter fun d => !d == c := by
        rw [List.filter_filter]
        refine List.filter_congr fun d _ => ?_
        rw [Bool.eq_iff_iff, Bool.and_eq_true]
        simp only [Bool.not_eq_true', ← Bool.not_eq_true, Std.ExtTreeSet.contains_iff_mem,
          CellSet.mem_insert_iff, beq_iff_eq, not_or]
      rw [collect, if_neg hc, ih, hinsert]
      simp [occurrencesEach, occurrences, hc, List.eraseDups_cons]
  | case5 seen function operands stack ih => simpa [collect, occurrencesEach, occurrences] using ih

theorem references_eq_eraseDups (v : Value) : v.references = v.occurrences.eraseDups := by
  simp [references, collect_eq_eraseDups, occurrencesEach]

theorem eraseDups_flatMap_references (vs : List Value) :
    (vs.flatMap references).eraseDups = (occurrencesEach vs).eraseDups := by
  induction vs with
  | nil => simp [occurrencesEach]
  | cons v vs ih =>
      rw [List.flatMap_cons, occurrencesEach]
      refine eraseDups_append_congr ?_ ih
      rw [eraseDups_eq_self (nodup_references v), references_eq_eraseDups]

theorem references_reference (cell : Cell) : (Value.reference cell).references = [cell] := by
  simp [references, collect]

/-- A call reads what its operands read, from left to right, each cell where it comes first. -/
theorem references_call (name : String) (operands : List Value) :
    (Value.call name operands).references = (operands.flatMap references).eraseDups := by
  rw [eraseDups_flatMap_references, references_eq_eraseDups, occurrences]

theorem mem_references_iff_contains : cell ∈ v.references ↔ v.Contains (.reference cell) := by
  induction v using operand_induction with
  | simple value => simp [contains_simple_iff]
  | reference c => simp [contains_reference_iff]
  | call name operands ih =>
      simp only [mem_references_call, contains_call_iff, reduceCtorEq, false_or]
      exact exists_congr fun v => and_congr_right fun hv => ih v hv

@[simp] theorem sizeEach_reverse (vs : List Value) : sizeEach vs.reverse = sizeEach vs := by
  induction vs with
  | nil => rfl
  | cons v vs ih =>
      simp only [List.reverse_cons, sizeEach_append, sizeEach, ih]
      omega

theorem sizeEach_eq_zero_iff : sizeEach vs = 0 ↔ vs = [] := by
  cases vs with
  | nil => simp [sizeEach]
  | cons v vs =>
      have hpos := size_pos v
      simp only [sizeEach, reduceCtorEq, iff_false]
      omega

/-! ## The walk -/

/-- What has been found, the same cells as a set, and the values that are still to be looked
at. The top of the stack is at its end. -/
structure Walk where
  found : List Cell
  seen : CellSet
  stack : List Value

namespace Walk

def start (v : Value) : Walk :=
  ⟨[], ∅, [v]⟩

/-- What becomes of a value that has been taken off the stack. -/
def look (w : Walk) : Value → Walk
  | .simple _ => w
  | .reference cell =>
      if w.seen.contains cell then w
      else { w with found := w.found ++ [cell], seen := w.seen.insert cell }
  | .call _ operands => { w with stack := w.stack ++ operands.reverse }

/-- Takes the value on top of the stack; where there is none the walk has come to its end. -/
def next (w : Walk) : Walk :=
  match w.stack.getLast? with
  | some v => { w with stack := w.stack.dropLast }.look v
  | none => w

def nodesLeft (w : Walk) : Nat :=
  sizeEach w.stack

/-- What will have been found when nothing is left. -/
def outcome (w : Walk) : List Cell :=
  w.found ++ collect w.seen w.stack.reverse

variable {w : Walk}

theorem next_of_nil (h : w.stack = []) : w.next = w := by
  simp [next, h]

theorem next_concat (found : List Cell) (seen : CellSet) (stack : List Value) (v : Value) :
    next ⟨found, seen, stack ++ [v]⟩ = look ⟨found, seen, stack⟩ v := by
  simp [next]

/-- Each step takes one node away. -/
theorem nodesLeft_next (w : Walk) : w.next.nodesLeft = w.nodesLeft - 1 := by
  obtain ⟨found, seen, stack⟩ := w
  induction stack using List.reverseRecOn with
  | nil => simp [next_of_nil, nodesLeft, sizeEach]
  | append_singleton stack v _ =>
      rw [next_concat]
      cases v with
      | simple value => simp [look, nodesLeft, sizeEach, size]
      | reference cell =>
          simp only [look]
          split <;> simp [nodesLeft, sizeEach, size]
      | call name operands => simp [look, nodesLeft, sizeEach, size]

/-- No step changes what will be found: the operands lie on the stack in their order. -/
theorem outcome_next (w : Walk) : w.next.outcome = w.outcome := by
  obtain ⟨found, seen, stack⟩ := w
  induction stack using List.reverseRecOn with
  | nil => simp [next_of_nil]
  | append_singleton stack v _ =>
      rw [next_concat]
      cases v with
      | simple value => simp [look, outcome, collect]
      | reference cell =>
          simp only [look]
          split
          next hseen => simp [outcome, collect, hseen]
          next hseen => simp [outcome, collect, hseen]
      | call name operands => simp [look, outcome, collect]

theorem nodesLeft_iterate (w : Walk) (n : Nat) : (next^[n] w).nodesLeft = w.nodesLeft - n := by
  induction n with
  | zero => rfl
  | succ n ih =>
      rw [Function.iterate_succ_apply', nodesLeft_next, ih]
      omega

theorem outcome_iterate (w : Walk) (n : Nat) : (next^[n] w).outcome = w.outcome := by
  induction n with
  | zero => rfl
  | succ n ih => rw [Function.iterate_succ_apply', outcome_next, ih]

theorem stack_iterate_eq_nil_iff (w : Walk) (n : Nat) :
    (next^[n] w).stack = [] ↔ w.nodesLeft ≤ n := by
  rw [← sizeEach_eq_zero_iff, ← nodesLeft, nodesLeft_iterate, Nat.sub_eq_zero_iff_le]

theorem found_eq_outcome (h : w.stack = []) : w.found = w.outcome := by
  simp [outcome, h, collect]

end Walk

/-- The walk stops after exactly as many steps as the value has nodes, with the references of
the value. These are the cells referred to anywhere in its tree, each once and in the order in
which they are first met from left to right: the tree without its repetitions, which for a call
is what its operands read, put together without repetitions. -/
theorem walk_references (v : Value) :
    (∀ n, (Walk.next^[n] (.start v)).stack = [] ↔ v.size ≤ n) ∧
    (Walk.next^[v.size] (.start v)).found = v.references ∧
    (∀ cell, cell ∈ v.references ↔ v.Contains (.reference cell)) ∧
    v.references.Nodup ∧
    (v.references.Pairwise fun c d => v.occurrences.idxOf c < v.occurrences.idxOf d) ∧
    v.references = v.occurrences.eraseDups ∧
    (∀ value, (Value.simple value).references = []) ∧
    (∀ cell, (Value.reference cell).references = [cell]) ∧
    ∀ name operands,
      (Value.call name operands).references = (operands.flatMap references).eraseDups := by
  have hstops : ∀ n, (Walk.next^[n] (.start v)).stack = [] ↔ v.size ≤ n := fun n => by
    rw [Walk.stack_iterate_eq_nil_iff]
    simp [Walk.start, Walk.nodesLeft, sizeEach]
  have hfound : (Walk.next^[v.size] (.start v)).found = v.references := by
    rw [Walk.found_eq_outcome ((hstops v.size).mpr (Nat.le_refl _)), Walk.outcome_iterate]
    simp [Walk.start, Walk.outcome, references]
  have horder := pairwise_collect ∅ [v]
  simp only [occurrencesEach, List.append_nil] at horder
  exact ⟨hstops, hfound, fun _ => mem_references_iff_contains, nodup_references v, horder,
    references_eq_eraseDups v, references_simple, references_reference, references_call⟩

end Value

end Worksheet
