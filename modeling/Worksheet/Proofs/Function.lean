import Worksheet.Function
import Worksheet.Proofs.Outcome

/-!
# How functions fail

A function fails by its name, by the number or kind of its operands, or by
the number that would result. It never fails by following a reference, and
where it has once been applied to as many operands it fails by these alone.
-/

namespace Worksheet

namespace Failure

/-- Failures of following a reference. -/
def isReading : Failure → Bool
  | .outOfBounds .. => true
  | .cycle _ => true
  | _ => false

/-- Failures of a known function on operands in the right number. -/
def isOperand : Failure → Bool
  | .notConvertible _ => true
  | .notArithmetic _ _ => true
  | .divisionByZero => true
  | .overflow _ => true
  | .undisplayable (.precision _) => true
  | _ => false

theorem isReading_of_isOperand {failure : Failure} (h : failure.isOperand) :
    failure.isReading = false := by
  cases failure <;> simp_all [isOperand, isReading]

/-- The failure is one of operands, and one with a message of its own. -/
structure ByOperands (failure : Failure) : Prop where
  isOperand : failure.isOperand
  raised : failure.raised = failure

end Failure

namespace CommonForm

open Failure (ByOperands)

variable {failure : Failure}

/-- Simple values can be shown in the message, so that no other failure takes its place. -/
theorem byOperands_of_ofValues {a b : Simple}
    (h : ofValues (.simple a) (.simple b) = .error failure) : failure.ByOperands := by
  cases a <;> cases b <;> cases h <;> exact ⟨rfl, rfl⟩

theorem fitsWord_add (m n : Integer) : FitsWord (m.toInt + n.toInt) := by
  have hm := m.inRange
  have hn := n.inRange
  unfold FitsWord
  omega

/-- A floored remainder lies between zero and the divisor. -/
theorem fmod_inRange (m n : Integer) (hn : n.toInt ≠ 0) :
    -2147483648 ≤ m.toInt.fmod n.toInt ∧ m.toInt.fmod n.toInt < 2147483648 := by
  obtain ⟨k, hk⟩ := n
  dsimp only at hn ⊢
  rcases Int.lt_or_gt_of_ne hn with hneg | hpos
  · have hnonneg := Int.fmod_nonneg_of_pos (-m.toInt) (b := -k) (by omega)
    have hlt := Int.fmod_lt_of_pos (-m.toInt) (b := -k) (by omega)
    rw [Int.neg_fmod_neg] at hnonneg hlt
    omega
  · have hnonneg := Int.fmod_nonneg_of_pos m.toInt hpos
    have hlt := Int.fmod_lt_of_pos m.toInt hpos
    omega

theorem fitsWord_fmod (m n : Integer) (hn : n.toInt ≠ 0) : FitsWord (m.toInt.fmod n.toInt) := by
  have hrange := fmod_inRange m n hn
  unfold FitsWord
  omega

theorem overflow_of_ofInt {k : Int} (hk : FitsWord k) (h : Integer.ofInt k = .error failure) :
    failure = .overflow k ∧ ¬ (-2147483648 ≤ k ∧ k < 2147483648) := by
  cases hint : Integer.ofInt? k with
  | some i => simp [Integer.ofInt, hint] at h
  | none =>
      rw [Integer.ofInt_eq_error hint hk] at h
      refine ⟨(Except.error.inj h).symm, fun hrange => ?_⟩
      have hsome := Integer.ofInt?_eq_some_iff (i := ⟨k, hrange⟩).mpr rfl
      exact Option.some_ne_none _ (hsome.symm.trans hint)

theorem byOperands_of_ofInt {n : Int} (hn : FitsWord n) (h : Integer.ofInt n = .error failure) :
    failure.ByOperands := by
  obtain ⟨rfl, -⟩ := overflow_of_ofInt hn h
  exact ⟨rfl, Failure.raised_overflow (Numeral.isWritable_of_fitsWord hn)⟩

theorem byOperands_of_add {form : CommonForm} (h : form.add = .error failure) :
    failure.ByOperands := by
  cases form with
  | integers m n => exact byOperands_of_ofInt (fitsWord_add m n) (Except.map_eq_error_iff.mp h)
  | floats x p y q => cases h

theorem byOperands_of_modulo {form : CommonForm} (h : form.modulo = .error failure) :
    failure.ByOperands := by
  cases form with
  | integers m n =>
      simp only [modulo] at h
      split at h
      · cases h
        exact ⟨rfl, rfl⟩
      next hn =>
          exact byOperands_of_ofInt (fitsWord_fmod m n hn) (Except.map_eq_error_iff.mp h)
  | floats x p y q =>
      simp only [modulo] at h
      split at h <;> cases h
      exact ⟨rfl, rfl⟩

end CommonForm

namespace Function

variable {failure : Failure}

theorem byOperands_of_combine {f : Function} {a b : Simple}
    (h : f.combine a b = .error failure) : failure.ByOperands := by
  have hdisplay : ∀ s : Simple, ∀ e,
      (s.display.mapError fun cause => Failure.undisplayable (.precision cause)) = .error e →
        e.ByOperands := by
    intro s e he
    obtain ⟨cause, -, rfl⟩ := Except.mapError_eq_error_iff.mp he
    exact ⟨rfl, rfl⟩
  cases f with
  | add =>
      rcases Except.bind_eq_error_iff.mp h with h | ⟨form, -, h⟩
      · exact CommonForm.byOperands_of_ofValues h
      · exact CommonForm.byOperands_of_add h
  | concat =>
      rcases Except.bind_eq_error_iff.mp h with h | ⟨first, -, h⟩
      · exact hdisplay a _ h
      · rcases Except.bind_eq_error_iff.mp h with h | ⟨second, -, h⟩
        · exact hdisplay b _ h
        · cases h
  | modulo =>
      rcases Except.bind_eq_error_iff.mp h with h | ⟨form, -, h⟩
      · exact CommonForm.byOperands_of_ofValues h
      · exact CommonForm.byOperands_of_modulo h

theorem raised_of_apply {f : Function} {operands : List Simple}
    (h : f.apply operands = .error failure) : failure.raised = failure := by
  unfold apply at h
  split at h
  · exact (byOperands_of_combine h).raised
  · cases h
    rfl

/-- No function leaves the grid or closes a cycle: only references do. -/
theorem isReading_of_applyNamed {name : String} {operands : List Simple}
    (h : applyNamed name operands = .error failure) : failure.isReading = false := by
  rcases Except.bind_eq_error_iff.mp h with h | ⟨f, -, h⟩
  · unfold named at h
    split at h <;> cases h
    rfl
  · unfold apply at h
    split at h
    · exact Failure.isReading_of_isOperand (byOperands_of_combine h).isOperand
    · cases h
      rfl

theorem apply_eq_ok_iff {f : Function} {operands : List Simple} {value : Simple} :
    f.apply operands = .ok value ↔ ∃ a b, operands = [a, b] ∧ f.combine a b = .ok value := by
  unfold apply
  split
  next a b => simp
  next hother =>
      constructor
      · intro h
        cases h
      · rintro ⟨a, b, rfl, -⟩
        exact (hother a b rfl).elim

theorem named_eq_ok_iff {name : String} {f : Function} :
    named name = .ok f ↔ ofName? name = some f := by
  unfold named
  split <;> simp_all

theorem named_eq_error {name : String} (h : ∀ f : Function, f.name ≠ name) :
    named name = .error (.unknownFunction name) := by
  unfold named
  split
  next f hf => exact absurd (ofName?_eq_some_iff.mp hf) (h f)
  next => rfl

/-- A call that has succeeded can only fail by its operands, if their number stays. -/
theorem isOperand_of_applyNamed {name : String} {operands others : List Simple} {value : Simple}
    (hok : applyNamed name others = .ok value) (hlength : operands.length = others.length)
    (h : applyNamed name operands = .error failure) : failure.isOperand := by
  obtain ⟨f, hf, happly⟩ := Except.bind_eq_ok_iff.mp hok
  obtain ⟨_, _, rfl, -⟩ := apply_eq_ok_iff.mp happly
  obtain ⟨a, b, rfl⟩ := List.length_eq_two.mp hlength
  rw [applyNamed, hf, Except.ok_bind] at h
  exact (byOperands_of_combine h).isOperand

end Function

end Worksheet
