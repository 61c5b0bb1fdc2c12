import Worksheet.Proofs.Function

/-!
# Kinds of operands and results

Every simple value has a kind, which for a float includes its precision. Whether
a function takes two operands, and the kind of what it gives, is decided by
their kinds. Beyond that it fails by what they are: a sum that is too large for
an integer, a divisor of zero, a float that cannot be displayed.
-/

namespace Worksheet

inductive SimpleKind where
  | null
  | integer
  | float (precision : Nat)
  | text
  | dateTime
  deriving DecidableEq, Repr

namespace SimpleKind

/-- The decimal places of a number; an integer has none. -/
def places? : SimpleKind → Option Nat
  | .integer => some 0
  | .float p => some p
  | _ => none

/-- The kind of what comes of calculating with two numbers. -/
def common? : SimpleKind → SimpleKind → Option SimpleKind
  | .integer, .integer => some .integer
  | j, k => do
      let p ← j.places?
      let q ← k.places?
      return .float (max p q)

end SimpleKind

namespace Simple

def kind : Simple → SimpleKind
  | .null => .null
  | .integer _ => .integer
  | .float _ precision => .float precision
  | .text _ => .text
  | .dateTime _ _ => .dateTime

def isZero : Simple → Bool
  | .integer n => n.toInt == 0
  | .float x _ => x.isZero
  | _ => false

end Simple

/-- The operands are not as many as a function asks for, or not of its kinds. -/
def Failure.isInvalidOperands : Failure → Bool
  | .arity .. => true
  | .unresolvedOperand _ _ => true
  | .notConvertible _ => true
  | .notArithmetic _ _ => true
  | _ => false

namespace Function

variable {f : Function} {a b value : Simple} {failure : Failure}

def kind? : Function → SimpleKind → SimpleKind → Option SimpleKind
  | .concat, _, _ => some .text
  | .add, j, k => SimpleKind.common? j k
  | .modulo, j, k => SimpleKind.common? j k

/-- What can go wrong with operands of the right kinds. -/
inductive Faults : Function → Simple → Simple → Failure → Prop where
  | overflow {m n : Integer} :
      ¬ (-2147483648 ≤ m.toInt + n.toInt ∧ m.toInt + n.toInt < 2147483648) →
      Faults .add (.integer m) (.integer n) (.overflow (m.toInt + n.toInt))
  | divisionByZero {a b : Simple} : b.isZero → Faults .modulo a b .divisionByZero
  | undisplayable {a b : Simple} {x : Binary32} {p : Nat} : a = .float x p ∨ b = .float x p →
      PrecisionFault.limit ≤ p → Faults .concat a b (.undisplayable (.precision ⟨p⟩))

end Function

namespace Binary

variable {f : BinaryFormat}

theorem nearestRank_pos {n : Nat} (h : 0 < n) : 0 < f.nearestRank n 1 := by
  unfold BinaryFormat.nearestRank
  cases hscale : (n / 1).log2 - f.fractionBits with
  | zero => simpa using h
  | succ scale =>
      have hbinade := f.binade_pos
      have hpos : 0 < (scale + 1) * f.binade := Nat.mul_pos (Nat.succ_pos scale) hbinade
      dsimp only
      omega

theorem isZero_ofRank {negative : Bool} {rank : Nat} (h : (ofRank negative rank : Binary f).isZero)
    (hcount : 0 < f.finiteCount) : rank = 0 := by
  unfold ofRank at h
  split at h <;> cases negative <;> simp [isZero, place?] at h <;> omega

/-- No integer but zero becomes a zero. -/
theorem eq_zero_of_isZero_ofInt {n : Int} (h : (ofInt n : Binary f).isZero)
    (hcount : 0 < f.finiteCount) : n = 0 := by
  have hrank := isZero_ofRank h hcount
  by_contra hn
  have hpos : 0 < n.natAbs * f.one := Nat.mul_pos (Int.natAbs_pos.mpr hn) f.one_pos
  exact absurd hrank (Nat.ne_of_gt (nearestRank_pos hpos))

end Binary

namespace CommonForm

variable {a b value : Simple} {form : CommonForm} {failure : Failure}

def kind : CommonForm → SimpleKind
  | .integers _ _ => .integer
  | .floats _ p _ q => .float (max p q)

theorem kind_of_ofValues (h : ofValues (.simple a) (.simple b) = .ok form) :
    SimpleKind.common? a.kind b.kind = some form.kind := by
  cases a <;> cases b <;> cases h <;> rfl

theorem isInvalidOperands_of_ofValues (h : ofValues (.simple a) (.simple b) = .error failure) :
    failure.isInvalidOperands ∧ SimpleKind.common? a.kind b.kind = none := by
  cases a <;> cases b <;> cases h <;> exact ⟨rfl, rfl⟩

theorem integers_of_ofValues {m n : Integer}
    (h : ofValues (.simple a) (.simple b) = .ok (.integers m n)) :
    a = .integer m ∧ b = .integer n := by
  cases a <;> cases b <;> cases h
  exact ⟨rfl, rfl⟩

theorem isZero_of_ofValues {x y : Binary32} {p q : Nat}
    (h : ofValues (.simple a) (.simple b) = .ok (.floats x p y q)) (hy : y.isZero) : b.isZero := by
  cases b with
  | integer n =>
      have hn : (Binary.ofInt n.toInt : Binary32).isZero := by
        cases a <;> cases h
        exact hy
      simp [Simple.isZero, Binary.eq_zero_of_isZero_ofInt hn (by decide)]
  | float z r => cases a <;> cases h <;> exact hy
  | null => cases a <;> cases h
  | text s => cases a <;> cases h
  | dateTime s t => cases a <;> cases h

theorem toInt_of_ofInt {k : Int} {r : Integer} (h : Integer.ofInt k = .ok r) : r.toInt = k := by
  unfold Integer.ofInt at h
  split at h
  next hk =>
      obtain rfl := Except.ok.inj h
      exact Integer.ofInt?_eq_some_iff.mp hk
  next => cases h

theorem kind_of_add (h : form.add = .ok value) : value.kind = form.kind := by
  cases form with
  | integers m n =>
      obtain ⟨r, -, rfl⟩ := Except.map_eq_ok_iff.mp h
      rfl
  | floats x p y q =>
      obtain rfl := Except.ok.inj h
      rfl

theorem kind_of_modulo (h : form.modulo = .ok value) : value.kind = form.kind := by
  cases form with
  | integers m n =>
      simp only [modulo] at h
      split at h
      · cases h
      · obtain ⟨r, -, rfl⟩ := Except.map_eq_ok_iff.mp h
        rfl
  | floats x p y q =>
      simp only [modulo] at h
      split at h
      · cases h
      · obtain rfl := Except.ok.inj h
        rfl

end CommonForm

namespace Function

variable {f : Function} {a b value : Simple} {failure : Failure}

/-- What a function gives is of the kind that the kinds of its operands promise. -/
theorem kind?_of_combine (h : f.combine a b = .ok value) :
    f.kind? a.kind b.kind = some value.kind := by
  cases f with
  | add =>
      obtain ⟨form, hform, hvalue⟩ := Except.bind_eq_ok_iff.mp h
      rw [CommonForm.kind_of_add hvalue]
      exact CommonForm.kind_of_ofValues hform
  | concat =>
      obtain ⟨first, -, h⟩ := Except.bind_eq_ok_iff.mp h
      obtain ⟨second, -, h⟩ := Except.bind_eq_ok_iff.mp h
      obtain rfl := Except.ok.inj h
      rfl
  | modulo =>
      obtain ⟨form, hform, hvalue⟩ := Except.bind_eq_ok_iff.mp h
      rw [CommonForm.kind_of_modulo hvalue]
      exact CommonForm.kind_of_ofValues hform

theorem undisplayable_of_display
    (h : (a.display.mapError fun cause => Failure.undisplayable (.precision cause)) =
      .error failure) :
    ∃ x p, a = .float x p ∧ PrecisionFault.limit ≤ p ∧
      failure = .undisplayable (.precision ⟨p⟩) := by
  obtain ⟨cause, hcause, rfl⟩ := Except.mapError_eq_error_iff.mp h
  cases a with
  | float x p =>
      simp only [Simple.display] at hcause
      split at hcause
      · cases hcause
      next hp =>
          obtain rfl := Except.error.inj hcause
          exact ⟨x, p, rfl, Nat.not_lt.mp hp, rfl⟩
  | null => cases hcause
  | integer n => cases hcause
  | text s => cases hcause
  | dateTime s t => cases hcause

theorem faults_of_modulo {form : CommonForm}
    (hform : CommonForm.ofValues (.simple a) (.simple b) = .ok form)
    (h : form.modulo = .error failure) : Faults .modulo a b failure := by
  cases form with
  | integers m n =>
      obtain ⟨rfl, rfl⟩ := CommonForm.integers_of_ofValues hform
      simp only [CommonForm.modulo] at h
      split at h
      next hn =>
          obtain rfl := Except.error.inj h
          exact .divisionByZero (by simpa [Simple.isZero] using hn)
      next hn =>
          obtain ⟨-, hrange⟩ := CommonForm.overflow_of_ofInt (CommonForm.fitsWord_fmod m n hn)
            (Except.map_eq_error_iff.mp h)
          exact absurd (CommonForm.fmod_inRange m n hn) hrange
  | floats x p y q =>
      simp only [CommonForm.modulo] at h
      split at h
      next hy =>
          obtain rfl := Except.error.inj h
          exact .divisionByZero (CommonForm.isZero_of_ofValues hform hy)
      next => cases h

/-- A function fails because its operands have no kind in common, or because of
the numbers that they are. -/
theorem faults_of_combine (h : f.combine a b = .error failure) :
    failure.isInvalidOperands ∧ f.kind? a.kind b.kind = none ∨ f.Faults a b failure := by
  cases f with
  | add =>
      rcases Except.bind_eq_error_iff.mp h with h | ⟨form, hform, h⟩
      · exact .inl (CommonForm.isInvalidOperands_of_ofValues h)
      · cases form with
        | integers m n =>
            obtain ⟨rfl, rfl⟩ := CommonForm.integers_of_ofValues hform
            obtain ⟨rfl, hrange⟩ := CommonForm.overflow_of_ofInt (CommonForm.fitsWord_add m n)
              (Except.map_eq_error_iff.mp h)
            exact .inr (.overflow hrange)
        | floats x p y q => cases h
  | concat =>
      rcases Except.bind_eq_error_iff.mp h with h | ⟨first, -, h⟩
      · obtain ⟨x, p, rfl, hp, rfl⟩ := undisplayable_of_display h
        exact .inr (.undisplayable (.inl rfl) hp)
      · rcases Except.bind_eq_error_iff.mp h with h | ⟨second, -, h⟩
        · obtain ⟨x, p, rfl, hp, rfl⟩ := undisplayable_of_display h
          exact .inr (.undisplayable (.inr rfl) hp)
        · cases h
  | modulo =>
      rcases Except.bind_eq_error_iff.mp h with h | ⟨form, hform, h⟩
      · exact .inl (CommonForm.isInvalidOperands_of_ofValues h)
      · exact .inr (faults_of_modulo hform h)

/-- Integers come of integers only, as their exact sum or floored remainder. -/
theorem integers_of_combine {r : Integer} (h : f.combine a b = .ok (.integer r)) :
    ∃ m n : Integer, a = .integer m ∧ b = .integer n ∧
      (f = .add ∧ r.toInt = m.toInt + n.toInt ∨
        f = .modulo ∧ n.toInt ≠ 0 ∧ r.toInt = m.toInt.fmod n.toInt) := by
  cases f with
  | add =>
      obtain ⟨form, hform, hsum⟩ := Except.bind_eq_ok_iff.mp h
      cases form with
      | integers m n =>
          obtain ⟨rfl, rfl⟩ := CommonForm.integers_of_ofValues hform
          obtain ⟨s, hs, hr⟩ := Except.map_eq_ok_iff.mp hsum
          obtain rfl := Simple.integer.inj hr
          exact ⟨m, n, rfl, rfl, .inl ⟨rfl, CommonForm.toInt_of_ofInt hs⟩⟩
      | floats x p y q => cases hsum
  | concat =>
      obtain ⟨first, -, hrest⟩ := Except.bind_eq_ok_iff.mp h
      obtain ⟨second, -, htext⟩ := Except.bind_eq_ok_iff.mp hrest
      cases htext
  | modulo =>
      obtain ⟨form, hform, hremainder⟩ := Except.bind_eq_ok_iff.mp h
      cases form with
      | integers m n =>
          obtain ⟨rfl, rfl⟩ := CommonForm.integers_of_ofValues hform
          simp only [CommonForm.modulo] at hremainder
          split at hremainder
          next => cases hremainder
          next hn =>
              obtain ⟨s, hs, hr⟩ := Except.map_eq_ok_iff.mp hremainder
              obtain rfl := Simple.integer.inj hr
              exact ⟨m, n, rfl, rfl, .inr ⟨rfl, hn, CommonForm.toInt_of_ofInt hs⟩⟩
      | floats x p y q =>
          simp only [CommonForm.modulo] at hremainder
          split at hremainder <;> cases hremainder

/-- A function fails by two operands or by having more or fewer. -/
theorem apply_eq_error {operands : List Simple} (h : f.apply operands = .error failure) :
    (∃ a b, operands = [a, b] ∧ f.combine a b = .error failure) ∨
      operands.length ≠ 2 ∧ failure.isInvalidOperands := by
  unfold apply at h
  split at h
  next a b => exact .inl ⟨a, b, rfl, h⟩
  next hother =>
      obtain rfl := Except.error.inj h
      refine .inr ⟨fun hlength => ?_, rfl⟩
      obtain ⟨a, b, rfl⟩ := List.length_eq_two.mp hlength
      exact hother a b rfl

end Function

theorem SimpleKind.precision_of_common? {j k : SimpleKind} {p : Nat}
    (h : common? j k = some (.float p)) : p = 0 ∨ j = .float p ∨ k = .float p := by
  cases j <;> cases k <;> simp [common?, places?] at h <;> grind

theorem Simple.exists_float_of_kind {a : Simple} {p : Nat} (h : a.kind = .float p) :
    ∃ x, a = .float x p := by
  cases a with
  | float x q =>
      obtain rfl := SimpleKind.float.inj h
      exact ⟨x, rfl⟩
  | null => cases h
  | integer n => cases h
  | text s => cases h
  | dateTime s t => cases h

/-- The precision of a number is that of one that it was calculated from. -/
theorem Function.precision_of_combine {f : Function} {a b : Simple} {x : Binary32} {p : Nat}
    (h : f.combine a b = .ok (.float x p)) :
    p = 0 ∨ (∃ y, a = .float y p) ∨ ∃ y, b = .float y p := by
  have hcommon : SimpleKind.common? a.kind b.kind = some (.float p) := by
    have hkind := kind?_of_combine h
    cases f with
    | add => exact hkind
    | concat => cases hkind
    | modulo => exact hkind
  rcases SimpleKind.precision_of_common? hcommon with hp | ha | hb
  · exact .inl hp
  · exact .inr (.inl (Simple.exists_float_of_kind ha))
  · exact .inr (.inr (Simple.exists_float_of_kind hb))

end Worksheet
