import Worksheet.Proofs.Kinds
import Worksheet.Proofs.Nearest
import Worksheet.Proofs.Resolution

/-!
# Integers beside floats

An integer that meets a float becomes the nearest float. It stays the same number exactly if it
has no more significant bits than a float has, and else it is rounded without notice. To add a
zero changes nothing further.
-/

namespace Worksheet

open BinaryFormat (single)

namespace BinaryFormat

variable {f : BinaryFormat} {rank : Nat}

theorem value_eq_intCast_iff (k : Int) :
    f.value (decide (k < 0)) rank = k ↔ f.magnitude rank = k.natAbs * f.one := by
  have hunits : f.value (decide (k < 0)) rank = k ↔
      f.signedUnits (decide (k < 0)) rank = k * f.one := by
    rw [value, div_eq_iff (ne_of_gt one_pos')]
    exact_mod_cast Iff.rfl
  rw [hunits]
  rcases lt_or_ge k 0 with hk | hk
  · rw [decide_eq_true hk, signedUnits_true]
    zify
    rw [abs_of_neg hk, neg_mul, neg_eq_iff_eq_neg]
  · rw [decide_eq_false (not_lt.mpr hk), signedUnits_false]
    zify
    rw [abs_of_nonneg hk]

theorem isNearest_intCast (hbits : 0 < f.fractionBits) (k : Int) :
    f.IsNearest k (decide (k < 0)) (f.nearestRank (k.natAbs * f.one) 1) := by
  have hnearest := isNearest_nearestRank hbits (k * f.one)
  have hvalue : ((k * f.one : Int) : ℚ) / f.one = k := by
    rw [Int.cast_mul, Int.cast_natCast, mul_div_cancel_right₀ _ (ne_of_gt one_pos')]
  have hsign : k * f.one < 0 ↔ k < 0 := by
    have hone : (0 : Int) < f.one := Int.natCast_pos.mpr f.one_pos
    exact ⟨fun h => neg_of_mul_neg_left h hone.le, fun h => mul_neg_of_neg_of_pos h hone⟩
  rwa [hvalue, decide_eq_decide.mpr hsign, Int.natAbs_mul, Int.natAbs_natCast] at hnearest

theorem one_single : single.one = 2 ^ 149 := by
  decide +kernel

/-- Of the whole numbers those with no more than twenty-four significant bits are floats. -/
theorem nearestRank_exact_iff (n : Nat) :
    single.magnitude (single.nearestRank (n * single.one) 1) = n * single.one ↔
      ∃ a k, a < 2 ^ 24 ∧ n = a * 2 ^ k := by
  have hbinade : 2 * single.binade = 2 ^ 24 := by decide
  constructor
  · intro h
    obtain ⟨a, e, ha, hmagnitude, -⟩ :=
      exists_eq_magnitude (f := single) (single.nearestRank (n * single.one) 1)
    rw [h, one_single] at hmagnitude
    rw [hbinade] at ha
    rcases Nat.le_total 149 e with hle | hle
    · obtain ⟨k, rfl⟩ := Nat.exists_eq_add_of_le' hle
      refine ⟨a, k, ha, ?_⟩
      rw [Nat.pow_add, ← Nat.mul_assoc] at hmagnitude
      exact Nat.eq_of_mul_eq_mul_right (Nat.two_pow_pos 149) hmagnitude
    · -- The unit is a multiple of the scale, and so the number is no larger than its bits.
      obtain ⟨k, hk⟩ := Nat.exists_eq_add_of_le' hle
      rw [hk, Nat.pow_add, ← Nat.mul_assoc] at hmagnitude
      have ha' := Nat.eq_of_mul_eq_mul_right (Nat.two_pow_pos e) hmagnitude
      refine ⟨n, 0, ?_, by simp⟩
      exact (Nat.le_mul_of_pos_right n (Nat.two_pow_pos k)).trans_lt (ha' ▸ ha)
  · rintro ⟨a, k, ha, rfl⟩
    obtain ⟨rank, -, hrank⟩ := exists_magnitude_eq (f := single) (hbinade ▸ ha) (k + 149)
    have hunits : single.magnitude rank = a * 2 ^ k * single.one := by
      rw [hrank, one_single, Nat.pow_add, Nat.mul_assoc]
    rw [← hunits, nearestRank_magnitude]

end BinaryFormat

namespace Binary

variable {f : BinaryFormat} {s t : Bool} {a b : Fin f.finiteCount}

theorem add_comm_finite : (finite s a : Binary f).add (.finite t b) =
    (finite t b : Binary f).add (.finite s a) := by
  simp only [add, Int.add_comm (f.signedUnits s a), Bool.and_comm s]

/-- The sum of a number and a zero is the number, unless that is a negative zero. -/
theorem add_zero_finite (t : Bool) (h : s = true → (a : Nat) ≠ 0) :
    (finite s a : Binary f).add (zero t) = .finite s a := by
  have hzero : (zero t : Binary f) = .finite t ⟨0, Nat.zero_lt_of_lt a.isLt⟩ :=
    ofRank_eq_finite _
  have hsum : f.signedUnits s a + f.signedUnits t 0 = f.signedUnits s a := by
    cases t <;> simp [BinaryFormat.signedUnits_true, BinaryFormat.signedUnits_false]
  simp only [hzero, add, hsum]
  by_cases ha : (a : Nat) = 0
  · have hs : s = false := Bool.eq_false_iff.mpr fun hs => h hs ha
    have hunits : f.signedUnits s a = 0 := by
      rw [hs, ha, BinaryFormat.signedUnits_false, BinaryFormat.magnitude_zero, Nat.cast_zero]
    rw [if_pos hunits, hs, Bool.false_and, zero, ← ha]
    exact ofRank_eq_finite a.isLt
  · have hunits : f.signedUnits s a ≠ 0 := by
      rw [← Int.natAbs_ne_zero, BinaryFormat.natAbs_signedUnits]
      exact Nat.ne_of_gt (BinaryFormat.magnitude_pos ha)
    rw [if_neg hunits, BinaryFormat.decide_signedUnits_neg ha, BinaryFormat.natAbs_signedUnits,
      ofUnits, BinaryFormat.nearestRank_magnitude, ofRank_eq_finite a.isLt]

/-- An integer becomes the number of the nearest rank, and zero a zero without a sign. -/
theorem exists_ofInt_eq (n : Integer) :
    ∃ rank : Fin single.finiteCount,
      (ofInt n.toInt : Binary32) = .finite (decide (n.toInt < 0)) rank ∧
      (rank : Nat) = single.nearestRank (n.toInt.natAbs * single.one) 1 ∧
      (decide (n.toInt < 0) = true → (rank : Nat) ≠ 0) := by
  have hrange := n.inRange
  have hbound : n.toInt.natAbs * single.one ≤ 1 * 2 ^ 180 * 1 := by
    calc n.toInt.natAbs * single.one ≤ 2 ^ 31 * single.one :=
          Nat.mul_le_mul_right _ (by omega)
      _ = 1 * 2 ^ 180 * 1 := by decide +kernel
  have hfinite : single.nearestRank (n.toInt.natAbs * single.one) 1 < single.finiteCount :=
    (BinaryFormat.nearestRank_lt (by decide) Nat.one_pos hbound).trans_le (by decide)
  refine ⟨⟨_, hfinite⟩, ofRank_eq_finite hfinite, rfl, fun hneg => ?_⟩
  have hn : 0 < n.toInt.natAbs := by
    have := of_decide_eq_true hneg
    omega
  exact Nat.ne_of_gt (nearestRank_pos (Nat.mul_pos hn single.one_pos))

end Binary

theorem CommonForm.ofValues_integer_float (n : Integer) (y : Binary32) (q : Nat) :
    ofValues (.simple (.integer n)) (.simple (.float y q)) =
      .ok (.floats (.ofInt n.toInt) 0 y q) := rfl

theorem CommonForm.ofValues_float_integer (x : Binary32) (p : Nat) (n : Integer) :
    ofValues (.simple (.float x p)) (.simple (.integer n)) =
      .ok (.floats x p (.ofInt n.toInt) 0) := rfl

namespace Value

/-- An integer on either side of a float becomes the nearest float, of no decimal places, and
the sum with a zero resolves to that float. It is the same number exactly if it has no more
than twenty-four significant bits. -/
theorem resolve_add_integer (grid : Grid) (n : Integer) :
    ∃ rank : Fin single.finiteCount,
      (∀ y q, CommonForm.ofValues (.simple (.integer n)) (.simple (.float y q)) =
        .ok (.floats (.finite (decide (n.toInt < 0)) rank) 0 y q)) ∧
      (∀ x p, CommonForm.ofValues (.simple (.float x p)) (.simple (.integer n)) =
        .ok (.floats x p (.finite (decide (n.toInt < 0)) rank) 0)) ∧
      (∀ s p, (Value.call "ADD" [.simple (.integer n), .simple (.float (.zero s) p)]).resolve grid =
        .ok (.float (.finite (decide (n.toInt < 0)) rank) p)) ∧
      (∀ s p, (Value.call "ADD" [.simple (.float (.zero s) p), .simple (.integer n)]).resolve grid =
        .ok (.float (.finite (decide (n.toInt < 0)) rank) p)) ∧
      single.IsNearest n.toInt (decide (n.toInt < 0)) rank ∧
      (single.value (decide (n.toInt < 0)) rank = n.toInt ↔
        ∃ a k, a < 2 ^ 24 ∧ n.toInt.natAbs = a * 2 ^ k) := by
  obtain ⟨rank, hofInt, hrank, hsign⟩ := Binary.exists_ofInt_eq n
  have hzero (s : Bool) : (Binary.zero s : Binary32) = .finite s ⟨0, by decide⟩ :=
    Binary.ofRank_eq_finite _
  have hright (s : Bool) := Binary.add_zero_finite s hsign
  refine ⟨rank, fun y q => ?_, fun x p => ?_, fun s p => ?_, fun s p => ?_, ?_, ?_⟩
  · rw [CommonForm.ofValues_integer_float, hofInt]
  · rw [CommonForm.ofValues_float_integer, hofInt]
  · refine (resolve_call_pair .add _ _ grid).trans ?_
    simp only [Function.combine, CommonForm.ofValues_integer_float, hofInt, Except.ok_bind,
      CommonForm.add, hright, Nat.zero_max]
  · have hleft : (Binary.zero s : Binary32).add (.finite (decide (n.toInt < 0)) rank) =
        .finite (decide (n.toInt < 0)) rank := by
      rw [hzero, Binary.add_comm_finite, ← hzero, hright]
    refine (resolve_call_pair .add _ _ grid).trans ?_
    simp only [Function.combine, CommonForm.ofValues_float_integer, hofInt, Except.ok_bind,
      CommonForm.add, hleft, Nat.max_zero]
  · rw [hrank]
    exact BinaryFormat.isNearest_intCast (by decide) _
  · rw [BinaryFormat.value_eq_intCast_iff, hrank]
    exact BinaryFormat.nearestRank_exact_iff _

/-- The least positive integer that is not a float, 2 ^ 24 + 1, becomes 2 ^ 24 on either side,
and its sum with zero resolves to that. -/
theorem resolve_add_sixteenMillion :
    CommonForm.ofValues (.simple (.integer ⟨16777217, by decide⟩))
        (.simple (.float (.zero false) 0)) =
      .ok (.floats (.finite false ⟨0x4b800000, by decide⟩) 0 (.zero false) 0) ∧
    CommonForm.ofValues (.simple (.float (.zero false) 0))
        (.simple (.integer ⟨16777217, by decide⟩)) =
      .ok (.floats (.zero false) 0 (.finite false ⟨0x4b800000, by decide⟩) 0) ∧
    (Value.call "ADD" [.simple (.integer ⟨16777217, by decide⟩),
        .simple (.float (.zero false) 0)]).resolve Grid.copyBesideLoop =
      .ok (.float (.finite false ⟨0x4b800000, by decide⟩) 0) ∧
    single.value false 0x4b800000 = 16777216 ∧
    single.value false 0x4b800000 ≠ 16777217 := by
  have hofInt : (Binary.ofInt 16777217 : Binary32) = .finite false ⟨0x4b800000, by decide⟩ := by
    decide +kernel
  have hsum : (.finite false ⟨0x4b800000, by decide⟩ : Binary32).add (.zero false) =
      .finite false ⟨0x4b800000, by decide⟩ := by
    decide +kernel
  have hunits : single.magnitude 0x4b800000 = 16777216 * single.one := by
    decide +kernel
  have hvalue : single.value false 0x4b800000 = 16777216 := by
    rw [BinaryFormat.value_false, hunits, Nat.cast_mul,
      mul_div_cancel_right₀ _ (ne_of_gt BinaryFormat.one_pos')]
    norm_num
  refine ⟨?_, ?_, ?_, hvalue, ?_⟩
  · rw [CommonForm.ofValues_integer_float, hofInt]
  · rw [CommonForm.ofValues_float_integer, hofInt]
  · refine (resolve_call_pair .add _ _ _).trans ?_
    simp only [Function.combine, CommonForm.ofValues_integer_float, hofInt, Except.ok_bind,
      CommonForm.add, hsum, Nat.max_self]
  · rw [hvalue]
    norm_num

end Value

end Worksheet
