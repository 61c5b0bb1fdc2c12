import Worksheet.Proofs.Kinds
import Worksheet.Proofs.Nearest
import Worksheet.Proofs.Resolution

/-!
# Remainders of floats

The remainder of two finite floats by a quotient that is cut off is itself a float. A floored
remainder is the same number if that has the sign of the divisor, and else the divisor is added
to it, which is the only step that is rounded. Rounding does not take the sum past zero or past
the divisor, but it can take it to the divisor.
-/

namespace Worksheet

/-! ## Remainders of rational numbers -/

section Rational

variable {x y : ℚ}

/-- A quotient without its fraction. -/
def truncation (q : ℚ) : ℤ :=
  if 0 ≤ q then ⌊q⌋ else ⌈q⌉

/-- What is left of the first number, with its sign. -/
def truncatedRemainder (x y : ℚ) : ℚ :=
  x - truncation (x / y) * y

/-- What is left of the first number, with the sign of the second. -/
def flooredRemainder (x y : ℚ) : ℚ :=
  x - ⌊x / y⌋ * y

theorem truncation_of_nonneg {q : ℚ} (h : 0 ≤ q) : truncation q = ⌊q⌋ :=
  if_pos h

theorem truncation_neg (q : ℚ) : truncation (-q) = -truncation q := by
  unfold truncation
  rcases lt_trichotomy q 0 with hneg | rfl | hpos
  · rw [if_pos (by linarith), if_neg (by linarith), Int.floor_neg]
  · simp
  · rw [if_neg (by linarith), if_pos hpos.le, Int.ceil_neg]

theorem truncatedRemainder_neg_left (x y : ℚ) :
    truncatedRemainder (-x) y = -truncatedRemainder x y := by
  rw [truncatedRemainder, truncatedRemainder, neg_div, truncation_neg]
  push_cast
  ring

theorem truncatedRemainder_neg_right (x y : ℚ) :
    truncatedRemainder x (-y) = truncatedRemainder x y := by
  rw [truncatedRemainder, truncatedRemainder, div_neg, truncation_neg]
  push_cast
  ring

theorem flooredRemainder_eq_fract (hy : y ≠ 0) : flooredRemainder x y = Int.fract (x / y) * y := by
  rw [flooredRemainder, ← Int.self_sub_floor, sub_mul, div_mul_cancel₀ x hy]

theorem abs_flooredRemainder_lt (hy : y ≠ 0) : |flooredRemainder x y| < |y| := by
  rw [flooredRemainder_eq_fract hy, abs_mul, abs_of_nonneg (Int.fract_nonneg _)]
  exact mul_lt_of_lt_one_left (abs_pos.mpr hy) (Int.fract_lt_one _)

/-- The product with the divisor tells the signs apart. -/
theorem truncatedRemainder_mul (hy : y ≠ 0) :
    truncatedRemainder x y * y = (x / y - truncation (x / y)) * (y * y) := by
  rw [truncatedRemainder]
  field_simp

/-- A remainder with the sign of the divisor is the floored one. -/
theorem flooredRemainder_of_nonneg (hy : y ≠ 0) (h : 0 ≤ truncatedRemainder x y * y) :
    flooredRemainder x y = truncatedRemainder x y := by
  have hsquare : 0 < y * y := mul_self_pos.mpr hy
  have htruncation : truncation (x / y) = ⌊x / y⌋ := by
    by_cases hq : 0 ≤ x / y
    · exact truncation_of_nonneg hq
    · -- A negative quotient leaves nothing, and so it is a whole number.
      rw [truncatedRemainder_mul hy] at h
      have hle := nonneg_of_mul_nonneg_left h hsquare
      rw [truncation, if_neg hq] at hle ⊢
      refine le_antisymm (Int.le_floor.mpr ?_) (Int.floor_le_ceil _)
      linarith
  rw [flooredRemainder, truncatedRemainder, htruncation]

/-- To a remainder of the other sign the divisor is added. -/
theorem flooredRemainder_of_neg (hy : y ≠ 0) (h : truncatedRemainder x y * y < 0) :
    flooredRemainder x y = truncatedRemainder x y + y := by
  have hsquare : 0 < y * y := mul_self_pos.mpr hy
  rw [truncatedRemainder_mul hy] at h
  have hlt : x / y < truncation (x / y) := by
    by_contra hge
    exact absurd h (not_lt.mpr (mul_nonneg (by linarith) hsquare.le))
  have hq : ¬ 0 ≤ x / y := fun hq => by
    rw [truncation_of_nonneg hq] at hlt
    exact absurd (Int.floor_le _) (not_le.mpr hlt)
  have htruncation : truncation (x / y) = ⌊x / y⌋ + 1 := by
    rw [truncation, if_neg hq] at hlt ⊢
    exact le_antisymm (Int.ceil_le_floor_add_one _) (Int.add_one_le_of_lt (Int.floor_lt.mpr hlt))
  rw [flooredRemainder, truncatedRemainder, htruncation]
  push_cast
  ring

end Rational

namespace BinaryFormat

variable {f : BinaryFormat} {a b m : Nat} {s t : Bool}

/-- The remainder of two magnitudes is a magnitude: it is a multiple of the smaller of their
scales, and has no more bits at that scale than one of them. -/
theorem exists_magnitude_mod (a : Nat) (hb : b ≠ 0) :
    ∃ rank ≤ a, f.magnitude rank = f.magnitude a % f.magnitude b := by
  have hpos := magnitude_pos (f := f) hb
  obtain ⟨c, i, hc, ha, -⟩ := exists_eq_magnitude (f := f) a
  obtain ⟨d, j, hd, hb, -⟩ := exists_eq_magnitude (f := f) b
  have hbits : ∃ n k, n < 2 * f.binade ∧ f.magnitude a % f.magnitude b = n * 2 ^ k := by
    rcases Nat.le_total i j with hij | hji
    · obtain ⟨k, rfl⟩ := Nat.exists_eq_add_of_le' hij
      refine ⟨c % (d * 2 ^ k), i, (Nat.mod_le _ _).trans_lt hc, ?_⟩
      rw [ha, hb, Nat.pow_add, ← Nat.mul_assoc, Nat.mul_mod_mul_right]
    · obtain ⟨k, rfl⟩ := Nat.exists_eq_add_of_le' hji
      have hd' : 0 < d := Nat.pos_of_ne_zero fun hzero => by simp [hb, hzero] at hpos
      refine ⟨c * 2 ^ k % d, j, (Nat.mod_lt _ hd').trans hd, ?_⟩
      rw [ha, hb, Nat.pow_add, ← Nat.mul_assoc, Nat.mul_mod_mul_right]
  obtain ⟨n, k, hn, hmod⟩ := hbits
  obtain ⟨rank, -, hrank⟩ := exists_magnitude_eq hn k
  refine ⟨rank, (strictMono_magnitude (f := f)).le_iff_le.mp ?_, hrank.trans hmod.symm⟩
  rw [hrank, ← hmod]
  exact Nat.mod_le _ _

theorem value_mul_value_nonneg (s : Bool) (a b : Nat) : 0 ≤ f.value s a * f.value s b := by
  have hproduct := mul_nonneg (value_nonneg (f := f) a) (value_nonneg (f := f) b)
  cases s
  · exact hproduct
  · rwa [value_true, value_true, neg_mul_neg]

theorem value_mul_value_neg (hst : s ≠ t) (ha : a ≠ 0) (hb : b ≠ 0) :
    f.value s a * f.value t b < 0 := by
  refine lt_of_le_of_ne ?_ (mul_ne_zero (value_ne_zero ha) (value_ne_zero hb))
  have hproduct := mul_nonneg (value_nonneg (f := f) a) (value_nonneg (f := f) b)
  cases s <;> cases t
  · exact absurd rfl hst
  · rwa [value_true, mul_neg, neg_nonpos]
  · rwa [value_true, neg_mul, neg_nonpos]
  · exact absurd rfl hst

theorem truncatedRemainder_value (hm : f.magnitude m = f.magnitude a % f.magnitude b) :
    truncatedRemainder (f.value s a) (f.value t b) = f.value s m := by
  have hpositive : truncatedRemainder (f.value false a) (f.value false b) = f.value false m := by
    have hone : (f.one : ℚ) ≠ 0 := ne_of_gt one_pos'
    have hquotient : f.value false a / f.value false b = (f.magnitude a : ℚ) / f.magnitude b := by
      rw [value_false, value_false, div_div_div_cancel_right₀ hone]
    have hdivmod : (f.magnitude a : ℚ) =
        f.magnitude b * (f.magnitude a / f.magnitude b : Nat) + f.magnitude m := by
      rw [hm]
      exact_mod_cast (Nat.div_add_mod _ _).symm
    rw [truncatedRemainder, hquotient, truncation_of_nonneg (by positivity),
      Rat.floor_natCast_div_natCast, ← Int.natCast_div, Int.cast_natCast, value_false, value_false,
      value_false]
    field_simp
    linarith
  cases s <;> cases t <;>
    simp only [value_true, truncatedRemainder_neg_left, truncatedRemainder_neg_right, hpositive]

end BinaryFormat

namespace Binary

variable {f : BinaryFormat} {s t : Bool} {a b : Fin f.finiteCount}

/-- The remainder of finite numbers is not rounded. -/
theorem exists_remainder_eq (s t : Bool) (a : Fin f.finiteCount) (hb : (b : Nat) ≠ 0) :
    ∃ m : Fin f.finiteCount, (finite s a : Binary f).remainder (.finite t b) = .finite s m ∧
      f.magnitude m = f.magnitude a % f.magnitude b := by
  obtain ⟨m, hle, hm⟩ := BinaryFormat.exists_magnitude_mod (f := f) a hb
  have hpos := BinaryFormat.magnitude_pos (f := f) hb
  have hfinite : m < f.finiteCount := hle.trans_lt a.isLt
  refine ⟨⟨m, hfinite⟩, ?_, hm⟩
  simp only [remainder]
  rw [if_neg (Nat.ne_of_gt hpos), ofUnits, ← hm, BinaryFormat.nearestRank_magnitude,
    ofRank_eq_finite hfinite]

theorem isZero_finite_iff : (finite s a : Binary f).isZero ↔ (a : Nat) = 0 := by
  cases s <;> simp [isZero, place?]

/-- A remainder of the other sign and the divisor lie on both sides of zero, and so their sum
is between zero and the divisor, before it is rounded and after. -/
theorem exists_add_eq {m : Fin f.finiteCount} (hbits : 0 < f.fractionBits) (hst : s ≠ t)
    (hm : (m : Nat) ≠ 0) (hlt : m < b) :
    ∃ r : Fin f.finiteCount, (finite s m : Binary f).add (.finite t b) = .finite t r ∧
      r ≤ b ∧ (r : Nat) ≠ 0 ∧ f.IsNearest (f.value s m + f.value t b) t r := by
  obtain rfl : s = !t := by cases s <;> cases t <;> simp_all
  have hbelow := BinaryFormat.magnitude_pos (f := f) hm
  have habove := BinaryFormat.strictMono_magnitude (f := f) hlt
  obtain ⟨k, hk⟩ : ∃ k, f.signedUnits (!t) m + f.signedUnits t b = k := ⟨_, rfl⟩
  have hsum : k.natAbs = f.magnitude b - f.magnitude m ∧ decide (k < 0) = t ∧ k ≠ 0 := by
    subst hk
    cases t <;>
      simp only [Bool.not_true, Bool.not_false, BinaryFormat.signedUnits_true,
        BinaryFormat.signedUnits_false, decide_eq_true_eq, decide_eq_false_iff_not] <;> omega
  obtain ⟨habs, hsign, hzero⟩ := hsum
  have hrank : f.nearestRank k.natAbs 1 ≤ b := by
    rw [← BinaryFormat.nearestRank_magnitude (f := f) b]
    exact BinaryFormat.nearestRank_mono Nat.one_pos Nat.one_pos (by omega)
  have hpos : 0 < f.nearestRank k.natAbs 1 := nearestRank_pos (Int.natAbs_pos.mpr hzero)
  have hfinite := hrank.trans_lt b.isLt
  have hnearest := BinaryFormat.isNearest_nearestRank hbits k
  have hvalue : f.value (!t) m + f.value t b = (k : ℚ) / f.one := by
    rw [BinaryFormat.value, BinaryFormat.value, ← add_div, ← hk, Int.cast_add]
  refine ⟨⟨_, hfinite⟩, ?_, hrank, Nat.ne_of_gt hpos, ?_⟩
  · simp only [add, hk]
    rw [if_neg hzero, hsign, ofUnits, ofRank_eq_finite hfinite]
  · rw [hvalue]
    exact hsign ▸ hnearest

/-- The floored remainder is the remainder itself, or its sum with the divisor. -/
theorem exists_modulo_eq {m : Fin f.finiteCount} (hbits : 0 < f.fractionBits)
    (hremainder : (finite s a : Binary f).remainder (.finite t b) = .finite s m) (hlt : m < b) :
    ∃ r : Fin f.finiteCount, (finite s a : Binary f).modulo (.finite t b) = .finite t r ∧ r ≤ b ∧
      (0 ≤ f.value s m * f.value t b → f.value t r = f.value s m) ∧
      (f.value s m * f.value t b < 0 →
        f.IsNearest (f.value s m + f.value t b) t r ∧ f.value t r ≠ 0) := by
  have hb : (b : Nat) ≠ 0 := Nat.ne_zero_of_lt hlt
  by_cases hzero : (m : Nat) = 0
  · have hm : f.value s m = 0 := by rw [hzero, BinaryFormat.value_zero]
    refine ⟨⟨0, Nat.zero_lt_of_lt b.isLt⟩, ?_, Nat.zero_le _, fun _ => ?_, fun h => ?_⟩
    · simp only [modulo, hremainder, isZero_finite_iff.mpr hzero, if_true, isNegative, zero]
      exact ofRank_eq_finite _
    · rw [hm, BinaryFormat.value_zero]
    · rw [hm, zero_mul] at h
      exact absurd h (lt_irrefl _)
  · have hnonzero : (finite s m : Binary f).isZero = false :=
      Bool.eq_false_iff.mpr fun h => hzero (isZero_finite_iff.mp h)
    by_cases hst : s = t
    · subst hst
      refine ⟨m, ?_, hlt.le, fun _ => rfl, fun h => ?_⟩
      · simp [modulo, hremainder, hnonzero, isNegative]
      · exact absurd h (not_lt.mpr (BinaryFormat.value_mul_value_nonneg s m b))
    · obtain ⟨r, hadd, hle, hr, hnearest⟩ := exists_add_eq hbits hst hzero hlt
      refine ⟨r, ?_, hle, fun h => ?_, fun _ => ⟨hnearest, BinaryFormat.value_ne_zero hr⟩⟩
      · simp [modulo, hremainder, hnonzero, isNegative, hst, hadd]
      · exact absurd h (not_le.mpr (BinaryFormat.value_mul_value_neg hst hzero hb))

end Binary

theorem Function.combine_modulo_float {x y : Binary32} (p q : Nat) (hy : y.isZero = false) :
    modulo.combine (.float x p) (.float y q) = .ok (.float (x.modulo y) (max p q)) := by
  simp [combine, CommonForm.ofValues, CommonForm.isFloat, CommonForm.toFloat, CommonForm.modulo,
    hy]

namespace Value

open BinaryFormat (single)

/-- The remainder of a finite float by one that is not zero is a finite float with the sign of
the divisor, and no larger than it. It is the exact remainder by a quotient that is cut off, if
that is zero or has the sign of the divisor, and else their sum, rounded once and not to zero.
So it is the floored remainder, rounded once at most, and is as large as the divisor only if it
was rounded. -/
theorem resolve_modulo_float (grid : Grid) (s t : Bool) (a : Fin single.finiteCount)
    {b : Fin single.finiteCount} (p q : Nat) (hb : (b : Nat) ≠ 0) :
    ∃ m r : Fin single.finiteCount,
      (Value.call "MOD" [.simple (.float (.finite s a) p),
        .simple (.float (.finite t b) q)]).resolve grid = .ok (.float (.finite t r) (max p q)) ∧
      |single.value t r| ≤ |single.value t b| ∧
      single.value s m = truncatedRemainder (single.value s a) (single.value t b) ∧
      (0 ≤ single.value s m * single.value t b → single.value t r = single.value s m) ∧
      (single.value s m * single.value t b < 0 →
        single.IsNearest (single.value s m + single.value t b) t r ∧ single.value t r ≠ 0) ∧
      single.IsNearest (flooredRemainder (single.value s a) (single.value t b)) t r ∧
      (single.value t r = flooredRemainder (single.value s a) (single.value t b) →
        |single.value t r| < |single.value t b|) := by
  have hy : single.value t b ≠ 0 := BinaryFormat.value_ne_zero hb
  obtain ⟨m, hremainder, hm⟩ := Binary.exists_remainder_eq s t a hb
  have hlt : m < b := by
    rw [Fin.lt_def, ← (BinaryFormat.strictMono_magnitude (f := single)).lt_iff_lt, hm]
    exact Nat.mod_lt _ (BinaryFormat.magnitude_pos hb)
  have htruncated := BinaryFormat.truncatedRemainder_value (s := s) (t := t) hm
  obtain ⟨r, hmodulo, hle, hsame, hother⟩ := Binary.exists_modulo_eq (by decide) hremainder hlt
  refine ⟨m, r, ?_, ?_, htruncated.symm, hsame, hother, ?_, fun hexact => ?_⟩
  · have hnonzero : (.finite t b : Binary32).isZero = false :=
      Bool.eq_false_iff.mpr fun h => hb (Binary.isZero_finite_iff.mp h)
    rw [← hmodulo, ← Function.combine_modulo_float p q hnonzero]
    exact resolve_call_pair .modulo _ _ grid
  · rw [BinaryFormat.abs_value, BinaryFormat.abs_value]
    exact BinaryFormat.strictMono_value.monotone hle
  · rw [← htruncated] at hsame hother
    rcases lt_or_ge (truncatedRemainder (single.value s a) (single.value t b) * single.value t b) 0
      with hneg | hnonneg
    · rw [flooredRemainder_of_neg hy hneg]
      exact (hother hneg).1
    · rw [flooredRemainder_of_nonneg hy hnonneg, ← hsame hnonneg]
      exact BinaryFormat.isNearest_value t r
  · rw [hexact]
    exact abs_flooredRemainder_lt hy

/-- The least negative float has a remainder by one that is rounded to one. -/
theorem resolve_modulo_leastNegative :
    (0x3f800000 : Nat) ≠ 0 ∧
      (Value.call "MOD" [.simple (.float (.finite true ⟨1, by decide⟩) 0),
        .simple (.float (.finite false ⟨0x3f800000, by decide⟩) 2)]).resolve Grid.copyBesideLoop =
          .ok (.float (.finite false ⟨0x3f800000, by decide⟩) 2) ∧
      single.IsNearest (flooredRemainder (single.value true 1) (single.value false 0x3f800000))
        false 0x3f800000 ∧
      single.value false 0x3f800000 ≠
        flooredRemainder (single.value true 1) (single.value false 0x3f800000) := by
  have hb : (0x3f800000 : Nat) ≠ 0 := by decide
  obtain ⟨m, r, hresult, -, -, -, -, hnearest, hreaches⟩ :=
    resolve_modulo_float Grid.copyBesideLoop true false ⟨1, by decide⟩
      (b := ⟨0x3f800000, by decide⟩) 0 2 hb
  have hmodulo : (.finite true ⟨1, by decide⟩ : Binary32).modulo
      (.finite false ⟨0x3f800000, by decide⟩) = .finite false ⟨0x3f800000, by decide⟩ := by
    decide +kernel
  have hone : (Value.call "MOD" [.simple (.float (.finite true ⟨1, by decide⟩) 0),
      .simple (.float (.finite false ⟨0x3f800000, by decide⟩) 2)]).resolve Grid.copyBesideLoop =
        .ok (.float (.finite false ⟨0x3f800000, by decide⟩) 2) := by
    refine (resolve_call_pair .modulo _ _ _).trans ?_
    rw [Function.combine_modulo_float 0 2 (by decide +kernel), hmodulo]
    rfl
  have hr : r = ⟨0x3f800000, by decide⟩ := by simpa using hresult.symm.trans hone
  subst hr
  exact ⟨hb, hone, hnearest, fun hexact => lt_irrefl _ (hreaches hexact)⟩

end Value

end Worksheet
