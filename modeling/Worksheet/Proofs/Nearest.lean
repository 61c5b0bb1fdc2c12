import Worksheet.Proofs.Midpoint

/-!
# Nearest numbers

The number that a sign and a rank stand for is a rational number, a whole multiple of the unit.
What a number is rounded to is as near to it as any number of the format, and where two are
equally near it is the one of even rank.
-/

namespace Worksheet.BinaryFormat

variable {f : BinaryFormat} {negative : Bool} {rank other n : Nat} {x : ℚ}

theorem signedUnits_false (rank : Nat) : f.signedUnits false rank = f.magnitude rank := rfl

theorem signedUnits_true (rank : Nat) : f.signedUnits true rank = -f.magnitude rank := rfl

/-- The number of the given sign and rank. -/
def value (f : BinaryFormat) (negative : Bool) (rank : Nat) : ℚ :=
  f.signedUnits negative rank / f.one

/-- No number is nearer, and only one of even rank has another that is as near. The ranks of
too large numbers count as well, as if there were exponents for them. -/
structure IsNearest (f : BinaryFormat) (x : ℚ) (negative : Bool) (rank : Nat) : Prop where
  closest : ∀ sign other, |x - f.value negative rank| ≤ |x - f.value sign other|
  even : ∀ sign other, |x - f.value sign other| = |x - f.value negative rank| →
    f.value sign other ≠ f.value negative rank → Even rank

theorem isNearest_value (negative : Bool) (rank : Nat) :
    f.IsNearest (f.value negative rank) negative rank where
  closest sign other := by simp
  even sign other htie hne := by
    rw [sub_self, abs_zero, abs_eq_zero, sub_eq_zero] at htie
    exact absurd htie.symm hne

theorem one_pos' : (0 : ℚ) < f.one :=
  Nat.cast_pos.mpr f.one_pos

theorem value_true (rank : Nat) : f.value true rank = -f.value false rank := by
  simp [value, signedUnits_true, signedUnits_false, neg_div]

theorem value_false (rank : Nat) : f.value false rank = f.magnitude rank / f.one := by
  simp [value, signedUnits_false]

theorem value_zero (negative : Bool) : f.value negative 0 = 0 := by
  cases negative <;> simp [value, signedUnits_true, signedUnits_false]

theorem value_nonneg (rank : Nat) : 0 ≤ f.value false rank := by
  rw [value_false]
  positivity

theorem abs_value (negative : Bool) (rank : Nat) :
    |f.value negative rank| = f.value false rank := by
  cases negative
  · exact abs_of_nonneg (value_nonneg rank)
  · rw [value_true, abs_neg, abs_of_nonneg (value_nonneg rank)]

theorem magnitude_pos (h : rank ≠ 0) : 0 < f.magnitude rank := by
  have hlt := strictMono_magnitude (f := f) (Nat.pos_of_ne_zero h)
  rwa [magnitude_zero] at hlt

theorem natAbs_signedUnits (negative : Bool) (rank : Nat) :
    (f.signedUnits negative rank).natAbs = f.magnitude rank := by
  cases negative
  · exact Int.natAbs_natCast _
  · rw [signedUnits_true, Int.natAbs_neg, Int.natAbs_natCast]

theorem decide_signedUnits_neg (h : rank ≠ 0) :
    decide (f.signedUnits negative rank < 0) = negative := by
  have hpos := magnitude_pos (f := f) h
  cases negative
  · exact decide_eq_false (by rw [signedUnits_false]; omega)
  · exact decide_eq_true (by rw [signedUnits_true]; omega)

theorem value_ne_zero (h : rank ≠ 0) : f.value negative rank ≠ 0 := by
  rw [← abs_pos, abs_value, value_false]
  exact div_pos (Nat.cast_pos.mpr (magnitude_pos h)) one_pos'

/-- Numbers of higher rank lie further from zero. -/
theorem strictMono_value : StrictMono (f.value false) := by
  intro rank other hlt
  rw [value_false, value_false]
  exact div_lt_div_of_pos_right (Nat.cast_lt.mpr (strictMono_magnitude hlt)) one_pos'

/-! ## The nearest rank -/

/-- In the middle between two magnitudes the even rank is taken. -/
theorem even_nearestRank_of_midpoint (hbits : 0 < f.fractionBits)
    (h : 2 * n = f.magnitude rank + f.magnitude (rank + 1)) : Even (f.nearestRank n 1) := by
  obtain ⟨e, m, -, hm, he, hlow, hhigh⟩ := exists_neighbours (f := f) rank
  have hpow := Nat.two_pow_pos e
  have hmiddle : 2 * n = 2 * (m * 2 ^ e) + 2 ^ e := by
    rw [h, hlow, hhigh]
    ring
  have hdiv : n / 2 ^ e = m := by
    rw [Nat.div_eq_iff hpow]
    omega
  have hscale : f.scale n = e := by
    refine Nat.le_antisymm (scale_le_of_lt ?_) ?_
    · calc n < (m + 1) * 2 ^ e := by rw [Nat.succ_mul]; omega
        _ ≤ 2 * f.binade * 2 ^ e := Nat.mul_le_mul_right _ hm
        _ = 2 ^ e * (2 * f.binade) := Nat.mul_comm _ _
    · rcases he with rfl | hfull
      · exact Nat.zero_le _
      · refine le_scale_of_le ?_
        calc 2 ^ e * f.binade = f.binade * 2 ^ e := Nat.mul_comm _ _
          _ ≤ m * 2 ^ e := Nat.mul_le_mul_right _ hfull
          _ ≤ n := by omega
  have hrest : 2 * (n % 2 ^ e) = 2 ^ e := by
    have hsplit := Nat.div_add_mod n (2 ^ e)
    rw [hdiv, Nat.mul_comm] at hsplit
    omega
  have hround : roundHalfEven n (2 ^ e) = m + m % 2 := by
    unfold roundHalfEven
    simp only [hdiv, hrest, lt_irrefl, if_false]
  have hbinade : Even f.binade := by
    rw [binade_eq]
    exact Nat.even_pow.mpr ⟨even_two, Nat.pos_iff_ne_zero.mp hbits⟩
  rw [nearestRank_eq, Nat.div_one, Nat.one_mul, hscale, hround]
  exact (hbinade.mul_left e).add (Nat.even_iff.mpr (by omega))

/-- A number lies no further than the middle between its nearest magnitude and the next. -/
theorem le_midpoint_nearestRank (n : Nat) :
    2 * n ≤ f.magnitude (f.nearestRank n 1) + f.magnitude (f.nearestRank n 1 + 1) := by
  by_contra hgt
  have hlt : f.nearestRank n 1 < f.nearestRank n 1 :=
    lt_nearestRank_of_midpoint_lt Nat.one_pos (by omega)
  exact lt_irrefl _ hlt

/-- A magnitude below the nearest one lies on the other side of a middle. -/
theorem exists_of_lt_nearestRank (h : other < f.nearestRank n 1) :
    ∃ rank, f.nearestRank n 1 = rank + 1 ∧ f.magnitude other ≤ f.magnitude rank ∧
      f.magnitude rank < f.magnitude (rank + 1) ∧
      f.magnitude rank + f.magnitude (rank + 1) ≤ 2 * n := by
  obtain ⟨rank, hrank⟩ := Nat.exists_eq_add_one.mpr (Nat.zero_lt_of_lt h)
  refine ⟨rank, hrank, strictMono_magnitude.monotone (by omega),
    strictMono_magnitude (Nat.lt_succ_self rank), ?_⟩
  by_contra hlt
  have hle : f.nearestRank n 1 ≤ rank := nearestRank_le_of_lt_midpoint Nat.one_pos (by omega)
  omega

theorem lt_and_le_of_nearestRank_lt (h : f.nearestRank n 1 < other) :
    f.magnitude (f.nearestRank n 1) < f.magnitude (f.nearestRank n 1 + 1) ∧
      f.magnitude (f.nearestRank n 1 + 1) ≤ f.magnitude other :=
  ⟨strictMono_magnitude (Nat.lt_succ_self _), strictMono_magnitude.monotone h⟩

/-- No magnitude is nearer than that of the nearest rank. -/
theorem natAbs_nearestRank_le (n other : Nat) :
    ((n : Int) - f.magnitude (f.nearestRank n 1)).natAbs ≤
      ((n : Int) - f.magnitude other).natAbs := by
  have hnext := le_midpoint_nearestRank (f := f) n
  rcases lt_trichotomy other (f.nearestRank n 1) with hlt | rfl | hgt
  · obtain ⟨rank, hrank, hother, hstep, hmiddle⟩ := exists_of_lt_nearestRank hlt
    rw [hrank]
    omega
  · exact le_rfl
  · have hother := lt_and_le_of_nearestRank_lt hgt
    omega

/-- If another magnitude is as near, the number is in the middle between the two. -/
theorem even_nearestRank_of_natAbs_eq (hbits : 0 < f.fractionBits)
    (hne : other ≠ f.nearestRank n 1)
    (h : ((n : Int) - f.magnitude other).natAbs =
      ((n : Int) - f.magnitude (f.nearestRank n 1)).natAbs) : Even (f.nearestRank n 1) := by
  have hnext := le_midpoint_nearestRank (f := f) n
  rcases lt_or_gt_of_ne hne with hlt | hgt
  · obtain ⟨rank, hrank, hother, hstep, hmiddle⟩ := exists_of_lt_nearestRank hlt
    have htie : 2 * n = f.magnitude rank + f.magnitude (rank + 1) := by
      rw [hrank] at h
      omega
    exact even_nearestRank_of_midpoint hbits htie
  · obtain ⟨hstep, hother⟩ := lt_and_le_of_nearestRank_lt hgt
    have htie : 2 * n = f.magnitude (f.nearestRank n 1) + f.magnitude (f.nearestRank n 1 + 1) := by
      omega
    exact even_nearestRank_of_midpoint hbits htie

theorem abs_sub_value (k : Int) (negative : Bool) (rank : Nat) :
    |(k : ℚ) / f.one - f.value negative rank| =
      ((k - f.signedUnits negative rank).natAbs : ℚ) / f.one := by
  rw [value, ← sub_div, abs_div, abs_of_pos one_pos', Nat.cast_natAbs, Int.cast_abs, Int.cast_sub]

theorem natAbs_sub_signedUnits (k : Int) (rank : Nat) :
    (k - f.signedUnits (decide (k < 0)) rank).natAbs =
      ((k.natAbs : Int) - f.magnitude rank).natAbs := by
  unfold signedUnits
  split
  next h => have := of_decide_eq_true h; omega
  next h => have := of_decide_eq_false (Bool.eq_false_iff.mpr h); omega

/-- A number is not nearer on the other side of zero. -/
theorem natAbs_le_natAbs_sub_signedUnits (k : Int) (negative : Bool) (rank : Nat) :
    ((k.natAbs : Int) - f.magnitude rank).natAbs ≤
      (k - f.signedUnits negative rank).natAbs := by
  unfold signedUnits
  split <;> omega

/-- A number of units is rounded to the nearest number, a tie to even rank. -/
theorem isNearest_nearestRank (hbits : 0 < f.fractionBits) (k : Int) :
    f.IsNearest (k / f.one) (decide (k < 0)) (f.nearestRank k.natAbs 1) where
  closest sign other := by
    rw [abs_sub_value, abs_sub_value, div_le_div_iff_of_pos_right one_pos', Nat.cast_le,
      natAbs_sub_signedUnits]
    exact (natAbs_nearestRank_le _ other).trans (natAbs_le_natAbs_sub_signedUnits k sign other)
  even sign other htie hne := by
    have hunits : f.signedUnits sign other ≠
        f.signedUnits (decide (k < 0)) (f.nearestRank k.natAbs 1) := fun h =>
      hne (by rw [value, value, h])
    rw [abs_sub_value, abs_sub_value, div_left_inj' (ne_of_gt one_pos'), Nat.cast_inj,
      natAbs_sub_signedUnits] at htie
    have hle := natAbs_le_natAbs_sub_signedUnits (f := f) k sign other
    have hclosest := natAbs_nearestRank_le (f := f) k.natAbs other
    by_cases hother : other = f.nearestRank k.natAbs 1
    · -- With the other sign the same rank is as near only if it is the rank of zero.
      exfalso
      have hzero := natAbs_nearestRank_le (f := f) k.natAbs 0
      rw [magnitude_zero] at hzero
      subst hother
      rcases lt_or_ge k 0 with hk | hk
      · rw [decide_eq_true hk] at hunits
        cases sign <;> simp only [signedUnits_true, signedUnits_false] at hunits htie <;> omega
      · rw [decide_eq_false (not_lt.mpr hk)] at hunits
        cases sign <;> simp only [signedUnits_true, signedUnits_false] at hunits htie <;> omega
    · exact even_nearestRank_of_natAbs_eq hbits hother (by omega)

end Worksheet.BinaryFormat
