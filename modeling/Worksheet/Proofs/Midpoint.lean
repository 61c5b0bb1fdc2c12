import Worksheet.Proofs.Rounding

/-!
# Neighbouring magnitudes

A number is rounded to the nearer of the two magnitudes around it, and so the point in the
middle between them decides. Rounding to double precision on the way moves numbers close to
that point onto it at most, which is less than a hundredth of the spacing.
-/

namespace Worksheet

/-- Twice the distance of a quotient from a whole number, in parts of the denominator. -/
def gap (num den n : Nat) : Nat :=
  (2 * (num : Int) - 2 * (n * den : Nat)).natAbs

section Gap

variable {num den n m : Nat}

theorem gap_le_iff {bound : Nat} :
    gap num den n ≤ bound ↔ 2 * num ≤ 2 * (n * den) + bound ∧ 2 * (n * den) ≤ 2 * num + bound := by
  unfold gap
  omega

theorem gap_lt_iff {bound : Nat} :
    gap num den n < bound ↔ 2 * num < 2 * (n * den) + bound ∧ 2 * (n * den) < 2 * num + bound := by
  unfold gap
  omega

theorem gap_roundHalfEven (num : Nat) (hden : 0 < den) :
    gap num den (roundHalfEven num den) ≤ den := by
  have hdiv := Nat.div_add_mod num den
  have hmod := Nat.mod_lt num hden
  have hnext : (num / den + 1) * den = num / den * den + den := Nat.succ_mul _ _
  rw [Nat.mul_comm] at hdiv
  rw [gap_le_iff]
  unfold roundHalfEven
  dsimp only
  split
  · omega
  · split
    · omega
    · rcases Nat.mod_two_eq_zero_or_one (num / den) with heven | hodd
      · rw [heven, Nat.add_zero]
        omega
      · rw [hodd]
        omega

/-- No other whole number is within half of the denominator. -/
theorem roundHalfEven_eq_of_gap_lt (hden : 0 < den) (h : gap num den n < den) :
    roundHalfEven num den = n := by
  have hnear := gap_lt_iff.mp h
  have hround := gap_le_iff.mp (gap_roundHalfEven num hden)
  by_contra hne
  rcases Nat.lt_or_gt_of_ne hne with hlt | hgt
  · have hstep := Nat.mul_le_mul_right den hlt
    rw [Nat.succ_mul] at hstep
    omega
  · have hstep := Nat.mul_le_mul_right den hgt
    rw [Nat.succ_mul] at hstep
    omega

theorem roundHalfEven_le_of_lt (h : 2 * num < (2 * n + 1) * den) : roundHalfEven num den ≤ n := by
  have hden : 0 < den := Nat.pos_of_ne_zero fun hzero => by simp [hzero] at h
  have hround := gap_le_iff.mp (gap_roundHalfEven num hden)
  by_contra hgt
  have hstep := Nat.mul_le_mul_right den (Nat.not_le.mp hgt)
  rw [Nat.succ_mul] at hstep
  rw [Nat.add_mul, Nat.one_mul, Nat.mul_assoc] at h
  omega

theorem lt_roundHalfEven_of_lt (hden : 0 < den) (h : (2 * n + 1) * den < 2 * num) :
    n < roundHalfEven num den := by
  have hround := gap_le_iff.mp (gap_roundHalfEven num hden)
  by_contra hle
  have hstep := Nat.mul_le_mul_right den (Nat.not_lt.mp hle)
  rw [Nat.add_mul, Nat.one_mul, Nat.mul_assoc] at h
  omega

end Gap

namespace BinaryFormat

variable {f : BinaryFormat} {rank a k e m num den : Nat}

theorem strictMono_magnitude : StrictMono f.magnitude := by
  intro rank other hlt
  by_contra hle
  have hmono := nearestRank_mono (f := f) Nat.one_pos Nat.one_pos
    (Nat.mul_le_mul_right 1 (Nat.not_lt.mp hle))
  rw [nearestRank_magnitude, nearestRank_magnitude] at hmono
  omega

/-- A significand at the scale of its binade, or the least of the next. -/
theorem magnitude_scaled (he : e = 0 ∨ f.binade ≤ m) (hm : m ≤ 2 * f.binade) :
    f.magnitude (e * f.binade + m) = m * 2 ^ e := by
  induction e with
  | zero =>
      rw [Nat.zero_mul, Nat.zero_add, Nat.pow_zero, Nat.mul_one]
      rcases hm.lt_or_eq with hlt | rfl
      · exact magnitude_of_lt hlt
      · have hpos := f.binade_pos
        rw [Nat.two_mul, magnitude_add_binade le_rfl, magnitude_of_lt (by omega)]
        omega
  | succ e ih =>
      have hbinade : f.binade ≤ m := he.resolve_left (Nat.succ_ne_zero e)
      rw [Nat.succ_mul, Nat.add_right_comm, magnitude_add_binade (by omega), ih (.inr hbinade),
        Nat.pow_succ]
      ring

theorem exists_scaled (rank : Nat) :
    ∃ e m, rank = e * f.binade + m ∧ m < 2 * f.binade ∧ (e = 0 ∨ f.binade ≤ m) := by
  by_cases hlow : rank < f.binade
  · exact ⟨0, rank, by omega, by omega, .inl rfl⟩
  · have hdiv := Nat.div_add_mod rank f.binade
    have hmod := Nat.mod_lt rank f.binade_pos
    obtain ⟨e, he⟩ : ∃ e, rank / f.binade = e + 1 :=
      Nat.exists_eq_add_one.mpr (Nat.div_pos (Nat.not_lt.mp hlow) f.binade_pos)
    rw [he, Nat.mul_comm, Nat.succ_mul] at hdiv
    exact ⟨e, f.binade + rank % f.binade, by omega, by omega, .inr (Nat.le_add_right _ _)⟩

/-- A magnitude and the next one, at the scale of the first. -/
theorem exists_neighbours (rank : Nat) :
    ∃ e m, rank = e * f.binade + m ∧ m < 2 * f.binade ∧ (e = 0 ∨ f.binade ≤ m) ∧
      f.magnitude rank = m * 2 ^ e ∧ f.magnitude (rank + 1) = (m + 1) * 2 ^ e := by
  obtain ⟨e, m, hrank, hm, he⟩ := exists_scaled (f := f) rank
  refine ⟨e, m, hrank, hm, he, ?_, ?_⟩
  · rw [hrank, magnitude_scaled he hm.le]
  · rw [hrank, Nat.add_assoc, magnitude_scaled (he.imp_right fun h => h.trans (Nat.le_succ m)) hm]

theorem scale_le_of_lt (h : a < 2 ^ e * (2 * f.binade)) : f.scale a ≤ e := by
  by_contra hgt
  have hgt := Nat.not_le.mp hgt
  have hpow : 2 ^ (e + 1) ≤ 2 ^ f.scale a := Nat.pow_le_pow_right (by decide) hgt
  have hle : 2 ^ e * (2 * f.binade) ≤ a :=
    calc 2 ^ e * (2 * f.binade) = 2 ^ (e + 1) * f.binade := by ring
      _ ≤ 2 ^ f.scale a * f.binade := Nat.mul_le_mul_right _ hpow
      _ ≤ a := two_pow_scale_le (Nat.zero_lt_of_lt hgt)
  omega

theorem le_scale_of_le (h : 2 ^ e * f.binade ≤ a) : e ≤ f.scale a := by
  by_contra hlt
  have hpow : 2 ^ (f.scale a + 1) ≤ 2 ^ e := Nat.pow_le_pow_right (by decide) (Nat.not_le.mp hlt)
  have hgt : a < 2 ^ e * f.binade :=
    calc a < 2 ^ f.scale a * (2 * f.binade) := lt_two_pow_scale a
      _ = 2 ^ (f.scale a + 1) * f.binade := by ring
      _ ≤ 2 ^ e * f.binade := Nat.mul_le_mul_right _ hpow
  omega

/-- Below the middle a number is rounded down. -/
theorem nearestRank_le_of_lt_midpoint (hden : 0 < den)
    (h : 2 * num < (f.magnitude rank + f.magnitude (rank + 1)) * den) :
    f.nearestRank num den ≤ rank := by
  obtain ⟨e, m, hrank, hm, he, hlow, hhigh⟩ := exists_neighbours (f := f) rank
  rw [hlow, hhigh] at h
  have hbelow : 2 * num < (2 * m + 1) * (den * 2 ^ e) := by
    calc 2 * num < (m * 2 ^ e + (m + 1) * 2 ^ e) * den := h
      _ = (2 * m + 1) * (den * 2 ^ e) := by ring
  have hround := roundHalfEven_le_of_lt hbelow
  have hscale : f.scale (num / den) ≤ e := by
    refine scale_le_of_lt ((Nat.div_lt_iff_lt_mul hden).mpr ?_)
    have hle : (2 * m + 1) * (den * 2 ^ e) ≤ 4 * f.binade * (den * 2 ^ e) :=
      Nat.mul_le_mul_right _ (by omega)
    have hcomm : 4 * f.binade * (den * 2 ^ e) = 2 * (2 ^ e * (2 * f.binade) * den) := by ring
    omega
  rw [nearestRank_eq, hrank]
  rcases hscale.lt_or_eq with hlt | heq
  · have hle : roundHalfEven num (den * 2 ^ f.scale (num / den)) ≤ 2 * f.binade :=
      roundHalfEven_scaled_le
    have hfull : f.binade ≤ m := he.resolve_left (Nat.ne_zero_of_lt hlt)
    have hstep := Nat.mul_le_mul_right f.binade hlt
    rw [Nat.succ_mul] at hstep
    omega
  · rw [heq]
    exact Nat.add_le_add_left hround _

/-- Above the middle a number is rounded up. -/
theorem lt_nearestRank_of_midpoint_lt (hden : 0 < den)
    (h : (f.magnitude rank + f.magnitude (rank + 1)) * den < 2 * num) :
    rank < f.nearestRank num den := by
  obtain ⟨e, m, hrank, hm, he, hlow, hhigh⟩ := exists_neighbours (f := f) rank
  rw [hlow, hhigh] at h
  have habove : (2 * m + 1) * (den * 2 ^ e) < 2 * num := by
    calc (2 * m + 1) * (den * 2 ^ e) = (m * 2 ^ e + (m + 1) * 2 ^ e) * den := by ring
      _ < 2 * num := h
  have hround := lt_roundHalfEven_of_lt (Nat.mul_pos hden (Nat.two_pow_pos e)) habove
  have hscale : e ≤ f.scale (num / den) := by
    rcases he with rfl | hfull
    · exact Nat.zero_le _
    · refine le_scale_of_le ((Nat.le_div_iff_mul_le hden).mpr ?_)
      have hle : 2 * f.binade * (den * 2 ^ e) ≤ (2 * m + 1) * (den * 2 ^ e) :=
        Nat.mul_le_mul_right _ (by omega)
      have hcomm : 2 * f.binade * (den * 2 ^ e) = 2 * (2 ^ e * f.binade * den) := by ring
      omega
  rw [nearestRank_eq, hrank]
  rcases hscale.lt_or_eq with hlt | heq
  · have hge := binade_le_roundHalfEven_scaled (f := f) (Nat.zero_lt_of_lt hlt)
    have hstep := Nat.mul_le_mul_right f.binade hlt
    rw [Nat.succ_mul] at hstep
    omega
  · rw [← heq]
    omega

/-- A number of few bits is not passed in rounding. -/
theorem exists_rank_of_bits (ha : a < 2 * f.binade) (k : Nat) :
    ∃ rank < (k + 2) * f.binade, f.magnitude rank = a * 2 ^ k ∧
      (∀ num den, 0 < den → num ≤ a * 2 ^ k * den → f.nearestRank num den ≤ rank) ∧
      ∀ num den, 0 < den → a * 2 ^ k * den ≤ num → rank ≤ f.nearestRank num den := by
  obtain ⟨rank, hrank, hmagnitude⟩ := exists_magnitude_eq ha k
  refine ⟨rank, hrank, hmagnitude, fun num den hden hle => ?_, fun num den hden hle => ?_⟩
  · rw [← nearestRank_magnitude (f := f) rank]
    exact nearestRank_mono hden Nat.one_pos (by rwa [Nat.mul_one, hmagnitude])
  · rw [← nearestRank_magnitude (f := f) rank]
    exact nearestRank_mono Nat.one_pos hden (by rwa [Nat.mul_one, hmagnitude])

theorem magnitude_nearestRank_le (ha : a < 2 * f.binade) (hden : 0 < den)
    (h : num ≤ a * 2 ^ k * den) : f.magnitude (f.nearestRank num den) ≤ a * 2 ^ k := by
  obtain ⟨rank, -, hmagnitude, hle, -⟩ := exists_rank_of_bits ha k
  exact hmagnitude ▸ strictMono_magnitude.monotone (hle num den hden h)

theorem le_magnitude_nearestRank (ha : a < 2 * f.binade) (hden : 0 < den)
    (h : a * 2 ^ k * den ≤ num) : a * 2 ^ k ≤ f.magnitude (f.nearestRank num den) := by
  obtain ⟨rank, -, hmagnitude, -, hle⟩ := exists_rank_of_bits ha k
  exact hmagnitude ▸ strictMono_magnitude.monotone (hle num den hden h)

theorem nearestRank_lt (ha : a < 2 * f.binade) (hden : 0 < den) (h : num ≤ a * 2 ^ k * den) :
    f.nearestRank num den < (k + 2) * f.binade := by
  obtain ⟨rank, hrank, -, hle, -⟩ := exists_rank_of_bits ha k
  exact (hle num den hden h).trans_lt hrank

/-! ## Rounding twice -/

/-- The rank in single precision of a quotient that is rounded to double precision first. -/
def twiceRounded (num den : Nat) : Nat :=
  single.nearestRank (double.magnitude (double.nearestRank (num * double.one) den) * single.one)
    double.one

theorem exists_double_one : ∃ c ≤ 917, double.one = 256 * 2 ^ c * single.one :=
  ⟨917, le_rfl, by decide +kernel⟩

/-- A number that is rounded beyond a magnitude lies beyond the middle, or next to it. -/
theorem lt_of_lt_twiceRounded (hden : 0 < den) (h : rank < twiceRounded num den) :
    (129 * single.magnitude rank + 127 * single.magnitude (rank + 1)) * den <
      256 * (num * single.one) := by
  obtain ⟨e, m, -, hm, -, hlow, hhigh⟩ := exists_neighbours (f := single) rank
  obtain ⟨c, -, hone⟩ := exists_double_one
  rw [hlow, hhigh]
  by_contra hle
  have hle := Nat.not_lt.mp hle
  have hbits : 256 * m + 127 < 2 * double.binade := by
    have hbinade : 512 * single.binade < 2 * double.binade := by decide
    omega
  have hdouble : num * double.one ≤ (256 * m + 127) * 2 ^ (e + c) * den := by
    calc num * double.one = 256 * (num * single.one) * 2 ^ c := by rw [hone]; ring
      _ ≤ (129 * (m * 2 ^ e) + 127 * ((m + 1) * 2 ^ e)) * den * 2 ^ c :=
          Nat.mul_le_mul_right _ hle
      _ = (256 * m + 127) * 2 ^ (e + c) * den := by rw [Nat.pow_add]; ring
  have hmagnitude := magnitude_nearestRank_le hbits hden hdouble
  refine absurd h (Nat.not_lt.mpr (nearestRank_le_of_lt_midpoint double.one_pos ?_))
  rw [hlow, hhigh]
  calc 2 * (double.magnitude (double.nearestRank (num * double.one) den) * single.one)
      ≤ 2 * ((256 * m + 127) * 2 ^ (e + c) * single.one) := by gcongr
    _ = (512 * m + 254) * (2 ^ (e + c) * single.one) := by ring
    _ < (512 * m + 256) * (2 ^ (e + c) * single.one) :=
        Nat.mul_lt_mul_of_pos_right (by omega) (Nat.mul_pos (Nat.two_pow_pos _) single.one_pos)
    _ = (m * 2 ^ e + (m + 1) * 2 ^ e) * double.one := by rw [hone, Nat.pow_add]; ring

/-- A number that is not rounded beyond a magnitude lies before the middle, or next to it. -/
theorem lt_of_twiceRounded_le (hden : 0 < den) (h : twiceRounded num den ≤ rank) :
    256 * (num * single.one) <
      (127 * single.magnitude rank + 129 * single.magnitude (rank + 1)) * den := by
  obtain ⟨e, m, -, hm, -, hlow, hhigh⟩ := exists_neighbours (f := single) rank
  obtain ⟨c, -, hone⟩ := exists_double_one
  rw [hlow, hhigh]
  by_contra hle
  have hle := Nat.not_lt.mp hle
  have hbits : 256 * m + 129 < 2 * double.binade := by
    have hbinade : 512 * single.binade < 2 * double.binade := by decide
    omega
  have hdouble : (256 * m + 129) * 2 ^ (e + c) * den ≤ num * double.one := by
    calc (256 * m + 129) * 2 ^ (e + c) * den =
          (127 * (m * 2 ^ e) + 129 * ((m + 1) * 2 ^ e)) * den * 2 ^ c := by
          rw [Nat.pow_add]; ring
      _ ≤ 256 * (num * single.one) * 2 ^ c := Nat.mul_le_mul_right _ hle
      _ = num * double.one := by rw [hone]; ring
  have hmagnitude := le_magnitude_nearestRank hbits hden hdouble
  refine absurd h (Nat.not_le.mpr (lt_nearestRank_of_midpoint_lt double.one_pos ?_))
  rw [hlow, hhigh]
  calc (m * 2 ^ e + (m + 1) * 2 ^ e) * double.one
      = (512 * m + 256) * (2 ^ (e + c) * single.one) := by rw [hone, Nat.pow_add]; ring
    _ < (512 * m + 258) * (2 ^ (e + c) * single.one) :=
        Nat.mul_lt_mul_of_pos_right (by omega) (Nat.mul_pos (Nat.two_pow_pos _) single.one_pos)
    _ = 2 * ((256 * m + 129) * 2 ^ (e + c) * single.one) := by ring
    _ ≤ 2 * (double.magnitude (double.nearestRank (num * double.one) den) * single.one) := by
        gcongr

end BinaryFormat

end Worksheet
