import Mathlib
import Worksheet.Binary.Arithmetic

/-!
# Rounding of magnitudes

Rounding to the nearest magnitude keeps the order of the numbers that are rounded, does not
depend on how their quotient is written, and leaves magnitudes as they are. A number of
fewer bits than a significand has is a magnitude at every scale, so that numbers of single
precision are converted to double precision without loss.
-/

namespace Worksheet

theorem roundHalfEven_mul_mul {num den c : Nat} (hc : 0 < c) :
    roundHalfEven (num * c) (den * c) = roundHalfEven num den := by
  unfold roundHalfEven
  have hlt : ∀ a b : Nat, a * c < b * c ↔ a < b := fun a b => Nat.mul_lt_mul_right hc
  simp only [Nat.mul_div_mul_right _ _ hc, Nat.mul_mod_mul_right, ← Nat.mul_assoc, hlt]

theorem roundHalfEven_mul_self (n : Nat) {c : Nat} (hc : 0 < c) : roundHalfEven (n * c) c = n :=
  calc roundHalfEven (n * c) c = roundHalfEven (n * c) (1 * c) := by rw [Nat.one_mul]
    _ = roundHalfEven n 1 := roundHalfEven_mul_mul hc
    _ = n := roundHalfEven_one n

theorem div_le_roundHalfEven (num den : Nat) : num / den ≤ roundHalfEven num den := by
  unfold roundHalfEven
  dsimp only
  split
  · exact Nat.le_refl _
  · split <;> omega

theorem roundHalfEven_le (num den : Nat) : roundHalfEven num den ≤ num / den + 1 := by
  unfold roundHalfEven
  dsimp only
  split
  · omega
  · split <;> omega

theorem div_le_div_of_mul_le {num den num' den' : Nat} (hden : 0 < den) (hden' : 0 < den')
    (h : num * den' ≤ num' * den) : num / den ≤ num' / den' := by
  rw [Nat.le_div_iff_mul_le hden']
  refine Nat.le_of_mul_le_mul_right ?_ hden
  calc num / den * den' * den = num / den * den * den' := by ring
    _ ≤ num * den' := Nat.mul_le_mul_right _ (Nat.div_mul_le_self num den)
    _ ≤ num' * den := h

/-- Quotients in order are rounded in order. -/
theorem roundHalfEven_mono {num den num' den' : Nat} (hden : 0 < den) (hden' : 0 < den')
    (h : num * den' ≤ num' * den) : roundHalfEven num den ≤ roundHalfEven num' den' := by
  obtain hlt | heq := (div_le_div_of_mul_le hden hden' h).lt_or_eq
  · calc roundHalfEven num den ≤ num / den + 1 := roundHalfEven_le num den
      _ ≤ num' / den' := hlt
      _ ≤ roundHalfEven num' den' := div_le_roundHalfEven num' den'
  · -- The whole parts agree, so that the remainders are in order.
    have hrest : num % den * den' ≤ num' % den' * den := by
      have hnum := Nat.div_add_mod num den
      have hnum' := Nat.div_add_mod num' den'
      rw [← hnum, ← hnum', heq] at h
      nlinarith
    have hbelow : 2 * (num' % den') < den' → 2 * (num % den) < den := by
      intro hlt
      by_contra hge
      nlinarith [Nat.not_lt.mp hge]
    have hhalf : 2 * (num' % den') ≤ den' → 2 * (num % den) ≤ den := by
      intro hle
      by_contra hgt
      nlinarith [Nat.not_le.mp hgt]
    unfold roundHalfEven
    rw [heq]
    dsimp only
    split <;> split <;> (try split) <;> (try split) <;> omega

namespace BinaryFormat

variable (f : BinaryFormat)

theorem binade_eq : f.binade = 2 ^ f.fractionBits := by
  rw [binade, Nat.one_shiftLeft]

/-- The binades above the first by which a number is scaled down to a significand. -/
def scale (n : Nat) : Nat :=
  n.log2 - f.fractionBits

theorem nearestRank_eq (num den : Nat) :
    f.nearestRank num den = f.scale (num / den) * f.binade +
      roundHalfEven num (den * 2 ^ f.scale (num / den)) := by
  rw [nearestRank, scale, Nat.shiftLeft_eq]

variable {f}

theorem lt_two_pow_scale (n : Nat) : n < 2 ^ f.scale n * (2 * f.binade) := by
  have hlog := Nat.lt_log2_self (n := n)
  rw [binade_eq, ← Nat.pow_succ', ← Nat.pow_add]
  refine hlog.trans_le (Nat.pow_le_pow_right (by decide) ?_)
  unfold scale
  omega

theorem two_pow_scale_le {n : Nat} (h : 0 < f.scale n) : 2 ^ f.scale n * f.binade ≤ n := by
  unfold scale at h ⊢
  have hlog := Nat.log2_self_le (n := n) (by rintro rfl; simp at h)
  rw [binade_eq, ← Nat.pow_add]
  refine le_trans (Nat.pow_le_pow_right (by decide) ?_) hlog
  omega

theorem scale_mono {m n : Nat} (h : m ≤ n) : f.scale m ≤ f.scale n := by
  by_contra hgt
  have hm : f.scale n + 1 ≤ f.scale m := Nat.not_le.mp hgt
  have hlow := two_pow_scale_le (f := f) (n := m) (by omega)
  have hhigh := lt_two_pow_scale (f := f) n
  have hpow := Nat.pow_le_pow_right (n := 2) (by decide) hm
  rw [Nat.pow_succ] at hpow
  nlinarith [f.binade_pos]

theorem scale_eq_zero {n : Nat} (h : n < 2 * f.binade) : f.scale n = 0 := by
  by_contra hscale
  have hlow := two_pow_scale_le (f := f) (Nat.pos_of_ne_zero hscale)
  have hpow := Nat.pow_le_pow_right (n := 2) (by decide) (Nat.pos_of_ne_zero hscale)
  nlinarith [f.binade_pos]

theorem scale_eq {n e : Nat} (hlow : 2 ^ e * f.binade ≤ n) (hhigh : n < 2 ^ e * (2 * f.binade)) :
    f.scale n = e := by
  rw [binade_eq, ← Nat.pow_add] at hlow
  rw [binade_eq, ← Nat.pow_succ', ← Nat.pow_add] at hhigh
  have hlog : n.log2 = e + f.fractionBits :=
    (Nat.log2_eq_iff (Nat.ne_of_gt ((Nat.two_pow_pos _).trans_le hlow))).mpr ⟨hlow, hhigh⟩
  rw [scale, hlog, Nat.add_sub_cancel]

section Quotient

variable {num den num' den' : Nat}

theorem roundHalfEven_scaled_le :
    roundHalfEven num (den * 2 ^ f.scale (num / den)) ≤ 2 * f.binade := by
  refine (roundHalfEven_le _ _).trans ?_
  rw [← Nat.div_div_eq_div_mul]
  exact (Nat.div_lt_iff_lt_mul (Nat.two_pow_pos _)).mpr
    (by rw [Nat.mul_comm]; exact lt_two_pow_scale _)

theorem binade_le_roundHalfEven_scaled (h : 0 < f.scale (num / den)) :
    f.binade ≤ roundHalfEven num (den * 2 ^ f.scale (num / den)) := by
  refine le_trans ?_ (div_le_roundHalfEven _ _)
  rw [← Nat.div_div_eq_div_mul, Nat.le_div_iff_mul_le (Nat.two_pow_pos _), Nat.mul_comm]
  exact two_pow_scale_le h

theorem nearestRank_le : f.nearestRank num den ≤ (f.scale (num / den) + 2) * f.binade := by
  rw [nearestRank_eq, Nat.add_mul]
  exact Nat.add_le_add_left roundHalfEven_scaled_le _

/-- Numbers in order are rounded in order. -/
theorem nearestRank_mono (hden : 0 < den) (hden' : 0 < den') (h : num * den' ≤ num' * den) :
    f.nearestRank num den ≤ f.nearestRank num' den' := by
  have hscale := scale_mono (f := f) (div_le_div_of_mul_le hden hden' h)
  obtain hlt | heq := hscale.lt_or_eq
  · calc f.nearestRank num den ≤ (f.scale (num / den) + 2) * f.binade := nearestRank_le
      _ ≤ f.scale (num' / den') * f.binade + f.binade := by
          rw [← Nat.succ_mul]
          exact Nat.mul_le_mul_right _ (by omega)
      _ ≤ f.nearestRank num' den' := by
          rw [nearestRank_eq]
          exact Nat.add_le_add_left
            (binade_le_roundHalfEven_scaled (Nat.zero_lt_of_lt hlt)) _
  · rw [nearestRank_eq, nearestRank_eq, heq]
    refine Nat.add_le_add_left (roundHalfEven_mono (Nat.mul_pos hden (Nat.two_pow_pos _))
      (Nat.mul_pos hden' (Nat.two_pow_pos _)) ?_) _
    nlinarith [Nat.mul_le_mul_right (2 ^ f.scale (num' / den')) h]

theorem nearestRank_mul_mul {c : Nat} (hc : 0 < c) :
    f.nearestRank (num * c) (den * c) = f.nearestRank num den := by
  rw [nearestRank_eq, nearestRank_eq, Nat.mul_div_mul_right _ _ hc, Nat.mul_right_comm,
    roundHalfEven_mul_mul hc]

theorem nearestRank_mul_self (n : Nat) {c : Nat} (hc : 0 < c) :
    f.nearestRank (n * c) c = f.nearestRank n 1 :=
  calc f.nearestRank (n * c) c = f.nearestRank (n * c) (1 * c) := by rw [Nat.one_mul]
    _ = f.nearestRank n 1 := nearestRank_mul_mul hc

end Quotient

section Magnitude

variable {rank a k : Nat}

theorem magnitude_of_lt (h : rank < 2 * f.binade) : f.magnitude rank = rank := by
  unfold magnitude
  split
  next => rfl
  next hlow =>
      have hdiv : rank / f.binade = 1 := by
        rw [Nat.div_eq_iff f.binade_pos]
        omega
      have hmod := Nat.div_add_mod rank f.binade
      rw [hdiv] at hmod ⊢
      simp
      omega

/-- From the first binade on, a binade further doubles a magnitude. -/
theorem magnitude_add_binade (h : f.binade ≤ rank) :
    f.magnitude (rank + f.binade) = 2 * f.magnitude rank := by
  have hdiv : 1 ≤ rank / f.binade := (Nat.one_le_div_iff f.binade_pos).mpr h
  rw [magnitude, magnitude, if_neg (by omega), if_neg (by omega), Nat.add_mod_right,
    Nat.add_div_right _ f.binade_pos, Nat.shiftLeft_eq, Nat.shiftLeft_eq,
    show (rank / f.binade).succ - 1 = rank / f.binade - 1 + 1 by omega, Nat.pow_succ]
  ring

/-- A number that fits a significand is a magnitude at every scale. -/
theorem exists_magnitude_eq (h : a < 2 * f.binade) (k : Nat) :
    ∃ rank < (k + 2) * f.binade, f.magnitude rank = a * 2 ^ k := by
  induction k with
  | zero => exact ⟨a, by omega, by rw [magnitude_of_lt h, Nat.pow_zero, Nat.mul_one]⟩
  | succ k ih =>
      obtain ⟨rank, hrank, hmagnitude⟩ := ih
      rw [Nat.pow_succ, ← Nat.mul_assoc, ← hmagnitude, Nat.mul_comm _ 2]
      by_cases hlow : rank < f.binade
      · refine ⟨2 * rank, by nlinarith, ?_⟩
        rw [magnitude_of_lt (by omega), magnitude_of_lt (by omega)]
      · refine ⟨rank + f.binade, by nlinarith, magnitude_add_binade (Nat.not_lt.mp hlow)⟩

/-- A magnitude is a significand at the scale of its binade. -/
theorem exists_eq_magnitude (rank : Nat) :
    ∃ a k, a < 2 * f.binade ∧ f.magnitude rank = a * 2 ^ k ∧ k ≤ rank / f.binade := by
  unfold magnitude
  split
  next h => exact ⟨rank, 0, by omega, by simp, Nat.zero_le _⟩
  next h =>
      have hmod := Nat.mod_lt rank f.binade_pos
      exact ⟨f.binade + rank % f.binade, rank / f.binade - 1, by omega, Nat.shiftLeft_eq _ _,
        Nat.sub_le _ _⟩

/-- A magnitude is rounded to itself. -/
theorem nearestRank_magnitude (rank : Nat) : f.nearestRank (f.magnitude rank) 1 = rank := by
  rw [nearestRank_eq, Nat.div_one, Nat.one_mul]
  by_cases hlow : rank < f.binade
  · have hrank : rank < 2 * f.binade := by omega
    rw [magnitude_of_lt hrank, scale_eq_zero hrank, Nat.pow_zero, roundHalfEven_one, Nat.zero_mul,
      Nat.zero_add]
  · obtain ⟨e, he⟩ : ∃ e, rank / f.binade = e + 1 :=
      Nat.exists_eq_add_one.mpr (Nat.div_pos (Nat.not_lt.mp hlow) f.binade_pos)
    have hrest := Nat.mod_lt rank f.binade_pos
    have hmagnitude : f.magnitude rank = (f.binade + rank % f.binade) * 2 ^ e := by
      rw [magnitude, if_neg hlow, he, Nat.shiftLeft_eq, Nat.add_sub_cancel]
    have hscale : f.scale (f.magnitude rank) = e := by
      refine scale_eq ?_ ?_
      · rw [hmagnitude, Nat.mul_comm]
        exact Nat.mul_le_mul_right _ (Nat.le_add_right _ _)
      · rw [hmagnitude, Nat.mul_comm]
        exact Nat.mul_lt_mul_of_pos_left (by omega) (Nat.two_pow_pos _)
    have hround : roundHalfEven (f.magnitude rank) (2 ^ e) = f.binade + rank % f.binade := by
      rw [hmagnitude, roundHalfEven_mul_self _ (Nat.two_pow_pos _)]
    rw [hscale, hround]
    calc e * f.binade + (f.binade + rank % f.binade)
        = f.binade * (rank / f.binade) + rank % f.binade := by rw [he]; ring
      _ = rank := Nat.div_add_mod rank f.binade

variable {g : BinaryFormat} {wide c d : Nat}

theorem signedUnits_not (negative : Bool) (rank : Nat) :
    f.signedUnits (!negative) rank = -f.signedUnits negative rank := by
  cases negative <;> simp [signedUnits]

theorem signedUnits_mul_eq_mul (negative : Bool)
    (h : g.magnitude wide * d = f.magnitude rank * c) :
    g.signedUnits negative wide * d = f.signedUnits negative rank * c := by
  have hunits : (g.magnitude wide : Int) * d = f.magnitude rank * c := by exact_mod_cast h
  cases negative <;> simp [signedUnits, hunits]

end Magnitude

end BinaryFormat

namespace Binary

open BinaryFormat (single double)

variable {f : BinaryFormat}

theorem exists_one_double : ∃ k ≤ 925, double.one = 2 ^ k * single.one :=
  ⟨925, Nat.le_refl _, by decide +kernel⟩

theorem ofRank_eq_finite {negative : Bool} {rank : Nat} (h : rank < f.finiteCount) :
    ofRank negative rank = .finite negative ⟨rank, h⟩ :=
  dif_pos h

theorem abs_ofRank (negative : Bool) (rank : Nat) :
    (ofRank negative rank : Binary f).abs = ofRank false rank := by
  unfold ofRank
  split <;> rfl

theorem ofUnits_zero (negative : Bool) (den : Nat) :
    (ofUnits negative 0 den : Binary f) = zero negative := by
  have hrank : f.nearestRank 0 den = 0 := by
    simp [BinaryFormat.nearestRank, roundHalfEven]
  rw [ofUnits, hrank, zero]

/-- Single precision is converted to double precision without loss. -/
theorem exists_convert_eq (negative : Bool) (rank : Fin single.finiteCount) :
    ∃ wide : Fin double.finiteCount,
      ((.finite negative rank : Binary32).convert : Binary64) = .finite negative wide ∧
        double.magnitude wide * single.one = single.magnitude rank * double.one := by
  obtain ⟨a, j, ha, hmagnitude, hj⟩ := BinaryFormat.exists_eq_magnitude (f := single) rank
  obtain ⟨k, hk, hone⟩ := exists_one_double
  have hbinade : 2 * single.binade ≤ 2 * double.binade := by decide
  obtain ⟨wide, hwide, hequal⟩ :=
    BinaryFormat.exists_magnitude_eq (ha.trans_le hbinade) (j + k)
  have hj' : j < 255 := hj.trans_lt ((Nat.div_lt_iff_lt_mul single.binade_pos).mpr rank.isLt)
  have hcount : double.finiteCount = 2047 * double.binade := rfl
  have hfinite : wide < double.finiteCount := by
    rw [hcount]
    exact hwide.trans_le (Nat.mul_le_mul_right _ (by omega))
  have hunits : double.magnitude wide * single.one = single.magnitude rank * double.one := by
    rw [hequal, hmagnitude, hone, Nat.pow_add]
    ring
  refine ⟨⟨wide, hfinite⟩, ?_, hunits⟩
  rw [convert, ofRatio, ofUnits, ← hunits, BinaryFormat.nearestRank_mul_self _ single.one_pos,
    BinaryFormat.nearestRank_magnitude, ofRank_eq_finite hfinite]

/-- How far two numbers lie apart, in units; of undefined and infinite ones nothing is said. -/
def distance? : Binary f → Binary f → Option Nat
  | .finite s a, .finite t b => some (f.signedUnits s a - f.signedUnits t b).natAbs
  | _, _ => none

theorem abs_sub_finite {s t : Bool} {a b : Fin f.finiteCount} :
    ((.finite s a : Binary f).sub (.finite t b)).abs =
      ofUnits false (f.signedUnits s a - f.signedUnits t b).natAbs 1 := by
  rw [sub, negate, add, BinaryFormat.signedUnits_not, ← Int.sub_eq_add_neg]
  generalize f.signedUnits s a - f.signedUnits t b = difference
  split
  next hzero => rw [hzero, Int.natAbs_zero, ofUnits_zero, zero, abs_ofRank, zero]
  next => rw [ofUnits, abs_ofRank, ofUnits]

/-- The difference of two numbers of single precision is computed as their distance, rounded
once. -/
theorem abs_sub_convert {x y : Binary32} {n : Nat} (h : x.distance? y = some n) :
    ((x.convert : Binary64).sub y.convert).abs = ofRatio false n single.one := by
  cases x with
  | nan => cases h
  | infinite _ => cases h
  | finite s a =>
      cases y with
      | nan => cases h
      | infinite _ => cases h
      | finite t b =>
          obtain rfl := Option.some.inj h
          obtain ⟨wideA, hconvertA, hunitsA⟩ := exists_convert_eq s a
          obtain ⟨wideB, hconvertB, hunitsB⟩ := exists_convert_eq t b
          have hdistance :
              (double.signedUnits s wideA - double.signedUnits t wideB).natAbs * single.one =
                (single.signedUnits s a - single.signedUnits t b).natAbs * double.one := by
            rw [← Int.natAbs_natCast single.one, ← Int.natAbs_natCast double.one,
              ← Int.natAbs_mul, ← Int.natAbs_mul, Int.sub_mul, Int.sub_mul,
              BinaryFormat.signedUnits_mul_eq_mul s hunitsA,
              BinaryFormat.signedUnits_mul_eq_mul t hunitsB]
          rw [hconvertA, hconvertB, abs_sub_finite, ofRatio, ← hdistance, ofUnits, ofUnits,
            BinaryFormat.nearestRank_mul_self _ single.one_pos]

end Binary

end Worksheet
