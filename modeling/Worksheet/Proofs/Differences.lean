import Mathlib
import Worksheet.Proofs.Recalculation
import Worksheet.Proofs.Rounding

/-!
# What a report leaves out

Every cell of a patch and every one downstream of it resolves before and after, if there is
a report at all. It is left out of the report if its two values are equal, or are floats of
one precision that lie apart by no more than the tolerance, or of which one is undefined:
a number that becomes undefined is not reported, nor is one that was undefined before.
-/

namespace Worksheet

open Resolution
open BinaryFormat (single double)

namespace Binary

variable {x y : Binary32} {tolerance : Binary64}

/-- A finite number that is not negative. -/
structure IsTolerance (tolerance : Binary64) : Prop where
  exists_finite : ∃ negative rank, tolerance = .finite negative rank
  nonneg : (zero false : Binary64).exceeds tolerance = false

/-- The distance of two finite numbers, rounded once, is not above the tolerance. -/
def Near (tolerance : Binary64) (x y : Binary32) : Prop :=
  ∃ n, x.distance? y = some n ∧
    (ofRatio false n single.one : Binary64).exceeds tolerance = false

theorem zero_eq_finite (negative : Bool) :
    (zero negative : Binary64) = .finite negative ⟨0, by decide⟩ :=
  ofRank_eq_finite _

theorem place?_of_nonneg {negative : Bool} {bound : Fin double.finiteCount}
    (h : (zero false : Binary64).exceeds (.finite negative bound) = false) :
    (Binary.finite negative bound : Binary64).place? = some (bound : Int) := by
  cases negative with
  | false => rfl
  | true =>
      simp [zero_eq_finite, exceeds, place?] at h ⊢
      omega

theorem exceeds_iff {x y : Binary64} {a b : Int} (hx : x.place? = some a)
    (hy : y.place? = some b) : x.exceeds y ↔ b < a := by
  rw [exceeds, hx, hy, decide_eq_true_iff]

theorem place?_ofRank (rank : Nat) :
    (ofRank false rank : Binary64).place? = some (min rank double.finiteCount : Nat) := by
  unfold ofRank
  split
  next hrank => rw [Nat.min_eq_left hrank.le]; rfl
  next hrank => rw [Nat.min_eq_right (Nat.not_lt.mp hrank)]; rfl

theorem exceeds_ofRank_iff {negative : Bool} {bound : Fin double.finiteCount} {rank : Nat}
    (h : (zero false : Binary64).exceeds (.finite negative bound) = false) :
    (ofRank false rank : Binary64).exceeds (.finite negative bound) ↔ bound < rank := by
  have hbound := bound.isLt
  rw [exceeds_iff (place?_ofRank rank) (place?_of_nonneg h)]
  omega

theorem exceeds_abs_infinite (negative : Bool) (h : IsTolerance tolerance) :
    (infinite negative : Binary64).abs.exceeds tolerance := by
  obtain ⟨⟨sign, bound, rfl⟩, hnonneg⟩ := h
  have hplace : (infinite negative : Binary64).abs.place? = some (double.finiteCount : Int) := rfl
  rw [exceeds_iff hplace (place?_of_nonneg hnonneg), Nat.cast_lt]
  exact bound.isLt

/-- What lies apart by no more than the tolerance also does after rounding. -/
theorem near_of_le {negative : Bool} {bound : Fin double.finiteCount} {n : Nat}
    (h : IsTolerance (.finite negative bound)) (hdistance : x.distance? y = some n)
    (hle : n * double.one ≤ double.magnitude bound * single.one) :
    Near (.finite negative bound) x y := by
  refine ⟨n, hdistance, Bool.eq_false_iff.mpr fun hexceeds => ?_⟩
  rw [ofRatio, ofUnits, exceeds_ofRank_iff h.nonneg] at hexceeds
  have hrank : double.nearestRank (n * double.one) single.one ≤ bound :=
    calc double.nearestRank (n * double.one) single.one
        ≤ double.nearestRank (double.magnitude bound) 1 :=
          BinaryFormat.nearestRank_mono single.one_pos Nat.one_pos (by rwa [Nat.mul_one])
      _ = bound := BinaryFormat.nearestRank_magnitude _
  omega

/-- Equal numbers are of one sign and rank, or both are zeros. -/
theorem distance?_eq_zero_of_equals {s t : Bool} {a b : Fin single.finiteCount}
    (h : (finite s a : Binary32).equals (.finite t b)) :
    (finite s a : Binary32).distance? (.finite t b) = some 0 := by
  have hplace : (if s then -(a : Int) else a) = if t then -(b : Int) else b := by
    simpa [equals, place?] using h
  have hunits : single.signedUnits s a = single.signedUnits t b := by
    by_cases hst : s = t
    · subst hst
      have hab : (a : Nat) = b := by
        cases s <;> simpa using hplace
      rw [hab]
    · have hzero : (a : Nat) = 0 ∧ (b : Nat) = 0 := by
        cases s <;> cases t <;> simp_all
      simp [BinaryFormat.signedUnits, hzero]
  rw [distance?, hunits, Int.sub_self, Int.natAbs_zero]

theorem near_of_equals {s t : Bool} {a b : Fin single.finiteCount}
    (htolerance : IsTolerance tolerance) (h : (finite s a : Binary32).equals (.finite t b)) :
    Near tolerance (.finite s a) (.finite t b) := by
  refine ⟨0, distance?_eq_zero_of_equals h, ?_⟩
  rw [ofRatio, Nat.zero_mul, ofUnits_zero]
  exact htolerance.nonneg

theorem equals_comm (x y : Binary32) : x.equals y = y.equals x := by
  unfold equals
  cases x.place? <;> cases y.place? <;> simp [Bool.beq_comm]

theorem equals_infinite_finite (s t : Bool) (b : Fin single.finiteCount) :
    (infinite s : Binary32).equals (.finite t b) = false := by
  have hb := b.isLt
  cases s <;> cases t <;> simp [equals, place?] <;> omega

theorem equals_infinite (s t : Bool) : (infinite s : Binary32).equals (.infinite t) ↔ s = t := by
  have hcount : (single.finiteCount : Int) ≠ 0 := by decide
  cases s <;> cases t <;> simp [equals, place?] <;> omega

theorem not_near_infinite (s : Bool) : ¬ Near tolerance (.infinite s) y := by
  rintro ⟨n, hdistance, -⟩
  cases hdistance

theorem not_near_infinite_right (t : Bool) : ¬ Near tolerance x (.infinite t) := by
  rintro ⟨n, hdistance, -⟩
  cases x <;> cases hdistance

theorem sub_nan (x : Binary64) : x.sub .nan = .nan := by
  cases x <;> rfl

theorem exceeds_abs_nan : (nan : Binary64).abs.exceeds tolerance = false := rfl

theorem exceeds_infinite_finite (s t : Bool) (b : Fin single.finiteCount)
    (h : IsTolerance tolerance) :
    (((infinite s : Binary32).convert : Binary64).sub
      ((finite t b : Binary32).convert)).abs.exceeds tolerance := by
  obtain ⟨wide, hconvert, -⟩ := exists_convert_eq t b
  have hsub : (infinite s : Binary64).sub (.finite t wide) = .infinite s := rfl
  rw [hconvert, convert, hsub]
  exact exceeds_abs_infinite s h

theorem exceeds_finite_infinite (s t : Bool) (a : Fin single.finiteCount)
    (h : IsTolerance tolerance) :
    (((finite s a : Binary32).convert : Binary64).sub
      ((infinite t : Binary32).convert)).abs.exceeds tolerance := by
  obtain ⟨wide, hconvert, -⟩ := exists_convert_eq s a
  have hsub : (finite s wide : Binary64).sub (.infinite t) = .infinite !t := rfl
  rw [hconvert, convert, hsub]
  exact exceeds_abs_infinite (!t) h

/-- Infinity less itself is undefined, and less its opposite infinite. -/
theorem exceeds_infinite_iff (s t : Bool) (h : IsTolerance tolerance) :
    (((infinite s : Binary32).convert : Binary64).sub
      ((infinite t : Binary32).convert)).abs.exceeds tolerance ↔ s ≠ t := by
  have hinfinite := exceeds_abs_infinite s h
  have hsub : (infinite s : Binary64).sub (.infinite t) = if s = t then .nan else .infinite s := by
    cases s <;> cases t <;> rfl
  rw [convert, convert, hsub]
  split
  next hst => simp [hst, exceeds_abs_nan]
  next hst => simp [hst, hinfinite]

/-- The difference of two numbers is not above the tolerance if they are equal or near each
other, or if one of them is undefined. -/
theorem exceeds_abs_sub_eq_false_iff (htolerance : IsTolerance tolerance) :
    ((x.convert : Binary64).sub y.convert).abs.exceeds tolerance = false ↔
      x.equals y ∨ Near tolerance x y ∨ x = .nan ∨ y = .nan := by
  have hnan : ((nan : Binary32).convert : Binary64) = .nan := rfl
  cases x with
  | nan =>
      have hsub : (nan : Binary64).sub y.convert = .nan := rfl
      simp [hnan, hsub, exceeds_abs_nan]
  | infinite s =>
      cases y with
      | nan => simp [hnan, sub_nan, exceeds_abs_nan]
      | infinite t =>
          rw [← Bool.not_eq_true, exceeds_infinite_iff s t htolerance]
          simp [equals_infinite, not_near_infinite]
      | finite t b =>
          simp [exceeds_infinite_finite s t b htolerance, equals_infinite_finite, not_near_infinite]
  | finite s a =>
      cases y with
      | nan => simp [hnan, sub_nan, exceeds_abs_nan]
      | infinite t =>
          rw [exceeds_finite_infinite s t a htolerance, equals_comm]
          simp [equals_infinite_finite, not_near_infinite_right]
      | finite t b =>
          have hnear : Near tolerance (.finite s a) (.finite t b) ↔
              (ofRatio false (single.signedUnits s a - single.signedUnits t b).natAbs
                single.one : Binary64).exceeds tolerance = false := by
            simp [Near, distance?]
          rw [abs_sub_convert rfl, ← hnear]
          simp only [reduceCtorEq, or_false]
          exact ⟨.inr, fun h => h.elim (near_of_equals htolerance) id⟩

end Binary

namespace Simple

variable {tolerance : Binary64} {a b : Simple}

/-- Values that are equal, floats of one precision within the tolerance of each other, and
those of which one is undefined. -/
inductive Alike (tolerance : Binary64) : Simple → Simple → Prop
  | equal {a b : Simple} : a.equals b → Alike tolerance a b
  | near {x y : Binary32} {precision : Nat} : Binary.Near tolerance x y →
      Alike tolerance (.float x precision) (.float y precision)
  | undefined {x y : Binary32} {precision : Nat} : x = .nan ∨ y = .nan →
      Alike tolerance (.float x precision) (.float y precision)

theorem alike_float_iff {x y : Binary32} {p q : Nat} :
    Alike tolerance (.float x p) (.float y q) ↔
      p = q ∧ (x.equals y ∨ Binary.Near tolerance x y ∨ x = .nan ∨ y = .nan) := by
  constructor
  · intro h
    cases h with
    | equal h =>
        obtain ⟨hequals, hprecision⟩ : x.equals y ∧ p = q := by simpa [equals] using h
        exact ⟨hprecision, .inl hequals⟩
    | near h => exact ⟨rfl, .inr (.inl h)⟩
    | undefined h => exact ⟨rfl, .inr (.inr h)⟩
  · rintro ⟨rfl, h | h | h⟩
    · exact .equal (by simpa [equals] using h)
    · exact .near h
    · exact .undefined h

theorem alike_iff_equals (h : ∀ x p, a ≠ .float x p) : Alike tolerance a b ↔ a.equals b := by
  constructor
  · intro halike
    cases halike with
    | equal h => exact h
    | near => exact absurd rfl (h _ _)
    | undefined => exact absurd rfl (h _ _)
  · exact .equal

/-- Two resolved values count as different exactly if they are not alike. -/
theorem differs_eq_false_iff (htolerance : Binary.IsTolerance tolerance) :
    a.differs tolerance b = false ↔ Alike tolerance a b := by
  cases a with
  | float x p =>
      cases b with
      | float y q =>
          rw [alike_float_iff, ← Binary.exceeds_abs_sub_eq_false_iff htolerance]
          simp [differs]
      | _ =>
          refine iff_of_false (by simp [differs, equals]) fun halike => ?_
          cases halike with
          | equal h => simp [equals] at h
  | _ =>
      rw [alike_iff_equals (by simp)]
      simp [differs]

end Simple

namespace Calculator

variable {calculator : Calculator} {before : Grid} {start : Cell} {name : String}
  {rows : List (List Value)} {tolerance : Binary64} {report : Report}

/-- Where there is a report, whatever is watched resolves before and after. -/
theorem resolves_of_report {patch : Block Value} {after : Grid} {readers : List Cell}
    (hgrid : calculator.grid = some before)
    (hreport : (calculator.recalculate start name rows tolerance).report = .ok report)
    (hafter : (calculator.recalculate start name rows tolerance).calculator.grid = some after)
    (hpatch : Block.ofRows rows = .ok patch)
    (h : Recalculated calculator.dependencies before after start name patch tolerance readers
      report) :
    ∀ cell ∈ watchedCells before report.patched readers,
      (∃ old, (Value.reference cell).resolve before = .ok old) ∧
        ∃ new, (Value.reference cell).resolve after = .ok new := by
  cases happly : applyPatch before calculator.dependencies start name rows with
  | error fault =>
      rw [recalculate_of_error hgrid happly] at hreport
      simp at hreport
  | ok applied =>
      rw [recalculate_of_ok hgrid happly] at hreport hafter
      obtain ⟨patch', readers', entries, after', hpatch', hreaders, hentries, -, rfl⟩ :=
        applyPatch_eq_ok_iff.mp happly
      obtain rfl := Except.ok.inj (hpatch.symm.trans hpatch')
      obtain rfl := Option.some.inj hafter
      rw [← h.patched] at hreaders hentries
      obtain rfl := Except.ok.inj (h.downstream.symm.trans hreaders)
      obtain ⟨news, hnews, -⟩ := Except.map_eq_ok_iff.mp hreport
      rw [Applied.watched, map_fst_of_resolveCells hentries] at hnews
      exact fun cell hcell => ⟨exists_resolveCells_eq_ok_iff.mp ⟨entries, hentries⟩ cell hcell,
        exists_resolveCells_eq_ok_iff.mp ⟨news, hnews⟩ cell hcell⟩

/-- A cell of a patch or downstream of it is left out of the report exactly if its values
before and after are alike. Numbers are, unless their distance is above the tolerance. -/
theorem recalculate_omits_iff (htolerance : Binary.IsTolerance tolerance)
    (hgrid : calculator.grid = some before)
    (hreport : (calculator.recalculate start name rows tolerance).report = .ok report) :
    ∃ after readers, before.apply start name rows = .ok after ∧
      calculator.dependencies.downstream report.patched = .ok readers ∧
      (∀ cell, cell ∈ report.patched ∨ cell ∈ readers →
        ∃ old new, (Value.reference cell).resolve before = .ok old ∧
          (Value.reference cell).resolve after = .ok new ∧
          (cell ∉ report.changed ↔ old.Alike tolerance new)) ∧
      ∀ (negative : Bool) (bound : Fin double.finiteCount) (x y : Binary32) (n : Nat),
        tolerance = .finite negative bound → x.distance? y = some n →
        n * double.one ≤ double.magnitude bound * single.one → Binary.Near tolerance x y := by
  obtain ⟨patch, after, readers, hpatch, hafter, h⟩ := recalculated_of_report hgrid hreport
  refine ⟨after, readers, by rw [Grid.apply, hpatch, Except.ok_bind, h.applied], h.downstream,
    fun cell hcell => ?_, ?_⟩
  · have hwatched := h.mem_watchedCells_iff.mpr hcell
    obtain ⟨⟨old, hold⟩, new, hnew⟩ :=
      resolves_of_report hgrid hreport hafter hpatch h cell hwatched
    refine ⟨old, new, hold, hnew, ?_⟩
    rw [← Simple.differs_eq_false_iff htolerance, ← Bool.not_eq_true, not_iff_not]
    exact h.mem_changed_iff_differs hwatched hold hnew
  · rintro negative bound x y n rfl hdistance hle
    exact Binary.near_of_le htolerance hdistance hle

/-- Zero beside its remainder by seven. -/
def remainderBySeven : Grid :=
  ⟨1, 2, #v[#v[.simple (.float (.zero false) 1),
    .call "MOD" [.reference ⟨0, 0⟩, .simple (.float (.finite false ⟨0x40e00000, by decide⟩) 1)]]]⟩

/-- The same remainder of infinity. -/
def remainderOfInfinity : Grid :=
  ⟨1, 2, #v[#v[.simple (.float (.infinite false) 1),
    .call "MOD" [.reference ⟨0, 0⟩, .simple (.float (.finite false ⟨0x40e00000, by decide⟩) 1)]]]⟩

/-- Infinity is added, and nothing is said of the remainder. -/
def infinityReport : Report :=
  ⟨"ADD", ⟨0, 0⟩, [⟨0, 0⟩],
    [⟨⟨0, 0⟩, .float (.zero false) 1, .float (.infinite false) 1, none⟩]⟩

theorem report_remainderBySeven :
    ((load remainderBySeven).recalculate ⟨0, 0⟩ "ADD"
      [[.simple (.float (.infinite false) 1)]] (.zero false)).report = .ok infinityReport := by
  set_option maxRecDepth 4096 in cbv

theorem downstream_remainderBySeven :
    (load remainderBySeven).dependencies.downstream infinityReport.patched = .ok [⟨0, 1⟩] := by
  cbv

/-- The remainder was zero and is undefined now, but it is not among the changes. -/
theorem recalculate_remainderBySeven :
    ((load remainderBySeven).recalculate ⟨0, 0⟩ "ADD"
        [[.simple (.float (.infinite false) 1)]] (.zero false)).report = .ok infinityReport ∧
      (load remainderBySeven).dependencies.downstream infinityReport.patched = .ok [⟨0, 1⟩] ∧
      remainderBySeven.apply ⟨0, 0⟩ "ADD" [[.simple (.float (.infinite false) 1)]] =
        .ok remainderOfInfinity ∧
      (Value.reference ⟨0, 1⟩).resolve remainderBySeven = .ok (.float (.zero false) 1) ∧
      (Value.reference ⟨0, 1⟩).resolve remainderOfInfinity = .ok (.float .nan 1) ∧
      ⟨0, 1⟩ ∉ infinityReport.changed :=
  ⟨report_remainderBySeven, downstream_remainderBySeven, by cbv, by cbv, by cbv, by decide⟩

/-- The two values of the remainder count as alike. -/
theorem recalculate_omits_remainderBySeven :
    Binary.IsTolerance (.zero false) ∧
      ((load remainderBySeven).recalculate ⟨0, 0⟩ "ADD"
        [[.simple (.float (.infinite false) 1)]] (.zero false)).report = .ok infinityReport ∧
      ∃ after readers, remainderBySeven.apply ⟨0, 0⟩ "ADD"
          [[.simple (.float (.infinite false) 1)]] = .ok after ∧
        (load remainderBySeven).dependencies.downstream infinityReport.patched = .ok readers ∧
        ⟨0, 1⟩ ∈ readers ∧
        ∃ old new, (Value.reference ⟨0, 1⟩).resolve remainderBySeven = .ok old ∧
          (Value.reference ⟨0, 1⟩).resolve after = .ok new ∧ old.Alike (.zero false) new := by
  have htolerance : Binary.IsTolerance (.zero false) :=
    ⟨⟨_, _, Binary.zero_eq_finite false⟩, by cbv⟩
  obtain ⟨after, readers, hafter, hreaders, homits, -⟩ :=
    recalculate_omits_iff htolerance rfl report_remainderBySeven
  obtain rfl := Except.ok.inj (downstream_remainderBySeven.symm.trans hreaders)
  obtain ⟨old, new, hold, hnew, halike⟩ := homits ⟨0, 1⟩ (.inr List.mem_cons_self)
  exact ⟨htolerance, report_remainderBySeven, after, _, hafter, hreaders, List.mem_cons_self, old,
    new, hold, hnew, halike.mp (by decide)⟩

end Calculator

end Worksheet
