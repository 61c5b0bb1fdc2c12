import Worksheet.Binary.Decimal
import Worksheet.Proofs.Midpoint
import Worksheet.Proofs.Redisplay
import Worksheet.Proofs.Unreadable

/-!
# Displayed decimals are read back

A finite float with at least one decimal place is displayed as a decimal that is read as a
float with the same display. It need not be the same float where the decimal places are
coarser than floats are. Where they are finer, two roundings in a row could go wrong only
if a unit of the last place were about as large as the spacing of the floats, but no power
of ten is that close to a power of two.
-/

namespace Worksheet

namespace BinaryFormat

variable {rank places count e : Nat}

/-- Powers of ten from ten on keep a hundredth away from the powers of two. -/
theorem le_of_lt_one_single (hplaces : 0 < places)
    (h : 127 * (2 ^ e * 10 ^ places) < 128 * single.one) :
    129 * (2 ^ e * 10 ^ places) ≤ 128 * single.one := by
  have hplaces' : places < 46 := by
    by_contra hlarge
    have hpow : 10 ^ 46 ≤ 10 ^ places := Nat.pow_le_pow_right (by decide) (Nat.not_lt.mp hlarge)
    have hone : 128 * single.one ≤ 127 * 10 ^ 46 := by decide +kernel
    have htwo := Nat.le_mul_of_pos_left (10 ^ places) (Nat.two_pow_pos e)
    omega
  have he : e < 150 := by
    by_contra hlarge
    have hpow : 2 ^ 150 ≤ 2 ^ e := Nat.pow_le_pow_right (by decide) (Nat.not_lt.mp hlarge)
    have hone : 128 * single.one ≤ 127 * 2 ^ 150 := by decide +kernel
    have hten := Nat.le_mul_of_pos_right (2 ^ e) (Nat.pow_pos (n := places) (show 0 < 10 by decide))
    omega
  have hall : ∀ places < 46, 0 < places → ∀ e < 150,
      127 * (2 ^ e * 10 ^ places) < 128 * single.one →
      129 * (2 ^ e * 10 ^ places) ≤ 128 * single.one := by decide +kernel
  exact hall places hplaces' hplaces e he h

/-- What is displayed of a magnitude lies within half a unit of the last place. -/
theorem scaled_bounds (rank places : Nat) :
    2 * (single.magnitude rank * 10 ^ places) ≤
        2 * (Binary.scaled single places rank * single.one) + single.one ∧
      2 * (Binary.scaled single places rank * single.one) ≤
        2 * (single.magnitude rank * 10 ^ places) + single.one :=
  gap_le_iff.mp (gap_roundHalfEven _ single.one_pos)

/-- A magnitude that lies as close, but strictly, is displayed as the same. -/
theorem scaled_eq
    (hlow : 2 * (single.magnitude rank * 10 ^ places) < 2 * (count * single.one) + single.one)
    (hhigh : 2 * (count * single.one) < 2 * (single.magnitude rank * 10 ^ places) + single.one) :
    Binary.scaled single places rank = count :=
  roundHalfEven_eq_of_gap_lt single.one_pos (gap_lt_iff.mpr ⟨hlow, hhigh⟩)

/-- The spacing of the magnitudes from some rank on, in units of the last place. -/
theorem exists_spacing (rank places : Nat) :
    ∃ e, single.magnitude (rank + 1) * 10 ^ places =
      single.magnitude rank * 10 ^ places + 2 ^ e * 10 ^ places := by
  obtain ⟨e, m, -, -, -, hlow, hhigh⟩ := exists_neighbours (f := single) rank
  refine ⟨e, ?_⟩
  rw [hlow, hhigh]
  ring

/-- What is displayed and read again at a rank is displayed as before, and the new rank is
at most a unit above the old one. -/
theorem scaled_twiceRounded (hplaces : 0 < places) (rank : Nat) :
    Binary.scaled single places (twiceRounded (Binary.scaled single places rank) (10 ^ places)) =
      Binary.scaled single places rank ∧
    single.magnitude (twiceRounded (Binary.scaled single places rank) (10 ^ places)) <
      single.magnitude rank + single.one := by
  obtain ⟨hround, hround'⟩ := scaled_bounds rank places
  generalize hcount : Binary.scaled single places rank = count at hround hround' ⊢
  have hten : 0 < 10 ^ places := Nat.pow_pos (by decide)
  have hmono : ∀ {a b}, a ≤ b →
      single.magnitude a * 10 ^ places ≤ single.magnitude b * 10 ^ places := fun h =>
    Nat.mul_le_mul_right _ (strictMono_magnitude.monotone h)
  have hone := Nat.le_mul_of_pos_right single.one hten
  generalize hrank' : twiceRounded count (10 ^ places) = rank'
  rcases Nat.lt_trichotomy rank rank' with hlt | rfl | hgt
  · -- The magnitude before the new one is not below the old one.
    obtain ⟨low, rfl⟩ := Nat.exists_eq_add_one.mpr (Nat.zero_lt_of_lt hlt)
    have hbeyond := lt_of_lt_twiceRounded hten (by rw [hrank']; exact Nat.lt_succ_self low)
    have hle := hmono (Nat.le_of_lt_succ hlt)
    obtain ⟨e, hspacing⟩ := exists_spacing low places
    have hstep : 0 < 2 ^ e * 10 ^ places := Nat.mul_pos (Nat.two_pow_pos e) hten
    rw [Nat.add_mul, Nat.mul_assoc, Nat.mul_assoc, hspacing] at hbeyond
    have hfar := le_of_lt_one_single (e := e) hplaces (by omega)
    refine ⟨scaled_eq (by omega) (by omega), Nat.lt_of_mul_lt_mul_right (a := 10 ^ places) ?_⟩
    rw [Nat.add_mul]
    omega
  · exact ⟨hcount, Nat.lt_add_of_pos_right single.one_pos⟩
  · -- The magnitude after the new one is not above the old one.
    have hbefore := lt_of_twiceRounded_le hten hrank'.le
    have hle := hmono hgt
    obtain ⟨e, hspacing⟩ := exists_spacing rank' places
    have hstep : 0 < 2 ^ e * 10 ^ places := Nat.mul_pos (Nat.two_pow_pos e) hten
    rw [Nat.add_mul, Nat.mul_assoc, Nat.mul_assoc, hspacing] at hbefore
    rw [Nat.succ_eq_add_one, hspacing] at hle
    have hfar := le_of_lt_one_single (e := e) hplaces (by omega)
    exact ⟨scaled_eq (by omega) (by omega),
      Nat.lt_add_right _ (strictMono_magnitude hgt)⟩

/-- No finite magnitude comes out as infinite. -/
theorem twiceRounded_lt (hplaces : 0 < places) (h : rank < single.finiteCount) :
    twiceRounded (Binary.scaled single places rank) (10 ^ places) < single.finiteCount := by
  by_contra hge
  have hnew := (scaled_twiceRounded hplaces rank).2
  have hfinite := (strictMono_magnitude (f := single)).monotone (Nat.not_lt.mp hge)
  have hlast := (strictMono_magnitude (f := single)).monotone (Nat.le_sub_one_of_lt h)
  have hspacing : single.magnitude (single.finiteCount - 1) + single.one ≤
      single.magnitude single.finiteCount := by decide +kernel
  omega

theorem nearestRank_double_lt (h : rank < single.finiteCount) (places : Nat) :
    double.nearestRank (Binary.scaled single places rank * double.one) (10 ^ places) <
      double.finiteCount := by
  obtain ⟨-, hround⟩ := scaled_bounds rank places
  obtain ⟨c, hc, hone⟩ := exists_double_one
  have hten : 0 < 10 ^ places := Nat.pow_pos (by decide)
  obtain ⟨k, hk, hend⟩ : ∃ k ≤ 278, single.magnitude single.finiteCount + single.one ≤ 2 ^ k :=
    ⟨278, le_rfl, by decide +kernel⟩
  have hlarge : single.magnitude rank + single.one ≤ 2 ^ k :=
    (Nat.add_le_add_right (strictMono_magnitude.monotone h.le) _).trans hend
  have hcount : Binary.scaled single places rank * single.one ≤ 2 ^ k * 10 ^ places := by
    have hunit := Nat.le_mul_of_pos_right single.one hten
    have hbound := Nat.mul_le_mul_right (10 ^ places) hlarge
    rw [Nat.add_mul] at hbound
    omega
  have hnum : Binary.scaled single places rank * double.one ≤
      1 * 2 ^ (c + 8 + k) * 10 ^ places := by
    calc Binary.scaled single places rank * double.one
        = 2 ^ c * 2 ^ 8 * (Binary.scaled single places rank * single.one) := by rw [hone]; ring
      _ ≤ 2 ^ c * 2 ^ 8 * (2 ^ k * 10 ^ places) := Nat.mul_le_mul_left _ hcount
      _ = 1 * 2 ^ (c + 8 + k) * 10 ^ places := by rw [Nat.pow_add, Nat.pow_add]; ring
  have hbits : 1 < 2 * double.binade := by decide
  have hcountDouble : double.finiteCount = 2047 * double.binade := rfl
  rw [hcountDouble]
  exact (nearestRank_lt hbits hten hnum).trans_le (Nat.mul_le_mul_right _ (by omega))

end BinaryFormat

namespace Binary

open BinaryFormat (single double twiceRounded)

variable {count places : Nat}

/-- What is displayed of a float is read as a float of the same sign with the same display. -/
theorem exists_convert_ofDecimal (negative : Bool) (rank : Fin single.finiteCount)
    (hplaces : 0 < places) :
    ∃ again : Fin single.finiteCount,
      ((ofDecimal negative (scaled single places rank) places : Binary64).convert : Binary32) =
        .finite negative again ∧
      scaled single places again = scaled single places rank := by
  have hfinite := BinaryFormat.twiceRounded_lt hplaces rank.isLt
  refine ⟨⟨_, hfinite⟩, ?_, (BinaryFormat.scaled_twiceRounded hplaces rank).1⟩
  have hdouble := BinaryFormat.nearestRank_double_lt rank.isLt places
  have hwide : (ofDecimal negative (scaled single places rank) places : Binary64) =
      .finite negative ⟨_, hdouble⟩ := ofRank_eq_finite hdouble
  rw [hwide]
  exact ofRank_eq_finite hfinite

/-- The whole part has a digit, and there are as many places as asked for. -/
theorem exists_positional (hplaces : 0 < places) (count : Nat) :
    ∃ whole fraction, positional places count = whole ++ '.' :: fraction ∧ whole ≠ [] ∧
      (∀ c ∈ whole, c.isDigit) ∧ (∀ c ∈ fraction, c.isDigit) ∧ fraction.length = places ∧
      Numeral.value (whole ++ fraction) = count := by
  have hlength : places + 1 ≤ (Numeral.padded (places + 1) count).length := by
    rw [Numeral.length_padded]
    exact Nat.le_max_left _ _
  have hdigits : ∀ c ∈ Numeral.padded (places + 1) count, c.isDigit :=
    fun c hc => Numeral.isDigit_of_mem_padded hc
  set digits := Numeral.padded (places + 1) count with hpadded
  refine ⟨digits.take (digits.length - places), digits.drop (digits.length - places), ?_, ?_,
    fun c hc => hdigits c (List.mem_of_mem_take hc),
    fun c hc => hdigits c (List.mem_of_mem_drop hc), ?_, ?_⟩
  · rw [positional, ← hpadded]
    exact if_neg hplaces.ne'
  · rw [ne_eq, ← List.length_eq_zero_iff, List.length_take]
    omega
  · rw [List.length_drop]
    omega
  · rw [List.take_append_drop, hpadded, Numeral.value_padded]

end Binary

namespace Text

variable {cs whole places : List Char} {negative : Bool}

/-- A decimal is too long by its own digits only. -/
theorem IsDecimal.cause_of_tooLong {cause : ReadingFault} (h : IsDecimal cs negative whole places)
    (hlong : TooLong cs cause) :
    cause = .decimal (String.ofList cs) ∧
      Value.decimalLimit < Value.decimalLength whole places := by
  have hread := Value.readDecimal_of_isDecimal h
  cases hlong with
  | numeral hdigits _ => exact absurd hdigits (Value.not_hasDigits_of_isDecimal h)
  | @decimal negative' whole' places' h' hlong =>
      refine ⟨rfl, Nat.not_le.mp fun hshort => ?_⟩
      rw [Value.readDecimal_of_isDecimal h', if_neg (Nat.not_le.mpr hlong), if_pos hshort] at hread
      cases hread

theorem IsDecimal.not_overlong (h : IsDecimal cs negative whole places)
    (hshort : Value.decimalLength whole places ≤ Value.decimalLimit) : ¬ Overlong cs :=
  fun ⟨_, hlong⟩ => Nat.not_lt.mpr hshort (h.cause_of_tooLong hlong).2

end Text

namespace Simple

open BinaryFormat (single)

/-- A finite float with decimal places is displayed as a text that is read as a float of
the same sign and precision, displayed as the same text. Only where there are too many
digits to be read it is not read, and where there are too many places to be displayed
there is no text. -/
theorem read_display_float (negative : Bool) (rank : Fin single.finiteCount) {precision : Nat}
    (hprecision : 1 ≤ precision) :
    (precision < PrecisionFault.limit →
      ∃ text whole places, (Simple.float (.finite negative rank) precision).display = .ok text ∧
        Text.IsDecimal text.toList negative whole places ∧ places.length = precision ∧
        (Value.decimalLength whole places ≤ Value.decimalLimit →
          ∃ again, Value.read Value.readingPattern text =
              .ok (.simple (.float (.finite negative again) precision)) ∧
            (Simple.float (.finite negative again) precision).display = .ok text) ∧
        (Value.decimalLimit < Value.decimalLength whole places →
          Value.read Value.readingPattern text = .error (.decimal text))) ∧
    (PrecisionFault.limit ≤ precision →
      (Simple.float (.finite negative rank) precision).display = .error ⟨precision⟩) := by
  refine ⟨fun hlimit => ?_, fun hlimit => if_neg (Nat.not_lt.mpr hlimit)⟩
  obtain ⟨again, hconvert, hscaled⟩ := Binary.exists_convert_ofDecimal negative rank hprecision
  obtain ⟨whole, places, htext, hwhole, hdigits, hdigits', rfl, hvalue⟩ :=
    Binary.exists_positional hprecision (Binary.scaled single precision rank)
  have hdecimal : Text.IsDecimal (Binary.signed negative (whole ++ '.' :: places)) negative whole
      places := by
    refine ⟨?_, hdigits, hdigits', .inl hwhole⟩
    cases negative with
    | false => exact .bare _
    | true => exact .minus _
  have hstamp := Timestamp.read?_eq_none_of_isDecimal hdecimal
  refine ⟨String.ofList (Binary.signed negative (whole ++ '.' :: places)), whole, places, ?_,
    by rwa [String.toList_ofList], rfl, fun hshort => ⟨again, ?_, ?_⟩, fun hlong => ?_⟩
  · rw [display, if_pos hlimit, Binary.display, htext]
  · have hread := Value.readChars_of_denotes (.decimal hstamp hdecimal) fun _ =>
      hdecimal.not_overlong hshort
    rw [Value.read_readingPattern, String.toList_ofList, hread, Text.nearest, hvalue, hconvert]
  · rw [display, if_pos hlimit, Binary.display, hscaled, htext]
  · exact Value.read_of_tooLong hstamp (.decimal hdecimal hlong)

/-- The negative number next to zero is displayed as a zero that keeps the sign. -/
theorem read_display_float_negative : 1 ≤ 2 ∧ 2 < PrecisionFault.limit ∧
    ∃ again, Value.read Value.readingPattern "-0.00" =
        .ok (.simple (.float (.finite true again) 2)) ∧
      (Simple.float (.finite true again) 2).display = .ok "-0.00" := by
  have hlimit : 2 < PrecisionFault.limit := by decide
  obtain ⟨text, whole, places, htext, hdecimal, -, hread, -⟩ :=
    (read_display_float true ⟨1, by decide +kernel⟩ (by decide : 1 ≤ 2)).1 hlimit
  have hshown : (Simple.float (.finite true ⟨1, by decide +kernel⟩) 2).display = .ok "-0.00" := by
    decide +kernel
  obtain rfl := Except.ok.inj (htext.symm.trans hshown)
  have hlength : "-0.00".toList.length ≤ Value.decimalLimit := by decide
  exact ⟨by decide, hlimit, hread ((Value.decimalLength_le_length hdecimal).trans hlength)⟩

/-- A zero with too many places has no text. -/
theorem display_zero_overlong :
    1 ≤ 2147483648 ∧ (Simple.float (.finite false ⟨0, by decide +kernel⟩) 2147483648).display =
      .error ⟨2147483648⟩ := by
  refine ⟨by decide, ?_⟩
  rw [display, if_neg (by decide)]

end Simple

end Worksheet
