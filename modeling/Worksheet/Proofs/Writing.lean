import Mathlib
import Worksheet.Proofs.Forms

/-!
# Written numerals and labels

A number is read back from its digits and a column from its letters. A numeral is
written anew with no more digits than it had, so that whatever is read within the
limit of digits can be written as well.
-/

namespace Worksheet

namespace Numeral

variable {ds : List Char}

theorem value_digits (n : Nat) : value (digits n) = n := by
  have hvalue : value (digits n) = Nat.ofDigitChars 10 (Nat.toDigits 10 n) 0 := rfl
  rw [hvalue, Nat.ofDigitChars_ten_toDigits]

theorem isNumeral_digits (n : Nat) : isNumeral (digits n) :=
  isNumeral_iff.mpr ⟨Nat.toDigits_ne_nil, fun _ hc =>
    Nat.isDigit_of_mem_toDigits (by decide) (by decide) hc⟩

theorem digitValue_lt {c : Char} (h : c.isDigit) : digitValue c < 10 := by
  simp [Char.isDigit, UInt32.le_iff_toNat_le] at h
  have hzero : '0'.toNat = 48 := rfl
  unfold digitValue
  omega

theorem value_append_singleton (ds : List Char) (c : Char) :
    value (ds ++ [c]) = 10 * value ds + digitValue c := by
  simp [value]

theorem value_replicate_zero (n : Nat) : value (List.replicate n '0') = 0 := by
  induction n with
  | zero => rfl
  | succ n ih =>
      rw [List.replicate_succ', value_append_singleton, ih]
      rfl

theorem value_append (ds es : List Char) :
    value (ds ++ es) = value ds * 10 ^ es.length + value es := by
  induction es using List.reverseRecOn with
  | nil => simp [value]
  | append_singleton es c ih =>
      rw [← List.append_assoc, value_append_singleton, ih, value_append_singleton,
        List.length_append, List.length_singleton, Nat.pow_succ]
      ring

theorem value_zeros_append (n : Nat) (ds : List Char) :
    value (List.replicate n '0' ++ ds) = value ds := by
  rw [value_append, value_replicate_zero, Nat.zero_mul, Nat.zero_add]

theorem value_padded (width n : Nat) : value (padded width n) = n := by
  rw [padded, value_zeros_append, value_digits]

/-- Another digit makes a positive number larger. -/
theorem eq_nil_of_value_append {es : List Char} (hpos : value ds ≠ 0)
    (h : value (ds ++ es) = value ds) : es = [] := by
  by_contra hne
  have hten : 10 ≤ 10 ^ es.length := Nat.le_self_pow (List.length_pos_iff.mpr hne).ne' 10
  have hpos := Nat.pos_of_ne_zero hpos
  rw [value_append] at h
  nlinarith

theorem padded_ne_nil (width n : Nat) : padded width n ≠ [] :=
  List.append_ne_nil_of_right_ne_nil _ Nat.toDigits_ne_nil

theorem isDigit_of_mem_padded {width n : Nat} {c : Char} (h : c ∈ padded width n) :
    c.isDigit := by
  rcases List.mem_append.mp h with h | h
  · obtain rfl := List.eq_of_mem_replicate h
    decide
  · exact (isNumeral_iff.mp (isNumeral_digits n)).2 c h

theorem value_lt (h : ∀ c ∈ ds, c.isDigit) : value ds < 10 ^ ds.length := by
  induction ds using List.reverseRecOn with
  | nil => simp [value]
  | append_singleton ds c ih =>
      obtain ⟨hds, hc⟩ := List.forall_mem_append.mp h
      have hdigit := digitValue_lt (hc c List.mem_cons_self)
      have hvalue := ih hds
      rw [value_append_singleton, List.length_append, List.length_singleton, Nat.pow_succ]
      omega

theorem length_digits_value_le (h : isNumeral ds) : (digits (value ds)).length ≤ ds.length := by
  obtain ⟨hne, hdigits⟩ := isNumeral_iff.mp h
  have hpositive : 0 < ds.length := List.length_pos_iff.mpr hne
  exact (Nat.length_toDigits_le_iff (by decide) hpositive).mpr (value_lt hdigits)

theorem isWritable_iff_lt {n : Int} : IsWritable n ↔ n.natAbs < 10 ^ limit :=
  Nat.length_toDigits_le_iff (by decide) (by decide)

theorem isWritable_of_lt {n : Int} (h : 0 ≤ n) (hn : n < (10 ^ limit : Nat)) :
    IsWritable n :=
  isWritable_iff_lt.mpr (by omega)

/-- Numbers are shown by their digits, behind a minus if they are negative. -/
theorem toList_toString (n : Int) :
    (toString n).toList = if n < 0 then '-' :: digits n.natAbs else digits n.natAbs := by
  cases n with
  | ofNat n =>
      have htext : toString (Int.ofNat n) = toString n := rfl
      rw [htext, Nat.toString_eq_ofList_toDigits, String.toList_ofList, if_neg (by simp)]
      rfl
  | negSucc n =>
      have htext : toString (Int.negSucc n) = "-" ++ toString (n + 1) := rfl
      rw [htext, Nat.toString_eq_ofList_toDigits, String.toList_append,
        if_pos (Int.negSucc_lt_zero n)]
      exact congrArg (List.cons '-') String.toList_ofList

theorem isInteger_toString (n : Int) : Text.IsInteger (toString n).toList n := by
  rw [toList_toString]
  by_cases hneg : n < 0
  · refine ⟨true, digits n.natAbs, ?_, isNumeral_digits _, ?_⟩
    · rw [if_pos hneg]
      exact .minus _
    · rw [value_digits, if_pos rfl]
      omega
  · refine ⟨false, digits n.natAbs, ?_, isNumeral_digits _, ?_⟩
    · rw [if_neg hneg]
      exact .bare _
    · rw [value_digits, if_neg Bool.false_ne_true]
      omega

end Numeral

namespace Column

theorem ordinal_append_singleton (cs : List Char) (c : Char) :
    ordinal (cs ++ [c]) = 26 * ordinal cs + letterValue c := by
  simp [ordinal]

/-- The letters of the last place, from `A` to `Z`. -/
theorem letter_ofNat {i : Nat} (h : i < 26) :
    (Char.ofNat ('A'.toNat + i)).isAlpha ∧ letterValue (Char.ofNat ('A'.toNat + i)) = i + 1 := by
  interval_cases i <;> decide

theorem ordinal_numeral (n : Nat) : ordinal (numeral n) = n := by
  induction n using Nat.strongRecOn with
  | ind n ih =>
      cases n with
      | zero => simp [ordinal]
      | succ n =>
          rw [numeral_succ, ordinal_append_singleton, ih (n / 26) (by omega),
            (letter_ofNat (Nat.mod_lt n (by decide))).2]
          omega

theorem isAlpha_of_mem_numeral (n : Nat) : ∀ c ∈ numeral n, c.isAlpha := by
  induction n using Nat.strongRecOn with
  | ind n ih =>
      cases n with
      | zero => simp
      | succ n =>
          rw [numeral_succ]
          refine List.forall_mem_append.mpr ⟨ih (n / 26) (by omega), ?_⟩
          exact List.forall_mem_singleton.mpr (letter_ofNat (Nat.mod_lt n (by decide))).1

theorem isLetters_letters (n : Nat) : isLetters (letters n) :=
  isLetters_iff.mpr ⟨by simp [letters, numeral_succ], isAlpha_of_mem_numeral _⟩

theorem index_letters (n : Nat) : index (letters n) = n := by
  rw [index, letters, ordinal_numeral, Nat.add_sub_cancel]

end Column

namespace Cell

/-- The label of a cell that is counted by naturals, with its row within the limit. -/
theorem label_eq_ok {m n : Nat} (h : (Numeral.digits m).length ≤ Numeral.limit) :
    Cell.label ⟨m, n⟩ = .ok (String.ofList (Column.letters n ++ Numeral.digits m)) := by
  have hrow : ¬ (m : Int) < 0 := by omega
  have hwrite : Numeral.write (m : Int) = .ok (String.ofList (Numeral.digits m)) := by
    simp [Numeral.write, hrow, h]
  rw [label, if_neg hrow, hwrite]
  simp [Column.write, String.ofList_append]

end Cell

end Worksheet
