import Mathlib
import Worksheet.Proofs.Writing

/-!
# Labels and cells, back and forth

Letters and columns correspond to each other up to case, and the order of columns is
that of their letters, shorter ones first. A text is read as a label if and only if it is
letters and digits, in brackets or without them, and writing the cell again gives the same
label with capital letters and no more zeros than it needs.
-/

namespace Worksheet

namespace Numeral

variable {ds : List Char}

/-- The digits without zeros at their front; of nothing but zeros one is left. -/
def trimmed (ds : List Char) : List Char :=
  match ds.dropWhile (· = '0') with
  | [] => ['0']
  | rest => rest

theorem digitChar_digitValue {c : Char} (h : c.isDigit) : Nat.digitChar (digitValue c) = c := by
  have hlt := digitValue_lt h
  have hc : c = Char.ofNat ('0'.toNat + digitValue c) := by
    simp only [Char.isDigit, Bool.and_eq_true, decide_eq_true_eq, UInt32.le_iff_toNat_le] at h
    have hvalue : '0'.toNat + digitValue c = c.toNat := by
      have hzero : '0'.toNat = 48 := rfl
      have hlow : 48 ≤ c.toNat := h.1
      unfold digitValue
      omega
    rw [hvalue, Char.ofNat_toNat]
  generalize digitValue c = n at hlt hc
  subst hc
  interval_cases n <;> rfl

theorem value_cons_zero (ds : List Char) : value ('0' :: ds) = value ds := rfl

theorem value_pos {c : Char} (hc : c.isDigit) (hzero : c ≠ '0') (ds : List Char) :
    0 < value (c :: ds) := by
  induction ds using List.reverseRecOn with
  | nil =>
      have hvalue : value [c] = digitValue c := Nat.zero_add _
      rw [hvalue, Nat.pos_iff_ne_zero]
      intro hdigit
      exact hzero (by rw [← digitChar_digitValue hc, hdigit]; rfl)
  | append_singleton ds d ih =>
      rw [← List.cons_append, value_append_singleton]
      omega

/-- Digits that do not begin with zero are the digits of their value. -/
theorem digits_value_cons {c : Char} (hc : c.isDigit) (hzero : c ≠ '0')
    (hds : ∀ d ∈ ds, d.isDigit) : digits (value (c :: ds)) = c :: ds := by
  induction ds using List.reverseRecOn with
  | nil =>
      have hvalue : value [c] = digitValue c := Nat.zero_add _
      rw [hvalue, digits, Nat.toDigits_of_lt_base (digitValue_lt hc), digitChar_digitValue hc]
  | append_singleton ds d ih =>
      obtain ⟨hds, hd⟩ := List.forall_mem_append.mp hds
      have hdigit := hd d List.mem_cons_self
      rw [← List.cons_append, value_append_singleton, digits,
        ← Nat.toDigits_append_toDigits (by decide) (value_pos hc hzero ds) (digitValue_lt hdigit),
        Nat.toDigits_of_lt_base (digitValue_lt hdigit), digitChar_digitValue hdigit]
      exact congrArg (· ++ [d]) (ih hds)

theorem digits_value (h : isNumeral ds) : digits (value ds) = trimmed ds := by
  have hdigits := (isNumeral_iff.mp h).2
  clear h
  induction ds with
  | nil => rfl
  | cons c ds ih =>
      obtain ⟨hc, hds⟩ := List.forall_mem_cons.mp hdigits
      by_cases hzero : c = '0'
      · subst hzero
        rw [value_cons_zero, ih hds]
        rfl
      · rw [digits_value_cons hc hzero hds, trimmed,
          List.dropWhile_cons_of_neg (by simpa using hzero)]

end Numeral

namespace Column

variable {cs s t : List Char} {m n : Nat}

theorem exists_letter {c : Char} (h : c.isAlpha) :
    ∃ i < 26, c.toUpper = Char.ofNat ('A'.toNat + i) ∧ letterValue c = i + 1 := by
  have hcode : 65 ≤ c.toNat ∧ c.toNat ≤ 90 ∨ 97 ≤ c.toNat ∧ c.toNat ≤ 122 := by
    simpa [Char.isAlpha, Char.isUpper, Char.isLower, UInt32.le_iff_toNat_le] using h
  have hc := (Char.ofNat_toNat c).symm
  generalize c.toNat = code at hcode hc
  subst hc
  obtain ⟨hlow, hhigh⟩ | ⟨hlow, hhigh⟩ := hcode
  · refine ⟨code - 65, by omega, ?_⟩
    interval_cases code <;> decide
  · refine ⟨code - 97, by omega, ?_⟩
    interval_cases code <;> decide

/-- Letters are those of their number, in capitals. -/
theorem numeral_ordinal (h : ∀ c ∈ cs, c.isAlpha) :
    numeral (ordinal cs) = cs.map Char.toUpper := by
  induction cs using List.reverseRecOn with
  | nil => exact numeral_zero
  | append_singleton cs c ih =>
      obtain ⟨hcs, hc⟩ := List.forall_mem_append.mp h
      obtain ⟨i, hi, hupper, hvalue⟩ := exists_letter (hc c List.mem_cons_self)
      have hdiv : (26 * ordinal cs + i) / 26 = ordinal cs := by omega
      have hmod : (26 * ordinal cs + i) % 26 = i := by omega
      rw [ordinal_append_singleton, hvalue, ← Nat.add_assoc, numeral_succ, hdiv, hmod, ih hcs,
        ← hupper, List.map_append, List.map_singleton]

theorem ordinal_pos (h : isLetters cs) : 0 < ordinal cs := by
  obtain ⟨hne, -⟩ := isLetters_iff.mp h
  obtain ⟨front, c, rfl⟩ := (List.eq_nil_or_concat cs).resolve_left hne
  rw [List.concat_eq_append, ordinal_append_singleton, letterValue]
  omega

theorem letters_index (h : isLetters cs) : letters (index cs) = cs.map Char.toUpper := by
  rw [letters, index, Nat.sub_add_cancel (ordinal_pos h), numeral_ordinal (isLetters_iff.mp h).2]

/-- A column read so far, with one letter more. -/
def shift (n : Nat) (c : Char) : Nat :=
  26 * n + letterValue c

theorem ordinal_eq_foldl (cs : List Char) : ordinal cs = cs.foldl shift 0 := rfl

/-- What is ahead stays ahead, as long as no more letters follow the other. -/
theorem foldl_shift_lt_foldl_shift (hs : ∀ c ∈ s, c.isAlpha) (hlength : s.length ≤ t.length)
    (h : m < n) : s.foldl shift m < t.foldl shift n := by
  induction t generalizing s m n with
  | nil =>
      obtain rfl := List.length_eq_zero_iff.mp (Nat.le_zero.mp hlength)
      exact h
  | cons d t ih =>
      have hd : 0 < letterValue d := Nat.succ_pos _
      cases s with
      | nil =>
          refine ih hs (Nat.zero_le _) (n := shift n d) ?_
          unfold shift
          omega
      | cons c s =>
          obtain ⟨hc, hs⟩ := List.forall_mem_cons.mp hs
          obtain ⟨i, hi, -, hvalue⟩ := exists_letter hc
          refine ih hs (Nat.le_of_succ_le_succ hlength) (m := shift m c) (n := shift n d) ?_
          unfold shift
          omega

theorem letterValue_lt {c d : Char} (hc : c.isUpper) (hd : d.isUpper) (h : c < d) :
    letterValue c < letterValue d := by
  have hlow : 65 ≤ c.toNat := by
    simp only [Char.isUpper, decide_eq_true_eq] at hc
    exact hc.1
  have horder : c.toNat < d.toNat := h
  have hfirst : 'A'.toNat = 65 := rfl
  rw [letterValue, letterValue, Char.toUpper_eq_of_not_isLower (Char.not_isLower_of_isUpper hc),
    Char.toUpper_eq_of_not_isLower (Char.not_isLower_of_isUpper hd)]
  omega

theorem isAlpha_of_isUpper {c : Char} (h : c.isUpper) : c.isAlpha := by
  simp [Char.isAlpha, h]

theorem foldl_shift_lt_of_lex (hs : ∀ c ∈ s, c.isUpper) (ht : ∀ c ∈ t, c.isUpper)
    (hlength : s.length = t.length) (h : List.Lex (· < ·) s t) (n : Nat) :
    s.foldl shift n < t.foldl shift n := by
  induction h generalizing n with
  | nil => simp at hlength
  | cons _ ih =>
      exact ih (List.forall_mem_cons.mp hs).2 (List.forall_mem_cons.mp ht).2
        (Nat.succ_inj.mp hlength) _
  | rel h =>
      obtain ⟨hc, hs⟩ := List.forall_mem_cons.mp hs
      obtain ⟨hd, -⟩ := List.forall_mem_cons.mp ht
      rw [List.foldl_cons, List.foldl_cons]
      exact foldl_shift_lt_foldl_shift (fun c hc => isAlpha_of_isUpper (hs c hc))
        (Nat.succ_inj.mp hlength).le (Nat.add_lt_add_left (letterValue_lt hc hd h) _)

theorem ordinal_lt_of_shortlex (hs : ∀ c ∈ s, c.isUpper) (ht : ∀ c ∈ t, c.isUpper)
    (h : List.Shortlex (· < ·) s t) : ordinal s < ordinal t := by
  obtain hlength | ⟨hlength, hlex⟩ := List.shortlex_def.mp h
  · obtain ⟨d, rest, rfl⟩ := List.exists_cons_of_length_pos (Nat.zero_lt_of_lt hlength)
    have hd : 0 < shift 0 d := Nat.add_pos_right _ (Nat.succ_pos _)
    rw [ordinal_eq_foldl, ordinal_eq_foldl, List.foldl_cons]
    exact foldl_shift_lt_foldl_shift (fun c hc => isAlpha_of_isUpper (hs c hc))
      (Nat.le_of_lt_succ hlength) hd
  · exact foldl_shift_lt_of_lex hs ht hlength hlex 0

theorem isUpper_of_mem_numeral (n : Nat) : ∀ c ∈ numeral n, c.isUpper := by
  have hfixed := numeral_ordinal (isAlpha_of_mem_numeral n)
  rw [ordinal_numeral] at hfixed
  intro c hc
  obtain ⟨d, hd, rfl⟩ := List.mem_map.mp (hfixed ▸ hc)
  rw [Char.isUpper_toUpper_eq_isAlpha]
  exact isAlpha_of_mem_numeral n d hd

/-- Columns come in the order of their letters: shorter ones first, and those of one length
by the alphabet. -/
theorem shortlex_letters_iff : List.Shortlex (· < ·) (letters m) (letters n) ↔ m < n := by
  have hordinal : ∀ {m n : Nat}, List.Shortlex (· < ·) (letters m) (letters n) → m < n := by
    intro m n h
    have hlt := ordinal_lt_of_shortlex (isUpper_of_mem_numeral _) (isUpper_of_mem_numeral _) h
    rw [ordinal_numeral, ordinal_numeral] at hlt
    exact Nat.lt_of_succ_lt_succ hlt
  refine ⟨hordinal, fun h => ?_⟩
  obtain hbefore | heq | hafter :=
    trichotomous (r := List.Shortlex (· < ·)) (letters m) (letters n)
  · exact hbefore
  · rw [← index_letters m, heq, index_letters] at h
    exact absurd h (Nat.lt_irrefl n)
  · exact absurd (hordinal hafter) (Nat.lt_asymm h)

theorem write_eq_ok_iff {index : Int} {text : String} :
    write index = .ok text ↔ ∃ n : Nat, index = n ∧ text = String.ofList (letters n) := by
  cases index with
  | ofNat n =>
      constructor
      · intro h
        exact ⟨n, rfl, (Except.ok.inj h).symm⟩
      · rintro ⟨m, hm, rfl⟩
        obtain rfl := Int.ofNat.inj hm
        rfl
  | negSucc n =>
      constructor
      · intro h
        cases h
      · rintro ⟨m, hm, -⟩
        cases hm

theorem read_write (n : Nat) : ∃ text, write n = .ok text ∧ read text = .ok n := by
  refine ⟨String.ofList (letters n), rfl, ?_⟩
  rw [read, String.toList_ofList, if_pos (isLetters_letters n), index_letters]

theorem write_read {text : String} (h : isLetters text.toList) :
    ∃ n, read text = .ok n ∧ write n = .ok text.toUpper := by
  refine ⟨index text.toList, if_pos h, write_eq_ok_iff.mpr ⟨_, rfl, ?_⟩⟩
  rw [letters_index h, String.toUpper, ← String.toList_map, String.ofList_toList]

end Column

namespace Cell

/-- The label of a cell, bare or in brackets. -/
def labelIn (bracketed : Bool) (cell : Cell) : Except LabelFault String :=
  if bracketed then cell.bracketedLabel else cell.label

end Cell

namespace Label

variable {bracketed : Bool} {letters digits : List Char} {text : String}

/-- Letters and digits put together, bare or in brackets. -/
def setIn (bracketed : Bool) (letters digits : List Char) : List Char :=
  if bracketed then '[' :: (letters ++ digits ++ [']']) else letters ++ digits

theorem labelIn_eq_ok {m n : Nat} (h : (Numeral.digits m).length ≤ Numeral.limit) :
    Cell.labelIn bracketed ⟨m, n⟩ =
      .ok (String.ofList (setIn bracketed (Column.letters n) (Numeral.digits m))) := by
  unfold Cell.labelIn setIn
  cases bracketed with
  | false => exact Cell.label_eq_ok h
  | true =>
      have hset : "[" ++ String.ofList (Column.letters n ++ Numeral.digits m) ++ "]" =
          String.ofList ('[' :: (Column.letters n ++ Numeral.digits m ++ [']'])) := by
        apply String.toList_injective
        simp
      rw [if_pos rfl, if_pos rfl, Cell.bracketedLabel, Cell.label_eq_ok h, ← hset]
      rfl

/-- A text is one or more letters and one or more digits, bare or in brackets. -/
structure HasForm (text : String) (bracketed : Bool) (letters digits : List Char) : Prop where
  toList_eq : text.toList = setIn bracketed letters digits
  isLetters : Column.isLetters letters
  isNumeral : Numeral.isNumeral digits

theorem exists_hasForm_iff_parts :
    (∃ bracketed, HasForm text bracketed letters digits) ↔
      (unbracket? text.toList).bind split? = some (letters, digits) := by
  rw [parts_eq_some_iff]
  constructor
  · rintro ⟨bracketed, htext, hletters, hdigits⟩
    cases bracketed with
    | false => exact ⟨.inl htext, hletters, hdigits⟩
    | true => exact ⟨.inr htext, hletters, hdigits⟩
  · rintro ⟨htext | htext, hletters, hdigits⟩
    · exact ⟨false, htext, hletters, hdigits⟩
    · exact ⟨true, htext, hletters, hdigits⟩

theorem read_of_hasForm (h : HasForm text bracketed letters digits)
    (hlength : digits.length ≤ Numeral.limit) :
    read text = .ok ⟨Numeral.value digits, Column.index letters⟩ := by
  have hparts := exists_hasForm_iff_parts.mp ⟨bracketed, h⟩
  simp [read, hparts, Numeral.read, hlength]

theorem read_eq_rowTooLong (h : HasForm text bracketed letters digits)
    (hlength : Numeral.limit < digits.length) :
    read text = .error (.rowTooLong ⟨digits.length⟩) := by
  have hparts := exists_hasForm_iff_parts.mp ⟨bracketed, h⟩
  simp [read, hparts, Numeral.read, Nat.not_le.mpr hlength]

theorem read_eq_malformed_iff :
    read text = .error (.malformed text) ↔
      ¬ ∃ bracketed letters digits, HasForm text bracketed letters digits := by
  constructor
  · rintro hread ⟨bracketed, letters, digits, h⟩
    by_cases hlength : digits.length ≤ Numeral.limit
    · rw [read_of_hasForm h hlength] at hread
      cases hread
    · rw [read_eq_rowTooLong h (Nat.lt_of_not_le hlength)] at hread
      cases hread
  · intro hnot
    have hparts : (unbracket? text.toList).bind split? = none :=
      Option.eq_none_iff_forall_ne_some.mpr fun ⟨letters, digits⟩ hparts =>
        hnot ((exists_hasForm_iff_parts.mpr hparts).imp fun _ h => ⟨letters, digits, h⟩)
    simp [read, hparts]

/-- A label that was read is written with capital letters and without needless zeros. -/
theorem labelIn_of_read (h : HasForm text bracketed letters digits)
    (hlength : digits.length ≤ Numeral.limit) :
    ∃ cell, read text = .ok cell ∧ cell.labelIn bracketed =
      .ok (String.ofList (setIn bracketed (letters.map Char.toUpper) (Numeral.trimmed digits))) := by
  have hwritable := (Numeral.length_digits_value_le h.isNumeral).trans hlength
  refine ⟨_, read_of_hasForm h hlength, ?_⟩
  rw [labelIn_eq_ok hwritable, Column.letters_index h.isLetters, Numeral.digits_value h.isNumeral]

/-- A cell whose row has a numeral is read back from its label. -/
theorem read_of_labelIn (bracketed : Bool) {cell : Cell} (hrow : 0 ≤ cell.row)
    (hcolumn : 0 ≤ cell.column) (hlimit : cell.row < (10 ^ Numeral.limit : Nat)) :
    ∃ text, cell.labelIn bracketed = .ok text ∧ read text = .ok cell := by
  have hwritable := Numeral.isWritable_of_lt hrow hlimit
  obtain ⟨row, column⟩ := cell
  obtain ⟨m, rfl⟩ := Int.eq_ofNat_of_zero_le hrow
  obtain ⟨n, rfl⟩ := Int.eq_ofNat_of_zero_le hcolumn
  have hform : HasForm (String.ofList (setIn bracketed (Column.letters n) (Numeral.digits m)))
      bracketed (Column.letters n) (Numeral.digits m) :=
    ⟨String.toList_ofList, Column.isLetters_letters n, Numeral.isNumeral_digits m⟩
  refine ⟨_, labelIn_eq_ok hwritable, ?_⟩
  rw [read_of_hasForm hform hwritable, Numeral.value_digits, Column.index_letters]

/-- Columns and letters correspond to each other up to case, in order, and cells and labels
up to case and needless zeros. Exactly the letters and digits are labels, bare or in brackets;
one that has too many digits is turned down for its row. -/
theorem codec_canonical :
    (∀ n : Nat, ∃ text, Column.write n = .ok text ∧ Column.read text = .ok n) ∧
    (∀ text, Column.isLetters text.toList →
      ∃ n : Nat, Column.read text = .ok n ∧ Column.write n = .ok text.toUpper) ∧
    (∀ (m n : Int) (s t : String), Column.write m = .ok s → Column.write n = .ok t →
      (m < n ↔ List.Shortlex (· < ·) s.toList t.toList)) ∧
    (∀ (bracketed : Bool) (cell : Cell), 0 ≤ cell.row → 0 ≤ cell.column →
      cell.row < (10 ^ Numeral.limit : Nat) →
      ∃ text, cell.labelIn bracketed = .ok text ∧ read text = .ok cell) ∧
    (∀ text bracketed letters digits, HasForm text bracketed letters digits →
      if digits.length ≤ Numeral.limit then
        ∃ cell, read text = .ok cell ∧ cell.labelIn bracketed = .ok (String.ofList
          (setIn bracketed (letters.map Char.toUpper) (Numeral.trimmed digits)))
      else read text = .error (.rowTooLong ⟨digits.length⟩)) ∧
    ∀ text, read text = .error (.malformed text) ↔
      ¬ ∃ bracketed letters digits, HasForm text bracketed letters digits := by
  refine ⟨Column.read_write, fun _ => Column.write_read, ?_,
    fun bracketed _ => read_of_labelIn bracketed, ?_, fun _ => read_eq_malformed_iff⟩
  · intro m n s t hs ht
    obtain ⟨m, rfl, rfl⟩ := Column.write_eq_ok_iff.mp hs
    obtain ⟨n, rfl, rfl⟩ := Column.write_eq_ok_iff.mp ht
    rw [String.toList_ofList, String.toList_ofList, Column.shortlex_letters_iff, Nat.cast_lt]
  · intro text bracketed letters digits h
    split
    next hlength => exact labelIn_of_read h hlength
    next hlength => exact read_eq_rowTooLong h (Nat.lt_of_not_le hlength)

example : (read "[ab007]").bind (Cell.labelIn true) = .ok "[AB7]" := by cbv

end Label

end Worksheet
