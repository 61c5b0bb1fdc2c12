import Worksheet.Proofs.Pattern
import Worksheet.Proofs.Grammar

/-!
# Timestamps are read back

What a complete pattern displays of a timestamp is read as the same timestamp, from the
year 1000 on. Blanks match any run of blanks and a part may be read with fewer digits
than it is displayed with, but what is read in such a way is displayed otherwise. The one
exception are zeros right before a year: they may be read as leading zeros of it.
-/

namespace Worksheet.Timestamp

variable {stamp : Timestamp} {c : Char} {p : Part} {pieces rest : List Piece}
  {blanks text left : List Char} {fields : List (Field × Nat)} {k n w : Nat}

namespace Field

theorem digitsAt_append {ds : List Char} (h : ∀ c ∈ ds, c.isDigit) (rest : List Char) :
    digitsAt ds.length (ds ++ rest) = some (Numeral.value ds, rest) := by
  have hall : ds.all Char.isDigit := List.all_eq_true.mpr h
  simp [digitsAt, hall]

theorem eq_of_digitsAt {reading : Nat × List Char} (h : digitsAt w text = some reading) :
    ∃ ds rest, text = ds ++ rest ∧ ds.length = w ∧ (∀ c ∈ ds, c.isDigit) ∧
      reading = (Numeral.value ds, rest) := by
  simp only [digitsAt] at h
  split at h
  next hfront =>
      exact ⟨text.take w, text.drop w, (List.take_append_drop w text).symm, hfront.1,
        List.all_eq_true.mp hfront.2, (Option.some.inj h).symm⟩
  next => cases h

end Field

theorem mem_readings_iff {reading : Nat × List Char} :
    reading ∈ p.field.readings text ↔
      (∃ w ∈ p.widths, Field.digitsAt w text = some reading) ∧
        p.low ≤ reading.1 ∧ reading.1 ≤ p.high := by
  simp only [Part.readings_field, Field.numbers, List.mem_filter, List.mem_filterMap,
    Bool.and_eq_true, decide_eq_true_eq]

theorem length_digits_le_iff {n k : Nat} (h : 0 < k) :
    (Numeral.digits n).length ≤ k ↔ n < 10 ^ k :=
  Nat.length_toDigits_le_iff (by decide) h

theorem length_padded_year (h : 1000 ≤ stamp.year) :
    (Numeral.padded 1 stamp.year).length = 4 := by
  obtain ⟨-, hyear, -⟩ := stamp.isDate
  have hle : (Numeral.digits stamp.year).length ≤ 4 :=
    (length_digits_le_iff (by decide)).mpr (by omega)
  have hlt : ¬ (Numeral.digits stamp.year).length ≤ 3 :=
    (length_digits_le_iff (by decide)).not.mpr (by omega)
  rw [Numeral.length_padded]
  omega

theorem length_padded_two (h : n < 100) : (Numeral.padded 2 n).length = 2 := by
  have hle : (Numeral.digits n).length ≤ 2 := (length_digits_le_iff (by decide)).mpr h
  rw [Numeral.length_padded]
  omega

theorem get_lt (hp : p ≠ .year) (stamp : Timestamp) : p.get stamp < 100 := by
  have hrange := (p.get_range stamp).2
  cases p <;> simp only [Part.high, ne_eq, not_true_eq_false] at * <;> omega

theorem exists_widths (hyear : 1000 ≤ stamp.year) (p : Part) :
    ∃ others, p.widths = (p.field.display stamp).length :: others := by
  rw [Part.display_field]
  by_cases hp : p = .year
  · subst hp
    exact ⟨[], by rw [Part.width, Part.get, length_padded_year hyear]; rfl⟩
  · exact ⟨[1], by
      rw [Part.widths_of_ne hp, Part.width_of_ne hp, length_padded_two (get_lt hp stamp)]⟩

/-- What is displayed of a part is its preferred reading. -/
theorem exists_readings (hyear : 1000 ≤ stamp.year) (p : Part) (rest : List Char) :
    ∃ others, p.field.readings (p.field.display stamp ++ rest) = (p.get stamp, rest) :: others := by
  obtain ⟨others, hwidths⟩ := exists_widths hyear p
  obtain ⟨hlow, hhigh⟩ := p.get_range stamp
  have hdigits : Field.digitsAt (p.field.display stamp).length (p.field.display stamp ++ rest) =
      some (p.get stamp, rest) := by
    rw [Part.display_field, Field.digitsAt_append fun c hc => Numeral.isDigit_of_mem_padded hc,
      Numeral.value_padded]
  rw [Part.readings_field, Field.numbers, hwidths, List.filterMap_cons, hdigits]
  simp [hlow, hhigh]

/-! ## Runs of blanks -/

theorem isBlank_eq_false_of_isDigit (h : c.isDigit) : Text.isBlank c = false := by
  by_contra hblank
  rw [Bool.not_eq_false] at hblank
  have hcontinues := Value.continuesIdentifier_eq_false_of_isBlank hblank
  simp [Value.continuesIdentifier, Char.isAlphanum, h] at hcontinues

theorem readItems_blank {pattern : List Item} (h : Text.isBlank c) (text : List Char) :
    readItems (.literal c :: pattern) text =
      if startsBlank pattern then readItems pattern text
      else (afterBlanks text).findSome? (readItems pattern) := by
  rw [readItems.eq_def]
  exact if_pos h

theorem readItems_literal {pattern : List Item} (h : ¬ Text.isBlank c) (d : Char)
    (text : List Char) :
    readItems (.literal c :: pattern) (d :: text) =
      if Field.sameLetter c d then readItems pattern text else none := by
  simp only [readItems, if_neg h]

/-- What follows a run of blanks and does not begin with one more. -/
theorem afterBlanks_append (hblanks : ∀ c ∈ blanks, Text.isBlank c)
    (hrest : ∀ c ∈ text.head?, Text.isBlank c = false) :
    afterBlanks (blanks ++ text) =
      (List.range blanks.length).map fun i => blanks.drop (blanks.length - i) ++ text := by
  have hrun : (blanks ++ text).takeWhile Text.isBlank = blanks := by
    rw [List.takeWhile_append_of_pos hblanks]
    cases text with
    | nil => simp
    | cons c text => simp [hrest c rfl]
  rw [afterBlanks, hrun]
  refine List.map_congr_left fun i _ => ?_
  exact List.drop_append_of_le_length (Nat.sub_le _ _)

/-- What is displayed begins with a blank only if the pattern does. -/
theorem isBlank_head?_display (h : startsBlank (pieces.map Piece.item) = false)
    (stamp : Timestamp) :
    ∀ c ∈ (displayItems stamp (pieces.map Piece.item)).head?, Text.isBlank c = false := by
  intro c hc
  cases pieces with
  | nil => simp at hc
  | cons piece rest =>
      rw [List.map_cons, displayItems_cons] at hc
      cases piece with
      | literal d =>
          obtain rfl : d = c := by simpa [Item.display] using hc
          exact h
      | part p =>
          rw [Piece.item_part, Item.display, Part.display_field] at hc
          obtain ⟨d, ds, hds⟩ := List.exists_cons_of_ne_nil
            (Numeral.padded_ne_nil p.width (p.get stamp))
          rw [hds, List.cons_append, List.head?_cons, Option.mem_some_iff] at hc
          have hmem : c ∈ Numeral.padded p.width (p.get stamp) := by simp [hds, hc]
          exact isBlank_eq_false_of_isDigit (Numeral.isDigit_of_mem_padded hmem)

/-- The numbers of a timestamp along a pattern. -/
def readingsOf (stamp : Timestamp) (pieces : List Piece) : List (Part × Nat) :=
  (parts pieces).map fun p => (p, p.get stamp)

/-- By induction on the pattern; the blanks are those of a run that it is in the middle
of, since a run is read at its last blank. -/
theorem readItems_display (hyear : 1000 ≤ stamp.year) (hblanks : ∀ c ∈ blanks, Text.isBlank c)
    (hstart : startsBlank (pieces.map Piece.item) = false → blanks = []) :
    readItems (pieces.map Piece.item)
        (blanks ++ displayItems stamp (pieces.map Piece.item)) =
      some ((readingsOf stamp pieces).map Part.reading, []) := by
  induction pieces generalizing blanks with
  | nil =>
      obtain rfl := hstart rfl
      rfl
  | cons piece rest ih =>
      rw [List.map_cons, displayItems_cons]
      have hnone : readItems (rest.map Piece.item) (displayItems stamp (rest.map Piece.item)) =
          some ((readingsOf stamp rest).map Part.reading, []) :=
        ih (by simp) fun _ => rfl
      cases piece with
      | literal c =>
          rw [Piece.item_literal, Item.display, List.singleton_append]
          by_cases hc : Text.isBlank c
          · have hrun : ∀ d ∈ blanks ++ [c], Text.isBlank d := by
              simpa [or_imp, forall_and, hc] using hblanks
            rw [readItems_blank hc, List.append_cons]
            cases hnext : startsBlank (rest.map Piece.item) with
            | true => exact ih hrun (by simp [hnext])
            | false =>
                rw [if_neg Bool.false_ne_true,
                  afterBlanks_append hrun (isBlank_head?_display hnext stamp), List.length_append,
                  List.length_singleton, List.range_succ_eq_map, List.map_cons, List.findSome?_cons,
                  Nat.sub_zero, List.drop_eq_nil_of_le (by simp), List.nil_append, hnone]
                rfl
          · obtain rfl := hstart (by simpa [startsBlank] using hc)
            rw [List.nil_append, readItems_literal hc, if_pos (by simp [Field.sameLetter])]
            exact hnone
      | part p =>
          obtain rfl := hstart rfl
          obtain ⟨others, hreadings⟩ := exists_readings hyear p
            (displayItems stamp (rest.map Piece.item))
          rw [Piece.item_part, Item.display, List.nil_append, readItems, hreadings,
            List.findSome?_cons]
          simp only [hnone]
          rfl

/-! ## Zeros before the year -/

/-- What is not a letter matches itself only. -/
theorem eq_of_sameLetter {d : Char} (h : Field.sameLetter c d) (hd : d.isAlpha = false) :
    c = d := by
  have hlower : c.toLower = d.toLower := by simpa [Field.sameLetter] using h
  have hc : c.isAlpha = false := by
    rw [← Char.isAlpha_toLower_eq_isAlpha, hlower, Char.isAlpha_toLower_eq_isAlpha, hd]
  have hupper : ∀ e : Char, e.isAlpha = false → ¬ e.isUpper := fun e he hupper => by
    simp [Char.isAlpha, hupper] at he
  rwa [Char.toLower_eq_of_not_isUpper (hupper c hc),
    Char.toLower_eq_of_not_isUpper (hupper d hd)] at hlower

theorem isAlpha_eq_false_of_isBlank (h : Text.isBlank c) : c.isAlpha = false := by
  have hcontinues := Value.continuesIdentifier_eq_false_of_isBlank h
  simp only [Value.continuesIdentifier, Char.isAlphanum, Bool.or_eq_false_iff] at hcontinues
  exact hcontinues.1.1

/-- A reading of some of the digits at the front of a text. -/
theorem exists_of_digitsAt_append {ds : List Char} (hw : w ≤ ds.length)
    (h : Field.digitsAt w (ds ++ text) = some (n, left)) :
    ∃ front back, ds = front ++ back ∧ front.length = w ∧ n = Numeral.value front ∧
      left = back ++ text := by
  obtain ⟨front, rest, htext, hlength, -, hreading⟩ := Field.eq_of_digitsAt h
  obtain ⟨rfl, rfl⟩ := Prod.mk.inj hreading
  have hfront : front = ds.take w := by
    have htake := congrArg (List.take w) htext
    rwa [List.take_append_of_le_length hw, ← hlength, List.take_left, hlength, eq_comm] at htake
  have hrest : left = ds.drop w ++ text := by
    have hdrop := congrArg (List.drop w) htext
    rwa [List.drop_append_of_le_length hw, ← hlength, List.drop_left, hlength, eq_comm] at hdrop
  exact ⟨front, ds.drop w, by rw [hfront, List.take_append_drop], hlength, rfl, hrest⟩

/-- A number of two digits is read from its first digits, and from zeros in front of
them, only if no zero is there and both digits are read, or if it is zero. -/
theorem eq_of_digitsAt_two (hn : n < 100) (hw : w ≤ 2)
    (h : Field.digitsAt w (List.replicate k '0' ++ (Numeral.padded 2 n ++ text)) = some (n, left)) :
    k = 0 ∧ left = text ∨
      n = 0 ∧ left = List.replicate (k + 2 - w) '0' ++ text := by
  rw [← List.append_assoc] at h
  have htwo := length_padded_two hn
  obtain ⟨front, back, hds, hlength, hfront, rfl⟩ := exists_of_digitsAt_append
    (by rw [List.length_append, List.length_replicate, htwo]; omega) h
  have hlengths := congrArg List.length hds
  rw [List.length_append, List.length_append, List.length_replicate, htwo, hlength] at hlengths
  by_cases hn : n = 0
  · subst hn
    have hpadded : Numeral.padded 2 0 = List.replicate 2 '0' := by decide
    have hzeros : List.replicate k '0' ++ Numeral.padded 2 0 = List.replicate (k + 2) '0' := by
      rw [hpadded, List.replicate_append_replicate]
    have hback : back = List.replicate (k + 2 - w) '0' := by
      rw [hzeros] at hds
      have hdrop := congrArg (List.drop w) hds
      rwa [← hlength, List.drop_left, List.drop_replicate, hlength, eq_comm] at hdrop
    exact .inr ⟨rfl, by rw [hback]⟩
  · have hvalue : Numeral.value (front ++ back) = Numeral.value front := by
      rw [← hds, Numeral.value_zeros_append, Numeral.value_padded, hfront]
    obtain rfl := Numeral.eq_nil_of_value_append (hfront ▸ hn) hvalue
    rw [List.length_nil] at hlengths
    exact .inl ⟨by omega, List.nil_append _⟩

theorem length_padded_lt (hn : n ≠ 0) (h : n * 10 ^ k < 1000) :
    k + (Numeral.padded 1 n).length < 4 := by
  have hpos := Nat.pos_of_ne_zero hn
  have hk : k < 3 := by
    by_contra hk
    have hthousand : 10 ^ 3 ≤ 10 ^ k := Nat.pow_le_pow_right (by decide) (by omega)
    nlinarith
  have hlength : (Numeral.digits n).length ≤ 3 - k := by
    rw [length_digits_le_iff (by omega)]
    interval_cases k <;> omega
  rw [Numeral.length_padded]
  omega

/-- A year is read from its digits and zeros in front of them only if these zeros make up
for the digits that it lacks. -/
theorem le_of_digitsAt_four (hn : n ≠ 0)
    (h : Field.digitsAt 4 (List.replicate k '0' ++ (Numeral.padded 1 n ++ text)) = some (n, left)) :
    1000 ≤ n * 10 ^ k := by
  by_contra hlt
  have hshort := length_padded_lt hn (not_le.mp hlt)
  obtain ⟨front, rest, htext, hlength, -, hreading⟩ := Field.eq_of_digitsAt h
  obtain ⟨hfront, -⟩ := Prod.mk.inj hreading
  rw [← List.append_assoc] at htext
  obtain ⟨back, rfl⟩ : List.replicate k '0' ++ Numeral.padded 1 n <+: front :=
    List.prefix_of_prefix_length_le ⟨text, rfl⟩ ⟨rest, htext.symm⟩ (by simp; omega)
  have hvalue : Numeral.value (List.replicate k '0' ++ Numeral.padded 1 n) = n := by
    rw [Numeral.value_zeros_append, Numeral.value_padded]
  obtain rfl := Numeral.eq_nil_of_value_append (hvalue.symm ▸ hn) (hfront.symm.trans hvalue.symm)
  simp only [List.length_append, List.length_replicate, List.length_nil] at hlength
  omega

/-- Pieces that are displayed as zeros, any one of which may be left out. -/
def Piece.IsZero (stamp : Timestamp) : Piece → Prop
  | .literal c => c = '0'
  | .part p => p.IsClock ∧ p.get stamp = 0

/-- So many zeros, and one for each part that is zero among the pieces before the year,
make up for the digits that the year lacks. -/
def FillsYear (stamp : Timestamp) (k : Nat) (pieces : List Piece) : Prop :=
  ∃ zeros back, pieces = zeros ++ .part .year :: back ∧
    (∀ piece ∈ zeros, piece.IsZero stamp) ∧ 1000 ≤ stamp.year * 10 ^ (k + (parts zeros).length)

/-- The year has four digits, or zeros right before it make up for those that it lacks. -/
def HasFullYear (stamp : Timestamp) (pieces : List Piece) : Prop :=
  ∃ front rest, pieces = front ++ rest ∧ FillsYear stamp 0 rest

theorem FillsYear.hasFullYear (h : FillsYear stamp 0 pieces) : HasFullYear stamp pieces :=
  ⟨[], pieces, rfl, h⟩

theorem HasFullYear.cons (h : HasFullYear stamp rest) (piece : Piece) :
    HasFullYear stamp (piece :: rest) := by
  obtain ⟨front, back, rfl, hback⟩ := h
  exact ⟨piece :: front, back, rfl, hback⟩

theorem FillsYear.cons {piece : Piece} (h : FillsYear stamp n rest) (hpiece : piece.IsZero stamp)
    (hn : n ≤ k + (parts [piece]).length) : FillsYear stamp k (piece :: rest) := by
  obtain ⟨zeros, back, rfl, hzeros, hyear⟩ := h
  refine ⟨piece :: zeros, back, rfl, List.forall_mem_cons.mpr ⟨hpiece, hzeros⟩, hyear.trans ?_⟩
  have hlength : (parts (piece :: zeros)).length =
      (parts [piece]).length + (parts zeros).length := by
    cases piece <;> simp [Nat.add_comm]
  exact Nat.mul_le_mul_left _ (Nat.pow_le_pow_right (by decide) (by omega))

/-! ## Loose readings -/

/-- A run of blanks is not read where there is none. -/
theorem readItems_eq_none_of_startsBlank {pattern : List Item} (h : startsBlank pattern)
    (htext : ∀ c ∈ text.head?, Text.isBlank c = false) : readItems pattern text = none := by
  induction pattern with
  | nil => cases h
  | cons item pattern ih =>
      cases item with
      | literal c =>
          rw [readItems_blank h]
          cases hnext : startsBlank pattern with
          | true => exact ih hnext
          | false =>
              have hnothing : afterBlanks text = [] := by
                simpa using afterBlanks_append (List.forall_mem_nil (Text.isBlank ·)) htext
              rw [if_neg Bool.false_ne_true, hnothing, List.findSome?_nil]
      | field f => cases h
      | unknown letter => cases h

/-- A blank is not read where there is none in the pattern. -/
theorem readItems_eq_none_of_isBlank (h : startsBlank (pieces.map Piece.item) = false)
    (hne : pieces ≠ []) (hc : Text.isBlank c) :
    readItems (pieces.map Piece.item) (c :: text) = none := by
  cases pieces with
  | nil => exact absurd rfl hne
  | cons piece rest =>
      cases piece with
      | literal d =>
          have hd : ¬ Text.isBlank d := by simpa [startsBlank] using h
          rw [List.map_cons, Piece.item_literal, readItems_literal hd, if_neg]
          intro hsame
          exact hd (eq_of_sameLetter hsame (isAlpha_eq_false_of_isBlank hc) ▸ hc)
      | part p =>
          have hnone : p.field.readings (c :: text) = [] := by
            refine List.eq_nil_iff_forall_not_mem.mpr fun reading hreading => ?_
            obtain ⟨⟨w, hw, hdigits⟩, -⟩ := mem_readings_iff.mp hreading
            obtain ⟨ds, rest, htext, rfl, hds, -⟩ := Field.eq_of_digitsAt hdigits
            cases ds with
            | nil => exact absurd hw (by cases p <;> decide)
            | cons d ds =>
                obtain ⟨rfl, -⟩ := List.cons.inj htext
                have hdigit := isBlank_eq_false_of_isDigit (hds c List.mem_cons_self)
                simp [hdigit] at hc
          rw [List.map_cons, Piece.item_part, readItems, hnone, List.findSome?_nil]

theorem readItems_field_eq_some {f : Field} {pattern : List Item}
    (h : readItems (.field f :: pattern) text = some (fields, left)) :
    ∃ n rest others, (n, rest) ∈ f.readings text ∧
      readItems pattern rest = some (others, left) ∧ fields = (f, n) :: others := by
  rw [readItems] at h
  obtain ⟨⟨n, rest⟩, hmem, hreading⟩ := List.exists_of_findSome?_eq_some h
  obtain ⟨⟨others, left'⟩, hothers, hfields⟩ := Option.map_eq_some_iff.mp hreading
  obtain ⟨rfl, rfl⟩ := Prod.mk.inj hfields
  exact ⟨n, rest, others, hmem, hothers, rfl⟩

theorem readItems_literal_eq_some {pattern : List Item} {result : List (Field × Nat) × List Char}
    (h : readItems (.literal c :: pattern) text = some result) :
    ∃ rest, readItems pattern rest = some result ∧ rest <:+ text ∧
      (c.isAlpha = false → ¬ Text.isBlank c → c ∈ text) := by
  by_cases hc : Text.isBlank c
  · rw [readItems_blank hc] at h
    split at h
    · exact ⟨text, h, List.suffix_rfl, fun _ hnot => absurd hc hnot⟩
    · obtain ⟨rest, hmem, hrest⟩ := List.exists_of_findSome?_eq_some h
      obtain ⟨i, -, rfl⟩ := List.mem_map.mp hmem
      exact ⟨_, hrest, List.drop_suffix _ _, fun _ hnot => absurd hc hnot⟩
  · cases text with
    | nil => simp [readItems, hc] at h
    | cons d text =>
        rw [readItems_literal hc] at h
        split at h
        next hsame =>
            refine ⟨text, h, List.suffix_cons _ _, fun halpha _ => ?_⟩
            have hback : Field.sameLetter d c := by
              rw [Field.sameLetter, beq_iff_eq] at hsame ⊢
              exact hsame.symm
            rw [eq_of_sameLetter hback halpha]
            exact List.mem_cons_self
        next => cases h

/-- One number is read for each part, in the order of the pattern. -/
theorem exists_values_of_readItems
    (h : readItems (pieces.map Piece.item) text = some (fields, left)) :
    ∃ values : List (Part × Nat), fields = values.map Part.reading ∧
      values.map Prod.fst = parts pieces := by
  induction pieces generalizing text fields with
  | nil =>
      obtain ⟨rfl, -⟩ : [] = fields ∧ text = left := by simpa [readItems] using h
      exact ⟨[], rfl, rfl⟩
  | cons piece rest ih =>
      cases piece with
      | literal c =>
          obtain ⟨text', h', -⟩ := readItems_literal_eq_some h
          exact ih h'
      | part p =>
          obtain ⟨n, text', others, -, hothers, rfl⟩ := readItems_field_eq_some h
          obtain ⟨values, rfl, hparts⟩ := ih hothers
          exact ⟨(p, n) :: values, rfl, by simp [hparts]⟩

/-- What is neither a letter nor a blank is read only where it is there. -/
theorem mem_of_readItems (h : readItems (pieces.map Piece.item) text = some (fields, left))
    (hc : Piece.literal c ∈ pieces) (halpha : c.isAlpha = false) (hblank : ¬ Text.isBlank c) :
    c ∈ text := by
  induction pieces generalizing text fields with
  | nil => simp at hc
  | cons piece rest ih =>
      cases piece with
      | literal d =>
          obtain ⟨text', h', hsuffix, hmem⟩ := readItems_literal_eq_some h
          rcases List.mem_cons.mp hc with heq | hrest
          · obtain rfl := Piece.literal.inj heq
            exact hmem halpha hblank
          · exact hsuffix.mem (ih h' hrest)
      | part p =>
          obtain ⟨n, text', others, hreading, hothers, -⟩ := readItems_field_eq_some h
          obtain ⟨⟨w, -, hdigits⟩, -⟩ := mem_readings_iff.mp hreading
          obtain ⟨ds, rest', rfl, -, -, hpair⟩ := Field.eq_of_digitsAt hdigits
          obtain ⟨-, rfl⟩ := Prod.mk.inj hpair
          exact List.mem_append_right _ (ih hothers (by simpa using hc))

/-- The numbers of a timestamp are read along the pieces from what is displayed of them,
with blanks of a run in front that has not been read to its end, or with zeros that were
left out of the parts before. -/
structure ReadsBehind (stamp : Timestamp) (blanks : List Char) (k : Nat) (pieces : List Piece)
    (fields : List (Field × Nat)) (left : List Char) : Prop where
  run : ∀ c ∈ blanks, Text.isBlank c
  start : blanks ≠ [] → k = 0 ∧ startsBlank (pieces.map Piece.item)
  read : readItems (pieces.map Piece.item) (blanks ++ (List.replicate k '0' ++
    displayItems stamp (pieces.map Piece.item))) = some (fields, left)
  agrees : ∀ value : Part × Nat, Part.reading value ∈ fields → value.1.get stamp = value.2

namespace ReadsBehind

theorem blanks_eq_nil (h : ReadsBehind stamp blanks k pieces fields left)
    (hstart : startsBlank (pieces.map Piece.item) = false) : blanks = [] := by
  by_contra hne
  have hblank := (h.start hne).2
  simp [hstart] at hblank

/-- A run of blanks is read to its end where the pattern goes on. -/
theorem of_blank (h : ReadsBehind stamp blanks k (.literal c :: rest) fields left)
    (hc : Text.isBlank c) (hrest : rest ≠ []) :
    k = 0 ∧ ∃ blanks, ReadsBehind stamp blanks 0 rest fields left := by
  obtain rfl : k = 0 := by
    by_contra hk
    obtain rfl : blanks = [] := by
      by_contra hne
      exact hk (h.start hne).1
    have hread := h.read
    rw [readItems_eq_none_of_startsBlank (by simpa [startsBlank] using hc)] at hread
    · cases hread
    · obtain ⟨k, rfl⟩ := Nat.exists_eq_succ_of_ne_zero hk
      intro d hd
      obtain rfl : '0' = d := by simpa [List.replicate_succ] using hd
      decide
  refine ⟨rfl, ?_⟩
  have hrun : ∀ d ∈ blanks ++ [c], Text.isBlank d := by
    simpa [or_imp, forall_and, hc] using h.run
  have hread := h.read
  rw [List.map_cons, displayItems_cons, Piece.item_literal, Item.display, List.replicate_zero,
    List.nil_append, List.singleton_append, readItems_blank hc, List.append_cons] at hread
  cases hnext : startsBlank (rest.map Piece.item) with
  | true =>
      rw [hnext, if_pos rfl] at hread
      exact ⟨blanks ++ [c], hrun, fun _ => ⟨rfl, hnext⟩, hread, h.agrees⟩
  | false =>
      rw [hnext, if_neg Bool.false_ne_true,
        afterBlanks_append hrun (isBlank_head?_display hnext stamp)] at hread
      obtain ⟨text, htext, hread⟩ := List.exists_of_findSome?_eq_some hread
      obtain ⟨i, -, rfl⟩ := List.mem_map.mp htext
      cases hdrop : (blanks ++ [c]).drop ((blanks ++ [c]).length - i) with
      | nil =>
          rw [hdrop] at hread
          exact ⟨[], by simp, fun hne => absurd rfl hne, hread, h.agrees⟩
      | cons d ds =>
          have hd : d ∈ blanks ++ [c] := List.mem_of_mem_drop (hdrop ▸ List.mem_cons_self)
          rw [hdrop, List.cons_append,
            readItems_eq_none_of_isBlank hnext hrest (hrun d hd)] at hread
          cases hread

/-- Zeros that were left out stay so past literal text only if it consists of zeros. -/
theorem of_literal (h : ReadsBehind stamp blanks k (.literal c :: rest) fields left)
    (hc : ¬ Text.isBlank c) :
    (k = 0 ∨ c = '0') ∧ ReadsBehind stamp [] k rest fields left := by
  obtain rfl := h.blanks_eq_nil (by simpa [startsBlank] using hc)
  have hread := h.read
  rw [List.map_cons, displayItems_cons, Piece.item_literal, Item.display, List.nil_append,
    List.singleton_append] at hread
  cases k with
  | zero =>
      rw [List.replicate_zero, List.nil_append, readItems_literal hc,
        if_pos (by simp [Field.sameLetter])] at hread
      exact ⟨.inl rfl, by simp, fun hne => absurd rfl hne, hread, h.agrees⟩
  | succ k =>
      rw [List.replicate_succ, List.cons_append, readItems_literal hc] at hread
      split at hread
      next hsame =>
          obtain rfl := eq_of_sameLetter hsame (by decide)
          rw [List.append_cons, ← List.replicate_succ'] at hread
          exact ⟨.inr rfl, by simp, fun hne => absurd rfl hne, hread, h.agrees⟩
      next => cases hread

/-- The number read for a part is that of the timestamp. -/
theorem exists_digitsAt (h : ReadsBehind stamp blanks k (.part p :: rest) fields left) :
    ∃ w text others, w ∈ p.widths ∧ p.low ≤ p.get stamp ∧
      Field.digitsAt w (List.replicate k '0' ++ (Numeral.padded p.width (p.get stamp) ++
        displayItems stamp (rest.map Piece.item))) = some (p.get stamp, text) ∧
      readItems (rest.map Piece.item) text = some (others, left) ∧
      ∀ value : Part × Nat, Part.reading value ∈ others → value.1.get stamp = value.2 := by
  obtain rfl := h.blanks_eq_nil rfl
  obtain ⟨n, text, others, hreading, hothers, rfl⟩ := readItems_field_eq_some h.read
  obtain ⟨⟨w, hw, hdigits⟩, hlow, -⟩ := mem_readings_iff.mp hreading
  obtain rfl : p.get stamp = n := h.agrees (p, n) List.mem_cons_self
  rw [List.map_cons, displayItems_cons, Piece.item_part, Item.display, Part.display_field,
    List.nil_append] at hdigits
  exact ⟨w, text, others, hw, hlow, hdigits, hothers, fun value hvalue =>
    h.agrees value (List.mem_cons_of_mem _ hvalue)⟩

/-- A part other than the year is read as it is displayed, or it is zero. -/
theorem of_part (h : ReadsBehind stamp blanks k (.part p :: rest) fields left) (hp : p ≠ .year) :
    ∃ n others, ReadsBehind stamp [] n rest others left ∧
      (n = 0 ∨ n ≤ k + 1 ∧ (Piece.part p).IsZero stamp) := by
  obtain ⟨w, text, others, hw, hlow, hdigits, hothers, hfields⟩ := h.exists_digitsAt
  rw [Part.widths_of_ne hp] at hw
  rw [Part.width_of_ne hp] at hdigits
  have hwidth : 1 ≤ w ∧ w ≤ 2 := by
    simp only [List.mem_cons, List.not_mem_nil, or_false] at hw
    omega
  rcases eq_of_digitsAt_two (get_lt hp stamp) hwidth.2 hdigits with ⟨-, rfl⟩ | ⟨hzero, rfl⟩
  · exact ⟨0, others, ⟨by simp, fun hne => absurd rfl hne, hothers, hfields⟩, .inl rfl⟩
  · refine ⟨k + 2 - w, others, ⟨by simp, fun hne => absurd rfl hne, hothers, hfields⟩,
      .inr ⟨by omega, ?_, hzero⟩⟩
    cases p <;> simp_all [Part.IsClock, Part.low]

theorem of_year (h : ReadsBehind stamp blanks k (.part .year :: rest) fields left) :
    1000 ≤ stamp.year * 10 ^ k := by
  obtain ⟨w, text, others, hw, -, hdigits, -⟩ := h.exists_digitsAt
  obtain rfl : w = 4 := by simpa [Part.widths] using hw
  have hyear := stamp.isDate.1
  exact le_of_digitsAt_four (by omega) hdigits

/-- By induction on the pattern: zeros are left out by parts that are zero, and only what
is displayed as zeros lets them stay so up to the year. -/
theorem fillsYear (h : ReadsBehind stamp blanks k pieces fields left)
    (hyear : Piece.part .year ∈ pieces) :
    FillsYear stamp k pieces ∨ HasFullYear stamp pieces := by
  induction pieces generalizing blanks k fields with
  | nil => simp at hyear
  | cons piece rest ih =>
      cases piece with
      | literal c =>
          have hrest : Piece.part .year ∈ rest := by simpa using hyear
          by_cases hc : Text.isBlank c
          · obtain ⟨rfl, blanks, h⟩ := h.of_blank hc (List.ne_nil_of_mem hrest)
            rcases ih h hrest with hfills | hfull
            · exact .inr (hfills.hasFullYear.cons _)
            · exact .inr (hfull.cons _)
          · obtain ⟨hzero, h⟩ := h.of_literal hc
            rcases ih h hrest with hfills | hfull
            · rcases hzero with rfl | rfl
              · exact .inr (hfills.hasFullYear.cons _)
              · exact .inl (hfills.cons rfl (Nat.le_add_right _ _))
            · exact .inr (hfull.cons _)
      | part p =>
          by_cases hp : p = .year
          · subst hp
            exact .inl ⟨[], rest, rfl, by simp, h.of_year⟩
          · have hrest : Piece.part .year ∈ rest := by
              simpa [Ne.symm hp] using hyear
            obtain ⟨n, others, h, hn⟩ := h.of_part hp
            rcases ih h hrest with hfills | hfull
            · rcases hn with rfl | ⟨hn, hzero⟩
              · exact .inr (hfills.hasFullYear.cons _)
              · exact .inl (hfills.cons hzero hn)
            · exact .inr (hfull.cons _)

end ReadsBehind

/-! ## Complete patterns -/

theorem null_not_mem_display (h : Piece.literal '\x00' ∉ pieces) (stamp : Timestamp) :
    '\x00' ∉ displayItems stamp (pieces.map Piece.item) := by
  induction pieces with
  | nil => simp
  | cons piece rest ih =>
      obtain ⟨hpiece, hrest⟩ := not_or.mp (List.mem_cons.not.mp h)
      rw [List.map_cons, displayItems_cons, List.mem_append, not_or]
      refine ⟨fun hmem => ?_, ih hrest⟩
      cases piece with
      | literal c => exact hpiece (congrArg Piece.literal (List.mem_singleton.mp hmem))
      | part p =>
          rw [Piece.item_part, Item.display, Part.display_field] at hmem
          exact absurd (Numeral.isDigit_of_mem_padded hmem) (by decide)

theorem display_complete (h : IsComplete pieces) (hnull : Piece.literal '\x00' ∉ pieces)
    (stamp : Timestamp) :
    stamp.display (patternOf pieces) =
      String.ofList (displayItems stamp (pieces.map Piece.item)) := by
  have hwhole : pieces.takeWhile (· ≠ .literal '\x00') = pieces :=
    List.takeWhile_eq_self_iff.mpr fun piece hmem => by
      simpa using ne_of_mem_of_not_mem hmem hnull
  rw [display_spell h.unmarked, hwhole]

/-- Reading undoes display. -/
theorem read?_display (h : IsComplete pieces) (hnull : Piece.literal '\x00' ∉ pieces)
    (hyear : 1000 ≤ stamp.year) (hmicrosecond : stamp.microsecond = 0) :
    read? (patternOf pieces) (stamp.display (patternOf pieces)) = some stamp := by
  have hread : readItems (pieces.map Piece.item)
      ([] ++ displayItems stamp (pieces.map Piece.item)) =
        some ((readingsOf stamp pieces).map Part.reading, []) :=
    readItems_display hyear (by simp) fun _ => rfl
  have hfirst : (readingsOf stamp pieces).map Prod.fst = parts pieces := by
    simp [readingsOf, Function.comp_def]
  have hstamp : (Draft.ofFields ((readingsOf stamp pieces).map Part.reading)).stamp? =
      some stamp := by
    rw [Draft.stamp?_ofFields (hfirst ▸ h.nodup) (hfirst ▸ h.mem)]
    refine ⟨fun value hvalue => ?_, hmicrosecond⟩
    obtain ⟨p, -, rfl⟩ := List.mem_map.mp hvalue
    rfl
  rw [read?, readLoosely?, patternOf, String.toList_ofList, items_spell h.unmarked, ← patternOf,
    display_complete h hnull, String.toList_ofList, ← List.nil_append (displayItems _ _), hread]
  simp [hstamp, display_complete h hnull]

/-- What a complete pattern displays as the text that was read has no microseconds and a
full year. -/
theorem of_read?_complete (h : IsComplete pieces) {text : String}
    (hread : read? (patternOf pieces) text = some stamp) :
    Piece.literal '\x00' ∉ pieces ∧ stamp.microsecond = 0 ∧ HasFullYear stamp pieces := by
  have hdisplay := display_of_read? hread
  obtain ⟨hloose, -⟩ := Option.filter_eq_some_iff.mp hread
  rw [readLoosely?, patternOf, String.toList_ofList, items_spell h.unmarked] at hloose
  split at hloose
  next fields hitems =>
      obtain ⟨values, rfl, hparts⟩ := exists_values_of_readItems hitems
      obtain ⟨hvalues, hmicrosecond⟩ :=
        (Draft.stamp?_ofFields (hparts ▸ h.nodup) (hparts ▸ h.mem)).mp hloose
      have hnull : Piece.literal '\x00' ∉ pieces := fun hmem => by
        have htext := mem_of_readItems hitems hmem (by decide) (by decide)
        rw [← hdisplay, display_spell h.unmarked, String.toList_ofList] at htext
        refine null_not_mem_display (fun hcut => ?_) stamp htext
        simpa using List.mem_takeWhile_imp hcut
      refine ⟨hnull, hmicrosecond, ?_⟩
      rw [display_complete h hnull] at hdisplay
      have hbehind : ReadsBehind stamp [] 0 pieces (values.map Part.reading) [] := by
        refine ⟨by simp, fun hne => absurd rfl hne, ?_, fun value hvalue => ?_⟩
        · rwa [← hdisplay, String.toList_ofList] at hitems
        · obtain ⟨value', hmem, heq⟩ := List.mem_map.mp hvalue
          exact Part.reading_injective heq ▸ hvalues value' hmem
      rcases hbehind.fillsYear (mem_parts.mp (h.mem .year)) with hfills | hfull
      · exact hfills.hasFullYear
      · exact hfull
  next => cases hloose

theorem display_ne_nil (hyear : Piece.part .year ∈ pieces) (stamp : Timestamp) :
    displayItems stamp (pieces.map Piece.item) ≠ [] := by
  intro h
  have hmem : Item.field .year ∈ pieces.map Piece.item := List.mem_map_of_mem hyear
  exact Nat.toDigits_ne_nil (List.flatMap_eq_nil_iff.mp h _ hmem)

/-- Timestamps from the year 1000 on are displayed by a complete pattern as texts that
are read as them, and nothing else is read as a timestamp, unless zeros before the year
make up for digits that it lacks. -/
theorem read_complete (h : IsComplete pieces) :
    (∀ stamp : Timestamp, Piece.literal '\x00' ∉ pieces → 1000 ≤ stamp.year →
      stamp.microsecond = 0 →
      Value.read (patternOf pieces) (stamp.display (patternOf pieces)) =
        .ok (.simple (.dateTime stamp (patternOf pieces)))) ∧
    (∀ (text pattern : String) (stamp : Timestamp),
      Value.read (patternOf pieces) text = .ok (.simple (.dateTime stamp pattern)) →
        pattern = patternOf pieces ∧ stamp.display pattern = text ∧ stamp.microsecond = 0 ∧
          HasFullYear stamp pieces ∧ Piece.literal '\x00' ∉ pieces) ∧
    ∀ stamp other : Timestamp, Piece.literal '\x00' ∉ pieces →
      1000 ≤ stamp.year → 1000 ≤ other.year → stamp.microsecond = 0 → other.microsecond = 0 →
      stamp.display (patternOf pieces) = other.display (patternOf pieces) → stamp = other := by
  refine ⟨fun stamp hnull hyear hmicrosecond => ?_, fun text pattern stamp hread => ?_,
    fun stamp other hnull hyear hyear' hmicrosecond hmicrosecond' heq => ?_⟩
  · have hstamp := read?_display h hnull hyear hmicrosecond
    have hne : (stamp.display (patternOf pieces)).toList ≠ [] := by
      rw [display_complete h hnull, String.toList_ofList]
      exact display_ne_nil (mem_parts.mp (h.mem .year)) stamp
    rw [← String.ofList_toList (s := stamp.display (patternOf pieces))] at hstamp
    rw [Value.read_eq_readChars h.repetition?_eq_none]
    exact Value.readChars_of_denotes (.dateTime hne hstamp) fun hnone =>
      absurd (hstamp.symm.trans hnone) (by simp)
  · generalize hv : Value.simple (.dateTime stamp pattern) = v at hread
    cases Value.denotes_of_read hread with
    | @dateTime stamp' _ hstamp =>
        obtain ⟨rfl, rfl⟩ : stamp = stamp' ∧ pattern = patternOf pieces := by simpa using hv
        rw [String.ofList_toList] at hstamp
        obtain ⟨hnull, hmicrosecond, hfull⟩ := of_read?_complete h hstamp
        exact ⟨rfl, display_of_read? hstamp, hmicrosecond, hfull, hnull⟩
    | _ => cases hv
  · have hstamp := read?_display h hnull hyear hmicrosecond
    rw [heq, read?_display h hnull hyear' hmicrosecond'] at hstamp
    exact (Option.some.inj hstamp).symm

/-- The time of day without anything in between, two blanks, and the date. -/
def clockFirst : List Piece :=
  [.part .hour, .part .minute, .part .second, .literal ' ', .literal ' ', .part .day, .part .month,
    .part .year]

def lastSecondOfLeapDay : Timestamp :=
  ⟨2024, 2, 29, 23, 59, 59, 0, by decide, by decide⟩

theorem read_complete_clockFirst :
    IsComplete clockFirst ∧ patternOf clockFirst = "%H%M%S  %d%m%Y" ∧
      Value.read (patternOf clockFirst) "235959  29022024" =
        .ok (.simple (.dateTime lastSecondOfLeapDay (patternOf clockFirst))) := by
  have hcomplete : IsComplete clockFirst := ⟨fun p => by cases p <;> rfl, by decide⟩
  have hdisplay : lastSecondOfLeapDay.display (patternOf clockFirst) = "235959  29022024" := by
    decide
  refine ⟨hcomplete, by decide, ?_⟩
  rw [← hdisplay]
  exact (read_complete hcomplete).1 lastSecondOfLeapDay (by decide) (by decide) rfl

/-- The year right behind the time of day. -/
def yearBehindClock : List Piece :=
  [.part .month, .part .day, .part .minute, .part .second, .part .hour, .part .year]

def firstHourOfYear123 : Timestamp :=
  ⟨123, 1, 1, 0, 5, 7, 0, by decide, by decide⟩

/-- A date with a null character behind it. -/
def nullBehind : List Piece :=
  [.part .year, .part .month, .part .day, .part .hour, .part .minute, .part .second,
    .literal '\x00']

/-- A zero of the hour may be read as one of the year, and what stands behind a null
character is not displayed, so that a display without it is not read. -/
theorem read_yearBehindClock :
    (IsComplete yearBehindClock ∧ patternOf yearBehindClock = "%m%d%M%S%H%Y" ∧
      Value.read (patternOf yearBehindClock) "0101050700123" =
        .ok (.simple (.dateTime firstHourOfYear123 (patternOf yearBehindClock)))) ∧
    IsComplete nullBehind ∧
      Value.read (patternOf nullBehind) (lastSecondOfLeapDay.display (patternOf nullBehind)) ≠
        .ok (.simple (.dateTime lastSecondOfLeapDay (patternOf nullBehind))) := by
  have hstamp : read? (patternOf yearBehindClock) (String.ofList "0101050700123".toList) =
      some firstHourOfYear123 := by decide
  have hnull : read? (patternOf nullBehind)
      (String.ofList (lastSecondOfLeapDay.display (patternOf nullBehind)).toList) = none := by
    decide
  have hcomplete : IsComplete yearBehindClock := ⟨fun p => by cases p <;> rfl, by decide⟩
  refine ⟨⟨hcomplete, by decide, ?_⟩, ⟨fun p => by cases p <;> rfl, by decide⟩, fun hread => ?_⟩
  · rw [Value.read_eq_readChars hcomplete.repetition?_eq_none]
    exact Value.readChars_of_denotes (.dateTime (by decide) hstamp) fun hnone =>
      absurd (hstamp.symm.trans hnone) (by simp)
  · generalize hv : Value.simple (.dateTime lastSecondOfLeapDay (patternOf nullBehind)) = v at hread
    cases Value.denotes_of_read hread with
    | dateTime _ hstamp => exact absurd (hstamp.symm.trans hnull) (by simp)
    | _ => cases hv

end Worksheet.Timestamp
