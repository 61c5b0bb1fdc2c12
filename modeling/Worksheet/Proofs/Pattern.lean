import Mathlib
import Worksheet.Proofs.Writing
import Worksheet.Timestamp.Expression

/-!
# Patterns with every part of a timestamp

A complete pattern has each of the year, the month, the day, the hour, the minute and
the second once, among literal text without percent signs. What is read along it is one
number for each part, and these make up a timestamp without microseconds.
-/

namespace Worksheet.Timestamp

/-- The parts of a timestamp that are written as numbers, microseconds apart. -/
inductive Part where
  | year
  | month
  | day
  | hour
  | minute
  | second
  deriving DecidableEq, Repr

namespace Part

def letter : Part → Char
  | .year => 'Y'
  | .month => 'm'
  | .day => 'd'
  | .hour => 'H'
  | .minute => 'M'
  | .second => 'S'

def field : Part → Field
  | .year => .year
  | .month => .month
  | .day => .day
  | .hour => .hour
  | .minute => .minute
  | .second => .second

def get (stamp : Timestamp) : Part → Nat
  | .year => stamp.year
  | .month => stamp.month
  | .day => stamp.day
  | .hour => stamp.hour
  | .minute => stamp.minute
  | .second => stamp.second

/-- The parts that may be zero. -/
def IsClock (p : Part) : Prop :=
  p = .hour ∨ p = .minute ∨ p = .second

/-- The least number of digits with which a part is displayed. -/
def width : Part → Nat
  | .year => 1
  | _ => 2

/-- The numbers of digits with which a part is read, the preferred one first. -/
def widths : Part → List Nat
  | .year => [4]
  | _ => [2, 1]

def low : Part → Nat
  | .month | .day => 1
  | _ => 0

def high : Part → Nat
  | .year => 9999
  | .month => 12
  | .day => 31
  | .hour => 23
  | .minute => 59
  | .second => 61

variable {stamp : Timestamp} {p : Part}

theorem width_of_ne (h : p ≠ .year) : p.width = 2 := by
  cases p <;> first | rfl | exact absurd rfl h

theorem widths_of_ne (h : p ≠ .year) : p.widths = [2, 1] := by
  cases p <;> first | rfl | exact absurd rfl h

theorem readings_field (p : Part) (text : List Char) :
    p.field.readings text = Field.numbers p.widths p.low p.high text := by
  cases p <;> rfl

theorem display_field (p : Part) (stamp : Timestamp) :
    p.field.display stamp = Numeral.padded p.width (p.get stamp) := by
  cases p with
  | year =>
      have hlength : 0 < (Numeral.digits stamp.year).length :=
        List.length_pos_iff.mpr Nat.toDigits_ne_nil
      have hzero : 1 - (Numeral.digits stamp.year).length = 0 := by omega
      simp only [field, Field.display, get, width, Numeral.padded, hzero, List.replicate_zero,
        List.nil_append]
  | month => rfl
  | day => rfl
  | hour => rfl
  | minute => rfl
  | second => rfl

end Part

theorem monthLengths_le {year length : Nat} (h : length ∈ Calendar.monthLengths year) :
    length ≤ 31 := by
  simp only [Calendar.monthLengths, List.mem_cons, List.not_mem_nil, or_false] at h
  split at h <;> omega

/-- There are twelve months, and none of them is longer than 31 days. -/
theorem range_of_isDate {year month day : Nat} (h : Calendar.IsDate year month day) :
    1 ≤ month ∧ month ≤ 12 ∧ day ≤ 31 := by
  obtain ⟨-, -, hday, hlast⟩ := h
  cases month with
  | zero =>
      have hnone : Calendar.daysInMonth year 0 = 0 := rfl
      omega
  | succ month =>
      have hdays : Calendar.daysInMonth year (month + 1) =
          (Calendar.monthLengths year)[month]?.getD 0 := rfl
      cases hlength : (Calendar.monthLengths year)[month]? with
      | none =>
          rw [hdays, hlength, Option.getD_none] at hlast
          omega
      | some length =>
          rw [hdays, hlength, Option.getD_some] at hlast
          have hmonth : month < 12 := (List.getElem?_eq_some_iff.mp hlength).1
          have hlast := hlast.trans (monthLengths_le (List.mem_of_getElem? hlength))
          exact ⟨Nat.succ_pos _, hmonth, hlast⟩

namespace Part

theorem get_range (p : Part) (stamp : Timestamp) :
    p.low ≤ p.get stamp ∧ p.get stamp ≤ p.high := by
  obtain ⟨-, hyear, hday, -⟩ := id stamp.isDate
  obtain ⟨hmonth, hmonth', hday'⟩ := range_of_isDate stamp.isDate
  obtain ⟨hhour, hminute, hsecond, -⟩ := stamp.isTime
  cases p <;> simp only [get, low, high] <;> omega

end Part

/-- A piece of a pattern: a character that stands for itself, or a part. -/
inductive Piece where
  | literal (c : Char)
  | part (p : Part)
  deriving DecidableEq, Repr

namespace Piece

def item : Piece → Item
  | .literal c => .literal c
  | .part p => .field p.field

def spelling : Piece → List Char
  | .literal c => [c]
  | .part p => ['%', p.letter]

def part? : Piece → Option Part
  | .literal _ => none
  | .part p => some p

end Piece

def spell (pieces : List Piece) : List Char :=
  pieces.flatMap Piece.spelling

def patternOf (pieces : List Piece) : String :=
  String.ofList (spell pieces)

def parts (pieces : List Piece) : List Part :=
  pieces.filterMap Piece.part?

/-- Every part is there once, and the rest is literal text without percent signs. -/
structure IsComplete (pieces : List Piece) : Prop where
  once : ∀ p, (parts pieces).count p = 1
  unmarked : Piece.literal '%' ∉ pieces

variable {stamp : Timestamp} {c : Char} {p : Part} {pieces rest : List Piece}

@[simp] theorem parts_nil : parts [] = [] := rfl

@[simp] theorem parts_literal (c : Char) (rest : List Piece) :
    parts (.literal c :: rest) = parts rest := rfl

@[simp] theorem parts_part (p : Part) (rest : List Piece) :
    parts (.part p :: rest) = p :: parts rest := rfl

@[simp] theorem Piece.item_literal (c : Char) : (Piece.literal c).item = .literal c := rfl

@[simp] theorem Piece.item_part (p : Part) : (Piece.part p).item = .field p.field := rfl

@[simp] theorem spell_nil : spell [] = [] := rfl

@[simp] theorem spell_literal (c : Char) (rest : List Piece) :
    spell (.literal c :: rest) = c :: spell rest := rfl

@[simp] theorem spell_part (p : Part) (rest : List Piece) :
    spell (.part p :: rest) = '%' :: p.letter :: spell rest := rfl

theorem mem_parts : p ∈ parts pieces ↔ .part p ∈ pieces := by
  induction pieces with
  | nil => simp
  | cons piece rest ih => cases piece <;> simp [ih]

namespace IsComplete

theorem mem (h : IsComplete pieces) (p : Part) : p ∈ parts pieces :=
  List.count_pos_iff.mp (h.once p ▸ Nat.one_pos)

theorem nodup (h : IsComplete pieces) : (parts pieces).Nodup :=
  List.nodup_iff_count_le_one.mpr fun p => (h.once p).le

end IsComplete

theorem items_cons {cs : List Char} (h : c ≠ '%') : items (c :: cs) = .literal c :: items cs := by
  cases cs <;> simp [items, h]

/-- What is spelled without percent signs of its own is read as the same pieces. -/
theorem items_spell (h : Piece.literal '%' ∉ pieces) :
    items (spell pieces) = pieces.map Piece.item := by
  induction pieces with
  | nil => rfl
  | cons piece rest ih =>
      obtain ⟨hpiece, hrest⟩ := not_or.mp (List.mem_cons.not.mp h)
      cases piece with
      | literal c =>
          have hc : c ≠ '%' := fun hc => hpiece (hc ▸ rfl)
          rw [spell_literal, items_cons hc, ih hrest]
          rfl
      | part p =>
          cases p <;> simp [items, Field.ofLetter?, Part.letter, ih hrest, Piece.item, Part.field]

theorem fields_map_item (pieces : List Piece) :
    fields (pieces.map Piece.item) = (parts pieces).map Part.field := by
  induction pieces with
  | nil => rfl
  | cons piece rest ih => cases piece <;> simpa [fields] using ih

theorem Part.field_injective : Function.Injective Part.field := by
  intro p q h
  cases p <;> cases q <;> first | rfl | cases h

/-- With every part once there is no field twice. -/
theorem IsComplete.repetition?_eq_none (h : IsComplete pieces) :
    repetition? (patternOf pieces) = none := by
  refine repetition?_eq_none_iff.mpr (.inr ?_)
  rw [patternOf, String.toList_ofList, items_spell h.unmarked, fields_map_item]
  exact h.nodup.map Part.field_injective

theorem beforeNull_spell (pieces : List Piece) :
    beforeNull (spell pieces) = spell (pieces.takeWhile (· ≠ .literal '\x00')) := by
  induction pieces with
  | nil => rfl
  | cons piece rest ih =>
      unfold beforeNull at ih ⊢
      cases piece with
      | literal c =>
          by_cases hc : c = '\x00'
          · simp [hc]
          · simp only [spell_literal, List.takeWhile_cons, ne_eq, hc, not_false_eq_true,
              decide_true, ite_true, Piece.literal.injEq, ih]
      | part p =>
          have hletter : p.letter ≠ '\x00' := by cases p <;> decide
          simp only [spell_part, List.takeWhile_cons, ne_eq, hletter, not_false_eq_true,
            decide_true, ite_true, reduceCtorEq, ih]
          rfl

/-- Nothing is displayed from the first null character on. -/
theorem display_spell (h : Piece.literal '%' ∉ pieces) (stamp : Timestamp) :
    stamp.display (patternOf pieces) = String.ofList (displayItems stamp
      ((pieces.takeWhile (· ≠ .literal '\x00')).map Piece.item)) := by
  rw [display, patternOf, String.toList_ofList, beforeNull_spell, items_spell]
  exact fun hmem => h ((List.takeWhile_prefix _).mem hmem)

/-! ## What the parts make up -/

theorem ofFields?_eq_some_iff {year month day hour minute second microsecond : Nat} :
    ofFields? year month day hour minute second microsecond = some stamp ↔
      stamp.year = year ∧ stamp.month = month ∧ stamp.day = day ∧ stamp.hour = hour ∧
        stamp.minute = minute ∧ stamp.second = second ∧ stamp.microsecond = microsecond := by
  constructor
  · intro h
    unfold ofFields? at h
    split at h
    · split at h
      · obtain rfl := Option.some.inj h
        exact ⟨rfl, rfl, rfl, rfl, rfl, rfl, rfl⟩
      · cases h
    · cases h
  · rintro ⟨rfl, rfl, rfl, rfl, rfl, rfl, rfl⟩
    unfold ofFields?
    rw [dif_pos stamp.isDate, dif_pos stamp.isTime]

/-- A number that was read for a part, with the field of the part. -/
def Part.reading (value : Part × Nat) : Field × Nat :=
  (value.1.field, value.2)

theorem Part.reading_injective : Function.Injective Part.reading := by
  rintro ⟨p, n⟩ ⟨q, m⟩ h
  obtain ⟨hfield, rfl⟩ := Prod.mk.inj h
  have hp : p = q := by cases p <;> cases q <;> first | rfl | cases hfield
  rw [hp]

namespace Draft

variable {afternoon : Bool} {draft : Draft} {values : List (Part × Nat)} {n : Nat}

def get (draft : Draft) : Part → Nat
  | .year => draft.year
  | .month => draft.month
  | .day => draft.day
  | .hour => draft.hour
  | .minute => draft.minute
  | .second => draft.second

/-- Drafts that numbers for parts make up. -/
structure IsPlain (draft : Draft) : Prop where
  microsecond : draft.microsecond = 0
  dayOfYear : draft.dayOfYear = none

theorem get_set (p q : Part) (n : Nat) :
    (draft.set afternoon (p.field, n)).get q = if q = p then n else draft.get q := by
  cases p <;> cases q <;> rfl

theorem isPlain_set (h : draft.IsPlain) (p : Part) (n : Nat) :
    (draft.set afternoon (p.field, n)).IsPlain := by
  cases p <;> exact ⟨h.microsecond, h.dayOfYear⟩

theorem isPlain_foldl (h : draft.IsPlain) (values : List (Part × Nat)) :
    ((values.map Part.reading).foldl (set afternoon) draft).IsPlain := by
  induction values generalizing draft with
  | nil => exact h
  | cons value values ih => exact ih (isPlain_set h value.1 value.2)

theorem get_foldl_of_not_mem (h : p ∉ values.map Prod.fst) :
    ((values.map Part.reading).foldl (set afternoon) draft).get p = draft.get p := by
  induction values generalizing draft with
  | nil => rfl
  | cons value values ih =>
      obtain ⟨hvalue, hvalues⟩ := not_or.mp (List.mem_cons.not.mp h)
      rw [List.map_cons, List.foldl_cons, ih hvalues, Part.reading, get_set, if_neg hvalue]

/-- The numbers for different parts are all kept. -/
theorem get_foldl (hnodup : (values.map Prod.fst).Nodup) (h : (p, n) ∈ values) :
    ((values.map Part.reading).foldl (set afternoon) draft).get p = n := by
  induction values generalizing draft with
  | nil => simp at h
  | cons value values ih =>
      rw [List.map_cons, List.nodup_cons] at hnodup
      rw [List.map_cons, List.foldl_cons]
      rcases List.mem_cons.mp h with rfl | h
      · rw [get_foldl_of_not_mem hnodup.1, Part.reading, get_set, if_pos rfl]
      · exact ih hnodup.2 h

theorem IsPlain.stamp?_eq_some_iff (h : draft.IsPlain) :
    draft.stamp? = some stamp ↔
      (∀ p : Part, p.get stamp = draft.get p) ∧ stamp.microsecond = 0 := by
  rw [stamp?, h.dayOfYear]
  refine ofFields?_eq_some_iff.trans ?_
  rw [h.microsecond]
  constructor
  · rintro ⟨hyear, hmonth, hday, hhour, hminute, hsecond, hmicrosecond⟩
    refine ⟨fun p => ?_, hmicrosecond⟩
    cases p <;> assumption
  · rintro ⟨hget, hmicrosecond⟩
    exact ⟨hget .year, hget .month, hget .day, hget .hour, hget .minute, hget .second,
      hmicrosecond⟩

/-- One number for each part makes up the timestamp that has these parts. -/
theorem stamp?_ofFields (hnodup : (values.map Prod.fst).Nodup)
    (hall : ∀ p, p ∈ values.map Prod.fst) :
    (ofFields (values.map Part.reading)).stamp? = some stamp ↔
      (∀ value ∈ values, value.1.get stamp = value.2) ∧ stamp.microsecond = 0 := by
  have hplain : (ofFields (values.map Part.reading)).IsPlain := isPlain_foldl ⟨rfl, rfl⟩ values
  rw [hplain.stamp?_eq_some_iff]
  refine and_congr_left fun _ => ⟨fun h value hvalue => ?_, fun h p => ?_⟩
  · rw [h value.1]
    exact get_foldl hnodup hvalue
  · obtain ⟨value, hvalue, rfl⟩ := List.mem_map.mp (hall p)
    rw [h value hvalue]
    exact (get_foldl hnodup hvalue).symm

end Draft

end Worksheet.Timestamp
