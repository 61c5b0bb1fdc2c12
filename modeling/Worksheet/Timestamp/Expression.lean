import Worksheet.Text.Quoted
import Worksheet.Timestamp.Reading

/-!
# Patterns as regular expressions

To be read along, a pattern is made into a regular expression, where every field becomes a
group that is named by the letter of the field. No two groups may have one name, and so
nothing is read along a pattern that has a field twice. An unknown letter is noticed
before.
-/

namespace Worksheet.Timestamp

namespace Field

def letter : Field → Char
  | .year => 'Y'
  | .yearOfCentury => 'y'
  | .month => 'm'
  | .monthName => 'B'
  | .monthAbbreviation => 'b'
  | .day => 'd'
  | .dayOfYear => 'j'
  | .weekdayName => 'A'
  | .weekdayAbbreviation => 'a'
  | .hour => 'H'
  | .hourOfHalf => 'I'
  | .half => 'p'
  | .minute => 'M'
  | .second => 'S'
  | .microsecond => 'f'

@[simp] theorem ofLetter?_letter (f : Field) : ofLetter? f.letter = some f := by
  cases f <;> rfl

/-- Names in small letters, longer ones first. -/
def alternatives (names : List String) : String :=
  "|".intercalate ((names.map String.toLower).mergeSort fun s t => t.length ≤ s.length)

/-- The regular expression of what a field is read from. -/
def expression : Field → String
  | .year => "\\d\\d\\d\\d"
  | .yearOfCentury => "\\d\\d"
  | .month => "1[0-2]|0[1-9]|[1-9]"
  | .monthName => alternatives monthNames
  | .monthAbbreviation => alternatives (monthNames.map abbreviation)
  | .day => "3[0-1]|[1-2]\\d|0[1-9]|[1-9]| [1-9]"
  | .dayOfYear => "36[0-6]|3[0-5]\\d|[1-2]\\d\\d|0[1-9]\\d|00[1-9]|[1-9]\\d|0[1-9]|[1-9]"
  | .weekdayName => alternatives weekdayNames
  | .weekdayAbbreviation => alternatives (weekdayNames.map abbreviation)
  | .hour => "2[0-3]|[0-1]\\d|\\d"
  | .hourOfHalf => "1[0-2]|0[1-9]|[1-9]"
  | .half => alternatives halves
  | .minute => "[0-5]\\d|\\d"
  | .second => "6[0-1]|[0-5]\\d|\\d"
  | .microsecond => "[0-9]\x7b1,6\x7d"

/-- What a group begins with, up to its name. -/
def opening : String := "(?P<"

def group (f : Field) : String :=
  opening ++ String.singleton f.letter ++ ">" ++ f.expression ++ ")"

end Field

/-- The characters that mean something in a regular expression. -/
def isSpecial (c : Char) : Bool :=
  ['\\', '.', '^', '$', '*', '+', '?', '(', ')', '\x7b', '\x7d', '[', ']', '|'].contains c

/-- The regular expression of a pattern, in which a run of blanks is one for any other. -/
def expression : List Item → List Char
  | [] => []
  | .literal c :: rest =>
      if Text.isBlank c then
        if startsBlank rest then expression rest else '\\' :: 's' :: '+' :: expression rest
      else if isSpecial c then '\\' :: c :: expression rest
      else c :: expression rest
  | .field f :: rest => f.group.toList ++ expression rest
  | .unknown _ :: rest => expression rest

def fields (pattern : List Item) : List Field :=
  pattern.filterMap fun
    | .field f => some f
    | _ => none

/-- A field that a pattern has a second time. Groups are counted from one, and the
position is that of the name in the regular expression. -/
structure Repetition where
  field : Field
  group : Nat
  earlier : Nat
  position : Nat
  deriving DecidableEq, Repr

def Repetition.message (r : Repetition) : String :=
  "redefinition of group name " ++ Text.quote (String.singleton r.field.letter) ++ " as group " ++
    toString r.group ++ "; was group " ++ toString r.earlier ++ " at position " ++
    toString r.position

/-- The first repetition in a pattern, of which the items before have been looked at. -/
def repetitionAfter? (before : List Item) : List Item → Option Repetition
  | [] => none
  | .field f :: rest =>
      match (fields before).idxOf? f with
      | some i => some {
          field := f
          group := (fields before).length + 1
          earlier := i + 1
          position := (expression before).length + Field.opening.length }
      | none => repetitionAfter? (before ++ [.field f]) rest
  | item :: rest => repetitionAfter? (before ++ [item]) rest

def Item.isUnknown : Item → Bool
  | .unknown _ => true
  | _ => false

/-- The repetition for which nothing can be read along a pattern. -/
def repetition? (pattern : String) : Option Repetition :=
  let items := items pattern.toList
  if items.any Item.isUnknown then none else repetitionAfter? [] items

theorem fields_append (before pattern : List Item) :
    fields (before ++ pattern) = fields before ++ fields pattern :=
  List.filterMap_append

theorem repetitionAfter?_eq_none_iff {before pattern : List Item} (h : (fields before).Nodup) :
    repetitionAfter? before pattern = none ↔ (fields (before ++ pattern)).Nodup := by
  induction pattern generalizing before with
  | nil => simp [repetitionAfter?, h]
  | cons item rest ih =>
      have hstep : before ++ item :: rest = before ++ [item] ++ rest := by simp
      cases item with
      | literal c =>
          rw [repetitionAfter?, ih (by simpa [fields_append, fields] using h), hstep]
          all_goals simp
      | unknown letter =>
          rw [repetitionAfter?, ih (by simpa [fields_append, fields] using h), hstep]
          all_goals simp
      | field f =>
          by_cases hf : f ∈ fields before
          · obtain ⟨i, hi⟩ : ∃ i, (fields before).idxOf? f = some i := by
              rw [← Option.isSome_iff_exists, List.isSome_idxOf?]
              exact hf
            have htwice : ¬ (fields (before ++ .field f :: rest)).Nodup := by
              rw [fields_append, List.nodup_append]
              exact fun hnodup => hnodup.2.2 f hf f (by simp [fields]) rfl
            simp [repetitionAfter?, hi, htwice]
          · have hnone : (fields before).idxOf? f = none := List.idxOf?_eq_none_iff.mpr hf
            have hnodup : (fields (before ++ [.field f])).Nodup := by
              rw [fields_append, List.nodup_append]
              refine ⟨h, by simp [fields], fun a ha b hb => ?_⟩
              obtain rfl : b = f := by simpa [fields] using hb
              rintro rfl
              exact hf ha
            rw [hstep, ← ih hnodup]
            simp [repetitionAfter?, hnone]

/-- A pattern can be read along if no field stands in it twice. One with an unknown letter
can, but nothing is ever read. -/
theorem repetition?_eq_none_iff {pattern : String} :
    repetition? pattern = none ↔
      (items pattern.toList).any Item.isUnknown ∨ (fields (items pattern.toList)).Nodup := by
  have hnone : (fields []).Nodup := List.nodup_nil
  unfold repetition?
  by_cases h : (items pattern.toList).any Item.isUnknown = true
  · simp [h]
  · simp [h, repetitionAfter?_eq_none_iff hnone]

end Worksheet.Timestamp
