import Worksheet.Text.Blank
import Worksheet.Timestamp.Pattern

/-!
# Reading timestamps

A text is first read loosely along a pattern: letters match in either case,
blanks match any run of blanks, and a field takes as many digits as it may,
or fewer if what follows would not match otherwise. The stamp assembled from
the fields counts only if the pattern displays it as the very same text, so
that reading undoes display and accepts nothing else.
-/

namespace Worksheet.Timestamp

namespace Field

def digitsAt (width : Nat) (text : List Char) : Option (Nat × List Char) :=
  let front := text.take width
  if front.length = width ∧ front.all Char.isDigit then
    some (Numeral.value front, text.drop width)
  else none

/-- The readings as a number from `low` to `high`, one for each width. -/
def numbers (widths : List Nat) (low high : Nat) (text : List Char) : List (Nat × List Char) :=
  (widths.filterMap fun width => digitsAt width text).filter fun reading =>
    low ≤ reading.1 && reading.1 ≤ high

def sameLetter (c d : Char) : Bool :=
  c.toLower == d.toLower

/-- What follows a name at the front of a text. -/
def afterName? : List Char → List Char → Option (List Char)
  | [], text => some text
  | _ :: _, [] => none
  | c :: name, d :: text => if sameLetter c d then afterName? name text else none

/-- The readings as one of the names, each with its place in the list. -/
def named (names : List String) (text : List Char) : List (Nat × List Char) :=
  names.zipIdx.filterMap fun (name, i) => (afterName? name.toList text).map fun rest => (i, rest)

/-- A fraction of a second in at most six digits. -/
def fractions (text : List Char) : List (Nat × List Char) :=
  [6, 5, 4, 3, 2, 1].filterMap fun width =>
    (digitsAt width text).map fun (n, rest) => (n * Nat.pow 10 (6 - width), rest)

/-- The ways to read a field at the front of a text, the preferred one first. -/
def readings (text : List Char) : Field → List (Nat × List Char)
  | .year => numbers [4] 0 9999 text
  | .yearOfCentury => numbers [2] 0 99 text
  | .month => numbers [2, 1] 1 12 text
  | .monthName => named monthNames text
  | .monthAbbreviation => named (monthNames.map abbreviation) text
  | .day => numbers [2, 1] 1 31 text
  | .dayOfYear => numbers [3, 2, 1] 1 366 text
  | .weekdayName => named weekdayNames text
  | .weekdayAbbreviation => named (weekdayNames.map abbreviation) text
  | .hour => numbers [2, 1] 0 23 text
  | .hourOfHalf => numbers [2, 1] 1 12 text
  | .half => named halves text
  | .minute => numbers [2, 1] 0 59 text
  | .second => numbers [2, 1] 0 61 text
  | .microsecond => fractions text

end Field

/-- What may follow a run of blanks at the front of a text, the longest run
first. -/
def afterBlanks (text : List Char) : List (List Char) :=
  let run := (text.takeWhile Text.isBlank).length
  (List.range run).map fun i => text.drop (run - i)

def startsBlank : List Item → Bool
  | .literal c :: _ => Text.isBlank c
  | _ => false

/-- The fields read along a pattern, and the text that is left. -/
def readItems : List Item → List Char → Option (List (Field × Nat) × List Char)
  | [], text => some ([], text)
  | .unknown _ :: _, _ => none
  | .literal c :: pattern, text =>
      if Text.isBlank c then
        if startsBlank pattern then readItems pattern text
        else (afterBlanks text).findSome? fun rest => readItems pattern rest
      else
        match text with
        | [] => none
        | d :: rest => if Field.sameLetter c d then readItems pattern rest else none
  | .field f :: pattern, text =>
      (f.readings text).findSome? fun (n, rest) =>
        (readItems pattern rest).map fun (fields, left) => ((f, n) :: fields, left)

structure Draft where
  year : Nat := 1900
  month : Nat := 1
  day : Nat := 1
  hour : Nat := 0
  minute : Nat := 0
  second : Nat := 0
  microsecond : Nat := 0
  dayOfYear : Option Nat := none

namespace Draft

/-- A later field overrides an earlier one. Years of the century reach from
1969 to 2068, and the weekday says nothing new. -/
def set (afternoon : Bool) (draft : Draft) : Field × Nat → Draft
  | (.year, n) => { draft with year := n }
  | (.yearOfCentury, n) => { draft with year := if n ≤ 68 then 2000 + n else 1900 + n }
  | (.month, n) => { draft with month := n }
  | (.monthName, n) => { draft with month := n + 1 }
  | (.monthAbbreviation, n) => { draft with month := n + 1 }
  | (.day, n) => { draft with day := n }
  | (.dayOfYear, n) => { draft with dayOfYear := some n }
  | (.weekdayName, _) => draft
  | (.weekdayAbbreviation, _) => draft
  | (.hour, n) => { draft with hour := n }
  | (.hourOfHalf, n) => { draft with hour := n % 12 + if afternoon then 12 else 0 }
  | (.half, _) => draft
  | (.minute, n) => { draft with minute := n }
  | (.second, n) => { draft with second := n }
  | (.microsecond, n) => { draft with microsecond := n }

def ofFields (fields : List (Field × Nat)) : Draft :=
  fields.foldl (set (fields.contains (.half, 1))) {}

/-- A place in the year overrides the month and the day. -/
def stamp? (draft : Draft) : Option Timestamp :=
  match draft.dayOfYear with
  | none => finish draft.month draft.day
  | some place =>
      (Calendar.ofDayOfYear? draft.year place).bind fun (month, day) => finish month day
where
  finish (month day : Nat) : Option Timestamp :=
    ofFields? draft.year month day draft.hour draft.minute draft.second draft.microsecond

end Draft

def readLoosely? (pattern text : String) : Option Timestamp :=
  match readItems (items pattern.toList) text.toList with
  | some (fields, []) => (Draft.ofFields fields).stamp?
  | _ => none

/-- The stamp that a pattern displays as the given text. -/
def read? (pattern text : String) : Option Timestamp :=
  (readLoosely? pattern text).filter fun stamp => stamp.display pattern == text

theorem display_of_read? {pattern text : String} {stamp : Timestamp}
    (h : read? pattern text = some stamp) : stamp.display pattern = text := by
  simp only [read?, Option.filter_eq_some_iff, beq_iff_eq] at h
  exact h.2

end Worksheet.Timestamp
