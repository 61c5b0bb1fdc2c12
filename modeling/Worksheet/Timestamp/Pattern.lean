import Worksheet.Numeral
import Worksheet.Timestamp

/-!
# Timestamp patterns

A pattern is literal text with fields, each a percent sign and a letter.
It says how a timestamp is displayed: the year without padding, all other
numbers with a fixed count of digits, names in English. A letter that names
no field, and a percent sign at the end, are displayed as they stand. The
display of a pattern ends at its first null character.

There are the fields for parts of a date and a time of day. Those for zones,
for weeks and weekdays as numbers and for whole dates and times in the way of
a locale (`z`, `Z`, `U`, `W`, `V`, `G`, `u`, `w`, `c`, `x`, `X`) are left out
and count as unknown. So is the day with a blank in front of its digit, which
may be read but is not how a day is displayed.
-/

namespace Worksheet.Timestamp

inductive Field where
  | year
  | yearOfCentury
  | month
  | monthName
  | monthAbbreviation
  | day
  | dayOfYear
  | weekdayName
  | weekdayAbbreviation
  | hour
  | hourOfHalf
  | half
  | minute
  | second
  | microsecond
  deriving DecidableEq, Repr

namespace Field

def ofLetter? : Char → Option Field
  | 'Y' => some .year
  | 'y' => some .yearOfCentury
  | 'm' => some .month
  | 'B' => some .monthName
  | 'b' => some .monthAbbreviation
  | 'd' => some .day
  | 'j' => some .dayOfYear
  | 'A' => some .weekdayName
  | 'a' => some .weekdayAbbreviation
  | 'H' => some .hour
  | 'I' => some .hourOfHalf
  | 'p' => some .half
  | 'M' => some .minute
  | 'S' => some .second
  | 'f' => some .microsecond
  | _ => none

def monthNames : List String :=
  ["January", "February", "March", "April", "May", "June", "July", "August", "September",
    "October", "November", "December"]

def weekdayNames : List String :=
  ["Monday", "Tuesday", "Wednesday", "Thursday", "Friday", "Saturday", "Sunday"]

def halves : List String :=
  ["AM", "PM"]

def abbreviation (name : String) : String :=
  String.ofList (name.toList.take 3)

def nameAt (names : List String) (index : Nat) : List Char :=
  (names[index]?.getD "").toList

/-- The hour on a twelve-hour dial. -/
def dialHour (hour : Nat) : Nat :=
  if hour % 12 = 0 then 12 else hour % 12

def display (stamp : Timestamp) : Field → List Char
  | .year => Numeral.digits stamp.year
  | .yearOfCentury => Numeral.padded 2 (stamp.year % 100)
  | .month => Numeral.padded 2 stamp.month
  | .monthName => nameAt monthNames (stamp.month - 1)
  | .monthAbbreviation => nameAt (monthNames.map abbreviation) (stamp.month - 1)
  | .day => Numeral.padded 2 stamp.day
  | .dayOfYear => Numeral.padded 3 stamp.dayOfYear
  | .weekdayName => nameAt weekdayNames stamp.weekday
  | .weekdayAbbreviation => nameAt (weekdayNames.map abbreviation) stamp.weekday
  | .hour => Numeral.padded 2 stamp.hour
  | .hourOfHalf => Numeral.padded 2 (dialHour stamp.hour)
  | .half => nameAt halves (stamp.hour / 12)
  | .minute => Numeral.padded 2 stamp.minute
  | .second => Numeral.padded 2 stamp.second
  | .microsecond => Numeral.padded 6 stamp.microsecond

end Field

inductive Item where
  | literal (c : Char)
  | field (f : Field)
  /-- A percent sign with a letter that names no field, or with none. -/
  | unknown (letter : Option Char)
  deriving DecidableEq, Repr

namespace Item

def display (stamp : Timestamp) : Item → List Char
  | .literal c => [c]
  | .field f => f.display stamp
  | .unknown letter => '%' :: letter.toList

end Item

/-- The items of a pattern. A doubled percent sign is a literal one. -/
def items : List Char → List Item
  | [] => []
  | ['%'] => [.unknown none]
  | '%' :: '%' :: rest => .literal '%' :: items rest
  | '%' :: c :: rest =>
      match Field.ofLetter? c with
      | some f => .field f :: items rest
      | none => .unknown (some c) :: items rest
  | c :: rest => .literal c :: items rest

def displayItems (stamp : Timestamp) (pattern : List Item) : List Char :=
  pattern.flatMap fun item => item.display stamp

@[simp] theorem displayItems_nil (stamp : Timestamp) : displayItems stamp [] = [] := rfl

@[simp] theorem displayItems_cons (stamp : Timestamp) (item : Item) (rest : List Item) :
    displayItems stamp (item :: rest) = item.display stamp ++ displayItems stamp rest := by
  simp [displayItems]

/-- The part of a pattern that is displayed. -/
def beforeNull (pattern : List Char) : List Char :=
  pattern.takeWhile (· ≠ '\x00')

def display (stamp : Timestamp) (pattern : String) : String :=
  String.ofList (displayItems stamp (items (beforeNull pattern.toList)))

end Worksheet.Timestamp
