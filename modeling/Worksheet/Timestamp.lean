/-!
# Timestamps

A point of the proleptic Gregorian calendar with microseconds and without a
time zone, in the years 1 to 9999. The invariant of the type is that the
date exists and the time of day is in range.
-/

namespace Worksheet

namespace Calendar

def isLeap (year : Nat) : Bool :=
  year % 4 == 0 && (year % 100 != 0 || year % 400 == 0)

def monthLengths (year : Nat) : List Nat :=
  [31, if isLeap year then 29 else 28, 31, 30, 31, 30, 31, 31, 30, 31, 30, 31]

/-- Months count from one; no other month has any days. -/
def daysInMonth (year : Nat) : Nat → Nat
  | 0 => 0
  | month + 1 => (monthLengths year)[month]?.getD 0

def IsDate (year month day : Nat) : Prop :=
  1 ≤ year ∧ year ≤ 9999 ∧ 1 ≤ day ∧ day ≤ daysInMonth year month

instance (year month day : Nat) : Decidable (IsDate year month day) :=
  inferInstanceAs (Decidable (_ ∧ _))

/-- The place of a date in its year, counted from one. -/
def dayOfYear (year month day : Nat) : Nat :=
  ((monthLengths year).take (month - 1)).foldl (· + ·) day

/-- The month and day at a place in the year, counted from one. -/
def ofDayOfYear? (year place : Nat) : Option (Nat × Nat) :=
  if place = 0 then none else locate 1 place (monthLengths year)
where
  locate (month place : Nat) : List Nat → Option (Nat × Nat)
    | [] => none
    | length :: rest =>
        if place ≤ length then some (month, place) else locate (month + 1) (place - length) rest

/-- The number of days up to a date, the first day of year 1 being one. -/
def ordinal (year month day : Nat) : Nat :=
  let past := year - 1
  365 * past + past / 4 - past / 100 + past / 400 + dayOfYear year month day

/-- The day of the week, Monday being zero. -/
def weekday (year month day : Nat) : Nat :=
  (ordinal year month day + 6) % 7

end Calendar

structure Timestamp where
  year : Nat
  month : Nat
  day : Nat
  hour : Nat
  minute : Nat
  second : Nat
  microsecond : Nat
  isDate : Calendar.IsDate year month day
  isTime : hour < 24 ∧ minute < 60 ∧ second < 60 ∧ microsecond < 1000000
  deriving DecidableEq

namespace Timestamp

def ofFields? (year month day hour minute second microsecond : Nat) : Option Timestamp :=
  if hd : Calendar.IsDate year month day then
    if ht : hour < 24 ∧ minute < 60 ∧ second < 60 ∧ microsecond < 1000000 then
      some ⟨year, month, day, hour, minute, second, microsecond, hd, ht⟩
    else none
  else none

/-- The first moment of the calendar. -/
def first : Timestamp :=
  ⟨1, 1, 1, 0, 0, 0, 0, by decide, by decide⟩

def dayOfYear (stamp : Timestamp) : Nat :=
  Calendar.dayOfYear stamp.year stamp.month stamp.day

def weekday (stamp : Timestamp) : Nat :=
  Calendar.weekday stamp.year stamp.month stamp.day

end Timestamp

end Worksheet
