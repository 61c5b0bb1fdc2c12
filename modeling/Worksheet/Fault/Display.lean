import Worksheet.Cell.Label

/-!
# What cannot be displayed

Displaying a value or a message can fail: a cell may have no label, a number
may have too many digits, and a float may ask for more decimal places than a
word of 32 bits can count.
-/

namespace Worksheet

/-- A float asks for too many decimal places. -/
structure PrecisionFault where
  places : Nat
  deriving DecidableEq, Repr

namespace PrecisionFault

/-- The number of decimal places below which a float can be displayed. -/
def limit : Nat := 2147483648

/-- A count that does not fit a word of 64 bits is not even understood. -/
def message (fault : PrecisionFault) : String :=
  if fault.places < 9223372036854775808 then "precision too big"
  else "Too many decimal digits in format string"

end PrecisionFault

inductive DisplayFault where
  | label (cause : LabelFault)
  | numeral (cause : Numeral.TooLong)
  | precision (cause : PrecisionFault)
  deriving DecidableEq, Repr

namespace DisplayFault

def message : DisplayFault → Option String
  | .label cause => cause.message
  | .numeral _ => none
  | .precision cause => some cause.message

def ofLabel {α : Type} (text : Except LabelFault α) : Except DisplayFault α :=
  text.mapError .label

def ofNumeral {α : Type} (text : Except Numeral.TooLong α) : Except DisplayFault α :=
  text.mapError .numeral

end DisplayFault

end Worksheet
