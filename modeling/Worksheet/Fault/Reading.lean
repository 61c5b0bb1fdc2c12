import Worksheet.Timestamp.Expression

/-!
# What cannot be read

Reading a text can fail: a whole number or a decimal may have too many digits, and the
pattern for timestamps may be one that nothing can be read along.
-/

namespace Worksheet

inductive ReadingFault where
  | numeral (cause : Numeral.TooLong)
  | decimal (text : String)
  | pattern (cause : Timestamp.Repetition)
  deriving DecidableEq, Repr

/-- The text of the fault; a whole number of too many digits is reported without one. -/
def ReadingFault.message : ReadingFault → Option String
  | .numeral _ => none
  | .decimal text => some ("could not convert string to float: " ++ Text.quote text)
  | .pattern cause => some cause.message

end Worksheet
