import Worksheet.Binary
import Worksheet.Numeral

/-!
# Binary numbers in decimal notation

A number is written with a fixed count of decimal places: the exact value,
rounded half to even, with a sign whenever the number has one, zeros
included. A decimal is read to the nearest number of the format.
-/

namespace Worksheet.Binary

variable {f : BinaryFormat}

/-- The number of `10 ^ -places` in a finite magnitude, rounded half to even. -/
def scaled (f : BinaryFormat) (places rank : Nat) : Nat :=
  roundHalfEven (f.magnitude rank * Nat.pow 10 places) f.one

/-- A count of `10 ^ -places` in positional notation; no point if there are
no places. -/
def positional (places count : Nat) : List Char :=
  let digits := Numeral.padded (places + 1) count
  let whole := digits.take (digits.length - places)
  if places = 0 then whole else whole ++ '.' :: digits.drop (digits.length - places)

def signed (negative : Bool) (text : List Char) : List Char :=
  if negative then '-' :: text else text

def display (places : Nat) : Binary f → List Char
  | .nan => ['n', 'a', 'n']
  | .infinite negative => signed negative ['i', 'n', 'f']
  | .finite negative rank => signed negative (positional places (scaled f places rank))

def ofDecimal (negative : Bool) (count places : Nat) : Binary f :=
  ofRatio negative count (Nat.pow 10 places)

end Worksheet.Binary
