import Worksheet.Binary.Decimal

/-!
# Shortest decimals

Inside a message a number is written with the fewest digits that tell it
from all other numbers of its format, the nearest of those that do. It has a
point and at least one place after it, unless it is very large or very
small; then it is written with an exponent.
-/

namespace Worksheet.Binary

variable {f : BinaryFormat}

/-- A count of powers of ten. -/
structure Decimal where
  count : Nat
  exponent : Int
  deriving DecidableEq, Repr

namespace Decimal

/-- The quotient that is a decimal, as a numerator and a denominator. -/
def ratio (d : Decimal) : Nat × Nat :=
  (d.count * Nat.pow 10 d.exponent.toNat, Nat.pow 10 (-d.exponent).toNat)

/-- The digits without the zeros at their end. -/
def significant (d : Decimal) : List Char :=
  ((Numeral.digits d.count).reverse.dropWhile (· == '0')).reverse

/-- The exponent of the first digit. -/
def leading (d : Decimal) : Int :=
  d.exponent + (Numeral.digits d.count).length - 1

end Decimal

/-- The exponent of the first digit of a quotient that is not zero. -/
def leadingExponent (num den : Nat) : Int :=
  if den ≤ num then (Numeral.digits (num / den)).length - 1
  else -((Numeral.digits ((den - 1) / num)).length : Int)

/-- The decimals of some number of digits next to a quotient: the nearest
one, the one below and the one above. -/
def neighbours (num den digits : Nat) : List Decimal :=
  let exponent := leadingExponent num den - (digits - 1 : Nat)
  let up := num * Nat.pow 10 (-exponent).toNat
  let down := den * Nat.pow 10 exponent.toNat
  [⟨roundHalfEven up down, exponent⟩, ⟨up / down, exponent⟩, ⟨up / down + 1, exponent⟩]

/-- The shortest decimal that is read as the number of the given rank. No
format in use needs more than seventeen digits. -/
def shortest (f : BinaryFormat) (rank : Nat) : Decimal :=
  let reads (d : Decimal) : Bool :=
    (ofRatio false d.ratio.1 d.ratio.2 : Binary f) == ofRank false rank
  let found := [1, 2, 3, 4, 5, 6, 7, 8, 9, 10, 11, 12, 13, 14, 15, 16, 17].findSome? fun digits =>
    (neighbours (f.magnitude rank) f.one digits).find? reads
  found.getD ⟨0, 0⟩

/-- Digits with a point after the one of the given exponent. -/
def pointed (digits : List Char) (leading : Int) : List Char :=
  if leading < 0 then '0' :: '.' :: List.replicate (-leading - 1).toNat '0' ++ digits
  else
    let width := leading.toNat + 1
    let whole := digits.take width ++ List.replicate (width - digits.length) '0'
    let places := digits.drop width
    whole ++ '.' :: if places.isEmpty then ['0'] else places

/-- Digits with an exponent of at least two digits. -/
def scientific (digits : List Char) (leading : Int) : List Char :=
  let sign := if leading < 0 then '-' else '+'
  let places := digits.drop 1
  let mantissa := if places.isEmpty then digits else digits.take 1 ++ '.' :: places
  mantissa ++ 'e' :: sign :: Numeral.padded 2 leading.natAbs

/-- The shortest notation of a number. It has an exponent from `10 ^ 16` on,
and below `10 ^ -4`. -/
def shortestText : Binary f → List Char
  | .nan => ['n', 'a', 'n']
  | .infinite negative => signed negative ['i', 'n', 'f']
  | .finite negative rank =>
      let decimal := shortest f rank
      let text :=
        if (rank : Nat) = 0 then ['0', '.', '0']
        else if f.magnitude rank < 10000000000000000 * f.one ∧ f.one ≤ 10000 * f.magnitude rank then
          pointed decimal.significant decimal.leading
        else scientific decimal.significant decimal.leading
      signed negative text

end Worksheet.Binary
