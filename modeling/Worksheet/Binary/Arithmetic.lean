import Worksheet.Binary

/-!
# Arithmetic on binary numbers

Sums and remainders are computed exactly in units and rounded once. The
floored modulo takes its sign from the divisor, also when it is zero.
-/

namespace Worksheet.Binary

variable {f : BinaryFormat}

def negate : Binary f → Binary f
  | .nan => .nan
  | .infinite negative => .infinite !negative
  | .finite negative rank => .finite (!negative) rank

def abs : Binary f → Binary f
  | .nan => .nan
  | .infinite _ => .infinite false
  | .finite _ rank => .finite false rank

def isNegative : Binary f → Bool
  | .nan => false
  | .infinite negative => negative
  | .finite negative _ => negative

/-- A sum of zero is negative only if both terms are. -/
def add : Binary f → Binary f → Binary f
  | .nan, _ => .nan
  | _, .nan => .nan
  | .infinite s, .infinite t => if s = t then .infinite s else .nan
  | .infinite s, .finite _ _ => .infinite s
  | .finite _ _, .infinite t => .infinite t
  | .finite s a, .finite t b =>
      let sum := f.signedUnits s a + f.signedUnits t b
      if sum = 0 then zero (s && t) else ofUnits (decide (sum < 0)) sum.natAbs 1

def sub (x y : Binary f) : Binary f :=
  x.add y.negate

/-- The truncated remainder, exact, with the sign of the dividend. -/
def remainder : Binary f → Binary f → Binary f
  | .nan, _ => .nan
  | _, .nan => .nan
  | .infinite _, _ => .nan
  | .finite s a, .infinite _ => .finite s a
  | .finite s a, .finite _ b =>
      let divisor := f.magnitude b
      if divisor = 0 then .nan else ofUnits s (f.magnitude a % divisor) 1

/-- The floored remainder, with the sign of the divisor. -/
def modulo (x y : Binary f) : Binary f :=
  let r := x.remainder y
  if r.isZero then zero y.isNegative
  else if r.isNegative = y.isNegative then r
  else r.add y

end Worksheet.Binary
