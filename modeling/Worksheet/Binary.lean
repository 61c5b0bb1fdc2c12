/-!
# Binary floating-point numbers

A format fixes how many fraction bits and how many exponent bits a number
has. Every finite number is a whole multiple of one unit, the least positive
number of its format, and the magnitudes in ascending order are numbered by
their rank: the bit pattern without its sign. The rank after the last finite
one is infinity. Rounding is to the nearest magnitude, a tie to even rank.
-/

namespace Worksheet

/-- The nearest whole number to a quotient; of two equally near, the even one. -/
def roundHalfEven (num den : Nat) : Nat :=
  let q := num / den
  let r := num % den
  if 2 * r < den then q
  else if den < 2 * r then q + 1
  else q + q % 2

@[simp] theorem roundHalfEven_one (n : Nat) : roundHalfEven n 1 = n := by
  simp [roundHalfEven, Nat.mod_one]

structure BinaryFormat where
  fractionBits : Nat
  exponentBits : Nat
  deriving DecidableEq

namespace BinaryFormat

def single : BinaryFormat := ⟨23, 8⟩

def double : BinaryFormat := ⟨52, 11⟩

variable (f : BinaryFormat)

def binade : Nat := 1 <<< f.fractionBits

def finiteCount : Nat := (1 <<< f.exponentBits - 1) * f.binade

/-- The number of units in one. -/
def one : Nat := 1 <<< (1 <<< (f.exponentBits - 1) - 2 + f.fractionBits)

/-- The units in the magnitude of the given rank. Below the first binade
they are the rank itself; above it every binade doubles the spacing. -/
def magnitude (rank : Nat) : Nat :=
  if rank < f.binade then rank
  else (f.binade + rank % f.binade) <<< (rank / f.binade - 1)

def signedUnits (negative : Bool) (rank : Nat) : Int :=
  if negative then -(f.magnitude rank : Int) else f.magnitude rank

/-- The rank of the magnitude nearest to `num / den` units. -/
def nearestRank (num den : Nat) : Nat :=
  let scale := (num / den).log2 - f.fractionBits
  scale * f.binade + roundHalfEven num (den <<< scale)

theorem binade_pos : 0 < f.binade := by
  rw [binade, Nat.one_shiftLeft]
  exact Nat.two_pow_pos _

theorem one_pos : 0 < f.one := by
  rw [one, Nat.one_shiftLeft]
  exact Nat.two_pow_pos _

@[simp] theorem magnitude_zero : f.magnitude 0 = 0 := by
  simp [magnitude, f.binade_pos]

end BinaryFormat

/-- A number of a binary format. All undefined results are one value. -/
inductive Binary (f : BinaryFormat) where
  | nan
  | infinite (negative : Bool)
  | finite (negative : Bool) (rank : Fin f.finiteCount)
  deriving DecidableEq

abbrev Binary32 := Binary .single

abbrev Binary64 := Binary .double

namespace Binary

variable {f g : BinaryFormat}

/-- The number with the given sign and rank; infinity past the last finite one. -/
def ofRank (negative : Bool) (rank : Nat) : Binary f :=
  if h : rank < f.finiteCount then .finite negative ⟨rank, h⟩ else .infinite negative

def zero (negative : Bool) : Binary f :=
  ofRank negative 0

/-- The number nearest to a magnitude of `num / den` units. -/
def ofUnits (negative : Bool) (num den : Nat) : Binary f :=
  ofRank negative (f.nearestRank num den)

def ofRatio (negative : Bool) (num den : Nat) : Binary f :=
  ofUnits negative (num * f.one) den

def ofInt (n : Int) : Binary f :=
  ofRatio (decide (n < 0)) n.natAbs 1

def convert : Binary f → Binary g
  | .nan => .nan
  | .infinite negative => .infinite negative
  | .finite negative rank => ofRatio negative (f.magnitude rank) f.one

/-- The number that a bit pattern stands for. -/
def ofBits (bits : Nat) : Binary f :=
  let width := 1 <<< (f.exponentBits + f.fractionBits)
  let negative := bits / width % 2 == 1
  let rank := bits % width
  if rank ≤ f.finiteCount then ofRank negative rank else .nan

def toBits? : Binary f → Option Nat
  | .nan => none
  | .infinite negative => some (pattern negative f.finiteCount)
  | .finite negative rank => some (pattern negative rank)
where
  pattern (negative : Bool) (rank : Nat) : Nat :=
    (if negative then 1 <<< (f.exponentBits + f.fractionBits) else 0) + rank

/-- The place of a number on the line of all numbers. The two zeros share a
place and an undefined number has none. -/
def place? : Binary f → Option Int
  | .nan => none
  | .infinite negative => some (if negative then -(f.finiteCount : Int) else f.finiteCount)
  | .finite negative rank => some (if negative then -(rank : Int) else rank)

def isZero (x : Binary f) : Bool :=
  x.place? == some 0

/-- Numeric equality: zeros are equal and nothing equals an undefined number. -/
def equals (x y : Binary f) : Bool :=
  match x.place?, y.place? with
  | some a, some b => a == b
  | _, _ => false

/-- Numeric order; false if either number is undefined. -/
def exceeds (x y : Binary f) : Bool :=
  match x.place?, y.place? with
  | some a, some b => b < a
  | _, _ => false

end Binary

end Worksheet
