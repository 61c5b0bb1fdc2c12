import Worksheet.Word

/-!
# Decimal numerals

Runs of ASCII digits and the natural numbers that they denote. A numeral of
whole numbers has at most 4300 digits, leading zeros included; a longer one
is neither read nor written.
-/

namespace Worksheet.Numeral

def limit : Nat := 4300

structure TooLong where
  digits : Nat
  deriving DecidableEq, Repr

def digitValue (c : Char) : Nat :=
  c.toNat - '0'.toNat

def value (digits : List Char) : Nat :=
  digits.foldl (fun n c => 10 * n + digitValue c) 0

def isNumeral (cs : List Char) : Bool :=
  !cs.isEmpty && cs.all Char.isDigit

def read (digits : List Char) : Except TooLong Nat :=
  if digits.length ≤ limit then .ok (value digits) else .error ⟨digits.length⟩

theorem read_eq_ok_iff {digits : List Char} {n : Nat} :
    read digits = .ok n ↔ digits.length ≤ limit ∧ value digits = n := by
  unfold read
  split
  · simp [*]
  · simp only [reduceCtorEq, false_iff]
    omega

/-- An optional sign, `true` for a minus, and what follows it. -/
def splitSign : List Char → Bool × List Char
  | '+' :: cs => (false, cs)
  | '-' :: cs => (true, cs)
  | cs => (false, cs)

def digits (n : Nat) : List Char :=
  Nat.toDigits 10 n

def write (n : Int) : Except TooLong String :=
  let numeral := digits n.natAbs
  if numeral.length ≤ limit then
    .ok (String.ofList (if n < 0 then '-' :: numeral else numeral))
  else .error ⟨numeral.length⟩

/-- Whether a number has a numeral. -/
def IsWritable (n : Int) : Prop :=
  (digits n.natAbs).length ≤ limit

instance (n : Int) : Decidable (IsWritable n) :=
  inferInstanceAs (Decidable (_ ≤ _))

theorem isWritable_iff_exists_write {n : Int} : IsWritable n ↔ ∃ text, write n = .ok text := by
  unfold IsWritable write
  by_cases h : (digits n.natAbs).length ≤ limit <;> simp [h]

theorem write_eq_error {n : Int} (h : ¬ IsWritable n) :
    write n = .error ⟨(digits n.natAbs).length⟩ :=
  if_neg h

theorem isWritable_of_fitsWord {n : Int} (h : FitsWord n) : IsWritable n := by
  obtain ⟨hlow, hhigh⟩ := h
  have hlength : (digits n.natAbs).length ≤ 19 :=
    (Nat.length_toDigits_le_iff (by decide) (by decide)).mpr (by omega)
  exact Nat.le_trans hlength (by decide)

/-- The digits of a number, with zeros in front up to the given width. -/
def padded (width n : Nat) : List Char :=
  List.replicate (width - (digits n).length) '0' ++ digits n

theorem length_padded (width n : Nat) :
    (padded width n).length = max width (digits n).length := by
  simp [padded]
  omega

end Worksheet.Numeral
