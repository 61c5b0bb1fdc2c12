import Worksheet.Cell
import Worksheet.Numeral
import Worksheet.Text.Quoted

/-!
# Cell labels

A label names a cell by the letters of its column and the number of its
row, as in `B3`, and may stand in brackets. Columns count in bijective base
26: `A` to `Z`, then `AA`, with no letter for zero. Reading ignores the case
of letters and leading zeros of the row; writing produces one form only.
-/

namespace Worksheet

inductive LabelFault where
  | malformedColumn (text : String)
  | malformed (text : String)
  | rowTooLong (cause : Numeral.TooLong)
  | negativeColumn (index : Int)
  | negativeRow (index : Int)
  deriving DecidableEq, Repr

namespace LabelFault

/-- A number of too many digits is reported without a text. -/
def message : LabelFault → Option String
  | .malformedColumn text => some ("Invalid column letters: " ++ Text.quote text)
  | .malformed text => some ("Invalid cell label: " ++ Text.quote text)
  | .rowTooLong _ => none
  | .negativeColumn n =>
      (Numeral.write n).toOption.map ("Column index must be non-negative, got " ++ ·)
  | .negativeRow n =>
      (Numeral.write n).toOption.map ("Row must be non-negative, got " ++ ·)

end LabelFault

namespace Column

/-- `A` counts one and `Z` twenty-six, in either case. -/
def letterValue (c : Char) : Nat :=
  c.toUpper.toNat - 'A'.toNat + 1

/-- The letters read as a bijective base 26 numeral. -/
def ordinal (letters : List Char) : Nat :=
  letters.foldl (fun n c => 26 * n + letterValue c) 0

def isLetters (cs : List Char) : Bool :=
  !cs.isEmpty && cs.all Char.isAlpha

def index (letters : List Char) : Nat :=
  ordinal letters - 1

def read (text : String) : Except LabelFault Nat :=
  if isLetters text.toList then .ok (index text.toList) else .error (.malformedColumn text)

/-- The bijective base 26 numeral of a number; zero has the empty one. -/
def numeral : Nat → List Char
  | 0 => []
  | n + 1 => numeral (n / 26) ++ [Char.ofNat ('A'.toNat + n % 26)]
termination_by n => n
decreasing_by omega

@[simp] theorem numeral_zero : numeral 0 = [] := by
  simp [numeral]

theorem numeral_succ (n : Nat) :
    numeral (n + 1) = numeral (n / 26) ++ [Char.ofNat ('A'.toNat + n % 26)] := by
  rw [numeral]

def letters (index : Nat) : List Char :=
  numeral (index + 1)

def write (index : Int) : Except LabelFault String :=
  match index with
  | .ofNat n => .ok (String.ofList (letters n))
  | .negSucc _ => .error (.negativeColumn index)

end Column

namespace Label

/-- What stands between the brackets of a text, or the whole text if it
has none; nothing if only one bracket is there. -/
def unbracket? : List Char → Option (List Char)
  | '[' :: cs =>
      match cs.reverse with
      | ']' :: inner => some inner.reverse
      | _ => none
  | cs => if cs.getLast? = some ']' then none else some cs

def split? (cs : List Char) : Option (List Char × List Char) :=
  let letters := cs.takeWhile Char.isAlpha
  let digits := cs.dropWhile Char.isAlpha
  if Column.isLetters letters && Numeral.isNumeral digits then some (letters, digits) else none

def read (text : String) : Except LabelFault Cell :=
  match (unbracket? text.toList).bind split? with
  | none => .error (.malformed text)
  | some (letters, digits) =>
      match Numeral.read digits with
      | .error cause => .error (.rowTooLong cause)
      | .ok row => .ok ⟨row, Column.index letters⟩

end Label

namespace Cell

/-- The label of a cell. The sign of the row is looked at before the column,
its length after it. -/
def label (cell : Cell) : Except LabelFault String :=
  if cell.row < 0 then .error (.negativeRow cell.row)
  else do
    let letters ← Column.write cell.column
    let row ← (Numeral.write cell.row).mapError .rowTooLong
    return letters ++ row

def bracketedLabel (cell : Cell) : Except LabelFault String :=
  cell.label.map fun text => "[" ++ text ++ "]"

def IsLabelled (cell : Cell) : Prop :=
  0 ≤ cell.row ∧ 0 ≤ cell.column ∧ Numeral.IsWritable cell.row

instance (cell : Cell) : Decidable cell.IsLabelled :=
  inferInstanceAs (Decidable (_ ∧ _))

theorem isLabelled_iff_exists_label {cell : Cell} :
    cell.IsLabelled ↔ ∃ text, cell.label = .ok text := by
  obtain ⟨row, column⟩ := cell
  unfold IsLabelled label
  by_cases hr : row < 0
  · simp only [hr, if_true]
    constructor
    · intro h
      omega
    · simp
  · cases column with
    | negSucc n =>
        constructor
        · intro h
          exact absurd h.2.1 (Int.not_le.mpr (Int.negSucc_lt_zero n))
        · simp [hr, Column.write, bind, Except.bind]
    | ofNat n =>
        rw [Numeral.isWritable_iff_exists_write]
        have hlong : ∀ cause, (Except.error cause : Except Numeral.TooLong String).mapError
            LabelFault.rowTooLong = .error (.rowTooLong cause) := fun _ => rfl
        have hwritten : ∀ text, (Except.ok text : Except Numeral.TooLong String).mapError
            LabelFault.rowTooLong = .ok text := fun _ => rfl
        cases h : Numeral.write row <;>
          simp [hr, Column.write, bind, Except.bind, hlong, hwritten, pure, Except.pure,
            Int.not_lt.mp hr]

end Cell

end Worksheet
