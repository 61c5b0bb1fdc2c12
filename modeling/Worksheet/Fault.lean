import Worksheet.Fault.Reading
import Worksheet.Value.Representation

/-!
# Faults

Every way in which an operation on a worksheet can fail, with what the
report of it needs. A failure is met while values are resolved or applied,
and may carry the cell at which it came to light. All other faults are
about the form of an input. To raise one or the other is to put its message
together; where this cannot be done, that is what fails instead.
-/

namespace Worksheet

/-- The kinds of values; `any` stands for all of them. -/
inductive Kind where
  | null
  | integer
  | float
  | text
  | dateTime
  | call
  | reference
  | any
  deriving DecidableEq, Repr

namespace Kind

def name : Kind → String
  | .null => "Null"
  | .integer => "Integer"
  | .float => "Float"
  | .text => "Text"
  | .dateTime => "DateTime"
  | .call => "FormulaCall"
  | .reference => "CellReference"
  | .any => "Value"

end Kind

inductive Failure where
  | arity (function : String) (operands : Nat)
  | unresolvedOperand (function : String) (operand : Value)
  | notConvertible (operand : Value)
  | notArithmetic (first second : Value)
  | outOfBounds (cell : Cell) (rows columns : Nat)
  | disorderedRange (topLeft bottomRight : Cell)
  | cycle (chain : List Cell)
  | unknownFunction (name : String)
  | divisionByZero
  | overflow (result : Int)
  | undisplayable (cause : DisplayFault)

namespace Failure

open DisplayFault

/-- The text of a failure; one that cannot be displayed has that of its cause. -/
def message : Failure → Except DisplayFault (Option String)
  | .arity function n =>
      .ok (some (function ++ " requires exactly 2 arguments, got " ++ toString n))
  | .unresolvedOperand function operand => do
      let shown ← ofNumeral operand.representation
      return some (function ++ ": unresolved operand " ++ shown)
  | .notConvertible operand => do
      let shown ← ofNumeral operand.representation
      return some ("Cannot convert " ++ shown ++ " to Float")
  | .notArithmetic first second => do
      let shown ← ofNumeral first.representation
      let shown' ← ofNumeral second.representation
      return some ("Not valid datatypes for arithmetic: " ++ shown ++ ", " ++ shown')
  | .outOfBounds cell rows columns => do
      let row ← ofNumeral (Numeral.write cell.row)
      let column ← ofNumeral (Numeral.write cell.column)
      return some ("Coordinate (" ++ row ++ ", " ++ column ++ ") is outside a " ++
        toString rows ++ "x" ++ toString columns ++ " grid")
  | .disorderedRange topLeft bottomRight => do
      let first ← ofLabel topLeft.label
      let last ← ofLabel bottomRight.label
      return some ("Range " ++ first ++ ":" ++ last ++ " is not ordered top-left to bottom-right")
  | .cycle chain => do
      let labels ← ofLabel (chain.mapM Cell.label)
      return some ("Circular reference detected: " ++ " -> ".intercalate labels)
  | .unknownFunction name => .ok (some ("Unknown function: " ++ Text.quote name))
  | .divisionByZero => .ok (some "MOD: division by zero")
  | .overflow n => do
      let result ← ofNumeral (Numeral.write n)
      return some ("Integer " ++ result ++ " overflows 32 bits")
  | .undisplayable cause => .ok cause.message

/-- A failure with a message, or that the message cannot be put together. -/
def raised (failure : Failure) : Failure :=
  match failure.message with
  | .ok _ => failure
  | .error cause => .undisplayable cause

/-- Whatever is raised has its message. -/
theorem exists_message_raised (failure : Failure) : ∃ text, failure.raised.message = .ok text := by
  unfold raised
  split
  next text h => exact ⟨text, h⟩
  next cause h => exact ⟨cause.message, rfl⟩

theorem raised_of_message {failure : Failure} {text : Option String}
    (h : failure.message = .ok text) : failure.raised = failure := by
  rw [raised, h]

@[simp] theorem raised_raised (failure : Failure) : failure.raised.raised = failure.raised := by
  obtain ⟨text, h⟩ := exists_message_raised failure
  exact raised_of_message h

theorem raised_outOfBounds {cell : Cell} {rows columns : Nat} (hrow : Numeral.IsWritable cell.row)
    (hcolumn : Numeral.IsWritable cell.column) :
    (outOfBounds cell rows columns).raised = .outOfBounds cell rows columns := by
  obtain ⟨row, hrow⟩ := Numeral.isWritable_iff_exists_write.mp hrow
  obtain ⟨column, hcolumn⟩ := Numeral.isWritable_iff_exists_write.mp hcolumn
  exact raised_of_message (by rw [message, hrow, hcolumn]; rfl)

theorem raised_outOfBounds_cases (cell : Cell) (rows columns : Nat) :
    (outOfBounds cell rows columns).raised = .outOfBounds cell rows columns ∨
      ∃ cause, (outOfBounds cell rows columns).raised = .undisplayable (.numeral cause) := by
  by_cases hrow : Numeral.IsWritable cell.row
  · by_cases hcolumn : Numeral.IsWritable cell.column
    · exact .inl (raised_outOfBounds hrow hcolumn)
    · obtain ⟨row, hrow⟩ := Numeral.isWritable_iff_exists_write.mp hrow
      exact .inr ⟨_, by
        rw [raised, message, hrow, Numeral.write_eq_error hcolumn]
        rfl⟩
  · exact .inr ⟨_, by
      rw [raised, message, Numeral.write_eq_error hrow]
      rfl⟩

theorem raised_overflow {n : Int} (h : Numeral.IsWritable n) :
    (overflow n).raised = .overflow n := by
  obtain ⟨result, h⟩ := Numeral.isWritable_iff_exists_write.mp h
  exact raised_of_message (by rw [message, h]; rfl)

/-- What cannot be displayed belongs to no cell; every other failure can be
located. -/
def isLocatable : Failure → Bool
  | .undisplayable _ => false
  | _ => true

end Failure

inductive Fault where
  | label (cause : LabelFault)
  | reading (cause : ReadingFault)
  | ragged (row width expected : Nat)
  | negativeShape (rows columns : Int)
  | extentTooLarge
  | gridTooLarge
  | negativePrecision (precision : Int)
  | noDefault (kind : Kind)
  | outsideRegion (row column rows columns : Int)
  | outsideList
  | outsideWord
  | notLoaded
  | failure (cause : Failure) (origin : Option Cell)

namespace Fault

open DisplayFault

/-- A failure that came to light at no cell in particular. -/
def unlocated (cause : Failure) : Fault :=
  .failure cause none

/-- A failure that came to light at the given cell. -/
def locatedAt (cell : Cell) (cause : Failure) : Fault :=
  .failure cause (if cause.isLocatable then some cell else none)

/-- The text of a fault, if it has one. Where a part of it cannot be
displayed, that is the fault to be reported. -/
def message : Fault → Except DisplayFault (Option String)
  | .label cause => .ok cause.message
  | .reading cause => .ok cause.message
  | .ragged row width expected =>
      .ok (some ("Row " ++ toString row ++ " has " ++ toString width ++ " cells, expected " ++
        toString expected ++ " (input must be rectangular)"))
  | .negativeShape rows columns => do
      let shownRows ← ofNumeral (Numeral.write rows)
      let shownColumns ← ofNumeral (Numeral.write columns)
      return some ("Grid dimensions must be non-negative, got " ++ shownRows ++ "x" ++
        shownColumns)
  | .extentTooLarge => .ok (some "Maximum allowed dimension exceeded")
  | .gridTooLarge =>
      .ok (some ("array is too big; `arr.size * arr.dtype.itemsize` is larger than the " ++
        "maximum possible size."))
  | .negativePrecision p => do
      let places ← ofNumeral (Numeral.write p)
      return some ("precision must be non-negative, got " ++ places)
  | .noDefault kind => .ok (some ("No default value for " ++ kind.name))
  | .outsideRegion row column rows columns => do
      let shownRow ← ofNumeral (Numeral.write row)
      let shownColumn ← ofNumeral (Numeral.write column)
      let shownRows ← ofNumeral (Numeral.write rows)
      let shownColumns ← ofNumeral (Numeral.write columns)
      return some ("(" ++ shownRow ++ ", " ++ shownColumn ++ ") is outside a " ++ shownRows ++
        "x" ++ shownColumns ++ " region")
  | .outsideList => .ok (some "list index out of range")
  | .outsideWord => .ok (some "cannot fit 'int' into an index-sized integer")
  | .notLoaded => .ok (some "Call load() before evaluating")
  | .failure cause none => cause.message
  | .failure cause (some cell) => do
      let text ← cause.message
      let origin ← ofLabel cell.label
      return text.map (· ++ " (at " ++ origin ++ ")")

/-- A fault with a message, or that the message cannot be put together. -/
def raised (fault : Fault) : Fault :=
  match fault.message with
  | .ok _ => fault
  | .error cause => .unlocated (.undisplayable cause)

end Fault

end Worksheet
