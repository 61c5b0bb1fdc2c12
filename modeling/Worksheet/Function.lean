import Worksheet.Binary.Arithmetic
import Worksheet.Value.Checked

/-!
# Functions

The functions that a call may name: a closed set, each of two operands.
`ADD` and `MOD` first bring two numbers to a common form, integers staying
integers only if both are; `CONCAT` joins the texts that its operands show.
-/

namespace Worksheet

inductive CommonForm where
  | integers (m n : Integer)
  | floats (x : Binary32) (p : Nat) (y : Binary32) (q : Nat)
  deriving DecidableEq

namespace CommonForm

def isFloat : Value → Bool
  | .simple (.float _ _) => true
  | _ => false

/-- An integer becomes a float without decimal places. -/
def toFloat : Value → Except Failure (Binary32 × Nat)
  | .simple (.float x p) => .ok (x, p)
  | .simple (.integer n) => .ok (.ofInt n.toInt, 0)
  | v => .error (Failure.notConvertible v).raised

def ofValues (a b : Value) : Except Failure CommonForm :=
  if isFloat a || isFloat b then do
    let (x, p) ← toFloat a
    let (y, q) ← toFloat b
    return .floats x p y q
  else
    match a, b with
    | .simple (.integer m), .simple (.integer n) => .ok (.integers m n)
    | _, _ => .error (Failure.notArithmetic a b).raised

def left : CommonForm → Simple
  | .integers m _ => .integer m
  | .floats x p _ _ => .float x p

def right : CommonForm → Simple
  | .integers _ n => .integer n
  | .floats _ _ y q => .float y q

/-- A float sum has the wider of the two precisions. -/
def add : CommonForm → Except Failure Simple
  | .integers m n => (Integer.ofInt (m.toInt + n.toInt)).map .integer
  | .floats x p y q => .ok (.float (x.add y) (max p q))

def modulo : CommonForm → Except Failure Simple
  | .integers m n =>
      if n.toInt = 0 then .error .divisionByZero
      else (Integer.ofInt (m.toInt.fmod n.toInt)).map .integer
  | .floats x p y q =>
      if y.isZero then .error .divisionByZero
      else .ok (.float (x.modulo y) (max p q))

end CommonForm

inductive Function where
  | add
  | concat
  | modulo
  deriving DecidableEq, Repr

namespace Function

def all : List Function :=
  [.add, .concat, .modulo]

def name : Function → String
  | .add => "ADD"
  | .concat => "CONCAT"
  | .modulo => "MOD"

def category : Function → String
  | .add => "math"
  | .concat => "text"
  | .modulo => "math"

/-- Names count with the case of their letters. -/
def ofName? (name : String) : Option Function :=
  all.find? fun f => f.name == name

theorem ofName?_eq_some_iff {name : String} {f : Function} :
    ofName? name = some f ↔ f.name = name := by
  constructor
  · intro h
    simpa using List.find?_some h
  · rintro rfl
    cases f <;> decide

/-- The names that a formula may call. -/
def identifiers : List String :=
  ["ADD", "MOD", "CONCAT"]

def isSupported (name : String) : Bool :=
  identifiers.contains name

/-- A formula may call the functions that there are, and nothing else. -/
theorem isSupported_iff_exists_ofName? {name : String} :
    isSupported name ↔ ∃ f, ofName? name = some f := by
  simp only [ofName?_eq_some_iff]
  constructor
  · intro h
    have hname : name = "ADD" ∨ name = "MOD" ∨ name = "CONCAT" := by
      simpa [isSupported, identifiers] using h
    rcases hname with rfl | rfl | rfl
    · exact ⟨.add, rfl⟩
    · exact ⟨.modulo, rfl⟩
    · exact ⟨.concat, rfl⟩
  · rintro ⟨f, rfl⟩
    cases f <;> decide

/-- The function of a call, looked up when its operands are at hand. -/
def named (name : String) : Except Failure Function :=
  match ofName? name with
  | some f => .ok f
  | none => .error (.unknownFunction name)

def combine (f : Function) (a b : Simple) : Except Failure Simple :=
  match f with
  | .add => do (← CommonForm.ofValues (.simple a) (.simple b)).add
  | .concat => do
      let first ← a.display.mapError fun cause => .undisplayable (.precision cause)
      let second ← b.display.mapError fun cause => .undisplayable (.precision cause)
      return .text (first ++ second)
  | .modulo => do (← CommonForm.ofValues (.simple a) (.simple b)).modulo

def apply (f : Function) : List Simple → Except Failure Simple
  | [a, b] => f.combine a b
  | operands => .error (.arity f.name operands.length)

/-- The function on operands that may not have been resolved. Their number
is checked first. -/
def call (f : Function) (operands : List Value) : Except Failure Simple :=
  if operands.length = 2 then
    match operands.find? fun v => !v.isSimple with
    | some v => .error (Failure.unresolvedOperand f.name v).raised
    | none => f.apply (operands.filterMap Value.simple?)
  else .error (.arity f.name operands.length)

def applyNamed (name : String) (operands : List Simple) : Except Failure Simple := do
  (← named name).apply operands

end Function

end Worksheet
