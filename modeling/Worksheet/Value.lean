import Worksheet.Binary.Decimal
import Worksheet.Fault.Display
import Worksheet.Timestamp.Pattern

/-!
# Values

A cell holds a simple value, a call of a function on operands, or a
reference to a cell. Simple values are what the others are resolved to. A
float carries the number of decimal places at which it is shown, and a
timestamp the pattern by which it is displayed.
-/

namespace Worksheet

structure Integer where
  toInt : Int
  inRange : -2147483648 ≤ toInt ∧ toInt < 2147483648
  deriving DecidableEq

namespace Integer

def ofInt? (n : Int) : Option Integer :=
  if h : -2147483648 ≤ n ∧ n < 2147483648 then some ⟨n, h⟩ else none

theorem ofInt?_eq_some_iff {n : Int} {i : Integer} : ofInt? n = some i ↔ i.toInt = n := by
  unfold ofInt?
  split
  next h =>
      constructor
      · rintro ⟨⟩
        rfl
      · rintro rfl
        rfl
  next h =>
      constructor
      · rintro ⟨⟩
      · rintro rfl
        exact absurd i.inRange h

end Integer

inductive Simple where
  | null
  | integer (n : Integer)
  | float (x : Binary32) (precision : Nat)
  | text (content : String)
  | dateTime (stamp : Timestamp) (pattern : String)
  deriving DecidableEq

namespace Simple

def display : Simple → Except PrecisionFault String
  | .null => .ok ""
  | .integer n => .ok (toString n.toInt)
  | .float x precision =>
      if precision < PrecisionFault.limit then .ok (String.ofList (x.display precision))
      else .error ⟨precision⟩
  | .text content => .ok content
  | .dateTime stamp pattern => .ok (stamp.display pattern)

/-- The pattern of timestamps that bring none of their own. -/
def defaultPattern : String := "%Y%m%d"

/-- The values are of one kind and their contents are equal, floats as numbers. -/
def equals : Simple → Simple → Bool
  | .null, .null => true
  | .integer m, .integer n => m == n
  | .float x p, .float y q => x.equals y && p == q
  | .text s, .text t => s == t
  | .dateTime s p, .dateTime t q => s == t && p == q
  | _, _ => false

end Simple

inductive Value where
  | simple (value : Simple)
  | call (function : String) (operands : List Value)
  | reference (cell : Cell)

namespace Value

def isSimple : Value → Bool
  | .simple _ => true
  | _ => false

def simple? : Value → Option Simple
  | .simple value => some value
  | _ => none

mutual

def display : Value → Except DisplayFault String
  | .simple value => value.display.mapError .precision
  | .call function operands => do
      let texts ← displayEach operands
      return function ++ "(" ++ ",".intercalate texts ++ ")"
  | .reference cell => DisplayFault.ofLabel cell.bracketedLabel

def displayEach : List Value → Except DisplayFault (List String)
  | [] => .ok []
  | v :: vs => do
      let text ← display v
      let texts ← displayEach vs
      return text :: texts

end

mutual

def equals : Value → Value → Bool
  | .simple a, .simple b => a.equals b
  | .call f vs, .call g ws => f == g && equalsEach vs ws
  | .reference c, .reference d => c == d
  | _, _ => false

def equalsEach : List Value → List Value → Bool
  | [], [] => true
  | v :: vs, w :: ws => equals v w && equalsEach vs ws
  | _, _ => false

end

mutual

/-- The number of nodes of a value. -/
def size : Value → Nat
  | .simple _ => 1
  | .call _ operands => sizeEach operands + 1
  | .reference _ => 1

def sizeEach : List Value → Nat
  | [] => 0
  | v :: vs => size v + sizeEach vs

end

@[simp] theorem sizeEach_append (vs ws : List Value) :
    sizeEach (vs ++ ws) = sizeEach vs + sizeEach ws := by
  induction vs with
  | nil => simp [sizeEach]
  | cons v vs ih =>
      simp only [List.cons_append, sizeEach, ih]
      omega

theorem size_pos (v : Value) : 0 < size v := by
  cases v <;> simp [size]

end Value

end Worksheet
