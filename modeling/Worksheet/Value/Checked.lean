import Worksheet.Fault

/-!
# Checked values

What a value is made of is checked when it is made: an integer is one of 32 bits, and a
float has no negative number of decimal places. Every kind of simple value has a default.
-/

namespace Worksheet

def Integer.ofInt (n : Int) : Except Failure Integer :=
  match ofInt? n with
  | some i => .ok i
  | none => .error (Failure.overflow n).raised

/-- A number of a word is always written in the report that it is too large. -/
theorem Integer.ofInt_eq_error {n : Int} (h : ofInt? n = none) (hn : FitsWord n) :
    ofInt n = .error (.overflow n) := by
  rw [ofInt, h, Failure.raised_overflow (Numeral.isWritable_of_fitsWord hn)]

namespace Simple

def ofFloat (x : Binary32) (precision : Int) : Except Fault Simple :=
  match precision with
  | .ofNat p => .ok (.float x p)
  | .negSucc _ => .error (Fault.negativePrecision precision).raised

def default : Kind → Except Fault Simple
  | .null => .ok .null
  | .integer => .ok (.integer ⟨0, by decide⟩)
  | .float => .ok (.float (.zero false) 0)
  | .text => .ok (.text "")
  | .dateTime => .ok (.dateTime .first defaultPattern)
  | kind => .error (.noDefault kind)

end Simple

end Worksheet
