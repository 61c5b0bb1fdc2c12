import Worksheet.Binary.Shortest
import Worksheet.Text.Quoted
import Worksheet.Value

/-!
# Values inside messages

A message shows a value by its kind and its parts, so that values which are displayed by
one text can be told apart. Texts stand in quotes and floats have their shortest notation.
A number of too many digits leaves the value without such a form.
-/

namespace Worksheet

/-- A time of day without seconds is shown by hour and minute alone. -/
def Timestamp.representation (stamp : Timestamp) : String :=
  let time :=
    if stamp.microsecond ≠ 0 then [stamp.hour, stamp.minute, stamp.second, stamp.microsecond]
    else if stamp.second ≠ 0 then [stamp.hour, stamp.minute, stamp.second]
    else [stamp.hour, stamp.minute]
  "datetime.datetime(" ++
    ", ".intercalate ((stamp.year :: stamp.month :: stamp.day :: time).map toString) ++ ")"

def Simple.representation : Simple → Except Numeral.TooLong String
  | .null => .ok "Null()"
  | .integer n => .ok ("Integer(value=" ++ toString n.toInt ++ ")")
  | .float x precision => do
      let places ← Numeral.write precision
      return "Float(value=np.float32(" ++ String.ofList x.shortestText ++ "), precision=" ++
        places ++ ")"
  | .text content => .ok ("Text(value=" ++ Text.quote content ++ ")")
  | .dateTime stamp pattern =>
      .ok ("DateTime(value=" ++ stamp.representation ++ ", format=" ++ Text.quote pattern ++ ")")

namespace Value

/-- A single operand has a comma after it. -/
def tuple : List String → String
  | [text] => "(" ++ text ++ ",)"
  | texts => "(" ++ ", ".intercalate texts ++ ")"

mutual

def representation : Value → Except Numeral.TooLong String
  | .simple value => value.representation
  | .call function operands => do
      let texts ← representEach operands
      return "FormulaCall(function=" ++ Text.quote function ++ ", operands=" ++ tuple texts ++ ")"
  | .reference cell => do
      let row ← Numeral.write cell.row
      let column ← Numeral.write cell.column
      return "CellReference(coordinate=Coordinate(row=" ++ row ++ ", column=" ++ column ++ "))"

def representEach : List Value → Except Numeral.TooLong (List String)
  | [] => .ok []
  | v :: vs => do
      let text ← representation v
      let texts ← representEach vs
      return text :: texts

end

end Value

end Worksheet
