import Worksheet.Function
import Worksheet.Text.Arguments
import Worksheet.Text.Parentheses

/-!
# Reading cell text

What is typed into a cell is read as the first form that it has: nothing, a
timestamp of the pattern in use, an integer of 32 bits, a decimal with a
point, a call of a known function, a reference in brackets. Any other text
stands for itself. The only faults are numbers of too many digits and a
pattern with a field twice.
-/

namespace Worksheet.Value

/-- The pattern by which timestamps are read unless another is given. -/
def readingPattern : String := "%Y%m%d %H%M%S"

def readInteger (cs : List Char) : Except Numeral.TooLong (Option Integer) :=
  let (negative, digits) := Numeral.splitSign cs
  if Numeral.isNumeral digits then do
    let n ← Numeral.read digits
    return Integer.ofInt? (if negative then -(n : Int) else n)
  else .ok none

/-- The number of digits up to which a decimal is read, zeros at its front not counted. -/
def decimalLimit : Nat := 1000000000

/-- The digits that a decimal has to be read from. -/
def decimalLength (whole places : List Char) : Nat :=
  (whole.dropWhile (· == '0')).length + places.length

/-- An optionally signed decimal with a point and at least one digit. It is
rounded first to double and then to single precision; the digits after the
point give the precision at which it is shown. -/
def readDecimal (cs : List Char) : Except ReadingFault (Option (Binary32 × Nat)) :=
  let (negative, rest) := Numeral.splitSign cs
  let whole := rest.takeWhile Char.isDigit
  match rest.dropWhile Char.isDigit with
  | '.' :: places =>
      if places.all Char.isDigit && !(whole.isEmpty && places.isEmpty) then
        if decimalLength whole places ≤ decimalLimit then
          let nearest : Binary64 :=
            .ofDecimal negative (Numeral.value (whole ++ places)) places.length
          .ok (some (nearest.convert, places.length))
        else .error (.decimal (String.ofList cs))
      else .ok none
  | _ => .ok none

def startsIdentifier (c : Char) : Bool :=
  c.isAlpha || c == '_'

def continuesIdentifier (c : Char) : Bool :=
  c.isAlphanum || c == '_'

/-- The name and the text between the parentheses, if the whole text is a
name with parentheses after it. Blanks may stand between the two. -/
def splitCall? : List Char → Option (List Char × List Char)
  | [] => none
  | c :: cs =>
      if startsIdentifier c then
        match Text.trimLeft (cs.dropWhile continuesIdentifier) with
        | '(' :: rest =>
            match Text.splitClosing? rest with
            | some (inner, []) => some (c :: cs.takeWhile continuesIdentifier, inner)
            | _ => none
        | _ => none
      else none

theorem length_of_splitCall? {cs name inner : List Char}
    (h : splitCall? cs = some (name, inner)) : inner.length < cs.length := by
  cases cs with
  | nil => simp [splitCall?] at h
  | cons c cs =>
      simp only [splitCall?] at h
      split at h
      · split at h
        next rest hrest =>
            split at h
            next body hbody =>
                obtain ⟨-, rfl⟩ : _ ∧ body = inner := by simpa using h
                have hlength := congrArg List.length (Text.eq_of_splitClosing? hbody)
                have htrim := Text.length_trimLeft_le (cs.dropWhile continuesIdentifier)
                have hdrop := (List.dropWhile_sublist continuesIdentifier (l := cs)).length_le
                simp only [hrest, List.length_cons, List.length_append, List.length_nil] at *
                omega
            · simp at h
        · simp at h
      · simp at h

/-- The call that a text has the form of, if its function is known. -/
def supportedCall? (cs : List Char) : Option (List Char × List Char) :=
  (splitCall? cs).filter fun (name, _) => Function.isSupported (String.ofList name)

theorem length_of_supportedCall? {cs name inner : List Char}
    (h : supportedCall? cs = some (name, inner)) : inner.length < cs.length :=
  length_of_splitCall? (Option.filter_eq_some_iff.mp h).1

/-- A label in brackets. A malformed one is no reference. -/
def readReference (cs : List Char) : Except Numeral.TooLong (Option Cell) :=
  if cs.head? = some '[' then
    match Label.read (String.ofList cs) with
    | .ok cell => .ok (some cell)
    | .error (.rowTooLong cause) => .error cause
    | .error _ => .ok none
  else .ok none

/-- Reads a text along a pattern that is known to have no field twice. -/
def readChars (pattern : String) (cs : List Char) : Except ReadingFault Value :=
  if cs.isEmpty then .ok (.simple .null)
  else
    match Timestamp.read? pattern (String.ofList cs) with
    | some stamp => .ok (.simple (.dateTime stamp pattern))
    | none =>
        match readInteger cs with
        | .error cause => .error (.numeral cause)
        | .ok (some n) => .ok (.simple (.integer n))
        | .ok none =>
            match readDecimal cs with
            | .error cause => .error cause
            | .ok (some (x, precision)) => .ok (.simple (.float x precision))
            | .ok none =>
                match _ : supportedCall? cs with
                | some (name, inner) => do
                    let operands ← (Text.arguments inner).attach.mapM fun ⟨argument, _⟩ =>
                      readChars pattern argument
                    return .call (String.ofList name) operands
                | none =>
                    match readReference cs with
                    | .error cause => .error (.numeral cause)
                    | .ok (some cell) => .ok (.reference cell)
                    | .ok none => .ok (.simple (.text (String.ofList cs)))
termination_by cs.length
decreasing_by
  exact Nat.lt_of_le_of_lt (Text.length_of_mem_arguments ‹_›) (length_of_supportedCall? ‹_›)

/-- All timestamps in a text are looked for along one pattern. An empty text is read
without it. -/
def read (pattern text : String) : Except ReadingFault Value :=
  match Timestamp.repetition? pattern with
  | some cause => if text.isEmpty then .ok (.simple .null) else .error (.pattern cause)
  | none => readChars pattern text.toList

theorem read_eq_readChars {pattern : String} (h : Timestamp.repetition? pattern = none)
    (text : String) : read pattern text = readChars pattern text.toList := by
  rw [read, h]

theorem readChars_of_read {pattern text : String} {v : Value} (h : read pattern text = .ok v) :
    readChars pattern text.toList = .ok v := by
  unfold read at h
  split at h
  · split at h
    next hempty =>
        obtain rfl : text = "" := by simpa using hempty
        simpa [readChars] using h
    next => cases h
  · exact h

theorem repetition?_readingPattern : Timestamp.repetition? readingPattern = none :=
  Timestamp.repetition?_eq_none_iff.mpr (.inr (by decide))

theorem read_readingPattern (text : String) :
    read readingPattern text = readChars readingPattern text.toList :=
  read_eq_readChars repetition?_readingPattern text

end Worksheet.Value
