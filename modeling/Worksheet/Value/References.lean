import Worksheet.Value

/-!
# The cells that a value reads

The references of a value are the cells named anywhere in it, from left to
right, each at its first occurrence only. They are collected with a stack of
values still to be looked at; a plain walk of the tree, with repetitions,
stands beside it.
-/

namespace Worksheet.Value

mutual

/-- Every reference in the tree of a value, from left to right. -/
def occurrences : Value → List Cell
  | .simple _ => []
  | .call _ operands => occurrencesEach operands
  | .reference cell => [cell]

def occurrencesEach : List Value → List Cell
  | [] => []
  | v :: vs => occurrences v ++ occurrencesEach vs

end

/-- Looks at the values of the stack in turn, passing over seen cells. -/
def collect (seen : CellSet) : List Value → List Cell
  | [] => []
  | .simple _ :: stack => collect seen stack
  | .reference cell :: stack =>
      if seen.contains cell then collect seen stack
      else cell :: collect (seen.insert cell) stack
  | .call _ operands :: stack => collect seen (operands ++ stack)
termination_by stack => sizeEach stack
decreasing_by
  · simp [sizeEach, size]
  · simp [sizeEach, size]
  · simp [sizeEach, size]
  · simp only [sizeEach_append, sizeEach, size]
    omega

/-- The cells that a value reads, each once, in the order in which they are
met from left to right. -/
def references (v : Value) : List Cell :=
  collect ∅ [v]

end Worksheet.Value
