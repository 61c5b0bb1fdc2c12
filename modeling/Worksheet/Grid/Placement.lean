import Worksheet.Apply

/-!
# Writing in place

The entries of a block may be put into a grid one after the other, row by row. Rows and
columns are counted from the top left, or from the opposite edge where the count is
negative. An entry past an edge ends the writing, and what was put before it stays.
-/

namespace Worksheet.Grid

/-- The place that an index means among so many; a negative one counts from the end. -/
def place? (extent : Nat) (index : Int) : Option Nat :=
  let place := if index < 0 then index + extent else index
  if 0 ≤ place ∧ place < extent then some place.toNat else none

end Worksheet.Grid
