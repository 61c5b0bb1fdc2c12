import Worksheet.Cell

/-!
# Paths

A depth-first search is inside some cells at any time. They form its path,
listed here from the innermost outwards. Meeting a cell of the path again
closes a cycle. A search ends because the cells that it may still enter
become fewer, which is a count over a fixed list.
-/

namespace Worksheet

/-- The cycle closed by meeting a cell of the path again. The path lists the
cells from the innermost outwards. -/
def cycleAt (path : List Cell) (cell : Cell) : List Cell :=
  cell :: (path.takeWhile (· ≠ cell)).reverse ++ [cell]

theorem countP_lt_countP {α : Type} {p q : α → Bool} {xs : List α} {x : α}
    (hle : ∀ y ∈ xs, q y → p y) (hx : x ∈ xs) (hp : p x) (hq : q x = false) :
    xs.countP q < xs.countP p := by
  induction xs with
  | nil => simp at hx
  | cons y ys ih =>
      have hmono : ys.countP q ≤ ys.countP p :=
        List.countP_mono_left fun z hz => hle z (List.mem_cons_of_mem _ hz)
      simp only [List.countP_cons]
      rcases List.mem_cons.mp hx with rfl | hmem
      · simp only [hq, hp]
        simpa using Nat.lt_succ_of_le hmono
      · have hlt := ih (fun z hz => hle z (List.mem_cons_of_mem _ hz)) hmem
        by_cases hy : q y
        · simpa [hy, hle y List.mem_cons_self hy] using hlt
        · simp only [hy]
          exact Nat.lt_of_lt_of_le hlt (Nat.le_add_right _ _)

end Worksheet
