import Worksheet.Cell

/-!
# Cells in order and in collections

The cells of a rectangle stand row by row, each once. What sets and maps keyed
by cells contain is said with equality of cells.
-/

namespace Worksheet

namespace Cell

theorem compare_eq_lt_iff {a b : Cell} :
    compare a b = .lt ↔ a.row < b.row ∨ a.row = b.row ∧ a.column < b.column := by
  obtain ⟨r, c⟩ := a
  obtain ⟨s, d⟩ := b
  change compareLex _ _ _ _ = .lt ↔ _
  simp only [compareLex, compareOn, Ordering.then_eq_lt, Int.compare_eq_lt, Int.compare_eq_eq]

theorem compare_asymm (a b : Cell) (h : compare a b = .lt) : ¬ compare b a = .lt := by
  rw [compare_eq_lt_iff] at h ⊢
  omega

theorem pairwise_rectangle (corner : Cell) (rows columns : Nat) :
    (corner.rectangle rows columns).Pairwise fun a b => compare a b = .lt := by
  rw [rectangle, List.pairwise_flatMap]
  constructor
  · intro i _
    rw [List.pairwise_map]
    refine List.pairwise_lt_range.imp fun hj => ?_
    simp [compare_eq_lt_iff, offset, hj]
  · refine List.pairwise_lt_range.imp fun hi a ha b hb => ?_
    obtain ⟨j, -, rfl⟩ := List.mem_map.mp ha
    obtain ⟨k, -, rfl⟩ := List.mem_map.mp hb
    simp [compare_eq_lt_iff, offset, hi]

theorem nodup_rectangle (corner : Cell) (rows columns : Nat) :
    (corner.rectangle rows columns).Nodup := by
  refine (pairwise_rectangle corner rows columns).imp fun hlt heq => ?_
  simp [heq] at hlt

theorem rectangle_succ (corner : Cell) (rows columns : Nat) :
    corner.rectangle (rows + 1) columns =
      corner.rectangle rows columns ++
        (List.range columns).map fun j : Nat => corner.offset rows j := by
  simp [rectangle, List.range_succ]

@[simp] theorem length_rectangle (corner : Cell) (rows columns : Nat) :
    (corner.rectangle rows columns).length = rows * columns := by
  induction rows with
  | zero => simp [rectangle]
  | succ rows ih => simp [rectangle_succ, ih, Nat.succ_mul]

theorem place_lt {rows columns i j : Nat} (hi : i < rows) (hj : j < columns) :
    i * columns + j < rows * columns := by
  have hrow : (i + 1) * columns ≤ rows * columns := Nat.mul_le_mul_right columns hi
  rw [Nat.succ_mul] at hrow
  omega

theorem getElem?_rectangle {corner : Cell} {rows columns i j : Nat} (hi : i < rows)
    (hj : j < columns) :
    (corner.rectangle rows columns)[i * columns + j]? = some (corner.offset i j) := by
  induction rows with
  | zero => omega
  | succ rows ih =>
      rw [rectangle_succ]
      rcases Nat.lt_or_eq_of_le (Nat.le_of_lt_succ hi) with hlt | rfl
      · rw [List.getElem?_append_left (by simpa using place_lt hlt hj)]
        exact ih hlt
      · rw [List.getElem?_append_right (by simp)]
        simp [hj]

end Cell

variable {α : Type} {c d : Cell}

namespace CellSet

variable {cells : CellSet}

theorem mem_insert_iff : c ∈ cells.insert d ↔ c = d ∨ c ∈ cells := by
  rw [Std.ExtTreeSet.mem_insert, Std.LawfulEqOrd.compare_eq_iff_eq, eq_comm]

theorem mem_erase_iff : c ∈ cells.erase d ↔ c ≠ d ∧ c ∈ cells := by
  rw [Std.ExtTreeSet.mem_erase, ne_eq, Std.LawfulEqOrd.compare_eq_iff_eq, ne_comm]

theorem mem_insertMany_iff {others : List Cell} :
    c ∈ cells.insertMany others ↔ c ∈ cells ∨ c ∈ others := by
  rw [Std.ExtTreeSet.mem_insertMany_list, List.contains_iff_mem]

theorem contains_ofList_iff {others : List Cell} :
    (Std.ExtTreeSet.ofList others : CellSet).contains c ↔ c ∈ others := by
  rw [Std.ExtTreeSet.contains_ofList, List.contains_iff_mem]

end CellSet

namespace CellMap

variable {map : CellMap α} {a : α}

theorem mem_insert_iff : d ∈ map.insert c a ↔ d = c ∨ d ∈ map := by
  rw [Std.ExtTreeMap.mem_insert, Std.LawfulEqOrd.compare_eq_iff_eq, eq_comm]

theorem getElem?_insert : (map.insert c a)[d]? = if d = c then some a else map[d]? := by
  simp only [Std.ExtTreeMap.getElem?_insert, Std.LawfulEqOrd.compare_eq_iff_eq, @eq_comm _ d]

theorem getElem?_erase : (map.erase c)[d]? = if d = c then none else map[d]? := by
  simp only [Std.ExtTreeMap.getElem?_erase, Std.LawfulEqOrd.compare_eq_iff_eq, @eq_comm _ d]

theorem getD_insert (fallback : α) :
    (map.insert c a).getD d fallback = if d = c then a else map.getD d fallback := by
  simp only [Std.ExtTreeMap.getD_insert, Std.LawfulEqOrd.compare_eq_iff_eq, @eq_comm _ d]

theorem getD_erase (fallback : α) :
    (map.erase c).getD d fallback = if d = c then fallback else map.getD d fallback := by
  simp only [Std.ExtTreeMap.getD_erase, Std.LawfulEqOrd.compare_eq_iff_eq, @eq_comm _ d]

theorem getElem?_ofList_of_mem {entries : List (Cell × α)}
    (hordered : (entries.map Prod.fst).Pairwise fun a b => compare a b = .lt)
    (h : (c, a) ∈ entries) : (Std.ExtTreeMap.ofList entries : CellMap α)[c]? = some a := by
  refine Std.ExtTreeMap.getElem?_ofList_of_mem (by simp) ?_ h
  rw [List.pairwise_map] at hordered
  exact hordered.imp fun hlt heq => by simp [hlt] at heq

end CellMap

end Worksheet
