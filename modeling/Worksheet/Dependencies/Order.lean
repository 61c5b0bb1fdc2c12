import Worksheet.Dependencies
import Worksheet.Path

/-!
# Evaluation order

Formula cells are ordered by a depth-first search along their references, so
that every cell follows the formula cells that it reads. The search is a
machine with a stack of cells, each with the references that are still to be
looked at. It halts because each step enters a formula cell that was neither
on the path nor finished, or leaves fewer cells to look at.
-/

namespace Worksheet.Dependencies

structure Search where
  roots : List Cell
  stack : List (Cell × List Cell)
  onPath : CellSet
  finished : CellSet
  /-- The finished cells, the latest first. -/
  order : List Cell

inductive SearchStep where
  | next (s : Search)
  | stop (result : Except (List Cell) (List Cell))

namespace Search

def start (roots : List Cell) : Search :=
  ⟨roots, [], ∅, ∅, []⟩

/-- The cells that the search is inside of, the innermost first. -/
def path (s : Search) : List Cell :=
  s.stack.map Prod.fst

def enter (index : Dependencies) (s : Search) (cell : Cell) : Search :=
  { s with
    stack := (cell, index.referencesOf cell) :: s.stack
    onPath := s.onPath.insert cell }

/-- Looks at a cell: on the path, finished or no formula cell, or new. -/
def visit (index : Dependencies) (s : Search) (cell : Cell) : SearchStep :=
  if s.onPath.contains cell then .stop (.error (cycleAt s.path cell))
  else if s.finished.contains cell || !index.contains cell then .next s
  else .next (s.enter index cell)

def leave (s : Search) (cell : Cell) (stack : List (Cell × List Cell)) : Search :=
  { s with
    stack
    onPath := s.onPath.erase cell
    finished := s.finished.insert cell
    order := cell :: s.order }

def step (index : Dependencies) (s : Search) : SearchStep :=
  match s.stack with
  | [] =>
      match s.roots with
      | [] => .stop (.ok s.order.reverse)
      | root :: roots => { s with roots }.visit index root
  | (cell, []) :: stack => .next (s.leave cell stack)
  | (cell, reference :: references) :: stack =>
      { s with stack := (cell, references) :: stack }.visit index reference

/-- The formula cells that can still be entered. -/
def unentered (index : Dependencies) (onPath finished : CellSet) : Nat :=
  index.cells.countP fun cell => !(onPath.contains cell || finished.contains cell)

/-- The cells to look at if no further cell is entered. -/
def work (s : Search) : Nat :=
  s.roots.length + s.stack.foldr (fun frame n => frame.2.length + 1 + n) 0

def Less (index : Dependencies) (t s : Search) : Prop :=
  Prod.Lex (· < ·) (· < ·) (unentered index t.onPath t.finished, t.work)
    (unentered index s.onPath s.finished, s.work)

theorem less_of_work_lt {index : Dependencies} {s t : Search}
    (hle : unentered index t.onPath t.finished ≤ unentered index s.onPath s.finished)
    (hwork : t.work < s.work) : Less index t s := by
  rcases Nat.lt_or_eq_of_le hle with h | h
  · exact .left _ _ h
  · unfold Less
    rw [h]
    exact .right _ hwork

theorem unentered_enter_lt {index : Dependencies} {s : Search} {cell : Cell}
    (hpath : s.onPath.contains cell = false) (hfinished : s.finished.contains cell = false)
    (hcell : index.contains cell) :
    unentered index (s.enter index cell).onPath (s.enter index cell).finished <
      unentered index s.onPath s.finished := by
  refine countP_lt_countP (x := cell) ?_ ?_ ?_ ?_
  · intro c _ hc
    simp [enter] at hc ⊢
    exact ⟨hc.1.2, hc.2⟩
  · simpa [cells, contains] using hcell
  · simp [hpath, hfinished]
  · simp [enter]

theorem unentered_leave_le {index : Dependencies} (s : Search) (cell : Cell)
    (stack : List (Cell × List Cell)) :
    unentered index (s.leave cell stack).onPath (s.leave cell stack).finished ≤
      unentered index s.onPath s.finished := by
  refine List.countP_mono_left fun c _ hc => ?_
  simp [leave] at hc ⊢
  exact ⟨hc.1.resolve_left hc.2.1, hc.2.2⟩

/-- Looking at a cell after it has been taken off the work leaves less. -/
theorem less_of_visit {index : Dependencies} {r s t : Search} {cell : Cell}
    (h : r.visit index cell = .next t) (hpath : r.onPath = s.onPath)
    (hfinished : r.finished = s.finished) (hwork : r.work < s.work) : Less index t s := by
  unfold visit at h
  split at h
  · simp at h
  next hp =>
      split at h
      · obtain rfl := SearchStep.next.inj h
        exact less_of_work_lt (Nat.le_of_eq (by rw [hpath, hfinished])) hwork
      next hf =>
          obtain rfl := SearchStep.next.inj h
          rw [Bool.or_eq_true, not_or, Bool.not_eq_true', Bool.not_eq_false] at hf
          refine .left _ _ ?_
          rw [← hpath, ← hfinished]
          exact unentered_enter_lt (Bool.eq_false_iff.mpr hp) (Bool.eq_false_iff.mpr hf.1) hf.2

theorem less_of_step {index : Dependencies} {s t : Search} (h : step index s = .next t) :
    Less index t s := by
  obtain ⟨roots, stack, onPath, finished, order⟩ := s
  cases stack with
  | nil =>
      cases roots with
      | nil => simp [step] at h
      | cons root roots => exact less_of_visit h rfl rfl (by simp [work])
  | cons frame stack =>
      obtain ⟨cell, references⟩ := frame
      cases references with
      | nil =>
          obtain rfl := SearchStep.next.inj h
          exact less_of_work_lt (unentered_leave_le _ cell stack) (by simp [work, leave])
      | cons reference references =>
          exact less_of_visit h rfl rfl (by simp [work])

def run (index : Dependencies) (s : Search) : Except (List Cell) (List Cell) :=
  match _ : step index s with
  | .next t => run index t
  | .stop result => result
termination_by (unentered index s.onPath s.finished, s.work)
decreasing_by exact less_of_step ‹_›

end Search

/-- How a cycle is reported: by the labels of its cells, if all have one. -/
def cycleFault (chain : List Cell) : Fault :=
  match chain.mapM Cell.label with
  | .ok _ => .unlocated (.cycle chain)
  | .error cause => .label cause

/-- The given formula cells and all that they read, directly or not, each
after the formula cells that it reads. Cells that are no formula cells do
not count, and the given cells are entered row by row. -/
def orderOf (index : Dependencies) (roots : CellSet) : Except Fault (List Cell) :=
  (Search.run index (.start roots.toList)).mapError cycleFault

def order (index : Dependencies) : Except Fault (List Cell) :=
  (Search.run index (.start index.cells)).mapError cycleFault

def allReaders (index : Dependencies) : List Cell :=
  index.readers.toList.flatMap fun entry => entry.2.toList

theorem mem_allReaders_of_mem_readersOf {index : Dependencies} {reader cell : Cell}
    (h : reader ∈ index.readersOf cell) : reader ∈ index.allReaders := by
  unfold readersOf at h
  rw [Std.ExtTreeMap.getD_eq_getD_getElem?] at h
  cases hcell : index.readers[cell]? with
  | none => simp [hcell] at h
  | some others =>
      refine List.mem_flatMap.mpr ⟨(cell, others), ?_, by simpa [hcell] using h⟩
      rw [Std.ExtTreeMap.mem_toList_iff_getElem?_eq_some]
      exact hcell

/-- The readers of the frontier, their readers, and so on, besides those
already seen. -/
def readersFrom (index : Dependencies) (seen : CellSet) (frontier : List Cell) : CellSet :=
  match frontier with
  | [] => seen
  | cell :: frontier =>
      match _ : (index.readersOf cell).filter fun reader => !seen.contains reader with
      | [] => readersFrom index seen frontier
      | reader :: readers =>
          readersFrom index ((seen.insert reader).insertMany readers)
            (reader :: readers ++ frontier)
termination_by (index.allReaders.countP fun reader => !seen.contains reader, frontier.length)
decreasing_by
  · exact .right _ (Nat.lt_succ_self _)
  next h =>
    have hmem := List.mem_filter.mp (h ▸ List.mem_cons_self)
    refine .left _ _ (countP_lt_countP (x := reader) ?_ ?_ hmem.2 ?_)
    · intro c _ hc
      simp at hc ⊢
      exact hc.1.2
    · exact mem_allReaders_of_mem_readersOf hmem.1
    · simp

/-- The formula cells that read one of the given cells, directly or not, in
evaluation order. -/
def downstream (index : Dependencies) (changed : List Cell) : Except Fault (List Cell) :=
  let readers := index.readersFrom ∅ changed
  (index.orderOf readers).map fun order => order.filter readers.contains

end Worksheet.Dependencies
