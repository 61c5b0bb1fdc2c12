import Worksheet.Grid
import Worksheet.Path
import Worksheet.Region

/-!
# Resolution

A value is resolved over a grid by a machine with a stack of cells and
calls that wait for a result. The cells on the stack form the path; meeting
one of them again closes a cycle. Cells that have been resolved are kept in
a memo, which outlasts the run. The machine halts because each step either
opens a cell that was neither on the path nor in the memo, or leaves less
work on the stack: there is no bound on the number of steps to be assumed.
-/

namespace Worksheet.Resolution

abbrev Memo := CellMap Simple

inductive Frame where
  /-- A cell whose stored value is being resolved. -/
  | cell (c : Cell)
  /-- A call with the results of its first operands, latest first, and the
  operands after the one that is being resolved. -/
  | call (function : String) (results : List Simple) (operands : List Value)

inductive Focus where
  | todo (v : Value)
  | result (s : Simple)

structure State where
  stack : List Frame
  path : List Cell
  onPath : CellSet
  memo : Memo
  focus : Focus

structure Outcome where
  result : Except Failure Simple
  memo : Memo

inductive Step where
  | next (s : State)
  | stop (outcome : Outcome)

namespace State

def start (v : Value) (memo : Memo) : State :=
  ⟨[], [], ∅, memo, .todo v⟩

def yield (s : State) : Except Failure Simple → Step
  | .ok value => .next { s with focus := .result value }
  | .error failure => .stop ⟨.error failure, s.memo⟩

/-- Opens a cell to resolve the value stored there. -/
def openCell (s : State) (cell : Cell) (v : Value) : State :=
  { s with
    stack := .cell cell :: s.stack
    path := cell :: s.path
    onPath := s.onPath.insert cell
    focus := .todo v }

def closeCell (s : State) (cell : Cell) (value : Simple) (stack : List Frame) : State :=
  { s with
    stack
    path := s.path.tail
    onPath := s.onPath.erase cell
    memo := s.memo.insert cell value
    focus := .result value }

end State

/-- Looks a cell up: outside the grid, in the memo, on the path, or new. -/
def visit (grid : Grid) (s : State) (cell : Cell) : Step :=
  match grid.get? cell with
  | none => s.yield (.error (grid.outside cell))
  | some v =>
      match s.memo[cell]? with
      | some value => s.yield (.ok value)
      | none =>
          if s.onPath.contains cell then s.yield (.error (.cycle (cycleAt s.path cell)))
          else .next (s.openCell cell v)

def step (grid : Grid) (s : State) : Step :=
  match s.focus with
  | .todo (.simple value) => s.yield (.ok value)
  | .todo (.reference cell) => visit grid s cell
  | .todo (.call function []) => s.yield (Function.applyNamed function [])
  | .todo (.call function (v :: operands)) =>
      .next { s with stack := .call function [] operands :: s.stack, focus := .todo v }
  | .result value =>
      match s.stack with
      | [] => .stop ⟨.ok value, s.memo⟩
      | .cell cell :: stack => .next (s.closeCell cell value stack)
      | .call function results [] :: stack =>
          { s with stack }.yield (Function.applyNamed function (value :: results).reverse)
      | .call function results (v :: operands) :: stack =>
          .next { s with
            stack := .call function (value :: results) operands :: stack
            focus := .todo v }

/-- The cells of the grid that have not been opened. -/
def unopened (grid : Grid) (memo : Memo) (onPath : CellSet) : Nat :=
  grid.cells.countP fun cell => !(memo.contains cell || onPath.contains cell)

namespace Frame

def work : Frame → Nat
  | .cell _ => 1
  | .call _ _ operands => 2 * Value.sizeEach operands + 1

end Frame

namespace Focus

def work : Focus → Nat
  | .todo v => 2 * v.size
  | .result _ => 1

end Focus

namespace State

/-- The work that is left if no further cell is opened. -/
def work (s : State) : Nat :=
  s.stack.foldr (fun frame n => frame.work + n) 0 + s.focus.work

end State

/-- What a step leaves: fewer cells to open, or no more of them and less work. -/
def Less (grid : Grid) (t s : State) : Prop :=
  Prod.Lex (· < ·) (· < ·) (unopened grid t.memo t.onPath, t.work)
    (unopened grid s.memo s.onPath, s.work)

theorem less_of_work_lt {grid : Grid} {s t : State}
    (hopen : unopened grid t.memo t.onPath ≤ unopened grid s.memo s.onPath)
    (hwork : t.work < s.work) : Less grid t s := by
  rcases Nat.lt_or_eq_of_le hopen with h | h
  · exact .left _ _ h
  · unfold Less
    rw [h]
    exact .right _ hwork

theorem unopened_openCell_lt {grid : Grid} {s : State} {cell : Cell} {v : Value}
    (hcell : grid.InBounds cell) (hmemo : s.memo[cell]? = none)
    (hpath : s.onPath.contains cell = false) :
    unopened grid (s.openCell cell v).memo (s.openCell cell v).onPath <
      unopened grid s.memo s.onPath := by
  refine countP_lt_countP (x := cell) ?_ (Block.mem_cells.mpr hcell) ?_ ?_
  · intro c _ hc
    simp [State.openCell] at hc ⊢
    exact ⟨hc.1, hc.2.2⟩
  · simp [Std.ExtTreeMap.contains_eq_isSome_getElem?, hmemo, hpath]
  · simp [State.openCell]

theorem unopened_closeCell_le {grid : Grid} (s : State) (cell : Cell) (value : Simple)
    (stack : List Frame) :
    unopened grid (s.closeCell cell value stack).memo (s.closeCell cell value stack).onPath ≤
      unopened grid s.memo s.onPath := by
  refine List.countP_mono_left fun c _ hc => ?_
  simp [State.closeCell] at hc ⊢
  exact ⟨hc.1.2, hc.2.resolve_left hc.1.1⟩

theorem Step.next_of_yield {s t : State} {r : Except Failure Simple} (h : s.yield r = .next t) :
    ∃ value, r = .ok value ∧ t = { s with focus := .result value } := by
  cases r with
  | error failure => simp [State.yield] at h
  | ok value => exact ⟨value, rfl, by simpa [State.yield, eq_comm] using h⟩

theorem less_of_step {grid : Grid} {s t : State} (h : step grid s = .next t) : Less grid t s := by
  obtain ⟨stack, path, onPath, memo, focus⟩ := s
  cases focus with
  | todo v =>
      cases v with
      | simple value =>
          simp only [step] at h
          obtain ⟨_, -, rfl⟩ := Step.next_of_yield h
          exact less_of_work_lt (Nat.le_refl _) (by simp [State.work, Focus.work, Value.size])
      | reference cell =>
          simp only [step, visit] at h
          split at h
          · simp [State.yield] at h
          next v hv =>
              split at h
              · obtain ⟨_, -, rfl⟩ := Step.next_of_yield h
                exact less_of_work_lt (Nat.le_refl _)
                  (by simp [State.work, Focus.work, Value.size])
              next hmemo =>
                  split at h
                  · simp [State.yield] at h
                  next hpath =>
                      obtain rfl := Step.next.inj h
                      have hcell : grid.InBounds cell :=
                        Block.get?_isSome_iff.mp (by simp [hv])
                      exact .left _ _ (unopened_openCell_lt hcell hmemo
                        (Bool.eq_false_iff.mpr hpath))
      | call function operands =>
          cases operands with
          | nil =>
              simp only [step] at h
              obtain ⟨_, -, rfl⟩ := Step.next_of_yield h
              exact less_of_work_lt (Nat.le_refl _)
                (by simp [State.work, Focus.work, Value.size, Value.sizeEach])
          | cons v operands =>
              obtain rfl := Step.next.inj h
              refine less_of_work_lt (Nat.le_refl _) ?_
              simp [State.work, Focus.work, Frame.work, Value.size, Value.sizeEach]
              omega
  | result value =>
      cases stack with
      | nil => simp [step] at h
      | cons frame stack =>
          cases frame with
          | cell cell =>
              obtain rfl := Step.next.inj h
              refine less_of_work_lt (unopened_closeCell_le _ cell value stack) ?_
              simp [State.work, State.closeCell, Focus.work, Frame.work]
          | call function results operands =>
              cases operands with
              | nil =>
                  obtain ⟨_, -, rfl⟩ := Step.next_of_yield h
                  exact less_of_work_lt (Nat.le_refl _)
                    (by simp [State.work, Focus.work, Frame.work, Value.sizeEach])
              | cons v operands =>
                  obtain rfl := Step.next.inj h
                  refine less_of_work_lt (Nat.le_refl _) ?_
                  simp [State.work, Focus.work, Frame.work, Value.sizeEach]
                  omega

def run (grid : Grid) (s : State) : Outcome :=
  match _ : step grid s with
  | .next t => run grid t
  | .stop outcome => outcome
termination_by (unopened grid s.memo s.onPath, s.work)
decreasing_by exact less_of_step ‹_›

/-- Resolves a value from a memo, and gives the memo with what was resolved. -/
def resolveFrom (grid : Grid) (v : Value) (memo : Memo) : Outcome :=
  run grid (.start v memo)

/-- Resolves the values stored at cells, one after the other with one memo.
The first failure comes to light at the cell that was to be resolved. -/
def resolveCells (grid : Grid) : List Cell → Memo → Except Fault (List (Cell × Simple))
  | [], _ => .ok []
  | cell :: cells, memo =>
      match resolveFrom grid (.reference cell) memo with
      | ⟨.error failure, _⟩ => .error (.locatedAt cell failure)
      | ⟨.ok value, memo⟩ =>
          (resolveCells grid cells memo).map fun rest => (cell, value) :: rest

end Worksheet.Resolution

namespace Worksheet

open Resolution

/-- Resolves a value over a grid, with nothing resolved before. -/
def Value.resolve (v : Value) (grid : Grid) : Except Failure Simple :=
  (resolveFrom grid v ∅).result

namespace Grid

def resolve (grid : Grid) (cell : Cell) : Except Failure Simple := do
  grid.checkBounds cell
  (Value.reference cell).resolve grid

/-- The cells from one corner to the opposite one, row by row. -/
def cellsBetween (topLeft bottomRight : Cell) : List Cell :=
  topLeft.rectangle (bottomRight.row - topLeft.row + 1).toNat
    (bottomRight.column - topLeft.column + 1).toNat

def resolveRegion (grid : Grid) (topLeft bottomRight : Cell) : Except Fault Region := do
  (grid.checkBounds topLeft).mapError .unlocated
  (grid.checkBounds bottomRight).mapError .unlocated
  if bottomRight.row < topLeft.row ∨ bottomRight.column < topLeft.column then
    throw (.unlocated (.disorderedRange topLeft bottomRight))
  let resolved ← resolveCells grid (cellsBetween topLeft bottomRight) ∅
  return {
    values := resolved.map fun entry => .simple entry.2
    rows := bottomRight.row - topLeft.row + 1
    columns := bottomRight.column - topLeft.column + 1 }

end Grid

end Worksheet
