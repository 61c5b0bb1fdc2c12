import Worksheet.Calculator

/-!
# Resolution with a record

The operations that resolve values, each with a record of what the machine does on its
behalf: the states of every run, in order. A failure ends an operation and leaves the
record as far as it has come. Apart from the record these are the operations themselves.
-/

namespace Worksheet

open Resolution

/-- What an operation comes to, with the runs of the machine that led there, the earliest
first. -/
structure Traced (ε α : Type) where
  result : Except ε α
  runs : List (List State)

namespace Traced

variable {ε δ α β : Type}

/-- The runs that come after a result; there are none after a failure. -/
def runsAfter (f : α → Traced ε β) : Except ε α → List (List State)
  | .ok a => (f a).runs
  | .error _ => []

instance : Monad (Traced ε) where
  pure a := ⟨.ok a, []⟩
  bind x f := ⟨x.result >>= fun a => (f a).result, x.runs ++ runsAfter f x.result⟩

instance : MonadLift (Except ε) (Traced ε) :=
  ⟨fun result => ⟨result, []⟩⟩

def fail (failure : ε) : Traced ε α :=
  ⟨.error failure, []⟩

def mapError (f : ε → δ) (x : Traced ε α) : Traced δ α :=
  ⟨x.result.mapError f, x.runs⟩

@[simp] theorem result_pure (a : α) : (pure a : Traced ε α).result = .ok a := rfl

@[simp] theorem runs_pure (a : α) : (pure a : Traced ε α).runs = [] := rfl

@[simp] theorem result_bind (x : Traced ε α) (f : α → Traced ε β) :
    (x >>= f).result = x.result >>= fun a => (f a).result := rfl

@[simp] theorem runs_bind (x : Traced ε α) (f : α → Traced ε β) :
    (x >>= f).runs = x.runs ++ runsAfter f x.result := rfl

@[simp] theorem result_liftM (result : Except ε α) :
    (liftM result : Traced ε α).result = result := rfl

@[simp] theorem runs_liftM (result : Except ε α) : (liftM result : Traced ε α).runs = [] := rfl

@[simp] theorem result_mapError (f : ε → δ) (x : Traced ε α) :
    (x.mapError f).result = x.result.mapError f := rfl

@[simp] theorem runs_mapError (f : ε → δ) (x : Traced ε α) : (x.mapError f).runs = x.runs := rfl

end Traced

namespace Resolution

/-- The states of a run, from the given one to the one that stops. -/
def states (grid : Grid) (s : State) : List State :=
  match _ : step grid s with
  | .next t => s :: states grid t
  | .stop _ => [s]
termination_by (unopened grid s.memo s.onPath, s.work)
decreasing_by exact less_of_step ‹_›

def resolveFromTraced (grid : Grid) (v : Value) (memo : Memo) : Traced Failure (Simple × Memo) :=
  let outcome := resolveFrom grid v memo
  ⟨outcome.result.map fun value => (value, outcome.memo), [states grid (.start v memo)]⟩

def resolveCellsTraced (grid : Grid) : List Cell → Memo → Traced Fault (List (Cell × Simple))
  | [], _ => return []
  | cell :: cells, memo => do
      let (value, memo) ←
        (resolveFromTraced grid (.reference cell) memo).mapError (.locatedAt cell)
      let rest ← resolveCellsTraced grid cells memo
      return (cell, value) :: rest

end Resolution

def Value.resolveTraced (v : Value) (grid : Grid) : Traced Failure Simple := do
  let (value, _) ← resolveFromTraced grid v ∅
  return value

namespace Grid

def resolveRegionTraced (grid : Grid) (topLeft bottomRight : Cell) : Traced Fault Region := do
  (grid.checkBounds topLeft).mapError Fault.unlocated
  (grid.checkBounds bottomRight).mapError Fault.unlocated
  if bottomRight.row < topLeft.row ∨ bottomRight.column < topLeft.column then
    Traced.fail (.unlocated (.disorderedRange topLeft bottomRight))
  let resolved ← resolveCellsTraced grid (cellsBetween topLeft bottomRight) ∅
  return {
    values := resolved.map fun entry => .simple entry.2
    rows := bottomRight.row - topLeft.row + 1
    columns := bottomRight.column - topLeft.column + 1 }

def combineAtTraced (grid : Grid) (f : Function) (cell : Cell) (v : Value) (memo : Memo) :
    Traced Failure (Simple × Memo) := do
  let (current, memo) ← resolveFromTraced grid (.reference cell) memo
  let (operand, memo) ← resolveFromTraced grid v memo
  let result ← f.combine current operand
  return (result, memo)

def combineAllTraced (grid : Grid) (f : Function) :
    List (Cell × Value) → Memo → Traced Fault (List (Cell × Simple))
  | [], _ => return []
  | (cell, v) :: rest, memo => do
      let (result, memo) ← (combineAtTraced grid f cell v memo).mapError (.locatedAt cell)
      let results ← combineAllTraced grid f rest memo
      return (cell, result) :: results

def applyBlockTraced (grid : Grid) (start : Cell) (name : String) (patch : Block Value) :
    Traced Fault Grid :=
  if patch.isEmpty then return grid
  else do
    let f ← (Function.named name).mapError Fault.unlocated
    (grid.checkFit start patch).mapError Fault.unlocated
    let results ← combineAllTraced grid f (targets start patch) ∅
    return grid.store (.ofList results)

def applyTraced (grid : Grid) (start : Cell) (name : String) (rows : List (List Value)) :
    Traced Fault Grid := do
  grid.applyBlockTraced start name (← Block.ofRows rows)

end Grid

def Calculator.calculateTraced (calculator : Calculator) : Traced Fault (List (Cell × Simple)) :=
  match calculator.grid with
  | none => .fail .notLoaded
  | some grid => do
      resolveCellsTraced grid (← calculator.dependencies.order) ∅

end Worksheet
