import Mathlib.Data.List.Chain
import Mathlib.Logic.Relation
import Worksheet.Grid
import Worksheet.Proofs.References

/-!
# Reading through a grid

One cell reads another if the value stored in it does. A value reaches the
cells that it reads, the cells that these read, and so on. A trail is a path
of cells, the innermost first, each of which is read by the one after it; a
value that continues a trail may only be found at its head.
-/

namespace Worksheet

open Relation (TransGen ReflTransGen)

def Integer.one : Integer :=
  ⟨1, by decide⟩

def Grid.Reads (grid : Grid) (reader cell : Cell) : Prop :=
  ∃ v, grid.get? reader = some v ∧ cell ∈ v.references

inductive Value.Reaches (grid : Grid) (v : Value) : Cell → Prop where
  | direct {cell : Cell} : cell ∈ v.references → Value.Reaches grid v cell
  | stored {reader cell : Cell} :
      Value.Reaches grid v reader → grid.Reads reader cell → Value.Reaches grid v cell

namespace Grid

variable {grid : Grid} {v : Value} {c d : Cell}

theorem reads_iff (h : grid.get? c = some v) : grid.Reads c d ↔ d ∈ v.references := by
  simp [Reads, h]

theorem Reads.inBounds (h : grid.Reads c d) : grid.InBounds c := by
  obtain ⟨v, hv, -⟩ := h
  exact Block.get?_isSome_iff.mp (by simp [hv])

/-- A number, a copy of it and a cell that refers to itself. -/
def copyBesideLoop : Grid :=
  ⟨1, 3, #v[#v[.simple (.integer ⟨1, by decide⟩), .reference ⟨0, 0⟩, .reference ⟨0, 2⟩]]⟩

theorem reads_copyBesideLoop (h : copyBesideLoop.Reads c d) :
    c = ⟨0, 1⟩ ∧ d = ⟨0, 0⟩ ∨ c = ⟨0, 2⟩ ∧ d = ⟨0, 2⟩ := by
  have hc : c ∈ copyBesideLoop.cells := Block.mem_cells.mpr h.inBounds
  have hcells : copyBesideLoop.cells = [⟨0, 0⟩, ⟨0, 1⟩, ⟨0, 2⟩] := rfl
  simp only [hcells, List.mem_cons, List.not_mem_nil, or_false] at hc
  obtain ⟨v, hv, hd⟩ := h
  rcases hc with rfl | rfl | rfl
  · obtain rfl : Value.simple _ = v := Option.some.inj hv
    simp at hd
  · obtain rfl : Value.reference ⟨0, 0⟩ = v := Option.some.inj hv
    simpa using hd
  · obtain rfl : Value.reference ⟨0, 2⟩ = v := Option.some.inj hv
    simpa using hd

end Grid

namespace Value

variable {grid : Grid} {v : Value} {c d : Cell}

theorem Reaches.trans (h : v.Reaches grid c) (hcd : ReflTransGen grid.Reads c d) :
    v.Reaches grid d := by
  induction hcd with
  | refl => exact h
  | tail _ hread ih => exact .stored ih hread

theorem reaches_iff : v.Reaches grid d ↔ ∃ c ∈ v.references, ReflTransGen grid.Reads c d := by
  constructor
  · intro h
    induction h with
    | direct hd => exact ⟨_, hd, .refl⟩
    | stored _ hread ih =>
        obtain ⟨c, hc, hreach⟩ := ih
        exact ⟨c, hc, hreach.tail hread⟩
  · rintro ⟨c, hc, hreach⟩
    exact Reaches.trans (.direct hc) hreach

/-- Cells from which reading does not lead away hold all that is reached from them. -/
theorem Reaches.of_closed {p : Cell → Prop} (h : v.Reaches grid c)
    (hv : ∀ d ∈ v.references, p d) (hreads : ∀ d e, grid.Reads d e → p d → p e) : p c := by
  induction h with
  | direct hd => exact hv _ hd
  | stored _ hread ih => exact hreads _ _ hread ih

theorem not_reaches_simple {value : Simple} : ¬ (Value.simple value).Reaches grid d := by
  simp [reaches_iff]

theorem reaches_reference_iff :
    (Value.reference c).Reaches grid d ↔ ReflTransGen grid.Reads c d := by
  simp [reaches_iff]

theorem reaches_call_iff {function : String} {operands : List Value} :
    (Value.call function operands).Reaches grid d ↔ ∃ v ∈ operands, v.Reaches grid d := by
  simp only [reaches_iff, mem_references_call]
  grind

theorem reaches_iff_transGen (h : grid.get? c = some v) :
    v.Reaches grid d ↔ TransGen grid.Reads c d := by
  simp only [reaches_iff, Relation.TransGen.head'_iff, Grid.reads_iff h]

theorem Reaches.of_stored (hv : grid.get? c = some v) (h : v.Reaches grid d) :
    (Value.reference c).Reaches grid d :=
  reaches_reference_iff.mpr ((reaches_iff_transGen hv).mp h).to_reflTransGen

theorem reaches_reference_cases (hv : grid.get? c = some v)
    (h : (Value.reference c).Reaches grid d) : d = c ∨ v.Reaches grid d := by
  rw [reaches_reference_iff, Relation.reflTransGen_iff_eq_or_transGen] at h
  exact h.imp id (reaches_iff_transGen hv).mpr

end Value

def Grid.IsTrail (grid : Grid) (path : List Cell) : Prop :=
  path.IsChain fun inner outer => grid.Reads outer inner

theorem Grid.IsTrail.transGen {grid : Grid} {path : List Cell} {c d : Cell}
    (h : grid.IsTrail (d :: path)) (hc : c ∈ path) : TransGen grid.Reads c d := by
  have htrans : (d :: path).IsChain fun inner outer => TransGen grid.Reads outer inner :=
    h.imp fun _ _ => .single
  have : IsTrans Cell fun inner outer => TransGen grid.Reads outer inner :=
    ⟨fun _ _ _ hab hbc => hbc.trans hab⟩
  exact htrans.rel_cons hc

/-- Whatever the value reads may be added to the path as its innermost cell. -/
def Value.Continues (grid : Grid) (path : List Cell) (v : Value) : Prop :=
  ∀ c ∈ v.references, grid.IsTrail (c :: path)

namespace Value

variable {grid : Grid} {path : List Cell} {v : Value} {c : Cell}

theorem continues_nil : v.Continues grid [] :=
  fun _ _ => List.isChain_singleton _

theorem Continues.isTrail (h : (Value.reference c).Continues grid path) :
    grid.IsTrail (c :: path) :=
  h c (by simp)

theorem Continues.stored (h : (Value.reference c).Continues grid path)
    (hv : grid.get? c = some v) : v.Continues grid (c :: path) :=
  fun _ hd => List.isChain_cons_cons.mpr ⟨(Grid.reads_iff hv).mpr hd, h.isTrail⟩

theorem Continues.operand {function : String} {operands : List Value}
    (h : (Value.call function operands).Continues grid path) (hv : v ∈ operands) :
    v.Continues grid path :=
  fun c hc => h c (mem_references_call.mpr ⟨v, hv, hc⟩)

end Value

end Worksheet
