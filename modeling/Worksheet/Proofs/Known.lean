import Mathlib
import Worksheet.Proofs.Grammar
import Worksheet.Proofs.Recalculation
import Worksheet.Proofs.WellKinded

/-!
# Grids of known functions

What is read from a text calls known functions only and refers to cells that are not
negative, and its floats have no more decimal places than are read, at any depth. A result
has no more places than what it comes of. Changes of a grid store what they were given or
such results, and so every grid that comes of texts keeps to this, whatever is done to it
and whether or not it succeeds.
-/

namespace Worksheet

namespace Value

variable {v w : Value} {value : Simple} {cell c : Cell} {name pattern : String}
  {operands : List Value} {cs : List Char}

theorem operand_induction {motive : Value → Prop} (simple : ∀ value, motive (.simple value))
    (reference : ∀ cell, motive (.reference cell))
    (call : ∀ name operands, (∀ v ∈ operands, motive v) → motive (.call name operands))
    (v : Value) : motive v :=
  @Value.rec motive (fun vs => ∀ v ∈ vs, motive v) simple call reference (by simp)
    (fun _ _ hv hvs => List.forall_mem_cons.mpr ⟨hv, hvs⟩) v

/-- The second value is the first, or stands in it at some depth. -/
inductive Contains : Value → Value → Prop where
  | self (v : Value) : Contains v v
  | operand {name : String} {operands : List Value} {v w : Value} :
      v ∈ operands → Contains v w → Contains (.call name operands) w

theorem contains_simple_iff : (Value.simple value).Contains w ↔ w = .simple value := by
  constructor
  · rintro ⟨⟩
    rfl
  · rintro rfl
    exact .self _

theorem contains_reference_iff : (Value.reference cell).Contains w ↔ w = .reference cell := by
  constructor
  · rintro ⟨⟩
    rfl
  · rintro rfl
    exact .self _

theorem contains_call_iff :
    (Value.call name operands).Contains w ↔
      w = .call name operands ∨ ∃ v ∈ operands, v.Contains w := by
  constructor
  · rintro (_ | ⟨hv, hw⟩)
    · exact .inl rfl
    · exact .inr ⟨_, hv, hw⟩
  · rintro (rfl | ⟨v, hv, hw⟩)
    · exact .self _
    · exact .operand hv hw

theorem Contains.trans {u : Value} (hv : u.Contains v) (hw : v.Contains w) : u.Contains w := by
  induction hv with
  | self => exact hw
  | operand hmem _ ih => exact .operand hmem (ih hw)

/-- No float in the value has more decimal places than are read. -/
def IsShort (v : Value) : Prop :=
  ∀ x p, v.Contains (.simple (.float x p)) → p ≤ decimalLimit

/-- All functions are known, all cells that are referred to are not negative, and all
floats are short. -/
structure Known (v : Value) : Prop where
  named : ∀ name operands, v.Contains (.call name operands) → ∃ f, Function.ofName? name = some f
  nonneg : ∀ c, v.Contains (.reference c) → 0 ≤ c.row ∧ 0 ≤ c.column
  short : v.IsShort

theorem isShort_simple_iff :
    (Value.simple value).IsShort ↔ ∀ x p, value = .float x p → p ≤ decimalLimit := by
  simp [IsShort, contains_simple_iff, eq_comm]

theorem isShort_reference (cell : Cell) : (Value.reference cell).IsShort := by
  simp [IsShort, contains_reference_iff]

theorem known_simple (h : (Value.simple value).IsShort) : (Value.simple value).Known where
  named name operands h := by simp [contains_simple_iff] at h
  nonneg c h := by simp [contains_simple_iff] at h
  short := h

theorem known_reference (hrow : 0 ≤ cell.row) (hcolumn : 0 ≤ cell.column) :
    (Value.reference cell).Known where
  named name operands h := by simp [contains_reference_iff] at h
  nonneg c h := by
    obtain rfl : c = cell := by simpa [contains_reference_iff] using h
    exact ⟨hrow, hcolumn⟩
  short := isShort_reference cell

theorem known_call (hname : ∃ f, Function.ofName? name = some f) (h : ∀ v ∈ operands, v.Known) :
    (Value.call name operands).Known where
  named other arguments hcall := by
    rcases contains_call_iff.mp hcall with heq | ⟨v, hv, hcall⟩
    · obtain ⟨rfl, -⟩ := Value.call.inj heq
      exact hname
    · exact (h v hv).named other arguments hcall
  nonneg c hc := by
    rcases contains_call_iff.mp hc with heq | ⟨v, hv, hc⟩
    · cases heq
    · exact (h v hv).nonneg c hc
  short x p hx := by
    rcases contains_call_iff.mp hx with heq | ⟨v, hv, hx⟩
    · cases heq
    · exact (h v hv).short x p hx

/-- The induction is on the length of the text, since arguments are shorter. -/
theorem known_of_readChars (h : readChars pattern cs = .ok v) : v.Known := by
  induction hlength : cs.length using Nat.strongRecOn generalizing cs v with
  | ind length ih =>
      cases denotes_of_readChars h with
      | empty => exact known_simple (isShort_simple_iff.mpr (by simp))
      | dateTime => exact known_simple (isShort_simple_iff.mpr (by simp))
      | integer => exact known_simple (isShort_simple_iff.mpr (by simp))
      | @decimal negative whole places hstamp hdecimal =>
          have hshort : ¬ Text.Overlong cs := fun hlong => by
            obtain ⟨cause, hcause⟩ := exists_error_of_overlong hstamp hlong
            simp [hcause] at h
          have hlimit := decimalLength_le hdecimal hshort
          refine known_simple (isShort_simple_iff.mpr ?_)
          rintro x p ⟨⟩
          exact (Nat.le_add_left _ _).trans hlimit
      | call _ hcall hoperands =>
          have hname := Function.isSupported_iff_exists_ofName?.mp hcall.isSupported
          refine known_call hname fun w hw => ?_
          obtain ⟨argument, hmem, hargument⟩ := Except.exists_source_of_mapM hoperands hw
          exact ih argument.length (hlength ▸ length_argument_lt hcall hmem) hargument rfl
      | reference _ hreference =>
          obtain ⟨letters, digits, -, -, -, rfl⟩ := hreference
          exact known_reference (Int.natCast_nonneg _) (Int.natCast_nonneg _)
      | text => exact known_simple (isShort_simple_iff.mpr (by simp))

theorem known_of_read {text : String} (h : read pattern text = .ok v) : v.Known :=
  known_of_readChars (readChars_of_read h)

theorem isShort_of_combine {f : Function} {a b : Simple} (ha : (Value.simple a).IsShort)
    (hb : (Value.simple b).IsShort) (h : f.combine a b = .ok value) :
    (Value.simple value).IsShort := by
  refine isShort_simple_iff.mpr ?_
  rintro x p rfl
  rcases Function.precision_of_combine h with rfl | ⟨y, rfl⟩ | ⟨y, rfl⟩
  · exact Nat.zero_le _
  · exact ha y p (.self _)
  · exact hb y p (.self _)

/-- What a value comes to is short if all is short that it can come of. -/
theorem isShort_of_evaluate {grid : Grid} {path : List Cell}
    (hgrid : ∀ c w, grid.get? c = some w → w.IsShort) (hv : v.IsShort)
    (h : v.evaluate grid path = .ok value) : (Value.simple value).IsShort := by
  induction path, v using evaluate_induction grid generalizing value with
  | simple path value' =>
      obtain rfl := Except.ok.inj ((evaluate_simple value').symm.trans h)
      exact hv
  | outside path c hc => simp [evaluate_outside hc] at h
  | cycle path c w hc hmem => simp [evaluate_cycle hc hmem] at h
  | enter path c w hc hmem ih =>
      rw [evaluate_enter hc hmem] at h
      exact ih (hgrid c w hc) h
  | call path name operands ih =>
      rw [evaluate_call] at h
      obtain ⟨values, hvalues, h⟩ := Except.bind_eq_ok_iff.mp h
      obtain ⟨f, -, h⟩ := Except.bind_eq_ok_iff.mp h
      obtain ⟨x, y, rfl, hcombine⟩ := Function.apply_eq_ok_iff.mp h
      obtain ⟨u, w, rfl, hx, hy⟩ := exists_pair_of_evaluateEach hvalues
      have hoperand : ∀ w' ∈ [u, w], w'.IsShort := fun w' hw x p hx => hv x p (.operand hw hx)
      exact isShort_of_combine (ih u (by simp) (hoperand u (by simp)) hx)
        (ih w (by simp) (hoperand w (by simp)) hy) hcombine

end Value

namespace Grid

variable {grid after : Grid} {c start : Cell} {v : Value} {name pattern : String}
  {patch : Block Value}

def Known (grid : Grid) : Prop :=
  ∀ c v, grid.get? c = some v → v.Known

/-- A change by rows of values. One that is made by way of a calculator may find its index
in any state. -/
inductive Change where
  | write (start : Cell) (rows : List (List Value))
  | apply (start : Cell) (name : String) (rows : List (List Value))
  | recalculate (index : Dependencies) (start : Cell) (name : String) (rows : List (List Value))
      (tolerance : Binary64)

def Change.rows : Change → List (List Value)
  | .write _ rows => rows
  | .apply _ _ rows => rows
  | .recalculate _ _ _ rows _ => rows

/-- The grid as a change leaves it, made or not. -/
def change (grid : Grid) : Change → Grid
  | .write start rows => (grid.write start rows).toOption.getD grid
  | .apply start name rows => (grid.apply start name rows).toOption.getD grid
  | .recalculate index start name rows tolerance =>
      ((Calculator.mk (some grid) index).recalculate start name rows tolerance).calculator.grid.getD
        grid

theorem stored_of_write {rows : List (List Value)} (h : grid.write start rows = .ok after)
    (hv : after.get? c = some v) :
    grid.get? c = some v ∨ ∃ row ∈ rows, v ∈ row := by
  obtain ⟨block, hblock, h⟩ := Except.bind_eq_ok_iff.mp h
  split at h
  next =>
      obtain rfl := Except.ok.inj h
      exact .inl hv
  next =>
      obtain ⟨_, -, h⟩ := Except.bind_eq_ok_iff.mp h
      obtain rfl := Except.ok.inj h
      rw [get?_overlay, Option.map_eq_some_iff] at hv
      obtain ⟨old, hold, hv⟩ := hv
      cases hentry : block.get? (c.offset (-start.row) (-start.column)) with
      | none =>
          rw [hentry, Option.getD_none] at hv
          exact .inl (hv ▸ hold)
      | some w =>
          rw [hentry, Option.getD_some] at hv
          exact .inr (Block.exists_mem_of_ofRows hblock (hv ▸ hentry))

/-- What is stored by an application of rows was there before, or it is a result of a function
on the cell and one of the entries. -/
theorem stored_of_applyBlock {rows : List (List Value)} (hpatch : Block.ofRows rows = .ok patch)
    (h : grid.applyBlock start name patch = .ok after) (hv : after.get? c = some v) :
    grid.get? c = some v ∨ ∃ row ∈ rows, ∃ entry ∈ row, ∃ f value,
      grid.combined f c entry = .ok value ∧ v = .simple value := by
  by_cases hc : c ∈ start.rectangle patch.rows patch.columns
  · obtain ⟨f, entry, value, htarget, hvalue, rfl⟩ := exists_combined_of_applyBlock h hc hv
    obtain ⟨i, j, hentry, -⟩ := mem_targets_iff.mp htarget
    obtain ⟨row, hrow, hmem⟩ := Block.exists_mem_of_ofRows hpatch hentry
    exact .inr ⟨row, hrow, entry, hmem, f, value, hvalue, rfl⟩
  · exact .inl ((writtenAt_of_applyBlock h).stored c hc ▸ hv)

/-- A change leaves in a cell what was there, one of its values, or a result that comes of
one. -/
theorem stored_of_change (change : Change) (hv : (grid.change change).get? c = some v) :
    grid.get? c = some v ∨ (∃ row ∈ change.rows, v ∈ row) ∨
      ∃ row ∈ change.rows, ∃ entry ∈ row, ∃ f value,
        grid.combined f c entry = .ok value ∧ v = .simple value := by
  cases change with
  | write start rows =>
      cases hwrite : grid.write start rows with
      | error fault =>
          rw [Grid.change, hwrite] at hv
          exact .inl hv
      | ok after =>
          rw [Grid.change, hwrite] at hv
          exact (stored_of_write hwrite hv).imp_right .inl
  | apply start name rows =>
      cases happly : grid.apply start name rows with
      | error fault =>
          rw [Grid.change, happly] at hv
          exact .inl hv
      | ok after =>
          rw [Grid.change, happly] at hv
          obtain ⟨patch, hpatch, happly⟩ := Except.bind_eq_ok_iff.mp happly
          exact (stored_of_applyBlock hpatch happly hv).imp_right .inr
  | recalculate index start name rows tolerance =>
      cases happly : Calculator.applyPatch grid index start name rows with
      | error fault =>
          rw [Grid.change, Calculator.recalculate_of_error rfl happly] at hv
          exact .inl hv
      | ok applied =>
          rw [Grid.change, Calculator.recalculate_of_ok rfl happly] at hv
          obtain ⟨patch, readers, entries, after, hpatch, -, -, hafter, rfl⟩ :=
            Calculator.applyPatch_eq_ok_iff.mp happly
          exact (stored_of_applyBlock hpatch hafter hv).imp_right .inr

theorem known_of_ofText {texts : List (List String)} (h : ofText pattern texts = .ok grid) :
    grid.Known := by
  intro c v hv
  obtain ⟨_, -, h⟩ := Except.bind_eq_ok_iff.mp h
  obtain ⟨rows, hrows, h⟩ := Except.bind_eq_ok_iff.mp h
  rw [Except.mapError_eq_ok_iff, readRows] at hrows
  obtain ⟨row, hrow, hmem⟩ := Block.exists_mem_of_ofRows h hv
  obtain ⟨texts, -, htexts⟩ := Except.exists_source_of_mapM hrows hrow
  obtain ⟨text, -, hread⟩ := Except.exists_source_of_mapM htexts hmem
  exact Value.known_of_read hread

theorem Known.isShort_of_resolve (h : grid.Known) (hv : v.IsShort) {value : Simple}
    (hvalue : v.resolve grid = .ok value) : (Value.simple value).IsShort := by
  rw [Value.resolve_eq_evaluate] at hvalue
  exact Value.isShort_of_evaluate (fun c w hw => (h c w hw).short) hv hvalue

theorem Known.change (h : grid.Known) {change : Change}
    (hrows : ∀ row ∈ change.rows, ∀ v ∈ row, v.Known) : (grid.change change).Known := by
  intro c v hv
  rcases stored_of_change change hv with
    hold | ⟨row, hrow, hmem⟩ | ⟨row, hrow, entry, hmem, f, value, hvalue, rfl⟩
  · exact h c v hold
  · exact hrows row hrow v hmem
  · obtain ⟨current, hcurrent, hvalue⟩ := Except.bind_eq_ok_iff.mp hvalue
    obtain ⟨operand, hoperand, hvalue⟩ := Except.bind_eq_ok_iff.mp hvalue
    exact Value.known_simple (Value.isShort_of_combine
      (h.isShort_of_resolve (Value.isShort_reference c) hcurrent)
      (h.isShort_of_resolve (hrows row hrow entry hmem).short hoperand) hvalue)

end Grid

mutual

/-- The grid was made of texts and then changed by rows of values that were supplied. -/
inductive Grid.Arises : Grid → Prop where
  | ofText {pattern : String} {texts : List (List String)} {grid : Grid} :
      Grid.ofText pattern texts = .ok grid → Grid.Arises grid
  | change {grid : Grid} {change : Grid.Change} :
      Grid.Arises grid → (∀ row ∈ change.rows, ∀ v ∈ row, Value.Supplied v) →
      Grid.Arises (grid.change change)

/-- What the rows of a change may be made of: what texts are read as, and what values resolve
to over grids that arise so. A value may be put together in any way to be resolved, but the
floats in it were supplied. -/
inductive Value.Supplied : Value → Prop where
  | read {pattern text : String} {v : Value} : Value.read pattern text = .ok v → Value.Supplied v
  | resolved {grid : Grid} {v : Value} {value : Simple} :
      Grid.Arises grid →
      (∀ x p, v.Contains (.simple (.float x p)) → Value.Supplied (.simple (.float x p))) →
      v.resolve grid = .ok value → Value.Supplied (.simple value)

end

mutual

theorem Grid.Arises.known : ∀ {grid : Grid}, grid.Arises → grid.Known
  | _, .ofText h => Grid.known_of_ofText h
  | _, .change h hrows =>
      Grid.Known.change h.known fun row hrow v hv => (hrows row hrow v hv).known

theorem Value.Supplied.known : ∀ {v : Value}, v.Supplied → v.Known
  | _, .read h => Value.known_of_read h
  | _, .resolved hgrid hfloats h =>
      Value.known_simple (hgrid.known.isShort_of_resolve
        (fun x p hx => (hfloats x p hx).known.short x p (.self _)) h)

end

end Worksheet
