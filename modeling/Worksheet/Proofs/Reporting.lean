import Mathlib
import Worksheet.Proofs.Calculation
import Worksheet.Proofs.Known
import Worksheet.Proofs.WellKinded

/-!
# What a grid of known functions reports

A cell of a grid that comes of texts resolves, or fails in one of a few ways, none of
which is that a function is not known. No float that is met on the way has more decimal
places than can be read, so that texts can always be joined. What is stored and how it
fails can be displayed, as long as the coordinates have numerals.
-/

namespace Worksheet

namespace Value

variable {v : Value} {operands : List Value}

theorem exists_displayEach (h : ∀ v ∈ operands, ∃ text, v.display = .ok text) :
    ∃ texts, displayEach operands = .ok texts := by
  induction operands with
  | nil => exact ⟨[], by rw [displayEach]⟩
  | cons v operands ih =>
      obtain ⟨⟨text, htext⟩, hrest⟩ := List.forall_mem_cons.mp h
      obtain ⟨texts, htexts⟩ := ih hrest
      exact ⟨text :: texts, by rw [displayEach, htext, htexts]; rfl⟩

/-- Whatever precision is read can be displayed. -/
theorem IsShort.lt_limit {x : Binary32} {p : Nat} (h : v.IsShort)
    (hx : v.Contains (.simple (.float x p))) : p < PrecisionFault.limit :=
  Nat.lt_of_le_of_lt (h x p hx) (by decide)

/-- A value is displayed if its cells have labels and its floats are short. -/
theorem exists_display (hlabels : ∀ c, v.Contains (.reference c) → c.IsLabelled)
    (hshort : v.IsShort) : ∃ text, v.display = .ok text := by
  induction v using operand_induction with
  | simple value =>
      cases value with
      | float x p =>
          exact ⟨_, by rw [display, Simple.display, if_pos (hshort.lt_limit (.self _))]; rfl⟩
      | null => exact ⟨_, by rw [display]; rfl⟩
      | integer n => exact ⟨_, by rw [display]; rfl⟩
      | text s => exact ⟨_, by rw [display]; rfl⟩
      | dateTime s t => exact ⟨_, by rw [display]; rfl⟩
  | reference cell =>
      obtain ⟨text, htext⟩ := Cell.isLabelled_iff_exists_label.mp (hlabels cell (.self _))
      exact ⟨_, by rw [display, Cell.bracketedLabel, htext]; rfl⟩
  | call name operands ih =>
      obtain ⟨texts, htexts⟩ := exists_displayEach fun v hv =>
        ih v hv (fun c hc => hlabels c (.operand hv hc)) fun x p hx => hshort x p (.operand hv hx)
      exact ⟨_, by rw [display, htexts]; rfl⟩

end Value

namespace Failure

variable {failure : Failure}

/-- The failures that a cell of known functions can end in. -/
def isOrdinary : Failure → Bool
  | .outOfBounds .. => true
  | .cycle _ => true
  | .divisionByZero => true
  | .overflow _ => true
  | failure => failure.isInvalidOperands

theorem exists_message_of_isInvalidOperands (h : failure.isInvalidOperands)
    (hraised : failure.raised = failure) : ∃ text, failure.message = .ok (some text) := by
  obtain ⟨text, htext⟩ := exists_message_raised failure
  rw [hraised] at htext
  cases failure with
  | arity => exact ⟨_, rfl⟩
  | unresolvedOperand =>
      obtain ⟨shown, hshown, -⟩ := Except.bind_eq_ok_iff.mp htext
      exact ⟨_, by rw [message, hshown]; rfl⟩
  | notConvertible =>
      obtain ⟨shown, hshown, -⟩ := Except.bind_eq_ok_iff.mp htext
      exact ⟨_, by rw [message, hshown]; rfl⟩
  | notArithmetic =>
      obtain ⟨shown, hshown, hrest⟩ := Except.bind_eq_ok_iff.mp htext
      obtain ⟨shown', hshown', -⟩ := Except.bind_eq_ok_iff.mp hrest
      exact ⟨_, by rw [message, hshown, Except.ok_bind, hshown']; rfl⟩
  | _ => cases h

end Failure

namespace Grid

variable {grid : Grid} {path : List Cell} {c : Cell} {v w : Value} {value : Simple}
  {failure : Failure}

/-- The value stands in a cell of the grid, at some depth. -/
def Holds (grid : Grid) (v : Value) : Prop :=
  ∃ c w, grid.get? c = some w ∧ w.Contains v

theorem Holds.operand {name : String} {operands : List Value}
    (h : grid.Holds (.call name operands)) (hv : v ∈ operands) : grid.Holds v := by
  obtain ⟨c, w, hw, hcall⟩ := h
  exact ⟨c, w, hw, hcall.trans (.operand hv (.self v))⟩

theorem Known.of_holds (h : grid.Known) (hv : grid.Holds v) : v.Known := by
  obtain ⟨c, w, hw, hcontains⟩ := hv
  exact {
    named := fun name operands hcall => (h c w hw).named name operands (hcontains.trans hcall)
    nonneg := fun d hd => (h c w hw).nonneg d (hcontains.trans hd)
    short := fun x p hx => (h c w hw).short x p (hcontains.trans hx) }

/-- How a cell can fail to resolve: by operands that do not go together, by a reference out
of the grid, by a cycle, by a divisor of zero or by a sum that is too large. -/
inductive Fails (grid : Grid) : Failure → Prop where
  | invalidOperands {failure : Failure} :
      failure.isInvalidOperands → failure.raised = failure → Fails grid failure
  | outside {cell : Cell} : grid.Holds (.reference cell) → Fails grid (grid.outside cell)
  | cycle (chain : List Cell) : Fails grid (.cycle chain)
  | divisionByZero : Fails grid .divisionByZero
  | overflow (m n : Integer) : Fails grid (.overflow (m.toInt + n.toInt))

variable {a b : Simple} {f : Function}

theorem fails_of_combine (ha : (Value.simple a).IsShort) (hb : (Value.simple b).IsShort)
    (h : f.combine a b = .error failure) : grid.Fails failure := by
  rcases Function.faults_of_combine h with ⟨hinvalid, -⟩ | hfaults
  · exact .invalidOperands hinvalid (Function.byOperands_of_combine h).raised
  · cases hfaults with
    | overflow => exact .overflow _ _
    | divisionByZero => exact .divisionByZero
    | @undisplayable _ _ x p hfloat hp =>
        have hlt : p < PrecisionFault.limit := by
          rcases hfloat with rfl | rfl
          · exact ha.lt_limit (.self _)
          · exact hb.lt_limit (.self _)
        exact absurd hp (Nat.not_le.mpr hlt)

/-- Whatever is evaluated is stored, apart from the cell that the resolution starts at. -/
theorem fails_of_evaluate (hgrid : grid.Known)
    (hv : grid.Holds v ∨ ∃ c, v = .reference c ∧ grid.InBounds c)
    (h : v.evaluate grid path = .error failure) : grid.Fails failure := by
  induction path, v using Value.evaluate_induction grid generalizing failure with
  | simple path value => simp at h
  | outside path c hc =>
      rw [Value.evaluate_outside hc] at h
      obtain rfl := Except.error.inj h
      rcases hv with hv | ⟨d, hd, hin⟩
      · exact .outside hv
      · obtain rfl := Value.reference.inj hd
        exact absurd hin (Block.get?_eq_none_iff.mp hc)
  | cycle path c v hc hmem =>
      rw [Value.evaluate_cycle hc hmem] at h
      obtain rfl := Except.error.inj h
      exact .cycle _
  | enter path c v hc hmem ih =>
      rw [Value.evaluate_enter hc hmem] at h
      exact ih (.inl ⟨c, v, hc, .self v⟩) h
  | call path name operands ih =>
      have hcall : grid.Holds (.call name operands) := by
        rcases hv with hv | ⟨c, hc, -⟩
        · exact hv
        · cases hc
      have hshort : ∀ w ∈ operands, ∀ x, w.evaluate grid path = .ok x →
          (Value.simple x).IsShort := fun w hw x =>
        Value.isShort_of_evaluate (fun c u hu => (hgrid c u hu).short)
          (hgrid.of_holds (hcall.operand hw)).short
      obtain ⟨f, hf⟩ := (hgrid.of_holds hcall).named name operands (.self _)
      rw [Value.evaluate_call] at h
      rcases Except.bind_eq_error_iff.mp h with h | ⟨values, hvalues, h⟩
      · obtain ⟨w, hw, hfailure⟩ := Value.exists_of_evaluateEach_eq_error h
        exact ih w hw (.inl (hcall.operand hw)) hfailure
      · rw [Function.applyNamed, Function.named_eq_ok_iff.mpr hf, Except.ok_bind] at h
        rcases Function.apply_eq_error h with ⟨x, y, rfl, hcombine⟩ | ⟨-, hinvalid⟩
        · obtain ⟨u, w, rfl, hx, hy⟩ := Value.exists_pair_of_evaluateEach hvalues
          exact fails_of_combine (hshort u (by simp) x hx) (hshort w (by simp) y hy) hcombine
        · exact .invalidOperands hinvalid (Function.raised_of_apply h)

/-- The coordinates of the grid and of the cells that it refers to can be written as
numerals. -/
structure Moderate (grid : Grid) : Prop where
  rows : grid.rows ≤ 10 ^ Numeral.limit
  references : ∀ c, grid.Holds (.reference c) →
    c.row < (10 ^ Numeral.limit : Nat) ∧ c.column < (10 ^ Numeral.limit : Nat)

namespace Moderate

variable (h : grid.Moderate)

include h

theorem isLabelled (hc : grid.InBounds c) : c.IsLabelled := by
  obtain ⟨hrow, hrow', hcolumn, -⟩ := hc
  have hlt : c.row < (10 ^ Numeral.limit : Nat) :=
    Int.lt_of_lt_of_le hrow' (Int.ofNat_le.mpr h.rows)
  exact ⟨hrow, hcolumn, Numeral.isWritable_of_lt hrow hlt⟩

theorem isWritable (hgrid : grid.Known) (hc : grid.Holds (.reference c)) :
    (0 ≤ c.row ∧ 0 ≤ c.column) ∧ Numeral.IsWritable c.row ∧ Numeral.IsWritable c.column := by
  have hnonneg := (hgrid.of_holds hc).nonneg c (.self _)
  obtain ⟨hrow, hcolumn⟩ := h.references c hc
  exact ⟨hnonneg, Numeral.isWritable_of_lt hnonneg.1 hrow,
    Numeral.isWritable_of_lt hnonneg.2 hcolumn⟩

theorem exists_display (hgrid : grid.Known) (hv : grid.get? c = some v) :
    ∃ text, v.display = .ok text := by
  refine Value.exists_display (fun d hd => ?_) (hgrid c v hv).short
  obtain ⟨⟨hrow, hcolumn⟩, hwritable, -⟩ := h.isWritable hgrid ⟨c, v, hv, hd⟩
  exact ⟨hrow, hcolumn, hwritable⟩

theorem isOrdinary (hgrid : grid.Known) (hfails : grid.Fails failure) : failure.isOrdinary := by
  cases hfails with
  | invalidOperands hinvalid => cases failure <;> first | rfl | exact hinvalid
  | outside hcell =>
      obtain ⟨-, hrow, hcolumn⟩ := h.isWritable hgrid hcell
      rw [outside_eq hrow hcolumn]
      rfl
  | cycle | divisionByZero | overflow => rfl

theorem exists_message (hgrid : grid.Known) (hfails : grid.Fails failure)
    (hchain : ∀ chain, failure = .cycle chain → ∀ c ∈ chain, grid.InBounds c) :
    ∃ text, failure.message = .ok (some text) := by
  cases hfails with
  | invalidOperands hinvalid hraised =>
      exact Failure.exists_message_of_isInvalidOperands hinvalid hraised
  | outside hcell =>
      obtain ⟨-, hrow, hcolumn⟩ := h.isWritable hgrid hcell
      rw [outside_eq hrow hcolumn]
      obtain ⟨row, hrow⟩ := Numeral.isWritable_iff_exists_write.mp hrow
      obtain ⟨column, hcolumn⟩ := Numeral.isWritable_iff_exists_write.mp hcolumn
      exact ⟨_, by rw [Failure.message, hrow, hcolumn]; rfl⟩
  | cycle chain =>
      obtain ⟨labels, hlabels⟩ : ∃ labels, chain.mapM Cell.label = .ok labels :=
        Except.exists_mapM_eq_ok_iff.mpr fun c hc =>
          Cell.isLabelled_iff_exists_label.mp (h.isLabelled (hchain chain rfl c hc))
      exact ⟨_, by rw [Failure.message, hlabels]; rfl⟩
  | divisionByZero => exact ⟨_, rfl⟩
  | overflow m n =>
      obtain ⟨result, hresult⟩ := Numeral.isWritable_iff_exists_write.mp
        (Numeral.isWritable_of_fitsWord (CommonForm.fitsWord_add m n))
      exact ⟨_, by rw [Failure.message, hresult]; rfl⟩

end Moderate

theorem resolve_of_inBounds (hc : grid.InBounds c) :
    grid.resolve c = (Value.reference c).resolve grid := by
  rw [resolve, checkBounds_eq_ok_iff.mpr hc, Except.ok_bind]

theorem fails_of_resolve (hgrid : grid.Known) (hc : grid.InBounds c)
    (h : grid.resolve c = .error failure) :
    grid.Fails failure ∧ ∀ chain, failure = .cycle chain → ∀ d ∈ chain, grid.InBounds d := by
  rw [resolve_of_inBounds hc, Value.resolve_eq_evaluate] at h
  refine ⟨fails_of_evaluate hgrid (.inr ⟨c, rfl, hc⟩) h, ?_⟩
  rintro chain rfl d hd
  obtain ⟨hcycle, -⟩ := Value.isCycle_of_evaluate h List.nodup_nil Value.continues_nil
  exact inBounds_of_transGen (hcycle.transGen hd)

/-- A rectangle of the grid resolves to simple values, or fails as one of its cells does. -/
theorem outcome_of_resolveRegion (hgrid : grid.Known) {topLeft bottomRight : Cell}
    (htop : grid.InBounds topLeft) (hbottom : grid.InBounds bottomRight)
    (hrows : topLeft.row ≤ bottomRight.row) (hcolumns : topLeft.column ≤ bottomRight.column) :
    (∃ region, grid.resolveRegion topLeft bottomRight = .ok region ∧
      ∀ v ∈ region.values, v.isSimple) ∨
    ∃ c failure, grid.resolveRegion topLeft bottomRight = .error (.locatedAt c failure) ∧
      grid.InBounds c ∧ grid.resolve c = .error failure ∧ grid.Fails failure := by
  cases hresult : grid.resolveRegion topLeft bottomRight with
  | ok region =>
      refine .inl ⟨region, rfl, fun v hv => ?_⟩
      rw [resolveRegion_eq_map htop hbottom hrows hcolumns, Except.map_eq_ok_iff] at hresult
      obtain ⟨entries, -, rfl⟩ := hresult
      obtain ⟨entry, -, rfl⟩ := List.mem_map.mp hv
      rfl
  | error fault =>
      obtain ⟨c, failure, rfl, hbetween, -, hfailure⟩ :=
        (resolveRegion_eq_error_iff htop hbottom hrows hcolumns).mp hresult
      have hc : grid.InBounds c := by
        obtain ⟨hrow, -, hcolumn, -⟩ := htop
        obtain ⟨-, hrow', -, hcolumn'⟩ := hbottom
        obtain ⟨_, _, _, _⟩ := hbetween
        exact ⟨by omega, by omega, by omega, by omega⟩
      rw [← resolve_of_inBounds hc] at hfailure
      exact .inr ⟨c, failure, rfl, hc, hfailure, (fails_of_resolve hgrid hc hfailure).1⟩

/-- How a cell fails can be displayed, with and without the cell. -/
theorem Moderate.exists_report (h : grid.Moderate) (hgrid : grid.Known) (hc : grid.InBounds c)
    (hfailure : grid.resolve c = .error failure) :
    (∃ text, failure.message = .ok (some text)) ∧
      ∃ text, (Fault.locatedAt c failure).message = .ok (some text) := by
  obtain ⟨hfails, hchain⟩ := fails_of_resolve hgrid hc hfailure
  obtain ⟨text, htext⟩ := h.exists_message hgrid hfails hchain
  obtain ⟨label, hlabel⟩ := Cell.isLabelled_iff_exists_label.mp (h.isLabelled hc)
  refine ⟨⟨text, htext⟩, ?_⟩
  unfold Fault.locatedAt
  split
  · exact ⟨_, by rw [Fault.message, htext, hlabel]; rfl⟩
  · exact ⟨text, by rw [Fault.message, htext]⟩

/-- A cell of a grid that comes of texts resolves or fails in one of the listed ways, and so
does every rectangle, at one of its cells. Where the coordinates have numerals, these are
ordinary failures, and whatever is stored or fails can be displayed. -/
theorem arises_reports (h : grid.Arises) :
    (∀ c v, grid.get? c = some v → v.Known) ∧
    (∀ c, grid.InBounds c →
      (∃ value, grid.resolve c = .ok value) ∨
        ∃ failure, grid.resolve c = .error failure ∧ grid.Fails failure) ∧
    (∀ topLeft bottomRight, grid.InBounds topLeft → grid.InBounds bottomRight →
      topLeft.row ≤ bottomRight.row → topLeft.column ≤ bottomRight.column →
        (∃ region, grid.resolveRegion topLeft bottomRight = .ok region ∧
          ∀ v ∈ region.values, v.isSimple) ∨
        ∃ c failure, grid.resolveRegion topLeft bottomRight = .error (.locatedAt c failure) ∧
          grid.InBounds c ∧ grid.resolve c = .error failure ∧ grid.Fails failure) ∧
    (grid.Moderate →
      (∀ failure, grid.Fails failure → failure.isOrdinary) ∧
      (∀ c v, grid.get? c = some v → ∃ text, v.display = .ok text) ∧
      ∀ c failure, grid.InBounds c → grid.resolve c = .error failure →
        (∃ text, failure.message = .ok (some text)) ∧
          ∃ text, (Fault.locatedAt c failure).message = .ok (some text)) := by
  have hknown := h.known
  refine ⟨hknown, fun c hc => ?_, fun topLeft bottomRight => outcome_of_resolveRegion hknown,
    fun hmoderate => ⟨fun failure => hmoderate.isOrdinary hknown,
      fun c v => hmoderate.exists_display hknown,
      fun c failure => hmoderate.exists_report hknown⟩⟩
  cases hresult : grid.resolve c with
  | ok value => exact .inl ⟨value, rfl⟩
  | error failure => exact .inr ⟨failure, rfl, (fails_of_resolve hknown hc hresult).1⟩

/-- A text that is joined of the cell beside it and of one that there is not. -/
def joinedOutside : Grid :=
  ⟨1, 2, #v[#v[.call "CONCAT" [.reference ⟨0, 1⟩, .reference ⟨0, 2⟩],
    .simple (.integer Integer.one)]]⟩

theorem stored_joinedOutside (h : joinedOutside.get? c = some v) :
    v = .call "CONCAT" [.reference ⟨0, 1⟩, .reference ⟨0, 2⟩] ∨
      v = .simple (.integer Integer.one) := by
  have hrows : Block.ofRows [[.call "CONCAT" [.reference ⟨0, 1⟩, .reference ⟨0, 2⟩],
      .simple (.integer Integer.one)]] = .ok joinedOutside := rfl
  simpa using Block.exists_mem_of_ofRows hrows h

theorem moderate_joinedOutside : joinedOutside.Moderate where
  rows := Nat.one_le_pow _ _ (by decide)
  references c hc := by
    obtain ⟨d, w, hw, hcontains⟩ := hc
    have hc : c = ⟨0, 1⟩ ∨ c = ⟨0, 2⟩ := by
      rcases stored_joinedOutside hw with rfl | rfl
      · simpa [Value.contains_call_iff, Value.contains_reference_iff] using hcontains
      · simp [Value.contains_simple_iff] at hcontains
    have hlimit : 10 ^ 1 ≤ 10 ^ Numeral.limit := Nat.pow_le_pow_right (by decide) (by decide)
    rcases hc with rfl | rfl <;> constructor <;> simp only <;> omega

theorem arises_joinedOutside : joinedOutside.Arises :=
  @Arises.ofText Value.readingPattern [["CONCAT([B0],[C0])", "1"]] _ (by
    simp only [ofText, readRows, List.mapM_cons, List.mapM_nil, Value.read_readingPattern]
    cbv)

/-- The cell that there is not is reported at the text. -/
theorem arises_reports_joinedOutside :
    joinedOutside.Arises ∧ joinedOutside.Moderate ∧
      joinedOutside.resolve ⟨0, 0⟩ = .error (.outOfBounds ⟨0, 2⟩ 1 2) ∧
      (∃ text, (Value.call "CONCAT" [.reference ⟨0, 1⟩, .reference ⟨0, 2⟩]).display = .ok text) ∧
      ∃ text, (Fault.locatedAt ⟨0, 0⟩ (.outOfBounds ⟨0, 2⟩ 1 2)).message = .ok (some text) := by
  have hstored : joinedOutside.get? ⟨0, 0⟩ =
      some (.call "CONCAT" [.reference ⟨0, 1⟩, .reference ⟨0, 2⟩]) := rfl
  have hfailure : joinedOutside.resolve ⟨0, 0⟩ = .error (.outOfBounds ⟨0, 2⟩ 1 2) := by cbv
  obtain ⟨-, -, -, hmoderate⟩ := arises_reports arises_joinedOutside
  obtain ⟨-, hdisplay, hmessage⟩ := hmoderate moderate_joinedOutside
  exact ⟨arises_joinedOutside, moderate_joinedOutside, hfailure, hdisplay _ _ hstored,
    (hmessage _ _ (by decide) hfailure).2⟩

end Grid

end Worksheet
