import Worksheet.Proofs.Cycle
import Worksheet.Proofs.Kinds

/-!
# Kinds of formulas

The kind of a formula is found without resolving it, from the kinds of what it is
made of. A formula that has a kind resolves to a value of that kind, unless the
numbers themselves stand in the way; one that has none does not resolve, although
a failure of numbers may come before that of kinds.
-/

namespace Worksheet

open Relation (TransGen)

namespace Value

variable {grid : Grid} {path : List Cell} {v w : Value} {j k : SimpleKind} {value : Simple}
  {failure : Failure}

/-- To resolve the first value may take resolving the second: it is the value
itself, an operand, or what is stored in a cell that is referred to. -/
inductive Involves (grid : Grid) : Value → Value → Prop where
  | self (v : Value) : Involves grid v v
  | operand {name : String} {operands : List Value} {v w : Value} :
      v ∈ operands → Involves grid v w → Involves grid (.call name operands) w
  | stored {cell : Cell} {v w : Value} :
      grid.get? cell = some v → Involves grid v w → Involves grid (.reference cell) w

/-- All references lead to cells of the grid, none of them round in a circle, and
all functions are known. -/
structure Grounded (grid : Grid) (v : Value) : Prop where
  inBounds : ∀ c, v.Reaches grid c → grid.InBounds c
  acyclic : ∀ c, v.Reaches grid c → ¬ TransGen grid.Reads c c
  named : ∀ name operands, v.Involves grid (.call name operands) → Function.isSupported name

/-- The kind of a formula, found from the kinds of its parts. -/
inductive HasKind (grid : Grid) : Value → SimpleKind → Prop where
  | simple (value : Simple) : HasKind grid (.simple value) value.kind
  | reference {cell : Cell} {v : Value} {k : SimpleKind} :
      grid.get? cell = some v → HasKind grid v k → HasKind grid (.reference cell) k
  | call {name : String} {f : Function} {a b : Value} {i j k : SimpleKind} :
      Function.ofName? name = some f → HasKind grid a i → HasKind grid b j →
      f.kind? i j = some k → HasKind grid (.call name [a, b]) k

/-- The failure is that of a function whose operands are of the right kinds. -/
def Blames (grid : Grid) (v : Value) (failure : Failure) : Prop :=
  ∃ name f a b x y, v.Involves grid (.call name [a, b]) ∧ Function.ofName? name = some f ∧
    a.resolve grid = .ok x ∧ b.resolve grid = .ok y ∧ f.Faults x y failure

theorem HasKind.unique (hj : v.HasKind grid j) (hk : v.HasKind grid k) : j = k := by
  induction hj generalizing k with
  | simple value =>
      cases hk
      rfl
  | reference hv _ ih =>
      cases hk with
      | reference hv' hk =>
          obtain rfl := Option.some.inj (hv.symm.trans hv')
          exact ih hk
  | call hname _ _ hkind iha ihb =>
      cases hk with
      | call hname' ha hb hkind' =>
          obtain rfl := Option.some.inj (hname.symm.trans hname')
          obtain rfl := iha ha
          obtain rfl := ihb hb
          exact Option.some.inj (hkind.symm.trans hkind')

/-- Two results come from two operands. -/
theorem exists_pair_of_evaluateEach {operands : List Value} {x y : Simple}
    (h : evaluateEach grid path operands = .ok [x, y]) :
    ∃ a b, operands = [a, b] ∧ a.evaluate grid path = .ok x ∧ b.evaluate grid path = .ok y := by
  rw [evaluateEach_eq_mapM, Except.mapM_eq_ok_iff] at h
  obtain ⟨a, rest, hx, hrest, rfl⟩ := List.forall₂_cons_right_iff.mp h
  obtain ⟨b, rest, hy, hnil, rfl⟩ := List.forall₂_cons_right_iff.mp hrest
  obtain rfl := List.forall₂_nil_right_iff.mp hnil
  exact ⟨a, b, rfl, hx, hy⟩

/-- What resolves has a kind, that of the value found. -/
theorem hasKind_of_evaluate (h : v.evaluate grid path = .ok value) :
    v.HasKind grid value.kind := by
  induction path, v using evaluate_induction grid generalizing value with
  | simple path x =>
      obtain rfl : x = value := by simpa using h
      exact .simple x
  | outside path c hc => simp [evaluate_outside hc] at h
  | cycle path c v hc hmem => simp [evaluate_cycle hc hmem] at h
  | enter path c v hc hmem ih =>
      rw [evaluate_enter hc hmem] at h
      exact .reference hc (ih h)
  | call path name operands ih =>
      rw [evaluate_call, Except.bind_eq_ok_iff] at h
      obtain ⟨values, hvalues, h⟩ := h
      obtain ⟨f, hname, h⟩ := Except.bind_eq_ok_iff.mp h
      obtain ⟨x, y, rfl, hcombine⟩ := Function.apply_eq_ok_iff.mp h
      obtain ⟨a, b, rfl, hx, hy⟩ := exists_pair_of_evaluateEach hvalues
      exact .call (Function.named_eq_ok_iff.mp hname) (ih a (by simp) hx) (ih b (by simp) hy)
        (Function.kind?_of_combine hcombine)

theorem resolve_of_evaluate (h : v.evaluate grid path = .ok value) :
    v.resolve grid = .ok value := by
  rw [resolve_eq_evaluate]
  exact evaluate_eq_ok_of_disjoint h fun _ _ => List.not_mem_nil

namespace Grounded

theorem operand {name : String} {operands : List Value}
    (h : (Value.call name operands).Grounded grid) (hv : v ∈ operands) : v.Grounded grid where
  inBounds c hc := h.inBounds c (reaches_call_iff.mpr ⟨v, hv, hc⟩)
  acyclic c hc := h.acyclic c (reaches_call_iff.mpr ⟨v, hv, hc⟩)
  named function arguments hcall := h.named function arguments (.operand hv hcall)

theorem stored {cell : Cell} (h : (Value.reference cell).Grounded grid)
    (hv : grid.get? cell = some v) : v.Grounded grid where
  inBounds c hc := h.inBounds c (hc.of_stored hv)
  acyclic c hc := h.acyclic c (hc.of_stored hv)
  named function arguments hcall := h.named function arguments (.stored hv hcall)

end Grounded

namespace Blames

theorem operand {name : String} {operands : List Value} (hv : v ∈ operands)
    (h : v.Blames grid failure) : (Value.call name operands).Blames grid failure := by
  obtain ⟨function, f, a, b, x, y, hcall, hrest⟩ := h
  exact ⟨function, f, a, b, x, y, .operand hv hcall, hrest⟩

theorem stored {cell : Cell} (hv : grid.get? cell = some v) (h : v.Blames grid failure) :
    (Value.reference cell).Blames grid failure := by
  obtain ⟨function, f, a, b, x, y, hcall, hrest⟩ := h
  exact ⟨function, f, a, b, x, y, .stored hv hcall, hrest⟩

end Blames

/-- A known function fails on what its operands resolve to by their number, by
their kinds or by what they are. -/
theorem blames_of_applyNamed {name : String} {operands : List Value} {values : List Simple}
    (hvalues : evaluateEach grid path operands = .ok values)
    (hknown : Function.isSupported name) (h : Function.applyNamed name values = .error failure) :
    failure.isInvalidOperands ∧ (∀ k, ¬ (Value.call name operands).HasKind grid k) ∨
      (Value.call name operands).Blames grid failure := by
  obtain ⟨f, hname⟩ := Function.isSupported_iff_exists_ofName?.mp hknown
  rw [Function.applyNamed, Function.named_eq_ok_iff.mpr hname, Except.ok_bind] at h
  rcases Function.apply_eq_error h with ⟨x, y, rfl, hcombine⟩ | ⟨hlength, hinvalid⟩
  · obtain ⟨a, b, rfl, hx, hy⟩ := exists_pair_of_evaluateEach hvalues
    rcases Function.faults_of_combine hcombine with ⟨hinvalid, hnone⟩ | hfaults
    · refine .inl ⟨hinvalid, fun k hk => ?_⟩
      cases hk with
      | call hname' ha hb hkind =>
          obtain rfl := Option.some.inj (hname.symm.trans hname')
          rw [ha.unique (hasKind_of_evaluate hx), hb.unique (hasKind_of_evaluate hy), hnone] at hkind
          cases hkind
    · exact .inr ⟨name, f, a, b, x, y, .self _, hname, resolve_of_evaluate hx,
        resolve_of_evaluate hy, hfaults⟩
  · refine .inl ⟨hinvalid, fun k hk => ?_⟩
    cases hk with
    | call => exact hlength (length_of_evaluateEach hvalues)

/-- What is grounded fails for want of a kind, or by the numbers met on the way. -/
theorem blames_of_evaluate (h : v.evaluate grid path = .error failure)
    (hv : v.Continues grid path) (hgrounded : v.Grounded grid) :
    failure.isInvalidOperands ∧ (∀ k, ¬ v.HasKind grid k) ∨ v.Blames grid failure := by
  induction path, v using evaluate_induction grid with
  | simple path x => simp at h
  | outside path c hc =>
      have hinside : grid.InBounds c := hgrounded.inBounds c (.direct (by simp))
      exact absurd hinside (Block.get?_eq_none_iff.mp hc)
  | cycle path c v hc hmem =>
      have hcycle : TransGen grid.Reads c c := hv.isTrail.transGen hmem
      exact absurd hcycle (hgrounded.acyclic c (.direct (by simp)))
  | enter path c v hc hmem ih =>
      rw [evaluate_enter hc hmem] at h
      rcases ih h (hv.stored hc) (hgrounded.stored hc) with ⟨hinvalid, hnone⟩ | hblames
      · refine .inl ⟨hinvalid, fun k hk => ?_⟩
        cases hk with
        | reference hv' hk =>
            obtain rfl := Option.some.inj (hc.symm.trans hv')
            exact hnone k hk
      · exact .inr (hblames.stored hc)
  | call path name operands ih =>
      rw [evaluate_call, Except.bind_eq_error_iff] at h
      rcases h with h | ⟨values, hvalues, h⟩
      · obtain ⟨w, hw, hfail⟩ := exists_of_evaluateEach_eq_error h
        rcases ih w hw hfail (hv.operand hw) (hgrounded.operand hw) with ⟨hinvalid, hnone⟩ | hblames
        · refine .inl ⟨hinvalid, fun k hk => ?_⟩
          cases hk with
          | call _ ha hb _ =>
              rcases List.mem_pair.mp hw with rfl | rfl
              · exact hnone _ ha
              · exact hnone _ hb
        · exact .inr (hblames.operand hw)
      · exact blames_of_applyNamed hvalues (hgrounded.named name operands (.self _)) h

/-- A formula that has a kind is grounded. -/
theorem HasKind.grounded (h : v.HasKind grid k) : v.Grounded grid := by
  induction h with
  | simple value =>
      refine ⟨fun c hc => absurd hc not_reaches_simple, fun c hc => absurd hc not_reaches_simple, ?_⟩
      intro name operands hcall
      cases hcall
  | @reference cell v k hv _ ih =>
      refine ⟨fun c hc => ?_, fun c hc hcycle => ?_, fun name operands hcall => ?_⟩
      · rcases reaches_reference_cases hv hc with rfl | hc
        · exact Block.get?_isSome_iff.mp (by simp [hv])
        · exact ih.inBounds c hc
      · rcases reaches_reference_cases hv hc with rfl | hc
        · exact ih.acyclic c ((reaches_iff_transGen hv).mpr hcycle) hcycle
        · exact ih.acyclic c hc hcycle
      · cases hcall with
        | stored hv' hcall =>
            obtain rfl := Option.some.inj (hv.symm.trans hv')
            exact ih.named name operands hcall
  | @call name f a b i j k hname _ _ _ iha ihb =>
      have hoperand : ∀ w ∈ [a, b], w.Grounded grid := by simpa using ⟨iha, ihb⟩
      refine ⟨fun c hc => ?_, fun c hc => ?_, fun function operands hcall => ?_⟩
      · obtain ⟨w, hw, hc⟩ := reaches_call_iff.mp hc
        exact (hoperand w hw).inBounds c hc
      · obtain ⟨w, hw, hc⟩ := reaches_call_iff.mp hc
        exact (hoperand w hw).acyclic c hc
      · cases hcall with
        | self => exact Function.isSupported_iff_exists_ofName?.mpr ⟨f, hname⟩
        | operand hw hcall => exact (hoperand _ hw).named function operands hcall

/-- An integer that a call resolves to is the exact sum or the floored remainder of
the integers that its operands resolve to. -/
theorem integers_of_resolve {name : String} {operands : List Value} {r : Integer}
    (h : (Value.call name operands).resolve grid = .ok (.integer r)) :
    ∃ a b, ∃ m n : Integer, operands = [a, b] ∧ a.resolve grid = .ok (.integer m) ∧
      b.resolve grid = .ok (.integer n) ∧
      (name = "ADD" ∧ r.toInt = m.toInt + n.toInt ∨
        name = "MOD" ∧ n.toInt ≠ 0 ∧ r.toInt = m.toInt.fmod n.toInt) := by
  rw [resolve_eq_evaluate, evaluate_call, Except.bind_eq_ok_iff] at h
  obtain ⟨values, hvalues, happly⟩ := h
  obtain ⟨f, hname, hf⟩ := Except.bind_eq_ok_iff.mp happly
  obtain ⟨x, y, rfl, hcombine⟩ := Function.apply_eq_ok_iff.mp hf
  obtain ⟨a, b, rfl, hx, hy⟩ := exists_pair_of_evaluateEach hvalues
  have hname' := Function.ofName?_eq_some_iff.mp (Function.named_eq_ok_iff.mp hname)
  obtain ⟨m, n, rfl, rfl, ⟨rfl, hsum⟩ | ⟨rfl, hn, hremainder⟩⟩ :=
    Function.integers_of_combine hcombine
  · exact ⟨a, b, m, n, rfl, resolve_of_evaluate hx, resolve_of_evaluate hy,
      .inl ⟨hname'.symm, hsum⟩⟩
  · exact ⟨a, b, m, n, rfl, resolve_of_evaluate hx, resolve_of_evaluate hy,
      .inr ⟨hname'.symm, hn, hremainder⟩⟩

/-- A grounded formula that has a kind resolves to a value of that kind, unless the
operands of a function make it fail. One that has no kind does not resolve. The
integers that come out are exact. -/
theorem resolve_kind (h : v.Grounded grid) :
    (∀ k, v.HasKind grid k →
      (∃ value, v.resolve grid = .ok value ∧ value.kind = k) ∨
        ∃ failure, v.resolve grid = .error failure ∧ v.Blames grid failure) ∧
    ((∀ k, ¬ v.HasKind grid k) →
      ∃ failure, v.resolve grid = .error failure ∧
        (failure.isInvalidOperands ∨ v.Blames grid failure)) ∧
    (∀ name operands (r : Integer), v = .call name operands →
      v.resolve grid = .ok (.integer r) →
      ∃ a b, ∃ m n : Integer, operands = [a, b] ∧ a.resolve grid = .ok (.integer m) ∧
        b.resolve grid = .ok (.integer n) ∧
        (name = "ADD" ∧ r.toInt = m.toInt + n.toInt ∨
          name = "MOD" ∧ n.toInt ≠ 0 ∧ r.toInt = m.toInt.fmod n.toInt)) := by
  have hfails : ∀ failure, v.resolve grid = .error failure →
      failure.isInvalidOperands ∧ (∀ k, ¬ v.HasKind grid k) ∨ v.Blames grid failure := by
    intro failure hfailure
    rw [resolve_eq_evaluate] at hfailure
    exact blames_of_evaluate hfailure continues_nil h
  have hkind : ∀ value, v.resolve grid = .ok value → v.HasKind grid value.kind := by
    intro value hvalue
    rw [resolve_eq_evaluate] at hvalue
    exact hasKind_of_evaluate hvalue
  refine ⟨fun k hk => ?_, fun hnone => ?_, ?_⟩
  · cases hresult : v.resolve grid with
    | ok value => exact .inl ⟨value, rfl, (hkind value hresult).unique hk⟩
    | error failure =>
        refine .inr ⟨failure, rfl, ?_⟩
        exact (hfails failure hresult).resolve_left fun hinvalid => hinvalid.2 k hk
  · cases hresult : v.resolve grid with
    | ok value => exact absurd (hkind value hresult) (hnone _)
    | error failure => exact ⟨failure, rfl, (hfails failure hresult).imp_left And.left⟩
  · rintro name operands r rfl
    exact integers_of_resolve

theorem zero_inRange : -2147483648 ≤ (0 : Int) ∧ (0 : Int) < 2147483648 := by
  decide

/-- The remainder by zero of the copy of a number. -/
def remainderByZero : Value :=
  .call "MOD" [.reference ⟨0, 1⟩, .simple (.integer ⟨0, zero_inRange⟩)]

/-- A remainder by zero has a kind and no value. -/
theorem resolve_kind_remainderByZero :
    remainderByZero.Grounded Grid.copyBesideLoop ∧
      remainderByZero.HasKind Grid.copyBesideLoop .integer ∧
      remainderByZero.Blames Grid.copyBesideLoop .divisionByZero := by
  have hnumber : (Value.simple (.integer Integer.one)).HasKind Grid.copyBesideLoop .integer :=
    .simple (.integer Integer.one)
  have hcopy : (Value.reference ⟨0, 1⟩).HasKind Grid.copyBesideLoop .integer :=
    .reference (v := .reference ⟨0, 0⟩) (by cbv) (.reference (by cbv) hnumber)
  have hkind : remainderByZero.HasKind Grid.copyBesideLoop .integer :=
    .call (f := .modulo) (by decide) hcopy (.simple _) rfl
  have hresult : remainderByZero.resolve Grid.copyBesideLoop = .error .divisionByZero := by cbv
  refine ⟨hkind.grounded, hkind, ?_⟩
  rcases (resolve_kind hkind.grounded).1 _ hkind with
    ⟨value, hvalue, -⟩ | ⟨failure, hfailure, hblames⟩
  · simp [hresult] at hvalue
  · obtain rfl := Except.error.inj (hresult.symm.trans hfailure)
    exact hblames

/-- A text joined from a float with more decimal places than can be displayed. -/
def overlongJoin : Value :=
  .call "CONCAT" [.simple (.float (.zero false) (2 ^ 31)), .simple .null]

/-- A float that cannot be displayed is no zero and no large sum, and yet the text
that it should be joined to has no value. -/
theorem resolve_kind_overlongJoin :
    overlongJoin.Grounded Grid.copyBesideLoop ∧
      overlongJoin.HasKind Grid.copyBesideLoop .text ∧
      ¬ ((∃ value, overlongJoin.resolve Grid.copyBesideLoop = .ok value ∧ value.kind = .text) ∨
        overlongJoin.resolve Grid.copyBesideLoop = .error .divisionByZero ∨
        ∃ n, overlongJoin.resolve Grid.copyBesideLoop = .error (.overflow n)) := by
  have hkind : overlongJoin.HasKind Grid.copyBesideLoop .text :=
    .call (f := .concat) (by decide) (.simple _) (.simple _) rfl
  have hresult : overlongJoin.resolve Grid.copyBesideLoop =
      .error (.undisplayable (.precision ⟨2 ^ 31⟩)) := by cbv
  refine ⟨hkind.grounded, hkind, ?_⟩
  rw [hresult]
  simp

end Value

end Worksheet
