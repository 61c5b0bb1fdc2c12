import Worksheet.Text.Parentheses

/-!
# Matching parentheses

What the scanner passes over before it stops at a closing parenthesis is a
balanced text, and before every closing parenthesis that follows a balanced text
it does stop.
-/

namespace Worksheet.Text

variable {depth : Int} {c : Char} {cs inner rest : List Char}

/-- The text closes as many parentheses as are open before it, and nowhere more. -/
structure Closes (depth : Int) (cs : List Char) : Prop where
  nonneg : ∀ p, p <+: cs → 0 ≤ depth + nesting p
  settled : depth + nesting cs = 0

theorem closes_zero_iff : Closes 0 cs ↔ Balanced cs := by
  constructor
  · rintro ⟨hnonneg, hsettled⟩
    exact ⟨by simpa using hnonneg, by simpa using hsettled⟩
  · rintro ⟨hnonneg, hsettled⟩
    exact ⟨by simpa using hnonneg, by simpa using hsettled⟩

@[simp] theorem closes_nil_iff : Closes depth [] ↔ depth = 0 := by
  constructor
  · rintro ⟨-, hsettled⟩
    simpa using hsettled
  · rintro rfl
    exact ⟨by simp, by simp⟩

theorem closes_cons_iff :
    Closes depth (c :: cs) ↔ 0 ≤ depth ∧ Closes (depth + turn c) cs := by
  constructor
  · rintro ⟨hnonneg, hsettled⟩
    refine ⟨by simpa using hnonneg [] List.nil_prefix, fun p hp => ?_, ?_⟩
    · simpa [Int.add_assoc] using hnonneg (c :: p) (List.cons_prefix_cons.mpr ⟨rfl, hp⟩)
    · simpa [Int.add_assoc] using hsettled
  · rintro ⟨hdepth, hnonneg, hsettled⟩
    refine ⟨fun p hp => ?_, by simpa [Int.add_assoc] using hsettled⟩
    rcases List.prefix_cons_iff.mp hp with rfl | ⟨q, rfl, hq⟩
    · simpa using hdepth
    · simpa [Int.add_assoc] using hnonneg q hq

theorem Closes.depth_nonneg (h : Closes depth cs) : 0 ≤ depth := by
  simpa using h.nonneg [] List.nil_prefix

/-- A front part before a closing parenthesis is empty, or it begins with the first
character. -/
theorem exists_front_cons_iff {P : List Char → Prop} :
    (∃ front, c :: cs = front ++ ')' :: rest ∧ P front) ↔
      c = ')' ∧ cs = rest ∧ P [] ∨ ∃ front, cs = front ++ ')' :: rest ∧ P (c :: front) := by
  constructor
  · rintro ⟨front, h, hfront⟩
    cases front with
    | nil =>
        obtain ⟨rfl, rfl⟩ := List.cons.inj h
        exact .inl ⟨rfl, rfl, hfront⟩
    | cons d front =>
        obtain ⟨rfl, rfl⟩ := List.cons.inj h
        exact .inr ⟨front, rfl, hfront⟩
  · rintro (⟨rfl, rfl, hfront⟩ | ⟨front, rfl, hfront⟩)
    · exact ⟨[], rfl, hfront⟩
    · exact ⟨c :: front, rfl, hfront⟩

theorem scanClosing_eq_some_iff {depth : Nat} {passed : List Char} :
    scanClosing depth passed cs = some (inner, rest) ↔
      ∃ front, cs = front ++ ')' :: rest ∧ inner = passed.reverse ++ front ∧
        Closes depth front := by
  induction cs generalizing depth passed with
  | nil => simp [scanClosing]
  | cons c cs ih =>
      rw [exists_front_cons_iff]
      by_cases hopen : c = '('
      · subst hopen
        simp [scanClosing, ih, closes_cons_iff, turn]
      · by_cases hclose : c = ')'
        · subst hclose
          cases depth with
          | zero =>
              -- Nothing is open: the scanner stops here, and no text may go on from here.
              have hdeep : ∀ front, ¬ Closes (-1) front := fun front h => by
                simpa using h.depth_nonneg
              simp [scanClosing, closes_cons_iff, turn, hdeep, and_comm, eq_comm]
          | succ depth =>
              have hback : (depth : Int) + 1 + -1 = depth := by omega
              have hnonneg : 0 ≤ (depth : Int) + 1 := by omega
              have hne : (depth : Int) + 1 ≠ 0 := by omega
              simp [scanClosing, ih, closes_cons_iff, turn, hback, hnonneg, hne]
        · simp [scanClosing, hopen, hclose, ih, closes_cons_iff, turn]

/-- The scanner finds the parenthesis that follows a balanced text. -/
theorem splitClosing?_eq_some_iff :
    splitClosing? cs = some (inner, rest) ↔ cs = inner ++ ')' :: rest ∧ Balanced inner := by
  rw [splitClosing?, scanClosing_eq_some_iff]
  constructor
  · rintro ⟨front, rfl, rfl, h⟩
    exact ⟨by simp, closes_zero_iff.mp (by simpa using h)⟩
  · rintro ⟨rfl, h⟩
    exact ⟨inner, rfl, by simp, closes_zero_iff.mpr h⟩

end Worksheet.Text
