import Mathlib
import Worksheet.Cell.Label

/-!
# Reading labels

A label is letters and digits, in brackets or without them, and nothing else is.
-/

namespace Worksheet

namespace Text

/-- The longest run of characters of a class at the front of a text, and the rest. -/
theorem takeWhile_dropWhile_eq_iff {p : Char → Bool} {cs front rest : List Char} :
    cs.takeWhile p = front ∧ cs.dropWhile p = rest ↔
      cs = front ++ rest ∧ (∀ c ∈ front, p c) ∧ ∀ c ∈ rest.head?, ¬ p c := by
  constructor
  · rintro ⟨rfl, rfl⟩
    refine ⟨List.takeWhile_append_dropWhile.symm, List.all_eq_true.mp List.all_takeWhile, ?_⟩
    intro c hc hp
    have hnot := List.head?_dropWhile_not p cs
    simp_all
  · rintro ⟨rfl, hfront, hrest⟩
    rw [List.takeWhile_append_of_pos hfront, List.dropWhile_append_of_pos hfront]
    cases rest with
    | nil => simp
    | cons c rest => simp_all

theorem forall_head?_append_cons {P : Char → Prop} {c : Char} {front rest : List Char}
    (hfront : ∀ d ∈ front, P d) (hc : P c) : ∀ d ∈ (front ++ c :: rest).head?, P d := by
  intro d hd
  cases front with
  | nil =>
      obtain rfl : c = d := by simpa using hd
      exact hc
  | cons e front =>
      obtain rfl : e = d := by simpa using hd
      exact hfront e List.mem_cons_self

end Text

theorem Numeral.isNumeral_iff {cs : List Char} :
    isNumeral cs ↔ cs ≠ [] ∧ ∀ c ∈ cs, c.isDigit := by
  simp [isNumeral]

theorem Column.isLetters_iff {cs : List Char} :
    isLetters cs ↔ cs ≠ [] ∧ ∀ c ∈ cs, c.isAlpha := by
  simp [isLetters]

theorem isAlpha_eq_false_of_isDigit {c : Char} (h : c.isDigit) : c.isAlpha = false := by
  simp [Char.isDigit, Char.isAlpha, Char.isUpper, Char.isLower, UInt32.le_iff_toNat_le] at *
  omega

namespace Label

variable {cs letters digits inner : List Char}

theorem split?_eq_some_iff :
    split? cs = some (letters, digits) ↔
      cs = letters ++ digits ∧ Column.isLetters letters ∧ Numeral.isNumeral digits := by
  have hparts : split? cs = some (letters, digits) ↔
      (cs.takeWhile Char.isAlpha = letters ∧ cs.dropWhile Char.isAlpha = digits) ∧
        Column.isLetters letters ∧ Numeral.isNumeral digits := by
    simp only [split?, Bool.and_eq_true]
    split
    next h =>
        constructor
        · intro hcs
          obtain ⟨rfl, rfl⟩ := Prod.mk.inj (Option.some.inj hcs)
          exact ⟨⟨rfl, rfl⟩, h⟩
        · rintro ⟨⟨rfl, rfl⟩, -⟩
          rfl
    next h =>
        constructor
        · simp
        · rintro ⟨⟨rfl, rfl⟩, hletters⟩
          exact absurd hletters h
  rw [hparts, Text.takeWhile_dropWhile_eq_iff]
  constructor
  · rintro ⟨⟨hcs, -, -⟩, hletters, hdigits⟩
    exact ⟨hcs, hletters, hdigits⟩
  · rintro ⟨hcs, hletters, hdigits⟩
    refine ⟨⟨hcs, (Column.isLetters_iff.mp hletters).2, fun c hc => ?_⟩, hletters, hdigits⟩
    have hdigit := (Numeral.isNumeral_iff.mp hdigits).2 c (List.mem_of_mem_head? hc)
    simp [isAlpha_eq_false_of_isDigit hdigit]

theorem unbracket?_eq_some_iff :
    unbracket? cs = some inner ↔
      cs = '[' :: (inner ++ [']']) ∨
        cs = inner ∧ cs.head? ≠ some '[' ∧ cs.getLast? ≠ some ']' := by
  unfold unbracket?
  split
  next cs =>
      split
      next reversed hreversed =>
          obtain rfl : cs = reversed.reverse ++ [']'] := by
            simpa using congrArg List.reverse hreversed
          simp [eq_comm]
      next hother =>
          simp only [reduceCtorEq, List.cons.injEq, true_and, List.head?_cons, ne_eq,
            not_true_eq_false, false_and, and_false, or_false, false_iff]
          rintro rfl
          exact hother inner.reverse (by simp)
  next hother =>
      have hhead : cs.head? ≠ some '[' := fun h => by
        obtain ⟨rest, rfl⟩ := List.head?_eq_some_iff.mp h
        exact hother rest rfl
      have hne : cs ≠ '[' :: (inner ++ [']']) := fun h => hother _ h
      simp [hhead, hne, and_comm]

theorem head?_ne_bracket (h : Column.isLetters letters) : (letters ++ digits).head? ≠ some '[' := by
  obtain ⟨hne, halpha⟩ := Column.isLetters_iff.mp h
  obtain ⟨c, rest, rfl⟩ := List.exists_cons_of_ne_nil hne
  intro hhead
  obtain rfl : c = '[' := by simpa using hhead
  exact absurd (halpha _ List.mem_cons_self) (by decide)

theorem getLast?_ne_bracket (h : Numeral.isNumeral digits) :
    (letters ++ digits).getLast? ≠ some ']' := by
  obtain ⟨hne, hdigit⟩ := Numeral.isNumeral_iff.mp h
  intro hlast
  have hbracket : digits.getLast hne = ']' := by
    simpa [List.getLast?_append, List.getLast?_eq_some_getLast hne] using hlast
  exact absurd (hdigit _ (List.getLast_mem hne)) (by simp [hbracket])

/-- The letters and digits of a text, in brackets or without them. -/
theorem parts_eq_some_iff :
    (unbracket? cs).bind split? = some (letters, digits) ↔
      (cs = letters ++ digits ∨ cs = '[' :: (letters ++ digits ++ [']'])) ∧
        Column.isLetters letters ∧ Numeral.isNumeral digits := by
  simp only [Option.bind_eq_some_iff, unbracket?_eq_some_iff, split?_eq_some_iff]
  constructor
  · rintro ⟨inner, rfl | ⟨rfl, -, -⟩, rfl, hletters, hdigits⟩
    · exact ⟨.inr rfl, hletters, hdigits⟩
    · exact ⟨.inl rfl, hletters, hdigits⟩
  · rintro ⟨rfl | rfl, hletters, hdigits⟩
    · exact ⟨letters ++ digits, .inr ⟨rfl, head?_ne_bracket hletters, getLast?_ne_bracket hdigits⟩,
        rfl, hletters, hdigits⟩
    · exact ⟨letters ++ digits, .inl rfl, rfl, hletters, hdigits⟩

end Label

end Worksheet
