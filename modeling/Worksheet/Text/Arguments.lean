import Worksheet.Text.Blank

/-!
# Argument lists

The arguments of a call are separated by the commas outside parentheses and
trimmed. Blank text has no arguments; any other text has one more than it
has separating commas, so that an argument may be empty.
-/

namespace Worksheet.Text

/-- Cuts a text at the commas met at depth zero. The current argument is
kept in reverse. -/
def cut (depth : Int) (current : List Char) : List Char → List (List Char)
  | [] => [trim current.reverse]
  | c :: cs =>
      if c = '(' then cut (depth + 1) (c :: current) cs
      else if c = ')' then cut (depth - 1) (c :: current) cs
      else if c = ',' ∧ depth = 0 then trim current.reverse :: cut depth [] cs
      else cut depth (c :: current) cs

def arguments (cs : List Char) : List (List Char) :=
  if (trim cs).isEmpty then [] else cut 0 [] cs

theorem length_of_mem_cut {depth : Int} {current cs argument : List Char}
    (h : argument ∈ cut depth current cs) :
    argument.length ≤ current.length + cs.length := by
  induction cs generalizing depth current with
  | nil =>
      simp only [cut, List.mem_singleton] at h
      have := length_trim_le current.reverse
      simp_all
  | cons c cs ih =>
      simp only [cut] at h
      split at h
      · have := ih h
        simp only [List.length_cons] at *
        omega
      · split at h
        · have := ih h
          simp only [List.length_cons] at *
          omega
        · split at h
          · rcases List.mem_cons.mp h with rfl | h
            · have := length_trim_le current.reverse
              simp only [List.length_reverse, List.length_cons] at *
              omega
            · have := ih h
              simp only [List.length_nil, List.length_cons] at *
              omega
          · have := ih h
            simp only [List.length_cons] at *
            omega

/-- An argument is no longer than the text that it was cut from. -/
theorem length_of_mem_arguments {cs argument : List Char} (h : argument ∈ arguments cs) :
    argument.length ≤ cs.length := by
  unfold arguments at h
  split at h
  · simp at h
  · simpa using length_of_mem_cut h

end Worksheet.Text
