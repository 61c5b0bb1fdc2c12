import Mathlib
import Worksheet.Proofs.Grammar

/-!
# Cell text that cannot be read

Reading a text goes down to the arguments of calls, which are shorter. It fails if and
only if a number of too many digits is met on the way, or the pattern has a field twice.
What merely resembles an integer, a label or a call is read all the same, as the text that
it is.
-/

namespace Worksheet

namespace Text

variable {cs digits name name' rest rest' : List Char} {f : Form}

/-- A name, perhaps blanks, and an opening parenthesis with what follows it. -/
structure Opens (cs name rest : List Char) : Prop where
  isIdentifier : Value.IsIdentifier name
  exists_blanks : ∃ blanks, (∀ c ∈ blanks, isBlank c) ∧ cs = name ++ blanks ++ '(' :: rest

theorem Opens.split (h : Opens cs name rest) :
    cs.takeWhile Value.continuesIdentifier = name ∧
      trimLeft (cs.dropWhile Value.continuesIdentifier) = '(' :: rest := by
  obtain ⟨⟨c, others, rfl, hc, hothers⟩, blanks, hblanks, rfl⟩ := h
  have hname : ∀ d ∈ c :: others, Value.continuesIdentifier d :=
    List.forall_mem_cons.mpr ⟨Value.continuesIdentifier_of_startsIdentifier hc, hothers⟩
  have hafter : ∀ d ∈ (blanks ++ '(' :: rest).head?, ¬ Value.continuesIdentifier d :=
    forall_head?_append_cons
      (fun d hd => by simp [Value.continuesIdentifier_eq_false_of_isBlank (hblanks d hd)])
      (by decide)
  obtain ⟨htake, hdrop⟩ := takeWhile_dropWhile_eq_iff.mpr
    ⟨List.append_assoc .., hname, hafter⟩
  obtain ⟨-, htrim⟩ := takeWhile_dropWhile_eq_iff.mpr
    ⟨rfl (a := blanks ++ '(' :: rest), hblanks, by simp [show isBlank '(' = false by decide]⟩
  exact ⟨htake, by rw [hdrop]; exact htrim⟩

/-- No text opens a call in two ways. -/
theorem Opens.unique (h : Opens cs name rest) (h' : Opens cs name' rest') :
    name = name' ∧ rest = rest' := by
  obtain ⟨hname, hrest⟩ := h.split
  obtain ⟨hname', hrest'⟩ := h'.split
  exact ⟨hname.symm.trans hname', List.tail_eq_of_cons_eq (hrest.symm.trans hrest')⟩

theorem Opens.candidate_eq (h : Opens cs name rest) : candidate cs = .call := by
  obtain ⟨⟨c, others, rfl, hc, -⟩, blanks, -, rfl⟩ := h
  have hbracket : c ≠ '[' := by
    rintro rfl
    exact absurd hc (by decide)
  simp [candidate, hc, hbracket]

theorem IsCall.opens {inner : List Char} (h : IsCall cs name inner) :
    Opens cs name (inner ++ [')']) :=
  ⟨Value.isIdentifier_of_isCall h, h.exists_blanks⟩

/-- Texts that look like an integer, a label or a call up to some point, but are none. -/
inductive Resembles (cs : List Char) : Prop where
  /-- An integer that does not fit 32 bits, of no more digits than are read. -/
  | integer {n : Int} : IsInteger cs n → ¬ Overlong cs → Integer.ofInt? n = none → Resembles cs
  | label {rest : List Char} : cs = '[' :: rest → (∀ cell, ¬ IsReference cs cell) → Resembles cs
  | unknown {name rest : List Char} :
      Opens cs name rest → Function.isSupported (String.ofList name) = false → Resembles cs
  | unbalanced {name rest : List Char} :
      Opens cs name rest → (∀ inner, rest = inner ++ [')'] → ¬ Balanced inner) → Resembles cs

theorem Opens.not_overlong (h : Opens cs name rest) : ¬ Overlong cs := by
  intro hlong
  have hcandidate := candidate_of_overlong hlong
  simp [h.candidate_eq] at hcandidate

theorem Resembles.not_overlong (h : Resembles cs) : ¬ Overlong cs := by
  cases h with
  | integer _ hshort _ => exact hshort
  | label hcs hreference =>
      intro hlong
      have hcandidate : candidate cs = .reference := by simp [hcs, candidate]
      rcases cases_of_overlong hlong with ⟨n, hn⟩ | hfits | ⟨cell, hcell⟩
      · simp [candidate_of_isInteger hn] at hcandidate
      · simp [Form.candidate_eq hfits] at hcandidate
      · exact hreference cell hcell
  | unknown hopens _ => exact hopens.not_overlong
  | unbalanced hopens _ => exact hopens.not_overlong

theorem Opens.not_fits (h : Opens cs name rest)
    (hcall : ∀ inner, Function.isSupported (String.ofList name) → rest = inner ++ [')'] →
      ¬ Balanced inner) : ¬ f.Fits cs := by
  intro hfits
  obtain rfl : Form.call = f := h.candidate_eq.symm.trans (Form.candidate_eq hfits)
  obtain ⟨name', inner, hfits⟩ := hfits
  obtain ⟨rfl, rfl⟩ := h.unique hfits.opens
  exact hcall inner hfits.isSupported rfl hfits.balanced

theorem Resembles.not_fits (h : Resembles cs) : ¬ f.Fits cs := by
  cases h with
  | integer hn hshort hwide =>
      intro hfits
      obtain rfl : Form.integer = f :=
        (candidate_of_isInteger hn).symm.trans (Form.candidate_eq hfits)
      obtain ⟨i, hi⟩ := hfits
      have hread := (Value.readInteger_of_isInteger hn hshort).symm.trans
        (Value.readInteger_of_isInteger hi hshort)
      rw [hwide, Integer.ofInt?_eq_some_iff.mpr rfl] at hread
      simp at hread
  | label hcs hreference =>
      intro hfits
      obtain rfl : Form.reference = f := by
        rw [← Form.candidate_eq hfits, hcs]
        simp [candidate]
      obtain ⟨cell, hcell⟩ := hfits
      exact hreference cell hcell
  | unknown hopens hname => exact hopens.not_fits fun _ hsupported => by simp [hname] at hsupported
  | unbalanced hopens hbalanced => exact hopens.not_fits fun inner _ => hbalanced inner

end Text

namespace Value

open Text

variable {pattern text : String} {cs piece : List Char} {cause : ReadingFault} {v : Value}

example : read readingPattern "ADD(1" = .ok (.simple (.text "ADD(1")) := by
  rw [read_readingPattern]
  cbv

end Value

end Worksheet
