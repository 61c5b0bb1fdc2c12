import Worksheet.Proofs.Label
import Worksheet.Proofs.Outcome
import Worksheet.Proofs.Parentheses
import Worksheet.Value.Reader

/-!
# The forms of cell text

An integer is digits behind an optional sign, a decimal has a point among them, a
call is the name of a known function before a balanced text in parentheses, and a
reference is a label in brackets. Each reader takes the texts of its form and no
others, and no text has two forms.
-/

namespace Worksheet

namespace Numeral

variable {cs digits : List Char} {negative : Bool}

/-- What follows an optional sign; `true` stands for a minus. -/
inductive Signed : List Char → Bool → List Char → Prop where
  | bare (cs : List Char) : Signed cs false cs
  | plus (cs : List Char) : Signed ('+' :: cs) false cs
  | minus (cs : List Char) : Signed ('-' :: cs) true cs

theorem signed_splitSign (cs : List Char) : Signed cs (splitSign cs).1 (splitSign cs).2 := by
  unfold splitSign
  split
  · exact .plus _
  · exact .minus _
  · exact .bare _

theorem read_eq_ok (h : ¬ limit < digits.length) : read digits = .ok (value digits) :=
  read_eq_ok_iff.mpr ⟨Nat.not_lt.mp h, rfl⟩

theorem Signed.length_le (h : Signed cs negative digits) : digits.length ≤ cs.length := by
  cases h <;> simp

theorem Signed.splitSign_eq (h : Signed cs negative digits)
    (hunsigned : ∀ c ∈ digits.head?, c ≠ '+' ∧ c ≠ '-') : splitSign cs = (negative, digits) := by
  cases h with
  | plus => rfl
  | minus => rfl
  | bare =>
      unfold splitSign
      split
      · simp at hunsigned
      · simp at hunsigned
      · rfl

theorem isDigit_ne {c d : Char} (hc : c.isDigit) (hd : d.isDigit = false) : c ≠ d := by
  rintro rfl
  simp [hc] at hd

theorem ne_sign_of_isDigit {c : Char} (h : c.isDigit) : c ≠ '+' ∧ c ≠ '-' :=
  ⟨isDigit_ne h (by decide), isDigit_ne h (by decide)⟩

end Numeral

namespace Text

variable {cs name inner : List Char} {n : Int} {x : Binary32} {precision : Nat} {cell : Cell}

/-- A numeral that may have a sign, and the number that it denotes. -/
def IsInteger (cs : List Char) (n : Int) : Prop :=
  ∃ negative digits, Numeral.Signed cs negative digits ∧ Numeral.isNumeral digits ∧
    n = if negative then -(Numeral.value digits : Int) else Numeral.value digits

/-- A point with digits on at least one side of it, behind an optional sign. -/
structure IsDecimal (cs : List Char) (negative : Bool) (whole places : List Char) : Prop where
  signed : Numeral.Signed cs negative (whole ++ '.' :: places)
  whole_isDigit : ∀ c ∈ whole, c.isDigit
  places_isDigit : ∀ c ∈ places, c.isDigit
  nonempty : whole ≠ [] ∨ places ≠ []

/-- The decimal rounded to double and then to single precision. -/
def nearest (negative : Bool) (whole places : List Char) : Binary32 :=
  (Binary.ofDecimal negative (Numeral.value (whole ++ places)) places.length : Binary64).convert

/-- The name of a known function, and after it a balanced text in parentheses, with
nothing but blanks between the two. -/
structure IsCall (cs name inner : List Char) : Prop where
  isSupported : Function.isSupported (String.ofList name)
  balanced : Balanced inner
  exists_blanks : ∃ blanks, (∀ c ∈ blanks, isBlank c) ∧
    cs = name ++ blanks ++ '(' :: (inner ++ [')'])

/-- Letters and digits in brackets, and the cell that they name. -/
def IsReference (cs : List Char) (cell : Cell) : Prop :=
  ∃ letters digits, cs = '[' :: (letters ++ digits ++ [']']) ∧ Column.isLetters letters ∧
    Numeral.isNumeral digits ∧ cell = ⟨Numeral.value digits, Column.index letters⟩

/-- The forms in the order in which they are looked for. -/
inductive Form where
  | empty
  | integer
  | decimal
  | call
  | reference
  deriving DecidableEq

def Form.Fits : Form → List Char → Prop
  | .empty, cs => cs = []
  | .integer, cs => ∃ n : Integer, IsInteger cs n.toInt
  | .decimal, cs => ∃ negative whole places, IsDecimal cs negative whole places
  | .call, cs => ∃ name inner, IsCall cs name inner
  | .reference, cs => ∃ cell, IsReference cs cell

/-- The digits of an integer, or those of the row in a label. -/
def HasDigits (cs digits : List Char) : Prop :=
  Numeral.isNumeral digits ∧
    ((∃ negative, Numeral.Signed cs negative digits) ∨
      ∃ letters, cs = '[' :: (letters ++ digits ++ [']']) ∧ Column.isLetters letters)

/-- A number or a label with more digits than are read, and the fault of reading it. -/
inductive TooLong (cs : List Char) : ReadingFault → Prop where
  | numeral {digits : List Char} :
      HasDigits cs digits → Numeral.limit < digits.length →
      TooLong cs (.numeral ⟨digits.length⟩)
  | decimal {negative : Bool} {whole places : List Char} :
      IsDecimal cs negative whole places →
      Value.decimalLimit < Value.decimalLength whole places →
      TooLong cs (.decimal (String.ofList cs))

def Overlong (cs : List Char) : Prop :=
  ∃ cause, TooLong cs cause

theorem HasDigits.not_limit_lt {digits : List Char} (h : HasDigits cs digits)
    (hshort : ¬ Overlong cs) : ¬ Numeral.limit < digits.length :=
  fun hlong => hshort ⟨_, .numeral h hlong⟩

end Text

namespace Value

open Text

variable {cs name inner : List Char} {n : Int} {x : Binary32} {precision : Nat} {cell : Cell}

theorem readInteger_of_isInteger (h : IsInteger cs n) (hshort : ¬ Overlong cs) :
    readInteger cs = .ok (Integer.ofInt? n) := by
  obtain ⟨negative, digits, hsigned, hdigits, rfl⟩ := h
  have hread := Numeral.read_eq_ok
    (HasDigits.not_limit_lt ⟨hdigits, .inl ⟨negative, hsigned⟩⟩ hshort)
  have hunsigned : ∀ c ∈ digits.head?, c ≠ '+' ∧ c ≠ '-' := fun c hc =>
    Numeral.ne_sign_of_isDigit ((Numeral.isNumeral_iff.mp hdigits).2 c (List.mem_of_mem_head? hc))
  rw [readInteger, hsigned.splitSign_eq hunsigned]
  simp [hdigits, hread]

theorem readInteger_of_not_isInteger (h : ∀ n, ¬ IsInteger cs n) : readInteger cs = .ok none := by
  have hdigits : ¬ Numeral.isNumeral (Numeral.splitSign cs).2 := fun hdigits =>
    h _ ⟨_, _, Numeral.signed_splitSign cs, hdigits, rfl⟩
  simp [readInteger, hdigits]

/-- The reader of integers passes over other texts, and over integers too wide. -/
theorem readInteger_eq_none (h : ¬ Form.integer.Fits cs) (hshort : ¬ Overlong cs) :
    readInteger cs = .ok none := by
  by_cases hinteger : ∃ n, IsInteger cs n
  · obtain ⟨n, hinteger⟩ := hinteger
    rw [readInteger_of_isInteger hinteger hshort]
    refine congrArg _ (Option.eq_none_iff_forall_ne_some.mpr fun i hi => h ⟨i, ?_⟩)
    rwa [Integer.ofInt?_eq_some_iff.mp hi]
  · exact readInteger_of_not_isInteger (not_exists.mp hinteger)

theorem readDecimal_of_isDecimal {negative : Bool} {whole places : List Char}
    (h : IsDecimal cs negative whole places) :
    readDecimal cs =
      if decimalLength whole places ≤ decimalLimit then
        .ok (some (nearest negative whole places, places.length))
      else .error (.decimal (String.ofList cs)) := by
  have hunsigned : ∀ c ∈ (whole ++ '.' :: places).head?, c ≠ '+' ∧ c ≠ '-' :=
    forall_head?_append_cons
      (fun c hc => Numeral.ne_sign_of_isDigit (h.whole_isDigit c hc)) (by decide)
  obtain ⟨hwhole, hpoint⟩ := takeWhile_dropWhile_eq_iff.mpr
    ⟨rfl (a := whole ++ '.' :: places), h.whole_isDigit, by simp⟩
  have hcheck : (places.all Char.isDigit && !(whole.isEmpty && places.isEmpty)) = true := by
    have hplaces := List.all_eq_true.mpr h.places_isDigit
    simpa [hplaces, ← imp_iff_not_or] using h.nonempty
  simp only [readDecimal, h.signed.splitSign_eq hunsigned, hwhole, hpoint, hcheck, if_true, nearest]

theorem decimalLength_le {negative : Bool} {whole places : List Char}
    (h : IsDecimal cs negative whole places) (hshort : ¬ Overlong cs) :
    decimalLength whole places ≤ decimalLimit :=
  Nat.not_lt.mp fun hlong => hshort ⟨_, .decimal h hlong⟩

/-- The reader of decimals passes over other texts. -/
theorem readDecimal_eq_none (h : ¬ Form.decimal.Fits cs) : readDecimal cs = .ok none := by
  simp only [readDecimal]
  split
  next places hpoint =>
      obtain ⟨hrest, hwhole, -⟩ := takeWhile_dropWhile_eq_iff.mp ⟨rfl, hpoint⟩
      refine if_neg fun hcheck => h ?_
      simp only [Bool.and_eq_true, List.all_eq_true, Bool.not_eq_true',
        Bool.and_eq_false_iff, List.isEmpty_eq_false_iff] at hcheck
      have hsigned := Numeral.signed_splitSign cs
      rw [hrest] at hsigned
      exact ⟨_, _, places, hsigned, hwhole, hcheck.1, hcheck.2⟩
  next => rfl

/-- A letter or an underscore, and then letters, digits and underscores. -/
def IsIdentifier (name : List Char) : Prop :=
  ∃ c rest, name = c :: rest ∧ startsIdentifier c ∧ ∀ d ∈ rest, continuesIdentifier d

theorem isIdentifier_name (f : Function) : IsIdentifier f.name.toList := by
  cases f with
  | add => exact ⟨'A', ['D', 'D'], rfl, by decide, List.all_eq_true.mp (by decide)⟩
  | concat =>
      exact ⟨'C', ['O', 'N', 'C', 'A', 'T'], rfl, by decide, List.all_eq_true.mp (by decide)⟩
  | modulo => exact ⟨'M', ['O', 'D'], rfl, by decide, List.all_eq_true.mp (by decide)⟩

theorem continuesIdentifier_of_startsIdentifier {c : Char} (h : startsIdentifier c) :
    continuesIdentifier c := by
  simp only [startsIdentifier, continuesIdentifier, Char.isAlphanum, Bool.or_eq_true] at h ⊢
  exact h.imp_left .inl

theorem continuesIdentifier_eq_false_of_isBlank {c : Char} (h : isBlank c) :
    continuesIdentifier c = false := by
  simp [isBlank, continuesIdentifier, Char.isAlphanum, Char.isAlpha, Char.isUpper, Char.isLower,
    Char.isDigit, UInt32.le_iff_toNat_le] at h ⊢
  refine ⟨by omega, ?_⟩
  rintro rfl
  exact absurd h (by decide)

theorem splitCall?_eq_some_iff :
    splitCall? cs = some (name, inner) ↔
      IsIdentifier name ∧ Balanced inner ∧ ∃ blanks, (∀ c ∈ blanks, isBlank c) ∧
        cs = name ++ blanks ++ '(' :: (inner ++ [')']) := by
  constructor
  · intro h
    cases cs with
    | nil => simp [splitCall?] at h
    | cons c cs =>
        simp only [splitCall?] at h
        split at h
        next hc =>
            split at h
            next rest hopen =>
                split at h
                next body hbody =>
                    obtain ⟨rfl, rfl⟩ := Prod.mk.inj (Option.some.inj h)
                    obtain ⟨rfl, hbalanced⟩ := splitClosing?_eq_some_iff.mp hbody
                    obtain ⟨hcs, hname, -⟩ := takeWhile_dropWhile_eq_iff.mp
                      ⟨rfl, rfl (a := cs.dropWhile continuesIdentifier)⟩
                    obtain ⟨hafter, hblanks, -⟩ := takeWhile_dropWhile_eq_iff.mp ⟨rfl, hopen⟩
                    refine ⟨⟨c, _, rfl, hc, hname⟩, hbalanced, _, hblanks, ?_⟩
                    rw [List.cons_append, List.cons_append, List.append_assoc, ← hafter, ← hcs]
                next => simp at h
            next => simp at h
        next => simp at h
  · rintro ⟨⟨c, rest, rfl, hc, hrest⟩, hbalanced, blanks, hblanks, rfl⟩
    have hafter : ∀ d ∈ (blanks ++ '(' :: (inner ++ [')'])).head?, ¬ continuesIdentifier d :=
      forall_head?_append_cons
        (fun d hd => by simp [continuesIdentifier_eq_false_of_isBlank (hblanks d hd)]) (by decide)
    obtain ⟨hname, hdrop⟩ := takeWhile_dropWhile_eq_iff.mpr ⟨rfl, hrest, hafter⟩
    obtain ⟨-, hopen⟩ := takeWhile_dropWhile_eq_iff.mpr
      ⟨rfl (a := blanks ++ '(' :: (inner ++ [')'])), hblanks,
        by simp [show isBlank '(' = false by decide]⟩
    have hclose : splitClosing? (inner ++ [')']) = some (inner, []) :=
      splitClosing?_eq_some_iff.mpr ⟨rfl, hbalanced⟩
    simp [splitCall?, hc, hname, hdrop, trimLeft, hopen, hclose]

theorem isIdentifier_of_isCall (h : IsCall cs name inner) : IsIdentifier name := by
  obtain ⟨f, hf⟩ := Function.isSupported_iff_exists_ofName?.mp h.isSupported
  have hname := isIdentifier_name f
  rwa [Function.ofName?_eq_some_iff.mp hf, String.toList_ofList] at hname

theorem supportedCall?_eq_some_iff :
    supportedCall? cs = some (name, inner) ↔ IsCall cs name inner := by
  rw [supportedCall?, Option.filter_eq_some_iff, splitCall?_eq_some_iff]
  constructor
  · rintro ⟨⟨-, hbalanced, hshape⟩, hname⟩
    exact ⟨hname, hbalanced, hshape⟩
  · intro h
    exact ⟨⟨isIdentifier_of_isCall h, h.balanced, h.exists_blanks⟩, h.isSupported⟩

theorem supportedCall?_eq_none (h : ¬ Form.call.Fits cs) : supportedCall? cs = none :=
  Option.eq_none_iff_forall_ne_some.mpr fun (name, inner) hcall =>
    h ⟨name, inner, supportedCall?_eq_some_iff.mp hcall⟩

theorem readReference_of_isReference (h : IsReference cs cell) (hshort : ¬ Overlong cs) :
    readReference cs = .ok (some cell) := by
  obtain ⟨letters, digits, rfl, hletters, hdigits, rfl⟩ := h
  have hparts := Label.parts_eq_some_iff.mpr ⟨.inr rfl, hletters, hdigits⟩
  have hread := Numeral.read_eq_ok
    (HasDigits.not_limit_lt ⟨hdigits, .inr ⟨letters, rfl, hletters⟩⟩ hshort)
  simp only [readReference, List.head?_cons, if_true, Label.read, String.toList_ofList, hparts,
    hread]

theorem readReference_eq_none (h : ¬ Form.reference.Fits cs) : readReference cs = .ok none := by
  unfold readReference
  split
  next hbracket =>
      have hparts : (Label.unbracket? cs).bind Label.split? = none := by
        refine Option.eq_none_iff_forall_ne_some.mpr fun ⟨letters, digits⟩ hparts => ?_
        obtain ⟨rfl | rfl, hletters, hdigits⟩ := Label.parts_eq_some_iff.mp hparts
        · exact Label.head?_ne_bracket hletters hbracket
        · exact h ⟨_, letters, digits, rfl, hletters, hdigits, rfl⟩
      simp only [Label.read, String.toList_ofList, hparts]
  next => rfl

end Value

namespace Text

open Value

variable {cs digits : List Char} {negative : Bool} {f g : Form}

/-- The only form that a text may have. Its first character tells, and for numbers
whether there is a point. -/
def candidate (cs : List Char) : Form :=
  match cs with
  | [] => .empty
  | c :: _ =>
      if c = '[' then .reference
      else if startsIdentifier c then .call
      else if '.' ∈ cs then .decimal
      else .integer

theorem candidate_of_signed (h : Numeral.Signed cs negative digits) (hne : digits ≠ [])
    (hdigits : ∀ c ∈ digits, c.isDigit ∨ c = '.') :
    candidate cs = if '.' ∈ digits then .decimal else .integer := by
  cases h with
  | plus => simp [candidate, show startsIdentifier '+' = false by decide]
  | minus => simp [candidate, show startsIdentifier '-' = false by decide]
  | bare =>
      obtain ⟨c, digits, rfl⟩ := List.exists_cons_of_ne_nil hne
      have hstart : startsIdentifier c = false ∧ c ≠ '[' := by
        rcases hdigits c List.mem_cons_self with hc | rfl
        · have hunderscore := Numeral.isDigit_ne (d := '_') hc (by decide)
          refine ⟨?_, Numeral.isDigit_ne hc (by decide)⟩
          simp [startsIdentifier, isAlpha_eq_false_of_isDigit hc, hunderscore]
        · decide
      simp [candidate, hstart]

theorem candidate_of_isInteger {n : Int} (h : IsInteger cs n) : candidate cs = .integer := by
  obtain ⟨negative, digits, hsigned, hdigits, -⟩ := h
  obtain ⟨hne, hdigit⟩ := Numeral.isNumeral_iff.mp hdigits
  have hpoint : '.' ∉ digits := fun hc => absurd (hdigit _ hc) (by decide)
  rw [candidate_of_signed hsigned hne fun c hc => .inl (hdigit c hc), if_neg hpoint]

theorem Form.candidate_eq (h : f.Fits cs) : candidate cs = f := by
  cases f with
  | empty =>
      obtain rfl : cs = [] := h
      rfl
  | integer =>
      obtain ⟨n, hn⟩ := h
      exact candidate_of_isInteger hn
  | decimal =>
      obtain ⟨negative, whole, places, h⟩ := h
      rw [candidate_of_signed h.signed (by simp), if_pos (by simp)]
      intro c hc
      rcases List.mem_append.mp hc with hc | hc
      · exact .inl (h.whole_isDigit c hc)
      · rcases List.mem_cons.mp hc with rfl | hc
        · exact .inr rfl
        · exact .inl (h.places_isDigit c hc)
  | call =>
      obtain ⟨name, inner, h⟩ := h
      obtain ⟨c, rest, rfl, hc, -⟩ := isIdentifier_of_isCall h
      obtain ⟨-, -, blanks, -, rfl⟩ := h
      have hbracket : c ≠ '[' := by
        rintro rfl
        exact absurd hc (by decide)
      simp [candidate, hc, hbracket]
  | reference =>
      obtain ⟨cell, letters, digits, rfl, -⟩ := h
      simp [candidate]

theorem Form.Fits.not_isInteger (hf : f.Fits cs) (hne : f ≠ .integer) (n : Int) :
    ¬ IsInteger cs n := fun hn => hne ((candidate_eq hf).symm.trans (candidate_of_isInteger hn))

/-- No text has two forms. -/
theorem Form.eq_of_fits (hf : f.Fits cs) (hg : g.Fits cs) : f = g :=
  (candidate_eq hf).symm.trans (candidate_eq hg)

/-- Only a number or a label can be too long. -/
theorem cases_of_overlong (h : Overlong cs) :
    (∃ n, IsInteger cs n) ∨ Form.decimal.Fits cs ∨ Form.reference.Fits cs := by
  obtain ⟨cause, h⟩ := h
  cases h with
  | numeral hdigits _ =>
      obtain ⟨hnumeral, ⟨negative, hsigned⟩ | ⟨letters, hcs, hletters⟩⟩ := hdigits
      · exact .inl ⟨_, negative, _, hsigned, hnumeral, rfl⟩
      · exact .inr (.inr ⟨_, letters, _, hcs, hletters, hnumeral, rfl⟩)
  | decimal hdecimal _ => exact .inr (.inl ⟨_, _, _, hdecimal⟩)

theorem candidate_of_overlong (h : Overlong cs) :
    candidate cs = .integer ∨ candidate cs = .decimal ∨ candidate cs = .reference := by
  rcases cases_of_overlong h with ⟨n, hn⟩ | hfits | hfits
  · exact .inl (candidate_of_isInteger hn)
  · exact .inr (.inl (Form.candidate_eq hfits))
  · exact .inr (.inr (Form.candidate_eq hfits))

theorem Form.Fits.not_fits (hf : f.Fits cs) (hne : g ≠ f) : ¬ g.Fits cs := fun hg =>
  hne (eq_of_fits hg hf)

end Text

end Worksheet
