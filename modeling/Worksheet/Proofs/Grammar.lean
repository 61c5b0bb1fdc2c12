import Worksheet.Proofs.Forms

/-!
# What cell text is read as

The value of a text is that of the one form that it has, or the text itself. It is
always found, unless a number of too many digits is met on the way, or the pattern has a
field twice.
-/

namespace Worksheet

namespace Timestamp

/-- A text that is read by the default pattern is displayed part by part. -/
theorem eq_display_of_read? {cs : List Char} {stamp : Timestamp}
    (h : read? Value.readingPattern (String.ofList cs) = some stamp) :
    displayItems stamp [.field .year, .field .month, .field .day, .literal ' ', .field .hour,
      .field .minute, .field .second] = cs := by
  have hitems : items (beforeNull Value.readingPattern.toList) =
      [.field .year, .field .month, .field .day, .literal ' ', .field .hour, .field .minute,
        .field .second] := by decide
  rw [← hitems]
  exact String.ofList_injective (display_of_read? h)

theorem blank_mem_of_read? {cs : List Char} {stamp : Timestamp}
    (h : read? Value.readingPattern (String.ofList cs) = some stamp) : ' ' ∈ cs := by
  rw [← eq_display_of_read? h]
  simp [Item.display]

theorem read?_eq_none_of_isDecimal {cs whole places : List Char} {negative : Bool}
    (h : Text.IsDecimal cs negative whole places) :
    read? Value.readingPattern (String.ofList cs) = none := by
  have hne : ∀ c ∈ whole ++ '.' :: places, c ≠ ' ' := by
    simp only [List.forall_mem_append, List.forall_mem_cons]
    exact ⟨fun c hc => Numeral.isDigit_ne (h.whole_isDigit c hc) (by decide), by decide,
      fun c hc => Numeral.isDigit_ne (h.places_isDigit c hc) (by decide)⟩
  refine Option.eq_none_iff_forall_ne_some.mpr fun stamp hstamp => ?_
  have hblank := blank_mem_of_read? hstamp
  cases h.signed with
  | bare => exact hne ' ' hblank rfl
  | plus => exact hne ' ' (by simpa using hblank) rfl
  | minus => exact hne ' ' (by simpa using hblank) rfl

end Timestamp

namespace Value

open Text

variable {pattern text : String} {cs name inner piece : List Char} {v w : Value}

/-- The texts that are looked at to read a text: itself, and those that are looked at
to read the arguments of a call. -/
inductive Piece (pattern : String) : List Char → List Char → Prop where
  | self (cs : List Char) : Piece pattern cs cs
  | argument {cs name inner argument piece : List Char} :
      Timestamp.read? pattern (String.ofList cs) = none → IsCall cs name inner →
      argument ∈ arguments inner → Piece pattern argument piece → Piece pattern cs piece

/-- No number with too many digits is met on the way. -/
def Short (pattern : String) (cs : List Char) : Prop :=
  ∀ piece, Piece pattern cs piece →
    Timestamp.read? pattern (String.ofList piece) = none → ¬ Overlong piece

/-- A value by the form of the text that it is read from. -/
inductive Denotes (pattern : String) (cs : List Char) : Value → Prop where
  | empty : cs = [] → Denotes pattern cs (.simple .null)
  | dateTime {stamp : Timestamp} :
      cs ≠ [] → Timestamp.read? pattern (String.ofList cs) = some stamp →
      Denotes pattern cs (.simple (.dateTime stamp pattern))
  | integer {n : Integer} :
      Timestamp.read? pattern (String.ofList cs) = none → IsInteger cs n.toInt →
      Denotes pattern cs (.simple (.integer n))
  | decimal {negative : Bool} {whole places : List Char} :
      Timestamp.read? pattern (String.ofList cs) = none → IsDecimal cs negative whole places →
      Denotes pattern cs (.simple (.float (nearest negative whole places) places.length))
  | call {name inner : List Char} {operands : List Value} :
      Timestamp.read? pattern (String.ofList cs) = none → IsCall cs name inner →
      (arguments inner).mapM (readChars pattern) = .ok operands →
      Denotes pattern cs (.call (String.ofList name) operands)
  | reference {cell : Cell} :
      Timestamp.read? pattern (String.ofList cs) = none → IsReference cs cell →
      Denotes pattern cs (.reference cell)
  | text :
      Timestamp.read? pattern (String.ofList cs) = none → (∀ f : Form, ¬ f.Fits cs) →
      Denotes pattern cs (.simple (.text (String.ofList cs)))

/-- What is neither empty nor a timestamp nor a number. -/
theorem readChars_of_no_number (hempty : ¬ Form.empty.Fits cs)
    (hinteger : readInteger cs = .ok none) (hdecimal : ¬ Form.decimal.Fits cs)
    (hstamp : Timestamp.read? pattern (String.ofList cs) = none) :
    readChars pattern cs =
      match supportedCall? cs with
      | some (name, inner) =>
          (arguments inner).mapM (readChars pattern) >>= fun operands =>
            .ok (.call (String.ofList name) operands)
      | none =>
          (readReference cs).mapError .numeral >>= fun cell? =>
            .ok (cell?.elim (.simple (.text (String.ofList cs))) .reference) := by
  have hne : cs ≠ [] := hempty
  rw [readChars]
  simp only [List.isEmpty_iff, hne, if_false, hstamp, hinteger, readDecimal_eq_none hdecimal]
  split
  next name inner hcall =>
      -- The proof that an argument is shorter plays no part in how it is read.
      rw [List.mapM_subtype (g := readChars pattern) fun _ _ => rfl, List.unattach_attach, hcall]
      rfl
  next hcall =>
      rw [hcall]
      cases readReference cs with
      | error cause => rfl
      | ok cell? => cases cell? <;> rfl

theorem readChars_of_isCall (hstamp : Timestamp.read? pattern (String.ofList cs) = none)
    (h : IsCall cs name inner) (hshort : ¬ Overlong cs) :
    readChars pattern cs = (arguments inner).mapM (readChars pattern) >>= fun operands =>
      .ok (.call (String.ofList name) operands) := by
  have hfits : Form.call.Fits cs := ⟨name, inner, h⟩
  have hinteger := readInteger_eq_none (hfits.not_fits (by decide)) hshort
  rw [readChars_of_no_number (hfits.not_fits (by decide)) hinteger
    (hfits.not_fits (by decide)) hstamp, supportedCall?_eq_some_iff.mpr h]

/-- A value that a text denotes is what the text is read as. -/
theorem readChars_of_denotes (h : Denotes pattern cs v)
    (hshort : Timestamp.read? pattern (String.ofList cs) = none → ¬ Overlong cs) :
    readChars pattern cs = .ok v := by
  cases h with
  | empty hcs => simp [readChars, hcs]
  | dateTime hne hstamp => simp [readChars, hne, hstamp]
  | @integer n hstamp h =>
      have hfits : Form.integer.Fits cs := ⟨n, h⟩
      have hne : cs ≠ [] := hfits.not_fits (g := .empty) (by decide)
      have hread := readInteger_of_isInteger h (hshort hstamp)
      rw [Integer.ofInt?_eq_some_iff.mpr rfl] at hread
      simp [readChars, hne, hstamp, hread]
  | @decimal negative whole places hstamp h =>
      have hfits : Form.decimal.Fits cs := ⟨negative, whole, places, h⟩
      have hne : cs ≠ [] := hfits.not_fits (g := .empty) (by decide)
      have hinteger := readInteger_eq_none (hfits.not_fits (by decide)) (hshort hstamp)
      have hread := readDecimal_of_isDecimal h
      rw [if_pos (decimalLength_le h (hshort hstamp))] at hread
      simp [readChars, hne, hstamp, hinteger, hread]
  | @call name inner operands hstamp h hoperands =>
      rw [readChars_of_isCall hstamp h (hshort hstamp), hoperands, Except.ok_bind]
  | @reference cell hstamp h =>
      have hfits : Form.reference.Fits cs := ⟨cell, h⟩
      have hinteger := readInteger_eq_none (hfits.not_fits (by decide)) (hshort hstamp)
      rw [readChars_of_no_number (hfits.not_fits (by decide)) hinteger
        (hfits.not_fits (by decide)) hstamp, supportedCall?_eq_none (hfits.not_fits (by decide))]
      simp [readReference_of_isReference h (hshort hstamp)]
  | text hstamp hnone =>
      have hinteger := readInteger_eq_none (hnone .integer) (hshort hstamp)
      rw [readChars_of_no_number (hnone .empty) hinteger (hnone .decimal) hstamp,
        supportedCall?_eq_none (hnone .call)]
      simp [readReference_eq_none (hnone .reference)]

/-- Every text denotes a value if the arguments of calls do. -/
theorem exists_denotes
    (harguments : Timestamp.read? pattern (String.ofList cs) = none →
      ∀ name inner, IsCall cs name inner → ∀ argument ∈ arguments inner,
        ∃ w, readChars pattern argument = .ok w) :
    ∃ v, Denotes pattern cs v := by
  by_cases hne : cs = []
  · exact ⟨_, .empty hne⟩
  cases hstamp : Timestamp.read? pattern (String.ofList cs) with
  | some stamp => exact ⟨_, .dateTime hne hstamp⟩
  | none =>
      by_cases hfits : ∃ f : Form, f.Fits cs
      · obtain ⟨f, hf⟩ := hfits
        cases f with
        | empty => exact absurd hf hne
        | integer =>
            obtain ⟨n, hn⟩ := hf
            exact ⟨_, .integer hstamp hn⟩
        | decimal =>
            obtain ⟨negative, whole, places, h⟩ := hf
            exact ⟨_, .decimal hstamp h⟩
        | call =>
            obtain ⟨name, inner, h⟩ := hf
            obtain ⟨operands, hoperands⟩ :=
              Except.exists_mapM_eq_ok_iff.mpr (harguments hstamp name inner h)
            exact ⟨_, .call hstamp h hoperands⟩
        | reference =>
            obtain ⟨cell, h⟩ := hf
            exact ⟨_, .reference hstamp h⟩
      · exact ⟨_, .text hstamp (not_exists.mp hfits)⟩

/-- A number or a label with too many digits is the fault of its text. -/
theorem readChars_of_tooLong {cause : ReadingFault}
    (hstamp : Timestamp.read? pattern (String.ofList cs) = none) (h : TooLong cs cause) :
    readChars pattern cs = .error cause := by
  cases h with
  | @numeral digits hdigits hlong =>
      obtain ⟨hnumeral, ⟨negative, hsigned⟩ | ⟨letters, rfl, hletters⟩⟩ := hdigits
      · obtain ⟨hne, hdigit⟩ := Numeral.isNumeral_iff.mp hnumeral
        have hunsigned : ∀ c ∈ digits.head?, c ≠ '+' ∧ c ≠ '-' := fun c hc =>
          Numeral.ne_sign_of_isDigit (hdigit c (List.mem_of_mem_head? hc))
        have hcs : cs ≠ [] := by
          rintro rfl
          cases hsigned
          exact hne rfl
        simp [readChars, hcs, hstamp, readInteger, hsigned.splitSign_eq hunsigned, hnumeral,
          Numeral.read, Nat.not_le.mpr hlong]
      · have hfits : Form.reference.Fits ('[' :: (letters ++ digits ++ [']'])) :=
          ⟨_, letters, digits, rfl, hletters, hnumeral, rfl⟩
        have hinteger := readInteger_of_not_isInteger (hfits.not_isInteger (by decide))
        have hparts := Label.parts_eq_some_iff.mpr ⟨.inr rfl, hletters, hnumeral⟩
        rw [readChars_of_no_number (hfits.not_fits (by decide)) hinteger
          (hfits.not_fits (by decide)) hstamp, supportedCall?_eq_none (hfits.not_fits (by decide))]
        simp only [readReference, List.head?_cons, if_true, Label.read, String.toList_ofList,
          hparts, Numeral.read, if_neg (Nat.not_le.mpr hlong), Except.mapError_error,
          Except.error_bind]
  | @decimal negative whole places h hlong =>
      have hfits : Form.decimal.Fits cs := ⟨negative, whole, places, h⟩
      have hne : cs ≠ [] := hfits.not_fits (g := .empty) (by decide)
      have hread := readDecimal_of_isDecimal h
      rw [if_neg (Nat.not_le.mpr hlong)] at hread
      have hinteger := readInteger_of_not_isInteger (hfits.not_isInteger (by decide))
      simp [readChars, hne, hstamp, hinteger, hread]

theorem exists_error_of_overlong (hstamp : Timestamp.read? pattern (String.ofList cs) = none)
    (h : Overlong cs) : ∃ cause, readChars pattern cs = .error cause := by
  obtain ⟨cause, h⟩ := h
  exact ⟨cause, readChars_of_tooLong hstamp h⟩

/-- Where a call is read, its arguments are. -/
theorem exists_of_mem_arguments (h : readChars pattern cs = .ok v)
    (hstamp : Timestamp.read? pattern (String.ofList cs) = none) (hcall : IsCall cs name inner) :
    ∀ argument ∈ arguments inner, ∃ w, readChars pattern argument = .ok w := by
  have hshort : ¬ Overlong cs := fun hlong => by
    obtain ⟨cause, hcause⟩ := exists_error_of_overlong hstamp hlong
    simp [hcause] at h
  rw [readChars_of_isCall hstamp hcall hshort] at h
  obtain ⟨operands, hoperands, -⟩ := Except.bind_eq_ok_iff.mp h
  exact Except.exists_mapM_eq_ok_iff.mp ⟨operands, hoperands⟩

/-- Whatever is read from a text the text denotes. -/
theorem denotes_of_readChars (h : readChars pattern cs = .ok v) : Denotes pattern cs v := by
  have hshort : Timestamp.read? pattern (String.ofList cs) = none → ¬ Overlong cs := by
    intro hstamp hlong
    obtain ⟨cause, hcause⟩ := exists_error_of_overlong hstamp hlong
    simp [hcause] at h
  obtain ⟨w, hw⟩ : ∃ w, Denotes pattern cs w :=
    exists_denotes fun hstamp _ _ hcall => exists_of_mem_arguments h hstamp hcall
  obtain rfl := Except.ok.inj ((readChars_of_denotes hw hshort).symm.trans h)
  exact hw

theorem denotes_of_read (h : read pattern text = .ok v) : Denotes pattern text.toList v :=
  denotes_of_readChars (readChars_of_read h)

theorem length_argument_lt {argument : List Char} (h : IsCall cs name inner)
    (hmem : argument ∈ arguments inner) : argument.length < cs.length :=
  Nat.lt_of_le_of_lt (length_of_mem_arguments hmem)
    (length_of_supportedCall? (supportedCall?_eq_some_iff.mpr h))

theorem Short.argument {argument : List Char} (h : Short pattern cs)
    (hstamp : Timestamp.read? pattern (String.ofList cs) = none) (hcall : IsCall cs name inner)
    (hmem : argument ∈ arguments inner) : Short pattern argument := fun piece hpiece =>
  h piece (.argument hstamp hcall hmem hpiece)

/-- The induction is on the length of the text, since arguments are shorter. -/
theorem Short.exists_denotes (h : Short pattern cs) : ∃ v, Denotes pattern cs v := by
  induction hlength : cs.length using Nat.strongRecOn generalizing cs with
  | ind length ih =>
      refine Value.exists_denotes fun hstamp name inner hcall argument hmem => ?_
      have hshort := h.argument hstamp hcall hmem
      obtain ⟨w, hw⟩ := ih argument.length (hlength ▸ length_argument_lt hcall hmem) hshort rfl
      exact ⟨w, readChars_of_denotes hw (hshort argument (.self argument))⟩

theorem Piece.length_le (h : Piece pattern cs piece) : piece.length ≤ cs.length := by
  induction h with
  | self cs => exact Nat.le_refl _
  | argument _ hcall hmem _ ih =>
      exact Nat.le_of_lt (Nat.lt_of_le_of_lt ih (length_argument_lt hcall hmem))

theorem length_le_of_hasDigits {digits : List Char} (h : HasDigits cs digits) :
    digits.length ≤ cs.length := by
  obtain ⟨-, ⟨negative, hsigned⟩ | ⟨letters, rfl, -⟩⟩ := h
  · exact hsigned.length_le
  · simp only [List.length_cons, List.length_append]
    omega

theorem decimalLength_le_length {negative : Bool} {whole places : List Char}
    (h : IsDecimal cs negative whole places) : decimalLength whole places ≤ cs.length := by
  have hzeros := (List.dropWhile_sublist (· == '0') (l := whole)).length_le
  have hsigned := h.signed.length_le
  simp only [List.length_append, List.length_cons] at hsigned
  unfold decimalLength
  omega

theorem limit_lt_length_of_overlong (h : Overlong cs) : Numeral.limit < cs.length := by
  obtain ⟨cause, h⟩ := h
  cases h with
  | numeral hdigits hlong => exact Nat.lt_of_lt_of_le hlong (length_le_of_hasDigits hdigits)
  | decimal hdecimal hlong =>
      have hlimit : Numeral.limit < decimalLimit := by decide
      exact (hlimit.trans hlong).trans_le (decimalLength_le_length hdecimal)

section Plain

variable (hstamp : Timestamp.read? pattern (String.ofList cs) = none)

include hstamp

end Plain

/-- A decimal has not the digits of a whole number, however many there are. -/
theorem not_hasDigits_of_isDecimal {negative : Bool} {whole places digits : List Char}
    (h : IsDecimal cs negative whole places) : ¬ HasDigits cs digits := by
  have hfits : Form.decimal.Fits cs := ⟨negative, whole, places, h⟩
  rintro ⟨hnumeral, ⟨sign, hsigned⟩ | ⟨letters, hlabel, hletters⟩⟩
  · exact hfits.not_isInteger (by decide) _ ⟨sign, digits, hsigned, hnumeral, rfl⟩
  · exact hfits.not_fits (g := .reference) (by decide)
      ⟨_, letters, digits, hlabel, hletters, hnumeral, rfl⟩

theorem read_of_tooLong {cause : ReadingFault}
    (hstamp : Timestamp.read? readingPattern (String.ofList cs) = none) (h : TooLong cs cause) :
    read readingPattern (String.ofList cs) = .error cause := by
  rw [read_readingPattern, String.toList_ofList, readChars_of_tooLong hstamp h]

end Value

end Worksheet
