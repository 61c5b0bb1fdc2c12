import Mathlib
import Worksheet.Proofs.Grammar
import Worksheet.Proofs.Splitting
import Worksheet.Proofs.Writing

/-!
# Displayed values are read back

A value that was read without a float in it is displayed as a text that is read as the
same value. Operands are displayed as texts that may stand among arguments, so that
joined by commas they are found again; the induction is on the length of the text
that was read.
-/

namespace Worksheet

/-- The pattern of reading has a year in front. -/
theorem Timestamp.exists_isDigit_of_read? {cs : List Char} {stamp : Timestamp}
    (h : read? Value.readingPattern (String.ofList cs) = some stamp) :
    ∃ c rest, cs = c :: rest ∧ c.isDigit := by
  obtain ⟨hne, hdigits⟩ := Numeral.isNumeral_iff.mp (Numeral.isNumeral_digits stamp.year)
  obtain ⟨c, rest, hyear⟩ := List.exists_cons_of_ne_nil hne
  rw [hyear] at hdigits
  have hcs := eq_display_of_read? h
  simp only [displayItems_cons, displayItems_nil, Item.display, Field.display, hyear] at hcs
  subst hcs
  exact ⟨c, _, rfl, hdigits c List.mem_cons_self⟩

theorem Timestamp.read?_eq_none {c : Char} {cs : List Char} (h : c.isDigit = false) :
    read? Value.readingPattern (String.ofList (c :: cs)) = none := by
  refine Option.eq_none_iff_forall_ne_some.mpr fun stamp hstamp => ?_
  obtain ⟨d, rest, hcs, hd⟩ := exists_isDigit_of_read? hstamp
  obtain ⟨rfl, -⟩ := List.cons.inj hcs
  simp [h] at hd

namespace Text

variable {c : Char} {cs letters digits : List Char} {negative : Bool}

/-- Letters, digits and underscores may stand anywhere in an argument. -/
theorem isPlain_of_continuesIdentifier (h : Value.continuesIdentifier c) :
    IsPlain c ∧ ¬ isBlank c := by
  have hne : ∀ d, Value.continuesIdentifier d = false → c ≠ d := by
    rintro d hd rfl
    simp [h] at hd
  refine ⟨⟨?_, hne ',' (by decide)⟩, fun hblank => ?_⟩
  · simp [turn, hne '(' (by decide), hne ')' (by decide)]
  · simp [Value.continuesIdentifier_eq_false_of_isBlank hblank] at h

theorem isPlain_of_isDigit (h : c.isDigit) : IsPlain c ∧ ¬ isBlank c :=
  isPlain_of_continuesIdentifier (by simp [Value.continuesIdentifier, Char.isAlphanum, h])

theorem isPlain_of_isAlpha (h : c.isAlpha) : IsPlain c ∧ ¬ isBlank c :=
  isPlain_of_continuesIdentifier (by simp [Value.continuesIdentifier, Char.isAlphanum, h])

theorem isArgument_of_forall (h : ∀ c ∈ cs, IsPlain c ∧ ¬ isBlank c) : IsArgument cs where
  whole := whole_of_plain fun c hc => (h c hc).1
  trimmed := trim_eq_self (fun c hc => (h c (List.mem_of_mem_head? hc)).2)
    fun c hc => (h c (List.mem_of_mem_getLast? hc)).2

theorem isDigit_eq_false_of_startsIdentifier (h : Value.startsIdentifier c) :
    c.isDigit = false := by
  by_contra hdigit
  rw [Bool.not_eq_false] at hdigit
  have hunderscore := Numeral.isDigit_ne (d := '_') hdigit (by decide)
  simp [Value.startsIdentifier, isAlpha_eq_false_of_isDigit hdigit, hunderscore] at h

theorem not_overlong_of_startsIdentifier (h : Value.startsIdentifier c) : ¬ Overlong (c :: cs) := by
  intro hlong
  have hbracket : c ≠ '[' := by
    rintro rfl
    exact absurd h (by decide)
  have hcandidate := candidate_of_overlong hlong
  simp [candidate, h, hbracket] at hcandidate

/-- A label within the limit of digits is not too long. -/
theorem not_overlong_of_label (hletters : Column.isLetters letters)
    (hdigits : Numeral.isNumeral digits) (hshort : digits.length ≤ Numeral.limit) :
    ¬ Overlong ('[' :: (letters ++ digits ++ [']'])) := by
  have hfits : Form.reference.Fits ('[' :: (letters ++ digits ++ [']'])) :=
    ⟨_, letters, digits, rfl, hletters, hdigits, rfl⟩
  rintro ⟨cause, h⟩
  cases h with
  | decimal hdecimal _ => exact hfits.not_fits (g := .decimal) (by decide) ⟨_, _, _, hdecimal⟩
  | numeral hothers hlong =>
      obtain ⟨hothers, ⟨negative, hsigned⟩ | ⟨letters', hcs, hletters'⟩⟩ := hothers
      · exact hfits.not_isInteger (by decide) _ ⟨negative, _, hsigned, hothers, rfl⟩
      · have hparts := Label.parts_eq_some_iff.mpr ⟨.inr rfl, hletters, hdigits⟩
        have hparts' := Label.parts_eq_some_iff.mpr ⟨.inr hcs, hletters', hothers⟩
        obtain ⟨-, rfl⟩ := Prod.mk.inj (Option.some.inj (hparts.symm.trans hparts'))
        omega

end Text

namespace Value

open Text

variable {cs name inner : List Char} {v : Value} {operands : List Value}

/-- No float occurs anywhere in the value. -/
inductive FloatFree : Value → Prop where
  | simple {value : Simple} :
      (∀ x precision, value ≠ .float x precision) → FloatFree (.simple value)
  | call {function : String} {operands : List Value} :
      (∀ v ∈ operands, FloatFree v) → FloatFree (.call function operands)
  | reference (cell : Cell) : FloatFree (.reference cell)

/-- The value is displayed as a text that is read as it again: the text that is given,
or one that may be an argument. -/
def Redisplays (cs : List Char) (v : Value) : Prop :=
  ∃ shown, v.display = .ok (String.ofList shown) ∧ readChars readingPattern shown = .ok v ∧
    (shown = cs ∨ shown ≠ [] ∧ IsArgument shown)

theorem redisplays_integer (n : Integer) : Redisplays cs (.simple (.integer n)) := by
  have hshown := Numeral.toList_toString n.toInt
  obtain ⟨hne, hdigits⟩ := Numeral.isNumeral_iff.mp (Numeral.isNumeral_digits n.toInt.natAbs)
  have hchars : ∀ c ∈ (toString n.toInt).toList, c = '-' ∨ c.isDigit := by
    intro c hc
    rw [hshown] at hc
    split at hc
    · exact (List.mem_cons.mp hc).imp_right (hdigits c)
    · exact .inr (hdigits c hc)
  have hstamp :
      Timestamp.read? readingPattern (String.ofList (toString n.toInt).toList) = none := by
    refine Option.eq_none_iff_forall_ne_some.mpr fun stamp hstamp => ?_
    exact absurd (hchars ' ' (Timestamp.blank_mem_of_read? hstamp)) (by decide)
  have hshort : ¬ Overlong (toString n.toInt).toList := by
    intro hlong
    have hlimit := limit_lt_length_of_overlong hlong
    have hlength : (Numeral.digits n.toInt.natAbs).length ≤ 10 := by
      have hrange := n.inRange
      exact (Nat.length_toDigits_le_iff (by decide) (by decide)).mpr (by omega)
    rw [hshown, Numeral.limit] at hlimit
    split at hlimit
    · rw [List.length_cons] at hlimit
      omega
    · omega
  refine ⟨(toString n.toInt).toList, by rw [String.ofList_toList]; rfl, ?_, .inr ⟨?_, ?_⟩⟩
  · exact readChars_of_denotes (.integer hstamp (Numeral.isInteger_toString _)) fun _ => hshort
  · rw [hshown]
    split
    · simp
    · exact hne
  · apply isArgument_of_forall
    intro c hc
    rcases hchars c hc with rfl | hdigit
    · exact ⟨by decide, by decide⟩
    · exact isPlain_of_isDigit hdigit

theorem redisplays_reference {cell : Cell} (h : IsReference cs cell) (hshort : ¬ Overlong cs) :
    Redisplays cs (.reference cell) := by
  obtain ⟨letters, digits, rfl, hletters, hdigits, rfl⟩ := h
  have hlimit : digits.length ≤ Numeral.limit :=
    Nat.not_lt.mp (HasDigits.not_limit_lt ⟨hdigits, .inr ⟨letters, rfl, hletters⟩⟩ hshort)
  have hwritten := (Numeral.length_digits_value_le hdigits).trans hlimit
  have hletters' := Column.isLetters_letters (Column.index letters)
  have hdigits' := Numeral.isNumeral_digits (Numeral.value digits)
  refine ⟨'[' :: (Column.letters (Column.index letters) ++ Numeral.digits (Numeral.value digits) ++
    [']']), ?_, ?_, .inr ⟨by simp, ?_⟩⟩
  · have hdisplay : display (.reference ⟨Numeral.value digits, Column.index letters⟩) =
        DisplayFault.ofLabel (Cell.bracketedLabel ⟨Numeral.value digits, Column.index letters⟩) := by
      rw [display]
    rw [hdisplay, Cell.bracketedLabel, Cell.label_eq_ok hwritten]
    refine congrArg Except.ok (String.toList_injective ?_)
    simp
  · apply readChars_of_denotes
    · refine .reference (Timestamp.read?_eq_none (by decide)) ⟨_, _, rfl, hletters', hdigits', ?_⟩
      rw [Numeral.value_digits, Column.index_letters]
    · exact fun _ => not_overlong_of_label hletters' hdigits' hwritten
  · apply isArgument_of_forall
    simp only [List.forall_mem_cons, List.forall_mem_append]
    refine ⟨by decide, ⟨?_, ?_⟩, by decide, by simp⟩
    · exact fun c hc => isPlain_of_isAlpha ((Column.isLetters_iff.mp hletters').2 c hc)
    · exact fun c hc => isPlain_of_isDigit ((Numeral.isNumeral_iff.mp hdigits').2 c hc)

/-- The texts by which the operands of a call are displayed. -/
theorem exists_texts {args : List (List Char)}
    (hread : args.mapM (readChars readingPattern) = .ok operands)
    (h : ∀ argument ∈ args, ∀ w, readChars readingPattern argument = .ok w → w.FloatFree →
      Redisplays argument w)
    (hfree : ∀ w ∈ operands, w.FloatFree) :
    ∃ texts, displayEach operands = .ok (texts.map String.ofList) ∧
      texts.mapM (readChars readingPattern) = .ok operands ∧
      args.Forall₂ (fun argument text => text = argument ∨ text ≠ [] ∧ IsArgument text) texts := by
  rw [Except.mapM_eq_ok_iff] at hread
  induction hread with
  | nil => exact ⟨[], by rw [displayEach]; rfl, rfl, .nil⟩
  | cons hargument hrest ih =>
      obtain ⟨hfirst, hothers⟩ := List.forall_mem_cons.mp h
      obtain ⟨hfree, hfrees⟩ := List.forall_mem_cons.mp hfree
      obtain ⟨shown, hshown, hread, hkind⟩ := hfirst _ hargument hfree
      obtain ⟨texts, htexts, hreads, hkinds⟩ := ih hothers hfrees
      refine ⟨shown :: texts, ?_, ?_, .cons hkind hkinds⟩
      · rw [displayEach, hshown, htexts]
        rfl
      · rw [List.mapM_cons, hread, hreads]
        rfl

theorem forall_isArgument {args texts : List (List Char)}
    (h : args.Forall₂ (fun argument text => text = argument ∨ text ≠ [] ∧ IsArgument text) texts)
    (hargs : ∀ argument ∈ args, IsArgument argument) : ∀ text ∈ texts, IsArgument text := by
  induction h with
  | nil => simp
  | cons hkind _ ih =>
      obtain ⟨hargument, hothers⟩ := List.forall_mem_cons.mp hargs
      refine List.forall_mem_cons.mpr ⟨?_, ih hothers⟩
      rcases hkind with rfl | ⟨-, hkind⟩
      · exact hargument
      · exact hkind

/-- How a call is displayed, by the texts of its operands. -/
def callText (name : List Char) (texts : List (List Char)) : List Char :=
  name ++ '(' :: ([','].intercalate texts ++ [')'])

variable {texts : List (List Char)}

theorem display_call (h : displayEach operands = .ok (texts.map String.ofList)) :
    display (.call (String.ofList name) operands) = .ok (String.ofList (callText name texts)) := by
  rw [display, h]
  refine congrArg Except.ok (String.toList_injective ?_)
  have hcomma : ",".toList = [','] := rfl
  simp [callText, hcomma, Function.comp_def]

theorem isArgument_callText (hname : IsIdentifier name) (h : Balanced ([','].intercalate texts)) :
    IsArgument (callText name texts) := by
  obtain ⟨c, rest, rfl, hc, hrest⟩ := hname
  have hplain : ∀ d ∈ c :: rest, IsPlain d ∧ ¬ isBlank d :=
    List.forall_mem_cons.mpr
      ⟨isPlain_of_continuesIdentifier (continuesIdentifier_of_startsIdentifier hc),
        fun d hd => isPlain_of_continuesIdentifier (hrest d hd)⟩
  constructor
  · rw [callText, whole_plain_append_iff fun d hd => (hplain d hd).1]
    exact whole_parenthesized h
  · apply trim_eq_self
    · intro d hd
      obtain rfl : c = d := by simpa [callText] using hd
      exact (hplain c List.mem_cons_self).2
    · intro d hd
      have hlast : callText (c :: rest) texts =
          c :: rest ++ '(' :: [','].intercalate texts ++ [')'] := by simp [callText]
      rw [hlast, List.getLast?_concat, Option.mem_some] at hd
      obtain rfl := hd
      decide

theorem readChars_callText (hname : Function.isSupported (String.ofList name))
    (hargs : ∀ text ∈ texts, IsArgument text) (hne : texts ≠ [[]])
    (hreads : texts.mapM (readChars readingPattern) = .ok operands) :
    readChars readingPattern (callText name texts) = .ok (.call (String.ofList name) operands) := by
  have hbalanced : Balanced ([','].intercalate texts) :=
    balanced_intercalate fun text htext => (hargs text htext).whole
  have hcall : IsCall (callText name texts) name ([','].intercalate texts) :=
    ⟨hname, hbalanced, [], by simp, by simp [callText]⟩
  obtain ⟨c, rest, rfl, hc, -⟩ := isIdentifier_of_isCall hcall
  apply readChars_of_denotes
  · refine .call (Timestamp.read?_eq_none (isDigit_eq_false_of_startsIdentifier hc)) hcall ?_
    rwa [arguments_intercalate_of_isArgument hargs hne]
  · exact fun _ => not_overlong_of_startsIdentifier hc

theorem redisplays_call (hcall : IsCall cs name inner)
    (hread : (arguments inner).mapM (readChars readingPattern) = .ok operands)
    (h : ∀ argument ∈ arguments inner, ∀ w, readChars readingPattern argument = .ok w →
      w.FloatFree → Redisplays argument w)
    (hfree : ∀ w ∈ operands, w.FloatFree) :
    Redisplays cs (.call (String.ofList name) operands) := by
  obtain ⟨texts, htexts, hreads, hkinds⟩ := exists_texts hread h hfree
  have hargs : ∀ text ∈ texts, IsArgument text :=
    forall_isArgument hkinds fun argument => isArgument_of_mem_arguments hcall.balanced
  have hne : texts ≠ [[]] := by
    rintro rfl
    obtain ⟨argument, others, hkind, hothers, hinner⟩ := List.forall₂_cons_right_iff.mp hkinds
    obtain rfl := List.forall₂_nil_right_iff.mp hothers
    obtain rfl : [] = argument := hkind.resolve_right fun h => h.1 rfl
    exact arguments_ne_singleton_nil hcall.balanced hinner
  have hbalanced : Balanced ([','].intercalate texts) :=
    balanced_intercalate fun text htext => (hargs text htext).whole
  refine ⟨callText name texts, display_call htexts,
    readChars_callText hcall.isSupported hargs hne hreads, .inr ⟨by simp [callText], ?_⟩⟩
  exact isArgument_callText (isIdentifier_of_isCall hcall) hbalanced

theorem redisplays_of_readChars (h : readChars readingPattern cs = .ok v) (hfree : v.FloatFree) :
    Redisplays cs v := by
  induction hlength : cs.length using Nat.strongRecOn generalizing cs v with
  | ind length ih =>
      cases denotes_of_readChars h with
      | empty hcs => exact ⟨cs, by rw [hcs]; rfl, h, .inl rfl⟩
      | dateTime hne hstamp =>
          exact ⟨cs, congrArg Except.ok (Timestamp.display_of_read? hstamp), h, .inl rfl⟩
      | integer => exact redisplays_integer _
      | decimal =>
          cases hfree with
          | simple hne => exact absurd rfl (hne _ _)
      | call hstamp hcall hoperands =>
          cases hfree with
          | call hfree =>
              refine redisplays_call hcall hoperands (fun argument hmem w hw hfree => ?_) hfree
              exact ih argument.length (hlength ▸ length_argument_lt hcall hmem) hw hfree rfl
      | reference hstamp hreference =>
          refine redisplays_reference hreference fun hlong => ?_
          obtain ⟨cause, hcause⟩ := exists_error_of_overlong hstamp hlong
          simp [hcause] at h
      | text => exact ⟨cs, rfl, h, .inl rfl⟩

/-- What was read without a float in it is displayed, and read back from its display. -/
theorem read_display {text : String} (h : read readingPattern text = .ok v) (hfree : v.FloatFree) :
    ∃ shown, v.display = .ok shown ∧ read readingPattern shown = .ok v := by
  rw [read_readingPattern] at h
  obtain ⟨shown, hshown, hread, -⟩ := redisplays_of_readChars h hfree
  exact ⟨_, hshown, by rwa [read_readingPattern, String.toList_ofList]⟩

/-- Blanks and zeros are left out of the display, and small letters made large; the
empty operand stays. -/
theorem read_display_spacedCall :
    ∃ v, read readingPattern "ADD( [a01] ,-007, MOD(,x) )" = .ok v ∧ v.FloatFree ∧
      v.display = .ok "ADD([A1],-7,MOD(,x))" ∧
      read readingPattern "ADD([A1],-7,MOD(,x))" = .ok v := by
  obtain ⟨v, hv⟩ : ∃ v, v = Value.call "ADD" [.reference ⟨1, 0⟩,
    .simple (.integer ⟨-7, by decide⟩), .call "MOD" [.simple .null, .simple (.text "x")]] :=
    ⟨_, rfl⟩
  have hread : read readingPattern "ADD( [a01] ,-007, MOD(,x) )" = .ok v := by
    rw [hv, read_readingPattern]
    cbv
  have hfree : v.FloatFree := by
    rw [hv]
    refine .call ?_
    simp only [List.forall_mem_cons]
    refine ⟨.reference _, .simple (by simp), .call ?_, by simp⟩
    simp only [List.forall_mem_cons]
    exact ⟨.simple (by simp), .simple (by simp), by simp⟩
  have hdisplay : v.display = .ok "ADD([A1],-7,MOD(,x))" := by
    rw [hv]
    cbv
  obtain ⟨shown, hshown, hback⟩ := read_display hread hfree
  obtain rfl := Except.ok.inj (hshown.symm.trans hdisplay)
  exact ⟨v, hread, hfree, hdisplay, hback⟩

end Value

end Worksheet
