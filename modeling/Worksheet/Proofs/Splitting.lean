import Mathlib
import Worksheet.Proofs.Parentheses
import Worksheet.Text.Arguments

/-!
# Arguments split and joined

A text may stand among arguments if it is balanced and no comma of it is outside
parentheses. Such texts are found again, without the blanks around them, when they
are joined by commas and split; and splitting a balanced text gives only such texts.
-/

namespace Worksheet.Text

variable {depth : Int} {c : Char} {cs ds front back current : List Char} {parts : List (List Char)}

/-- It neither opens nor closes nor separates. -/
def IsPlain (c : Char) : Prop :=
  turn c = 0 ∧ c ≠ ','

instance (c : Char) : Decidable (IsPlain c) :=
  inferInstanceAs (Decidable (_ ∧ _))

/-- No comma of the text is met at depth zero. -/
def Undivided (depth : Int) (cs : List Char) : Prop :=
  ∀ front rest, cs = front ++ ',' :: rest → depth + nesting front ≠ 0

/-- What may stand among arguments. -/
structure Whole (cs : List Char) : Prop where
  balanced : Balanced cs
  undivided : Undivided 0 cs

/-- What is cut out of a balanced text as an argument. -/
structure IsArgument (cs : List Char) : Prop where
  whole : Whole cs
  trimmed : trim cs = cs

theorem isPlain_of_isBlank (h : isBlank c) : IsPlain c := by
  have hopen : c ≠ '(' := by
    rintro rfl
    exact absurd h (by decide)
  have hclose : c ≠ ')' := by
    rintro rfl
    exact absurd h (by decide)
  refine ⟨by simp [turn, hopen, hclose], ?_⟩
  rintro rfl
  exact absurd h (by decide)

@[simp] theorem undivided_nil : Undivided depth [] := by
  intro front rest h
  simp at h

theorem undivided_cons_iff :
    Undivided depth (c :: cs) ↔ ¬ (c = ',' ∧ depth = 0) ∧ Undivided (depth + turn c) cs := by
  constructor
  · intro h
    refine ⟨?_, fun front rest hcs => ?_⟩
    · rintro ⟨rfl, rfl⟩
      exact h [] cs rfl (by simp)
    · simpa [Int.add_assoc] using h (c :: front) rest (by rw [hcs, List.cons_append])
  · rintro ⟨hc, h⟩ front rest hcs
    cases front with
    | nil =>
        obtain ⟨rfl, rfl⟩ := List.cons.inj hcs
        simpa using hc
    | cons d front =>
        obtain ⟨rfl, rfl⟩ := List.cons.inj hcs
        simpa [Int.add_assoc] using h front rest rfl

theorem undivided_append_iff (h : ',' ∉ back) :
    Undivided depth (cs ++ back) ↔ Undivided depth cs := by
  induction cs generalizing depth with
  | nil =>
      refine iff_of_true (fun front rest hback => ?_) undivided_nil
      rw [List.nil_append] at hback
      exact absurd (hback ▸ List.mem_append_right front List.mem_cons_self) h
  | cons c cs ih => rw [List.cons_append, undivided_cons_iff, undivided_cons_iff, ih]

theorem Closes.append {more : Int} (h : Closes depth cs) (hds : Closes more ds) :
    Closes (depth + more) (cs ++ ds) := by
  induction cs generalizing depth with
  | nil =>
      obtain rfl := closes_nil_iff.mp h
      simpa using hds
  | cons c cs ih =>
      obtain ⟨hdepth, hcs⟩ := closes_cons_iff.mp h
      have hmore := hds.depth_nonneg
      refine closes_cons_iff.mpr ⟨by omega, ?_⟩
      rw [Int.add_right_comm]
      exact ih hcs

theorem closes_plain_append_iff (h : ∀ c ∈ front, IsPlain c) :
    Closes depth (front ++ cs) ↔ Closes depth cs := by
  induction front with
  | nil => rfl
  | cons c front ih =>
      obtain ⟨⟨hturn, -⟩, hfront⟩ := List.forall_mem_cons.mp h
      rw [List.cons_append, closes_cons_iff, hturn, Int.add_zero, ih hfront]
      exact and_iff_right_of_imp Closes.depth_nonneg

theorem undivided_plain_append_iff (h : ∀ c ∈ front, IsPlain c) :
    Undivided depth (front ++ cs) ↔ Undivided depth cs := by
  induction front with
  | nil => rfl
  | cons c front ih =>
      obtain ⟨⟨hturn, hcomma⟩, hfront⟩ := List.forall_mem_cons.mp h
      rw [List.cons_append, undivided_cons_iff, hturn, Int.add_zero, ih hfront]
      simp [hcomma]

theorem closes_append_plain_iff (h : ∀ c ∈ back, IsPlain c) :
    Closes depth (cs ++ back) ↔ Closes depth cs := by
  induction cs generalizing depth with
  | nil =>
      have hback : Closes depth (back ++ []) ↔ Closes depth [] := closes_plain_append_iff h
      simpa using hback
  | cons c cs ih => rw [List.cons_append, closes_cons_iff, closes_cons_iff, ih]

theorem whole_plain_append_iff (h : ∀ c ∈ front, IsPlain c) : Whole (front ++ cs) ↔ Whole cs := by
  constructor
  · rintro ⟨hbalanced, hundivided⟩
    rw [← closes_zero_iff, closes_plain_append_iff h, closes_zero_iff] at hbalanced
    exact ⟨hbalanced, (undivided_plain_append_iff h).mp hundivided⟩
  · rintro ⟨hbalanced, hundivided⟩
    refine ⟨?_, (undivided_plain_append_iff h).mpr hundivided⟩
    rwa [← closes_zero_iff, closes_plain_append_iff h, closes_zero_iff]

theorem whole_of_plain (h : ∀ c ∈ cs, IsPlain c) : Whole cs := by
  rw [← List.append_nil cs, whole_plain_append_iff h]
  exact ⟨closes_zero_iff.mp (closes_nil_iff.mpr rfl), undivided_nil⟩

/-- A balanced text in parentheses may stand among arguments whatever its commas. -/
theorem whole_parenthesized (h : Balanced cs) : Whole ('(' :: (cs ++ [')'])) := by
  constructor
  · have hclose : Closes 1 [')'] := by simp [closes_cons_iff, turn]
    have hinner := (closes_zero_iff.mpr h).append hclose
    exact closes_zero_iff.mp (closes_cons_iff.mpr ⟨le_rfl, hinner⟩)
  · rw [undivided_cons_iff, undivided_append_iff (by simp)]
    refine ⟨by simp, fun front rest hcs => ?_⟩
    have hnonneg := h.nonneg front ⟨_, hcs.symm⟩
    have hturn : turn '(' = 1 := rfl
    omega

theorem trimRight_eq_rdropWhile (cs : List Char) : trimRight cs = cs.rdropWhile isBlank := rfl

/-- The text is what is left of it between blanks. -/
theorem exists_blanks_trim (cs : List Char) :
    ∃ front back, cs = front ++ trim cs ++ back ∧ (∀ c ∈ front, isBlank c) ∧
      ∀ c ∈ back, isBlank c := by
  refine ⟨cs.takeWhile isBlank, (trimLeft cs).rtakeWhile isBlank, ?_, ?_, ?_⟩
  · rw [List.append_assoc, trim, trimRight_eq_rdropWhile, List.rdropWhile_append_rtakeWhile,
      trimLeft, List.takeWhile_append_dropWhile]
  · exact fun c hc => List.mem_takeWhile_imp hc
  · exact fun c hc => List.mem_rtakeWhile_imp hc

theorem trim_eq_nil_iff : trim cs = [] ↔ ∀ c ∈ cs, isBlank c := by
  constructor
  · intro htrim
    obtain ⟨front, back, hcs, hfront, hback⟩ := exists_blanks_trim cs
    rw [hcs, htrim, List.append_nil]
    exact List.forall_mem_append.mpr ⟨hfront, hback⟩
  · intro h
    rw [trim, trimLeft, List.dropWhile_eq_nil_iff.mpr h]
    rfl

theorem trim_eq_self (hfirst : ∀ c ∈ cs.head?, ¬ isBlank c)
    (hlast : ∀ c ∈ cs.getLast?, ¬ isBlank c) : trim cs = cs := by
  have hleft : trimLeft cs = cs := by
    cases cs with
    | nil => rfl
    | cons c cs => exact List.dropWhile_cons_of_neg (hfirst c rfl)
  rw [trim, hleft, trimRight_eq_rdropWhile, List.rdropWhile_eq_self_iff]
  exact fun hne => hlast _ (List.getLast?_eq_some_getLast hne)

theorem trim_trim (cs : List Char) : trim (trim cs) = trim cs := by
  apply trim_eq_self
  · intro c hc
    have hprefix : trim cs <+: trimLeft cs := List.rdropWhile_prefix isBlank _
    have hfirst := List.head?_dropWhile_not isBlank cs
    obtain ⟨rest, hrest⟩ := List.head?_eq_some_iff.mp hc
    obtain ⟨after, hafter⟩ := hprefix
    rw [← trimLeft, ← hafter, hrest] at hfirst
    simpa using hfirst
  · intro c hc
    obtain ⟨hne, rfl⟩ := List.mem_getLast?_eq_getLast hc
    exact List.rdropWhile_last_not isBlank (trimLeft cs) hne

theorem Whole.trim (h : Whole cs) : Whole (trim cs) := by
  obtain ⟨front, back, hcs, hfront, hback⟩ := exists_blanks_trim cs
  have hplain : ∀ c ∈ back, IsPlain c := fun c hc => isPlain_of_isBlank (hback c hc)
  rw [hcs, List.append_assoc, whole_plain_append_iff fun c hc => isPlain_of_isBlank (hfront c hc)]
    at h
  refine ⟨?_, (undivided_append_iff fun hc => (hplain _ hc).2 rfl).mp h.undivided⟩
  rw [← closes_zero_iff, ← closes_append_plain_iff hplain, closes_zero_iff]
  exact h.balanced

/-- The scanner passes over a text in which no comma is met at depth zero. -/
theorem cut_append (h : Undivided depth front) :
    cut depth current (front ++ cs) =
      cut (depth + nesting front) (front.reverse ++ current) cs := by
  induction front generalizing depth current with
  | nil => simp
  | cons c front ih =>
      obtain ⟨hc, hfront⟩ := undivided_cons_iff.mp h
      have hrest : cut (depth + turn c) (c :: current) (front ++ cs) =
          cut (depth + turn c + nesting front) (front.reverse ++ c :: current) cs := ih hfront
      by_cases hopen : c = '('
      · subst hopen
        simpa [cut, turn, Int.add_assoc] using hrest
      · by_cases hclose : c = ')'
        · subst hclose
          simpa [cut, turn, Int.add_assoc, Int.sub_eq_add_neg] using hrest
        · simpa [cut, turn, hopen, hclose, hc, Int.add_assoc] using hrest

theorem cut_intercalate (hne : parts ≠ []) (h : ∀ part ∈ parts, Whole part) :
    cut 0 [] ([','].intercalate parts) = parts.map trim := by
  induction parts with
  | nil => exact absurd rfl hne
  | cons part parts ih =>
      obtain ⟨⟨hbalanced, hundivided⟩, hparts⟩ := List.forall_mem_cons.mp h
      have hsettled : (0 : Int) + nesting part = 0 := by simpa using hbalanced.settled
      cases parts with
      | nil =>
          rw [List.intercalate_singleton, ← List.append_nil part,
            cut_append (by simpa using hundivided)]
          simp [cut]
      | cons next parts =>
          rw [List.intercalate_cons_cons, List.append_assoc, cut_append hundivided, hsettled]
          simp [cut, ih (by simp) hparts]

/-- A text that closes what is open before it is joined from a first part that does and
others that may stand among arguments. -/
theorem exists_parts_of_closes (h : Closes depth cs) :
    ∃ part parts, cs = [','].intercalate (part :: parts) ∧ Closes depth part ∧
      Undivided depth part ∧ ∀ other ∈ parts, Whole other := by
  induction cs generalizing depth with
  | nil => exact ⟨[], [], by simp, h, undivided_nil, by simp⟩
  | cons c cs ih =>
      obtain ⟨hdepth, hcs⟩ := closes_cons_iff.mp h
      obtain ⟨part, parts, rfl, hpart, hundivided, hparts⟩ := ih hcs
      by_cases hcomma : c = ',' ∧ depth = 0
      · obtain ⟨rfl, rfl⟩ := hcomma
        refine ⟨[], part :: parts, by simp, closes_nil_iff.mpr rfl, undivided_nil, ?_⟩
        have hwhole : Whole part := ⟨closes_zero_iff.mp hpart, hundivided⟩
        exact List.forall_mem_cons.mpr ⟨hwhole, hparts⟩
      · refine ⟨c :: part, parts, ?_, closes_cons_iff.mpr ⟨hdepth, hpart⟩,
          undivided_cons_iff.mpr ⟨hcomma, hundivided⟩, hparts⟩
        cases parts <;> simp

theorem exists_parts (h : Balanced cs) :
    ∃ parts, parts ≠ [] ∧ cs = [','].intercalate parts ∧ ∀ part ∈ parts, Whole part := by
  obtain ⟨part, parts, hcs, hpart, hundivided, hparts⟩ :=
    exists_parts_of_closes (closes_zero_iff.mpr h)
  exact ⟨part :: parts, by simp, hcs, List.forall_mem_cons.mpr
    ⟨⟨closes_zero_iff.mp hpart, hundivided⟩, hparts⟩⟩

theorem balanced_intercalate (h : ∀ part ∈ parts, Whole part) :
    Balanced ([','].intercalate parts) := by
  rw [← closes_zero_iff]
  induction parts with
  | nil => simp
  | cons part parts ih =>
      obtain ⟨⟨hbalanced, -⟩, hparts⟩ := List.forall_mem_cons.mp h
      have hpart := closes_zero_iff.mpr hbalanced
      cases parts with
      | nil => simpa using hpart
      | cons next parts =>
          have hcomma : Closes 0 ([','] ++ [','].intercalate (next :: parts)) :=
            closes_cons_iff.mpr ⟨le_rfl, ih hparts⟩
          rw [List.intercalate_cons_cons, List.append_assoc]
          exact hpart.append hcomma

/-- Parts that are joined by commas are found again, but for a single blank one. -/
theorem arguments_intercalate (hne : parts ≠ []) (h : ∀ part ∈ parts, Whole part)
    (hblank : ∀ part, parts = [part] → trim part ≠ []) :
    arguments ([','].intercalate parts) = parts.map trim := by
  have hfull : trim ([','].intercalate parts) ≠ [] := by
    obtain ⟨part, rest, rfl⟩ := List.exists_cons_of_ne_nil hne
    cases rest with
    | nil => simpa using hblank part rfl
    | cons next rest =>
        intro htrim
        have hcomma : isBlank ',' := trim_eq_nil_iff.mp htrim ',' (by simp)
        exact absurd hcomma (by decide)
  rw [arguments, if_neg (by simpa using hfull), cut_intercalate hne h]

/-- A balanced text is split where it was joined. -/
theorem exists_parts_of_arguments (h : Balanced cs) (hfull : trim cs ≠ []) :
    ∃ parts, parts ≠ [] ∧ cs = [','].intercalate parts ∧ (∀ part ∈ parts, Whole part) ∧
      arguments cs = parts.map trim := by
  obtain ⟨parts, hne, hcs, hwhole⟩ := exists_parts h
  refine ⟨parts, hne, hcs, hwhole, ?_⟩
  rw [arguments, if_neg (by simpa using hfull), hcs, cut_intercalate hne hwhole]

theorem isArgument_of_mem_arguments (h : Balanced cs) (hds : ds ∈ arguments cs) :
    IsArgument ds := by
  have hfull : trim cs ≠ [] := by
    intro htrim
    simp [arguments, htrim] at hds
  obtain ⟨parts, -, -, hwhole, harguments⟩ := exists_parts_of_arguments h hfull
  rw [harguments] at hds
  obtain ⟨part, hpart, rfl⟩ := List.mem_map.mp hds
  exact ⟨(hwhole part hpart).trim, trim_trim part⟩

/-- There is never just an empty argument. -/
theorem arguments_ne_singleton_nil (h : Balanced cs) : arguments cs ≠ [[]] := by
  by_cases hfull : trim cs = []
  · simp [arguments, hfull]
  · obtain ⟨parts, hne, rfl, -, harguments⟩ := exists_parts_of_arguments h hfull
    intro hsingle
    obtain ⟨part, rest, rfl⟩ := List.exists_cons_of_ne_nil hne
    obtain ⟨htrim, hrest⟩ := List.cons.inj (harguments.symm.trans hsingle)
    obtain rfl := List.map_eq_nil_iff.mp hrest
    simp [htrim] at hfull

/-- Arguments that are joined are found again as they are. -/
theorem arguments_intercalate_of_isArgument (h : ∀ part ∈ parts, IsArgument part)
    (hne : parts ≠ [[]]) : arguments ([','].intercalate parts) = parts := by
  by_cases hparts : parts = []
  · simp [hparts, arguments]
  · have htrimmed : parts.map trim = parts := by
      rw [List.map_congr_left fun part hpart => (h part hpart).trimmed, List.map_id']
    rw [arguments_intercalate hparts fun part hpart => (h part hpart).whole, htrimmed]
    rintro part rfl htrim
    rw [(h part List.mem_cons_self).trimmed] at htrim
    exact hne (by rw [htrim])

/-- The places of the commas that are met at depth zero are counted. -/
def separators (depth : Int) (cs : List Char) : Nat :=
  (List.range cs.length).countP fun i => cs[i]? = some ',' ∧ depth + nesting (cs.take i) = 0

/-- The first text is the second with blanks around it. -/
def IsPadded (padded cs : List Char) : Prop :=
  ∃ front back, padded = front ++ cs ++ back ∧ (∀ c ∈ front, isBlank c) ∧ ∀ c ∈ back, isBlank c

theorem separators_cons :
    separators depth (c :: cs) =
      separators (depth + turn c) cs + if c = ',' ∧ depth = 0 then 1 else 0 := by
  have hlater : ∀ i, ((c :: cs)[i + 1]? = some ',' ∧
      depth + nesting ((c :: cs).take (i + 1)) = 0) ↔
        cs[i]? = some ',' ∧ depth + turn c + nesting (cs.take i) = 0 := by
    simp [Int.add_assoc]
  rw [separators, separators, List.length_cons, List.range_succ_eq_map, List.countP_cons,
    List.countP_map]
  congr 1
  · refine List.countP_congr fun i _ => ?_
    simp only [Function.comp_apply, decide_eq_true_eq]
    exact hlater i
  · simp

theorem separators_append (depth : Int) (cs ds : List Char) :
    separators depth (cs ++ ds) = separators depth cs + separators (depth + nesting cs) ds := by
  induction cs generalizing depth with
  | nil => simp [separators]
  | cons c cs ih =>
      rw [List.cons_append, separators_cons, separators_cons, ih, nesting_cons, Int.add_assoc]
      omega

theorem separators_eq_zero (h : Undivided depth cs) : separators depth cs = 0 := by
  induction cs generalizing depth with
  | nil => simp [separators]
  | cons c cs ih =>
      obtain ⟨hc, hcs⟩ := undivided_cons_iff.mp h
      rw [separators_cons, ih hcs, if_neg hc]

/-- Parts are separated by one comma less than there are parts. -/
theorem separators_intercalate (hne : parts ≠ []) (h : ∀ part ∈ parts, Whole part) :
    separators 0 ([','].intercalate parts) + 1 = parts.length := by
  induction parts with
  | nil => exact absurd rfl hne
  | cons part parts ih =>
      obtain ⟨hpart, hparts⟩ := List.forall_mem_cons.mp h
      have hzero := separators_eq_zero hpart.undivided
      cases parts with
      | nil => rw [List.intercalate_singleton, hzero, List.length_singleton]
      | cons next parts =>
          have hrest := ih (by simp) hparts
          have hcomma : turn ',' = 0 := rfl
          rw [List.intercalate_cons_cons, List.append_assoc, separators_append, hzero,
            hpart.balanced.settled, List.singleton_append, separators_cons, hcomma]
          simp only [Int.add_zero, and_self, if_true, List.length_cons] at hrest ⊢
          omega

theorem isPadded_trim (cs : List Char) : IsPadded cs (trim cs) :=
  exists_blanks_trim cs

/-- Splitting undoes joining, but for blanks around the parts. A balanced text is split at the
commas outside parentheses, and nothing but blanks beside them and at its ends is lost. -/
theorem arguments_undo_intercalate :
    (∀ parts, parts ≠ [] → (∀ part ∈ parts, Whole part) →
      (∀ part, parts = [part] → trim part ≠ []) →
        arguments ([','].intercalate parts) = parts.map trim) ∧
    ∀ cs, Balanced cs → trim cs ≠ [] →
      (arguments cs).length = separators 0 cs + 1 ∧
      (∀ argument ∈ arguments cs, IsArgument argument) ∧
      ∃ parts, cs = [','].intercalate parts ∧ (∀ part ∈ parts, Whole part) ∧
        parts.Forall₂ IsPadded (arguments cs) := by
  refine ⟨fun parts => arguments_intercalate, fun cs hbalanced hfull => ?_⟩
  obtain ⟨parts, hne, hcs, hwhole, harguments⟩ := exists_parts_of_arguments hbalanced hfull
  refine ⟨?_, fun argument => isArgument_of_mem_arguments hbalanced, parts, hcs, hwhole, ?_⟩
  · rw [harguments, List.length_map, hcs, separators_intercalate hne hwhole]
  · rw [harguments, List.forall₂_map_right_iff, List.forall₂_same]
    exact fun part _ => isPadded_trim part

/-- An empty part and a blank one stand beside one with commas in parentheses. -/
theorem arguments_undo_intercalate_nested :
    arguments " f((a,),b) ,, ".toList = ["f((a,),b)".toList, [], []] ∧
      separators 0 " f((a,),b) ,, ".toList = 2 := by
  have hpart : Whole " f((a,),b) ".toList := by
    refine ⟨closes_zero_iff.mp (by simp [closes_cons_iff, turn]), ?_⟩
    simp [undivided_cons_iff, turn]
  have hblank : Whole [' '] := whole_of_plain (by simp [IsPlain, turn])
  have hempty : Whole [] := whole_of_plain (by simp)
  have hwhole : ∀ part ∈ [" f((a,),b) ".toList, [], [' ']], Whole part := by
    simp only [List.forall_mem_cons]
    exact ⟨hpart, hempty, hblank, by simp⟩
  have hjoined : [','].intercalate [" f((a,),b) ".toList, [], [' ']] = " f((a,),b) ,, ".toList := by
    decide
  have hsplit := arguments_undo_intercalate.1 _ (by simp) hwhole (by simp)
  rw [hjoined] at hsplit
  have hbalanced : Balanced " f((a,),b) ,, ".toList := hjoined ▸ balanced_intercalate hwhole
  have hcount := (arguments_undo_intercalate.2 _ hbalanced (by decide)).1
  refine ⟨hsplit, ?_⟩
  rw [hsplit] at hcount
  exact (Nat.succ.inj hcount).symm

end Worksheet.Text
