/-!
# Parentheses

The nesting of a text is the number of parentheses that it leaves open. A
text is balanced if no prefix closes more than it opens and the whole closes
them all. The scanner finds the parenthesis that closes one opened before
the text.
-/

namespace Worksheet.Text

/-- One for an opening parenthesis, minus one for a closing one. -/
def turn (c : Char) : Int :=
  if c = '(' then 1 else if c = ')' then -1 else 0

def nesting (cs : List Char) : Int :=
  cs.foldr (fun c n => turn c + n) 0

@[simp] theorem nesting_nil : nesting [] = 0 := rfl

@[simp] theorem nesting_cons (c : Char) (cs : List Char) :
    nesting (c :: cs) = turn c + nesting cs := rfl

@[simp] theorem nesting_append (cs ds : List Char) :
    nesting (cs ++ ds) = nesting cs + nesting ds := by
  induction cs with
  | nil => simp
  | cons c cs ih => simp [ih, Int.add_assoc]

structure Balanced (cs : List Char) : Prop where
  /-- No prefix closes more than it opens. -/
  nonneg : ∀ p, p <+: cs → 0 ≤ nesting p
  /-- In all, as many are closed as opened. -/
  settled : nesting cs = 0

/-- Looks for the parenthesis that closes `depth + 1` open ones. Gives the
text up to it, with what was passed before in reverse, and the text after. -/
def scanClosing (depth : Nat) (passed : List Char) : List Char → Option (List Char × List Char)
  | [] => none
  | c :: cs =>
      if c = '(' then scanClosing (depth + 1) (c :: passed) cs
      else if c = ')' then
        match depth with
        | 0 => some (passed.reverse, cs)
        | depth + 1 => scanClosing depth (c :: passed) cs
      else scanClosing depth (c :: passed) cs

def splitClosing? (cs : List Char) : Option (List Char × List Char) :=
  scanClosing 0 [] cs

theorem eq_of_scanClosing {depth : Nat} {passed cs inner rest : List Char}
    (h : scanClosing depth passed cs = some (inner, rest)) :
    passed.reverse ++ cs = inner ++ ')' :: rest := by
  induction cs generalizing depth passed with
  | nil => simp [scanClosing] at h
  | cons c cs ih =>
      simp only [scanClosing] at h
      split at h
      · simpa using ih h
      · split at h
        next hc =>
            cases depth with
            | zero =>
                simp only [Option.some.injEq, Prod.mk.injEq] at h
                simp [hc, ← h.1, ← h.2]
            | succ depth => simpa using ih h
        · simpa using ih h

theorem eq_of_splitClosing? {cs inner rest : List Char}
    (h : splitClosing? cs = some (inner, rest)) : cs = inner ++ ')' :: rest := by
  simpa using eq_of_scanClosing h

end Worksheet.Text
