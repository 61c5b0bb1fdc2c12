import Mathlib.Data.List.Forall2

/-!
# Outcomes of computations in sequence

A sequence of computations succeeds if all of them do, and fails with the
first failure.
-/

namespace Except

variable {ε ε' α β : Type}

@[simp] theorem ok_bind (a : α) (f : α → Except ε β) : (Except.ok a >>= f) = f a := rfl

@[simp] theorem error_bind (e : ε) (f : α → Except ε β) : (Except.error e >>= f) = .error e := rfl

@[simp] theorem bind_eq_ok_iff {x : Except ε α} {f : α → Except ε β} {b : β} :
    (x >>= f) = .ok b ↔ ∃ a, x = .ok a ∧ f a = .ok b := by
  cases x <;> simp

@[simp] theorem bind_eq_error_iff {x : Except ε α} {f : α → Except ε β} {e : ε} :
    (x >>= f) = .error e ↔ x = .error e ∨ ∃ a, x = .ok a ∧ f a = .error e := by
  cases x <;> simp

@[simp] theorem pure_eq_ok (a : α) : (pure a : Except ε α) = .ok a := rfl

@[simp] theorem map_eq_ok_iff {x : Except ε α} {f : α → β} {b : β} :
    x.map f = .ok b ↔ ∃ a, x = .ok a ∧ f a = b := by
  cases x <;> simp [Except.map]

@[simp] theorem map_eq_error_iff {x : Except ε α} {f : α → β} {e : ε} :
    x.map f = .error e ↔ x = .error e := by
  cases x <;> simp [Except.map]

@[simp] theorem mapError_eq_ok_iff {x : Except ε α} {f : ε → ε'} {a : α} :
    x.mapError f = .ok a ↔ x = .ok a := by
  cases x <;> simp [Except.mapError]

@[simp] theorem mapError_eq_error_iff {x : Except ε α} {f : ε → ε'} {e : ε'} :
    x.mapError f = .error e ↔ ∃ cause, x = .error cause ∧ f cause = e := by
  cases x <;> simp [Except.mapError]

@[simp] theorem mapError_ok (f : ε → ε') (a : α) : (Except.ok a).mapError f = .ok a := rfl

@[simp] theorem mapError_error (f : ε → ε') (e : ε) :
    (Except.error e : Except ε α).mapError f = .error (f e) := rfl

theorem mapError_bind (f : ε → ε') (x : Except ε α) (g : α → Except ε β) :
    (x >>= g).mapError f = x.mapError f >>= fun a => (g a).mapError f := by
  cases x <;> rfl

theorem mapM_congr {xs : List α} {f g : α → Except ε β} (h : ∀ x ∈ xs, f x = g x) :
    xs.mapM f = xs.mapM g := by
  induction xs with
  | nil => rfl
  | cons x xs ih =>
      rw [List.mapM_cons, List.mapM_cons, h x List.mem_cons_self,
        ih fun y hy => h y (List.mem_cons_of_mem x hy)]

theorem mapM_eq_ok_iff {xs : List α} {ys : List β} {f : α → Except ε β} :
    xs.mapM f = .ok ys ↔ List.Forall₂ (fun x y => f x = .ok y) xs ys := by
  induction xs generalizing ys with
  | nil => cases ys <;> simp
  | cons x xs ih =>
      simp only [List.mapM_cons, bind_eq_ok_iff, pure_eq_ok, Except.ok.injEq, ih]
      constructor
      · rintro ⟨y, hy, rest, hrest, rfl⟩
        exact .cons hy hrest
      · intro h
        cases h with
        | cons hy hrest => exact ⟨_, hy, _, hrest, rfl⟩

theorem exists_mem_of_mapM {xs : List α} {ys : List β} {f : α → Except ε β}
    (h : xs.mapM f = .ok ys) {x : α} (hx : x ∈ xs) : ∃ y ∈ ys, f x = .ok y := by
  rw [mapM_eq_ok_iff] at h
  induction h with
  | nil => simp at hx
  | @cons w y _ ys hw _ ih =>
      rcases List.mem_cons.mp hx with rfl | hx
      · exact ⟨y, List.mem_cons_self, hw⟩
      · obtain ⟨z, hz, hxz⟩ := ih hx
        exact ⟨z, List.mem_cons_of_mem y hz, hxz⟩

theorem exists_source_of_mapM {xs : List α} {ys : List β} {f : α → Except ε β}
    (h : xs.mapM f = .ok ys) {y : β} (hy : y ∈ ys) : ∃ x ∈ xs, f x = .ok y := by
  rw [mapM_eq_ok_iff] at h
  induction h with
  | nil => simp at hy
  | @cons x z xs _ hx _ ih =>
      rcases List.mem_cons.mp hy with rfl | hy
      · exact ⟨x, List.mem_cons_self, hx⟩
      · obtain ⟨w, hw, hwy⟩ := ih hy
        exact ⟨w, List.mem_cons_of_mem x hw, hwy⟩

theorem exists_mapM_eq_ok_iff {xs : List α} {f : α → Except ε β} :
    (∃ ys, xs.mapM f = .ok ys) ↔ ∀ x ∈ xs, ∃ y, f x = .ok y := by
  induction xs with
  | nil => simp
  | cons x xs ih =>
      simp only [List.mapM_cons, bind_eq_ok_iff, pure_eq_ok, List.forall_mem_cons, ← ih]
      constructor
      · rintro ⟨_, y, hy, ys, hys, -⟩
        exact ⟨⟨y, hy⟩, ys, hys⟩
      · rintro ⟨⟨y, hy⟩, ys, hys⟩
        exact ⟨y :: ys, y, hy, ys, hys, rfl⟩

/-- The computation succeeds at all entries of a list up to one at which it fails. -/
def FailsFirst (f : α → Except ε β) (xs : List α) (x : α) (e : ε) : Prop :=
  ∃ earlier later, xs = earlier ++ x :: later ∧ (∀ y ∈ earlier, ∃ b, f y = .ok b) ∧ f x = .error e

theorem FailsFirst.mem {f : α → Except ε β} {xs : List α} {x : α} {e : ε}
    (h : FailsFirst f xs x e) : x ∈ xs := by
  obtain ⟨earlier, later, rfl, -, -⟩ := h
  simp

/-- Entries that do not fail may be passed over. -/
theorem FailsFirst.of_append {f : α → Except ε β} {xs ys : List α} {x : α} {e : ε}
    (h : FailsFirst f (xs ++ ys) x e) (hxs : ∀ y ∈ xs, ∃ b, f y = .ok b) :
    FailsFirst f ys x e := by
  obtain ⟨earlier, later, heq, hearlier, hx⟩ := h
  rcases List.append_eq_append_iff.mp heq with ⟨rest, rfl, hys⟩ | ⟨rest, rfl, hrest⟩
  · exact ⟨rest, later, hys, fun y hy => hearlier y (List.mem_append_right xs hy), hx⟩
  · cases rest with
    | nil => exact ⟨[], later, by simpa using hrest.symm, by simp, hx⟩
    | cons y rest =>
        obtain ⟨rfl, -⟩ := List.cons.inj hrest
        obtain ⟨b, hb⟩ := hxs x (by simp)
        simp [hb] at hx

/-- The entries of a list up to the first one at which the computation fails, which is the
last of them. -/
def attempted (f : α → Except ε β) : List α → List α
  | [] => []
  | x :: xs =>
    match f x with
    | .ok _ => x :: attempted f xs
    | .error _ => [x]

theorem attempted_of_ok {f : α → Except ε β} {x : α} {y : β} (h : f x = .ok y) (xs : List α) :
    attempted f (x :: xs) = x :: attempted f xs := by
  rw [attempted, h]

theorem attempted_of_error {f : α → Except ε β} {x : α} {e : ε} (h : f x = .error e)
    (xs : List α) : attempted f (x :: xs) = [x] := by
  rw [attempted, h]

theorem attempted_singleton (f : α → Except ε β) (x : α) : attempted f [x] = [x] := by
  cases h : f x with
  | ok y => rw [attempted_of_ok h, attempted]
  | error e => exact attempted_of_error h []

theorem mapM_eq_error_iff {xs : List α} {f : α → Except ε β} {e : ε} :
    xs.mapM f = .error e ↔ ∃ x, FailsFirst f xs x e := by
  induction xs with
  | nil => simp [FailsFirst]
  | cons y ys ih =>
      simp only [List.mapM_cons, bind_eq_error_iff, pure_eq_ok, reduceCtorEq, and_false,
        exists_false, or_false, ih]
      constructor
      · rintro (hy | ⟨b, hb, x, earlier, later, rfl, hearlier, hx⟩)
        · exact ⟨y, [], ys, rfl, by simp, hy⟩
        · exact ⟨x, y :: earlier, later, rfl, List.forall_mem_cons.mpr ⟨⟨b, hb⟩, hearlier⟩, hx⟩
      · rintro ⟨x, earlier, later, heq, hearlier, hx⟩
        cases earlier with
        | nil =>
            obtain ⟨rfl, -⟩ := List.cons.inj heq
            exact .inl hx
        | cons z earlier =>
            obtain ⟨rfl, rfl⟩ := List.cons.inj heq
            obtain ⟨⟨b, hb⟩, hearlier⟩ := List.forall_mem_cons.mp hearlier
            exact .inr ⟨b, hb, x, earlier, later, rfl, hearlier, hx⟩

/-- Where a failure comes to light makes no difference to which is the first. -/
theorem failsFirst_located_iff {γ : Type} {f : α → Except ε β} {locate : α → ε → ε'}
    {tag : α → β → γ} {xs : List α} {x : α} {e : ε'} :
    FailsFirst (fun y => ((f y).mapError (locate y)).map (tag y)) xs x e ↔
      ∃ cause, locate x cause = e ∧ FailsFirst f xs x cause := by
  simp only [FailsFirst, map_eq_ok_iff, mapError_eq_ok_iff, map_eq_error_iff,
    mapError_eq_error_iff]
  grind

/-- In an ordered list the entries before one are those that come before it in
the order. -/
theorem failsFirst_iff_of_pairwise {r : α → α → Prop} (hr : ∀ x y, r x y → ¬ r y x)
    {f : α → Except ε β} {xs : List α} (hxs : xs.Pairwise r) {x : α} {e : ε} :
    FailsFirst f xs x e ↔ x ∈ xs ∧ (∀ y ∈ xs, r y x → ∃ b, f y = .ok b) ∧ f x = .error e := by
  constructor
  · rintro ⟨earlier, later, rfl, hearlier, hx⟩
    refine ⟨by simp, fun y hy hyx => ?_, hx⟩
    rcases List.mem_append.mp hy with hy | hy
    · exact hearlier y hy
    · rcases List.mem_cons.mp hy with rfl | hy
      · exact absurd hyx (hr y y hyx)
      · have hlater := (List.pairwise_append.mp hxs).2.1
        exact absurd hyx (hr x y (List.rel_of_pairwise_cons hlater hy))
  · rintro ⟨hmem, hbefore, hx⟩
    obtain ⟨earlier, later, rfl⟩ := List.append_of_mem hmem
    refine ⟨earlier, later, rfl, fun y hy => ?_, hx⟩
    have hyx : r y x := (List.pairwise_append.mp hxs).2.2 y hy x List.mem_cons_self
    exact hbefore y (List.mem_append_left _ hy) hyx

/-- What each computation takes over from its argument, all take over in turn. -/
theorem map_eq_map_of_mapM {γ : Type} {f : α → Except ε β} {g : α → γ} {h : β → γ}
    (hf : ∀ x y, f x = .ok y → h y = g x) {xs : List α} {ys : List β}
    (hxs : xs.mapM f = .ok ys) : ys.map h = xs.map g := by
  rw [mapM_eq_ok_iff] at hxs
  induction hxs with
  | nil => rfl
  | cons hy _ ih => rw [List.map_cons, List.map_cons, hf _ _ hy, ih]

end Except
