import Mathlib.Data.List.Forall2

/-!
# Traversals that stop at the first failure

Generation, conversion and the listing all walk lists in the `Except` monad.
This module says once what such a walk gives: its results element by element
when nothing fails, and otherwise the failure of the first element that has one.
-/

namespace NativeGlue

variable {ε α β γ : Type}

theorem bind_eq_ok_iff
    {x : Except ε α} {f : α → Except ε β} {b : β} :
    (x >>= f) = .ok b ↔ ∃ a, x = .ok a ∧ f a = .ok b := by
  cases x with
  | error e => simp [bind, Except.bind]
  | ok a => simp [bind, Except.bind]

theorem bind_eq_error_iff
    {x : Except ε α} {f : α → Except ε β} {e : ε} :
    (x >>= f) = .error e ↔
      x = .error e ∨ ∃ a, x = .ok a ∧ f a = .error e := by
  cases x with
  | error e' => simp [bind, Except.bind]
  | ok a => simp [bind, Except.bind]

@[simp] theorem mapError_eq_ok_iff
    {δ : Type} {x : Except ε α} {f : ε → δ} {a : α} :
    x.mapError f = .ok a ↔ x = .ok a := by
  cases x with
  | error e => simp [Except.mapError]
  | ok b => simp [Except.mapError]

theorem mapError_eq_error_iff
    {δ : Type} {x : Except ε α} {f : ε → δ} {d : δ} :
    x.mapError f = .error d ↔ ∃ e, x = .error e ∧ d = f e := by
  cases x with
  | error e => simp [Except.mapError, eq_comm]
  | ok b => simp [Except.mapError]

/-- A result is either a success or a failure, so one that is never a failure
is a success. -/
theorem exists_ok_iff_forall_ne_error {x : Except ε α} :
    (∃ a, x = .ok a) ↔ ∀ e, x ≠ .error e := by
  cases x with
  | error e => simp
  | ok a => simp

/-- What stands on the right of a relation between lists stands there for
something on the left. -/
theorem exists_mem_of_forall₂
    {R : α → β → Prop} {xs : List α} {ys : List β}
    (h : List.Forall₂ R xs ys) {y : β} (hy : y ∈ ys) :
    ∃ x ∈ xs, R x y := by
  induction h with
  | nil => cases hy
  | @cons x y' xs ys hxy _ ih =>
      rcases List.mem_cons.mp hy with rfl | hy
      · exact ⟨x, List.mem_cons_self, hxy⟩
      · obtain ⟨x', hx', hR⟩ := ih hy
        exact ⟨x', List.mem_cons_of_mem x hx', hR⟩

/-- A walk succeeds with the results of its elements. -/
theorem mapM_eq_ok_iff
    {f : α → Except ε β} {xs : List α} {ys : List β} :
    xs.mapM f = .ok ys ↔ List.Forall₂ (fun x y => f x = .ok y) xs ys := by
  induction xs generalizing ys with
  | nil =>
      rw [List.forall₂_nil_left_iff, List.mapM_nil]
      exact ⟨fun h => (Except.ok.inj h).symm, fun h => by rw [h]; rfl⟩
  | cons x xs ih =>
      rw [List.mapM_cons, List.forall₂_cons_left_iff, bind_eq_ok_iff]
      constructor
      · rintro ⟨y, hy, hrest⟩
        obtain ⟨zs, hzs, hout⟩ := bind_eq_ok_iff.mp hrest
        exact ⟨y, zs, hy, ih.mp hzs, (Except.ok.inj hout).symm⟩
      · rintro ⟨y, zs, hy, hzs, rfl⟩
        exact ⟨y, hy, bind_eq_ok_iff.mpr ⟨zs, ih.mpr hzs, rfl⟩⟩

/-- The walk along `xs` fails with `e`: an element fails with it, and every
element before that one succeeds. -/
def FailsFirst (f : α → Except ε β) (xs : List α) (e : ε) : Prop :=
  ∃ before x after, xs = before ++ x :: after ∧
    (∀ y ∈ before, ∃ b, f y = .ok b) ∧ f x = .error e

theorem failsFirst_cons_iff
    {f : α → Except ε β} {x : α} {xs : List α} {e : ε} :
    FailsFirst f (x :: xs) e ↔
      f x = .error e ∨ (∃ b, f x = .ok b) ∧ FailsFirst f xs e := by
  constructor
  · rintro ⟨before, y, after, hsplit, hbefore, hy⟩
    cases before with
    | nil =>
        obtain ⟨rfl, -⟩ := List.cons.inj hsplit
        exact Or.inl hy
    | cons z before =>
        obtain ⟨rfl, htail⟩ := List.cons.inj hsplit
        rw [List.forall_mem_cons] at hbefore
        exact Or.inr ⟨hbefore.1, before, y, after, htail, hbefore.2, hy⟩
  · rintro (hx | ⟨hx, before, y, after, rfl, hbefore, hy⟩)
    · exact ⟨[], x, xs, rfl, by simp, hx⟩
    · exact ⟨x :: before, y, after, rfl,
        List.forall_mem_cons.mpr ⟨hx, hbefore⟩, hy⟩

/-- A walk fails with the failure of the first element that has one. -/
theorem mapM_eq_error_iff
    {f : α → Except ε β} {xs : List α} {e : ε} :
    xs.mapM f = .error e ↔ FailsFirst f xs e := by
  induction xs with
  | nil =>
      rw [List.mapM_nil]
      constructor
      · intro h
        cases h
      · rintro ⟨before, x, after, hsplit, -⟩
        simp at hsplit
  | cons x xs ih =>
      rw [List.mapM_cons, bind_eq_error_iff, failsFirst_cons_iff]
      refine or_congr Iff.rfl ?_
      constructor
      · rintro ⟨b, hb, hrest⟩
        rcases bind_eq_error_iff.mp hrest with hxs | ⟨bs, -, hbs⟩
        · exact ⟨⟨b, hb⟩, ih.mp hxs⟩
        · cases hbs
      · rintro ⟨⟨b, hb⟩, hxs⟩
        exact ⟨b, hb, bind_eq_error_iff.mpr (Or.inl (ih.mpr hxs))⟩

/-- Reworking the results does not move the first failure. -/
theorem failsFirst_bind_pure_iff
    {f : α → Except ε β} {g : α → β → γ} {xs : List α} {e : ε} :
    FailsFirst (fun x => do let b ← f x; return g x b) xs e ↔
      FailsFirst f xs e := by
  have hok : ∀ x, (∃ c, (do let b ← f x; return g x b) = Except.ok (ε := ε) c) ↔
      ∃ b, f x = .ok b := by
    intro x
    cases f x <;> simp [bind, Except.bind, pure, Except.pure]
  have herror : ∀ x, (do let b ← f x; return g x b) = Except.error (α := γ) e ↔
      f x = .error e := by
    intro x
    cases f x <;> simp [bind, Except.bind, pure, Except.pure]
  unfold FailsFirst
  simp only [hok, herror]

theorem mapM_eq_ok_map
    {f : α → Except ε β} {g : α → β} {xs : List α}
    (hf : ∀ x ∈ xs, f x = .ok (g x)) :
    xs.mapM f = .ok (xs.map g) := by
  rw [mapM_eq_ok_iff, List.forall₂_map_right_iff, List.forall₂_same]
  exact hf

/-- A walk succeeds exactly when each of its elements does. -/
theorem exists_mapM_eq_ok_iff
    {f : α → Except ε β} {xs : List α} :
    (∃ ys, xs.mapM f = .ok ys) ↔ ∀ x ∈ xs, ∃ y, f x = .ok y := by
  induction xs with
  | nil => simp [pure, Except.pure]
  | cons x xs ih =>
      rw [List.forall_mem_cons, ← ih]
      constructor
      · rintro ⟨ys, hys⟩
        obtain ⟨y, zs, hy, hzs, -⟩ :=
          List.forall₂_cons_left_iff.mp (mapM_eq_ok_iff.mp hys)
        exact ⟨⟨y, hy⟩, zs, mapM_eq_ok_iff.mpr hzs⟩
      · rintro ⟨⟨y, hy⟩, zs, hzs⟩
        exact ⟨y :: zs, mapM_eq_ok_iff.mpr
          (List.Forall₂.cons hy (mapM_eq_ok_iff.mp hzs))⟩

/-- Some element fails first exactly when some element fails. -/
theorem exists_failsFirst_iff
    {f : α → Except ε β} {xs : List α} :
    (∃ e, FailsFirst f xs e) ↔ ∃ x ∈ xs, ∃ e, f x = .error e := by
  have hmapM : (∃ e, FailsFirst f xs e) ↔ ¬∃ ys, xs.mapM f = .ok ys := by
    rw [exists_ok_iff_forall_ne_error, not_forall_not]
    exact exists_congr fun e => mapM_eq_error_iff.symm
  rw [hmapM, exists_mapM_eq_ok_iff]
  simp only [exists_ok_iff_forall_ne_error, not_forall, exists_prop, not_not]

end NativeGlue
