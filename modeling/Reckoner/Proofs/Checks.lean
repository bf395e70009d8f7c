import Mathlib.Data.List.Forall2

/-!
# Checks in turn

Checks that are made one after the other succeed together if each of them does, and fail with the
first that does.
-/
namespace Reckoner

variable {ε α β : Type} {a : α} {b : β} {e : ε} {m : Except ε α}

theorem bind_eq_ok_iff {f : α → Except ε β} :
    m >>= f = .ok b ↔ ∃ a, m = .ok a ∧ f a = .ok b := by
  cases m <;> simp [Bind.bind, Except.bind]

theorem bind_eq_error_iff {f : α → Except ε β} :
    m >>= f = .error e ↔ m = .error e ∨ ∃ a, m = .ok a ∧ f a = .error e := by
  cases m <;> simp [Bind.bind, Except.bind]

theorem map_eq_error_iff {f : α → β} : m.map f = .error e ↔ m = .error e := by
  cases m <;> simp [Except.map]

theorem toOption_eq_some_iff : m.toOption = some a ↔ m = .ok a := by
  cases m <;> simp [Except.toOption]

/-- What stands in the left one of two lists that match has a counterpart in the right one. -/
theorem forall₂_of_mem {R : α → β → Prop} {xs : List α} {ys : List β} (h : List.Forall₂ R xs ys)
    {x : α} (hx : x ∈ xs) : ∃ y ∈ ys, R x y := by
  induction h with
  | nil => cases hx
  | @cons x' y' _ _ hxy _ ih =>
    rcases List.mem_cons.1 hx with rfl | hx
    · exact ⟨y', List.mem_cons_self, hxy⟩
    · obtain ⟨y, hy, hR⟩ := ih hx
      exact ⟨y, List.mem_cons_of_mem _ hy, hR⟩

/-- A list of checks succeeds if each of them does. -/
theorem mapM_eq_ok_iff {f : α → Except ε β} {xs : List α} {ys : List β} :
    xs.mapM f = .ok ys ↔ List.Forall₂ (fun x y => f x = .ok y) xs ys := by
  induction xs generalizing ys with
  | nil => cases ys <;> simp [pure, Except.pure]
  | cons x xs ih =>
    rw [List.mapM_cons, bind_eq_ok_iff]
    simp only [bind_eq_ok_iff, ih, pure, Except.pure, Except.ok.injEq]
    cases ys <;> simp

/-- A list of checks fails with the first of them that does. -/
theorem mapM_eq_error_iff {f : α → Except ε β} {xs : List α} :
    xs.mapM f = .error e ↔ ∃ before x after, xs = before ++ x :: after ∧
      (∀ y ∈ before, ∃ b, f y = .ok b) ∧ f x = .error e := by
  induction xs with
  | nil => simp [pure, Except.pure]
  | cons x xs ih =>
    rw [List.mapM_cons, bind_eq_error_iff]
    simp only [bind_eq_error_iff, ih, pure, Except.pure, reduceCtorEq, and_false, exists_false,
      or_false]
    constructor
    · rintro (hx | ⟨b, hx, before, y, after, rfl, hbefore, hy⟩)
      · exact ⟨[], x, xs, rfl, by simp, hx⟩
      · exact ⟨x :: before, y, after, rfl, by simpa [hx] using hbefore, hy⟩
    · rintro ⟨before, y, after, hxs, hbefore, hy⟩
      cases before with
      | nil =>
        obtain ⟨rfl, rfl⟩ := List.cons.inj hxs
        exact .inl hy
      | cons z before =>
        obtain ⟨rfl, rfl⟩ := List.cons.inj hxs
        obtain ⟨⟨b, hx⟩, hbefore⟩ := List.forall_mem_cons.1 hbefore
        exact .inr ⟨b, hx, before, y, after, rfl, hbefore, hy⟩

theorem exists_mapM_eq_ok_iff {f : α → Except ε β} {xs : List α} :
    (∃ ys, xs.mapM f = .ok ys) ↔ ∀ x ∈ xs, ∃ y, f x = .ok y := by
  cases h : xs.mapM f with
  | ok ys =>
    have hall : ∀ x ∈ xs, ∃ y, f x = .ok y := by
      intro x hx
      obtain ⟨y, -, hy⟩ := forall₂_of_mem (mapM_eq_ok_iff.1 h) hx
      exact ⟨y, hy⟩
    simpa using hall
  | error e =>
    obtain ⟨before, x, after, rfl, -, hx⟩ := mapM_eq_error_iff.1 h
    refine ⟨fun ⟨_, hys⟩ => by simp at hys, ?_⟩
    intro hall
    obtain ⟨y, hy⟩ := hall x (by simp)
    rw [hx] at hy
    cases hy

end Reckoner
