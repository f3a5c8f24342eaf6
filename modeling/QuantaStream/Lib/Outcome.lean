import Mathlib.Data.List.Forall2

/-!
# Computations that may fail

A computation with errors succeeds only if each of its steps does.

Main results:

- `Outcome.bind_eq_ok`: a sequence succeeds exactly when both steps succeed.
- `Outcome.map_eq_ok`: mapping the result keeps the success.
-/

namespace Outcome

open List

universe u

variable {ε : Type*} {α β : Type u} {x : Except ε α}

theorem bind_eq_ok {g : α → Except ε β} {b : β} :
    (x >>= g) = .ok b ↔ ∃ a, x = .ok a ∧ g a = .ok b := by
  cases x with
  | error e | ok a => simp [bind, Except.bind]

theorem ok_bind (a : α) (g : α → Except ε β) : ((.ok a : Except ε α) >>= g) = g a := rfl

theorem map_eq_ok {g : α → β} {b : β} : x.map g = .ok b ↔ ∃ a, x = .ok a ∧ g a = b := by
  cases x with
  | error e | ok a => simp [Except.map]

theorem map_self : x.map (fun a => a) = x := by
  cases x <;> rfl

theorem toOption_eq_some {a : α} : x.toOption = some a ↔ x = .ok a := by
  cases x with
  | error e | ok b => simp [Except.toOption]

/-- A computation that is the same for every element is done once. -/
theorem mapM_map {γ : Type u} (x : Except ε α) (f : γ → α → β) {xs : List γ} (hne : xs ≠ []) :
    xs.mapM (fun c => x.map (f c)) = x.map fun a => xs.map fun c => f c a := by
  cases x with
  | error e =>
    obtain ⟨c, cs, rfl⟩ := exists_cons_of_ne_nil hne
    rfl
  | ok a =>
    exact mapM_pure

variable {xs : List α} {ys : List β} {f : α → Except ε β}

/-- The results of a list of computations that all succeed. -/
theorem mapM_eq_ok : xs.mapM f = .ok ys ↔ List.Forall₂ (fun x y => f x = .ok y) xs ys := by
  induction xs generalizing ys with
  | nil =>
    rw [mapM_nil, forall₂_nil_left_iff]
    exact ⟨fun h => (Except.ok.inj h).symm, fun h => h ▸ rfl⟩
  | cons x xs ih =>
    rw [mapM_cons, bind_eq_ok, forall₂_cons_left_iff]
    constructor
    · rintro ⟨y, hy, h⟩
      obtain ⟨rest, hrest, h⟩ := bind_eq_ok.mp h
      cases h
      exact ⟨y, rest, hy, ih.mp hrest, rfl⟩
    · rintro ⟨y, rest, hy, hrest, rfl⟩
      exact ⟨y, hy, bind_eq_ok.mpr ⟨rest, ih.mpr hrest, rfl⟩⟩

theorem exists_of_mem_right {R : α → β → Prop} (h : Forall₂ R xs ys) {y : β} (hy : y ∈ ys) :
    ∃ x ∈ xs, R x y := by
  induction h with
  | nil => cases hy
  | cons hhead _ ih =>
    rcases mem_cons.mp hy with rfl | hy
    · exact ⟨_, mem_cons_self, hhead⟩
    · obtain ⟨x, hx, hR⟩ := ih hy
      exact ⟨x, mem_cons_of_mem _ hx, hR⟩

theorem exists_of_mem_results (h : xs.mapM f = .ok ys) {y : β} (hy : y ∈ ys) :
    ∃ x ∈ xs, f x = .ok y :=
  exists_of_mem_right (mapM_eq_ok.mp h) hy

theorem exists_result_of_mem (h : xs.mapM f = .ok ys) {x : α} (hx : x ∈ xs) :
    ∃ y ∈ ys, f x = .ok y :=
  exists_of_mem_right (mapM_eq_ok.mp h).flip hx

end Outcome
