import Mathlib.Algebra.GroupWithZero.Nat
import Mathlib.Data.Fintype.BigOperators

/-!
# Goals that every schedule reaches

A system of threads takes one enabled step after another, and the scheduler decides which.  A goal
is inevitable in a state if every schedule gets there: the system never blocks before it, and no
schedule goes on forever without it.
-/

/-- Every schedule of enabled steps reaches the goal. -/
inductive Inevitable {σ ε : Type*} (step : σ → ε → Option σ) (goal : σ → Prop) : σ → Prop
  | here {s : σ} (h : goal s) : Inevitable step goal s
  | next {s : σ} (henabled : ∃ e s', step s e = some s')
      (h : ∀ e s', step s e = some s' → Inevitable step goal s') : Inevitable step goal s

namespace Inevitable

open List

variable {σ ε : Type*} {step : σ → ε → Option σ} {goal : σ → Prop}

/-- A rank that every step lowers and a step that is enabled while the goal is not reached. -/
theorem of_rank {I : σ → Prop} (rank : σ → ℕ)
    (hprogress : ∀ s, I s → ¬ goal s → ∃ e s', step s e = some s')
    (hstep : ∀ s e s', I s → step s e = some s' → I s' ∧ rank s' < rank s)
    (s : σ) (hs : I s) : Inevitable step goal s := by
  induction hn : rank s using Nat.strongRecOn generalizing s with
  | _ n ih =>
    by_cases hgoal : goal s
    · exact .here hgoal
    · refine .next (hprogress s hs hgoal) fun e s' he => ?_
      obtain ⟨hs', hlt⟩ := hstep s e s' hs he
      exact ih (rank s') (hn ▸ hlt) s' hs' rfl

end Inevitable

/-- How replacing one element changes a sum. -/
theorem sum_map_set {α : Type*} (w : α → ℕ) {l : List α} {i : ℕ} {a : α}
    (h : l[i]? = some a) (b : α) : ((l.set i b).map w).sum + w a = (l.map w).sum + w b := by
  induction l generalizing i with
  | nil => cases h
  | cons x l ih =>
    cases i with
    | zero =>
      cases h
      simp only [List.set_cons_zero, List.map_cons, List.sum_cons]
      omega
    | succ i =>
      have := ih h
      simp only [List.set_cons_succ, List.map_cons, List.sum_cons]
      omega

/-- How replacing one value changes a sum. -/
theorem Fintype.sum_update {ι β : Type*} [Fintype ι] [DecidableEq ι] (w : β → ℕ) (f : ι → β) (i : ι)
    (b : β) : ∑ j, w (Function.update f i b j) + w (f i) = ∑ j, w (f j) + w b := by
  have hrest : ∑ j ∈ {i}ᶜ, w (Function.update f i b j) = ∑ j ∈ {i}ᶜ, w (f j) := by
    refine Finset.sum_congr rfl fun j hj => ?_
    have hne : j ≠ i := by simpa using hj
    rw [Function.update_of_ne hne]
  rw [Fintype.sum_eq_add_sum_compl i, hrest, Function.update_self,
    Fintype.sum_eq_add_sum_compl i (fun j => w (f j))]
  omega
