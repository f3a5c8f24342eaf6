import Mathlib.Data.Finset.Union
import Mathlib.Data.Finset.Lattice.Fold

/-!
# Parallel union of partial results

A distributed evaluation collects partial results in lists and merges a list in
one step.  The code that collects them does not look inside the results, so it
is written over any type with a merge.  This module gives the merge as a class,
its law, and the two instances used later: finite sets, merged by union, and
multisets of labels, merged by sum.

Main results:

- Class `LawfulParOr`: merging in two stages is merging at once.
- `mem_parOr`: membership in a merged list of finite sets.
-/

namespace ParOr

/-- A type whose values can be merged a whole list at a time. -/
class HasParOr (β : Type*) where
  parOr : List β → β

export HasParOr (parOr)

/-- Merging in two stages is merging at once. -/
class LawfulParOr (β : Type*) [HasParOr β] : Prop where
  parOr_singleton : ∀ x : β, parOr [x] = x
  parOr_append : ∀ xs ys : List β, parOr (xs ++ ys) = parOr [parOr xs, parOr ys]

export LawfulParOr (parOr_singleton)

section

variable {β : Type*} [HasParOr β] [LawfulParOr β]

theorem parOr_congr_append {xs xs' ys ys' : List β} (hx : parOr xs = parOr xs')
    (hy : parOr ys = parOr ys') : parOr (xs ++ ys) = parOr (xs' ++ ys') := by
  rw [LawfulParOr.parOr_append, LawfulParOr.parOr_append xs', hx, hy]

end

/-! ## Finite sets -/

section

variable {α : Type*} [DecidableEq α]

instance : HasParOr (Finset α) where
  parOr xs := xs.foldr (· ∪ ·) ∅

@[simp]
theorem parOr_nil : parOr ([] : List (Finset α)) = ∅ := rfl

@[simp]
theorem parOr_cons (x : Finset α) (xs : List (Finset α)) : parOr (x :: xs) = x ∪ parOr xs := rfl

@[simp]
theorem mem_parOr {a : α} {xs : List (Finset α)} : a ∈ parOr xs ↔ ∃ x ∈ xs, a ∈ x := by
  induction xs with
  | nil => simp
  | cons x xs ih => simp [ih]

instance : LawfulParOr (Finset α) where
  parOr_singleton x := by simp
  parOr_append xs ys := by
    ext a
    simp [or_and_right, exists_or]

end

/-! ## Multisets of labels -/

section

variable {ι : Type*}

instance : HasParOr (Multiset ι) where
  parOr xs := xs.sum

theorem parOr_eq_sum (xs : List (Multiset ι)) : parOr xs = xs.sum := rfl

instance : LawfulParOr (Multiset ι) where
  parOr_singleton x := by simp [parOr_eq_sum]
  parOr_append xs ys := by simp [parOr_eq_sum]

end

end ParOr
