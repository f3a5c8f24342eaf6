import Mathlib.Algebra.BigOperators.Group.Finset.Basic
import Mathlib.Data.Finset.Lattice.Fold

/-!
# Summaries of finite families

The count, the sum, the minimum and the maximum of a finite family of values can be put together
from those of its parts.  A summary keeps the count and some of the other three; summaries of
disjoint parts are added, and they add up to the summary of the whole exactly when the parts leave
nothing out.

Main results:

- `Summary.ofFamily_of_nonempty`: what a summary holds.
-/

/-- Count, sum, minimum and maximum of some values; all but the count may be left out. -/
@[ext]
structure Summary (V : Type) where
  count : ℕ := 0
  sum : Option V := none
  min : Option V := none
  max : Option V := none
  deriving DecidableEq

namespace Summary

open Finset Option

variable {V ι α : Type}

instance : Zero (Summary V) := ⟨{}⟩

@[simp] theorem count_zero : (0 : Summary V).count = 0 := rfl
@[simp] theorem sum_zero : (0 : Summary V).sum = none := rfl
@[simp] theorem min_zero : (0 : Summary V).min = none := rfl
@[simp] theorem max_zero : (0 : Summary V).max = none := rfl

variable [AddCommMonoid V] [LinearOrder V]

instance : Add (Summary V) where
  add a b :=
    { count := a.count + b.count
      sum := a.sum.merge (· + ·) b.sum
      min := a.min.merge Min.min b.min
      max := a.max.merge Max.max b.max }

section

variable (a b : Summary V)

@[simp] theorem count_add : (a + b).count = a.count + b.count := rfl
@[simp] theorem sum_add : (a + b).sum = a.sum.merge (· + ·) b.sum := rfl
@[simp] theorem min_add : (a + b).min = a.min.merge Min.min b.min := rfl
@[simp] theorem max_add : (a + b).max = a.max.merge Max.max b.max := rfl

end

instance : AddCommMonoid (Summary V) where
  add_assoc a b c := by
    ext1
    · exact Nat.add_assoc _ _ _
    · exact (associative_merge (· + · : V → V → V)).assoc _ _ _
    · exact (associative_merge Min.min).assoc _ _ _
    · exact (associative_merge Max.max).assoc _ _ _
  zero_add a := by ext1 <;> simp
  add_zero a := by ext1 <;> simp
  add_comm a b := by
    ext1
    · exact Nat.add_comm _ _
    · exact (commutative_merge (· + · : V → V → V)).comm _ _
    · exact (commutative_merge Min.min).comm _ _
    · exact (commutative_merge Max.max).comm _ _
  nsmul := nsmulRec

/-- What a summary keeps besides the count. -/
structure Parts where
  sum : Bool := false
  min : Bool := false
  max : Bool := false

def single (p : Parts) (v : V) : Summary V where
  count := 1
  sum := if p.sum then some v else none
  min := if p.min then some v else none
  max := if p.max then some v else none

/-- The summary of the values at a finite set of places. -/
def ofFamily (p : Parts) (s : Finset ι) (f : ι → V) : Summary V := ∑ i ∈ s, single p (f i)

/-! ## What a summary holds -/

section

variable {p : Parts} {s : Finset ι} {f : ι → V}

@[simp]
theorem ofFamily_empty (p : Parts) (f : ι → V) : ofFamily p ∅ f = 0 := sum_empty

/-- One more member. -/
theorem ofFamily_cons {i : ι} (h : i ∉ s) : ofFamily p (s.cons i h) f = single p (f i) + ofFamily p s f :=
  sum_cons h

theorem ofFamily_congr {g : ι → V} (h : ∀ i ∈ s, f i = g i) : ofFamily p s f = ofFamily p s g :=
  sum_congr rfl fun i hi => by rw [h i hi]

@[simp]
theorem count_ofFamily : (ofFamily p s f).count = s.card := by
  induction s using cons_induction with
  | empty => simp
  | cons i s hi ih =>
    rw [ofFamily_cons, count_add, ih, card_cons]
    exact Nat.add_comm _ _

/-- The parts of a summary of members. -/
theorem ofFamily_of_nonempty (h : s.Nonempty) :
    ofFamily p s f =
      { count := s.card
        sum := if p.sum then some (∑ i ∈ s, f i) else none
        min := if p.min then some (s.inf' h f) else none
        max := if p.max then some (s.sup' h f) else none } := by
  refine Summary.ext count_ofFamily ?_ ?_ ?_ <;>
    induction h using Nonempty.cons_induction with
    | singleton i => simp [ofFamily, single]
    | cons i s hi hs ih =>
      simp only [ofFamily_cons, sum_add, min_add, max_add, ih, sum_cons, inf'_cons hs,
        sup'_cons hs, single]
      split_ifs <;> simp

end

/-! ## Parts and the whole -/

section

variable [DecidableEq ι] {p : Parts} {f : ι → V} {part : α → Finset ι} {ms : List α}

def unionAll (part : α → Finset ι) (ms : List α) : Finset ι := ms.foldr (fun m s => part m ∪ s) ∅

theorem mem_unionAll {i : ι} : i ∈ unionAll part ms ↔ ∃ m ∈ ms, i ∈ part m := by
  induction ms with
  | nil => simp [unionAll]
  | cons m ms ih =>
    have hcons : unionAll part (m :: ms) = part m ∪ unionAll part ms := rfl
    simp [hcons, ih]

/-- The summaries of disjoint parts add up to the summary of their union. -/
theorem sum_map_over (hdisjoint : ms.Pairwise fun m m' => Disjoint (part m) (part m')) :
    (ms.map fun m => ofFamily p (part m) f).sum = ofFamily p (unionAll part ms) f := by
  induction ms with
  | nil => rfl
  | cons m ms ih =>
    rw [List.pairwise_cons] at hdisjoint
    have hrest : Disjoint (part m) (unionAll part ms) := by
      rw [disjoint_left]
      intro i hi hall
      obtain ⟨m', hm', hi'⟩ := mem_unionAll.mp hall
      exact disjoint_left.mp (hdisjoint.1 m' hm') hi hi'
    rw [List.map_cons, List.sum_cons, ih hdisjoint.2]
    exact (sum_union hrest).symm

/-- The summaries of disjoint parts of a set add up to the summary of the set exactly if every
element is in a part. -/
theorem sum_map_ofFamily_eq_iff {s : Finset ι} (hpart : ∀ m ∈ ms, part m ⊆ s)
    (hdisjoint : ms.Pairwise fun m m' => Disjoint (part m) (part m')) :
    (ms.map fun m => ofFamily p (part m) f).sum = ofFamily p s f ↔ ∀ i ∈ s, ∃ m ∈ ms, i ∈ part m := by
  have hsub : unionAll part ms ⊆ s := by
    intro i hi
    obtain ⟨m, hm, hi⟩ := mem_unionAll.mp hi
    exact hpart m hm hi
  rw [sum_map_over hdisjoint]
  constructor
  · intro heq i hi
    have hcard : (unionAll part ms).card = s.card := by
      rw [← count_ofFamily (p := p) (f := f), heq, count_ofFamily]
    rw [← mem_unionAll, eq_of_subset_of_card_le hsub hcard.ge]
    exact hi
  · intro hall
    have heq : unionAll part ms = s :=
      Subset.antisymm hsub fun i hi => mem_unionAll.mpr (hall i hi)
    rw [heq]

end

end Summary
