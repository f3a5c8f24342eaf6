import Mathlib.Data.Finset.Basic

/-!
# Bit-sliced indexes as finite partial maps

A bit-sliced index stores an integer for each of finitely many columns.  The slices are a
representation; what its users see is a finite partial map with bulk operations.  A value of
`Bsi` keeps the stored columns and a total value function that is zero elsewhere, so that
two indexes with the same entries are equal.

Main results:

- `Bsi.ext_get?`: an index is determined by its entries.
- `Bsi.get?_setValue`, `Bsi.get?_clearValues`, `Bsi.get?_or`: the entries after each operation.
- `Bsi.mem_compare_orAll`: comparing a concatenation is comparing its parts.
-/

/-- A finite partial map from columns to integers. -/
@[ext]
structure Bsi where
  existence : Finset ℕ
  value : ℕ → ℤ
  value_eq_zero : ∀ c, c ∉ existence → value c = 0

namespace Bsi

open List

/-- The value stored for a column, if there is one. -/
def get? (b : Bsi) (c : ℕ) : Option ℤ :=
  if c ∈ b.existence then some (b.value c) else none

variable {b : Bsi} {c : ℕ}

theorem get?_of_mem (h : c ∈ b.existence) : b.get? c = some (b.value c) :=
  if_pos h

theorem get?_of_notMem (h : c ∉ b.existence) : b.get? c = none :=
  if_neg h

@[simp]
theorem get?_eq_none_iff : b.get? c = none ↔ c ∉ b.existence := by
  unfold get?
  split_ifs with h <;> simp [h]

theorem mem_existence_iff : c ∈ b.existence ↔ ∃ v, b.get? c = some v := by
  unfold get?
  split_ifs with h <;> simp [h]

/-- An index is determined by its entries. -/
theorem ext_get? {a : Bsi} (h : ∀ c, a.get? c = b.get? c) : a = b := by
  have hex : a.existence = b.existence := by
    ext c
    rw [mem_existence_iff, mem_existence_iff, h c]
  refine Bsi.ext hex (funext fun c => ?_)
  by_cases hc : c ∈ a.existence
  · have hc' : c ∈ b.existence := hex ▸ hc
    have := h c
    rw [get?_of_mem hc, get?_of_mem hc'] at this
    exact Option.some.inj this
  · rw [a.value_eq_zero c hc, b.value_eq_zero c (hex ▸ hc)]

/-! ## Operations -/

def empty : Bsi where
  existence := ∅
  value _ := 0
  value_eq_zero _ _ := rfl

@[simp]
theorem get?_empty (c : ℕ) : empty.get? c = none := rfl

@[simp]
theorem existence_empty : empty.existence = ∅ := rfl

section

variable (b : Bsi)

def setValue (c : ℕ) (v : ℤ) : Bsi where
  existence := insert c b.existence
  value := Function.update b.value c v
  value_eq_zero x hx := by
    rw [Finset.mem_insert, not_or] at hx
    rw [Function.update_of_ne hx.1, b.value_eq_zero x hx.2]

theorem get?_setValue (c : ℕ) (v : ℤ) (x : ℕ) :
    (b.setValue c v).get? x = if x = c then some v else b.get? x := by
  by_cases hx : x = c
  · subst hx
    simp [get?, setValue]
  · simp [get?, setValue, hx]

/-- Setting the values of rows one after another. -/
theorem get?_foldl_setValue (f : ℕ → ℤ) (rows : List ℕ) (b : Bsi) (c : ℕ) :
    (rows.foldl (fun b row => b.setValue row (f row)) b).get? c =
      if c ∈ rows then some (f c) else b.get? c := by
  induction rows generalizing b with
  | nil => rfl
  | cons row rows ih =>
    rw [foldl_cons, ih, get?_setValue]
    by_cases hc : c = row <;> simp [hc]

@[simp]
theorem existence_setValue (c : ℕ) (v : ℤ) :
    (b.setValue c v).existence = insert c b.existence := rfl

variable (s : Finset ℕ)

/-- Forget the values of a set of columns. -/
def clearValues : Bsi where
  existence := b.existence \ s
  value c := if c ∈ s then 0 else b.value c
  value_eq_zero c hc := by
    rw [Finset.mem_sdiff, not_and_or, not_not] at hc
    by_cases hs : c ∈ s
    · exact if_pos hs
    · rw [if_neg hs, b.value_eq_zero c (hc.resolve_right hs)]

theorem get?_clearValues (c : ℕ) : (b.clearValues s).get? c = if c ∈ s then none else b.get? c := by
  by_cases hs : c ∈ s <;> simp [get?, clearValues, hs]

@[simp]
theorem existence_clearValues : (b.clearValues s).existence = b.existence \ s := rfl

/-- Keep the values of a set of columns only. -/
def retain : Bsi where
  existence := b.existence ∩ s
  value c := if c ∈ s then b.value c else 0
  value_eq_zero c hc := by
    rw [Finset.mem_inter, not_and_or] at hc
    by_cases hs : c ∈ s
    · rw [if_pos hs, b.value_eq_zero c (hc.resolve_right (not_not_intro hs))]
    · exact if_neg hs

theorem get?_retain (c : ℕ) : (b.retain s).get? c = if c ∈ s then b.get? c else none := by
  by_cases hs : c ∈ s <;> simp [get?, retain, hs]

variable (a b : Bsi)

/-- Concatenate two indexes.  The operation is meant for operands that store no column twice
with different values; the first operand decides otherwise. -/
def or : Bsi where
  existence := a.existence ∪ b.existence
  value c := if c ∈ a.existence then a.value c else b.value c
  value_eq_zero c hc := by
    rw [Finset.mem_union, not_or] at hc
    rw [if_neg hc.1, b.value_eq_zero c hc.2]

/-- The first index wins. -/
theorem get?_or (c : ℕ) : (a.or b).get? c = if c ∈ a.existence then a.get? c else b.get? c := by
  by_cases ha : c ∈ a.existence <;> simp [get?, or, ha]

@[simp]
theorem existence_or : (a.or b).existence = a.existence ∪ b.existence := rfl

/-- Entries of the first operand that clash with the second are cleared, if there are any; then the
entries of the second operand win. -/
theorem get?_replace (c : ℕ) :
    ((if a.existence ∩ b.existence ≠ ∅ then a.clearValues (a.existence ∩ b.existence)
      else a).or b).get? c = (b.get? c).or (a.get? c) := by
  have hcleared : ((a.clearValues (a.existence ∩ b.existence)).or b).get? c =
      (b.get? c).or (a.get? c) := by
    rw [get?_or, get?_clearValues]
    by_cases ha : c ∈ a.existence <;> by_cases hb : c ∈ b.existence <;> simp [get?, ha, hb]
  rw [← hcleared]
  split_ifs with hclear
  · rfl
  · have ha : a.clearValues ∅ = a := ext_get? fun c => by simp [get?_clearValues]
    rw [not_not.mp hclear, ha]

def orAll (bs : List Bsi) : Bsi := bs.foldr or empty

/-- The columns whose value has a property. -/
def compare (p : ℤ → Bool) : Finset ℕ := b.existence.filter (fun c => p (b.value c))

/-- The columns of a found set whose value has a property; `blank` answers for the columns of the
set that have no value. -/
def compareWithin (p : ℤ → Bool) (blank : ℕ → Bool) (foundSet : Finset ℕ) : Finset ℕ :=
  foundSet.filter fun c => if c ∈ b.existence then p (b.value c) else blank c

end

theorem mem_compare {p : ℤ → Bool} :
    c ∈ b.compare p ↔ ∃ v, b.get? c = some v ∧ p v = true := by
  by_cases hc : c ∈ b.existence <;> simp [compare, get?, hc]

/-- On columns with a value, a found set restricts the comparison and does nothing else. -/
theorem mem_compareWithin {p : ℤ → Bool} {blank : ℕ → Bool} {s : Finset ℕ} :
    c ∈ b.compareWithin p blank s ∧ c ∈ b.existence ↔ c ∈ b.compare p ∧ c ∈ s := by
  by_cases hc : c ∈ b.existence <;> simp [compareWithin, compare, hc, and_comm]

/-- Two indexes store no column with different values. -/
def Agree (a b : Bsi) : Prop := ∀ c ∈ a.existence, c ∈ b.existence → a.value c = b.value c

theorem agree_iff_get? {a : Bsi} :
    Agree a b ↔ ∀ c v w, a.get? c = some v → b.get? c = some w → v = w := by
  constructor
  · intro h c v w hv hw
    have ha := mem_existence_iff.mpr ⟨v, hv⟩
    have hb := mem_existence_iff.mpr ⟨w, hw⟩
    rw [get?_of_mem ha] at hv
    rw [get?_of_mem hb] at hw
    rw [← Option.some.inj hv, ← Option.some.inj hw, h c ha hb]
  · intro h c ha hb
    exact h c _ _ (get?_of_mem ha) (get?_of_mem hb)

variable {bs : List Bsi}

theorem exists_of_get?_orAll {v : ℤ} (h : (orAll bs).get? c = some v) :
    ∃ b ∈ bs, b.get? c = some v := by
  induction bs with
  | nil => simp [orAll] at h
  | cons a bs ih =>
    have horAll : orAll (a :: bs) = a.or (orAll bs) := rfl
    rw [horAll, get?_or] at h
    split_ifs at h
    · exact ⟨a, mem_cons_self, h⟩
    · rcases ih h with ⟨b, hb, hget⟩
      exact ⟨b, mem_cons_of_mem _ hb, hget⟩

/-- The entries of a concatenation of indexes that agree. -/
theorem get?_orAll (hagree : ∀ a ∈ bs, ∀ b ∈ bs, Agree a b) {v : ℤ} :
    (orAll bs).get? c = some v ↔ ∃ b ∈ bs, b.get? c = some v := by
  refine ⟨exists_of_get?_orAll, fun h => ?_⟩
  induction bs with
  | nil => simp at h
  | cons a bs ih =>
    have horAll : orAll (a :: bs) = a.or (orAll bs) := rfl
    rcases h with ⟨b, hb, hget⟩
    have hb' : c ∈ b.existence := mem_existence_iff.mpr ⟨v, hget⟩
    rw [horAll, get?_or]
    by_cases ha : c ∈ a.existence
    · rw [get?_of_mem hb'] at hget
      rw [if_pos ha, get?_of_mem ha, hagree a mem_cons_self b hb c ha hb', hget]
    rw [if_neg ha]
    refine ih (fun x hx y hy =>
      hagree x (mem_cons_of_mem _ hx) y (mem_cons_of_mem _ hy)) ?_
    rcases mem_cons.mp hb with rfl | hb
    · exact absurd hb' ha
    · exact ⟨b, hb, hget⟩

/-- Indexes that do not store the column do not matter in a concatenation. -/
theorem get?_orAll_congr {α : Type*} {xs : List α} {f : α → Bsi} {p q : α → Bool}
    (h : ∀ x ∈ xs, c ∈ (f x).existence → p x = q x) :
    (orAll ((xs.filter p).map f)).get? c = (orAll ((xs.filter q).map f)).get? c := by
  have hcons : ∀ (r : α → Bool) (x : α) (xs : List α),
      (orAll (((x :: xs).filter r).map f)).get? c =
        if r x = true ∧ c ∈ (f x).existence then (f x).get? c
        else (orAll ((xs.filter r).map f)).get? c := by
    intro r x xs
    cases hr : r x with
    | false => simp [hr]
    | true =>
      rw [filter_cons_of_pos hr, map_cons]
      simp only [true_and]
      exact get?_or (f x) (orAll ((xs.filter r).map f)) c
  induction xs with
  | nil => rfl
  | cons x xs ih =>
    have hrest := ih (fun y hy => h y (mem_cons_of_mem _ hy))
    rw [hcons, hcons, hrest]
    by_cases hc : c ∈ (f x).existence
    · rw [h x mem_cons_self hc]
    · simp [hc]

/-- Indexes that agree are compared one by one. -/
theorem mem_compare_orAll (hagree : ∀ a ∈ bs, ∀ b ∈ bs, Agree a b) {p : ℤ → Bool} :
    c ∈ (orAll bs).compare p ↔ ∃ b ∈ bs, c ∈ b.compare p := by
  simp only [mem_compare, get?_orAll hagree]
  constructor
  · rintro ⟨v, ⟨b, hb, hget⟩, hp⟩
    exact ⟨b, hb, v, hget, hp⟩
  · rintro ⟨b, hb, v, hget, hp⟩
    exact ⟨v, ⟨b, hb, hget⟩, hp⟩

end Bsi
