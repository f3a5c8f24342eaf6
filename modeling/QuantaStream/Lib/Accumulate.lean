import Mathlib.Algebra.BigOperators.Group.List.Basic
import QuantaStream.Lib.GoMap

/-!
# Adding up values by key

A list of keyed values is added up in a map, and the map is read in the order of its keys.
-/

namespace Accumulate

open List

variable {K A : Type} [DecidableEq K] [AddCommMonoid A]

def addTo (m : GoMap K A) (e : K × A) : GoMap K A := m.insert e.1 ((m.lookup e.1).getD 0 + e.2)

def accumulate (es : List (K × A)) : GoMap K A := es.foldl addTo ∅

def total (es : List (K × A)) (k : K) : A := ((es.filter fun e => e.1 = k).map Prod.snd).sum

theorem total_cons (e : K × A) (es : List (K × A)) (k : K) :
    total (e :: es) k = (if e.1 = k then e.2 else 0) + total es k := by
  unfold total
  by_cases h : e.1 = k <;> simp [h]

theorem total_append (es es' : List (K × A)) (k : K) :
    total (es ++ es') k = total es k + total es' k := by
  unfold total
  rw [filter_append, map_append, sum_append]

variable {es : List (K × A)}

theorem total_perm {es' : List (K × A)} (h : es.Perm es') (k : K) : total es k = total es' k :=
  ((h.filter _).map _).sum_eq

variable {k : K}

theorem total_of_notMem (h : k ∉ es.map Prod.fst) : total es k = 0 := by
  have hnone : es.filter (fun x => x.1 = k) = [] :=
    filter_eq_nil_iff.mpr fun x hx hxk =>
      h (mem_map.mpr ⟨x, hx, of_decide_eq_true hxk⟩)
  rw [total, hnone]
  rfl

theorem total_of_mem (hnodup : (es.map Prod.fst).Nodup) {a : A} (h : (k, a) ∈ es) :
    total es k = a := by
  induction es with
  | nil => cases h
  | cons e es ih =>
    rw [map_cons, nodup_cons] at hnodup
    rw [total_cons]
    rcases mem_cons.mp h with rfl | h
    · rw [if_pos rfl, total_of_notMem hnodup.1, add_zero]
    · have hne : e.1 ≠ k := fun heq => hnodup.1 (heq ▸ mem_map_of_mem h)
      rw [if_neg hne, zero_add, ih hnodup.2 h]

theorem total_flatMap {α : Type} (f : α → List (K × A)) (xs : List α) (k : K) :
    total (xs.flatMap f) k = (xs.map fun x => total (f x) k).sum := by
  induction xs with
  | nil => rfl
  | cons x xs ih => rw [flatMap_cons, total_append, ih, map_cons, sum_cons]

/-- Each key gets its total on top of what it had. -/
theorem lookup_foldl_addTo (es : List (K × A)) (m : GoMap K A) (k : K) :
    (es.foldl addTo m).lookup k =
      if k ∈ es.map Prod.fst then some ((m.lookup k).getD 0 + total es k) else m.lookup k := by
  induction es generalizing m with
  | nil => simp
  | cons e es ih =>
    rw [foldl_cons, ih, total_cons, addTo, GoMap.lookup_insert]
    by_cases hk : k = e.1
    · subst hk
      by_cases hmem : e.1 ∈ es.map Prod.fst
      · simp [hmem, add_assoc]
      · simp [hmem, total_of_notMem hmem]
    · have hne : ¬ e.1 = k := fun h => hk h.symm
      simp only [if_neg hne, zero_add, map_cons, mem_cons, hk, false_or, if_false]

/-- What the map holds for a key. -/
theorem lookup_accumulate (es : List (K × A)) (k : K) :
    (accumulate es).lookup k = if k ∈ es.map Prod.fst then some (total es k) else none := by
  rw [accumulate, lookup_foldl_addTo]
  simp

/-- The order of the entries does not matter. -/
theorem lookup_accumulate_perm {es' : List (K × A)} (h : es.Perm es') (k : K) :
    (accumulate es).lookup k = (accumulate es').lookup k := by
  rw [lookup_accumulate, lookup_accumulate, total_perm h]
  simp only [(h.map Prod.fst).mem_iff]

/-! ## Reading in key order -/

variable [LinearOrder K]

def inKeyOrder (m : GoMap K A) : List (K × A) :=
  (m.keys.insertionSort (· ≤ ·)).map fun k => (k, (m.lookup k).getD 0)

theorem mem_inKeyOrder {m : GoMap K A} {a : A} : (k, a) ∈ inKeyOrder m ↔ m.lookup k = some a := by
  have hkeys : k ∈ m.keys.insertionSort (· ≤ ·) ↔ (m.lookup k).isSome := by
    rw [(perm_insertionSort _ _).mem_iff, AList.lookup_isSome, AList.mem_keys]
  unfold inKeyOrder
  rw [mem_map]
  constructor
  · rintro ⟨x, hx, heq⟩
    cases heq
    obtain ⟨a, ha⟩ := Option.isSome_iff_exists.mp (hkeys.mp hx)
    simp [ha]
  · intro h
    exact ⟨k, hkeys.mpr (by simp [h]), by simp [h]⟩

/-- Maps read the same exactly if they have the same entries. -/
theorem inKeyOrder_eq_iff {m m' : GoMap K A} :
    inKeyOrder m = inKeyOrder m' ↔ ∀ k, m.lookup k = m'.lookup k := by
  constructor
  · intro h k
    ext a
    rw [← mem_inKeyOrder, h, mem_inKeyOrder]
  · intro h
    have hperm : m.keys.Perm m'.keys := by
      refine (perm_ext_iff_of_nodup m.keys_nodup m'.keys_nodup).mpr fun k => ?_
      rw [← AList.mem_keys, ← AList.mem_keys, ← AList.lookup_isSome, ← AList.lookup_isSome, h k]
    have hkeys : m.keys.insertionSort (· ≤ ·) = m'.keys.insertionSort (· ≤ ·) := by
      refine List.Perm.eq_of_pairwise' (pairwise_insertionSort _ _)
        (pairwise_insertionSort _ _) ?_
      exact ((perm_insertionSort _ _).trans hperm).trans (perm_insertionSort _ _).symm
    unfold inKeyOrder
    rw [hkeys]
    exact map_congr_left fun k _ => by rw [h k]

end Accumulate
