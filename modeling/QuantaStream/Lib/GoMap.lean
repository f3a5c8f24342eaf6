import Mathlib.Data.Finset.Sort
import Mathlib.Data.List.AList
import Mathlib.Data.String.Basic

/-!
# Finite maps ranged over in any order

A map of the source language holds each key once and is ranged over in an order that the program
cannot rely on.  It is modelled by an association list without duplicate keys, and each loop over
a map is given the order in which it visits the entries.

Main results:

- `GoMap.mem_range`: a loop visits exactly the entries of the map.
- `GoMap.range_nodup`: a loop visits no key twice.
-/

/-- A finite map with keys `K` and values `V`. -/
abbrev GoMap (K V : Type) := AList (fun _ : K => V)

/-- The order in which a loop visits the entries of a map. -/
structure RangeOrder where
  order : {α : Type} → List α → List α
  perm : ∀ {α : Type} (l : List α), (order l).Perm l

/-- The order in which the entries are kept. -/
def RangeOrder.asKept : RangeOrder where
  order l := l
  perm l := List.Perm.refl l

/-- The order in which the entries are kept, backwards. -/
def RangeOrder.backwards : RangeOrder where
  order l := l.reverse
  perm l := List.reverse_perm l

/-- `sort.Strings` of the keys of a set. -/
def sortStrings (names : Finset String) : List String := names.sort (· ≤ ·)

namespace GoMap

open List Option AList

variable {K V : Type}

/-- The entries of a map, in the order a loop visits them. -/
def range (m : GoMap K V) (order : RangeOrder) : List (K × V) :=
  order.order (m.entries.map (fun e => (e.1, e.2)))

variable (m : GoMap K V)

theorem range_nodup (order : RangeOrder) : ((m.range order).map Prod.fst).Nodup := by
  have hperm := (order.perm (m.entries.map (fun e => (e.1, e.2)))).map Prod.fst
  rw [List.map_map] at hperm
  exact hperm.nodup_iff.mpr m.nodupKeys

theorem range_backwards : m.range .backwards = (m.range .asKept).reverse := rfl

variable [DecidableEq K]

theorem mem_range {m : GoMap K V} {order : RangeOrder} {k : K} {v : V} :
    (k, v) ∈ m.range order ↔ m.lookup k = some v := by
  rw [range, (order.perm _).mem_iff, List.mem_map]
  constructor
  · rintro ⟨e, he, heq⟩
    cases heq
    exact mem_lookup_iff.mpr he
  · intro h
    exact ⟨⟨k, v⟩, mem_lookup_iff.mp h, rfl⟩

/-- A loop that does something for one key does it at most once. -/
theorem filterMap_range (order : RangeOrder) {β : Type} (k : K) (g : V → Option β) :
    (m.range order).filterMap (fun e => if e.1 = k then g e.2 else none) =
      ((m.lookup k).bind g).toList := by
  cases hk : m.lookup k with
  | none =>
    refine filterMap_eq_nil_iff.mpr ?_
    rintro ⟨k', v⟩ hmem
    have hne : k' ≠ k := by
      rintro rfl
      rw [mem_range, hk] at hmem
      cases hmem
    exact if_neg hne
  | some v =>
    rcases append_of_mem (mem_range.mpr hk : (k, v) ∈ m.range order) with ⟨pre, post, heq⟩
    have hnodup := m.range_nodup order
    rw [heq, map_append, map_cons, nodup_middle, nodup_cons] at hnodup
    have hrest : ∀ l : List (K × V), (∀ e ∈ l, e ∈ pre ++ post) →
        l.filterMap (fun e => if e.1 = k then g e.2 else none) = [] := by
      intro l hl
      refine filterMap_eq_nil_iff.mpr fun e he => if_neg ?_
      intro hek
      refine hnodup.1 ?_
      rw [← map_append]
      exact mem_map.mpr ⟨e, hl e he, hek⟩
    rw [heq, filterMap_append, filterMap_cons,
      hrest pre (fun e he => mem_append_left _ he),
      hrest post (fun e he => mem_append_right _ he)]
    cases hg : g v <;> simp [hg]

/-- The entries whose keys satisfy a predicate. -/
def restrict (m : GoMap K V) (p : K → Bool) : GoMap K V :=
  ⟨m.entries.filter (fun e => p e.1), m.nodupKeys.sublist filter_sublist⟩

theorem lookup_restrict (p : K → Bool) (k : K) :
    (m.restrict p).lookup k = if p k then m.lookup k else none := by
  have hmem : ∀ v, (m.restrict p).lookup k = some v ↔ p k = true ∧ m.lookup k = some v := by
    intro v
    rw [← mem_def, ← mem_def, mem_lookup_iff, mem_lookup_iff]
    simp [restrict, mem_filter, and_comm]
  ext v
  rw [hmem]
  split_ifs with hp <;> simp [hp]

theorem mem_of_lookup {m : GoMap K V} {k : K} {v : V} (h : m.lookup k = some v) : k ∈ m :=
  lookup_isSome.mp (h ▸ rfl)

theorem lookup_union (m m' : GoMap K V) (k : K) :
    (m ∪ m').lookup k = (m.lookup k).or (m'.lookup k) := by
  by_cases hk : k ∈ m
  · rcases isSome_iff_exists.mp (lookup_isSome.mpr hk) with ⟨v, hv⟩
    rw [lookup_union_left hk, hv, some_or]
  · rw [lookup_union_right hk, lookup_eq_none.mpr hk, none_or]

theorem lookup_insert (k : K) (v : V) (x : K) :
    (m.insert k v).lookup x = if x = k then some v else m.lookup x := by
  by_cases h : x = k
  · subst h
    simp
  · simp [h]

theorem lookup_erase (k : K) (x : K) :
    (m.erase k).lookup x = if x = k then none else m.lookup x := by
  by_cases h : x = k
  · subst h
    simp
  · simp [h]

/-- A loop that stores something for each element: the last element of a key decides. -/
theorem lookup_foldl_insert {α : Type} (key : α → K) (value : α → V) (xs : List α)
    (m : GoMap K V) (k : K) :
    (xs.foldl (fun m x => m.insert (key x) (value x)) m).lookup k =
      ((xs.reverse.find? fun x => key x = k).map value).or (m.lookup k) := by
  induction xs generalizing m with
  | nil => simp
  | cons x xs ih =>
    rw [foldl_cons, ih, lookup_insert, reverse_cons, find?_append]
    cases xs.reverse.find? fun x => key x = k with
    | some y => simp
    | none =>
      by_cases hx : key x = k
      · simp [hx]
      · simp [hx, Ne.symm hx]

/-- A loop that changes or deletes the entry it visits. -/
def updateAll (m : GoMap K V) (f : V → Option V) : GoMap K V where
  entries := m.entries.filterMap (fun e => (f e.2).map (fun v => ⟨e.1, v⟩))
  nodupKeys := by
    refine nodupKeys_iff_pairwise.mpr (m.nodupKeys.pairwise_ne.filterMap _ ?_)
    intro e e' hne x hx x' hx'
    obtain ⟨v, -, rfl⟩ := map_eq_some_iff.mp hx
    obtain ⟨v', -, rfl⟩ := map_eq_some_iff.mp hx'
    exact hne

theorem lookup_updateAll (f : V → Option V) (k : K) :
    (m.updateAll f).lookup k = (m.lookup k).bind f := by
  refine ext fun v => ?_
  rw [← mem_def, mem_lookup_iff, bind_eq_some_iff]
  simp only [updateAll, mem_filterMap, map_eq_some_iff]
  constructor
  · rintro ⟨e, he, v', hv', heq⟩
    cases heq
    exact ⟨e.2, mem_lookup_iff.mpr he, hv'⟩
  · rintro ⟨v', hlookup, hv⟩
    exact ⟨⟨k, v'⟩, mem_lookup_iff.mp hlookup, v, hv, rfl⟩

omit [DecidableEq K] in
/-- A loop that changes every value. -/
def mapValues {W : Type} (f : K → V → W) (m : GoMap K V) : GoMap K W where
  entries := m.entries.map fun e => ⟨e.1, f e.1 e.2⟩
  nodupKeys := by
    have hkeys : (m.entries.map fun e => (⟨e.1, f e.1 e.2⟩ : Sigma fun _ : K => W)).keys =
        m.entries.keys := by
      rw [List.keys, List.map_map]
      rfl
    rw [List.NodupKeys, hkeys]
    exact m.nodupKeys

theorem lookup_mapValues {W : Type} (f : K → V → W) (m : GoMap K V) (k : K) :
    (m.mapValues f).lookup k = (m.lookup k).map (f k) := by
  refine ext fun w => ?_
  rw [← mem_def, mem_lookup_iff, map_eq_some_iff]
  simp only [mapValues, List.mem_map]
  constructor
  · rintro ⟨e, he, heq⟩
    cases heq
    exact ⟨e.2, mem_lookup_iff.mpr he, rfl⟩
  · rintro ⟨v, hv, rfl⟩
    exact ⟨⟨k, v⟩, mem_lookup_iff.mp hv, rfl⟩

end GoMap
