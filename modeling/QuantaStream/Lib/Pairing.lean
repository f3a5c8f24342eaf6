import Mathlib.Data.Multiset.Bind

/-!
# Greedy pairing

A list is read from left to right, and each element is merged with the first later element that
makes a pair with it.
-/

namespace Pairing

open Multiset

variable {α β : Type*} {pair : α → α → Bool} {merge : α → α → α}

/-- The greedy pairing; the fuel is the length of the list. -/
def pairUp (pair : α → α → Bool) (merge : α → α → α) : ℕ → List α → List α
  | 0, xs => xs
  | _ + 1, [] => []
  | fuel + 1, x :: xs =>
    match xs.findIdx? (pair x) with
    | none => x :: pairUp pair merge fuel xs
    | some i => ((xs[i]?).map (merge x)).toList ++ pairUp pair merge fuel (xs.eraseIdx i)

/-- Some pairs of the elements are merged, and all other elements are kept. -/
def Kept (pair : α → α → Bool) (merge : α → α → α) (s t : Multiset α) : Prop :=
  ∃ (pairs : Multiset (α × α)) (rest : Multiset α), (∀ p ∈ pairs, pair p.1 p.2 = true) ∧
    s = pairs.map Prod.fst + pairs.map Prod.snd + rest ∧
    t = pairs.map (fun p => merge p.1 p.2) + rest

namespace Kept

variable {s t s' t' : Multiset α}

theorem refl (s : Multiset α) : Kept pair merge s s :=
  ⟨0, s, by simp, by simp, by simp⟩

theorem of_pair {a b : α} (h : pair a b = true) : Kept pair merge {a, b} {merge a b} :=
  ⟨{(a, b)}, 0, by simpa using h, by simp, by simp⟩

theorem add (h : Kept pair merge s t) (h' : Kept pair merge s' t') :
    Kept pair merge (s + s') (t + t') := by
  rcases h with ⟨pairs, rest, hpairs, rfl, rfl⟩
  rcases h' with ⟨pairs', rest', hpairs', rfl, rfl⟩
  refine ⟨pairs + pairs', rest + rest', fun p hp => ?_, ?_, ?_⟩
  · exact (mem_add.mp hp).elim (hpairs p) (hpairs' p)
  · simp only [map_add]
    ac_rfl
  · simp only [map_add]
    ac_rfl

/-- Pairs of elements that are themselves collections. -/
theorem bind {pair' : β → β → Bool} {merge' : β → β → β} {f : α → Multiset β}
    (hf : ∀ a b, pair a b = true → Kept pair' merge' (f a + f b) (f (merge a b)))
    (h : Kept pair merge s t) : Kept pair' merge' (s.bind f) (t.bind f) := by
  rcases h with ⟨pairs, rest, hpairs, rfl, rfl⟩
  have hall : Kept pair' merge' ((pairs.map Prod.fst).bind f + (pairs.map Prod.snd).bind f)
      ((pairs.map fun p => merge p.1 p.2).bind f) := by
    induction pairs using Multiset.induction with
    | empty => exact refl 0
    | cons p pairs ih =>
      have hp := hf p.1 p.2 (hpairs p (mem_cons_self p pairs))
      have hrest := ih fun q hq => hpairs q (mem_cons_of_mem hq)
      have hsum := hp.add hrest
      simp only [map_cons, cons_bind]
      rwa [add_add_add_comm] at hsum
  simpa using hall.add (refl (rest.bind f))

/-- Two passes keep what each of them keeps, if a merge makes no further pair. -/
theorem trans (hmerge : ∀ a b c, pair a b = true →
      pair (merge a b) c = false ∧ pair c (merge a b) = false)
    (h : Kept pair merge s t) (h' : Kept pair merge t t') : Kept pair merge s t' := by
  rcases h with ⟨pairs, rest, hpairs, rfl, rfl⟩
  rcases h' with ⟨pairs', rest', hpairs', heq, rfl⟩
  induction pairs using Multiset.induction generalizing rest' with
  | empty =>
    refine ⟨pairs', rest', hpairs', ?_, rfl⟩
    simpa using heq
  | cons p pairs ih =>
    have hp := hpairs p (mem_cons_self p pairs)
    -- the merge of the first pair is left alone by the second pass
    have hmem : merge p.1 p.2 ∈ rest' := by
      have hall : merge p.1 p.2 ∈ pairs'.map Prod.fst + pairs'.map Prod.snd + rest' := by
        rw [← heq, map_cons, cons_add]
        exact mem_cons_self _ _
      rcases mem_add.mp hall with hin | hin
      · rcases mem_add.mp hin with hin | hin
        · rcases mem_map.mp hin with ⟨q, hq, hfst⟩
          have hpair := hpairs' q hq
          rw [hfst, (hmerge p.1 p.2 q.2 hp).1] at hpair
          cases hpair
        · rcases mem_map.mp hin with ⟨q, hq, hsnd⟩
          have hpair := hpairs' q hq
          rw [hsnd, (hmerge p.1 p.2 q.1 hp).2] at hpair
          cases hpair
      · exact hin
    rcases exists_cons_of_mem hmem with ⟨rest'', rfl⟩
    have hrest : pairs.map (fun q => merge q.1 q.2) + rest =
        pairs'.map Prod.fst + pairs'.map Prod.snd + rest'' := by
      rw [map_cons, cons_add, add_cons] at heq
      exact (cons_inj_right _).mp heq
    have hkept := ih (fun q hq => hpairs q (mem_cons_of_mem hq)) rest'' hrest
    have hsum := (of_pair hp).add hkept
    simp only [map_cons]
    convert hsum using 1
    · simp only [insert_eq_cons, ← singleton_add]
      ac_rfl
    · simp only [← singleton_add]
      ac_rfl

/-- A conjunction is kept if a merge is the conjunction of its parts. -/
theorem forall_iff {v : α → Prop} (hv : ∀ a b, pair a b = true → (v (merge a b) ↔ v a ∧ v b))
    (h : Kept pair merge s t) : (∀ a ∈ t, v a) ↔ ∀ a ∈ s, v a := by
  rcases h with ⟨pairs, rest, hpairs, rfl, rfl⟩
  simp only [mem_add, or_imp, forall_and, forall_mem_map_iff]
  refine and_congr_left' ?_
  rw [← forall₂_and]
  exact forall₂_congr fun p hp => hv p.1 p.2 (hpairs p hp)

end Kept

/-- Every element is kept once, alone or in one pair. -/
theorem kept_pairUp (fuel : ℕ) (xs : List α) : Kept pair merge xs (pairUp pair merge fuel xs) := by
  induction fuel generalizing xs with
  | zero => exact .refl _
  | succ fuel ih =>
    cases xs with
    | nil => exact .refl _
    | cons x xs =>
      rw [pairUp]
      split
      next hnone =>
        exact (Kept.refl {x}).add (ih xs)
      next i hsome =>
        rcases List.findIdx?_eq_some_iff_getElem.mp hsome with ⟨hlt, hpair, _⟩
        have hperm : (xs : Multiset α) = xs[i] ::ₘ (xs.eraseIdx i : Multiset α) :=
          coe_eq_coe.mpr (List.getElem_cons_eraseIdx_perm hlt).symm
        have hone : Kept pair merge {x, xs[i]} {merge x xs[i]} := .of_pair hpair
        have hsum := hone.add (ih (xs.eraseIdx i))
        rw [List.getElem?_eq_getElem hlt, Option.map_some, Option.toList_some,
          ← cons_coe, hperm, ← coe_add]
        simpa [← singleton_add, add_assoc] using hsum

end Pairing
