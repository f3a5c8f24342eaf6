import QuantaStream.Bridge.FilterExpression
import QuantaStream.Lib.Pairing

/-!
# Coalescing bounds into ranges

This module models `quantaIntermediateCoalesceFilterRanges`, the pass over a grouped filter
that merges a lower and an upper bound on one field into a range, and relates it and the pass over
a flat conjunction to the greedy pairing of a list.  A range carries no single value, so it takes
part in no further pair.
-/

namespace QuantaStream.Bridge

open Shared Pairing List BoolTree

/-! ## Flat conjunctions -/

theorem coalesceRanges_eq_pairUp (fs : List QuantaQueryFragment) :
    coalesceRanges fs = pairUp rangePair rangeFragment fs.length fs := by
  have haux : ∀ fuel, coalesceRangesAux fuel fs = pairUp rangePair rangeFragment fuel fs := by
    intro fuel
    induction fuel generalizing fs with
    | zero => rfl
    | succ fuel ih =>
      cases fs with
      | nil => rfl
      | cons f fs =>
        rw [coalesceRangesAux, pairUp]
        cases fs.findIdx? (rangePair f) <;> simp only [ih]
  exact haux fs.length

theorem kept_coalesceRanges (fs : List QuantaQueryFragment) :
    Kept rangePair rangeFragment fs (coalesceRanges fs) := by
  rw [coalesceRanges_eq_pairUp]
  exact kept_pairUp _ _

/-- What the two fragments of a pair have in common. -/
structure Bounds (left right : QuantaQueryFragment) : Prop where
  index : left.index = right.index
  role : left.role = right.role
  field : left.field = right.field
  left_plain : left.operation = .intersect ∧ left.nullCheck = false
  right_plain : right.operation = .intersect ∧ right.nullCheck = false
  value : ∃ v w, left.value = some v ∧ right.value = some w
  ops : (lowerBoundOp left.bsiOp = true ∧ upperBoundOp right.bsiOp = true) ∨
    (upperBoundOp left.bsiOp = true ∧ lowerBoundOp right.bsiOp = true)

variable {f g : QuantaQueryFragment}

theorem bounds_of_rangePair (h : rangePair f g = true) : Bounds f g := by
  simp only [rangePair, sameRangeField, Bool.and_eq_true, Bool.or_eq_true, decide_eq_true_eq,
    Bool.not_eq_true', Option.isSome_iff_exists] at h
  rcases h with ⟨⟨⟨⟨⟨⟨⟨⟨⟨⟨⟨⟨⟨hindex, hrole⟩, hfield⟩, hleft⟩, hright⟩, _⟩, _⟩, hnull⟩, hnull'⟩,
    ⟨v, hv⟩⟩, ⟨w, hw⟩⟩, _⟩, _⟩, hops⟩
  exact ⟨hindex, hrole, hfield, ⟨hleft, hnull⟩, ⟨hright, hnull'⟩, ⟨v, w, hv, hw⟩, hops⟩

/-! ## Grouped filters -/

/-- Two leaves that are opposite bounds on a field. -/
def leafPair : FilterLeaf → FilterLeaf → Bool
  | .fragment f, .fragment g => rangePair f g
  | _, _ => false

def coalescedLeaf : FilterLeaf → FilterLeaf → FilterLeaf
  | .fragment f, .fragment g => .fragment (rangeFragment f g)
  | a, _ => a

/-- Two conjuncts that are leaves and opposite bounds on a field. -/
def conjunctPair : QuantaFilterExpression → QuantaFilterExpression → Bool
  | .leaf a, .leaf b => leafPair a b
  | _, _ => false

def coalescedConjunct : QuantaFilterExpression → QuantaFilterExpression → QuantaFilterExpression
  | .leaf a, .leaf b => .leaf (coalescedLeaf a b)
  | c, _ => c

variable (filter : QuantaFilterExpression)

/-- The pairing of the conjuncts of an intersection.  The list of at least two conjuncts does not
become empty, so the default is not used. -/
def coalesceConjuncts : QuantaFilterExpression :=
  let conjuncts := conjunctsForFactoring filter
  if conjuncts.length < 2 then filter
  else (conjunctExpression
    (pairUp conjunctPair coalescedConjunct conjuncts.length conjuncts)).getD filter

mutual

/-- `quantaIntermediateCoalesceFilterRanges`: the children first, then the conjuncts of an
intersection. -/
def coalesceFilterRanges : QuantaFilterExpression → QuantaFilterExpression
  | .leaf a => .leaf a
  | .all children => coalesceConjuncts (.all (coalesceChildren children))
  | .any children => .any (coalesceChildren children)

/-- The loop of `quantaIntermediateCoalesceFilterRanges` over the children. -/
def coalesceChildren : List QuantaFilterExpression → List QuantaFilterExpression
  | [] => []
  | child :: children => coalesceFilterRanges child :: coalesceChildren children

end

theorem coalesceChildren_eq_map (children : List QuantaFilterExpression) :
    coalesceChildren children = children.map coalesceFilterRanges := by
  induction children with
  | nil => rfl
  | cons child children ih => rw [coalesceChildren, ih, map_cons]

theorem exists_of_conjunctPair {c d : QuantaFilterExpression} (h : conjunctPair c d = true) :
    ∃ f g, c = .leaf (.fragment f) ∧ d = .leaf (.fragment g) ∧ rangePair f g = true := by
  unfold conjunctPair at h
  split at h
  · unfold leafPair at h
    split at h
    · exact ⟨_, _, rfl, rfl, h⟩
    · cases h
  · cases h

/-- The conjuncts after the pairing, and the filter made of them. -/
theorem coalesceConjuncts_cases :
    coalesceConjuncts filter = filter ∨ ∃ conjuncts : List QuantaFilterExpression,
      Kept conjunctPair coalescedConjunct (filter.conjuncts : Multiset _) conjuncts ∧
      conjunctExpression conjuncts = some (coalesceConjuncts filter) := by
  unfold coalesceConjuncts conjunctsForFactoring
  dsimp only
  split
  · exact .inl rfl
  next hlength =>
    have hkept : Kept conjunctPair coalescedConjunct (filter.conjuncts : Multiset _)
        (pairUp conjunctPair coalescedConjunct filter.conjuncts.length filter.conjuncts) :=
      kept_pairUp _ _
    cases hexpr : conjunctExpression
        (pairUp conjunctPair coalescedConjunct filter.conjuncts.length filter.conjuncts) with
    | none => exact .inl rfl
    | some result => exact .inr ⟨_, hkept, hexpr⟩

/-! ## Leaves -/

theorem kept_leavesChildren {children : List QuantaFilterExpression}
    (h : ∀ c ∈ children, Kept leafPair coalescedLeaf (c.leaves : Multiset FilterLeaf)
      (coalesceFilterRanges c).leaves) :
    Kept leafPair coalescedLeaf (leavesChildren children : Multiset FilterLeaf)
      (leavesChildren (coalesceChildren children)) := by
  induction children with
  | nil => exact .refl _
  | cons child children ih =>
    exact (h child mem_cons_self).add (ih fun c hc => h c (mem_cons_of_mem _ hc))

theorem bind_leaves_conjuncts :
    (filter.conjuncts : Multiset QuantaFilterExpression).bind
      (fun c => (c.leaves : Multiset FilterLeaf)) = filter.leaves := by
  induction filter using induction with
  | leaf a => simp [conjuncts]
  | all children ih =>
    rw [conjuncts, leaves]
    induction children with
    | nil => rfl
    | cons child children ihs =>
      rw [conjunctsChildren, leavesChildren, ← Multiset.coe_add,
        Multiset.add_bind, ih child mem_cons_self,
        ihs fun c hc => ih c (mem_cons_of_mem _ hc), Multiset.coe_add]
  | any children => simp [conjuncts]

theorem leaves_conjunctExpression {conjuncts : List QuantaFilterExpression}
    {filter : QuantaFilterExpression} (h : conjunctExpression conjuncts = some filter) :
    (filter.leaves : Multiset FilterLeaf) =
      (conjuncts : Multiset QuantaFilterExpression).bind fun c => c.leaves := by
  have hchildren : ∀ cs : List QuantaFilterExpression,
      (leavesChildren cs : Multiset FilterLeaf) =
        (cs : Multiset QuantaFilterExpression).bind fun c => c.leaves := by
    intro cs
    induction cs with
    | nil => rfl
    | cons c cs ih =>
      rw [leavesChildren, ← Multiset.coe_add, ih, ← Multiset.cons_coe,
        Multiset.cons_bind]
  rcases conjuncts with _ | ⟨c, _ | ⟨d, conjuncts⟩⟩
  · cases h
  · cases h
    simp
  · cases h
    rw [leaves, hchildren]

theorem kept_coalesceConjuncts :
    Kept leafPair coalescedLeaf (filter.leaves : Multiset FilterLeaf)
      (coalesceConjuncts filter).leaves := by
  rcases coalesceConjuncts_cases filter with heq | ⟨conjuncts, hkept, hexpr⟩
  · rw [heq]
    exact .refl _
  · rw [leaves_conjunctExpression hexpr, ← bind_leaves_conjuncts filter]
    refine hkept.bind fun c d hpair => ?_
    rcases exists_of_conjunctPair hpair with ⟨f, g, rfl, rfl, hfg⟩
    exact .of_pair hfg

/-- Every leaf of a filter is kept once, alone or as a bound of one range. -/
theorem kept_coalesceFilterRanges :
    Kept leafPair coalescedLeaf (filter.leaves : Multiset FilterLeaf)
      (coalesceFilterRanges filter).leaves := by
  induction filter using induction with
  | leaf a => exact .refl _
  | all children ih =>
    refine .trans (fun a b c hpair => ?_) ?_ (kept_coalesceConjuncts _)
    · cases a <;> cases b <;> cases c <;>
        first | trivial | simp [leafPair, coalescedLeaf, rangePair, sameRangeField, rangeFragment]
    · exact kept_leavesChildren ih
  | any children ih =>
    exact kept_leavesChildren ih

/-! ## Truth -/

section

variable {v : FilterLeaf → Prop} (hv : ∀ f g, rangePair f g = true →
  (v (.fragment (rangeFragment f g)) ↔ v (.fragment f) ∧ v (.fragment g)))

include hv

theorem holds_coalesceConjuncts (filter : QuantaFilterExpression) :
    (coalesceConjuncts filter).holds v ↔ filter.holds v := by
  rcases coalesceConjuncts_cases filter with heq | ⟨conjuncts, hkept, hexpr⟩
  · rw [heq]
  · rw [holds_conjunctExpression hexpr, ← forall_conjuncts_iff filter]
    refine hkept.forall_iff fun c d hpair => ?_
    rcases exists_of_conjunctPair hpair with ⟨f, g, rfl, rfl, hfg⟩
    simpa [coalescedConjunct, coalescedLeaf] using hv f g hfg

/-- The truth of a filter is kept if a range is the conjunction of its bounds. -/
theorem holds_coalesceFilterRanges (filter : QuantaFilterExpression) :
    (coalesceFilterRanges filter).holds v ↔ filter.holds v := by
  induction filter using induction with
  | leaf a => rfl
  | all children ih =>
    rw [coalesceFilterRanges, holds_coalesceConjuncts hv, coalesceChildren_eq_map,
      holds_all, holds_all, forall_mem_map]
    exact forall₂_congr ih
  | any children ih =>
    rw [coalesceFilterRanges, coalesceChildren_eq_map, holds_any, holds_any]
    simp only [mem_map, exists_exists_and_eq_and]
    exact exists_congr fun c => and_congr_right (ih c)

end

end QuantaStream.Bridge
