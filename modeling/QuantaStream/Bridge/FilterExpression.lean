import QuantaStream.Bridge.Lowering
import QuantaStream.Lib.BoolTree

/-!
# Grouped filters

This module models `QuantaFilterExpression` of `qsbridge/quanta_intermediate.go` and the
factoring of unions.  A grouped filter is a tree of intersections and unions whose leaves are
fragments or candidate sets.  The conjuncts common to all members of a union can be moved out of
it.

The empty filter, the zero value of the source, is modelled by `none`.  Names lose the prefix
`filterDomain` of the source.
-/

namespace QuantaStream.Bridge

open Shared List BoolTree

/-! ## Filters -/

/-- `QuantaCandidateSet`: rownums of one table, in ascending order. -/
structure QuantaCandidateSet where
  index : String
  rownums : Finset ℕ
  deriving DecidableEq

inductive FilterLeaf where
  | fragment (f : QuantaQueryFragment)
  | candidateSet (c : QuantaCandidateSet)
  deriving DecidableEq

/-- `QuantaFilterExpression`: `INTERSECT` nodes are conjunctions, `UNION` nodes disjunctions. -/
abbrev QuantaFilterExpression := BoolTree FilterLeaf

/-- The table a leaf takes its rownums from. -/
def FilterLeaf.domain : FilterLeaf → String
  | .fragment f => f.index
  | .candidateSet c => c.index

/-- `filterDomainFragmentMatches`: all fields but the two that only steer the planner. -/
def fragmentMatches (left right : QuantaQueryFragment) : Bool :=
  left.index = right.index && left.role = right.role && left.field = right.field &&
    left.operation = right.operation && left.bsiOp = right.bsiOp &&
    left.negate = right.negate && left.nullCheck = right.nullCheck &&
    left.value = right.value && left.values = right.values &&
    left.beginValue = right.beginValue && left.endValue = right.endValue &&
    left.literal = right.literal && left.literals = right.literals &&
    left.literalRange = right.literalRange

/-- Leaves of the same kind match by their fragments or are equal candidate sets. -/
def leafMatches : FilterLeaf → FilterLeaf → Bool
  | .fragment f, .fragment g => fragmentMatches f g
  | .candidateSet c, .candidateSet d => c = d
  | _, _ => false

def expressionMatches (left right : QuantaFilterExpression) : Bool :=
  left.matchesBy leafMatches right

variable (filter : QuantaFilterExpression)

def expressionMatchesAny (candidates : List QuantaFilterExpression) : Bool :=
  candidates.any (expressionMatches filter)

theorem fragmentMatches_index {f g : QuantaQueryFragment} (h : fragmentMatches f g = true) :
    f.index = g.index := by
  simp only [fragmentMatches, Bool.and_eq_true, decide_eq_true_eq] at h
  exact h.1.1.1.1.1.1.1.1.1.1.1.1.1

variable {a : FilterLeaf}

theorem leafMatches_domain {b : FilterLeaf} (h : leafMatches a b = true) : a.domain = b.domain := by
  cases a <;> cases b <;> simp only [leafMatches, Bool.false_eq_true, decide_eq_true_eq] at h
  · exact fragmentMatches_index h
  · rw [h]

variable {left right : QuantaFilterExpression}

/-- The leaves of matching filters belong to the same tables. -/
theorem exists_leaf_of_matches (h : expressionMatches left right = true) (ha : a ∈ left.leaves) :
    ∃ b ∈ right.leaves, b.domain = a.domain := by
  have hleaves := forall₂_leaves_of_matchesBy h
  generalize left.leaves = as at ha hleaves
  generalize right.leaves = bs at hleaves
  induction hleaves with
  | nil => cases ha
  | @cons c d cs ds hcd _ ih =>
    rcases mem_cons.mp ha with rfl | ha
    · exact ⟨d, mem_cons_self, (leafMatches_domain hcd).symm⟩
    · rcases ih ha with ⟨b, hb, hdomain⟩
      exact ⟨b, mem_cons_of_mem _ hb, hdomain⟩

/-! ## Common conjuncts -/

def conjunctsForFactoring : List QuantaFilterExpression :=
  filter.conjuncts

/-- The loop of `filterDomainCommonConjuncts` over the conjuncts of the first member. -/
def commonConjunctsLoop (rest : List (List QuantaFilterExpression)) :
    List QuantaFilterExpression → List QuantaFilterExpression → List QuantaFilterExpression
  | common, [] => common
  | common, candidate :: candidates =>
    if expressionMatchesAny candidate common then commonConjunctsLoop rest common candidates
    else if rest.all (expressionMatchesAny candidate) then
      commonConjunctsLoop rest (common ++ [candidate]) candidates
    else commonConjunctsLoop rest common candidates

def commonConjuncts : List (List QuantaFilterExpression) → List QuantaFilterExpression
  | [] => []
  | first :: rest => commonConjunctsLoop rest [] first

/-- Flag the first entry without a flag that the filter matches
(`filterDomainFirstUnremovedConjunctMatch`). -/
def flagFirst (accepts : QuantaFilterExpression → QuantaFilterExpression → Bool)
    (filter : QuantaFilterExpression) :
    List (QuantaFilterExpression × Bool) → Option (List (QuantaFilterExpression × Bool))
  | [] => none
  | (candidate, flagged) :: rest =>
    if !flagged && accepts filter candidate then some ((candidate, true) :: rest)
    else (flagFirst accepts filter rest).map ((candidate, flagged) :: ·)

/-- The loop of `filterDomainRemoveConjuncts`. -/
def removeConjunctsLoop :
    List (QuantaFilterExpression × Bool) → List QuantaFilterExpression →
      List QuantaFilterExpression
  | _, [] => []
  | remove, conjunct :: branch =>
    match flagFirst expressionMatches conjunct remove with
    | some remove => removeConjunctsLoop remove branch
    | none => conjunct :: removeConjunctsLoop remove branch

/-- `filterDomainRemoveConjuncts`: each common conjunct is removed once. -/
def removeConjuncts (branch remove : List QuantaFilterExpression) : List QuantaFilterExpression :=
  removeConjunctsLoop (remove.map (·, false)) branch

def conjunctExpression : List QuantaFilterExpression → Option QuantaFilterExpression
  | [] => none
  | [conjunct] => some conjunct
  | conjuncts => some (.all conjuncts)

/-- `filterDomainFactorCommonUnionConjuncts`: a union is left as it is when one of its members
consists of common conjuncts only. -/
def factorCommonUnionConjuncts : QuantaFilterExpression :=
  match filter with
  | .any children =>
    if children.length < 2 then filter
    else
      let branches := children.map conjunctsForFactoring
      let common := commonConjuncts branches
      let remaining := branches.map (removeConjuncts · common)
      if branches.any isEmpty || common.isEmpty || remaining.any isEmpty then filter
      else .all (common ++ [.any (remaining.filterMap conjunctExpression)])
  | _ => filter

section

variable {v : FilterLeaf → Prop} (hv : ∀ a b, leafMatches a b = true → (v a ↔ v b))

include hv in
theorem holds_congr_of_matches
    (h : expressionMatches left right = true) : left.holds v ↔ right.holds v :=
  holds_congr_of_matchesBy hv h

/-- What holds of the conjuncts found in all members holds of the common conjuncts. -/
theorem forall_commonConjunctsLoop {P : QuantaFilterExpression → Prop}
    {rest : List (List QuantaFilterExpression)} {common candidates : List QuantaFilterExpression}
    (hcommon : ∀ c ∈ common, P c)
    (hcandidates : ∀ c ∈ candidates, (∀ branch ∈ rest, expressionMatchesAny c branch = true) → P c) :
    ∀ c ∈ commonConjunctsLoop rest common candidates, P c := by
  induction candidates generalizing common with
  | nil => exact hcommon
  | cons candidate candidates ih =>
    have htail := fun c hc => hcandidates c (mem_cons_of_mem _ hc)
    rw [commonConjunctsLoop]
    split_ifs with _ hall
    · exact ih hcommon htail
    · exact ih (forall_mem_append.mpr ⟨hcommon, forall_mem_singleton.mpr
        (hcandidates candidate mem_cons_self (all_eq_true.mp hall))⟩) htail
    · exact ih hcommon htail

include hv in
theorem holds_commonConjuncts {branches : List (List QuantaFilterExpression)}
    {branch : List QuantaFilterExpression} (hbranch : branch ∈ branches)
    (h : ∀ c ∈ branch, c.holds v) : ∀ c ∈ commonConjuncts branches, c.holds v := by
  cases branches with
  | nil => cases hbranch
  | cons first rest =>
    refine forall_commonConjunctsLoop (by simp) fun c hc hall => ?_
    rcases mem_cons.mp hbranch with rfl | hbranch
    · exact h c hc
    · rcases any_eq_true.mp (hall branch hbranch) with ⟨d, hd, hmatch⟩
      exact (holds_congr_of_matches hv hmatch).mpr (h d hd)

theorem flagFirst_some {accepts : QuantaFilterExpression → QuantaFilterExpression → Bool}
    {filter : QuantaFilterExpression} {entries entries' : List (QuantaFilterExpression × Bool)}
    (h : flagFirst accepts filter entries = some entries') :
    entries'.map Prod.fst = entries.map Prod.fst ∧
      ∃ c ∈ entries.map Prod.fst, accepts filter c = true := by
  induction entries generalizing entries' with
  | nil => cases h
  | cons entry rest ih =>
    rcases entry with ⟨candidate, flagged⟩
    rw [flagFirst] at h
    split_ifs at h with hmatch
    · cases h
      rw [Bool.and_eq_true] at hmatch
      exact ⟨rfl, candidate, by simp, hmatch.2⟩
    · rcases Option.map_eq_some_iff.mp h with ⟨rest', hrest, rfl⟩
      rcases ih hrest with ⟨hfst, c, hc, hmatch⟩
      exact ⟨by simp [hfst], c, mem_cons_of_mem _ hc, hmatch⟩

theorem mem_removeConjunctsLoop (remove : List (QuantaFilterExpression × Bool))
    (branch : List QuantaFilterExpression) :
    (∀ c ∈ removeConjunctsLoop remove branch, c ∈ branch) ∧
      ∀ c ∈ branch, c ∈ removeConjunctsLoop remove branch ∨
        ∃ d ∈ remove.map Prod.fst, expressionMatches c d = true := by
  induction branch generalizing remove with
  | nil => simp [removeConjunctsLoop]
  | cons conjunct branch ih =>
    rw [removeConjunctsLoop]
    split
    · rename_i remove' hremove
      rcases flagFirst_some hremove with ⟨hfst, d, hd, hmatch⟩
      have hih := ih remove'
      rw [hfst] at hih
      exact ⟨fun c hc => mem_cons_of_mem _ (hih.1 c hc),
        forall_mem_cons.mpr ⟨.inr ⟨d, hd, hmatch⟩, hih.2⟩⟩
    · have hih := ih remove
      exact ⟨forall_mem_cons.mpr ⟨mem_cons_self, fun c hc => mem_cons_of_mem _ (hih.1 c hc)⟩,
        forall_mem_cons.mpr ⟨.inl mem_cons_self,
          fun c hc => (hih.2 c hc).imp_left (mem_cons_of_mem _)⟩⟩

include hv in
/-- Given the removed conjuncts, a member holds if what remains of it does. -/
theorem holds_removeConjuncts_iff {branch remove : List QuantaFilterExpression}
    (h : ∀ c ∈ remove, c.holds v) :
    (∀ c ∈ removeConjuncts branch remove, c.holds v) ↔ ∀ c ∈ branch, c.holds v := by
  have hfst : (remove.map (·, false)).map Prod.fst = remove := by
    simp [Function.comp_def]
  rcases mem_removeConjunctsLoop (remove.map (·, false)) branch with ⟨hsub, hcover⟩
  rw [hfst] at hcover
  constructor
  · intro hremaining c hc
    rcases hcover c hc with hc | ⟨d, hd, hmatch⟩
    · exact hremaining c hc
    · exact (holds_congr_of_matches hv hmatch).mpr (h d hd)
  · intro hbranch c hc
    exact hbranch c (hsub c hc)

variable {conjuncts : List QuantaFilterExpression}

theorem holds_conjunctExpression
    {filter : QuantaFilterExpression} (h : conjunctExpression conjuncts = some filter) :
    filter.holds v ↔ ∀ c ∈ conjuncts, c.holds v := by
  match conjuncts with
  | [] => cases h
  | [conjunct] =>
    cases h
    simp
  | c :: d :: conjuncts =>
    cases h
    rw [holds_all]

theorem exists_conjunctExpression (h : conjuncts ≠ []) :
    ∃ filter, conjunctExpression conjuncts = some filter := by
  match conjuncts with
  | [] => exact absurd rfl h
  | [conjunct] => exact ⟨conjunct, rfl⟩
  | c :: d :: conjuncts => exact ⟨.all (c :: d :: conjuncts), rfl⟩

theorem mem_rests {children common : List QuantaFilterExpression} {r : QuantaFilterExpression} :
    r ∈ ((children.map conjunctsForFactoring).map (removeConjuncts · common)).filterMap
        conjunctExpression ↔
      ∃ child ∈ children,
        conjunctExpression (removeConjuncts (conjunctsForFactoring child) common) = some r := by
  simp

/-- A union that is factored leaves a rest of every member. -/
theorem exists_rest {branches : List (List QuantaFilterExpression)}
    {children common : List QuantaFilterExpression}
    (h : ¬ (branches.any List.isEmpty || common.isEmpty ||
      ((children.map conjunctsForFactoring).map (removeConjuncts · common)).any List.isEmpty)) :
    ∀ child ∈ children, ∃ r,
      conjunctExpression (removeConjuncts (conjunctsForFactoring child) common) = some r := by
  simp only [Bool.or_eq_true, not_or, Bool.not_eq_true, any_eq_false, List.isEmpty_iff] at h
  exact fun child hchild => exists_conjunctExpression
    (h.2 _ (mem_map_of_mem (mem_map_of_mem hchild)))

include hv in
/-- Moving the common conjuncts out of a union keeps its truth. -/
theorem holds_factorCommonUnionConjuncts (filter : QuantaFilterExpression) :
    (factorCommonUnionConjuncts filter).holds v ↔ filter.holds v := by
  fun_cases factorCommonUnionConjuncts filter
  case case3 children _ branches common remaining hguard =>
    have hrest := exists_rest hguard
    have hchild : ∀ child ∈ children, child.holds v → ∀ c ∈ common, c.holds v :=
      fun child hchild h => holds_commonConjuncts hv (mem_map_of_mem hchild)
        ((forall_conjuncts_iff child).mpr h)
    rw [holds_all, holds_any]
    constructor
    · intro h
      have hcommon := fun c hc => h c (mem_append_left _ hc)
      have hunion := h _ (mem_append_right _ (mem_singleton_self _))
      rcases (holds_any _).mp hunion with ⟨u, hu, huholds⟩
      rcases mem_rests.mp hu with ⟨child, hchild, hru⟩
      refine ⟨child, hchild, (forall_conjuncts_iff child).mp ?_⟩
      exact (holds_removeConjuncts_iff hv hcommon).mp
        ((holds_conjunctExpression hru).mp huholds)
    · rintro ⟨child, hmem, hholds⟩ c hc
      have hcommon := hchild child hmem hholds
      rcases mem_append.mp hc with hc | hc
      · exact hcommon c hc
      rw [mem_singleton.mp hc, holds_any]
      rcases hrest child hmem with ⟨u, hu⟩
      refine ⟨u, mem_rests.mpr ⟨child, hmem, hu⟩, (holds_conjunctExpression hu).mpr ?_⟩
      exact (holds_removeConjuncts_iff hv hcommon).mpr
        ((forall_conjuncts_iff child).mpr hholds)
  all_goals rfl

end

/-! ## The shape of a factored union -/

theorem mem_of_mem_commonConjuncts {branches : List (List QuantaFilterExpression)}
    {c : QuantaFilterExpression} (h : c ∈ commonConjuncts branches) :
    ∃ branch ∈ branches, c ∈ branch := by
  cases branches with
  | nil => cases h
  | cons first rest =>
    have hfirst : ∀ c ∈ commonConjunctsLoop rest [] first, c ∈ first :=
      forall_commonConjunctsLoop (by simp) fun c hc _ => hc
    exact ⟨first, mem_cons_self, hfirst c h⟩

/-- The parts of a factored union: the union itself, or its common conjuncts and a union of what
remains of its members. -/
theorem factorCommonUnionConjuncts_cases (filter : QuantaFilterExpression) :
    factorCommonUnionConjuncts filter = filter ∨
      ∃ children, filter = .any children ∧ ∃ common rests : List QuantaFilterExpression,
        factorCommonUnionConjuncts filter = .all (common ++ [.any rests]) ∧
        (∀ c ∈ common, ∃ child ∈ children, c ∈ child.conjuncts) ∧
        (∀ r ∈ rests, ∃ child ∈ children, ∃ conjuncts, conjunctExpression conjuncts = some r ∧
          ∀ c ∈ conjuncts, c ∈ child.conjuncts) ∧
        ∀ child ∈ children, ∀ c ∈ child.conjuncts,
          (∃ d ∈ common, expressionMatches c d = true) ∨
            ∃ r ∈ rests, ∃ conjuncts, conjunctExpression conjuncts = some r ∧ c ∈ conjuncts := by
  fun_cases factorCommonUnionConjuncts filter
  case case3 children hlen branches common remaining hguard =>
    have hrest := exists_rest hguard
    refine .inr ⟨children, rfl, _, _, rfl, ?_, ?_, ?_⟩
    · intro c hc
      rcases mem_of_mem_commonConjuncts hc with ⟨branch, hbranch, hc⟩
      rcases mem_map.mp hbranch with ⟨child, hchild, rfl⟩
      exact ⟨child, hchild, hc⟩
    · intro r hr
      rcases mem_rests.mp hr with ⟨child, hchild, hr⟩
      exact ⟨child, hchild, _, hr, (mem_removeConjunctsLoop _ _).1⟩
    · intro child hchild c hc
      rcases (mem_removeConjunctsLoop (common.map (·, false)) (conjunctsForFactoring child)).2 c hc
        with hc | ⟨d, hd, hmatch⟩
      · rcases hrest child hchild with ⟨r, hr⟩
        exact .inr ⟨r, mem_rests.mpr ⟨child, hchild, hr⟩, _, hr, hc⟩
      · exact .inl ⟨d, by simpa [Function.comp_def] using hd, hmatch⟩
  all_goals exact .inl rfl

variable {filter : QuantaFilterExpression}

section

variable {conjuncts : List QuantaFilterExpression} (h : conjunctExpression conjuncts = some filter)

include h

theorem mem_leaves_conjunctExpression : a ∈ filter.leaves ↔ ∃ c ∈ conjuncts, a ∈ c.leaves := by
  match conjuncts with
  | [] => cases h
  | [conjunct] =>
    cases h
    simp
  | c :: d :: conjuncts =>
    cases h
    rw [mem_leaves_all]

theorem proper_conjunctExpression (hproper : ∀ c ∈ conjuncts, c.Proper) : filter.Proper := by
  match conjuncts with
  | [] => cases h
  | [conjunct] =>
    cases h
    exact hproper _ mem_cons_self
  | c :: d :: conjuncts =>
    cases h
    rw [proper_all]
    exact ⟨by simp, hproper⟩

end

theorem proper_factorCommonUnionConjuncts (h : filter.Proper) :
    (factorCommonUnionConjuncts filter).Proper := by
  rcases factorCommonUnionConjuncts_cases filter with
    heq | ⟨children, rfl, common, rests, heq, hcommon, hrests, _⟩
  · rwa [heq]
  have hchildren := proper_any.mp h
  rw [heq, proper_all]
  refine ⟨by simp, fun c hc => ?_⟩
  rcases mem_append.mp hc with hc | hc
  · rcases hcommon c hc with ⟨child, hchild, hc⟩
    exact proper_of_mem_conjuncts (hchildren child hchild) hc
  · rw [mem_singleton.mp hc, proper_any]
    intro r hr
    rcases hrests r hr with ⟨child, hchild, conjuncts, hr, hsub⟩
    exact proper_conjunctExpression hr fun c hc =>
      proper_of_mem_conjuncts (hchildren child hchild) (hsub c hc)

/-- Factoring changes neither the tables of a filter nor, up to matching, its leaves. -/
theorem exists_domain_factorCommonUnionConjuncts (filter : QuantaFilterExpression)
    (domain : String) :
    (∃ a ∈ (factorCommonUnionConjuncts filter).leaves, a.domain = domain) ↔
      ∃ a ∈ filter.leaves, a.domain = domain := by
  rcases factorCommonUnionConjuncts_cases filter with
    heq | ⟨children, rfl, common, rests, heq, hcommon, hrests, hcover⟩
  · rw [heq]
  rw [heq]
  constructor
  · rintro ⟨a, ha, hdomain⟩
    refine ⟨a, mem_leaves_any.mpr ?_, hdomain⟩
    rcases mem_leaves_all.mp ha with ⟨c, hc, ha⟩
    rcases mem_append.mp hc with hc | hc
    · rcases hcommon c hc with ⟨child, hchild, hc⟩
      exact ⟨child, hchild, mem_leaves_iff_conjuncts.mpr ⟨c, hc, ha⟩⟩
    · rw [mem_singleton.mp hc, mem_leaves_any] at ha
      rcases ha with ⟨r, hr, ha⟩
      rcases hrests r hr with ⟨child, hchild, conjuncts, hr, hsub⟩
      rcases (mem_leaves_conjunctExpression hr).mp ha with ⟨c, hc, ha⟩
      exact ⟨child, hchild, mem_leaves_iff_conjuncts.mpr ⟨c, hsub c hc, ha⟩⟩
  · rintro ⟨a, ha, hdomain⟩
    rcases mem_leaves_any.mp ha with ⟨child, hchild, ha⟩
    rcases mem_leaves_iff_conjuncts.mp ha with ⟨c, hc, ha⟩
    rcases hcover child hchild c hc with ⟨d, hd, hmatch⟩ | ⟨r, hr, conjuncts, hconj, hc⟩
    · rcases exists_leaf_of_matches hmatch ha with ⟨b, hb, hbdomain⟩
      exact ⟨b, mem_leaves_all.mpr ⟨d, mem_append_left _ hd, hb⟩,
        hbdomain.trans hdomain⟩
    · refine ⟨a, mem_leaves_all.mpr ⟨.any rests,
        mem_append_right _ (mem_singleton_self _), ?_⟩, hdomain⟩
      exact mem_leaves_any.mpr
        ⟨r, hr, (mem_leaves_conjunctExpression hconj).mpr ⟨c, hc, ha⟩⟩

end QuantaStream.Bridge
