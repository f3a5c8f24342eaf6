import QuantaStream.Bridge.FilterExpression

/-!
# Rewriting a filter with translated candidate sets

This module models `FilterDomainRewriteResult.Apply` of
`qsbridge/quanta_intermediate.go`.  The rewriting walks down a filter.  A node that matches a
translated subtree becomes its candidate set.  An intersection in which the children of a
translated intersection are found loses them and gets the candidate set instead.  A leaf that
matches a translated fragment becomes the candidate set of the fragment.

Main results:

- `RewriteResult.rewriteStep_cases`: what one step of the rewriting does.
- `RewriteResult.holds_apply_iff`: the truth of the rewritten filter.
- `RewriteResult.Reads.holds`: the rewritten filter implies the original one.
-/

namespace QuantaStream.Bridge

open List BoolTree

/-! ## Conjuncts found in a filter -/

mutual

/-- `filterDomainMarkConjunctiveBranchMatches`: flag the entries found among the nested conjuncts
of a filter. -/
def markConjunctiveBranchMatches
    (accepts : QuantaFilterExpression → QuantaFilterExpression → Bool) :
    QuantaFilterExpression → List (QuantaFilterExpression × Bool) →
      List (QuantaFilterExpression × Bool)
  | .leaf a, entries => (flagFirst accepts (.leaf a) entries).getD entries
  | .any children, entries => (flagFirst accepts (.any children) entries).getD entries
  | .all children, entries =>
    match flagFirst accepts (.all children) entries with
    | some flagged => flagged
    | none => markChildren accepts children entries

/-- The loop of `filterDomainMarkConjunctiveBranchMatches` over the children. -/
def markChildren (accepts : QuantaFilterExpression → QuantaFilterExpression → Bool) :
    List QuantaFilterExpression → List (QuantaFilterExpression × Bool) →
      List (QuantaFilterExpression × Bool)
  | [], entries => entries
  | child :: children, entries =>
    markChildren accepts children (markConjunctiveBranchMatches accepts child entries)

end

def conjunctiveTreeContainsAll
    (accepts : QuantaFilterExpression → QuantaFilterExpression → Bool)
    (filter : QuantaFilterExpression) (branchChildren : List QuantaFilterExpression) : Bool :=
  (markConjunctiveBranchMatches accepts filter (branchChildren.map (·, false))).all Prod.snd

/-! ## Pruning -/

mutual

/-- `filterDomainPruneConjunctiveBranchChildren`: drop the nested conjuncts that match a child of
the branch. -/
def pruneConjunctiveBranchChildren (branchChildren : List QuantaFilterExpression) :
    QuantaFilterExpression → Option QuantaFilterExpression
  | .leaf a => if expressionMatchesAny (.leaf a) branchChildren then none else some (.leaf a)
  | .any children =>
    if expressionMatchesAny (.any children) branchChildren then none else some (.any children)
  | .all children =>
    if expressionMatchesAny (.all children) branchChildren then none
    else if children.isEmpty then some (.all children)
    else conjunctExpression (pruneChildren branchChildren children)

/-- The children of an intersection that are not dropped. -/
def pruneChildren (branchChildren : List QuantaFilterExpression) :
    List QuantaFilterExpression → List QuantaFilterExpression
  | [] => []
  | child :: children =>
    (pruneConjunctiveBranchChildren branchChildren child).toList ++
      pruneChildren branchChildren children

end

def prunedChildren : Option QuantaFilterExpression → List QuantaFilterExpression
  | none => []
  | some (.all children) => children
  | some filter => [filter]

section

variable {branchChildren children : List QuantaFilterExpression} {p : QuantaFilterExpression}

theorem mem_pruneChildren :
    p ∈ pruneChildren branchChildren children ↔
      ∃ c ∈ children, pruneConjunctiveBranchChildren branchChildren c = some p := by
  induction children with
  | nil => simp [pruneChildren]
  | cons child children ih => simp [pruneChildren, ih]

theorem sizeChildren_append (cs ds : List QuantaFilterExpression) :
    sizeChildren (cs ++ ds) = sizeChildren cs + sizeChildren ds := by
  induction cs with
  | nil => simp [sizeChildren]
  | cons c cs ih =>
    simp only [cons_append, sizeChildren, ih]
    omega

variable {filter : QuantaFilterExpression} {conjuncts : List QuantaFilterExpression}

theorem conjunctExpression_cases (h : conjunctExpression conjuncts = some filter) :
    conjuncts = [filter] ∨ filter = .all conjuncts := by
  match conjuncts with
  | [] => cases h
  | [conjunct] =>
    cases h
    exact .inl rfl
  | c :: d :: conjuncts =>
    cases h
    exact .inr rfl

theorem size_conjunctExpression_le (h : conjunctExpression conjuncts = some filter) :
    filter.size ≤ sizeChildren conjuncts + 1 := by
  rcases conjunctExpression_cases h with rfl | rfl <;> simp only [sizeChildren, size] <;> omega

theorem sizeChildren_pruneChildren_le
    (h : ∀ c ∈ children, ∀ p, pruneConjunctiveBranchChildren branchChildren c = some p →
      p.size ≤ c.size) :
    sizeChildren (pruneChildren branchChildren children) ≤ sizeChildren children := by
  induction children with
  | nil => rfl
  | cons child children ih =>
    rw [pruneChildren, sizeChildren_append, sizeChildren]
    have hhead : sizeChildren
        (pruneConjunctiveBranchChildren branchChildren child).toList ≤ child.size := by
      cases hp : pruneConjunctiveBranchChildren branchChildren child with
      | none => simp [sizeChildren]
      | some q => simpa [sizeChildren] using h child mem_cons_self q hp
    have htail := ih fun c hc => h c (mem_cons_of_mem _ hc)
    omega

section

variable (h : pruneConjunctiveBranchChildren branchChildren filter = some p)

include h

/-- A pruned filter is the filter itself, or an intersection of pruned children. -/
theorem prune_cases :
    p = filter ∨ ∃ children, filter = .all children ∧
      conjunctExpression (pruneChildren branchChildren children) = some p := by
  cases filter with
  | leaf a | any children =>
    rw [pruneConjunctiveBranchChildren] at h
    split_ifs at h
    exact .inl (Option.some.inj h).symm
  | all children =>
    rw [pruneConjunctiveBranchChildren] at h
    split_ifs at h
    · exact .inl (Option.some.inj h).symm
    · exact .inr ⟨children, rfl, h⟩

/-- What relates each filter to itself, and an intersection to that of its pruned children if it
relates these, relates a filter to the pruned one. -/
@[elab_as_elim]
theorem prune_induction {motive : QuantaFilterExpression → QuantaFilterExpression → Prop}
    (same : ∀ filter, motive filter filter)
    (all : ∀ children p, conjunctExpression (pruneChildren branchChildren children) = some p →
      (∀ c ∈ children, ∀ q, pruneConjunctiveBranchChildren branchChildren c = some q →
        motive c q) → motive (.all children) p) : motive filter p := by
  induction filter using induction generalizing p with
  | leaf a | any children =>
    rcases prune_cases h with rfl | ⟨_, hall, _⟩
    · exact same _
    · cases hall
  | all children ih =>
    rcases prune_cases h with rfl | ⟨_, hall, hconj⟩
    · exact same _
    · cases hall
      exact all children p hconj fun c hc q => ih c hc

theorem size_prune_le : p.size ≤ filter.size := by
  refine prune_induction h (fun _ => le_rfl) fun children p hconj ih => ?_
  have hle := sizeChildren_pruneChildren_le ih
  have hsize := size_conjunctExpression_le hconj
  rw [size]
  omega

end

theorem mem_prunedChildren {pruned : Option QuantaFilterExpression} :
    p ∈ prunedChildren pruned ↔ ∃ q, pruned = some q ∧
      ((∃ children, q = .all children ∧ p ∈ children) ∨ (∀ children, q ≠ .all children) ∧ p = q) := by
  cases pruned with
  | none => simp [prunedChildren]
  | some q => cases q <;> simp [prunedChildren]

theorem size_lt_of_mem_prunedChildren
    (h : p ∈ prunedChildren (pruneConjunctiveBranchChildren branchChildren (.all children))) :
    p.size < (BoolTree.all children).size := by
  rcases mem_prunedChildren.mp h with ⟨q, hq, ⟨ds, rfl, hp⟩ | ⟨hne, rfl⟩⟩
  · exact lt_of_lt_of_le (size_lt_all hp) (size_prune_le hq)
  rcases prune_cases hq with hall | ⟨_, hall, hconj⟩
  · exact absurd hall (hne children)
  cases hall
  rcases conjunctExpression_cases hconj with hsingle | hall
  · have hle : sizeChildren (pruneChildren branchChildren children) ≤
        sizeChildren children :=
      sizeChildren_pruneChildren_le fun _ _ _ => size_prune_le
    rw [hsingle] at hle
    simp only [sizeChildren] at hle
    rw [BoolTree.size]
    omega
  · exact absurd hall (hne _)

section

variable {v : FilterLeaf → Prop} (hv : ∀ a b, leafMatches a b = true → (v a ↔ v b))

include hv in
/-- Pruning removes only what the children of the branch imply. -/
theorem holds_of_prune (hbranch : ∀ c ∈ branchChildren, c.holds v)
    (hp : ∀ p, pruneConjunctiveBranchChildren branchChildren filter = some p → p.holds v) :
    filter.holds v := by
  have hmatches : ∀ filter, expressionMatchesAny filter branchChildren = true →
      filter.holds v := by
    intro filter h
    rcases any_eq_true.mp h with ⟨c, hc, hmatch⟩
    exact (holds_congr_of_matches hv hmatch).mpr (hbranch c hc)
  induction filter using induction with
  | leaf a | any children =>
    rw [pruneConjunctiveBranchChildren] at hp
    split_ifs at hp with h
    · exact hmatches _ h
    · exact hp _ rfl
  | all children ih =>
    rw [pruneConjunctiveBranchChildren] at hp
    split_ifs at hp with h
    · exact hmatches _ h
    · exact hp _ rfl
    · have hpruned : ∀ p ∈ pruneChildren branchChildren children, p.holds v := by
        cases hconj : conjunctExpression (pruneChildren branchChildren children) with
        | none =>
          have hnil : pruneChildren branchChildren children = [] := by
            by_contra hne
            rcases exists_conjunctExpression hne with ⟨q, hq⟩
            cases hq.symm.trans hconj
          simp [hnil]
        | some q => exact (holds_conjunctExpression hconj).mp (hp q hconj)
      rw [holds_all]
      exact fun c hc => ih c hc fun p hpc => hpruned p (mem_pruneChildren.mpr ⟨c, hc, hpc⟩)

theorem forall_prunedChildren_iff (pruned : Option QuantaFilterExpression) :
    (∀ p ∈ prunedChildren pruned, p.holds v) ↔ ∀ p, pruned = some p → p.holds v := by
  cases pruned with
  | none => simp [prunedChildren]
  | some q => cases q <;> simp [prunedChildren]

end

theorem proper_prune (hfilter : filter.Proper)
    (h : pruneConjunctiveBranchChildren branchChildren filter = some p) : p.Proper := by
  revert hfilter
  refine prune_induction h (fun _ => id) fun children p hconj ih hfilter => ?_
  refine proper_conjunctExpression hconj fun c hc => ?_
  rcases mem_pruneChildren.mp hc with ⟨d, hd, hpruned⟩
  exact ih d hd c hpruned ((proper_all.mp hfilter).2 d hd)

theorem proper_of_mem_prunedChildren (hfilter : filter.Proper)
    (h : p ∈ prunedChildren (pruneConjunctiveBranchChildren branchChildren filter)) : p.Proper := by
  rcases mem_prunedChildren.mp h with ⟨q, hq, ⟨ds, rfl, hp⟩ | ⟨_, rfl⟩⟩
  · exact (proper_all.mp (proper_prune hfilter hq)).2 p hp
  · exact proper_prune hfilter hq

theorem mem_leaves_of_prune (h : pruneConjunctiveBranchChildren branchChildren filter = some p)
    {a : FilterLeaf} (ha : a ∈ p.leaves) : a ∈ filter.leaves := by
  revert ha
  refine prune_induction h (fun _ => id) fun children p hconj ih ha => ?_
  rcases (mem_leaves_conjunctExpression hconj).mp ha with ⟨c, hc, ha⟩
  rcases mem_pruneChildren.mp hc with ⟨d, hd, hpruned⟩
  exact mem_leaves_all.mpr ⟨d, hd, ih d hd c hpruned ha⟩

theorem mem_leaves_of_mem_prunedChildren
    (h : p ∈ prunedChildren (pruneConjunctiveBranchChildren branchChildren filter))
    {a : FilterLeaf} (ha : a ∈ p.leaves) : a ∈ filter.leaves := by
  rcases mem_prunedChildren.mp h with ⟨q, hq, ⟨ds, rfl, hp⟩ | ⟨_, rfl⟩⟩
  · exact mem_leaves_of_prune hq (mem_leaves_all.mpr ⟨p, hp, ha⟩)
  · exact mem_leaves_of_prune hq ha

end

/-! ## Rewriting -/

/-- `FilterDomainNormalizedBranch`: a subtree of the source table with its translation. -/
structure NormalizedBranch where
  originalFilter : QuantaFilterExpression
  targetDomain : String
  candidateSet : QuantaCandidateSet

/-- `FilterDomainNormalizedLeaf`: a fragment of the source table with its translation. -/
structure NormalizedLeaf where
  originalFragment : QuantaQueryFragment
  targetDomain : String
  candidateSet : QuantaCandidateSet

/-- The candidate set of a translation, by default in the target table. -/
def candidateLeaf (targetDomain : String) (candidateSet : QuantaCandidateSet) : FilterLeaf :=
  .candidateSet { candidateSet with
    index := if candidateSet.index = "" then targetDomain else candidateSet.index }

/-- The leaf a translated subtree is replaced by. -/
def NormalizedBranch.leaf (b : NormalizedBranch) : FilterLeaf :=
  candidateLeaf b.targetDomain b.candidateSet

/-- The leaf a translated fragment is replaced by. -/
def NormalizedLeaf.leaf (l : NormalizedLeaf) : FilterLeaf :=
  candidateLeaf l.targetDomain l.candidateSet

/-- The children of a translated intersection. -/
def NormalizedBranch.intersectChildren (b : NormalizedBranch) : List QuantaFilterExpression :=
  match b.originalFilter with
  | .all children => children
  | _ => []

structure RewriteResult where
  branches : List NormalizedBranch
  leaves : List NormalizedLeaf

/-- What the rewriting does at a node. -/
inductive RewriteStep where
  | branch (b : NormalizedBranch)
  | subset (b : NormalizedBranch) (remaining : List QuantaFilterExpression)
  | leaf (a : FilterLeaf)
  | intersect (children : List QuantaFilterExpression)
  | union (children : List QuantaFilterExpression)

namespace RewriteResult

variable (r : RewriteResult) (filter : QuantaFilterExpression)

/-- The first translated intersection whose children are found in the filter
(`applyIntersectBranchSubset`). -/
def intersectBranchSubset : Option NormalizedBranch :=
  r.branches.find? fun b => !b.intersectChildren.isEmpty &&
    conjunctiveTreeContainsAll expressionMatches filter b.intersectChildren

/-- The step of `Apply` at a node. -/
def rewriteStep : RewriteStep :=
  match r.branches.find? (fun b => expressionMatches filter b.originalFilter) with
  | some b => .branch b
  | none =>
    match filter with
    | .leaf a => .leaf a
    | .any children => .union children
    | .all children =>
      match r.intersectBranchSubset (.all children) with
      | some b => .subset b (prunedChildren
          (pruneConjunctiveBranchChildren b.intersectChildren (.all children)))
      | none => .intersect children

/-- The leaf that takes the place of a leaf: the candidate set of the first translated fragment
it matches. -/
def rewriteLeaf : FilterLeaf → FilterLeaf
  | .fragment f =>
    match r.leaves.find? (fun l => fragmentMatches f l.originalFragment) with
    | some l => l.leaf
    | none => .fragment f
  | a => a

theorem rewriteStep_cases :
    (∃ b ∈ r.branches, r.rewriteStep filter = .branch b ∧
        expressionMatches filter b.originalFilter = true) ∨
      (∃ b ∈ r.branches, ∃ children, filter = .all children ∧
        r.rewriteStep filter = .subset b (prunedChildren
          (pruneConjunctiveBranchChildren b.intersectChildren filter)) ∧
        b.originalFilter = .all b.intersectChildren ∧
        conjunctiveTreeContainsAll expressionMatches filter b.intersectChildren = true) ∨
      (∃ a, filter = .leaf a ∧ r.rewriteStep filter = .leaf a) ∨
      (∃ children, filter = .all children ∧ r.rewriteStep filter = .intersect children) ∨
      ∃ children, filter = .any children ∧ r.rewriteStep filter = .union children := by
  unfold rewriteStep
  split
  next b hb =>
    have hmatch := find?_some hb
    exact .inl ⟨b, mem_of_find?_eq_some hb, rfl, hmatch⟩
  · split
    · exact .inr (.inr (.inl ⟨_, rfl, rfl⟩))
    · exact .inr (.inr (.inr (.inr ⟨_, rfl, rfl⟩)))
    · split
      · rename_i b hb
        have hfound := find?_some hb
        rw [Bool.and_eq_true, Bool.not_eq_true'] at hfound
        refine .inr (.inl ⟨b, mem_of_find?_eq_some hb, _, rfl, rfl, ?_, hfound.2⟩)
        cases horiginal : b.originalFilter <;> simp_all [NormalizedBranch.intersectChildren]
      · exact .inr (.inr (.inr (.inl ⟨_, rfl, rfl⟩)))

theorem size_lt_of_rewriteStep {filter c : QuantaFilterExpression}
    (h : (∃ b remaining, r.rewriteStep filter = .subset b remaining ∧ c ∈ remaining) ∨
      (∃ children, r.rewriteStep filter = .intersect children ∧ c ∈ children) ∨
      ∃ children, r.rewriteStep filter = .union children ∧ c ∈ children) :
    c.size < filter.size := by
  rcases r.rewriteStep_cases filter with ⟨b, _, hstep, _⟩ | ⟨b, _, children, rfl, hstep, _⟩ |
    ⟨a, rfl, hstep⟩ | ⟨children, rfl, hstep⟩ | ⟨children, rfl, hstep⟩
  · simp [hstep] at h
  · simp only [hstep, RewriteStep.subset.injEq, reduceCtorEq, false_and, exists_false,
      or_false] at h
    rcases h with ⟨_, _, ⟨_, rfl⟩, hc⟩
    exact size_lt_of_mem_prunedChildren hc
  · simp [hstep] at h
  · exact size_lt_all (by simpa [hstep] using h)
  · exact size_lt_any (by simpa [hstep] using h)

def apply (filter : QuantaFilterExpression) : QuantaFilterExpression :=
  match _h : r.rewriteStep filter with
  | .branch b => .leaf b.leaf
  | .subset b remaining => .all (.leaf b.leaf :: remaining.attach.map fun c => apply c.1)
  | .leaf a => .leaf (r.rewriteLeaf a)
  | .intersect children =>
    factorCommonUnionConjuncts (.all (children.attach.map fun c => apply c.1))
  | .union children =>
    factorCommonUnionConjuncts (.any (children.attach.map fun c => apply c.1))
termination_by filter.size
decreasing_by
  · exact r.size_lt_of_rewriteStep (.inl ⟨b, remaining, _h, c.2⟩)
  · exact r.size_lt_of_rewriteStep (.inr (.inl ⟨children, _h, c.2⟩))
  · exact r.size_lt_of_rewriteStep (.inr (.inr ⟨children, _h, c.2⟩))

/-- The rewritten filter, by the step at its root. -/
theorem apply_eq : r.apply filter = match r.rewriteStep filter with
    | .branch b => .leaf b.leaf
    | .subset b remaining => .all (.leaf b.leaf :: remaining.map r.apply)
    | .leaf a => .leaf (r.rewriteLeaf a)
    | .intersect children => .all (children.map r.apply)
    | .union children => factorCommonUnionConjuncts (.any (children.map r.apply)) := by
  rw [apply]
  split <;> simp_all [factorCommonUnionConjuncts]

@[elab_as_elim]
theorem rewrite_induction {motive : QuantaFilterExpression → Prop}
    (branch : ∀ filter, ∀ b ∈ r.branches, r.rewriteStep filter = .branch b →
      expressionMatches filter b.originalFilter = true → motive filter)
    (subset : ∀ filter, ∀ b ∈ r.branches,
      r.rewriteStep filter = .subset b (prunedChildren
        (pruneConjunctiveBranchChildren b.intersectChildren filter)) →
      b.originalFilter = .all b.intersectChildren →
      conjunctiveTreeContainsAll expressionMatches filter b.intersectChildren = true →
      (∀ c ∈ prunedChildren (pruneConjunctiveBranchChildren b.intersectChildren filter),
        motive c) → motive filter)
    (leaf : ∀ a, r.rewriteStep (.leaf a) = .leaf a → motive (.leaf a))
    (intersect : ∀ children, r.rewriteStep (.all children) = .intersect children →
      (∀ c ∈ children, motive c) → motive (.all children))
    (union : ∀ children, r.rewriteStep (.any children) = .union children →
      (∀ c ∈ children, motive c) → motive (.any children))
    (filter : QuantaFilterExpression) : motive filter := by
  induction hn : filter.size using Nat.strong_induction_on generalizing filter with
  | _ n ih =>
    subst hn
    rcases r.rewriteStep_cases filter with ⟨b, hb, hstep, hmatch⟩ |
      ⟨b, hb, _, _, hstep, horig, hcontains⟩ | ⟨a, rfl, hstep⟩ | ⟨children, rfl, hstep⟩ |
      ⟨children, rfl, hstep⟩
    · exact branch filter b hb hstep hmatch
    · exact subset filter b hb hstep horig hcontains fun c hc =>
        ih c.size (r.size_lt_of_rewriteStep (.inl ⟨b, _, hstep, hc⟩)) c rfl
    · exact leaf a hstep
    · exact intersect children hstep fun c hc =>
        ih c.size (r.size_lt_of_rewriteStep (.inr (.inl ⟨children, hstep, hc⟩))) c rfl
    · exact union children hstep fun c hc =>
        ih c.size (r.size_lt_of_rewriteStep (.inr (.inr ⟨children, hstep, hc⟩))) c rfl

/-! ## The truth of the rewritten filter -/

/-- A leaf of another table than the source table, or one that is translated. -/
def LeafCovered (source : String) (a : FilterLeaf) : Prop :=
  a.domain ≠ source ∨
    ∃ f, a = .fragment f ∧ ∃ l ∈ r.leaves, fragmentMatches f l.originalFragment = true

/-- Every leaf the rewriting comes to is covered. -/
inductive Covered (source : String) : QuantaFilterExpression → Prop where
  | branch {filter b} : r.rewriteStep filter = .branch b → Covered source filter
  | subset {filter b remaining} : r.rewriteStep filter = .subset b remaining →
      (∀ c ∈ remaining, Covered source c) → Covered source filter
  | leaf {filter a} : r.rewriteStep filter = .leaf a → r.LeafCovered source a →
      Covered source filter
  | intersect {filter children} : r.rewriteStep filter = .intersect children →
      (∀ c ∈ children, Covered source c) → Covered source filter
  | union {filter children} : r.rewriteStep filter = .union children →
      (∀ c ∈ children, Covered source c) → Covered source filter

/-- The filter holds when each translated subtree the rewriting puts in is read together with its
guard. -/
inductive Reads (w : FilterLeaf → Prop) (guard : NormalizedBranch → Prop) :
    QuantaFilterExpression → Prop where
  | branch {filter b} : r.rewriteStep filter = .branch b → b.originalFilter.holds w → guard b →
      Reads w guard filter
  | subset {filter b remaining} : r.rewriteStep filter = .subset b remaining →
      b.originalFilter.holds w → guard b → (∀ c ∈ remaining, Reads w guard c) →
      Reads w guard filter
  | leaf {filter a} : r.rewriteStep filter = .leaf a → w a → Reads w guard filter
  | intersect {filter children} : r.rewriteStep filter = .intersect children →
      (∀ c ∈ children, Reads w guard c) → Reads w guard filter
  | union {filter children c} : r.rewriteStep filter = .union children → c ∈ children →
      Reads w guard c → Reads w guard filter

section

variable {r} {w : FilterLeaf → Prop} {guard : NormalizedBranch → Prop} {source : String}
  {filter : QuantaFilterExpression}

theorem reads_iff : r.Reads w guard filter ↔ match r.rewriteStep filter with
    | .branch b => b.originalFilter.holds w ∧ guard b
    | .subset b remaining =>
      (b.originalFilter.holds w ∧ guard b) ∧ ∀ c ∈ remaining, r.Reads w guard c
    | .leaf a => w a
    | .intersect children => ∀ c ∈ children, r.Reads w guard c
    | .union children => ∃ c ∈ children, r.Reads w guard c := by
  refine ⟨fun h => ?_, fun h => ?_⟩
  · cases h with
    | union hstep hc hreads =>
      rw [hstep]
      exact ⟨_, hc, hreads⟩
    | _ => simp_all
  · split at h
    next hstep => exact .branch hstep h.1 h.2
    next hstep => exact .subset hstep h.1.1 h.1.2 h.2
    next hstep => exact .leaf hstep h
    next hstep => exact .intersect hstep h
    next hstep =>
      obtain ⟨c, hc, hreads⟩ := h
      exact .union hstep hc hreads

theorem covered_iff : r.Covered source filter ↔ match r.rewriteStep filter with
    | .branch _ => True
    | .subset _ remaining => ∀ c ∈ remaining, r.Covered source c
    | .leaf a => r.LeafCovered source a
    | .intersect children => ∀ c ∈ children, r.Covered source c
    | .union children => ∀ c ∈ children, r.Covered source c := by
  refine ⟨fun h => by cases h <;> simp_all, fun h => ?_⟩
  split at h
  next hstep => exact .branch hstep
  next hstep => exact .subset hstep h
  next hstep => exact .leaf hstep h
  next hstep => exact .intersect hstep h
  next hstep => exact .union hstep h

end

section

variable {r} {v w : FilterLeaf → Prop} {guard : NormalizedBranch → Prop} {source : String}
  {filter : QuantaFilterExpression}

theorem holds_apply_iff (hv : ∀ a b, leafMatches a b = true → (v a ↔ v b))
    (hbranch : ∀ b ∈ r.branches, v b.leaf ↔ b.originalFilter.holds w ∧ guard b)
    (hleaf : ∀ a, r.LeafCovered source a → (v (r.rewriteLeaf a) ↔ w a))
    (hcovered : r.Covered source filter) : (r.apply filter).holds v ↔ r.Reads w guard filter := by
  induction filter using r.rewrite_induction with
  | branch filter b hb hstep _ =>
    rw [apply_eq, hstep, holds_leaf, hbranch b hb, reads_iff, hstep]
  | subset filter b hb hstep _ _ ih =>
    rw [covered_iff, hstep] at hcovered
    rw [apply_eq, hstep, holds_all, reads_iff, hstep]
    rw [forall_mem_cons, holds_leaf, forall_mem_map]
    refine and_congr (hbranch b hb) (forall₂_congr fun c hc => ?_)
    exact ih c hc (hcovered c hc)
  | leaf a hstep =>
    rw [covered_iff, hstep] at hcovered
    rw [apply_eq, hstep, holds_leaf, hleaf a hcovered, reads_iff, hstep]
  | intersect children hstep ih =>
    rw [covered_iff, hstep] at hcovered
    rw [apply_eq, hstep, holds_all, reads_iff, hstep,
      forall_mem_map]
    exact forall₂_congr fun c hc => ih c hc (hcovered c hc)
  | union children hstep ih =>
    rw [covered_iff, hstep] at hcovered
    rw [apply_eq, hstep, holds_factorCommonUnionConjuncts hv, holds_any,
      reads_iff, hstep]
    simp only [mem_map, exists_exists_and_eq_and]
    exact exists_congr fun c => and_congr_right fun hc => ih c hc (hcovered c hc)

theorem Reads.holds (hw : ∀ a b, leafMatches a b = true → (w a ↔ w b))
    (h : r.Reads w guard filter) : filter.holds w := by
  induction filter using r.rewrite_induction with
  | branch filter b hb hstep hmatch =>
    rw [reads_iff, hstep] at h
    exact (holds_congr_of_matches hw hmatch).mpr h.1
  | subset filter b hb hstep horiginal _ ih =>
    rw [reads_iff, hstep] at h
    rcases h with ⟨⟨hb, _⟩, hremaining⟩
    rw [horiginal, holds_all] at hb
    refine holds_of_prune hw hb ((forall_prunedChildren_iff _).mp fun c hc => ?_)
    exact ih c hc (hremaining c hc)
  | leaf a hstep =>
    rw [reads_iff, hstep] at h
    simpa using h
  | intersect children hstep ih =>
    rw [reads_iff, hstep] at h
    rw [holds_all]
    exact fun c hc => ih c hc (h c hc)
  | union children hstep ih =>
    rw [reads_iff, hstep] at h
    rw [holds_any]
    rcases h with ⟨c, hc, hreads⟩
    exact ⟨c, hc, ih c hc hreads⟩

end

/-! ## The shape of the rewritten filter -/

section

variable {r} {source target : String} {filter : QuantaFilterExpression}

theorem proper_apply (h : filter.Proper) : (r.apply filter).Proper := by
  induction filter using r.rewrite_induction with
  | branch _ _ _ hstep _ | leaf _ hstep =>
    rw [apply_eq, hstep]
    exact proper_leaf _
  | subset filter b hb hstep _ _ ih =>
    rw [apply_eq, hstep, proper_all, forall_mem_cons, forall_mem_map]
    exact ⟨by simp, proper_leaf _,
      fun c hc => ih c hc (proper_of_mem_prunedChildren h hc)⟩
  | intersect children hstep ih =>
    rw [proper_all] at h
    rw [apply_eq, hstep, proper_all, forall_mem_map]
    exact ⟨by simpa using h.1, fun c hc => ih c hc (h.2 c hc)⟩
  | union children hstep ih =>
    rw [proper_any] at h
    rw [apply_eq, hstep]
    refine proper_factorCommonUnionConjuncts ?_
    rw [proper_any, forall_mem_map]
    exact fun c hc => ih c hc (h c hc)

theorem rewriteLeaf_cases (a : FilterLeaf) :
    (∃ l ∈ r.leaves, r.rewriteLeaf a = l.leaf ∧
        ∃ f, a = .fragment f ∧ fragmentMatches f l.originalFragment = true) ∨
      r.rewriteLeaf a = a ∧ ∀ f, a = .fragment f →
        ∀ l ∈ r.leaves, fragmentMatches f l.originalFragment = false := by
  fun_cases rewriteLeaf r a with
  | case1 f l hl => exact .inl ⟨l, mem_of_find?_eq_some hl, rfl, f, rfl, by simpa using find?_some hl⟩
  | case2 f hnone =>
    refine .inr ⟨rfl, fun g hg l hl => ?_⟩
    cases hg
    simpa using find?_eq_none.mp hnone l hl
  | case3 a hne => exact .inr ⟨rfl, fun f hf => absurd hf (hne f)⟩

/-- The tables of the rewritten filter, by the step at its root. -/
theorem exists_domain_apply {domain : String} :
    (∃ a ∈ (r.apply filter).leaves, a.domain = domain) ↔ match r.rewriteStep filter with
    | .branch b => b.leaf.domain = domain
    | .subset b remaining =>
      b.leaf.domain = domain ∨ ∃ c ∈ remaining, ∃ a ∈ (r.apply c).leaves, a.domain = domain
    | .leaf a => (r.rewriteLeaf a).domain = domain
    | .intersect children | .union children =>
      ∃ c ∈ children, ∃ a ∈ (r.apply c).leaves, a.domain = domain := by
  rw [apply_eq]
  cases r.rewriteStep filter <;>
    simp [exists_domain_factorCommonUnionConjuncts, ← exists_and_right, @exists_comm FilterLeaf,
      and_assoc, or_and_right, exists_or]

/-- All translations lie in the target table. -/
structure Targets (r : RewriteResult) (target : String) : Prop where
  branches : ∀ b ∈ r.branches, b.leaf.domain = target
  leaves : ∀ l ∈ r.leaves, l.leaf.domain = target

/-- A covered filter is rewritten to one on the target table. -/
theorem domain_apply (ht : Targets r target)
    (hfilter : ∀ a ∈ filter.leaves, a.domain = source ∨ a.domain = target)
    (hcovered : r.Covered source filter) : ∀ a ∈ (r.apply filter).leaves, a.domain = target := by
  suffices h : ∀ d, (∃ a ∈ (r.apply filter).leaves, a.domain = d) → d = target from
    fun a ha => h _ ⟨a, ha, rfl⟩
  intro d
  rw [exists_domain_apply]
  rw [covered_iff] at hcovered
  induction filter using r.rewrite_induction with
  | branch filter b hb hstep _ =>
    rw [hstep]
    rintro rfl
    exact ht.branches b hb
  | subset filter b hb hstep _ _ ih =>
    rw [hstep] at hcovered ⊢
    rintro (rfl | ⟨c, hc, hd⟩)
    · exact ht.branches b hb
    · exact ih c hc (fun a ha => hfilter a (mem_leaves_of_mem_prunedChildren hc ha))
        (covered_iff.mp (hcovered c hc)) (exists_domain_apply.mp hd)
  | leaf a hstep =>
    rw [hstep] at hcovered ⊢
    rintro rfl
    rcases rewriteLeaf_cases a with ⟨l, hl, heq, _⟩ | ⟨heq, hnone⟩ <;> rw [heq]
    · exact ht.leaves l hl
    · rcases hcovered with hne | ⟨f, rfl, l, hl, hmatch⟩
      · exact (hfilter a (by simp)).resolve_left hne
      · cases hmatch.symm.trans (hnone f rfl l hl)
  | intersect children hstep ih | union children hstep ih =>
    simp only [hstep, mem_leaves_all, mem_leaves_any] at hcovered hfilter ⊢
    rintro ⟨c, hc, hd⟩
    exact ih c hc (fun a ha => hfilter a ⟨c, hc, ha⟩) (covered_iff.mp (hcovered c hc))
      (exists_domain_apply.mp hd)

/-- A filter that is rewritten without leaves of the source table is covered. -/
theorem covered_of_domain_apply (h : ∀ a ∈ (r.apply filter).leaves, a.domain ≠ source) :
    r.Covered source filter := by
  replace h : ¬ ∃ a ∈ (r.apply filter).leaves, a.domain = source := by simpa using h
  induction filter using r.rewrite_induction with
  | branch filter b hb hstep _ => exact .branch hstep
  | subset filter b hb hstep _ _ ih =>
    rw [exists_domain_apply, hstep, not_or] at h
    exact .subset hstep fun c hc => ih c hc fun hd => h.2 ⟨c, hc, hd⟩
  | leaf a hstep =>
    rw [exists_domain_apply, hstep] at h
    refine .leaf hstep ?_
    rcases rewriteLeaf_cases a with ⟨l, hl, _, f, rfl, hmatch⟩ | ⟨heq, _⟩
    · exact .inr ⟨f, rfl, l, hl, hmatch⟩
    · exact .inl (heq ▸ h)
  | intersect children hstep ih =>
    rw [exists_domain_apply, hstep] at h
    exact .intersect hstep fun c hc => ih c hc fun hd => h ⟨c, hc, hd⟩
  | union children hstep ih =>
    rw [exists_domain_apply, hstep] at h
    exact .union hstep fun c hc => ih c hc fun hd => h ⟨c, hc, hd⟩

theorem exists_target_apply (ht : Targets r target) (h : ∃ a ∈ filter.leaves, a.domain = target) :
    ∃ a ∈ (r.apply filter).leaves, a.domain = target := by
  rw [exists_domain_apply]
  induction filter using r.rewrite_induction with
  | branch filter b hb hstep _ =>
    rw [hstep]
    exact ht.branches b hb
  | subset filter b hb hstep _ _ _ =>
    rw [hstep]
    exact .inl (ht.branches b hb)
  | leaf a hstep =>
    rw [hstep]
    rcases rewriteLeaf_cases (r := r) a with ⟨l, hl, heq, _⟩ | ⟨heq, _⟩
    · simpa [heq] using ht.leaves l hl
    · simpa [heq] using h
  | intersect children hstep ih | union children hstep ih =>
    simp only [mem_leaves_all, mem_leaves_any] at h
    rcases h with ⟨a, ⟨c, hc, ha⟩, hdomain⟩
    rw [hstep]
    exact ⟨c, hc, exists_domain_apply.mpr (ih c hc ⟨a, ha, hdomain⟩)⟩

end

end RewriteResult

end QuantaStream.Bridge
