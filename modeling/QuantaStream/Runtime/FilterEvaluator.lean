import QuantaStream.Bridge.FilterRewrite

/-!
# Evaluating grouped filters

This module models `QuantaFilterTreeEvaluator` of `qsruntime/filter_evaluator.go`.  A
union is evaluated from left to right.  An intersection is flattened and starts with its candidate
sets; it stops as soon as no row is left, and evaluates fragments within the rows found so far
where the evaluator of the leaves can do so.

The source evaluates a child when its turn comes; the model pairs each child with its rows.
-/

namespace QuantaStream.Runtime

open Bridge List BoolTree

/-- `QuantaFilterLeafEvaluator`, with the optional evaluation within a candidate set. -/
structure LeafEvaluator where
  evaluateFilterLeaf : QuantaQueryFragment → Finset ℕ
  withinCandidateSet : Option (QuantaQueryFragment → Finset ℕ → Finset ℕ)
  mem_within : ∀ within, withinCandidateSet = some within → ∀ f candidates row,
    row ∈ candidates → (row ∈ within f candidates ↔ row ∈ evaluateFilterLeaf f)

mutual

/-- `quantaFilterExpressionContainsCandidateSetLeaf`. -/
def containsCandidateSetLeaf : QuantaFilterExpression → Bool
  | .leaf (.fragment _) => false
  | .leaf (.candidateSet _) => true
  | .all children => childrenContainCandidateSetLeaf children
  | .any children => childrenContainCandidateSetLeaf children

def childrenContainCandidateSetLeaf : List QuantaFilterExpression → Bool
  | [] => false
  | child :: children =>
    containsCandidateSetLeaf child || childrenContainCandidateSetLeaf children

end

/-- `CandidateSetLeaf`. -/
def isCandidateSetLeaf : QuantaFilterExpression → Bool
  | .leaf (.candidateSet _) => true
  | _ => false

abbrev Evaluated := QuantaFilterExpression × Finset ℕ

/-- `quantaFilterIntersectEvaluationOrder`: candidate sets first, then filters that contain one,
then the others; the children as they are if there is no candidate set. -/
def intersectEvaluationOrder (children flattened : List Evaluated) : List Evaluated :=
  if children.length < 2 then children
  else
    let first := flattened.filter (fun c => isCandidateSetLeaf c.1) ++
      flattened.filter (fun c => !isCandidateSetLeaf c.1 && containsCandidateSetLeaf c.1)
    if first.isEmpty then children
    else first ++
      flattened.filter (fun c => !isCandidateSetLeaf c.1 && !containsCandidateSetLeaf c.1)

section

variable (e : LeafEvaluator)

def evaluateFilterIntersectChild (child : Evaluated) (current : Finset ℕ) : Finset ℕ :=
  match child.1, e.withinCandidateSet with
  | .leaf (.fragment f), some within => within f current
  | _, _ => child.2

/-- The loop of `evaluateFilterIntersectChildren`. -/
def intersectLoop : Finset ℕ → List Evaluated → Finset ℕ
  | current, [] => current
  | current, child :: rest =>
    if current = ∅ then current
    else intersectLoop (current ∩ evaluateFilterIntersectChild e child current) rest

def evaluateFilterIntersectChildren (children flattened : List Evaluated) : Finset ℕ :=
  match intersectEvaluationOrder children flattened with
  | [] => ∅
  | child :: rest => intersectLoop e child.2 rest

/-- `evaluateFilterChildren` with the union of candidate sets. -/
def unionChildren (children : List Evaluated) : Finset ℕ :=
  children.foldl (fun current child => current ∪ child.2) ∅

mutual

def evaluateFilter : QuantaFilterExpression → Finset ℕ
  | .leaf (.fragment f) => e.evaluateFilterLeaf f
  | .leaf (.candidateSet c) => c.rownums
  | .all children =>
    evaluateFilterIntersectChildren e (evaluatedChildren children) (evaluatedFlattened children)
  | .any children => unionChildren (evaluatedChildren children)

def evaluatedChildren : List QuantaFilterExpression → List Evaluated
  | [] => []
  | child :: children => (child, evaluateFilter child) :: evaluatedChildren children

/-- The children of an intersection, with nested intersections flattened
(`quantaFilterFlattenIntersectChildren`), with their rows. -/
def evaluatedFlattened : List QuantaFilterExpression → List Evaluated
  | [] => []
  | .all nested :: children => evaluatedFlattened nested ++ evaluatedFlattened children
  | .leaf a :: children => (.leaf a, evaluateFilter (.leaf a)) :: evaluatedFlattened children
  | .any nested :: children =>
    (.any nested, evaluateFilter (.any nested)) :: evaluatedFlattened children

end

/-- The truth of a leaf on a row of its table. -/
def LeafEvaluator.selects (row : ℕ) : FilterLeaf → Prop
  | .fragment f => row ∈ e.evaluateFilterLeaf f
  | .candidateSet c => row ∈ c.rownums

/-! ## The rows of a filter -/

variable (children : List QuantaFilterExpression)

theorem evaluatedChildren_eq :
    evaluatedChildren e children = children.map fun c => (c, evaluateFilter e c) := by
  induction children with
  | nil => rfl
  | cons child children ih => rw [evaluatedChildren, ih, map_cons]

theorem evaluatedFlattened_eq :
    evaluatedFlattened e children =
      (conjunctsChildren children).map fun c => (c, evaluateFilter e c) := by
  have hflat : ∀ filter : QuantaFilterExpression, ∀ children,
      evaluatedFlattened e (filter :: children) =
        filter.conjuncts.map (fun c => (c, evaluateFilter e c)) ++
          evaluatedFlattened e children := by
    intro filter
    induction filter using induction with
    | leaf a | any nested => simp [evaluatedFlattened, conjuncts]
    | all nested ih =>
      intro children
      rw [evaluatedFlattened, conjuncts]
      congr 1
      induction nested with
      | nil => rfl
      | cons c cs ihc =>
        rw [ih c mem_cons_self, ihc fun d hd => ih d (mem_cons_of_mem _ hd),
          conjunctsChildren, map_append]
  induction children with
  | nil => rfl
  | cons child children ih => rw [hflat, ih, conjunctsChildren, map_append]

variable (children flattened : List Evaluated)

/-- The evaluation order rearranges the children or their conjuncts. -/
theorem mem_intersectEvaluationOrder :
    (∀ c, c ∈ intersectEvaluationOrder children flattened ↔ c ∈ children) ∨
      (∀ c, c ∈ intersectEvaluationOrder children flattened ↔ c ∈ flattened) := by
  unfold intersectEvaluationOrder
  dsimp only
  split_ifs
  · exact .inl fun c => Iff.rfl
  · exact .inl fun c => Iff.rfl
  · refine .inr fun c => ?_
    simp only [mem_append, mem_filter, Bool.and_eq_true, Bool.not_eq_true']
    cases isCandidateSetLeaf c.1 <;> cases containsCandidateSetLeaf c.1 <;> simp

variable {e}

/-- The rows of a fragment are those of its evaluation. -/
def Faithful (e : LeafEvaluator) (child : Evaluated) : Prop :=
  ∀ f, child.1 = .leaf (.fragment f) → child.2 = e.evaluateFilterLeaf f

theorem mem_intersectLoop {rest : List Evaluated} (h : ∀ c ∈ rest, Faithful e c)
    (current : Finset ℕ) (row : ℕ) :
    row ∈ intersectLoop e current rest ↔ row ∈ current ∧ ∀ c ∈ rest, row ∈ c.2 := by
  induction rest generalizing current with
  | nil => simp [intersectLoop]
  | cons child rest ih =>
    rw [intersectLoop]
    split_ifs with hempty
    · simp [hempty]
    rw [ih fun c hc => h c (mem_cons_of_mem _ hc), Finset.mem_inter,
      forall_mem_cons, and_assoc]
    refine and_congr_right fun hrow => and_congr_left fun _ => ?_
    unfold evaluateFilterIntersectChild
    split
    · rename_i f within hf hwithin
      rw [e.mem_within within hwithin f current row hrow, h child mem_cons_self f hf]
    · rfl

theorem mem_unionChildren (children : List Evaluated) (row : ℕ) :
    row ∈ unionChildren children ↔ ∃ c ∈ children, row ∈ c.2 := by
  have hfold : ∀ current : Finset ℕ,
      row ∈ children.foldl (fun current child => current ∪ child.2) current ↔
        row ∈ current ∨ ∃ c ∈ children, row ∈ c.2 := by
    induction children with
    | nil => simp
    | cons child children ih =>
      intro current
      rw [foldl_cons, ih, Finset.mem_union]
      simp [or_assoc]
  rw [unionChildren, hfold]
  simp

theorem mem_evaluateFilterIntersectChildren (hchildren : ∀ c ∈ children, Faithful e c)
    (hflattened : ∀ c ∈ flattened, Faithful e c) (hne : children ≠ []) (hne' : flattened ≠ [])
    (row : ℕ) :
    (row ∈ evaluateFilterIntersectChildren e children flattened ↔ ∀ c ∈ children, row ∈ c.2) ∨
      (row ∈ evaluateFilterIntersectChildren e children flattened ↔
        ∀ c ∈ flattened, row ∈ c.2) := by
  have horder : ∀ {source : List Evaluated}, source ≠ [] → (∀ c ∈ source, Faithful e c) →
      (∀ c, c ∈ intersectEvaluationOrder children flattened ↔ c ∈ source) →
      (row ∈ evaluateFilterIntersectChildren e children flattened ↔
        ∀ c ∈ source, row ∈ c.2) := by
    intro source hsource hfaithful hmem
    rcases exists_mem_of_ne_nil source hsource with ⟨c, hc⟩
    simp only [← hmem] at hc hfaithful ⊢
    unfold evaluateFilterIntersectChildren
    cases hordered : intersectEvaluationOrder children flattened with
    | nil => simp [hordered] at hc
    | cons child rest =>
      rw [hordered] at hfaithful
      rw [forall_mem_cons]
      exact mem_intersectLoop (fun c hc => hfaithful c (mem_cons_of_mem _ hc)) _ row
  rcases mem_intersectEvaluationOrder children flattened with hmem | hmem
  · exact .inl (horder hne hchildren hmem)
  · exact .inr (horder hne' hflattened hmem)

theorem faithful_pair (c : QuantaFilterExpression) : Faithful e (c, evaluateFilter e c) := by
  intro f hf
  have hc : c = .leaf (.fragment f) := hf
  rw [hc, evaluateFilter]

/-- The rows of a filter are those it holds on. -/
theorem mem_evaluateFilter {filter : QuantaFilterExpression} (hfilter : filter.Proper) (row : ℕ) :
    row ∈ evaluateFilter e filter ↔ filter.holds (e.selects row) := by
  -- An intersection may be evaluated through its conjuncts, which lie deeper than its children.
  suffices h : ∀ filter : QuantaFilterExpression, filter.Proper →
      (row ∈ evaluateFilter e filter ↔ filter.holds (e.selects row)) ∧
        ∀ c ∈ filter.conjuncts, (row ∈ evaluateFilter e c ↔ c.holds (e.selects row)) by
    exact (h filter hfilter).1
  intro filter hfilter
  induction filter using induction with
  | leaf a =>
    refine ⟨?leafRow, fun c hc => mem_singleton.mp hc ▸ ?leafRow⟩
    cases a <;> simp [evaluateFilter, LeafEvaluator.selects]
  | any children ih =>
    rw [proper_any] at hfilter
    refine ⟨?anyRow, fun c hc => mem_singleton.mp hc ▸ ?anyRow⟩
    rw [evaluateFilter, mem_unionChildren, evaluatedChildren_eq, holds_any]
    simp only [mem_map, exists_exists_and_eq_and]
    exact exists_congr fun c => and_congr_right fun hc => (ih c hc (hfilter c hc)).1
  | all children ih =>
    have hchildren := proper_all.mp hfilter
    have hconjuncts : ∀ c ∈ conjunctsChildren children,
        (row ∈ evaluateFilter e c ↔ c.holds (e.selects row)) := by
      intro c hc
      rcases mem_conjunctsChildren.mp hc with ⟨d, hd, hc⟩
      exact (ih d hd (hchildren.2 d hd)).2 c hc
    refine ⟨?_, hconjuncts⟩
    rw [evaluateFilter]
    have hne := conjuncts_ne_nil hfilter
    rw [conjuncts] at hne
    rcases mem_evaluateFilterIntersectChildren (e := e) (evaluatedChildren e children)
      (evaluatedFlattened e children) (by simp [evaluatedChildren_eq, faithful_pair])
      (by simp [evaluatedFlattened_eq, faithful_pair])
      (by simpa [evaluatedChildren_eq] using hchildren.1)
      (by simpa [evaluatedFlattened_eq] using hne) row with h | h
    · rw [h, evaluatedChildren_eq, forall_mem_map, holds_all]
      exact forall₂_congr fun c hc => (ih c hc (hchildren.2 c hc)).1
    · rw [h, evaluatedFlattened_eq, forall_mem_map,
        ← forall_conjuncts_iff (all children), conjuncts]
      exact forall₂_congr hconjuncts

end

end QuantaStream.Runtime
