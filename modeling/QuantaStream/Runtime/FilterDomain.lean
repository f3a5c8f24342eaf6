import Mathlib.Data.Finset.Option
import QuantaStream.Lib.Bsi
import QuantaStream.Lib.GoMap
import QuantaStream.Runtime.FilterEvaluator

/-!
# Filters over a table and its parent

A grouped filter may have leaves on two tables, a child table and the parent its foreign key points
to.  The rownums of the two tables cannot be combined, so the leaves of the parent are translated
to rownums of the child first.  This module models `qsruntime/filter_domain_normalization.go`,
the read of the children of a set of parents in
`qsruntime/legacy_direct_relationship_vector_backend.go`, and the adapter of
`qsruntime/direct_bitmap_filter_adapter.go` that runs them.

A subtree on the parent is translated as a whole.  The translation is narrowed by the target
conditions of the first intersection that contains the subtree, and used wherever the subtree is
found.  Names lose the prefix `filterDomain` of the source.
-/

namespace QuantaStream.Runtime

open Bridge Shared

/-! ## Subtrees on one table -/

def expressionMatchesRuntime (left right : QuantaFilterExpression) : Bool :=
  left.matchesBy (fun a b => a = b) right

mutual

def expressionOnlySource (source : String) : QuantaFilterExpression → Bool
  | .leaf a => a.domain = source
  | .all children => !children.isEmpty && childrenOnlySource source children
  | .any children => !children.isEmpty && childrenOnlySource source children

def childrenOnlySource (source : String) : List QuantaFilterExpression → Bool
  | [] => true
  | child :: children => expressionOnlySource source child && childrenOnlySource source children

end

mutual

/-- `filterDomainExpressionLeafCount`: candidate sets do not count. -/
def expressionLeafCount : QuantaFilterExpression → ℕ
  | .leaf (.fragment _) => 1
  | .leaf (.candidateSet _) => 0
  | .all children => expressionSliceLeafCount children
  | .any children => expressionSliceLeafCount children

def expressionSliceLeafCount : List QuantaFilterExpression → ℕ
  | [] => 0
  | child :: children => expressionLeafCount child + expressionSliceLeafCount children

end

mutual

def conjunctiveSourceExpressions (source : String) :
    QuantaFilterExpression → List QuantaFilterExpression
  | .leaf a => if expressionOnlySource source (.leaf a) then [.leaf a] else []
  | .any children => if expressionOnlySource source (.any children) then [.any children] else []
  | .all children =>
    if expressionOnlySource source (.all children) then [.all children]
    else childrenSourceExpressions source children

/-- The source subtrees among the conjuncts of a list of filters. -/
def childrenSourceExpressions (source : String) :
    List QuantaFilterExpression → List QuantaFilterExpression
  | [] => []
  | child :: children =>
    conjunctiveSourceExpressions source child ++ childrenSourceExpressions source children

end

def intersectSourceBranch (source : String) : QuantaFilterExpression → Option QuantaFilterExpression
  | .all children =>
    let sourceChildren := conjunctiveSourceExpressions source (.all children)
    if expressionSliceLeafCount sourceChildren ≤ 1 then none
    else conjunctExpression sourceChildren
  | _ => none

mutual

/-- `filterDomainBranchesForSource`: the subtrees that are translated as a whole. -/
def branchesForSource (source : String) : QuantaFilterExpression → List QuantaFilterExpression
  | .leaf _ => []
  | .any children =>
    if expressionOnlySource source (.any children) && 1 < expressionLeafCount (.any children) then
      [.any children]
    else childrenBranchesForSource source children
  | .all children =>
    if expressionOnlySource source (.all children) && 1 < expressionLeafCount (.all children) then
      [.all children]
    else
      match intersectSourceBranch source (.all children) with
      | some branch => [branch]
      | none => childrenBranchesForSource source children

/-- The subtrees of a list of filters that are translated as a whole. -/
def childrenBranchesForSource (source : String) :
    List QuantaFilterExpression → List QuantaFilterExpression
  | [] => []
  | child :: children =>
    branchesForSource source child ++ childrenBranchesForSource source children

end

/-! ## Fragments outside the subtrees -/

mutual

def expressionContainsRuntime (candidate : QuantaFilterExpression) : QuantaFilterExpression → Bool
  | .leaf a => expressionMatchesRuntime (.leaf a) candidate
  | .all children =>
    expressionMatchesRuntime (.all children) candidate ||
      childrenContainRuntime candidate children
  | .any children =>
    expressionMatchesRuntime (.any children) candidate ||
      childrenContainRuntime candidate children

def childrenContainRuntime (candidate : QuantaFilterExpression) : List QuantaFilterExpression → Bool
  | [] => false
  | child :: children =>
    expressionContainsRuntime candidate child || childrenContainRuntime candidate children

end

/-- A filter that equals or lies within one of the subtrees. -/
def excluded (branches : List QuantaFilterExpression) (filter : QuantaFilterExpression) : Bool :=
  branches.any fun branch =>
    expressionMatchesRuntime filter branch || expressionContainsRuntime filter branch

mutual

/-- `filterDomainFragmentsForSourceExcludingBranches`: the fragments that are translated one by
one. -/
def fragmentsForSourceExcludingBranches (source : String)
    (branches : List QuantaFilterExpression) : QuantaFilterExpression → List QuantaQueryFragment
  | .leaf (.fragment f) =>
    if excluded branches (.leaf (.fragment f)) then []
    else if f.index = source then [f] else []
  | .leaf (.candidateSet _) => []
  | .all children =>
    if excluded branches (.all children) then []
    else childrenFragmentsForSource source branches children
  | .any children =>
    if excluded branches (.any children) then []
    else childrenFragmentsForSource source branches children

/-- The fragments of a list of filters that are translated one by one. -/
def childrenFragmentsForSource (source : String) (branches : List QuantaFilterExpression) :
    List QuantaFilterExpression → List QuantaQueryFragment
  | [] => []
  | child :: children =>
    fragmentsForSourceExcludingBranches source branches child ++
      childrenFragmentsForSource source branches children

end

/-! ## The target conditions of a subtree -/

mutual

/-- `filterDomainContainingConjunctiveBranch`: the first intersection that contains all the
conjuncts. -/
def containingConjunctiveBranch (conjuncts : List QuantaFilterExpression) :
    QuantaFilterExpression → Option QuantaFilterExpression
  | .leaf _ => none
  | .any children => childrenContainingConjunctiveBranch conjuncts children
  | .all children =>
    if conjunctiveTreeContainsAll expressionMatchesRuntime (.all children) conjuncts then
      some (.all children)
    else childrenContainingConjunctiveBranch conjuncts children

/-- The first such intersection in a list of filters. -/
def childrenContainingConjunctiveBranch (conjuncts : List QuantaFilterExpression) :
    List QuantaFilterExpression → Option QuantaFilterExpression
  | [] => none
  | child :: children =>
    (containingConjunctiveBranch conjuncts child).orElse
      fun _ => childrenContainingConjunctiveBranch conjuncts children

end

mutual

/-- `filterDomainConjunctiveTargetExpressions`: the leaves on the target table among the
conjuncts. -/
def conjunctiveTargetExpressions (target : String) :
    QuantaFilterExpression → List QuantaFilterExpression
  | .leaf a => if a.domain = target then [.leaf a] else []
  | .any _ => []
  | .all children => childrenTargetExpressions target children

/-- The leaves on the target table among the conjuncts of a list of filters. -/
def childrenTargetExpressions (target : String) :
    List QuantaFilterExpression → List QuantaFilterExpression
  | [] => []
  | child :: children =>
    conjunctiveTargetExpressions target child ++ childrenTargetExpressions target children

end

def targetFilterForSourceBranch (root sourceBranch : QuantaFilterExpression) (target : String) :
    Option QuantaFilterExpression :=
  if target = "" || (conjunctsForFactoring sourceBranch).isEmpty then none
  else
    match containingConjunctiveBranch (conjunctsForFactoring sourceBranch) root with
    | some container => conjunctExpression (conjunctiveTargetExpressions target container)
    | none => none

mutual

/-- `legacyDirectRelationshipVectorTargetFilterFragmentsFromExpression`: the fragments of a
conjunction on the target table. -/
def targetFilterFragmentsFromExpression (target : String) :
    QuantaFilterExpression → Option (List QuantaQueryFragment)
  | .leaf (.fragment f) => if f.index = target then some [f] else none
  | .leaf (.candidateSet _) => none
  | .any _ => none
  | .all children => childrenTargetFilterFragments target children

/-- The fragments of a list of conjunctions. -/
def childrenTargetFilterFragments (target : String) :
    List QuantaFilterExpression → Option (List QuantaQueryFragment)
  | [] => some []
  | child :: children =>
    match targetFilterFragmentsFromExpression target child,
      childrenTargetFilterFragments target children with
    | some fs, some gs => some (fs ++ gs)
    | _, _ => none

end

def targetFilterFragments (target : String) :
    Option QuantaFilterExpression → List QuantaQueryFragment
  | none => []
  | some filter => (targetFilterFragmentsFromExpression target filter).getD []

/-! ## Parents and children -/

/-- The fragment of the read of all children whose foreign key is one of the values. -/
def batchEqualFragment (index field : String) (values : List ℤ) : QuantaQueryFragment where
  index := index
  role := ""
  field := field
  operation := .intersect
  bsiOp := .batchEq
  values := values

/-- The parent table and the child table of a foreign key, with what the executor reads: the rows
of a fragment, the key of a parent row (its rownum or a projected field), the foreign keys of the
child rows, and the rows of a bitmap query on the child table.  A query of admissible fragments is
the conjunction of its fragments. -/
structure ForeignKeyTables where
  source : String
  target : String
  vectorField : String
  Admissible : QuantaQueryFragment → Prop
  source_ne : source ≠ ""
  target_ne : target ≠ ""
  source_ne_target : source ≠ target
  leaves : LeafEvaluator
  leaves_congr : ∀ f g, fragmentMatches f g = true →
    leaves.evaluateFilterLeaf f = leaves.evaluateFilterLeaf g
  sourceKey : ℕ → Option ℤ
  sourceKey_inj : ∀ p q v, sourceKey p = some v → sourceKey q = some v → p = q
  foreignKey : Bsi
  queryBitmap : List QuantaQueryFragment → Finset ℕ
  mem_queryBitmap : ∀ fs values row, values ≠ [] →
    (∀ f ∈ fs, f.index = target ∧ Admissible f) →
    (row ∈ queryBitmap (fs ++ [batchEqualFragment target vectorField values]) ↔
      (∃ v ∈ values, foreignKey.get? row = some v) ∧
        ∀ f ∈ fs, row ∈ leaves.evaluateFilterLeaf f)

/-- How the backend reads children: it needs sessions for a direct query, and makes one unless
another projection reader is configured and preferred. -/
structure VectorBackend where
  hasSessions : Bool
  hasProjectionReader : Bool
  preferDirectParentToChildCandidate : Bool

def maxDynamicBatchEQValues : ℕ := 4096

namespace VectorBackend

/-- `shouldReadRelationshipVectorParentToChildCandidatesDirect`. -/
def shouldReadDirect (backend : VectorBackend) (sourceValues : List ℤ) : Bool :=
  backend.hasSessions && decide (sourceValues.length ≤ maxDynamicBatchEQValues) &&
    (!backend.hasProjectionReader || backend.preferDirectParentToChildCandidate)

end VectorBackend

namespace ForeignKeyTables

variable (d : ForeignKeyTables)

def IsParent (parent row : ℕ) : Prop :=
  ∃ v, d.sourceKey parent = some v ∧ d.foreignKey.get? row = some v

/-- `relationshipVectorSourceValues`: the keys of the source rows, sorted and without
duplicates. -/
def sourceValues (rows : Finset ℕ) : List ℤ :=
  (rows.image d.sourceKey).eraseNone.sort (· ≤ ·)

/-- `readRelationshipVectorParentToChildCandidatesDirect`. -/
def readDirect (targetFilter : Option QuantaFilterExpression) (values : List ℤ) : Finset ℕ :=
  if values = [] then ∅
  else d.queryBitmap (targetFilterFragments d.target targetFilter ++
    [batchEqualFragment d.target d.vectorField values])

/-- `legacyDirectRelationshipVectorParentToChildCandidateResult`. -/
def readProjected (values : List ℤ) : Finset ℕ :=
  d.foreignKey.existence.filter fun row => ∃ v ∈ values, d.foreignKey.get? row = some v

variable (backend : VectorBackend)

/-- `ReadRelationshipVectorCandidateResult`: the children of the source rows. -/
def readCandidates (targetFilter : Option QuantaFilterExpression) (rows : Finset ℕ) :
    QuantaCandidateSet where
  index := d.target
  rownums :=
    if backend.shouldReadDirect (d.sourceValues rows) then
      d.readDirect targetFilter (d.sourceValues rows)
    else d.readProjected (d.sourceValues rows)

def normalizeFilterExpression (root filter : QuantaFilterExpression) : NormalizedBranch where
  originalFilter := filter
  targetDomain := d.target
  candidateSet := d.readCandidates backend (targetFilterForSourceBranch root filter d.target)
    (evaluateFilter d.leaves filter)

def normalizeFilterLeaf (f : QuantaQueryFragment) : NormalizedLeaf where
  originalFragment := f
  targetDomain := d.target
  candidateSet := d.readCandidates backend none (d.leaves.evaluateFilterLeaf f)

def normalizeFilterDomains (filter : QuantaFilterExpression) : RewriteResult :=
  let branches := branchesForSource d.source filter
  { branches := branches.map (d.normalizeFilterExpression backend filter)
    leaves := (fragmentsForSourceExcludingBranches d.source branches filter).map
      (d.normalizeFilterLeaf backend) }

end ForeignKeyTables

/-- `DomainSummary`: the tables of the leaves, sorted. -/
def domainSummary (filter : QuantaFilterExpression) : List String :=
  sortStrings ((filter.leaves.map FilterLeaf.domain).toFinset.erase "")

def mixed (domains : List String) : Bool := 1 < domains.length

/-- `filterDomainIncompleteRewriteDiagnosticMessage` of a rewritten filter that still needs a
translation. -/
def incompleteRewriteDiagnosticMessage (domains : List String) (target : String) : Diagnostic :=
  "filter-domain normalization incomplete after rewrite: remaining_sources=" ++
    ",".intercalate (domains.filter (fun domain => domain ≠ "" && domain ≠ target)) ++
    (if target = "" then "" else " target=" ++ target) ++
    " strategies=relationship_vector_normalization"

/-- `AdaptFilterExpression`: translate a filter on both tables and evaluate it.  The root index of
the request only labels the diagnostic. -/
def adaptFilterExpression (d : ForeignKeyTables) (backend : VectorBackend) (rootIndex : String)
    (filter : QuantaFilterExpression) : Except Diagnostic (Finset ℕ) :=
  if mixed (domainSummary filter) then
    let rewritten := (d.normalizeFilterDomains backend filter).apply filter
    if mixed (domainSummary rewritten) then
      .error (incompleteRewriteDiagnosticMessage (domainSummary rewritten) rootIndex)
    else .ok (evaluateFilter d.leaves rewritten)
  else .ok (evaluateFilter d.leaves filter)

end QuantaStream.Runtime
