import QuantaStream.Runtime.FilterEvaluator

/-!
# Grouped filters on lists of rows

The evaluator keeps rows in slices, which have an order and may repeat a row.  This module models
the merges of `qsruntime/filter_evaluator.go` on such lists and evaluates filters with them; a
filter has the rows that the evaluation with sets gives it.
-/

namespace QuantaStream.Runtime

open Bridge List BoolTree

/-- `QuantaCandidateSet` with its slice of rows. -/
structure RowList where
  index : String := ""
  rownums : List ℕ := []

namespace RowList

variable (left right : RowList)

/-- `quantaFilterIntersectCandidateSets`: a short left side is marked at the positions of the rows
on the right. -/
def intersect : RowList where
  index := if left.index = "" then right.index else left.index
  rownums :=
    if left.rownums.length ≤ right.rownums.length then
      (left.rownums.zipIdx.filter fun p =>
        right.rownums.any fun row => left.rownums[p.2]? = some row).map Prod.fst
    else left.rownums.filter (· ∈ right.rownums)

/-- `quantaFilterUnionCandidateSets`. -/
def union : RowList where
  index := if left.index = "" then right.index else left.index
  rownums := right.rownums.foldl (fun rows row => if row ∈ rows then rows else rows ++ [row])
    left.rownums

theorem rownums_intersect :
    (left.intersect right).rownums = left.rownums.filter (· ∈ right.rownums) := by
  have hmarked : ∀ p ∈ left.rownums.zipIdx,
      (right.rownums.any fun row => left.rownums[p.2]? = some row) =
        decide (p.1 ∈ right.rownums) := by
    intro p hp
    rw [mem_zipIdx_iff_getElem?.mp hp]
    simp [any_eq, eq_comm]
  dsimp only [intersect]
  split_ifs
  · rw [filter_congr hmarked]
    conv_rhs => rw [← zipIdx_map_fst 0 left.rownums, filter_map]
    rfl
  · rfl

theorem union_spec :
    (∀ row, row ∈ (left.union right).rownums ↔ row ∈ left.rownums ∨ row ∈ right.rownums) ∧
      (left.rownums.Nodup → (left.union right).rownums.Nodup) := by
  dsimp only [union]
  generalize left.rownums = rows
  induction right.rownums generalizing rows with
  | nil => simp
  | cons row more ih =>
    rw [foldl_cons]
    split_ifs with hmem
    · refine ⟨fun row' => ?_, (ih rows).2⟩
      rw [(ih rows).1, mem_cons]
      constructor
      · exact Or.imp_right .inr
      · rintro (h | rfl | h)
        · exact .inl h
        · exact .inl hmem
        · exact .inr h
    · refine ⟨fun row' => ?_, fun h => (ih _).2 ?_⟩
      · rw [(ih _).1, mem_append, mem_singleton, mem_cons, or_assoc]
      · exact h.append (nodup_singleton row) (by simpa using hmem)

end RowList

/-- The rows of the leaves: what the evaluator returns for a fragment, and the slice of a candidate
set.  A fragment may be evaluated within rows that are already found. -/
structure RowLeaves where
  evaluateFilterLeaf : FilterLeaf → RowList
  withinCandidateSet : Option (QuantaQueryFragment → RowList → RowList)

variable (children : List QuantaFilterExpression)

/-- `quantaFilterIntersectEvaluationOrder`, which does not look at rows. -/
def evaluationOrder : List QuantaFilterExpression :=
  (intersectEvaluationOrder (children.map (·, ∅)) ((conjunctsChildren children).map (·, ∅))).map
    Prod.fst

theorem size_le_of_mem_conjuncts {filter c : QuantaFilterExpression} (h : c ∈ filter.conjuncts) :
    c.size ≤ filter.size := by
  induction filter using induction with
  | leaf a | any children => rw [mem_singleton.mp h]
  | all children ih =>
    rcases mem_conjunctsChildren.mp h with ⟨d, hd, hc⟩
    exact (ih d hd hc).trans (size_lt_all hd).le

/-- What is evaluated for an intersection are its children or its conjuncts. -/
theorem evaluationOrder_spec :
    (∀ c ∈ evaluationOrder children, c.size < (BoolTree.all children).size ∧
      ∀ a ∈ c.leaves, a ∈ (BoolTree.all children).leaves) ∧
    ((BoolTree.all children).Proper → (∃ c, c ∈ evaluationOrder children) ∧
      ∀ c ∈ evaluationOrder children, c.Proper) ∧
    ∀ v, (∀ c ∈ evaluationOrder children, c.holds v) ↔ (BoolTree.all children).holds v := by
  have hcases : (∀ c, c ∈ evaluationOrder children ↔ c ∈ children) ∨
      ∀ c, c ∈ evaluationOrder children ↔ c ∈ (BoolTree.all children).conjuncts := by
    refine (mem_intersectEvaluationOrder (children.map (·, ∅))
      ((conjunctsChildren children).map (·, ∅))).imp (fun h c => ?_) (fun h c => ?_)
    · simp [evaluationOrder, h]
    · simp [evaluationOrder, h, conjuncts]
  rcases hcases with h | h
  · simp only [h]
    refine ⟨fun c hc => ⟨size_lt_all hc, fun a ha => mem_leaves_all.mpr ⟨c, hc, ha⟩⟩, fun hp => ?_,
      fun v => (holds_all children).symm⟩
    exact ⟨exists_mem_of_ne_nil _ (proper_all.mp hp).1, (proper_all.mp hp).2⟩
  · simp only [h]
    refine ⟨fun c hc => ⟨?_, fun a ha => mem_leaves_iff_conjuncts.mpr ⟨c, hc, ha⟩⟩, fun hp => ?_,
      fun v => forall_conjuncts_iff _⟩
    · rcases mem_conjunctsChildren.mp hc with ⟨d, hd, hc⟩
      exact (size_le_of_mem_conjuncts hc).trans_lt (size_lt_all hd)
    · exact ⟨exists_mem_of_ne_nil _ (conjuncts_ne_nil hp), fun c => proper_of_mem_conjuncts hp⟩

section

variable (e : RowLeaves)

/-- `evaluateFilterIntersectChild`; the rows found so far are not empty. -/
def intersectChildRows (child : QuantaFilterExpression × RowList) (current : RowList) : RowList :=
  match child.1, e.withinCandidateSet with
  | .leaf (.fragment f), some within => within f current
  | _, _ => child.2

/-- The loop of `evaluateFilterIntersectChildren`. -/
def intersectRows : RowList → List (QuantaFilterExpression × RowList) → RowList
  | current, [] => current
  | current, child :: rest =>
    if current.rownums = [] then current
    else intersectRows (current.intersect (intersectChildRows e child current)) rest

/-- `EvaluateFilter`. -/
def evaluateRows : QuantaFilterExpression → RowList
  | .leaf a => e.evaluateFilterLeaf a
  | .all children =>
    match (evaluationOrder children).attach.map fun c => (c.1, evaluateRows c.1) with
    | [] => {}
    | child :: rest => intersectRows e child.2 rest
  | .any children =>
    match children.attach.map fun c => evaluateRows c.1 with
    | [] => {}
    | first :: rest => rest.foldl RowList.union first
termination_by filter => filter.size
decreasing_by
  · exact ((evaluationOrder_spec children).1 c.1 c.2).1
  · exact size_lt_any c.2

/-- The evaluation within rows agrees with the evaluation on these rows. -/
def RowLeaves.Agrees : Prop :=
  ∀ within, e.withinCandidateSet = some within → ∀ f current row, row ∈ current.rownums →
    (row ∈ (within f current).rownums ↔ row ∈ (e.evaluateFilterLeaf (.fragment f)).rownums)

variable {e}

theorem intersectRows_spec (h : e.Agrees) (current : RowList) (cs : List QuantaFilterExpression) :
    (∀ row, row ∈ (intersectRows e current (cs.map fun c => (c, evaluateRows e c))).rownums ↔
      row ∈ current.rownums ∧ ∀ c ∈ cs, row ∈ (evaluateRows e c).rownums) ∧
    (intersectRows e current (cs.map fun c => (c, evaluateRows e c))).rownums.Sublist
      current.rownums := by
  induction cs generalizing current with
  | nil => simp [intersectRows]
  | cons c cs ih =>
    rw [map_cons, intersectRows]
    split_ifs with hempty
    · simp [hempty]
    rcases ih (current.intersect (intersectChildRows e (c, evaluateRows e c) current)) with
      ⟨hmem, hsub⟩
    rw [RowList.rownums_intersect] at hmem hsub
    refine ⟨fun row => ?_, hsub.trans filter_sublist⟩
    rw [hmem, mem_filter, decide_eq_true_eq, forall_mem_cons, and_assoc]
    refine and_congr_right fun hrow => and_congr_left fun _ => ?_
    unfold intersectChildRows
    split
    next f within hleaf hwithin =>
      cases hleaf
      rw [h within hwithin f current row hrow, evaluateRows]
    next => rfl

theorem foldl_union_spec (first : RowList) (rest : List RowList) :
    (∀ row, row ∈ (rest.foldl RowList.union first).rownums ↔
      ∃ c ∈ first :: rest, row ∈ c.rownums) ∧
    (first.rownums.Nodup → (rest.foldl RowList.union first).rownums.Nodup) := by
  induction rest generalizing first with
  | nil => simp
  | cons c rest ih =>
    rcases RowList.union_spec first c with ⟨hmem, hnodup⟩
    refine ⟨fun row => ?_, fun h => (ih _).2 (hnodup h)⟩
    rw [foldl_cons, (ih _).1]
    simp [hmem, or_assoc]

theorem evaluateRows_spec (h : e.Agrees) {filter : QuantaFilterExpression}
    (hfilter : filter.Proper) :
    (∀ row, row ∈ (evaluateRows e filter).rownums ↔
      filter.holds fun a => row ∈ (e.evaluateFilterLeaf a).rownums) ∧
    ((∀ a ∈ filter.leaves, (e.evaluateFilterLeaf a).rownums.Nodup) →
      (evaluateRows e filter).rownums.Nodup) := by
  induction hn : filter.size using Nat.strong_induction_on generalizing filter with
  | _ n ih =>
  subst hn
  cases filter with
  | leaf a => simp [evaluateRows]
  | all children =>
    rcases evaluationOrder_spec children with ⟨hbelow, hproper, hholds⟩
    rcases hproper hfilter with ⟨⟨c, hc⟩, hproper⟩
    have hspec := fun c hc => ih _ (hbelow c hc).1 (hproper c hc) rfl
    rw [evaluateRows, attach_map_val (f := fun c => (c, evaluateRows e c))]
    cases horder : evaluationOrder children with
    | nil =>
      rw [horder] at hc
      cases hc
    | cons first rest =>
      rw [horder] at hspec hholds hbelow
      rcases intersectRows_spec h (evaluateRows e first) rest with ⟨hmem, hsub⟩
      refine ⟨fun row => ?_, fun hleaves => .sublist hsub ((hspec first mem_cons_self).2 fun a ha =>
        hleaves a ((hbelow first mem_cons_self).2 a ha))⟩
      rw [map_cons, hmem, ← hholds,
        ← forall_mem_cons (p := fun c => row ∈ (evaluateRows e c).rownums)]
      exact forall₂_congr fun c hc => (hspec c hc).1 row
  | any children =>
    have hspec := fun c hc => ih _ (size_lt_any hc) (proper_any.mp hfilter c hc) rfl
    rw [evaluateRows, attach_map_val]
    cases children with
    | nil => simp
    | cons first rest =>
      rcases foldl_union_spec (evaluateRows e first) (rest.map (evaluateRows e)) with ⟨hmem, hnodup⟩
      refine ⟨fun row => ?_, fun hleaves => hnodup ((hspec first mem_cons_self).2 fun a ha =>
        hleaves a (mem_leaves_any.mpr ⟨first, mem_cons_self, ha⟩))⟩
      rw [map_cons, hmem, holds_any, ← map_cons]
      simp only [mem_map, exists_exists_and_eq_and]
      exact exists_congr fun c => and_congr_right fun hc => (hspec c hc).1 row

/-- Connects the two models of the evaluator: with the same leaves, the lists here have the rows of
the sets that grouped filters are read with. -/
theorem mem_evaluateFilter_iff {sets : LeafEvaluator} (h : e.Agrees)
    (hleaves : ∀ a row, sets.selects row a ↔ row ∈ (e.evaluateFilterLeaf a).rownums)
    {filter : QuantaFilterExpression} (hfilter : filter.Proper) (row : ℕ) :
    row ∈ evaluateFilter sets filter ↔ row ∈ (evaluateRows e filter).rownums := by
  rw [mem_evaluateFilter hfilter, (evaluateRows_spec h hfilter).1]
  exact holds_congr_leaves fun a _ => hleaves a row

/-- The rows of a filter are those of the combination of its leaves, and no row is there twice if
no leaf repeats a row. -/
theorem evaluateRows_exact (e : RowLeaves) (h : e.Agrees) (filter : QuantaFilterExpression)
    (hfilter : filter.Proper) :
    (∀ row, row ∈ (evaluateRows e filter).rownums ↔
      filter.holds fun a => row ∈ (e.evaluateFilterLeaf a).rownums) ∧
    ((∀ a ∈ filter.leaves, (e.evaluateFilterLeaf a).rownums.Nodup) →
      (evaluateRows e filter).rownums.Nodup) :=
  evaluateRows_spec h hfilter

def twoRows : RowLeaves where
  evaluateFilterLeaf _ := { rownums := [1, 2] }
  withinCandidateSet := some fun _ _ => { rownums := [1, 2] }

def orderSet : QuantaFilterExpression := .leaf (.candidateSet ⟨"orders", {1, 2}⟩)

theorem agrees_twoRows : twoRows.Agrees := by
  rintro _ ⟨⟩ f current row -
  rfl

theorem twoRows_exact :
    twoRows.Agrees ∧ (BoolTree.any [orderSet, orderSet]).Proper ∧
      ∀ row, row ∈ (evaluateRows twoRows (.any [orderSet, orderSet])).rownums ↔
        (BoolTree.any [orderSet, orderSet]).holds fun a =>
          row ∈ (twoRows.evaluateFilterLeaf a).rownums := by
  have hproper : (BoolTree.any [orderSet, orderSet]).Proper := by simp [orderSet]
  exact ⟨agrees_twoRows, hproper, (evaluateRows_exact twoRows agrees_twoRows _ hproper).1⟩

/-- An intersection without children holds on every row but selects none, and next to a candidate
set it is dropped. -/
theorem childless_intersection_differs :
    twoRows.Agrees ∧ (evaluateRows twoRows (.all [])).rownums = [] ∧
      (BoolTree.all []).holds (fun a => 1 ∈ (twoRows.evaluateFilterLeaf a).rownums) ∧
      (evaluateRows twoRows (.all [orderSet, .all []])).rownums = [1, 2] := by
  refine ⟨agrees_twoRows, ?_, by simp, ?_⟩
  · rw [evaluateRows, attach_map_val (f := fun c => (c, evaluateRows twoRows c))]
    rfl
  · have horder : evaluationOrder [orderSet, .all []] = [orderSet] := rfl
    rw [evaluateRows, attach_map_val (f := fun c => (c, evaluateRows twoRows c)), horder]
    simp [intersectRows, orderSet, evaluateRows, twoRows]

end

end QuantaStream.Runtime
