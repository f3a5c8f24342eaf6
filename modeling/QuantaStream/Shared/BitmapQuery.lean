import Mathlib.Algebra.Order.Ring.Unbundled.Rat
import QuantaStream.Lib.ParOr

/-!
# Bitmap queries and their reduction

This module models `shared/bitmapquery.go`: the query fragments a client sends, the tree
they form, and the bottom-up reduction of the evaluated tree into one intermediate result.
The reduction moves the bitmaps of the fragments around without looking at them, so it is
written over any type with a parallel union.
-/

namespace QuantaStream.Shared

open ParOr List

/-- The set operation of a fragment (`pb.QueryFragment_OpType`). -/
inductive OpType where
  | intersect
  | union
  | difference
  | innerJoin
  | outerJoin
  deriving DecidableEq, Repr

/-- The comparison of a bit-sliced-index fragment (`pb.QueryFragment_BSIOp`). -/
inductive BSIOp where
  | na
  | lt
  | le
  | eq
  | ge
  | gt
  | range
  | batchEq
  deriving DecidableEq, Repr

/-- One predicate of a query, as it travels on the wire (`pb.QueryFragment`). -/
structure QueryFragment where
  index : String
  field : String
  rowID : ℕ := 0
  operation : OpType
  bsiOp : BSIOp := .na
  value : List UInt8 := []
  beginValue : List UInt8 := []
  endValue : List UInt8 := []
  values : List (List UInt8) := []
  samplePct : ℚ := 0
  nullCheck : Bool := false
  negate : Bool := false
  orContext : Bool := false
  deriving DecidableEq

/-- The test `SamplePct > 0` that switches a fragment to stratified sampling. -/
def QueryFragment.sampled (n : QueryFragment) : Bool := 0 < n.samplePct

/-- A fragment tree; every fragment has the identifier under which its bitmap is kept. -/
inductive FragmentTree (ι : Type) where
  | node (id : ι) (fragment : QueryFragment) (children : List (FragmentTree ι))

/-- A row bitmap kept for stratified sampling. -/
structure RowBitmap (β : Type*) where
  field : String
  rowID : ℕ
  bits : β

/-- The result a node returns for a query, also used as the scratch pad of the reduction. -/
structure IntermediateResult (β : Type*) where
  index : String
  samplePct : ℚ
  sampleIsUnion : Bool
  unions : List β
  intersects : List β
  andDifferences : List β
  orDifferences : List β
  existences : List β
  samples : List (RowBitmap β)
  union : β
  existence : β

namespace IntermediateResult

variable {β : Type*}

def new [HasParOr β] (index : String) : IntermediateResult β where
  index := index
  samplePct := 0
  sampleIsUnion := false
  unions := []
  intersects := []
  andDifferences := []
  orDifferences := []
  existences := []
  samples := []
  union := parOr []
  existence := parOr []

variable (r : IntermediateResult β) (b : β)

@[simp]
def addIntersect : IntermediateResult β :=
  { r with intersects := r.intersects ++ [b] }

@[simp]
def addUnion : IntermediateResult β :=
  { r with unions := r.unions ++ [b] }

@[simp]
def addAndDifference : IntermediateResult β :=
  { r with andDifferences := r.andDifferences ++ [b] }

@[simp]
def addOrDifference : IntermediateResult β :=
  { r with orDifferences := r.orDifferences ++ [b] }

@[simp]
def addSamples (bs : List (RowBitmap β)) : IntermediateResult β :=
  { r with samples := r.samples ++ bs }

def addExistence : IntermediateResult β :=
  { r with existences := r.existences ++ [b] }

/-- `Collapse`: merge the values that distribute over the nodes. -/
def collapse [HasParOr β] (r : IntermediateResult β) : IntermediateResult β :=
  { r with union := parOr r.unions, existence := parOr r.existences }

/-- One turn of the child loop of `walkReduce`: move the lists of a reduced child up. -/
def absorb (orContext : Bool) (ir : IntermediateResult β) : IntermediateResult β :=
  let r := { r with intersects := r.intersects ++ ir.intersects }
  let r := if orContext then { r with orDifferences := r.orDifferences ++ ir.orDifferences }
    else { r with andDifferences := r.andDifferences ++ ir.andDifferences }
  let r := r.addSamples ir.samples
  r.addUnion ir.union

end IntermediateResult

open IntermediateResult

/-! ## The reduction -/

section

variable {ι : Type} {β : Type*}

/-- The own contribution of a fragment, added after those of its children. -/
def addOwn (parentORContext : Bool) (n : QueryFragment) (data : β)
    (result : IntermediateResult β) : IntermediateResult β :=
  match n.operation with
  | .intersect =>
    if n.sampled then { result with sampleIsUnion := false }
    else result.addIntersect data
  | .union =>
    if n.sampled then { result with sampleIsUnion := true }
    else result.addUnion data
  | .difference =>
    if parentORContext then result.addOrDifference data
    else if n.orContext then result.addOrDifference data
    else result.addAndDifference data
  | .innerJoin => result
  | .outerJoin => result

variable [HasParOr β]

mutual

/-- `walkReduce`: collect the bitmaps of a tree bottom up.  `dataMap` holds the evaluated
bitmaps, `parentORContext` is `n.parent != nil && n.parent.ORContext`. -/
def walkReduce (dataMap : ι → β) (parentORContext : Bool) : FragmentTree ι → IntermediateResult β
  | .node id n children =>
    let result := { new n.index with samplePct := n.samplePct }
    let result := walkReduceChildren dataMap n.orContext children result
    (addOwn parentORContext n (dataMap id) result).collapse

/-- The loop of `walkReduce` over the children of a fragment. -/
def walkReduceChildren (dataMap : ι → β) (orContext : Bool) :
    List (FragmentTree ι) → IntermediateResult β → IntermediateResult β
  | [], result => result
  | f :: fs, result =>
    walkReduceChildren dataMap orContext fs
      (result.absorb orContext (walkReduce dataMap orContext f))

end

end

/-! ## The fragments of a tree -/

/-- A fragment of a tree with the OR-context flags of the fragments above it, nearest first. -/
structure Occurrence (ι : Type) where
  ancestors : List Bool
  id : ι
  fragment : QueryFragment

namespace Occurrence

variable {ι : Type}

/-- The occurrence seen from one level further up. -/
def under (orContext : Bool) (o : Occurrence ι) : Occurrence ι :=
  { o with ancestors := o.ancestors ++ [orContext] }

variable (o : Occurrence ι)

/-- The bitmap of the fragment is used by the reduction: a sampled fragment hands over its
sample rows instead, and a join fragment hands over nothing. -/
def CarriesBitmap : Prop :=
  match o.fragment.operation with
  | .intersect => o.fragment.sampled = false
  | .union => o.fragment.sampled = false
  | .difference => True
  | .innerJoin => False
  | .outerJoin => False

instance (o : Occurrence ι) : Decidable o.CarriesBitmap := by
  unfold CarriesBitmap
  cases o.fragment.operation <;> infer_instance

def IsIntersect : Prop :=
  o.fragment.operation = .intersect ∧ o.fragment.sampled = false

instance (o : Occurrence ι) : Decidable o.IsIntersect := by
  unfold IsIntersect; infer_instance

def IsUnion : Prop :=
  o.fragment.operation = .union ∧ o.fragment.sampled = false

instance (o : Occurrence ι) : Decidable o.IsUnion := by
  unfold IsUnion; infer_instance

/-- A difference fragment starts on the OR list when its parent or itself is in OR context. -/
def startsOr (parentORContext : Bool) (o : Occurrence ι) : Bool :=
  o.ancestors.headD parentORContext || o.fragment.orContext

/-- The difference fragments whose bitmap is moved up the given list all the way: a parent
takes over only the list of its own context. -/
def IsDifference (parentORContext orList : Bool) (o : Occurrence ι) : Prop :=
  o.fragment.operation = .difference ∧ o.startsOr parentORContext = orList ∧
    ∀ a ∈ o.ancestors, a = orList

instance (parentORContext orList : Bool) (o : Occurrence ι) :
    Decidable (o.IsDifference parentORContext orList) := by
  unfold IsDifference; infer_instance

section

variable (b : Bool) (o : Occurrence ι)

@[simp]
theorem under_id : (o.under b).id = o.id := rfl

@[simp]
theorem under_fragment : (o.under b).fragment = o.fragment := rfl

@[simp]
theorem isIntersect_under : (o.under b).IsIntersect ↔ o.IsIntersect := Iff.rfl

@[simp]
theorem isUnion_under : (o.under b).IsUnion ↔ o.IsUnion := Iff.rfl

end

@[simp]
theorem startsOr_under (p b : Bool) (o : Occurrence ι) : (o.under b).startsOr p = o.startsOr b := by
  cases h : o.ancestors <;> simp [startsOr, under, h]

/-- A parent changes only the list that a difference goes to. -/
@[simp]
theorem isDifference_under (p b orList : Bool) (o : Occurrence ι) :
    (o.under b).IsDifference p orList ↔ b = orList ∧ o.IsDifference b orList := by
  have hanc : (∀ a ∈ (o.under b).ancestors, a = orList) ↔
      (∀ a ∈ o.ancestors, a = orList) ∧ b = orList := by
    simp [under, or_imp, forall_and]
  unfold IsDifference
  rw [hanc, startsOr_under, under_fragment]
  tauto

end Occurrence

namespace FragmentTree

variable {ι : Type}

mutual

/-- The fragments of a tree in evaluation order: children before their parent. -/
def occurrences : FragmentTree ι → List (Occurrence ι)
  | .node id n children =>
    (occurrencesChildren children).map (Occurrence.under n.orContext) ++ [⟨[], id, n⟩]

/-- The fragments of a list of trees in evaluation order. -/
def occurrencesChildren : List (FragmentTree ι) → List (Occurrence ι)
  | [] => []
  | t :: ts => occurrences t ++ occurrencesChildren ts

end

def ids (t : FragmentTree ι) : List ι := t.occurrences.map Occurrence.id

mutual

def mapFragments (g : ι → QueryFragment → QueryFragment) : FragmentTree ι → FragmentTree ι
  | .node id n children => .node id (g id n) (mapFragmentsChildren g children)

def mapFragmentsChildren (g : ι → QueryFragment → QueryFragment) :
    List (FragmentTree ι) → List (FragmentTree ι)
  | [] => []
  | t :: ts => mapFragments g t :: mapFragmentsChildren g ts

end

end FragmentTree

/-- The occurrence of a fragment that was rewritten in place. -/
def Occurrence.mapFragment {ι : Type} (g : ι → QueryFragment → QueryFragment)
    (o : Occurrence ι) : Occurrence ι :=
  { o with fragment := g o.id o.fragment }

namespace FragmentTree

variable {ι : Type} (g : ι → QueryFragment → QueryFragment)

mutual

/-- Other fragments at the same places. -/
theorem occurrences_mapFragments (hg : ∀ id n, (g id n).orContext = n.orContext) :
    ∀ t : FragmentTree ι,
      (t.mapFragments g).occurrences = t.occurrences.map (Occurrence.mapFragment g)
  | .node id n children => by
      rw [mapFragments, occurrences, occurrences,
        occurrencesChildren_mapFragmentsChildren hg children, hg id n]
      simp only [map_append, map_map, map_cons, map_nil]
      rfl

theorem occurrencesChildren_mapFragmentsChildren
    (hg : ∀ id n, (g id n).orContext = n.orContext) :
    ∀ ts : List (FragmentTree ι),
      occurrencesChildren (mapFragmentsChildren g ts) =
        (occurrencesChildren ts).map (Occurrence.mapFragment g)
  | [] => rfl
  | t :: ts => by
      rw [mapFragmentsChildren, occurrencesChildren, occurrencesChildren,
        occurrences_mapFragments hg t, occurrencesChildren_mapFragmentsChildren hg ts,
        map_append]

end

theorem ids_mapFragments (hg : ∀ id n, (g id n).orContext = n.orContext)
    (t : FragmentTree ι) : (t.mapFragments g).ids = t.ids := by
  simp [ids, occurrences_mapFragments g hg, Function.comp_def, Occurrence.mapFragment]

end FragmentTree

/-- A query: a fragment tree whose fragments have distinct identifiers (`ToProto` draws a
fresh one for every fragment). -/
structure BitmapQuery (ι : Type) where
  root : FragmentTree ι
  ids_nodup : root.ids.Nodup

def BitmapQuery.getRootIndex {ι : Type} (q : BitmapQuery ι) : String :=
  match q.root with
  | .node _ n _ => n.index

/-- Rewrite the fragments of a query in place, keeping their OR-context flags. -/
def BitmapQuery.mapFragments {ι : Type} (q : BitmapQuery ι)
    (g : ι → QueryFragment → QueryFragment)
    (hg : ∀ id n, (g id n).orContext = n.orContext) : BitmapQuery ι where
  root := q.root.mapFragments g
  ids_nodup := by
    rw [FragmentTree.ids_mapFragments g hg]
    exact q.ids_nodup

/-- `Reduce`: the root has no parent. -/
def BitmapQuery.reduce {ι : Type} {β : Type*} [HasParOr β] (q : BitmapQuery ι)
    (dataMap : ι → β) : IntermediateResult β :=
  walkReduce dataMap false q.root

/-! ## The lists of the reduced result -/

section

variable {ι : Type} {β : Type*}

namespace IntermediateResult

section

variable [HasParOr β]

section

variable (r : IntermediateResult β)

@[simp]
theorem collapse_lists :
    r.collapse.intersects = r.intersects ∧ r.collapse.andDifferences = r.andDifferences ∧
      r.collapse.orDifferences = r.orDifferences := ⟨rfl, rfl, rfl⟩

@[simp]
theorem collapse_union : r.collapse.union = parOr r.unions := rfl

end

end

section

variable (r ir : IntermediateResult β) (b : Bool)

@[simp]
theorem absorb_lists :
    (r.absorb b ir).intersects = r.intersects ++ ir.intersects ∧
      (r.absorb b ir).unions = r.unions ++ [ir.union] ∧
      (r.absorb b ir).andDifferences = r.andDifferences ++ (if b then [] else ir.andDifferences) ∧
      (r.absorb b ir).orDifferences = r.orDifferences ++ if b then ir.orDifferences else [] := by
  cases b <;> simp [absorb]

end

end IntermediateResult

section

variable (p : Bool) (n : QueryFragment) (x : β) (r : IntermediateResult β)

@[simp]
theorem addOwn_lists :
    (addOwn p n x r).intersects = r.intersects ++
        (if n.operation = .intersect ∧ n.sampled = false then [x] else []) ∧
      (addOwn p n x r).unions = r.unions ++
        (if n.operation = .union ∧ n.sampled = false then [x] else []) ∧
      (addOwn p n x r).andDifferences = r.andDifferences ++
        (if n.operation = .difference ∧ (p || n.orContext) = false then [x] else []) ∧
      (addOwn p n x r).orDifferences = r.orDifferences ++
        (if n.operation = .difference ∧ (p || n.orContext) = true then [x] else []) ∧
      (addOwn p n x r).existences = r.existences := by
  cases hop : n.operation <;> cases hs : n.sampled <;> cases p <;> cases ho : n.orContext <;>
    simp [addOwn, hop, hs, ho]

end

/-- The bitmaps of the occurrences with a property, in evaluation order. -/
def pick (d : ι → β) (P : Occurrence ι → Prop) [DecidablePred P]
    (os : List (Occurrence ι)) : List β :=
  (os.filter (fun o => P o)).map (fun o => d o.id)

section

variable (d : ι → β) (P : Occurrence ι → Prop)

@[simp]
theorem pick_append [DecidablePred P] (os os' : List (Occurrence ι)) :
    pick d P (os ++ os') = pick d P os ++ pick d P os' := by
  simp [pick]

@[simp]
theorem pick_nil [DecidablePred P] : pick d P [] = [] := rfl

theorem pick_singleton [DecidablePred P] (o : Occurrence ι) :
    pick d P [o] = if P o then [d o.id] else [] := by
  by_cases h : P o <;> simp [pick, h]

end

/-- Picking under a parent. -/
theorem pick_map_under (d : ι → β) (P Q : Occurrence ι → Prop) [DecidablePred P]
    [DecidablePred Q] (b : Bool) (h : ∀ o, P (o.under b) ↔ Q o) (os : List (Occurrence ι)) :
    pick d P (os.map (Occurrence.under b)) = pick d Q os := by
  simp only [pick, filter_map, map_map]
  congr 1
  exact filter_congr fun o _ => by simp [h]

open FragmentTree

variable [HasParOr β] (d : ι → β)

mutual

/-- The intersect list of the root holds the bitmaps of the intersect fragments. -/
theorem walkReduce_intersects (p : Bool) :
    ∀ t : FragmentTree ι,
      (walkReduce d p t).intersects = pick d Occurrence.IsIntersect t.occurrences
  | .node id n children => by
      have ih := walkReduceChildren_intersects n.orContext children
      rw [walkReduce, occurrences, pick_append, pick_singleton,
        pick_map_under d _ Occurrence.IsIntersect _ (fun o => by simp)]
      simp [ih, new, Occurrence.IsIntersect]

/-- The intersects of the children follow those before them. -/
theorem walkReduceChildren_intersects (b : Bool) :
    ∀ (ts : List (FragmentTree ι)) (r : IntermediateResult β),
      (walkReduceChildren d b ts r).intersects =
        r.intersects ++ pick d Occurrence.IsIntersect (occurrencesChildren ts)
  | [], r => by simp [walkReduceChildren, occurrencesChildren]
  | t :: ts, r => by
      simp [walkReduceChildren, occurrencesChildren, walkReduceChildren_intersects b ts,
        walkReduce_intersects b t]

end

def IntermediateResult.differences (r : IntermediateResult β) (orList : Bool) : List β :=
  if orList then r.orDifferences else r.andDifferences

mutual

/-- A difference list of the root holds the bitmaps that were moved up all the way. -/
theorem walkReduce_differences (orList p : Bool) :
    ∀ t : FragmentTree ι, (walkReduce d p t).differences orList =
      pick d (Occurrence.IsDifference p orList) t.occurrences
  | .node id n children => by
      have ih := walkReduceChildren_differences orList n.orContext children
      rw [walkReduce, occurrences, pick_append, pick_singleton,
        pick_map_under d _ _ _ (fun o => Occurrence.isDifference_under p n.orContext orList o)]
      have hown : (⟨[], id, n⟩ : Occurrence ι).IsDifference p orList ↔
          n.operation = .difference ∧ (p || n.orContext) = orList := by
        simp [Occurrence.IsDifference, Occurrence.startsOr]
      simp only [differences] at ih ⊢
      cases orList <;> simp_all [new]

/-- So do the differences of either list. -/
theorem walkReduceChildren_differences (orList b : Bool) :
    ∀ (ts : List (FragmentTree ι)) (r : IntermediateResult β),
      (walkReduceChildren d b ts r).differences orList = r.differences orList ++
        pick d (fun o => b = orList ∧ o.IsDifference b orList) (occurrencesChildren ts)
  | [], r => by simp [walkReduceChildren, occurrencesChildren]
  | t :: ts, r => by
      rw [walkReduceChildren, walkReduceChildren_differences orList b ts,
        occurrencesChildren, pick_append, ← append_assoc]
      have ih := walkReduce_differences orList b t
      congr 1
      cases orList <;> cases b <;>
        simp_all [differences, pick]

end

/-- Each child adds its own union. -/
theorem walkReduceChildren_unions (b : Bool) :
    ∀ (ts : List (FragmentTree ι)) (r : IntermediateResult β),
      (walkReduceChildren d b ts r).unions =
        r.unions ++ ts.map (fun t => (walkReduce d b t).union)
  | [], r => by simp [walkReduceChildren]
  | t :: ts, r => by simp [walkReduceChildren, walkReduceChildren_unions b ts]

mutual

/-- The union of the root merges the bitmaps of the union fragments. -/
theorem walkReduce_union [LawfulParOr β] (p : Bool) :
    ∀ t : FragmentTree ι, (walkReduce d p t).union = parOr (pick d Occurrence.IsUnion t.occurrences)
  | .node id n children => by
      have ih := walkReduceChildren_union n.orContext children
      rw [walkReduce, occurrences, pick_append, pick_singleton,
        pick_map_under d _ Occurrence.IsUnion _ (fun o => by simp),
        collapse_union, (addOwn_lists _ _ _ _).2.1, walkReduceChildren_unions]
      simpa [new, Occurrence.IsUnion] using parOr_congr_append ih rfl

/-- The unions of the children are those of all nodes below. -/
theorem walkReduceChildren_union [LawfulParOr β] (b : Bool) :
    ∀ ts : List (FragmentTree ι),
      parOr (ts.map (fun t => (walkReduce d b t).union)) =
        parOr (pick d Occurrence.IsUnion (occurrencesChildren ts))
  | [] => by simp [occurrencesChildren]
  | t :: ts => by
      have ht := walkReduce_union b t
      rw [← parOr_singleton ((walkReduce d b t).union)] at ht
      rw [occurrencesChildren, pick_append, map_cons, ← singleton_append]
      exact parOr_congr_append ht (walkReduceChildren_union b ts)

end

mutual

/-- No node adds to the existences. -/
theorem walkReduce_existences (p : Bool) :
    ∀ t : FragmentTree ι, (walkReduce d p t).existences = []
  | .node id n children => by
      have ih := walkReduceChildren_existences n.orContext children
      rw [walkReduce]
      simp [ih, collapse, new]

theorem walkReduceChildren_existences (b : Bool) :
    ∀ (ts : List (FragmentTree ι)) (r : IntermediateResult β),
      (walkReduceChildren d b ts r).existences = r.existences
  | [], r => by rw [walkReduceChildren]
  | t :: ts, r => by
      rw [walkReduceChildren, walkReduceChildren_existences b ts]
      cases b <;> rfl

end

theorem walkReduce_existence (p : Bool) (t : FragmentTree ι) :
    (walkReduce d p t).existence = parOr [] := by
  have hexs := walkReduce_existences d p t
  cases t with
  | node id n children =>
    rw [walkReduce] at hexs ⊢
    simpa [collapse] using congrArg parOr hexs

end

end QuantaStream.Shared
