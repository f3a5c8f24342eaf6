import QuantaStream.Shared.BitmapQuery

/-!
# The client side of a query

This module models the result exchange of `shared/bitmapquery.go` and the client flow of
`shared/clientquery.go` for a query over one index: a node marshals its intermediate
result, the client sends the same query to every active node, merges the returned slots and
computes the final bitmap.
-/

namespace QuantaStream.Shared

open ParOr List IntermediateResult

/-- A roaring bitmap is the finite set of its rows. -/
abbrev Bitmap := Finset ℕ

/-! ## The result on the wire -/

/-- The set-valued part of `pb.QueryResult`. -/
structure QueryResult where
  unions : Bitmap
  intersects : List Bitmap
  differences : List Bitmap
  existences : Bitmap
  andDifferencesCount : ℕ

/-- `MarshalQueryResult`.  Existence bitmaps are added after the result was collapsed, so an
empty collapsed existence is computed again. -/
def IntermediateResult.marshalQueryResult (r : IntermediateResult Bitmap) : QueryResult where
  unions := r.union
  intersects := r.intersects
  differences := r.andDifferences ++ r.orDifferences
  existences :=
    if r.existences ≠ [] ∧ r.existence = ∅ then parOr r.existences else r.existence
  andDifferencesCount := r.andDifferences.length

def IntermediateResult.unmarshalAndAdd (r : IntermediateResult Bitmap) (rs : QueryResult) :
    IntermediateResult Bitmap :=
  let r := if rs.unions ≠ ∅ then r.addUnion rs.unions else r
  let r := { r with intersects := r.intersects ++ rs.intersects }
  let r := { r with andDifferences :=
    r.andDifferences ++ rs.differences.take rs.andDifferencesCount }
  let r := { r with orDifferences :=
    r.orDifferences ++ rs.differences.drop rs.andDifferencesCount }
  if rs.existences ≠ ∅ then r.addExistence rs.existences else r

/-! ## Merging the node results -/

variable (results : List (IntermediateResult Bitmap))

variable (selectSlots : IntermediateResult Bitmap → List Bitmap)

def maxIntermediateBitmapSlots : ℕ :=
  results.foldl (fun maxSlots r => max maxSlots (selectSlots r).length) 0

def mergeIntermediateBitmapSlot (slot : ℕ)
    (selectSlots : IntermediateResult Bitmap → List Bitmap) : Bitmap :=
  parOr (results.filterMap (fun r => (selectSlots r)[slot]?))

/-- The three slot loops of `queryGroupWholeFanout`. -/
def mergeIntermediateBitmapSlots : List Bitmap :=
  (List.range (maxIntermediateBitmapSlots results selectSlots)).map
    (fun slot => mergeIntermediateBitmapSlot results slot selectSlots)

/-- `queryGroupWholeFanout` on the results of the active nodes, for queries without sampling. -/
def queryGroupWholeFanout (index : String) (nodeResults : List QueryResult) :
    IntermediateResult Bitmap :=
  let ra := nodeResults.map
    (fun rs => ((new index).unmarshalAndAdd rs).collapse)
  { new index with
    intersects := mergeIntermediateBitmapSlots ra intersects
    andDifferences := mergeIntermediateBitmapSlots ra andDifferences
    orDifferences := mergeIntermediateBitmapSlots ra orDifferences
    unions := [parOr (ra.map union)]
    existences := [parOr ((ra.map existence).filter (· ≠ ∅))] }

/-! ## The final bitmap -/

/-- The end of `query` and `intermediateResultFinalBitmap` on a collapsed result. -/
def finalBitmap (r : IntermediateResult Bitmap) : Bitmap :=
  let result := if r.union = ∅ then r.existence else r.union
  let result :=
    if r.orDifferences ≠ [] then parOr (r.orDifferences.map (fun x => result \ x)) else result
  let result :=
    if r.andDifferences ≠ [] then result \ parOr r.andDifferences else result
  if r.intersects ≠ [] then r.intersects.foldl (· ∩ ·) result else result

theorem mem_foldl_inter {xs : List Bitmap} {b : Bitmap} {row : ℕ} :
    row ∈ xs.foldl (· ∩ ·) b ↔ row ∈ b ∧ ∀ x ∈ xs, row ∈ x := by
  induction xs generalizing b with
  | nil => simp
  | cons x xs ih =>
    rw [foldl_cons, ih]
    simp [and_assoc]

/-- The rows of the final bitmap: in the base set, missing from some OR difference if there is
one, missing from every AND difference, in every intersect. -/
theorem mem_finalBitmap {r : IntermediateResult Bitmap} {row : ℕ} :
    row ∈ finalBitmap r ↔
      row ∈ (if r.union = ∅ then r.existence else r.union) ∧
        (r.orDifferences ≠ [] → ∃ x ∈ r.orDifferences, row ∉ x) ∧
        (∀ x ∈ r.andDifferences, row ∉ x) ∧
        ∀ x ∈ r.intersects, row ∈ x := by
  unfold finalBitmap
  cases hor : r.orDifferences <;> cases hand : r.andDifferences <;>
    cases hin : r.intersects <;>
    simp [mem_foldl_inter, and_assoc] <;> tauto

/-! ## Promotion of an intersect -/

/-- `ensureBitmapQueryHasUnion`: without a union and without a null check, the first intersect
becomes a union. -/
def ensureBitmapQueryHasUnion {ι : Type} [DecidableEq ι] (q : BitmapQuery ι) : BitmapQuery ι :=
  if q.root.occurrences.any
      (fun o => o.fragment.operation = .union || o.fragment.nullCheck) then q
  else
    match q.root.occurrences.find? (fun o => o.fragment.operation = .intersect) with
    | none => q
    | some o => q.mapFragments
        (fun id n => { n with operation := if id = o.id then .union else n.operation })
        (fun _ _ => rfl)

/-! ## Slots of equally shaped results -/

section

variable {α N : Type*}

theorem foldl_max_eq {f : N → ℕ} {k : ℕ} {ns : List N} (h : ∀ n ∈ ns, f n = k) (init : ℕ) :
    ns.foldl (fun m n => max m (f n)) init = if ns = [] then init else max init k := by
  induction ns generalizing init with
  | nil => simp
  | cons n ns ih =>
    split_ifs <;> simp_all

/-- When every node fills the slots in the same order, the merged slots are the unions over
the nodes. -/
theorem mergeIntermediateBitmapSlots_map {ns : List N} (hne : ns ≠ [])
    (result : N → IntermediateResult Bitmap)
    (selectSlots : IntermediateResult Bitmap → List Bitmap) (os : List α) (d : N → α → Bitmap)
    (h : ∀ n ∈ ns, selectSlots (result n) = os.map (d n)) :
    mergeIntermediateBitmapSlots (ns.map result) selectSlots =
      os.map (fun o => parOr (ns.map (fun n => d n o))) := by
  have hlen : maxIntermediateBitmapSlots (ns.map result) selectSlots = os.length := by
    unfold maxIntermediateBitmapSlots
    rw [foldl_map, foldl_max_eq (fun n hn => by rw [h n hn, length_map])]
    simp [hne]
  unfold mergeIntermediateBitmapSlots
  rw [hlen]
  refine ext_getElem (by simp) fun i h₁ h₂ => ?_
  have hi : i < os.length := by simpa using h₂
  have hslot : (ns.map result).filterMap (fun r => (selectSlots r)[i]?) =
      ns.map (fun n => d n os[i]) := by
    rw [filterMap_map, ← filterMap_eq_map]
    refine filterMap_congr fun n hn => ?_
    simp [h n hn, hi]
  rw [getElem_map, getElem_map, getElem_range, mergeIntermediateBitmapSlot, hslot]

end

end QuantaStream.Shared
