import QuantaStream.Shared.BitmapQuery

/-!
# Which predicates survive the reduction

The reduction is run on labels in place of bitmaps: every fragment carries its own identifier,
and lists of labels are merged by multiset sum.  The labels that arrive at the root then say
which fragments the reduced result is made of.
-/

namespace QuantaStream.Shared

open ParOr List IntermediateResult Occurrence BitmapQuery

variable {ι : Type}

namespace BitmapQuery

/-- The reduction run on the identifiers of the fragments. -/
def provenance (q : BitmapQuery ι) : IntermediateResult (Multiset ι) :=
  q.reduce (fun id => {id})

end BitmapQuery

namespace IntermediateResult

/-- Everything that arrived on one of the four lists of a result. -/
def reached (r : IntermediateResult (Multiset ι)) : Multiset ι :=
  r.union + r.intersects.sum + r.andDifferences.sum + r.orDifferences.sum

end IntermediateResult

/-! ## Counting labels -/

section

variable [DecidableEq ι]

section

variable {P : Occurrence ι → Prop} [DecidablePred P] {os : List (Occurrence ι)}

theorem count_sum_pick_eq_zero {id : ι} (h : id ∉ os.map Occurrence.id) :
    (pick (fun i => ({i} : Multiset ι)) P os).sum.count id = 0 := by
  induction os with
  | nil => simp
  | cons o os ih =>
    rw [map_cons, mem_cons, not_or] at h
    have hrest := ih h.2
    rw [← singleton_append, pick_append, sum_append, Multiset.count_add, hrest,
      pick_singleton]
    split_ifs
    · simp [h.1]
    · simp

/-- With distinct identifiers a label is picked once if its fragment has the property. -/
theorem count_sum_pick (hnd : (os.map Occurrence.id).Nodup) {o : Occurrence ι} (ho : o ∈ os) :
    (pick (fun i => ({i} : Multiset ι)) P os).sum.count o.id = if P o then 1 else 0 := by
  induction os with
  | nil => simp at ho
  | cons x os ih =>
    rw [map_cons, nodup_cons] at hnd
    rw [← singleton_append, pick_append, sum_append, Multiset.count_add]
    rcases mem_cons.mp ho with rfl | hrest
    · rw [count_sum_pick_eq_zero hnd.1, pick_singleton]
      split_ifs <;> simp
    · have hne : o.id ≠ x.id := fun h =>
        hnd.1 (h ▸ mem_map_of_mem hrest)
      rw [ih hnd.2 hrest, pick_singleton]
      split_ifs <;> simp [hne]

end

/-- A label arrives at the root once for every list its fragment is moved up. -/
theorem count_reached (q : BitmapQuery ι) {o : Occurrence ι} (ho : o ∈ q.root.occurrences) :
    q.provenance.reached.count o.id =
      (if o.IsUnion then 1 else 0) + (if o.IsIntersect then 1 else 0) +
        (if o.IsDifference false false then 1 else 0) +
        (if o.IsDifference false true then 1 else 0) := by
  have hand := walkReduce_differences (fun i => ({i} : Multiset ι)) false false q.root
  have hor := walkReduce_differences (fun i => ({i} : Multiset ι)) true false q.root
  simp only [differences, Bool.false_eq_true, if_false, if_true] at hand hor
  unfold provenance reduce reached
  rw [walkReduce_union, walkReduce_intersects, hand, hor, parOr_eq_sum]
  simp [count_sum_pick q.ids_nodup ho]

end

/-! ## Which fragments arrive -/

/-- The fragments above a difference fragment share the context it starts in. -/
def Occurrence.KeepsContext (o : Occurrence ι) : Prop :=
  ∀ a ∈ o.ancestors, a = o.startsOr false

instance (o : Occurrence ι) : Decidable o.KeepsContext := by
  unfold KeepsContext; infer_instance

variable {o : Occurrence ι}

theorem isDifference_iff (hop : o.fragment.operation = .difference)
    (orList : Bool) : o.IsDifference false orList ↔ o.startsOr false = orList ∧ o.KeepsContext := by
  constructor
  · rintro ⟨_, hstart, hanc⟩
    exact ⟨hstart, fun a ha => (hanc a ha).trans hstart.symm⟩
  · rintro ⟨hstart, hanc⟩
    exact ⟨hop, hstart, fun a ha => (hanc a ha).trans hstart⟩

/-- Every difference fragment keeps its context on the way to the root. -/
def BitmapQuery.ContextsAgree (q : BitmapQuery ι) : Prop :=
  ∀ o ∈ q.root.occurrences, o.fragment.operation = .difference → o.KeepsContext

theorem count_reached_eq_one_iff [DecidableEq ι] (q : BitmapQuery ι)
    (ho : o ∈ q.root.occurrences) (hc : o.CarriesBitmap) :
    q.provenance.reached.count o.id = 1 ↔
      (o.fragment.operation = .difference → o.KeepsContext) := by
  rw [count_reached q ho]
  cases hop : o.fragment.operation with
  | intersect | union =>
    have hs : o.fragment.sampled = false := by simpa [CarriesBitmap, hop] using hc
    simp [IsUnion, IsIntersect, IsDifference, hop, hs]
  | difference =>
    rw [if_neg (by simp [IsUnion, hop]),
      if_neg (by simp [IsIntersect, hop])]
    simp only [isDifference_iff hop]
    by_cases hanc : o.KeepsContext
    · cases o.startsOr false <;> simp [hanc]
    · simp [hanc]
  | innerJoin | outerJoin => simp [CarriesBitmap, hop] at hc

/-! ## Fragments that arrive matter -/

section

/-- The union and the three lists of a reduced result. -/
def BitmapQuery.reducedLists (q : BitmapQuery ι) (d : ι → Finset ℕ) :
    Finset ℕ × List (Finset ℕ) × List (Finset ℕ) × List (Finset ℕ) :=
  let r := q.reduce d
  (r.union, r.intersects, r.andDifferences, r.orDifferences)

theorem reducedLists_eq (q : BitmapQuery ι) (d : ι → Finset ℕ) :
    q.reducedLists d =
      (parOr (pick d IsUnion q.root.occurrences),
        pick d IsIntersect q.root.occurrences,
        pick d (IsDifference false false) q.root.occurrences,
        pick d (IsDifference false true) q.root.occurrences) := by
  have hand := walkReduce_differences d false false q.root
  have hor := walkReduce_differences d true false q.root
  simp only [differences, Bool.false_eq_true, if_false, if_true] at hand hor
  unfold reducedLists reduce
  simp only [walkReduce_union, walkReduce_intersects, hand, hor]

variable [DecidableEq ι]

/-- Changing one bitmap is visible in a list its fragment was picked for. -/
theorem pick_update_ne {P : Occurrence ι → Prop} [DecidablePred P] {os : List (Occurrence ι)}
    (ho : o ∈ os) (hP : P o) :
    ({0} : Finset ℕ) ∈ pick (Function.update (fun _ => ∅) o.id {0}) P os ∧
      ({0} : Finset ℕ) ∉ pick (fun _ => ∅) P os := by
  constructor
  · refine mem_map.mpr ⟨o, ?_, by simp⟩
    simpa using ⟨ho, hP⟩
  · simp [pick]

/-- A fragment on its way to the root changes the reduced result for some bitmaps. -/
theorem reducedLists_ne_of_reached (q : BitmapQuery ι)
    (ho : o ∈ q.root.occurrences) (hc : o.CarriesBitmap)
    (hkeep : o.fragment.operation = .difference → o.KeepsContext) :
    ∃ (d : ι → Finset ℕ) (x : Finset ℕ),
      q.reducedLists (Function.update d o.id x) ≠ q.reducedLists d := by
  refine ⟨fun _ => ∅, {0}, fun heq => ?_⟩
  rw [reducedLists_eq, reducedLists_eq, Prod.mk.injEq, Prod.mk.injEq, Prod.mk.injEq] at heq
  obtain ⟨hunion, hinter, hand, hor⟩ := heq
  cases hop : o.fragment.operation with
  | intersect =>
    have hP : o.IsIntersect := ⟨hop, by simpa [CarriesBitmap, hop] using hc⟩
    have hne := pick_update_ne ho hP
    exact hne.2 (hinter ▸ hne.1)
  | union =>
    have hP : o.IsUnion := ⟨hop, by simpa [CarriesBitmap, hop] using hc⟩
    have hin : 0 ∈ parOr (pick (Function.update (fun _ => (∅ : Finset ℕ)) o.id {0})
        IsUnion q.root.occurrences) :=
      mem_parOr.mpr ⟨{0}, (pick_update_ne ho hP).1, by simp⟩
    rw [hunion, mem_parOr] at hin
    obtain ⟨y, hy, h0⟩ := hin
    simp only [pick, mem_map] at hy
    obtain ⟨_, _, rfl⟩ := hy
    simp at h0
  | difference =>
    cases hstart : o.startsOr false with
    | false =>
      have hP := (isDifference_iff hop false).mpr ⟨hstart, hkeep hop⟩
      have hne := pick_update_ne ho hP
      exact hne.2 (hand ▸ hne.1)
    | true =>
      have hP := (isDifference_iff hop true).mpr ⟨hstart, hkeep hop⟩
      have hne := pick_update_ne ho hP
      exact hne.2 (hor ▸ hne.1)
  | innerJoin | outerJoin => simp [CarriesBitmap, hop] at hc

end

/-- No predicate is lost by the reduction: every fragment that carries a bitmap arrives on
exactly one list of the root, and its bitmap can change the reduced result.  This holds
exactly for the queries whose difference fragments keep their context. -/
theorem walkReduce_loses_no_predicate_iff [DecidableEq ι] (q : BitmapQuery ι) :
    (∀ o ∈ q.root.occurrences, o.CarriesBitmap →
      q.provenance.reached.count o.id = 1 ∧
        ∃ (d : ι → Finset ℕ) (x : Finset ℕ),
          q.reducedLists (Function.update d o.id x) ≠ q.reducedLists d) ↔
      q.ContextsAgree := by
  constructor
  · intro h o ho hop
    have hc : o.CarriesBitmap := by simp [CarriesBitmap, hop]
    exact (count_reached_eq_one_iff q ho hc).mp (h o ho hc).1 hop
  · intro h o ho hc
    exact ⟨(count_reached_eq_one_iff q ho hc).mpr (h o ho),
      reducedLists_ne_of_reached q ho hc (h o ho)⟩

/-- A union with a difference below it whose OR-context flag the union does not share. -/
def mixedContextQuery : BitmapQuery ℕ where
  root := .node 0 { index := "orders", field := "status", operation := .union }
    [.node 1 { index := "orders", field := "region", operation := .difference,
               orContext := true } []]
  ids_nodup := by decide

/-- The difference of `mixedContextQuery` arrives on no list of the root, and no bitmap for it
changes the reduced result. -/
theorem mixedContextQuery_loses_difference :
    mixedContextQuery.provenance.reached.count 1 = 0 ∧
      ∀ (d : ℕ → Finset ℕ) (x : Finset ℕ),
        mixedContextQuery.reducedLists (Function.update d 1 x) =
          mixedContextQuery.reducedLists d := by
  refine ⟨by decide, fun d x => ?_⟩
  rfl

end QuantaStream.Shared
