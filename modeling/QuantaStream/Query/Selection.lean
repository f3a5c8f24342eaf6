import QuantaStream.Server.BitmapQuery

/-!
# The rows a query selects

This module relates the bitmaps the nodes compute to the rows of the final bitmap, one fragment
at a time.
-/

namespace QuantaStream.Query

open ParOr Shared Server List IntermediateResult PriorIntersect

variable {ι : Type}

/-- A query of unions, intersects and differences over one table, without sampling. -/
structure TableQuery (ι : Type) extends BitmapQuery ι where
  index_eq : ∀ o ∈ root.occurrences, o.fragment.index = toBitmapQuery.getRootIndex
  set_operation : ∀ o ∈ root.occurrences, o.fragment.operation = .union ∨
    o.fragment.operation = .intersect ∨ o.fragment.operation = .difference
  unsampled : ∀ o ∈ root.occurrences, o.fragment.samplePct = 0

/-- The fragments of the query with null checks rewritten, as the nodes reduce them. -/
def reducedOccurrences (q : BitmapQuery ι) : List (Occurrence ι) :=
  (rewriteNullChecks q).root.occurrences

/-! ## Selection by fragments -/

/-- The rows left after the union and the differences: `D` says which rows the bitmap of a
fragment holds, `E` which rows exist. -/
structure SelectsBase (os : List (Occurrence ι)) (D : Occurrence ι → ℕ → Prop) (E : ℕ → Prop)
    (row : ℕ) : Prop where
  base : (∃ o ∈ os, o.IsUnion ∧ D o row) ∨
    (¬ ∃ o ∈ os, o.IsUnion ∧ ∃ other, D o other) ∧ E row
  orDifference : (∃ o ∈ os, o.IsDifference false true) →
    ∃ o ∈ os, o.IsDifference false true ∧ ¬ D o row
  andDifference : ∀ o ∈ os, o.IsDifference false false → ¬ D o row

/-- The rows a final bitmap selects. -/
def Selects (os : List (Occurrence ι)) (D : Occurrence ι → ℕ → Prop) (E : ℕ → Prop)
    (row : ℕ) : Prop :=
  SelectsBase os D E row ∧ ∀ o ∈ os, o.IsIntersect → D o row

variable {os : List (Occurrence ι)} {row : ℕ}

/-- The parts of a selection in the order of a final bitmap. -/
theorem selects_iff_parts {D : Occurrence ι → ℕ → Prop} {E : ℕ → Prop} :
    Selects os D E row ↔
      ((∃ o ∈ os, o.IsUnion ∧ D o row) ∨ (¬ ∃ x, ∃ o ∈ os, o.IsUnion ∧ D o x) ∧ E row) ∧
        ((∃ o ∈ os, o.IsDifference false true) → ∃ o ∈ os, o.IsDifference false true ∧ ¬ D o row) ∧
        (∀ o ∈ os, o.IsDifference false false → ¬ D o row) ∧ ∀ o ∈ os, o.IsIntersect → D o row := by
  have hsome : (∃ x, ∃ o ∈ os, o.IsUnion ∧ D o x) ↔ ∃ o ∈ os, o.IsUnion ∧ ∃ x, D o x := by
    constructor
    · rintro ⟨x, o, ho, hu, hx⟩
      exact ⟨o, ho, hu, x, hx⟩
    · rintro ⟨o, ho, hu, x, hx⟩
      exact ⟨x, o, ho, hu, hx⟩
  rw [hsome]
  exact ⟨fun h => ⟨h.1.base, h.1.orDifference, h.1.andDifference, h.2⟩,
    fun ⟨h₁, h₂, h₃, h₄⟩ => ⟨⟨h₁, h₂, h₃⟩, h₄⟩⟩

/-- Two readings of the fragments that agree on unions and differences leave the same rows. -/
theorem SelectsBase.congr {D D' : Occurrence ι → ℕ → Prop} {E E' : ℕ → Prop}
    (hdata : ∀ o ∈ os, (o.IsUnion ∨ ∃ b, o.IsDifference false b) → ∀ r, D o r ↔ D' o r)
    (hexist : E row ↔ E' row) : SelectsBase os D E row ↔ SelectsBase os D' E' row := by
  have hbase : (∃ o ∈ os, o.IsUnion ∧ D o row) ↔ ∃ o ∈ os, o.IsUnion ∧ D' o row :=
    exists_congr fun o => and_congr_right fun ho => and_congr_right fun hu =>
      hdata o ho (.inl hu) row
  have hany : (∃ o ∈ os, o.IsUnion ∧ ∃ r, D o r) ↔ ∃ o ∈ os, o.IsUnion ∧ ∃ r, D' o r :=
    exists_congr fun o => and_congr_right fun ho => and_congr_right fun hu =>
      exists_congr fun r => hdata o ho (.inl hu) r
  have hor : (∃ o ∈ os, o.IsDifference false true ∧ ¬ D o row) ↔
      ∃ o ∈ os, o.IsDifference false true ∧ ¬ D' o row :=
    exists_congr fun o => and_congr_right fun ho => and_congr_right fun hd =>
      not_congr (hdata o ho (.inr ⟨true, hd⟩) row)
  have hand : (∀ o ∈ os, o.IsDifference false false → ¬ D o row) ↔
      ∀ o ∈ os, o.IsDifference false false → ¬ D' o row :=
    forall_congr' fun o => forall_congr' fun ho => forall_congr' fun hd =>
      not_congr (hdata o ho (.inr ⟨false, hd⟩) row)
  constructor
  · rintro ⟨h₁, h₂, h₃⟩
    rw [hbase, hany, hexist] at h₁
    exact ⟨h₁, fun h => hor.mp (h₂ h), hand.mp h₃⟩
  · rintro ⟨h₁, h₂, h₃⟩
    rw [← hbase, ← hany, ← hexist] at h₁
    exact ⟨h₁, fun h => hor.mpr (h₂ h), hand.mpr h₃⟩

/-- A fragment of the reduced query is the rewriting of a fragment of the query. -/
theorem mem_reducedOccurrences {q : BitmapQuery ι} {o' : Occurrence ι} :
    o' ∈ reducedOccurrences q ↔ ∃ o ∈ q.root.occurrences,
      o' = { o with fragment := rewriteNullCheck o.fragment } := by
  unfold reducedOccurrences rewriteNullChecks BitmapQuery.mapFragments
  rw [FragmentTree.occurrences_mapFragments _
    (fun _ v => by unfold rewriteNullCheck; split_ifs <;> rfl), mem_map]
  constructor <;>
  · rintro ⟨o, ho, rfl⟩
    exact ⟨o, ho, rfl⟩

variable {o : Occurrence ι}

theorem isIntersect_of_plain (h : Plain o) :
    ({ o with fragment := rewriteNullCheck o.fragment } : Occurrence ι).IsIntersect := by
  unfold Plain queryFragmentCanUsePriorIntersect at h
  simp only [Bool.and_eq_true, decide_eq_true_eq] at h
  refine ⟨h.1.1.1.1, ?_⟩
  simp [QueryFragment.sampled, h.2]

theorem not_plain_of_not_intersect
    (h : ({ o with fragment := rewriteNullCheck o.fragment } : Occurrence ι).IsUnion ∨
      ∃ b, ({ o with fragment := rewriteNullCheck o.fragment } : Occurrence ι).IsDifference
        false b) : ¬ Plain o := by
  intro hplain
  have hop := (isIntersect_of_plain hplain).1
  rcases h with hu | ⟨b, hd⟩
  · cases hu.1.symm.trans hop
  · rw [hd.1] at hop
    cases hop

variable {P : Occurrence ι → Prop} {d : ι → Bitmap}

theorem exists_mem_pick [DecidablePred P] {C : Bitmap → Prop} :
    (∃ x ∈ pick d P os, C x) ↔ ∃ o ∈ os, P o ∧ C (d o.id) := by
  simp [pick, and_assoc]

theorem forall_mem_pick [DecidablePred P] {C : Bitmap → Prop} :
    (∀ x ∈ pick d P os, C x) ↔ ∀ o ∈ os, P o → C (d o.id) := by
  simp only [pick, forall_mem_map, mem_filter, decide_eq_true_eq, and_imp]

theorem pick_ne_nil [DecidablePred P] : pick d P os ≠ [] ↔ ∃ o ∈ os, P o := by
  simp [pick]

/-- The base set: the union, or the existence set if the union is empty. -/
theorem mem_ite_empty {union existence : Bitmap} :
    row ∈ (if union = ∅ then existence else union) ↔
      row ∈ union ∨ (¬ ∃ x, x ∈ union) ∧ row ∈ existence := by
  by_cases h : union = ∅
  · simp [h]
  · have hne : ∃ x, x ∈ union := Finset.nonempty_iff_ne_empty.mpr h
    simp [h, hne]

/-- What the client reads from the result of a node. -/
theorem unmarshal_marshal (index : String) (ir : IntermediateResult Bitmap) :
    let r := ((new index).unmarshalAndAdd ir.marshalQueryResult).collapse
    r.union = ir.union ∧ r.intersects = ir.intersects ∧
      r.andDifferences = ir.andDifferences ∧ r.orDifferences = ir.orDifferences ∧
      r.existence = ir.marshalQueryResult.existences := by
  have hand : (ir.andDifferences ++ ir.orDifferences).take ir.andDifferences.length =
      ir.andDifferences := take_left
  have hor : (ir.andDifferences ++ ir.orDifferences).drop ir.andDifferences.length =
      ir.orDifferences := drop_left
  unfold unmarshalAndAdd
  generalize hex : ir.marshalQueryResult.existences = ex
  by_cases hu : ir.union = ∅ <;> by_cases he : ex = ∅ <;>
    simp [marshalQueryResult, hand, hor, hu, he,
      collapse, new, addExistence]

/-- A result with given bitmaps of the fragments, as the client holds it. -/
def viewOf (q : BitmapQuery ι) (d : ι → Bitmap) (existence : Option Bitmap) :
    IntermediateResult Bitmap :=
  ((new q.getRootIndex).unmarshalAndAdd (resultOf q d existence)).collapse

section

variable (q : BitmapQuery ι) (d : ι → Bitmap) (ge : Option Bitmap)

theorem viewOf_intersects :
    (viewOf q d ge).intersects = pick d Occurrence.IsIntersect (reducedOccurrences q) := by
  have hred := walkReduce_intersects d false (rewriteNullChecks q).root
  unfold viewOf resultOf
  rw [(unmarshal_marshal q.getRootIndex _).2.1]
  cases ge <;> exact hred

theorem viewOf_differences (orList : Bool) :
    (viewOf q d ge).differences orList =
      pick d (Occurrence.IsDifference false orList) (reducedOccurrences q) := by
  have hred := walkReduce_differences d orList false (rewriteNullChecks q).root
  unfold viewOf resultOf differences at *
  rw [(unmarshal_marshal q.getRootIndex _).2.2.1, (unmarshal_marshal q.getRootIndex _).2.2.2.1]
  cases ge <;> exact hred

theorem viewOf_union :
    (viewOf q d ge).union = parOr (pick d Occurrence.IsUnion (reducedOccurrences q)) := by
  have hred := walkReduce_union d false (rewriteNullChecks q).root
  unfold viewOf resultOf
  rw [(unmarshal_marshal q.getRootIndex _).1]
  cases ge <;> exact hred

theorem mem_viewOf_existence : row ∈ (viewOf q d ge).existence ↔ ∃ e, ge = some e ∧ row ∈ e := by
  have hexs := walkReduce_existences d false
  have hex := walkReduce_existence d false
  unfold viewOf resultOf
  rw [(unmarshal_marshal q.getRootIndex _).2.2.2.2]
  cases ge <;>
    simp [marshalQueryResult, addExistence, BitmapQuery.reduce, hexs, hex]

/-- The rows of the final bitmap of one result. -/
theorem mem_finalBitmap_viewOf (row : ℕ) :
    row ∈ finalBitmap (viewOf q d ge) ↔ Selects (reducedOccurrences q)
      (fun o r => r ∈ d o.id) (fun r => ∃ e, ge = some e ∧ r ∈ e) row := by
  have hand := viewOf_differences q d ge false
  have hor := viewOf_differences q d ge true
  simp only [differences, Bool.false_eq_true, if_false, if_true] at hand hor
  rw [mem_finalBitmap]
  simp only [hand, hor, viewOf_intersects, pick_ne_nil, exists_mem_pick, forall_mem_pick,
    mem_ite_empty, viewOf_union, mem_parOr, mem_viewOf_existence]
  rw [selects_iff_parts]

end

variable [DecidableEq ι]

/-- The result of a node as the client holds it. -/
def clientView (t : Table) (w : Window) (q : BitmapQuery ι)
    (existenceField : Option (String × Attribute)) (m : Node) : IntermediateResult Bitmap :=
  ((new q.getRootIndex).unmarshalAndAdd
    (nodeResult t m w q existenceField)).collapse

section

variable (t : Table) (w : Window) (q : BitmapQuery ι)
  (existenceField : Option (String × Attribute)) (m : Node)

theorem clientView_eq : clientView t w q existenceField m =
    viewOf q (nodeData t m w q) (nodeExistence m w existenceField) := rfl

theorem mem_finalBitmap_clientView (row : ℕ) :
    row ∈ finalBitmap (clientView t w q existenceField m) ↔
      Selects (reducedOccurrences q) (fun o r => r ∈ nodeData t m w q o.id)
        (fun r => ∃ e, nodeExistence m w existenceField = some e ∧ r ∈ e) row :=
  mem_finalBitmap_viewOf q _ _ row

end

/-! ## The main loop, one row at a time -/

section

variable {eval : QueryFragment → Option Bitmap → Bitmap} {s : PriorIntersect}
  {valued : QueryFragment → ℕ → Prop}

/-- The candidates are used as they are, and not for a null check. -/
theorem of_foundSetFor_eq_some {v : QueryFragment} {rows : Bitmap}
    (h : s.foundSetFor v = some rows) : s.rows = some rows ∧ v.nullCheck = false := by
  unfold foundSetFor at h
  grind [queryFragmentCanUseSeededFoundSet, queryFragmentCanUsePriorIntersect]

/-- Without a seed, a fragment that is no plain intersect is not narrowed. -/
theorem evalLoop_of_not_plain (hs : s.seeded = false) (hplain : ¬ Plain o)
    (hnd : (os.map Occurrence.id).Nodup) (d : ι → Bitmap) (ho : o ∈ os) :
    evalLoop eval os s d o.id = rawBitmap eval o := by
  induction os generalizing s d with
  | nil => cases ho
  | cons p os ih =>
    rw [map_cons, nodup_cons] at hnd
    rw [evalLoop]
    rcases mem_cons.mp ho with rfl | ho
    · have hnone : s.foundSetFor (rewriteNullCheck o.fragment) = none := by
        unfold foundSetFor
        grind [Plain]
      rw [evalLoop_of_notMem _ _ _ _ hnd.1, Function.update_self, hnone]
      rfl
    · refine ih ?_ hnd.2 _ ho
      unfold observe
      grind

variable (heval : ∀ v fs row, v.nullCheck = false →
  (row ∈ eval v (some fs) ∧ valued v row ↔ row ∈ eval v none ∧ row ∈ fs))

include heval

/-- The candidates add no row with a value to a fragment, and they take no row away that is a
candidate and in all plain intersects. -/
theorem mem_evalLoop (s : PriorIntersect) (row : ℕ) (hnd : (os.map Occurrence.id).Nodup)
    (d : ι → Bitmap) (ho : o ∈ os) :
    (row ∈ evalLoop eval os s d o.id → valued (rewriteNullCheck o.fragment) row →
        row ∈ rawBitmap eval o) ∧
      ((∀ rows ∈ s.rows, row ∈ rows) → InPlain eval os row → row ∈ rawBitmap eval o →
        row ∈ evalLoop eval os s d o.id) := by
  induction os generalizing s d with
  | nil => cases ho
  | cons p os ih =>
    rw [map_cons, nodup_cons] at hnd
    rw [evalLoop]
    have hin {v : QueryFragment} (hs : ∀ rows ∈ s.rows, row ∈ rows) (h : row ∈ eval v none) :
        row ∈ eval v (s.foundSetFor v) := by
      cases hfs : s.foundSetFor v with
      | none => exact h
      | some rows =>
        obtain ⟨hrows, hnull⟩ := of_foundSetFor_eq_some hfs
        exact ((heval v rows row hnull).mpr ⟨h, hs rows hrows⟩).1
    rcases mem_cons.mp ho with rfl | ho
    · rw [evalLoop_of_notMem _ _ _ _ hnd.1, Function.update_self]
      refine ⟨fun h hv => ?_, fun hs _ h => hin hs h⟩
      cases hfs : s.foundSetFor (rewriteNullCheck o.fragment) with
      | none => rwa [hfs] at h
      | some rows =>
        rw [hfs] at h
        exact ((heval _ rows row (of_foundSetFor_eq_some hfs).2).mp ⟨h, hv⟩).1
    refine ⟨(ih _ hnd.2 _ ho).1, fun hs hplain => (ih _ hnd.2 _ ho).2 ?_ fun p hp =>
      hplain p (mem_cons_of_mem _ hp)⟩
    unfold observe
    split_ifs with hcan
    · have hrow := hin hs (hplain p mem_cons_self hcan)
      cases hrows : s.rows with
      | none => simpa using hrow
      | some rows => simpa [hrow] using hs rows hrows
    · exact hs

end

section

variable (t : Table) (w : Window) (q : BitmapQuery ι) (m : Node)

/-- The bitmap of a fragment that is not narrowed. -/
theorem nodeData_of_not_plain (ho : o ∈ q.root.occurrences) (hplain : ¬ Plain o) (row : ℕ) :
    row ∈ nodeData t m w q o.id ↔ row ∈ rawBitmap (evalOn t m w) o := by
  rw [nodeData, evalLoop_of_not_plain rfl hplain q.ids_nodup _ ho]

/-- The row has a value in every field that a plain intersect compares. -/
def Valued (row : ℕ) : Prop :=
  ∀ o ∈ q.root.occurrences, Plain o → ValuedOn t m w (rewriteNullCheck o.fragment) row

/-- On one node the prior intersect candidates change nothing about the rows with values. -/
theorem selects_nodeData_iff (E : ℕ → Prop) (row : ℕ) :
    Selects (reducedOccurrences q) (fun o r => r ∈ nodeData t m w q o.id) E row ∧
        Valued t w q m row ↔
      Selects (reducedOccurrences q) (fun o r => r ∈ evalOn t m w o.fragment none) E row := by
  have hloop := fun (o : Occurrence ι) ho => mem_evalLoop (o := o) (mem_evalOn_some t m w)
    ⟨none, false⟩ row q.ids_nodup (fun _ => ∅) ho
  unfold Selects
  rw [and_assoc]
  refine and_congr (SelectsBase.congr ?_ Iff.rfl) ⟨?_, ?_⟩
  · intro o' ho' hkind r
    obtain ⟨o, ho, rfl⟩ := mem_reducedOccurrences.mp ho'
    exact nodeData_of_not_plain t w q m ho (not_plain_of_not_intersect hkind) r
  · rintro ⟨h, hvalued⟩ o' ho' hint
    have hrow := h o' ho' hint
    obtain ⟨o, ho, rfl⟩ := mem_reducedOccurrences.mp ho'
    by_cases hplain : Plain o
    · exact (hloop o ho).1 hrow (hvalued o ho hplain)
    · exact (nodeData_of_not_plain t w q m ho hplain row).mp hrow
  · intro h
    have hplain : InPlain (evalOn t m w) q.root.occurrences row := fun p hp hplain =>
      h _ (mem_reducedOccurrences.mpr ⟨p, hp, rfl⟩) (isIntersect_of_plain hplain)
    refine ⟨fun o' ho' hint => ?_, fun o ho hp => ?_⟩
    · obtain ⟨o, ho, rfl⟩ := mem_reducedOccurrences.mp ho'
      exact (hloop o ho).2 (by simp) hplain (h _ ho' hint)
    · exact ((mem_evalOn_some t m w _ {row} row hp.nullCheck).mpr ⟨hplain o ho hp, by simp⟩).2

end

end QuantaStream.Query
