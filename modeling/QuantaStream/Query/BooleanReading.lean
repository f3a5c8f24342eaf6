import QuantaStream.Lib.Outcome
import QuantaStream.Query.Selection

/-!
# The boolean reading of a query

A query given as a list of fragments has a boolean reading: the union of the union fragments,
or the existing rows if there is none, minus the difference fragments, inside the intersect
fragments.  This module compares the answer of the client with that reading.
-/

namespace QuantaStream.Query

open ParOr Shared Server List FragmentTree

variable {ι : Type}

/-! ## Queries built from a list of fragments -/

/-- `addFragment`, for a query whose root has no parent.  A root without an index is a
placeholder that takes over the predicate but keeps its own flags. -/
def addFragment : Option (FragmentTree ι) → ι × QueryFragment → Option (FragmentTree ι)
  | none, f => some (.node f.1 f.2 [])
  | some (.node id root children), f =>
    if root.index = "" then
      some (.node id { f.2 with
        samplePct := root.samplePct
        nullCheck := root.nullCheck
        negate := root.negate
        orContext := root.orContext } children)
    else some (.node id root (children ++ [.node f.1 f.2 []]))

/-- A list of unions, intersects, differences and null checks over one table, with distinct
identifiers and without sampling. -/
structure ListQuery (ι : Type) where
  first : ι × QueryFragment
  rest : List (ι × QueryFragment)
  index_ne : first.2.index ≠ ""
  index_eq : ∀ f ∈ rest, f.2.index = first.2.index
  ids_nodup : (rest.map Prod.fst ++ [first.1]).Nodup
  set_operation : ∀ f ∈ first :: rest, f.2.operation = .union ∨
    f.2.operation = .intersect ∨ f.2.operation = .difference
  unsampled : ∀ f ∈ first :: rest, f.2.samplePct = 0

open ListQuery

def leaf (f : ι × QueryFragment) : FragmentTree ι := .node f.1 f.2 []

theorem foldl_addFragment (id : ι) (root : QueryFragment) (hroot : root.index ≠ "")
    (rest : List (ι × QueryFragment)) (children : List (FragmentTree ι)) :
    rest.foldl addFragment (some (.node id root children)) =
      some (.node id root (children ++ rest.map leaf)) := by
  induction rest generalizing children with
  | nil => simp
  | cons f rest ih =>
    rw [foldl_cons, addFragment, if_neg hroot, ih]
    simp [leaf]

namespace ListQuery

/-- The tree of a list query: the first fragment with the others below it. -/
def root (q : ListQuery ι) : FragmentTree ι :=
  .node q.first.1 q.first.2 (q.rest.map leaf)

variable (q : ListQuery ι)

/-- The tree is the one that a client builds by adding the fragments one by one. -/
theorem ofFragments_eq : (q.first :: q.rest).foldl addFragment none = some q.root := by
  rw [foldl_cons, addFragment, foldl_addFragment _ _ q.index_ne]
  rfl

theorem occurrencesChildren_leaf (rest : List (ι × QueryFragment)) :
    occurrencesChildren (rest.map leaf) =
      rest.map (fun f => (⟨[], f.1, f.2⟩ : Occurrence ι)) := by
  induction rest with
  | nil => rfl
  | cons f rest ih =>
    rw [map_cons, occurrencesChildren, ih]
    rfl

/-- The nodes of the tree of a list. -/
theorem occurrences_root :
    q.root.occurrences =
      q.rest.map (fun f => (⟨[q.first.2.orContext], f.1, f.2⟩ : Occurrence ι)) ++
        [⟨[], q.first.1, q.first.2⟩] := by
  rw [root, occurrences, occurrencesChildren_leaf, map_map]
  rfl

def toBitmapQuery (q : ListQuery ι) : BitmapQuery ι where
  root := q.root
  ids_nodup := by
    have hids : q.root.ids = q.rest.map Prod.fst ++ [q.first.1] := by
      rw [ids, occurrences_root]
      simp [Function.comp_def]
    rw [hids]
    exact q.ids_nodup

def fragments (q : ListQuery ι) : List QueryFragment := (q.first :: q.rest).map Prod.snd

theorem mem_occurrences_root {q : ListQuery ι} {o : Occurrence ι} :
    o ∈ q.root.occurrences ↔
      (∃ f ∈ q.rest, o = ⟨[q.first.2.orContext], f.1, f.2⟩) ∨ o = ⟨[], q.first.1, q.first.2⟩ := by
  rw [occurrences_root, mem_append, mem_map, mem_singleton]
  simp only [eq_comm]

theorem exists_occurrence_iff (P : QueryFragment → Prop) :
    (∃ o ∈ q.root.occurrences, P o.fragment) ↔ ∃ f ∈ q.fragments, P f := by
  constructor
  · rintro ⟨o, ho, hP⟩
    rcases mem_occurrences_root.mp ho with ⟨f, hf, rfl⟩ | rfl
    · exact ⟨f.2, mem_map_of_mem (mem_cons_of_mem _ hf), hP⟩
    · exact ⟨q.first.2, mem_map_of_mem mem_cons_self, hP⟩
  · rintro ⟨f, hf, hP⟩
    rcases mem_map.mp hf with ⟨g, hg, rfl⟩
    rcases mem_cons.mp hg with rfl | hg
    · exact ⟨_, mem_occurrences_root.mpr (.inr rfl), hP⟩
    · exact ⟨_, mem_occurrences_root.mpr (.inl ⟨g, hg, rfl⟩), hP⟩

theorem forall_occurrence_iff (P : QueryFragment → Prop) :
    (∀ o ∈ q.root.occurrences, P o.fragment) ↔ ∀ f ∈ q.fragments, P f := by
  have h := not_congr (q.exists_occurrence_iff (fun f => ¬ P f))
  push Not at h
  exact h

/-- Below the root there is one level, so every ancestor list is the flag of the root. -/
theorem ancestors_cases {o : Occurrence ι} (ho : o ∈ q.root.occurrences) :
    o.ancestors = [q.first.2.orContext] ∨
      o.ancestors = [] ∧ o.fragment.orContext = q.first.2.orContext := by
  rcases mem_occurrences_root.mp ho with ⟨f, _, rfl⟩ | rfl
  · exact .inl rfl
  · exact .inr ⟨rfl, rfl⟩

end ListQuery

/-! ## The boolean reading -/

section

variable (t : Table) (m : Node) (w : Window)

/-- The set operation of a fragment, null checks read as such. -/
def readOperation (f : QueryFragment) : OpType := (rewriteNullCheck f).operation

/-- The stored rows a fragment denotes. -/
def readBitmap (f : QueryFragment) : Bitmap := evalOn t m w (rewriteNullCheck f) none

/-- The rows that exist in the table: those with a value in the first primary-key field. -/
def tableExistence : Bitmap :=
  match getPrimaryKeyInfo t with
  | .ok (pk :: _) => timeRangeExistence m w (fieldConfig t pk).timeQuantum pk
  | _ => ∅

variable (q : ListQuery ι)

/-- The base set of the reading: the union of the unions if there is one, even if it is empty,
otherwise the existing rows. -/
def ReadingBase (row : ℕ) : Prop :=
  (∃ f ∈ q.fragments, readOperation f = .union ∧ row ∈ readBitmap t m w f) ∨
    (∀ f ∈ q.fragments, readOperation f ≠ .union) ∧ row ∈ tableExistence t m w

/-- All unions of the query are empty. -/
def UnionsEmpty : Prop :=
  ¬ ∃ f ∈ q.fragments, readOperation f = .union ∧ ∃ r, r ∈ readBitmap t m w f

def InIntersects (row : ℕ) : Prop :=
  ∀ f ∈ q.fragments, readOperation f = .intersect → row ∈ readBitmap t m w f

/-- The boolean reading of a query. -/
structure Reading (row : ℕ) : Prop where
  base : ReadingBase t m w q row
  difference : ∀ f ∈ q.fragments, readOperation f = .difference → row ∉ readBitmap t m w f
  intersect : InIntersects t m w q row

end

/-! ## The client's answer -/

/-- The client flow of a query over one table when the node is in the same process. -/
def localQuery [DecidableEq ι] (t : Table) (m : Node) (w : Window) (q : BitmapQuery ι) :
    Except QueryError Bitmap := do
  let q := ensureBitmapQueryHasUnion q
  let result ← query t m w q
  return finalBitmap ((IntermediateResult.new q.getRootIndex).unmarshalAndAdd result).collapse

section

variable {β : Type} {t : Table} {load : String → Attribute → β}

/-- The fragment makes the node load the existence of the table. -/
def NeedsExistence (foundUnion : Bool) (o : Occurrence ι) : Prop :=
  (o.fragment.nullCheck && !isExistenceSeedFragment o.fragment || !foundUnion) = true

variable {os : List (Occurrence ι)} {foundUnion : Bool}

theorem existenceLoop_some {x : β}
    {r : Option β} (h : existenceLoop t load foundUnion os (some x) = .ok r) : r = some x := by
  induction os with
  | nil => simpa [existenceLoop, eq_comm] using h
  | cons o os ih =>
    rw [existenceLoop] at h
    split_ifs at h <;> exact ih h

/-- The existence is loaded exactly when some fragment needs it. -/
theorem existenceLoop_none {r : Option β} (h : existenceLoop t load foundUnion os none = .ok r) :
    (∃ o ∈ os, NeedsExistence foundUnion o) ∧ (∃ pk names a,
        getPrimaryKeyInfo t = .ok (pk :: names) ∧ getFieldConfig t pk = .ok a ∧
          r = some (load pk a)) ∨
      (∀ o ∈ os, ¬ NeedsExistence foundUnion o) ∧ r = none := by
  induction os with
  | nil =>
    simpa [existenceLoop, eq_comm] using h
  | cons o os ih =>
    rw [existenceLoop] at h
    split_ifs at h with _ _ hneed
    · refine .inl ⟨⟨o, mem_cons_self, hneed⟩, ?_⟩
      split at h <;> try contradiction
      next hpk =>
        split at h <;> try contradiction
        next ha => exact ⟨_, _, _, hpk, ha, existenceLoop_some h⟩
    · rcases ih h with ⟨⟨p, hp, hneed'⟩, hload⟩ | ⟨hnone, hr⟩
      · exact .inl ⟨⟨p, mem_cons_of_mem _ hp, hneed'⟩, hload⟩
      · exact .inr ⟨forall_mem_cons.mpr ⟨hneed, hnone⟩, hr⟩

end

section

variable (t : Table) (m : Node) (w : Window)

/-- The existence a node adds to its result. -/
theorem exists_nodeExistence_of_plan {q : BitmapQuery ι} {pk : Option (String × Attribute)}
    (hplan : queryPlan t q = .ok pk) (row : ℕ) :
    (∃ e, nodeExistence m w pk = some e ∧ row ∈ e) ↔
      (∃ o ∈ q.root.occurrences, NeedsExistence
        (q.root.occurrences.any (fun o => o.fragment.operation = .union)) o) ∧
        row ∈ tableExistence t m w := by
  have hloop : existenceLoop t (fun pk a => (pk, a))
      (q.root.occurrences.any (fun o => o.fragment.operation = .union))
      q.root.occurrences none = .ok pk := by
    obtain ⟨r, hloop, hplan⟩ := Outcome.bind_eq_ok.mp hplan
    obtain ⟨-, -, ⟨⟩⟩ := Outcome.bind_eq_ok.mp hplan
    exact hloop
  rcases existenceLoop_none hloop with ⟨hneed, name, names, a, hinfo, ha, rfl⟩ | ⟨hnone, rfl⟩
  · have hcfg : fieldConfig t name = a := by simp [fieldConfig, ha]
    simp [nodeExistence, tableExistence, hinfo, hcfg, hneed]
  · simpa [nodeExistence] using fun o ho hneed => absurd hneed (hnone o ho)

/-- The client's answer succeeds or fails as the plan of the promoted query does. -/
theorem localQuery_eq [DecidableEq ι] (q : BitmapQuery ι) :
    localQuery t m w q = (queryPlan t (ensureBitmapQueryHasUnion q)).map (fun pk =>
      finalBitmap (clientView t w (ensureBitmapQueryHasUnion q) pk m)) := by
  unfold localQuery
  simp only [query_eq]
  cases queryPlan t (ensureBitmapQueryHasUnion q) <;> rfl

end

/-! ## The rows of the client's answer -/

section

variable (t : Table) (m : Node) (w : Window) (q : ListQuery ι)

/-- The row is taken away by the differences as the client applies them.  Below a root in OR
context a row has to be in every difference; otherwise the differences in OR context of their
own are not applied. -/
def Subtracted (row : ℕ) : Prop :=
  if q.first.2.orContext then
    (∃ f ∈ q.fragments, readOperation f = .difference) ∧
      ∀ f ∈ q.fragments, readOperation f = .difference → row ∈ readBitmap t m w f
  else ∃ f ∈ q.fragments, readOperation f = .difference ∧ f.orContext = false ∧
    row ∈ readBitmap t m w f

theorem rewriteNullCheck_orContext (f : QueryFragment) :
    (rewriteNullCheck f).orContext = f.orContext := by
  unfold rewriteNullCheck
  split_ifs <;> rfl

theorem rewriteNullCheck_sampled (f : QueryFragment) :
    (rewriteNullCheck f).sampled = f.sampled := by
  unfold rewriteNullCheck
  split_ifs <;> rfl

namespace ListQuery

variable {o : Occurrence ι}

theorem sampled_eq_false (ho : o ∈ q.root.occurrences) : o.fragment.sampled = false := by
  have h : ∀ f ∈ q.fragments, f.sampled = false := by
    intro f hf
    rcases mem_map.mp hf with ⟨g, hg, rfl⟩
    simp [QueryFragment.sampled, q.unsampled g hg]
  exact (q.forall_occurrence_iff _).mpr h o ho

/-- A quantifier over reduced occurrences of one kind is one over fragments. -/
theorem exists_reduced_iff (K : Occurrence ι → Prop) (P : QueryFragment → Prop)
    (C : QueryFragment → Prop) (hK : ∀ o ∈ q.root.occurrences,
      K { o with fragment := rewriteNullCheck o.fragment } ↔ P o.fragment) :
    (∃ o ∈ reducedOccurrences q.toBitmapQuery, K o ∧ C o.fragment) ↔
      ∃ f ∈ q.fragments, P f ∧ C (rewriteNullCheck f) := by
  rw [← q.exists_occurrence_iff (fun f => P f ∧ C (rewriteNullCheck f))]
  constructor
  · rintro ⟨o', ho', hkind, hC⟩
    rcases mem_reducedOccurrences.mp ho' with ⟨o, ho, rfl⟩
    exact ⟨o, ho, (hK o ho).mp hkind, hC⟩
  · rintro ⟨o, ho, hkind, hC⟩
    exact ⟨_, mem_reducedOccurrences.mpr ⟨o, ho, rfl⟩, (hK o ho).mpr hkind, hC⟩

section

variable (ho : o ∈ q.root.occurrences)

include ho

theorem isUnion_iff : ({ o with fragment := rewriteNullCheck o.fragment } : Occurrence ι).IsUnion ↔
      readOperation o.fragment = .union := by
  simp [Occurrence.IsUnion, rewriteNullCheck_sampled, q.sampled_eq_false ho, readOperation]

theorem isIntersect_iff :
    ({ o with fragment := rewriteNullCheck o.fragment } : Occurrence ι).IsIntersect ↔
      readOperation o.fragment = .intersect := by
  simp [Occurrence.IsIntersect, rewriteNullCheck_sampled, q.sampled_eq_false ho, readOperation]

theorem isDifference_iff (orList : Bool) :
    ({ o with fragment := rewriteNullCheck o.fragment } : Occurrence ι).IsDifference
        false orList ↔
      readOperation o.fragment = .difference ∧ q.first.2.orContext = orList ∧
        (orList = false → o.fragment.orContext = false) := by
  rcases q.ancestors_cases ho with h | ⟨h, hor⟩
  · cases hR : q.first.2.orContext <;> cases orList <;>
      simp [Occurrence.IsDifference, Occurrence.startsOr, h, hR, readOperation,
        rewriteNullCheck_orContext]
  · cases orList <;> simp [Occurrence.IsDifference, Occurrence.startsOr, h, readOperation,
      rewriteNullCheck_orContext, hor]

end

/-- The difference lists take away the subtracted rows. -/
theorem not_subtracted_iff (row : ℕ) :
    ¬ Subtracted t m w q row ↔
      ((∃ o ∈ reducedOccurrences q.toBitmapQuery, o.IsDifference false true) →
        ∃ o ∈ reducedOccurrences q.toBitmapQuery, o.IsDifference false true ∧
          row ∉ evalOn t m w o.fragment none) ∧
      ∀ o ∈ reducedOccurrences q.toBitmapQuery, o.IsDifference false false →
        row ∉ evalOn t m w o.fragment none := by
  have hdiff (orList : Bool) (C : QueryFragment → Prop) :=
    q.exists_reduced_iff (Occurrence.IsDifference false orList)
      (fun f => readOperation f = .difference ∧ q.first.2.orContext = orList ∧
        (orList = false → f.orContext = false)) C (fun _ ho => q.isDifference_iff ho orList)
  have hany := hdiff true fun _ => True
  simp only [and_true] at hany
  have hand := not_congr (hdiff false (row ∈ evalOn t m w · none))
  push Not at hand
  rw [hany, hdiff true (row ∉ evalOn t m w · none), hand, Subtracted]
  cases q.first.2.orContext <;> simp [readBitmap]

/-- What the reduction selects, by the fragments of the list. -/
theorem selects_iff (E : ℕ → Prop) (row : ℕ) :
    Selects (reducedOccurrences q.toBitmapQuery)
        (fun o r => r ∈ evalOn t m w o.fragment none) E row ↔
      ((∃ f ∈ q.fragments, readOperation f = .union ∧ row ∈ readBitmap t m w f) ∨
        UnionsEmpty t m w q ∧ E row) ∧ ¬ Subtracted t m w q row ∧ InIntersects t m w q row := by
  have hunion := q.exists_reduced_iff Occurrence.IsUnion (fun f => readOperation f = .union)
    (fun f => row ∈ evalOn t m w f none) (fun _ => q.isUnion_iff)
  have hsome := q.exists_reduced_iff Occurrence.IsUnion (fun f => readOperation f = .union)
    (fun f => ∃ r, r ∈ evalOn t m w f none) (fun _ => q.isUnion_iff)
  have hint := not_congr (q.exists_reduced_iff Occurrence.IsIntersect
    (fun f => readOperation f = .intersect)
    (fun f => row ∉ evalOn t m w f none) (fun _ => q.isIntersect_iff))
  push Not at hint
  rw [not_subtracted_iff, InIntersects, UnionsEmpty]
  simp only [readBitmap]
  rw [← hunion, ← hsome, ← hint]
  exact ⟨fun h => ⟨h.1.base, ⟨h.1.orDifference, h.1.andDifference⟩, h.2⟩,
    fun h => ⟨⟨h.1, h.2.1.1, h.2.1.2⟩, h.2.2⟩⟩

end ListQuery

end

/-! ## Promoting an intersect to a union -/

namespace ListQuery

variable (q : ListQuery ι)

/-- The query is rewritten before it is sent: it has an intersect, but neither a union nor a
null check. -/
def Promoted : Prop :=
  (∀ f ∈ q.fragments, f.operation ≠ .union ∧ f.nullCheck = false) ∧
    ∃ f ∈ q.fragments, f.operation = .intersect

/-- Some null check makes the nodes load the existence of the table. -/
def NullCheckLoads : Prop :=
  ∃ f ∈ q.fragments, f.nullCheck = true ∧ isExistenceSeedFragment f = false

/-- The nodes load the existence if there is no union or some null check asks for it. -/
theorem exists_needsExistence_iff :
    (∃ o ∈ q.root.occurrences, NeedsExistence
        (q.root.occurrences.any (fun o => o.fragment.operation = .union)) o) ↔
      (∀ f ∈ q.fragments, f.operation ≠ .union) ∨ q.NullCheckLoads := by
  have hany : q.root.occurrences.any (fun o => o.fragment.operation = .union) = true ↔
      ∃ f ∈ q.fragments, f.operation = .union := by
    rw [← q.exists_occurrence_iff]
    simp
  have hroot : ∃ f, f ∈ q.fragments := ⟨q.first.2, mem_map_of_mem mem_cons_self⟩
  have hneed := fun b => q.exists_occurrence_iff
    (fun f => (f.nullCheck && !isExistenceSeedFragment f || !b) = true)
  simp only [NeedsExistence]
  rw [hneed]
  cases hb : q.root.occurrences.any (fun o => o.fragment.operation = .union) with
  | true =>
    rcases hany.mp hb with ⟨f, hf, hop⟩
    have hno : ¬ ∀ f ∈ q.fragments, f.operation ≠ .union := fun h => h f hf hop
    simp [hno, NullCheckLoads]
  | false =>
    have hno : ∀ f ∈ q.fragments, f.operation ≠ .union := by
      intro f hf hop
      rw [hany.mpr ⟨f, hf, hop⟩] at hb
      cases hb
    simpa [hroot] using .inl hno

/-- A union the rewriting of null checks removes is a null check that loads the existence. -/
theorem no_union_or_nullCheckLoads_iff :
    (∀ f ∈ q.fragments, f.operation ≠ .union) ∨ q.NullCheckLoads ↔
      (∀ f ∈ q.fragments, readOperation f ≠ .union) ∨ q.NullCheckLoads := by
  by_cases hload : q.NullCheckLoads
  · simp [hload]
  have hop : ∀ f ∈ q.fragments, f.operation = .union ↔ readOperation f = .union := by
    intro f hf
    by_cases hnull : f.nullCheck = true
    · have hseed : isExistenceSeedFragment f = true := by
        by_contra hseed
        exact hload ⟨f, hf, hnull, by simpa using hseed⟩
      have h := hseed
      simp only [isExistenceSeedFragment, Bool.and_eq_true, decide_eq_true_eq] at h
      simp [readOperation, rewriteNullCheck, hnull, hseed, h.2]
    · simp [readOperation, rewriteNullCheck, hnull]
  simp only [hload, or_false]
  exact forall_congr' fun f => forall_congr' fun hf => not_congr (hop f hf)

variable {q : ListQuery ι}

theorem readOperation_of_promoted (hq : q.Promoted) {f : ι × QueryFragment}
    (hf : f ∈ q.first :: q.rest) : readOperation f.2 = f.2.operation := by
  have hnull := (hq.1 f.2 (mem_map_of_mem hf)).2
  simp [readOperation, rewriteNullCheck, hnull]

theorem any_union_or_nullCheck (q : ListQuery ι) :
    q.root.occurrences.any (fun o => o.fragment.operation = .union || o.fragment.nullCheck) =
        true ↔
      ¬ ∀ f ∈ q.fragments, f.operation ≠ .union ∧ f.nullCheck = false := by
  rw [← q.forall_occurrence_iff (fun f => f.operation ≠ .union ∧ f.nullCheck = false)]
  simp only [any_eq_true, Bool.or_eq_true, decide_eq_true_eq]
  push Not
  refine exists_congr fun o => and_congr_right fun _ => ?_
  cases o.fragment.nullCheck <;> by_cases h : o.fragment.operation = .union <;> simp [h]

theorem exists_fragments_iff (q : ListQuery ι) (P : QueryFragment → Prop) :
    (∃ f ∈ q.fragments, P f) ↔ ∃ f ∈ q.first :: q.rest, P f.2 := by
  unfold fragments
  simp only [mem_map, exists_exists_and_eq_and]

theorem eq_of_id_eq (q : ListQuery ι) {f g : ι × QueryFragment} (hf : f ∈ q.first :: q.rest)
    (hg : g ∈ q.first :: q.rest) (hid : f.1 = g.1) : f = g := by
  have hnodup : ((q.first :: q.rest).map Prod.fst).Nodup := by
    refine (perm_append_singleton q.first.1 (q.rest.map Prod.fst)).nodup_iff.mp ?_
    exact q.ids_nodup
  exact inj_on_of_nodup_map hnodup hf hg hid

variable [DecidableEq ι]

/-- Turn the fragment with an identifier into a union. -/
def promoteFragment (id : ι) (f : ι × QueryFragment) : ι × QueryFragment :=
  (f.1, { f.2 with operation := if f.1 = id then .union else f.2.operation })

/-- The list query with one fragment turned into a union. -/
def promote (q : ListQuery ι) (id : ι) : ListQuery ι where
  first := promoteFragment id q.first
  rest := q.rest.map (promoteFragment id)
  index_ne := q.index_ne
  index_eq f hf := by
    rcases mem_map.mp hf with ⟨g, hg, rfl⟩
    exact q.index_eq g hg
  ids_nodup := by
    have hids : (q.rest.map (promoteFragment id)).map Prod.fst = q.rest.map Prod.fst := by
      simp [promoteFragment, Function.comp_def]
    rw [hids]
    exact q.ids_nodup
  set_operation f hf := by
    rw [← map_cons] at hf
    rcases mem_map.mp hf with ⟨g, hg, rfl⟩
    by_cases hid : g.1 = id
    · simp [promoteFragment, hid]
    · simpa [promoteFragment, hid] using q.set_operation g hg
  unsampled f hf := by
    rw [← map_cons] at hf
    rcases mem_map.mp hf with ⟨g, hg, rfl⟩
    exact q.unsampled g hg

theorem mapFragmentsChildren_leaf (id : ι) (rest : List (ι × QueryFragment)) :
    mapFragmentsChildren (fun i n => { n with operation := if i = id then .union else n.operation })
        (rest.map leaf) = (rest.map (promoteFragment id)).map leaf := by
  induction rest with
  | nil => rfl
  | cons f rest ih =>
    rw [map_cons, mapFragmentsChildren, ih]
    rfl

theorem ensure_of_not_promoted (h : ¬ q.Promoted) :
    ensureBitmapQueryHasUnion q.toBitmapQuery = q.toBitmapQuery := by
  unfold ensureBitmapQueryHasUnion
  split_ifs with hany
  · rfl
  cases hfind : q.toBitmapQuery.root.occurrences.find?
    (fun o => o.fragment.operation = .intersect) with
  | none => rfl
  | some o =>
    have hplain : ∀ f ∈ q.fragments, f.operation ≠ .union ∧ f.nullCheck = false := by
      by_contra hno
      exact hany ((any_union_or_nullCheck q).mpr hno)
    have hop : o.fragment.operation = .intersect := by
      simpa using find?_some hfind
    refine absurd ⟨hplain, ?_⟩ h
    exact (q.exists_occurrence_iff _).mp ⟨o, mem_of_find?_eq_some hfind, hop⟩

/-- A promoted query is sent with one of its intersects turned into a union. -/
theorem ensure_of_promoted (h : q.Promoted) :
    ∃ f ∈ q.first :: q.rest, f.2.operation = .intersect ∧
      ensureBitmapQueryHasUnion q.toBitmapQuery = (q.promote f.1).toBitmapQuery := by
  unfold ensureBitmapQueryHasUnion
  have hany : ¬ q.toBitmapQuery.root.occurrences.any
      (fun o => o.fragment.operation = .union || o.fragment.nullCheck) = true := by
    intro hany
    exact (any_union_or_nullCheck q).mp hany h.1
  rw [if_neg hany]
  cases hfind : q.toBitmapQuery.root.occurrences.find?
      (fun o => o.fragment.operation = .intersect) with
  | none =>
    rcases (q.exists_occurrence_iff _).mpr h.2 with ⟨o, ho, hop⟩
    have hno := find?_eq_none.mp hfind o ho
    simp [hop] at hno
  | some o =>
    have hop : o.fragment.operation = .intersect := by
      simpa using find?_some hfind
    have hquery : q.toBitmapQuery.mapFragments
        (fun i n => { n with operation := if i = o.id then .union else n.operation })
        (fun _ _ => rfl) = (q.promote o.id).toBitmapQuery := by
      simp only [BitmapQuery.mapFragments, toBitmapQuery, root, mapFragments, mapFragmentsChildren_leaf]
      rfl
    rcases mem_occurrences_root.mp (mem_of_find?_eq_some hfind) with ⟨f, hf, rfl⟩ | rfl
    · exact ⟨f, mem_cons_of_mem _ hf, hop, hquery⟩
    · exact ⟨q.first, mem_cons_self, hop, hquery⟩

theorem exists_promote_iff (q : ListQuery ι) (id : ι) (P : QueryFragment → Prop) :
    (∃ f ∈ (q.promote id).fragments, P f) ↔
      ∃ f ∈ q.first :: q.rest, P (promoteFragment id f).2 := by
  have hfragments : (q.promote id).fragments =
      ((q.first :: q.rest).map (promoteFragment id)).map Prod.snd := rfl
  rw [hfragments]
  simp

section

variable (t : Table) (m : Node) (w : Window) {q : ListQuery ι} {f₀ : ι × QueryFragment}

section

variable (hq : q.Promoted) (id : ι) {f : ι × QueryFragment} (hf : f ∈ q.first :: q.rest)

include hq hf

theorem readOperation_promote :
    readOperation (promoteFragment id f).2 =
      if f.1 = id then .union else readOperation f.2 := by
  have hnull := (hq.1 f.2 (mem_map_of_mem hf)).2
  simp [readOperation, rewriteNullCheck, promoteFragment, hnull]

theorem readBitmap_promote : readBitmap t m w (promoteFragment id f).2 = readBitmap t m w f.2 := by
  have hnull := (hq.1 f.2 (mem_map_of_mem hf)).2
  have hnull' : (promoteFragment id f).2.nullCheck = false := hnull
  rw [readBitmap, readBitmap, rewriteNullCheck, rewriteNullCheck, hnull, hnull']
  rfl

end

section

variable (hq : q.Promoted) (hf₀ : f₀ ∈ q.first :: q.rest)

include hq hf₀

theorem exists_union_promote_iff (row : ℕ) :
    (∃ f ∈ (q.promote f₀.1).fragments, readOperation f = .union ∧ row ∈ readBitmap t m w f) ↔
      row ∈ readBitmap t m w f₀.2 := by
  rw [exists_promote_iff]
  constructor
  · rintro ⟨f, hf, hop, hrow⟩
    rw [readBitmap_promote t m w hq _ hf] at hrow
    rw [readOperation_promote hq _ hf, readOperation_of_promoted hq hf] at hop
    by_cases hid : f.1 = f₀.1
    · rwa [← q.eq_of_id_eq hf hf₀ hid]
    · rw [if_neg hid] at hop
      exact absurd hop (hq.1 f.2 (mem_map_of_mem hf)).1
  · intro hrow
    refine ⟨f₀, hf₀, ?_, ?_⟩
    · rw [readOperation_promote hq _ hf₀, if_pos rfl]
    · rwa [readBitmap_promote t m w hq _ hf₀]

/-- A kind of fragment the promoted one is not of keeps its fragments. -/
theorem exists_kind_promote_iff
    (op : OpType) (hop : op ≠ .union) (hop₀ : f₀.2.operation ≠ op) (C : Bool → Bitmap → Prop) :
    (∃ f ∈ (q.promote f₀.1).fragments, readOperation f = op ∧
        C f.orContext (readBitmap t m w f)) ↔
      ∃ f ∈ q.fragments, readOperation f = op ∧ C f.orContext (readBitmap t m w f) := by
  rw [exists_promote_iff, exists_fragments_iff]
  refine exists_congr fun f => and_congr_right fun hf => ?_
  rw [readBitmap_promote t m w hq _ hf, readOperation_promote hq _ hf]
  refine and_congr ?_ Iff.rfl
  by_cases hid : f.1 = f₀.1
  · have hne : readOperation f.2 ≠ op := by
      rw [readOperation_of_promoted hq hf, q.eq_of_id_eq hf hf₀ hid]
      exact hop₀
    simp [hid, hne, hop.symm]
  · simp [hid]

theorem subtracted_promote (hop₀ : f₀.2.operation = .intersect) (row : ℕ) :
    Subtracted t m w (q.promote f₀.1) row ↔ Subtracted t m w q row := by
  have hkind := exists_kind_promote_iff t m w hq hf₀ .difference (by decide)
    (by rw [hop₀]; decide)
  have hany := hkind (fun _ _ => True)
  have hout := not_congr (hkind (fun _ bm => row ∉ bm))
  have hand := hkind (fun orContext bm => orContext = false ∧ row ∈ bm)
  push Not at hout
  simp only [and_true] at hany
  have hfirst : (q.promote f₀.1).first.2.orContext = q.first.2.orContext := rfl
  rw [Subtracted, Subtracted, hfirst, hany, hout, hand]

theorem inIntersects_promote (hop₀ : f₀.2.operation = .intersect) (row : ℕ) :
    row ∈ readBitmap t m w f₀.2 ∧ InIntersects t m w (q.promote f₀.1) row ↔
      InIntersects t m w q row := by
  have hforall : InIntersects t m w (q.promote f₀.1) row ↔ ∀ f ∈ q.first :: q.rest,
      readOperation (promoteFragment f₀.1 f).2 = .intersect →
        row ∈ readBitmap t m w (promoteFragment f₀.1 f).2 := by
    have h := not_congr (q.exists_promote_iff f₀.1
      (fun f => readOperation f = .intersect ∧ row ∉ readBitmap t m w f))
    push Not at h
    exact h
  rw [hforall]
  constructor
  · intro h f hf hop
    rcases mem_map.mp hf with ⟨g, hg, rfl⟩
    by_cases hid : g.1 = f₀.1
    · rw [q.eq_of_id_eq hg hf₀ hid]
      exact h.1
    · have hrow := h.2 g hg
      rw [readOperation_promote hq _ hg, if_neg hid, readBitmap_promote t m w hq _ hg] at hrow
      exact hrow hop
  · intro h
    refine ⟨h f₀.2 (mem_map_of_mem hf₀) ?_, fun f hf hop => ?_⟩
    · rw [readOperation_of_promoted hq hf₀, hop₀]
    · rw [readOperation_promote hq _ hf] at hop
      split_ifs at hop with hid
      rw [readBitmap_promote t m w hq _ hf]
      exact h f.2 (mem_map_of_mem hf) hop

end

end

end ListQuery

section

variable [DecidableEq ι] (t : Table) (m : Node) (w : Window) (q : ListQuery ι)

/-- The base set of the client's answer. -/
def AnswerBase (row : ℕ) : Prop :=
  q.Promoted ∨ ¬ q.Promoted ∧
    ((∃ f ∈ q.fragments, readOperation f = .union ∧ row ∈ readBitmap t m w f) ∨
      UnionsEmpty t m w q ∧ ((∀ f ∈ q.fragments, readOperation f ≠ .union) ∨ q.NullCheckLoads) ∧
        row ∈ tableExistence t m w)

/-- The row is in the base set of the answer and passes the differences and intersects. -/
@[mk_iff]
structure InAnswer (row : ℕ) : Prop where
  base : AnswerBase t m w q row
  notSubtracted : ¬ Subtracted t m w q row
  intersects : InIntersects t m w q row

variable {q} {pk : Option (String × Attribute)}
  (hplan : queryPlan t (ensureBitmapQueryHasUnion q.toBitmapQuery) = .ok pk)

include hplan

/-- The rows of a promoted query: no node loads the existence of the table. -/
theorem mem_finalBitmap_of_promoted (hq : q.Promoted) (row : ℕ) :
    row ∈ finalBitmap (clientView t w (ensureBitmapQueryHasUnion q.toBitmapQuery) pk m) ∧
        Valued t w (ensureBitmapQueryHasUnion q.toBitmapQuery) m row ↔
      ¬ Subtracted t m w q row ∧ InIntersects t m w q row := by
  rcases ensure_of_promoted hq with ⟨f₀, hf₀, hop₀, hensure⟩
  rw [hensure] at hplan ⊢
  have hexist : ∀ r, ¬ ∃ e, nodeExistence m w pk = some e ∧ r ∈ e := by
    intro r h
    have hload := ((exists_nodeExistence_of_plan t m w hplan r).mp h).1
    rcases (exists_needsExistence_iff _).mp hload with hno | hnull
    · refine absurd ((q.exists_promote_iff f₀.1 (fun f => f.operation = .union)).mpr
        ⟨f₀, hf₀, by simp [promoteFragment]⟩) ?_
      simpa using hno
    · rcases (q.exists_promote_iff f₀.1 _).mp hnull with ⟨f, hf, hnull, _⟩
      have hf' := (hq.1 f.2 (mem_map_of_mem hf)).2
      exact Bool.false_ne_true (hf'.symm.trans hnull)
  rw [mem_finalBitmap_clientView, selects_nodeData_iff, selects_iff,
    exists_union_promote_iff t m w hq hf₀,
    subtracted_promote t m w hq hf₀ hop₀,
    ← inIntersects_promote t m w hq hf₀ hop₀]
  simp only [hexist, and_false, or_false]
  tauto

/-- The rows of the client's answer that have a value in every field it compares. -/
theorem mem_localQuery (row : ℕ) :
    row ∈ finalBitmap (clientView t w (ensureBitmapQueryHasUnion q.toBitmapQuery) pk m) ∧
        Valued t w (ensureBitmapQueryHasUnion q.toBitmapQuery) m row ↔
      InAnswer t m w q row := by
  rw [inAnswer_iff]
  by_cases hq : q.Promoted
  · rw [mem_finalBitmap_of_promoted t m w hplan hq]
    simp [AnswerBase, hq]
  rw [ensure_of_not_promoted hq] at hplan ⊢
  simp only [AnswerBase, hq, false_or, not_false_eq_true, true_and]
  rw [mem_finalBitmap_clientView, selects_nodeData_iff, selects_iff,
    ← q.no_union_or_nullCheckLoads_iff, ← q.exists_needsExistence_iff]
  simp only [exists_nodeExistence_of_plan t m w hplan]
  exact Iff.rfl

end

/-! ## Answer and reading -/

/-- A list query over the configured fields of a table with a primary key. -/
structure ConfiguredQuery (t : Table) (ι : Type) extends ListQuery ι where
  field_ne : ∀ f ∈ first :: rest, f.2.field ≠ ""
  configured : ∀ f ∈ first :: rest, (t.getAttribute f.2.field).isSome
  primaryKey_ne : t.timeQuantumField.toList ++ t.primaryKey ≠ []
  primaryKey_configured : ∀ n ∈ t.timeQuantumField.toList ++ t.primaryKey,
    (t.getAttribute n).isSome

variable {t : Table}

theorem getFieldConfig_ok {field : String} (h : (t.getAttribute field).isSome) :
    ∃ a, getFieldConfig t field = .ok a := by
  rcases Option.isSome_iff_exists.mp h with ⟨a, ha⟩
  simp [getFieldConfig, ha]

section

variable {os : List (Occurrence ι)} (hos : ∀ o ∈ os, o.fragment.index ≠ "" ∧
  o.fragment.field ≠ "" ∧ (t.getAttribute o.fragment.field).isSome)

include hos

/-- With a configured primary key the first loop only fails on incomplete fragments. -/
theorem existenceLoop_ok {β : Type} {load : String → Attribute → β} {foundUnion : Bool}
    {pk : String} {names : List String} {a : Attribute}
    (hpk : getPrimaryKeyInfo t = .ok (pk :: names)) (ha : getFieldConfig t pk = .ok a)
    (acc : Option β) : ∃ r, existenceLoop t load foundUnion os acc = .ok r := by
  induction os generalizing acc with
  | nil => exact ⟨acc, rfl⟩
  | cons o os ih =>
    have ho := hos o mem_cons_self
    have hrest := ih (fun p hp => hos p (mem_cons_of_mem _ hp))
    simp only [existenceLoop, if_neg ho.1, if_neg ho.2.1]
    split_ifs
    · cases acc with
      | none => simpa only [hpk, ha] using hrest _
      | some ge => exact hrest _
    · exact hrest _

theorem checkFields_ok : checkFields t os = .ok () := by
  induction os with
  | nil => rfl
  | cons o os ih =>
    have hfield : (rewriteNullCheck o.fragment).field = o.fragment.field := by
      unfold rewriteNullCheck
      split_ifs <;> rfl
    rcases Option.isSome_iff_exists.mp (hos o mem_cons_self).2.2 with ⟨a, ha⟩
    have hrest := ih (fun p hp => hos p (mem_cons_of_mem _ hp))
    simp [checkFields, hfield, getFieldConfig, ha, hrest, bind, Except.bind]

end

/-- A query over known fields is planned. -/
theorem queryPlan_ok {q : BitmapQuery ι} (hpk : t.timeQuantumField.toList ++ t.primaryKey ≠ [])
    (hconf : ∀ n ∈ t.timeQuantumField.toList ++ t.primaryKey, (t.getAttribute n).isSome)
    (hos : ∀ o ∈ q.root.occurrences, o.fragment.index ≠ "" ∧ o.fragment.field ≠ "" ∧
      (t.getAttribute o.fragment.field).isSome) :
    ∃ pk, queryPlan t q = .ok pk := by
  rcases exists_cons_of_ne_nil hpk with ⟨pk, names, hnames⟩
  have hinfo : getPrimaryKeyInfo t = .ok (pk :: names) := by
    have hnone : (t.timeQuantumField.toList ++ t.primaryKey).find?
        (fun n => (t.getAttribute n).isNone) = none := by
      rw [find?_eq_none]
      intro n hn
      simp [Option.isSome_iff_ne_none.mp (hconf n hn)]
    simp only [getPrimaryKeyInfo, hnone]
    rw [hnames]
  rcases getFieldConfig_ok (hconf pk (hnames ▸ mem_cons_self)) with ⟨a, ha⟩
  obtain ⟨r, hr⟩ : ∃ r, existenceLoop t (fun pk a => (pk, a))
      (q.root.occurrences.any (fun o => o.fragment.operation = .union)) q.root.occurrences none =
        .ok r := existenceLoop_ok hos hinfo ha none
  simp [queryPlan, hr, checkFields_ok hos, bind, Except.bind, pure, Except.pure]

section

variable (t : Table) (m : Node) (w : Window)

/-- Rewriting a query for sending keeps the index and the field of every fragment. -/
theorem exists_of_mem_ensure [DecidableEq ι] {q : BitmapQuery ι} {o' : Occurrence ι}
    (h : o' ∈ (ensureBitmapQueryHasUnion q).root.occurrences) : ∃ o ∈ q.root.occurrences,
      o'.fragment.index = o.fragment.index ∧ o'.fragment.field = o.fragment.field := by
  unfold ensureBitmapQueryHasUnion at h
  split at h
  · exact ⟨o', h, rfl, rfl⟩
  split at h
  · exact ⟨o', h, rfl, rfl⟩
  · simp only [BitmapQuery.mapFragments] at h
    rw [occurrences_mapFragments] at h
    · obtain ⟨o, ho, rfl⟩ := mem_map.mp h
      exact ⟨o, ho, rfl, rfl⟩
    · exact fun _ _ => rfl

/-- Rewriting the query for sending keeps it complete and configured. -/
theorem queryPlan_ensure_ok [DecidableEq ι] (q : ConfiguredQuery t ι) :
    ∃ pk, queryPlan t (ensureBitmapQueryHasUnion q.toBitmapQuery) = .ok pk := by
  refine queryPlan_ok q.primaryKey_ne q.primaryKey_configured fun o' ho' => ?_
  obtain ⟨o, ho, hi, hfield⟩ := exists_of_mem_ensure ho'
  rw [hi, hfield]
  refine (q.forall_occurrence_iff fun f =>
    f.index ≠ "" ∧ f.field ≠ "" ∧ (t.getAttribute f.field).isSome = true).mpr ?_ o ho
  intro f hf
  obtain ⟨g, hg, rfl⟩ := mem_map.mp hf
  refine ⟨?_, q.field_ne g hg, q.configured g hg⟩
  rcases mem_cons.mp hg with rfl | hg
  · exact q.index_ne
  · exact q.index_eq g hg ▸ q.index_ne

variable (q : ListQuery ι)

/-- The conditions under which the client's answer is the boolean reading. -/
structure ReadingGuards : Prop where
  /-- When the unions are all empty and a null check loads the existence, nothing is left. -/
  noFallback : (∃ f ∈ q.fragments, readOperation f = .union) →
    UnionsEmpty t m w q → q.NullCheckLoads → ∀ row ∈ tableExistence t m w, InIntersects t m w q row →
      Subtracted t m w q row
  /-- A promoted query only finds existing rows. -/
  promotedExist : q.Promoted → ∀ row, InIntersects t m w q row →
    ¬ Subtracted t m w q row → row ∈ tableExistence t m w
  /-- A row of a difference is taken away. -/
  differencesSubtracted : ∀ row, ReadingBase t m w q row → InIntersects t m w q row →
    (∃ f ∈ q.fragments, readOperation f = .difference ∧ row ∈ readBitmap t m w f) →
      Subtracted t m w q row

variable {q : ListQuery ι}

theorem not_union_of_promoted (hq : q.Promoted) : ∀ f ∈ q.fragments, readOperation f ≠ .union := by
  intro f hf
  rcases mem_map.mp hf with ⟨g, hg, rfl⟩
  rw [readOperation_of_promoted hq hg]
  exact (hq.1 g.2 hf).1

variable {row : ℕ}

/-- The answer starts from at least the rows the reading starts from. -/
theorem ReadingBase.answerBase (h : ReadingBase t m w q row) : AnswerBase t m w q row := by
  by_cases hq : q.Promoted
  · exact .inl hq
  refine .inr ⟨hq, ?_⟩
  rcases h with hunion | ⟨hno, hexist⟩
  · exact .inl hunion
  · refine .inr ⟨?_, .inl hno, hexist⟩
    rintro ⟨f, hf, hop, _⟩
    exact hno f hf hop

theorem Subtracted.exists_difference (h : Subtracted t m w q row) :
    ∃ f ∈ q.fragments, readOperation f = .difference ∧ row ∈ readBitmap t m w f := by
  unfold Subtracted at h
  split_ifs at h
  · rcases h with ⟨⟨f, hf, hop⟩, hall⟩
    exact ⟨f, hf, hop, hall f hf hop⟩
  · rcases h with ⟨f, hf, hop, _, hrow⟩
    exact ⟨f, hf, hop, hrow⟩

/-- Under the guards the answer starts from the rows of the reading. -/
theorem ReadingGuards.readingBase (hguards : ReadingGuards t m w q) (h : InAnswer t m w q row) :
    ReadingBase t m w q row := by
  obtain ⟨hbase, hsub, hint⟩ := h
  rcases hbase with hq | ⟨_, hunion | ⟨hempty, hload, hexist⟩⟩
  · exact .inr ⟨not_union_of_promoted hq, hguards.promotedExist hq row hint hsub⟩
  · exact .inl hunion
  · by_cases hno : ∀ f ∈ q.fragments, readOperation f ≠ .union
    · exact .inr ⟨hno, hexist⟩
    · have hnull := hload.resolve_left hno
      push Not at hno
      exact absurd (hguards.noFallback hno hempty hnull row hexist hint) hsub

/-- A row of the reading is left by the unions, differences and intersects of the answer. -/
theorem Reading.inAnswer (h : Reading t m w q row) : InAnswer t m w q row := by
  refine ⟨ReadingBase.answerBase t m w h.base, fun hsub => ?_, h.intersect⟩
  rcases Subtracted.exists_difference t m w hsub with ⟨f, hf, hop, hrow⟩
  exact h.difference f hf hop hrow

/-- The rows that these leave are those of the reading exactly under the guards. -/
theorem answer_iff_reading_iff_guards (q : ListQuery ι) :
    (∀ row, InAnswer t m w q row ↔ Reading t m w q row) ↔ ReadingGuards t m w q := by
  constructor
  · intro h
    refine ⟨fun hunion hempty hnull row hexist hint => ?_, fun hq row hint hsub => ?_,
      fun row hbase hint hdiff => ?_⟩
    · by_contra hsub
      obtain ⟨f, hf, hop⟩ := hunion
      have hq : ¬ q.Promoted := fun hq => not_union_of_promoted hq f hf hop
      have hreading := (h row).mp ⟨.inr ⟨hq, .inr ⟨hempty, .inr hnull, hexist⟩⟩, hsub, hint⟩
      rcases hreading.base with ⟨f, hf, hop, hrow⟩ | ⟨hno, _⟩
      · exact hempty ⟨f, hf, hop, row, hrow⟩
      · exact hno f hf hop
    · rcases ((h row).mp ⟨.inl hq, hsub, hint⟩).base with ⟨f, hf, hop, _⟩ | ⟨_, hexist⟩
      · exact absurd hop (not_union_of_promoted hq f hf)
      · exact hexist
    · by_contra hsub
      rcases hdiff with ⟨f, hf, hop, hrow⟩
      have hreading := (h row).mp ⟨ReadingBase.answerBase t m w hbase, hsub, hint⟩
      exact hreading.difference f hf hop hrow
  · refine fun hguards row => ⟨fun h => ?_, Reading.inAnswer t m w⟩
    have hbase := hguards.readingBase t m w h
    refine ⟨hbase, fun f hf hop hrow => ?_, h.intersects⟩
    exact h.notSubtracted
      (hguards.differencesSubtracted row hbase h.intersects ⟨f, hf, hop, hrow⟩)

/-- A query of configured fields has an answer, and its rows with values are those of `InAnswer`. -/
theorem exists_localQuery [DecidableEq ι] (q : ConfiguredQuery t ι) :
    ∃ rows, localQuery t m w q.toBitmapQuery = .ok rows ∧
      ∀ row, row ∈ rows ∧ Valued t w (ensureBitmapQueryHasUnion q.toBitmapQuery) m row ↔
        InAnswer t m w q.toListQuery row := by
  rcases queryPlan_ensure_ok t q with ⟨pk, hplan⟩
  refine ⟨finalBitmap (clientView t w (ensureBitmapQueryHasUnion q.toBitmapQuery) pk m), ?_,
    mem_localQuery t m w hplan⟩
  rw [localQuery_eq, hplan]
  rfl

/-- Every row of the answer has a value in the fields that the plain intersects compare. -/
def AnswerValued [DecidableEq ι] (q : BitmapQuery ι) : Prop :=
  ∀ result, localQuery t m w q = .ok result → ∀ row ∈ result,
    Valued t w (ensureBitmapQueryHasUnion q) m row

end

def emptyUnionTable : Table where
  timeQuantum := .none
  timeQuantumField := none
  primaryKey := ["id"]
  getAttribute n := some ⟨.none, n = "id"⟩

/-- A union that matches nothing, next to a check that a field is null. -/
def emptyUnionQuery : ConfiguredQuery emptyUnionTable ℕ where
  first := (0, { index := "orders", field := "u", rowID := 7, operation := .union })
  rest := [(1, { index := "orders", field := "a", operation := .intersect, nullCheck := true })]
  index_ne := by decide
  index_eq := by decide
  ids_nodup := by decide
  set_operation := by decide
  unsampled := by decide
  field_ne := by decide
  configured := by decide
  primaryKey_ne := by decide
  primaryKey_configured := by decide

/-- A node with two rows, none of them in row 7 of the union's field. -/
def emptyUnionNode : Node where
  bitmapCache := [⟨"u", 1, 0, {1, 2}⟩, ⟨"a", 1, 0, {1}⟩]
  bsiCache := [⟨"id", 0, (Bsi.empty.setValue 1 10).setValue 2 20⟩]
  member _ := true

end QuantaStream.Query
