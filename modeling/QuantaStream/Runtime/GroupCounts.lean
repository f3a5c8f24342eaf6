import Mathlib.Algebra.GroupWithZero.Nat
import Mathlib.Data.Finset.Max
import QuantaStream.Runtime.GroupKeys
import QuantaStream.Server.GroupAggregate

/-!
# Counting groups by their bitmaps

COUNT(*) of each group is answered from the bitmaps of the group fields, or from the materialised
rows.  This module models `BitmapGroupCounts` and the replay of
`qsruntime/direct_bitmap_grouped_aggregate.go`.  A row without a value in a group field is in no
bitmap of it.

- `groupCounts_perm_iff`: when both ways give the same groups.
-/

namespace QuantaStream.Runtime

open List Server Outcome

/-- `BitmapGroupCounts`; `none` declines the request. -/
def bitmapGroupCounts (g : GroupScope) (m : GroupNode) (fields : List String) :
    Except QueryError (Option (List (List ℕ × ℕ))) :=
  (bitmapGroupBitmaps g m fields).map (Option.map fun groups =>
    (groups.map fun group => (group.1, group.2.card)).filter fun count => count.2 ≠ 0)

/-- A table with its group fields: the values of a row in a field, of which a set-valued field may
have several, and the cells that values are materialised as. -/
structure GroupTable (V : Type) where
  fields : List String
  stored : ℕ → String → Finset ℕ
  cells : List (Option ℕ) → List (ResultCell V)
  sprint : V → GoString

open GroupTable

variable {V : Type} (t : GroupTable V)

/-- The value a row is materialised with: the lowest one, if it has any. -/
def GroupTable.value (row : ℕ) (field : String) : Option ℕ :=
  if h : (t.stored row field).Nonempty then some ((t.stored row field).min' h) else none

def GroupTable.values (row : ℕ) : List (Option ℕ) := t.fields.map (t.value row)

def GroupTable.key (values : List (Option ℕ)) : GoString :=
  directBitmapGroupCellsKey t.sprint (t.cells values)

/-- `directBitmapGroupedAggregateRowsByIndexReplay` for COUNT(*): the groups in the order of their
keys, with the cells of their first row. -/
def GroupTable.replay (rows : List ℕ) : List (List (ResultCell V) × ℕ) :=
  (((rows.map t.values).map t.key).dedup.insertionSort (· ≤ ·)).map fun k =>
    let members := (rows.map t.values).filter (t.key · = k)
    (members.head?.elim [] t.cells, members.length)

/-- The bitmaps of a node are those of the table, within the candidate rows. -/
structure GroupTable.Stored (g : GroupScope) (m : Node) (rows : List ℕ) : Prop where
  nodup : rows.Nodup
  mem_rows : ∀ field v row, row ∈ g.rows m field v ↔ row ∈ rows ∧ v ∈ t.stored row field

/-- No candidate row has two values in a group field. -/
def GroupTable.SingleValued (rows : List ℕ) : Prop :=
  ∀ row ∈ rows, ∀ field ∈ t.fields, (t.stored row field).card ≤ 1

variable {t} {g : GroupScope} {m : GroupNode} {rows : List ℕ} {counts : List (List ℕ × ℕ)}

theorem GroupTable.mem_stored_iff {row v : ℕ} {field : String}
    (h : (t.stored row field).card ≤ 1) : v ∈ t.stored row field ↔ t.value row field = some v := by
  constructor
  · intro hv
    have hone : t.stored row field = {v} :=
      Finset.eq_singleton_iff_unique_mem.mpr ⟨hv, fun w hw => Finset.card_le_one.mp h w hw v hv⟩
    simp [value, hone]
  · rw [value, Option.dite_none_right_eq_some]
    rintro ⟨hne, hv⟩
    exact Option.some.inj hv ▸ Finset.min'_mem _ hne

/-- A row is in the group of its values. -/
theorem GroupTable.Stored.mem_groupRows_iff (h : t.Stored g m.toNode rows)
    (hsingle : t.SingleValued rows) (hne : t.fields ≠ []) {vs : List ℕ} {row : ℕ} :
    row ∈ g.groupRows m.toNode t.fields vs ↔ row ∈ rows ∧ t.values row = vs.map some := by
  rw [mem_groupRows, and_iff_right hne, values, ← forall₂_eq_eq_eq, forall₂_map_left_iff,
    forall₂_map_right_iff]
  simp only [h.mem_rows]
  by_cases hrow : row ∈ rows
  · simp only [hrow, true_and]
    constructor <;> intro hall <;>
      refine ((forall₂_and_left _ _).mpr ⟨hsingle row hrow, hall⟩).imp fun field v h => ?_
    · exact (mem_stored_iff h.1).mp h.2
    · exact (mem_stored_iff h.1).mpr h.2
  · obtain ⟨field, rest, hfields⟩ := exists_cons_of_ne_nil hne
    cases vs <;> simp [hfields, hrow]

/-- A count has a group for each list of values without NULL that a row has. -/
theorem GroupTable.Stored.counts_eq (h : t.Stored g m.toNode rows) (hsingle : t.SingleValued rows)
    (hcounts : bitmapGroupCounts g m t.fields = .ok (some counts)) :
    ∃ ks : List (List ℕ),
      (ks.map (map some)).Perm ((rows.map t.values).dedup.filter (none ∉ ·)) ∧
        counts = ks.map fun vs => (vs, ((rows.map t.values).filter (· = vs.map some)).length) := by
  obtain ⟨_ | groups, hgroups, heq⟩ := map_eq_ok.mp hcounts
  · cases heq
  obtain ⟨hnodup, hmem⟩ := mem_bitmapGroupBitmaps hgroups
  have hne : t.fields ≠ [] := by
    intro hnil
    rw [hnil] at hgroups
    cases hgroups
  have hcard : ∀ vs, (g.groupRows m.toNode t.fields vs).card =
      ((rows.map t.values).filter (· = vs.map some)).length := by
    intro vs
    have hrows : g.groupRows m.toNode t.fields vs =
        (rows.filter (t.values · = vs.map some)).toFinset := by
      ext row
      simp [h.mem_groupRows_iff hsingle hne]
    rw [hrows, toFinset_card_of_nodup (h.nodup.filter _), filter_map, length_map]
    rfl
  refine ⟨groups.map Prod.fst, ?_, ?_⟩
  · refine (perm_ext_iff_of_nodup (hnodup.map (map_injective_iff.mpr (Option.some_injective _)))
      ((nodup_dedup _).filter _)).mpr fun w => ?_
    simp only [mem_map, mem_filter, mem_dedup, decide_eq_true_eq]
    constructor
    · rintro ⟨_, ⟨⟨vs, b⟩, hb, rfl⟩, rfl⟩
      obtain ⟨rfl, hb⟩ := (hmem vs b).mp hb
      obtain ⟨row, hrow⟩ := Finset.nonempty_iff_ne_empty.mpr hb
      exact ⟨⟨row, (h.mem_groupRows_iff hsingle hne).mp hrow⟩, by simp⟩
    · rintro ⟨⟨row, hrow, rfl⟩, hnull⟩
      obtain ⟨vs, hvs⟩ : t.values row ∈ Set.range (map some) := by
        rw [Set.range_list_map]
        exact fun v hv => Option.ne_none_iff_exists.mp fun hnone => hnull (hnone ▸ hv)
      have hmemrow := (h.mem_groupRows_iff hsingle hne).mpr ⟨hrow, hvs.symm⟩
      exact ⟨vs, ⟨(vs, _), (hmem vs _).mpr ⟨rfl, Finset.ne_empty_of_mem hmemrow⟩, rfl⟩, hvs⟩
  · rw [← Option.some.inj heq, map_map]
    refine (filter_eq_self.mpr fun count hcount => ?_).trans (map_congr_left fun group hgroup => ?_)
    · obtain ⟨group, hgroup, rfl⟩ := mem_map.mp hcount
      simpa using ((hmem _ _).mp hgroup).2
    · rw [Function.comp_apply, ← hcard, ((hmem _ _).mp hgroup).1]

/-- Where no candidate row has two values in a group field, a count answers as the materialised rows
do exactly if none has NULL there and lists of values with one key are the same. -/
theorem groupCounts_perm_iff (h : t.Stored g m.toNode rows) (hsingle : t.SingleValued rows)
    (hcounts : bitmapGroupCounts g m t.fields = .ok (some counts)) :
    ((counts.map fun count => (t.cells (count.1.map some), count.2)).Perm (t.replay rows) ∧
        (counts.map Prod.snd).sum = rows.length) ↔
      (∀ row ∈ rows, none ∉ t.values row) ∧ Set.InjOn t.key {w | w ∈ rows.map t.values} := by
  obtain ⟨ks, hks, rfl⟩ := h.counts_eq hsingle hcounts
  rw [map_map, map_map, replay, ← length_map t.values,
    ← forall_mem_map (P := (none ∉ ·))]
  generalize rows.map t.values = l at hks ⊢
  have hsum : (ks.map (Prod.snd ∘ fun vs => (vs, (l.filter (· = vs.map some)).length))).sum =
      l.countP (none ∉ ·) := by
    rw [← sum_map_count_dedup_filter_eq_countP, ← (hks.map _).sum_eq, map_map]
    refine congrArg sum (map_congr_left fun vs _ => ?_)
    simp only [Function.comp_apply, count_eq_length_filter, Bool.beq_eq_decide_eq]
  have hdedup : (∀ w ∈ l, none ∉ w) → (ks.map (map some)).Perm l.dedup := by
    intro hnone
    rwa [filter_eq_self.mpr (by simpa using hnone)] at hks
  simp only [hsum, countP_eq_length, decide_eq_true_eq]
  rw [and_comm]
  refine and_congr_right fun hnone => ⟨fun hperm => ?_, fun hinj => ?_⟩
  · have himage : (l.map t.key).toFinset = l.toFinset.image t.key := by
      ext k
      simp
    have hlength := hperm.length_eq
    rw [length_map, length_map, length_insertionSort, ← length_map (map some),
      (hdedup hnone).length_eq, ← card_toFinset, ← card_toFinset, himage] at hlength
    simpa using Finset.card_image_iff.mp hlength.symm
  · -- The keys of the rows are those of the groups, and each of them stands for one group.
    have hperm : ((l.map t.key).dedup.insertionSort (· ≤ ·)).Perm
        ((ks.map (map some)).map t.key) := by
      refine (perm_insertionSort _ _).trans (Perm.trans ?_ ((hdedup hnone).map _).symm)
      refine (perm_ext_iff_of_nodup (nodup_dedup _) ?_).mpr fun k => by simp
      exact (nodup_dedup l).map_on fun w hw w' hw' => hinj (mem_dedup.mp hw) (mem_dedup.mp hw')
    refine Perm.trans ?_ (hperm.symm.map _)
    rw [map_map, map_map]
    refine Perm.of_eq (map_congr_left fun vs hvs => ?_)
    have hmem : vs.map some ∈ l :=
      mem_dedup.mp ((hdedup hnone).mem_iff.mp (mem_map_of_mem hvs))
    have hmembers : l.filter (t.key · = t.key (vs.map some)) = l.filter (· = vs.map some) := by
      refine filter_congr fun w hw => ?_
      rw [decide_eq_decide]
      exact ⟨fun heq => hinj hw hmem heq, congrArg _⟩
    simp only [Function.comp_apply, hmembers]
    cases hfirst : l.filter (· = vs.map some) with
    | nil => exact absurd (decide_eq_true rfl) (filter_eq_nil_iff.mp hfirst _ hmem)
    | cons w rest =>
      have hmember : w ∈ l.filter (· = vs.map some) := hfirst ▸ mem_cons_self
      simp [of_decide_eq_true (mem_filter.mp hmember).2]

def statusNode : GroupNode where
  bitmapCache := [⟨"status", 5, 0, {1}⟩]
  bsiCache := []
  member _ := true
  bitmapFields := ["status"]
  field_mem := by simp

def statusScope (rows : List ℕ) : GroupScope :=
  ⟨⟨.none, none, ["id"], fun _ => some ⟨.none, false⟩⟩, ⟨0, 0⟩, some rows.toFinset⟩

def statusTable : GroupTable GoString where
  fields := ["status"]
  stored row field := if row = 1 ∧ field = "status" then {5} else ∅
  cells := map fun v => ⟨if v = none then .null else .string, []⟩
  sprint := id

theorem stored_statusTable {rows : List ℕ} (h : rows.Nodup) :
    statusTable.Stored (statusScope rows) statusNode.toNode rows := by
  refine ⟨h, fun field v row => ?_⟩
  simp [statusTable, GroupScope.rows, mem_timeRange, statusNode, statusScope, fieldConfig,
    getFieldConfig]
  grind

/-- A row without a status is not counted. -/
theorem null_row_not_counted :
    statusTable.Stored (statusScope [2]) statusNode.toNode [2] ∧
      bitmapGroupCounts (statusScope [2]) statusNode ["status"] = .ok (some []) ∧
      statusTable.replay [2] = [([⟨.null, []⟩], 1)] :=
  ⟨stored_statusTable (by simp), by decide, rfl⟩

theorem status_counted :
    bitmapGroupCounts (statusScope [1]) statusNode ["status"] = .ok (some [([5], 1)]) ∧
      [([⟨.string, []⟩], 1)].Perm (statusTable.replay [1]) :=
  ⟨by decide, ((@groupCounts_perm_iff _ statusTable (statusScope [1]) statusNode [1] [([5], 1)]
    (stored_statusTable (by simp)) (by unfold SingleValued; decide) (by decide)).mpr
      (by simp [statusTable, values, value])).1⟩

end QuantaStream.Runtime
