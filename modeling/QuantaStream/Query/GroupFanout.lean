import Mathlib.Algebra.BigOperators.Pi
import Mathlib.Data.Fintype.Pi
import QuantaStream.Lib.Accumulate
import QuantaStream.Query.WholeFanout
import QuantaStream.Server.GroupAggregate

/-!
# Fanned-out grouped aggregates

The client asks every active node for grouped aggregates and merges the partial results by the
values of the group fields.  A node can only find a row in a group if it owns the bitmaps of all
group fields for it, and can only measure it if it holds the measured value as well.  So the merged
result is that of one node with all shards exactly if no row of a group is torn apart.
-/

namespace QuantaStream.Query

open Accumulate Shared Server List Option Outcome Bsi

/-! ## The client flow -/

variable {aggregates : List AggregateSpec}

def mergeValue (target : Summary ℤ) (part : Summary ℤ) : Summary ℤ where
  count := target.count + part.count
  sum :=
    match part.sum with
    | none => target.sum
    | some sum => some (target.sum.getD 0 + sum)
  min :=
    match part.min, target.min with
    | none, min => min
    | some min, none => some min
    | some min, some least => if min < least then some min else some least
  max :=
    match part.max, target.max with
    | none, max => max
    | some max, none => some max
    | some max, some greatest => if max > greatest then some max else some greatest

/-- The groups of a response; one that is not ok has none. -/
def responseGroups (response : Option (List (List ℕ × AggregateValues aggregates))) :
    List (List ℕ × AggregateValues aggregates) :=
  response.getD []

def mergeGroup (groupsByKey : GoMap (List ℕ) (AggregateValues aggregates))
    (group : List ℕ × AggregateValues aggregates) : GoMap (List ℕ) (AggregateValues aggregates) :=
  groupsByKey.insert group.1 fun i =>
    mergeValue (((groupsByKey.lookup group.1).getD 0) i) (group.2 i)

/-- `aggregateBitmapGroupAggregateResponses`: the groups in the order of their values, and whether
all responses are ok. -/
def aggregateResponses (responses : List (Option (List (List ℕ × AggregateValues aggregates)))) :
    List (List ℕ × AggregateValues aggregates) × Bool :=
  (inKeyOrder ((responses.flatMap responseGroups).foldl mergeGroup ∅),
    0 < responses.length && responses.all isSome)

/-- `BitmapGroupAggregates` over the active nodes.  They answer in any order, and the first error in
that order is returned. -/
def bitmapGroupAggregates (g : GroupScope) (lower : String → String) (nodes : List GroupNode)
    (arrival : RangeOrder) (fields : List String) (aggregates : List AggregateSpec) :
    Except GroupError (List (List ℕ × AggregateValues aggregates) × Bool) :=
  if fields = [] then .error .groupFieldsNotSpecified
  else if aggregates = [] then .error .aggregatesNotSpecified
  else if nodes = [] then .error .noActiveNodes
  else
    ((arrival.order nodes).mapM fun m =>
      bitmapGroupAggregatesStorage g lower m fields aggregates).map aggregateResponses

/-! ## Merging -/

theorem mergeValue_eq_add (target part : Summary ℤ) : mergeValue target part = target + part := by
  ext1
  · rfl
  · rw [Summary.sum_add]
    cases hp : part.sum <;> cases ht : target.sum <;> simp [mergeValue, hp, ht]
  · rw [Summary.min_add]
    cases hp : part.min <;> cases ht : target.min <;> simp [mergeValue, hp, ht]
    grind
  · rw [Summary.max_add]
    cases hp : part.max <;> cases ht : target.max <;> simp [mergeValue, hp, ht]
    grind

theorem foldl_mergeGroup (groups : List (List ℕ × AggregateValues aggregates)) :
    groups.foldl mergeGroup ∅ = accumulate groups := by
  congr 1
  funext m group
  unfold mergeGroup addTo
  congr 1
  exact funext fun i => mergeValue_eq_add _ _

section

variable {g : GroupScope} {lower : String → String} {fields : List String}

theorem aggregateValues_empty (g : GroupScope) (lower : String → String) (m : Node)
    (aggregates : List AggregateSpec) : aggregateValues g lower m aggregates ∅ = 0 := by
  funext i
  unfold aggregateValues
  cases (aggregates.get i).slot lower with
  | none => rfl
  | some slot =>
    have hfeeding : g.feeding m ∅ slot = ∅ := by cases slot <;> simp [GroupScope.feeding]
    simp [aggregateValue_eq_over, hfeeding, Summary.ofFamily_empty]

/-- What a response that is ok holds for a group. -/
theorem total_storage {m : GroupNode} {groups : List (List ℕ × AggregateValues aggregates)}
    (h : bitmapGroupAggregatesStorage g lower m fields aggregates = .ok (some groups))
    (vs : List ℕ) :
    (vs ∈ groups.map Prod.fst ↔ (g.groupRows m.toNode fields vs).Nonempty) ∧
      total groups vs =
        aggregateValues g lower m.toNode aggregates (g.groupRows m.toNode fields vs) := by
  unfold bitmapGroupAggregatesStorage at h
  split at h
  · cases h
  · cases h
  rename_i bitmaps hbitmaps
  split at h
  · cases h
  obtain ⟨supported, -, hgroups⟩ := map_eq_ok.mp h
  split at hgroups
  · cases hgroups
    obtain ⟨hnodup, hmem⟩ := mem_bitmapGroupBitmaps hbitmaps
    have hkeys : ∀ l : List (List ℕ × Bitmap),
        (l.map fun group => (group.1, aggregateValues g lower m.toNode aggregates group.2)).map
          Prod.fst = l.map Prod.fst := fun l => by rw [List.map_map]; rfl
    rw [hkeys]
    have hfilter : ∀ b, (vs, b) ∈ bitmaps.filter (fun group => group.2 ≠ ∅) ↔
        b = g.groupRows m.toNode fields vs ∧ b ≠ ∅ := fun b => by simp [mem_filter, hmem]
    have hgroup : vs ∈ (bitmaps.filter fun group => group.2 ≠ ∅).map Prod.fst ↔
        (g.groupRows m.toNode fields vs).Nonempty := by
      rw [List.mem_map, Finset.nonempty_iff_ne_empty]
      constructor
      · rintro ⟨⟨us, b⟩, hb, rfl⟩
        obtain ⟨hrows, hne⟩ := (hfilter b).mp hb
        exact hrows ▸ hne
      · exact fun hne => ⟨_, (hfilter _).mpr ⟨rfl, hne⟩, rfl⟩
    refine ⟨hgroup, ?_⟩
    by_cases hne : (g.groupRows m.toNode fields vs).Nonempty
    · refine total_of_mem ?_ (mem_map.mpr
        ⟨_, (hfilter _).mpr ⟨rfl, Finset.nonempty_iff_ne_empty.mp hne⟩, rfl⟩)
      rw [hkeys]
      exact hnodup.sublist (filter_sublist.map Prod.fst)
    · rw [total_of_notMem (by rw [hkeys]; exact fun hvs => hne (hgroup.mp hvs)),
        Finset.not_nonempty_iff_eq_empty.mp hne, aggregateValues_empty]
  · cases hgroups

def AnswersOk (g : GroupScope) (lower : String → String) (fields : List String)
    (aggregates : List AggregateSpec) (m : GroupNode) : Prop :=
  ∃ groups, bitmapGroupAggregatesStorage g lower m fields aggregates = .ok (some groups)

/-- What the merged result holds for a group: the sum of what the nodes have. -/
theorem lookup_merged {nodes : List GroupNode}
    {responses : List (Option (List (List ℕ × AggregateValues aggregates)))}
    (h : nodes.mapM (fun m => bitmapGroupAggregatesStorage g lower m fields aggregates) =
      .ok responses) (hok : responses.all isSome = true) (vs : List ℕ) :
    (accumulate (responses.flatMap responseGroups)).lookup vs =
      if ∃ m ∈ nodes, (g.groupRows m.toNode fields vs).Nonempty then
        some (nodes.map fun m =>
          aggregateValues g lower m.toNode aggregates (g.groupRows m.toNode fields vs)).sum
      else none := by
  have hmem : vs ∈ (responses.flatMap responseGroups).map Prod.fst ↔
      ∃ m ∈ nodes, (g.groupRows m.toNode fields vs).Nonempty := by
    rw [map_flatMap, mem_flatMap]
    constructor
    · rintro ⟨response, hresponse, hvs⟩
      obtain ⟨m, hm, hstorage⟩ := exists_of_mem_results h hresponse
      obtain ⟨groups, rfl⟩ := isSome_iff_exists.mp (all_eq_true.mp hok _ hresponse)
      exact ⟨m, hm, (total_storage hstorage vs).1.mp hvs⟩
    · rintro ⟨m, hm, hne⟩
      obtain ⟨response, hresponse, hstorage⟩ := exists_result_of_mem h hm
      obtain ⟨groups, rfl⟩ := isSome_iff_exists.mp (all_eq_true.mp hok _ hresponse)
      exact ⟨_, hresponse, (total_storage hstorage vs).1.mpr hne⟩
  have hsum : total (responses.flatMap responseGroups) vs =
      (nodes.map fun m =>
        aggregateValues g lower m.toNode aggregates (g.groupRows m.toNode fields vs)).sum := by
    rw [total_flatMap]
    have hforall := mapM_eq_ok.mp h
    clear h hmem
    induction hforall with
    | nil => rfl
    | @cons m response nodes responses hstorage hrest ih =>
      rw [all_cons, Bool.and_eq_true] at hok
      obtain ⟨groups, rfl⟩ := isSome_iff_exists.mp hok.1
      rw [map_cons, sum_cons, map_cons, sum_cons, ih hok.2]
      exact congrArg (· + _) (total_storage hstorage vs).2
  rw [lookup_accumulate, hsum]
  simp only [hmem]

end

/-! ## Placements -/

/-- Shards placed by their keys: each key is owned by one node.  A column is in the shard of one
time for each value of a standard field. -/
structure GroupPlacement extends Placement where
  groupStore : GroupNode
  groupNodes : List GroupNode
  groupStore_eq : groupStore.toNode = store
  groupNodes_eq : groupNodes.map GroupNode.toNode = nodes
  owner_unique : nodes.Pairwise fun m m' =>
    ∀ key, m.member key = true → m'.member key = true → False
  column_time : ∀ s ∈ store.bitmapCache, ∀ s' ∈ store.bitmapCache, s.field = s'.field →
    s.rowID = s'.rowID → ∀ r ∈ s.bits, r ∈ s'.bits → s.time = s'.time

namespace GroupPlacement

variable (pl : GroupPlacement) (g : GroupScope)

variable {m : Node}

section

variable (hm : m ∈ pl.nodes)

include hm

theorem groupRows_subset_store (fields : List String) (vs : List ℕ) :
    g.groupRows m fields vs ⊆ g.groupRows pl.store fields vs := by
  intro r hr
  obtain ⟨hne, hvalues⟩ := mem_groupRows.mp hr
  refine mem_groupRows.mpr ⟨hne, hvalues.imp fun field v hv => ?_⟩
  exact (pl.mem_timeRange_store _ _ _ _ _ _).mpr ⟨m, hm, hv⟩

theorem get?_projectBSI_store {field : String} {r : ℕ} {x : ℤ}
    (h : (g.projectBSI m field).get? r = some x) :
    (g.projectBSI pl.store field).get? r = some x := by
  obtain ⟨s, hs, hproj, hget⟩ :=
    (get?_projectBSI fun s hs s' hs' _ => pl.node_bsi_agree hm s hs s' hs').mp h
  exact (get?_projectBSI fun s hs s' hs' _ => pl.bsi_agree s hs s' hs').mpr
    ⟨s, pl.bsi_held m hm s hs, hproj, hget⟩

theorem feeding_subset_store (fields : List String) (vs : List ℕ) (slot : AggregateSlot) :
    g.feeding m (g.groupRows m fields vs) slot ⊆
      g.feeding pl.store (g.groupRows pl.store fields vs) slot := by
  have hrows := pl.groupRows_subset_store g hm fields vs
  cases slot with
  | count => exact hrows
  | measure function field =>
    intro r hr
    obtain ⟨hgroup, hvalue⟩ := Finset.mem_inter.mp hr
    obtain ⟨x, hx⟩ := mem_existence_iff.mp hvalue
    exact Finset.mem_inter.mpr ⟨hrows hgroup,
      mem_existence_iff.mpr ⟨x, pl.get?_projectBSI_store g hm hx⟩⟩

theorem measured_eq_store (groupRows : Bitmap) (slot : AggregateSlot) {r : ℕ}
    (hr : r ∈ g.feeding m groupRows slot) : g.measured m slot r = g.measured pl.store slot r := by
  cases slot with
  | count => rfl
  | measure function field =>
    obtain ⟨-, hvalue⟩ := Finset.mem_inter.mp hr
    have hget := pl.get?_projectBSI_store g hm (get?_of_mem hvalue)
    have hstore := mem_existence_iff.mpr ⟨_, hget⟩
    rw [get?_of_mem hstore] at hget
    exact (some.inj hget).symm

end

theorem disjoint_groupRows (fields : List String) (vs : List ℕ) :
    pl.nodes.Pairwise fun m m' =>
      Disjoint (g.groupRows m fields vs) (g.groupRows m' fields vs) := by
  refine Pairwise.imp_of_mem ?_ pl.owner_unique
  intro m m' hm hm' howner
  rw [Finset.disjoint_left]
  intro r hr hr'
  obtain ⟨hne, hvalues⟩ := mem_groupRows.mp hr
  obtain ⟨-, hvalues'⟩ := mem_groupRows.mp hr'
  cases hvalues with
  | nil => exact hne rfl
  | @cons field v fields vs hv _ =>
    cases hvalues' with
    | cons hv' _ =>
      obtain ⟨⟨s, hs, ⟨hfield, hrow, -, hmember⟩, hbits⟩, -⟩ := mem_timeRange.mp hv
      obtain ⟨⟨s', hs', ⟨hfield', hrow', -, hmember'⟩, hbits'⟩, -⟩ := mem_timeRange.mp hv'
      have htime := pl.column_time s (pl.bitmap_held m hm s hs) s'
        (pl.bitmap_held m' hm' s' hs') (hfield.trans hfield'.symm) (hrow.trans hrow'.symm)
        r hbits hbits'
      exact howner _ hmember (htime ▸ hmember')

/-- No row of a group is torn apart: each group is found by some node, and each row that feeds an
aggregate on one node with all shards feeds it on some node. -/
def Covered (lower : String → String) (fields : List String) (aggregates : List AggregateSpec) :
    Prop :=
  ∀ vs, (g.groupRows pl.store fields vs).Nonempty →
    (∃ m ∈ pl.nodes, (g.groupRows m fields vs).Nonempty) ∧
    ∀ a ∈ aggregates, ∀ slot, a.slot lower = some slot →
      ∀ r ∈ g.feeding pl.store (g.groupRows pl.store fields vs) slot,
        ∃ m ∈ pl.nodes, r ∈ g.feeding m (g.groupRows m fields vs) slot

section

variable (lower : String → String) (fields : List String) (aggregates : List AggregateSpec)

/-- The aggregates of the nodes add up to those of the store exactly if the rows that feed them are
found. -/
theorem sum_aggregateValues_eq_iff (vs : List ℕ) :
    (pl.nodes.map fun m => aggregateValues g lower m aggregates (g.groupRows m fields vs)).sum =
        aggregateValues g lower pl.store aggregates (g.groupRows pl.store fields vs) ↔
      ∀ a ∈ aggregates, ∀ slot, a.slot lower = some slot →
        ∀ r ∈ g.feeding pl.store (g.groupRows pl.store fields vs) slot,
          ∃ m ∈ pl.nodes, r ∈ g.feeding m (g.groupRows m fields vs) slot := by
  have hslot : ∀ slot : AggregateSlot,
      (pl.nodes.map fun m => aggregateValue g m (g.groupRows m fields vs) slot).sum =
          aggregateValue g pl.store (g.groupRows pl.store fields vs) slot ↔
        ∀ r ∈ g.feeding pl.store (g.groupRows pl.store fields vs) slot,
          ∃ m ∈ pl.nodes, r ∈ g.feeding m (g.groupRows m fields vs) slot := by
    intro slot
    have hmeasured : (pl.nodes.map fun m => aggregateValue g m (g.groupRows m fields vs) slot) =
        pl.nodes.map fun m => Summary.ofFamily slot.parts
          (g.feeding m (g.groupRows m fields vs) slot) (g.measured pl.store slot) := by
      refine map_congr_left fun m hm => ?_
      rw [aggregateValue_eq_over]
      exact Summary.ofFamily_congr fun r hr => pl.measured_eq_store g hm _ slot hr
    rw [hmeasured, aggregateValue_eq_over]
    refine Summary.sum_map_ofFamily_eq_iff (fun m hm => pl.feeding_subset_store g hm fields vs slot)
      ((pl.disjoint_groupRows g fields vs).imp fun {m m'} h => ?_)
    cases slot with
    | count => exact h
    | measure function field => exact h.mono Finset.inter_subset_left Finset.inter_subset_left
  rw [funext_iff]
  constructor
  · intro h a ha slot hs
    obtain ⟨i, hi⟩ := mem_iff_get.mp ha
    have hvalue := h i
    rw [Pi.list_sum_apply, List.map_map] at hvalue
    subst hi
    simp only [Function.comp_def, aggregateValues, hs, elim_some] at hvalue
    exact (hslot slot).mp hvalue
  · intro h i
    rw [Pi.list_sum_apply, List.map_map]
    cases hs : (aggregates.get i).slot lower with
    | none => simp only [Function.comp_def, aggregateValues, hs, elim_none,
        map_const', sum_replicate, nsmul_zero]
    | some slot =>
      simp only [Function.comp_def, aggregateValues, hs, elim_some]
      exact (hslot slot).mpr (h _ (get_mem _ _) slot hs)

/-- The merged groups are those of the store exactly if no row of a group is torn apart. -/
theorem groups_eq_store_iff :
    (∀ vs, (if ∃ m ∈ pl.nodes, (g.groupRows m fields vs).Nonempty then
          some (pl.nodes.map fun m =>
            aggregateValues g lower m aggregates (g.groupRows m fields vs)).sum
        else none) =
        if (g.groupRows pl.store fields vs).Nonempty then
          some (aggregateValues g lower pl.store aggregates (g.groupRows pl.store fields vs))
        else none) ↔
      pl.Covered g lower fields aggregates := by
  refine forall_congr' fun vs => ?_
  by_cases hstore : (g.groupRows pl.store fields vs).Nonempty
  · by_cases hnodes : ∃ m ∈ pl.nodes, (g.groupRows m fields vs).Nonempty
    · rw [if_pos hnodes, if_pos hstore, some.injEq, pl.sum_aggregateValues_eq_iff]
      exact ⟨fun h _ => ⟨hnodes, h⟩, fun h => (h hstore).2⟩
    · rw [if_neg hnodes, if_pos hstore]
      exact ⟨nofun, fun h => absurd (h hstore).1 hnodes⟩
  · have hnodes : ¬ ∃ m ∈ pl.nodes, (g.groupRows m fields vs).Nonempty := by
      rintro ⟨m, hm, hne⟩
      exact hstore (hne.mono (pl.groupRows_subset_store g hm fields vs))
    rw [if_neg hnodes, if_neg hstore]
    exact ⟨fun _ h => absurd h hstore, fun _ => rfl⟩

end

end GroupPlacement

/-! ## Fan-out against one node -/

theorem bitmapGroupAggregates_eq_ok {g : GroupScope} {lower : String → String}
    {nodes : List GroupNode} {arrival : RangeOrder} {fields : List String}
    {groups : List (List ℕ × AggregateValues aggregates)} :
    bitmapGroupAggregates g lower nodes arrival fields aggregates = .ok (groups, true) ↔
      fields ≠ [] ∧ aggregates ≠ [] ∧ nodes ≠ [] ∧ ∃ responses,
        (arrival.order nodes).mapM
            (fun m => bitmapGroupAggregatesStorage g lower m fields aggregates) =
          .ok responses ∧ responses.all isSome = true ∧
        groups = inKeyOrder (accumulate (responses.flatMap responseGroups)) := by
  have hresponses : ∀ responses : List (Option (List (List ℕ × AggregateValues aggregates))),
      nodes ≠ [] → (arrival.order nodes).mapM
          (fun m => bitmapGroupAggregatesStorage g lower m fields aggregates) = .ok responses →
      (aggregateResponses responses = (groups, true) ↔ responses.all isSome = true ∧
        groups = inKeyOrder (accumulate (responses.flatMap responseGroups))) := by
    intro responses hnodes h
    have hlength : 0 < responses.length := by
      rw [← (mapM_eq_ok.mp h).length_eq, (arrival.perm nodes).length_eq]
      exact length_pos_iff.mpr hnodes
    unfold aggregateResponses
    rw [foldl_mergeGroup, Prod.mk.injEq, decide_eq_true hlength, Bool.true_and, and_comm,
      eq_comm (a := groups)]
  unfold bitmapGroupAggregates
  split_ifs with hfields haggregates hnodes
  · simp [hfields]
  · simp [haggregates]
  · simp [hnodes]
  · rw [map_eq_ok]
    constructor
    · rintro ⟨responses, h, hanswer⟩
      exact ⟨hfields, haggregates, hnodes, responses, h, (hresponses responses hnodes h).mp hanswer⟩
    · rintro ⟨-, -, -, responses, h, hanswer⟩
      exact ⟨responses, h, (hresponses responses hnodes h).mpr hanswer⟩

/-- When the fan-out answers with ok, one node with all shards would give the same answer exactly if
it would answer with ok and no row of a group is torn apart. -/
theorem bitmapGroupAggregates_eq_store_iff (pl : GroupPlacement) (g : GroupScope)
    (lower : String → String) (arrival : RangeOrder) (fields : List String)
    (aggregates : List AggregateSpec) (groups : List (List ℕ × AggregateValues aggregates))
    (h : bitmapGroupAggregates g lower pl.groupNodes arrival fields aggregates =
      .ok (groups, true)) :
    bitmapGroupAggregates g lower [pl.groupStore] arrival fields aggregates = .ok (groups, true) ↔
      AnswersOk g lower fields aggregates pl.groupStore ∧ pl.Covered g lower fields aggregates := by
  obtain ⟨hfields, haggregates, hnodes, responses, hmap, hok, hgroups⟩ :=
    bitmapGroupAggregates_eq_ok.mp h
  have hsingle : arrival.order [pl.groupStore] = [pl.groupStore] :=
    perm_singleton.mp (arrival.perm _)
  have hone : ∀ gs, bitmapGroupAggregatesStorage g lower pl.groupStore fields aggregates =
        .ok (some gs) →
      (groups = inKeyOrder (accumulate ([some gs].flatMap responseGroups)) ↔
        pl.Covered g lower fields aggregates) := by
    intro gs hgs
    have hmapOne : [pl.groupStore].mapM
        (fun m => bitmapGroupAggregatesStorage g lower m fields aggregates) = .ok [some gs] :=
      mapM_eq_ok.mpr (.cons hgs .nil)
    rw [hgroups, inKeyOrder_eq_iff, ← pl.groups_eq_store_iff]
    refine forall_congr' fun vs => ?_
    rw [lookup_merged hmap hok, lookup_merged hmapOne rfl, ((arrival.perm _).map _).sum_eq,
      ← pl.groupNodes_eq, List.map_map]
    simp only [(arrival.perm _).mem_iff, List.mem_map, exists_exists_and_eq_and, Function.comp_def,
      mem_singleton, exists_eq_left, map_cons, map_nil, sum_cons, sum_nil, add_zero,
      pl.groupStore_eq]
  rw [bitmapGroupAggregates_eq_ok, hsingle]
  constructor
  · rintro ⟨-, -, -, answers, hanswers, hall, heq⟩
    cases mapM_eq_ok.mp hanswers with
    | @cons _ answer _ _ hanswer hnil =>
      cases hnil
      cases answer with
      | none => cases hall
      | some gs => exact ⟨⟨gs, hanswer⟩, (hone gs hanswer).mp heq⟩
  · rintro ⟨⟨gs, hgs⟩, hcovered⟩
    exact ⟨hfields, haggregates, by simp, [some gs], mapM_eq_ok.mpr (.cons hgs .nil), rfl,
      (hone gs hgs).mpr hcovered⟩

/-- What the nodes answer with in one order, they answer with in every order. -/
theorem ok_of_arrival {g : GroupScope} {lower : String → String} {nodes : List GroupNode}
    {arrival : RangeOrder} {fields : List String}
    {answer : List (List ℕ × AggregateValues aggregates) × Bool} (arrival' : RangeOrder)
    (h : bitmapGroupAggregates g lower nodes arrival fields aggregates = .ok answer) :
    bitmapGroupAggregates g lower nodes arrival' fields aggregates = .ok answer := by
  unfold bitmapGroupAggregates at h ⊢
  split_ifs at h ⊢
  obtain ⟨responses, hmap, rfl⟩ := map_eq_ok.mp h
  have horders : (arrival'.order nodes).Perm (arrival.order nodes) :=
    (arrival'.perm nodes).trans (arrival.perm nodes).symm
  obtain ⟨responses', hmap', hperm⟩ := perm_comp_forall₂ horders (mapM_eq_ok.mp hmap)
  refine map_eq_ok.mpr ⟨responses', mapM_eq_ok.mpr hmap', ?_⟩
  unfold aggregateResponses
  rw [foldl_mergeGroup, foldl_mergeGroup, hperm.length_eq, hperm.all_eq, Prod.mk.injEq]
  exact ⟨inKeyOrder_eq_iff.mpr (lookup_accumulate_perm (hperm.flatMap_right responseGroups)), rfl⟩

/-- An answer does not depend on the order in which the nodes respond. -/
theorem bitmapGroupAggregates_arrival (g : GroupScope) (lower : String → String)
    (nodes : List GroupNode) (arrival arrival' : RangeOrder) (fields : List String)
    (aggregates : List AggregateSpec)
    (answer : List (List ℕ × AggregateValues aggregates) × Bool) :
    bitmapGroupAggregates g lower nodes arrival fields aggregates = .ok answer ↔
      bitmapGroupAggregates g lower nodes arrival' fields aggregates = .ok answer :=
  ⟨ok_of_arrival arrival', ok_of_arrival arrival⟩

/-! ## Two nodes -/

section

/-- The table: a standard field for the groups and a measured field. -/
def saleTable : Table where
  timeQuantum := .none
  timeQuantumField := none
  primaryKey := ["id"]
  getAttribute field :=
    if field = "region" then some ⟨.none, false⟩
    else if field = "amount" then some ⟨.none, true⟩
    else none

def regionShard (region row : ℕ) : BitmapShard := ⟨"region", region, 0, {row}⟩

def amountShard : BSIShard := ⟨"amount", 0, (empty.setValue 1 10).setValue 2 20⟩

/-- A node that owns the bitmap of one region, and the amounts or nothing else. -/
def saleNode (region row : ℕ) (amounts : Bool) : GroupNode where
  bitmapCache := [regionShard region row]
  bsiCache := if amounts then [amountShard] else []
  member key := key = .bitmap "region" region 0 || (amounts && key = .bsi "amount" 0)
  bitmapFields := ["region"]
  field_mem s hs := by
    cases mem_singleton.mp hs
    simp [regionShard]

def saleStore : GroupNode where
  bitmapCache := [regionShard 1 1, regionShard 2 2]
  bsiCache := [amountShard]
  member _ := true
  bitmapFields := ["region"]
  field_mem s hs := by
    rcases mem_cons.mp hs with rfl | hs
    · simp [regionShard]
    · cases mem_singleton.mp hs
      simp [regionShard]

/-- Region 1 is on one node, region 2 and all amounts on the other. -/
def salePlacement : GroupPlacement where
  store := saleStore.toNode
  nodes := [(saleNode 1 1 false).toNode, (saleNode 2 2 true).toNode]
  nodes_ne_nil := by simp
  store_member _ := rfl
  bitmap_held := by simp [saleNode, saleStore]
  bitmap_placed := by simp [saleNode, saleStore, regionShard]
  bsi_held := by simp [saleNode, saleStore]
  bsi_placed := by simp [saleNode, saleStore, amountShard]
  bsi_agree s hs s' hs' _ := by
    cases mem_singleton.mp hs
    cases mem_singleton.mp hs'
    intro c _ _
    rfl
  groupStore := saleStore
  groupNodes := [saleNode 1 1 false, saleNode 2 2 true]
  groupStore_eq := rfl
  groupNodes_eq := rfl
  owner_unique := by
    simp only [pairwise_cons, mem_singleton, forall_eq, Pairwise.nil, and_true,
      not_mem_nil, false_implies, implies_true]
    intro key
    simp only [saleNode, Bool.false_and, Bool.or_false, decide_eq_true_eq, Bool.true_and,
      Bool.or_eq_true]
    rintro rfl (h | h) <;> cases h
  column_time s hs s' hs' _ _ _ _ _ := by
    have htime : ∀ x ∈ saleStore.bitmapCache, x.time = 0 := by simp [saleStore, regionShard]
    rw [htime s hs, htime s' hs']

/-- Answers are compared value by value. -/
instance : DecidableEq (List ℕ × AggregateValues aggregates) :=
  inferInstance

def saleScope : GroupScope := ⟨saleTable, ⟨0, 0⟩, none⟩

def saleAggregates : List AggregateSpec := [⟨"sum", "amount"⟩]

/-- The amount of a row whose group bitmap is on another node is lost. -/
theorem measure_on_other_node_lost :
    (bitmapGroupAggregates saleScope id salePlacement.groupNodes .asKept ["region"]
        saleAggregates).toOption =
        some ([([1], fun _ => {}), ([2], fun _ => { count := 1, sum := some 20 })], true) ∧
      (bitmapGroupAggregates saleScope id [salePlacement.groupStore] .asKept ["region"]
          saleAggregates).toOption =
        some ([([1], fun _ => { count := 1, sum := some 10 }),
          ([2], fun _ => { count := 1, sum := some 20 })], true) := by
  decide

/-- Counting the rows of the regions goes well. -/
theorem bitmapGroupAggregates_eq_store_iff_count :
    let groups : List (List ℕ × AggregateValues [⟨"count", ""⟩]) :=
      [([1], fun _ => { count := 1 }), ([2], fun _ => { count := 1 })]
    bitmapGroupAggregates saleScope id salePlacement.groupNodes .asKept ["region"]
        [⟨"count", ""⟩] = .ok (groups, true) ∧
      (bitmapGroupAggregates saleScope id [salePlacement.groupStore] .asKept ["region"]
          [⟨"count", ""⟩] = .ok (groups, true) ↔
        AnswersOk saleScope id ["region"] [⟨"count", ""⟩] salePlacement.groupStore ∧
          salePlacement.Covered saleScope id ["region"] [⟨"count", ""⟩]) := by
  refine ⟨?fanout, bitmapGroupAggregates_eq_store_iff _ _ _ _ _ _ _ ?fanout⟩
  exact toOption_eq_some.mp (by decide)

end

end QuantaStream.Query
