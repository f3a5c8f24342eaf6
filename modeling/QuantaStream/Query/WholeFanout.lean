import QuantaStream.Lib.Outcome
import QuantaStream.Query.Selection

/-!
# Whole-query fan-out

The client sends a whole query to every node, and every node evaluates it on the shards it
holds.  This module compares the merged answer with the answer of one node that holds all
shards.
-/

namespace QuantaStream.Query

open ParOr Shared Server List IntermediateResult

variable {ι : Type} [DecidableEq ι]

/-- The client flow of a query over one table that is fanned out whole to the active nodes. -/
def wholeFanoutQuery (t : Table) (nodes : List Node) (w : Window) (q : BitmapQuery ι) :
    Except QueryError Bitmap := do
  let results ← nodes.mapM (fun m => query t m w q)
  return finalBitmap (queryGroupWholeFanout q.getRootIndex results).collapse

/-! ## The rows of the merged answer -/

section

variable (t : Table) {nodes : List Node} (hne : nodes ≠ []) (w : Window) (q : BitmapQuery ι)

include hne

/-- A fanned-out query succeeds or fails as its plan does. -/
theorem wholeFanoutQuery_eq :
    wholeFanoutQuery t nodes w q = (queryPlan t q).map (fun pk =>
      finalBitmap (queryGroupWholeFanout q.getRootIndex
        (nodes.map (fun m => nodeResult t m w q pk))).collapse) := by
  unfold wholeFanoutQuery
  simp only [query_eq]
  rw [Outcome.mapM_map _ (fun m pk => nodeResult t m w q pk) hne]
  cases queryPlan t q <;> rfl

/-- The rows of the merged answer, fragment by fragment. -/
theorem mem_wholeFanout (pk : Option (String × Attribute)) (row : ℕ) :
    row ∈ finalBitmap (queryGroupWholeFanout q.getRootIndex
        (nodes.map (fun m => nodeResult t m w q pk))).collapse ↔
      Selects (reducedOccurrences q) (fun o r => ∃ m ∈ nodes, r ∈ nodeData t m w q o.id)
        (fun r => ∃ m ∈ nodes, ∃ e, nodeExistence m w pk = some e ∧ r ∈ e) row := by
  have hslots : ∀ (P : Occurrence ι → Prop) [DecidablePred P]
      (selectSlots : IntermediateResult Bitmap → List Bitmap),
      (∀ m ∈ nodes, selectSlots (clientView t w q pk m) =
        pick (nodeData t m w q) P (reducedOccurrences q)) →
      mergeIntermediateBitmapSlots (nodes.map (clientView t w q pk)) selectSlots =
        pick (fun id => parOr (nodes.map (fun m => nodeData t m w q id))) P
          (reducedOccurrences q) := by
    intro P _ selectSlots h
    exact mergeIntermediateBitmapSlots_map hne _ selectSlots _
      (fun m (o : Occurrence ι) => nodeData t m w q o.id) h
  have hand := hslots (Occurrence.IsDifference false false) andDifferences
    (fun _ _ => viewOf_differences q _ _ false)
  have hor := hslots (Occurrence.IsDifference false true) orDifferences
    (fun _ _ => viewOf_differences q _ _ true)
  have hint := hslots Occurrence.IsIntersect intersects
    (fun _ _ => viewOf_intersects q _ _)
  have hview : (nodes.map (fun m => nodeResult t m w q pk)).map
      (fun rs => ((new q.getRootIndex).unmarshalAndAdd rs).collapse) =
      nodes.map (clientView t w q pk) := map_map
  have hunion : ∀ r, r ∈ parOr [parOr ((nodes.map (clientView t w q pk)).map
      union)] ↔ ∃ o ∈ reducedOccurrences q, o.IsUnion ∧
        ∃ m ∈ nodes, r ∈ nodeData t m w q o.id := by
    intro r
    rw [parOr_singleton, map_map, mem_parOr]
    simp only [mem_map, Function.comp_apply, clientView_eq, viewOf_union,
      exists_exists_and_eq_and, mem_parOr, exists_mem_pick]
    constructor
    · rintro ⟨m, hm, o, ho, hu, hr⟩
      exact ⟨o, ho, hu, m, hm, hr⟩
    · rintro ⟨o, ho, hu, m, hm, hr⟩
      exact ⟨m, hm, o, ho, hu, hr⟩
  have hexist : ∀ r, r ∈ parOr [parOr (((nodes.map (clientView t w q pk)).map
      existence).filter (· ≠ ∅))] ↔
      ∃ m ∈ nodes, ∃ e, nodeExistence m w pk = some e ∧ r ∈ e := by
    intro r
    rw [parOr_singleton, mem_parOr_filter_ne_empty, map_map]
    simp [clientView_eq, mem_viewOf_existence]
  rw [mem_finalBitmap, queryGroupWholeFanout, hview]
  simp only [collapse, hand, hor, hint, pick_ne_nil, exists_mem_pick,
    forall_mem_pick, mem_ite_empty, hunion, hexist, mem_parOr, mem_map,
    exists_exists_and_eq_and]
  rw [selects_iff_parts]

end

/-! ## Placements -/

/-- The shards of a table placed on nodes.  `store` is one node that holds all of them; every
shard is held by the node that is a member for its key, and may be replicated elsewhere.  Two
shards of a bit-sliced field store no row with different values. -/
structure Placement where
  store : Node
  nodes : List Node
  nodes_ne_nil : nodes ≠ []
  store_member : ∀ key, store.member key = true
  bitmap_held : ∀ m ∈ nodes, ∀ s ∈ m.bitmapCache, s ∈ store.bitmapCache
  bitmap_placed : ∀ s ∈ store.bitmapCache, ∃ m ∈ nodes, s ∈ m.bitmapCache ∧
    m.member (.bitmap s.field s.rowID s.time) = true
  bsi_held : ∀ m ∈ nodes, ∀ s ∈ m.bsiCache, s ∈ store.bsiCache
  bsi_placed : ∀ s ∈ store.bsiCache, ∃ m ∈ nodes, s ∈ m.bsiCache ∧
    m.member (.bsi s.field s.time) = true
  bsi_agree : ∀ s ∈ store.bsiCache, ∀ s' ∈ store.bsiCache, s.field = s'.field →
    s.bsi.Agree s'.bsi

theorem mem_timeRangeBSI_compare {m : Node} {w : Window} {tq : TimeQuantum} {field : String}
    {p : ℤ → Bool} {row : ℕ} (hagree : ∀ s ∈ m.bsiCache, ∀ s' ∈ m.bsiCache, s.field = s'.field →
      s.bsi.Agree s'.bsi) :
    row ∈ (timeRangeBSI m w tq field).compare p ↔ ∃ s ∈ m.bsiCache,
      (s.field = field ∧ if tq = .none then s.time = 0
        else w.contains tq s.time = true ∧ m.member (.bsi field s.time) = true) ∧
        row ∈ s.bsi.compare p := by
  have hfilter : ∀ f : BSIShard → Bool, (∀ s, f s = true → s.field = field) →
      ∀ a ∈ (m.bsiCache.filter f).map BSIShard.bsi,
        ∀ b ∈ (m.bsiCache.filter f).map BSIShard.bsi, a.Agree b := by
    intro f hf a ha b hb
    obtain ⟨s, hs, rfl⟩ := mem_map.mp ha
    obtain ⟨s', hs', rfl⟩ := mem_map.mp hb
    rw [mem_filter] at hs hs'
    exact hagree s hs.1 s' hs'.1 ((hf s hs.2).trans (hf s' hs'.2).symm)
  have hexists : ∀ s : BSIShard, row ∈ s.bsi.compare p → s.bsi.existence ≠ ∅ := by
    intro s hrow
    obtain ⟨v, hget, _⟩ := Bsi.mem_compare.mp hrow
    exact Finset.ne_empty_of_mem (Bsi.mem_existence_iff.mpr ⟨v, hget⟩)
  unfold timeRangeBSI
  split_ifs with htq
  · rw [Bsi.mem_compare_orAll (hfilter _ (by simp +contextual))]
    simp [and_assoc]
  rw [Bsi.mem_compare_orAll (hfilter _ (by simp +contextual))]
  simp only [mem_map, mem_filter, Bool.and_eq_true, decide_eq_true_eq]
  constructor
  · rintro ⟨_, ⟨s, ⟨hs, ⟨⟨hf, hw⟩, hm⟩, _⟩, rfl⟩, hrow⟩
    exact ⟨s, hs, ⟨hf, hw, hm⟩, hrow⟩
  · rintro ⟨s, hs, ⟨hf, hw, hm⟩, hrow⟩
    exact ⟨s.bsi, ⟨s, ⟨hs, ⟨⟨hf, hw⟩, hm⟩, hexists s hrow⟩, rfl⟩, hrow⟩

namespace Placement

variable (pl : Placement)

theorem node_bsi_agree {m : Node} (hm : m ∈ pl.nodes) :
    ∀ s ∈ m.bsiCache, ∀ s' ∈ m.bsiCache, s.field = s'.field → s.bsi.Agree s'.bsi :=
  fun s hs s' hs' => pl.bsi_agree s (pl.bsi_held m hm s hs) s' (pl.bsi_held m hm s' hs')

section

variable (w : Window) (tq : TimeQuantum) (field : String)

theorem mem_timeRangeExistence_store (row : ℕ) :
    row ∈ timeRangeExistence pl.store w tq field ↔
      ∃ m ∈ pl.nodes, row ∈ timeRangeExistence m w tq field := by
  simp only [timeRangeExistence, mem_parOr, mem_map, mem_filter, exists_exists_and_eq_and]
  constructor
  · rintro ⟨s, ⟨hs, hsel⟩, hrow⟩
    obtain ⟨m, hm, hs', _⟩ := pl.bsi_placed s hs
    exact ⟨m, hm, s, ⟨hs', hsel⟩, hrow⟩
  · rintro ⟨m, hm, s, ⟨hs, hsel⟩, hrow⟩
    exact ⟨s, ⟨pl.bsi_held m hm s hs, hsel⟩, hrow⟩

theorem mem_timeRangeBSI_store (p : ℤ → Bool) (row : ℕ) :
    row ∈ (timeRangeBSI pl.store w tq field).compare p ↔
      ∃ m ∈ pl.nodes, row ∈ (timeRangeBSI m w tq field).compare p := by
  rw [mem_timeRangeBSI_compare pl.bsi_agree]
  constructor
  · rintro ⟨s, hs, ⟨hf, hsel⟩, hrow⟩
    obtain ⟨m, hm, hs', hmem⟩ := pl.bsi_placed s hs
    refine ⟨m, hm, (mem_timeRangeBSI_compare (pl.node_bsi_agree hm)).mpr
      ⟨s, hs', ⟨hf, ?_⟩, hrow⟩⟩
    subst hf
    split_ifs at hsel ⊢
    · exact hsel
    · exact ⟨hsel.1, hmem⟩
  · rintro ⟨m, hm, hrow⟩
    obtain ⟨s, hs, ⟨hf, hsel⟩, hrow⟩ :=
      (mem_timeRangeBSI_compare (pl.node_bsi_agree hm)).mp hrow
    refine ⟨s, pl.bsi_held m hm s hs, ⟨hf, ?_⟩, hrow⟩
    split_ifs at hsel ⊢
    · exact hsel
    · exact ⟨hsel.1, pl.store_member _⟩

theorem mem_timeRange_store (foundSet : Option Bitmap) (rowID row : ℕ) :
    row ∈ timeRange pl.store w tq field rowID foundSet ↔
      ∃ m ∈ pl.nodes, row ∈ timeRange m w tq field rowID foundSet := by
  simp only [mem_timeRange]
  constructor
  · rintro ⟨⟨s, hs, ⟨hf, hr, hw, _⟩, hrow⟩, hfs⟩
    obtain ⟨m, hm, hs', hmem⟩ := pl.bitmap_placed s hs
    subst hf hr
    exact ⟨m, hm, ⟨s, hs', ⟨rfl, rfl, hw, hmem⟩, hrow⟩, hfs⟩
  · rintro ⟨m, hm, ⟨s, hs, ⟨hf, hr, hw, _⟩, hrow⟩, hfs⟩
    exact ⟨⟨s, pl.bitmap_held m hm s hs, ⟨hf, hr, hw, pl.store_member _⟩, hrow⟩, hfs⟩

theorem mem_scan_store (row : ℕ) :
    (∃ x ∈ (listAllRowIDs pl.store field).map
        (fun r => timeRange pl.store w tq field r none), row ∈ x) ↔
      ∃ m ∈ pl.nodes, ∃ x ∈ (listAllRowIDs m field).map
        (fun r => timeRange m w tq field r none), row ∈ x := by
  constructor
  · rintro ⟨_, hx, h⟩
    obtain ⟨r, _, rfl⟩ := mem_map.mp hx
    obtain ⟨m, hm, h⟩ := (pl.mem_timeRange_store w tq field none r row).mp h
    exact ⟨m, hm, _, mem_map.mpr ⟨r, mem_listAllRowIDs_of_mem_timeRange h, rfl⟩, h⟩
  · rintro ⟨m, hm, _, hx, h⟩
    obtain ⟨r, _, rfl⟩ := mem_map.mp hx
    have h' := (pl.mem_timeRange_store w tq field none r row).mpr ⟨m, hm, h⟩
    exact ⟨_, mem_map.mpr ⟨r, mem_listAllRowIDs_of_mem_timeRange h', rfl⟩, h'⟩

end

/-- Without a found set the nodes together compute what the store computes. -/
theorem mem_evalOn_store (t : Table) (w : Window) (v : QueryFragment) (row : ℕ) :
    row ∈ evalOn t pl.store w v none ↔ ∃ m ∈ pl.nodes, row ∈ evalOn t m w v none := by
  unfold evalOn evalFragment
  split_ifs
  · exact pl.mem_timeRangeExistence_store w _ _ row
  · exact pl.mem_timeRangeBSI_store w _ _ _ row
  · simp only [mem_parOr_filter_ne_empty, mem_map, exists_exists_and_eq_and,
      pl.mem_timeRange_store]
    constructor
    · rintro ⟨raw, hraw, m, hm, h⟩
      exact ⟨m, hm, raw, hraw, h⟩
    · rintro ⟨m, hm, raw, hraw, h⟩
      exact ⟨raw, hraw, m, hm, h⟩
  · simp only [mem_parOr_filter_ne_empty]
    exact pl.mem_scan_store w _ _ row
  · simp
  · exact pl.mem_timeRange_store w _ _ _ _ row

end Placement

/-! ## Fan-out against one node -/

section

variable (pl : Placement) (t : Table) (w : Window) (q : BitmapQuery ι)

/-- The rows the query selects when every predicate is evaluated on all shards. -/
def StoreSelects (pk : Option (String × Attribute)) (row : ℕ) : Prop :=
  Selects (reducedOccurrences q) (fun o r => r ∈ evalOn t pl.store w o.fragment none)
    (fun r => ∃ e, nodeExistence pl.store w pk = some e ∧ r ∈ e) row

/-- Some node keeps the row for every plain intersect: it holds the row in a shard of the
predicate, and its own earlier plain intersects either keep the row too or have no row in
common at all. -/
def NodesKeep (row : ℕ) : Prop :=
  ∀ pre o post, q.root.occurrences = pre ++ o :: post → Plain o →
    ∃ m ∈ pl.nodes, row ∈ rawBitmap (evalOn t m w) o ∧ PassesPrior (evalOn t m w) pre row

section

variable (pk : Option (String × Attribute)) (row : ℕ)

/-- The answer of one node that holds all shards is what the predicates select. -/
theorem mem_wholeFanout_store (hvalued : AnswersValued t pl.store w q) :
    row ∈ finalBitmap (queryGroupWholeFanout q.getRootIndex
        ([pl.store].map (fun m => nodeResult t m w q pk))).collapse ↔
      StoreSelects pl t w q pk row := by
  rw [mem_wholeFanout t (cons_ne_nil _ _) w q pk row]
  simp only [mem_singleton, exists_eq_left]
  refine Iff.trans (and_iff_left_of_imp fun h o ho hplain => ?_).symm
    (selects_nodeData_iff t w q pl.store _ row)
  have ho' := mem_reducedOccurrences.mpr ⟨o, ho, rfl⟩
  have hrow := h.2 _ ho' (isIntersect_of_plain hplain)
  exact hvalued o ho hplain row hrow

/-- The merged answer of the nodes: the rows the predicates select and some node keeps. -/
theorem mem_wholeFanout_nodes (hvalued : ∀ m ∈ pl.nodes, AnswersValued t m w q) :
    row ∈ finalBitmap (queryGroupWholeFanout q.getRootIndex
        (pl.nodes.map (fun m => nodeResult t m w q pk))).collapse ↔
      StoreSelects pl t w q pk row ∧ NodesKeep pl t w q row := by
  rw [mem_wholeFanout t pl.nodes_ne_nil w q pk row]
  unfold StoreSelects Selects
  rw [and_assoc]
  refine and_congr (SelectsBase.congr ?_
    (by cases pk <;> simp [nodeExistence, pl.mem_timeRangeExistence_store])) ?_
  · intro o' ho' hkind r
    obtain ⟨o, ho, rfl⟩ := mem_reducedOccurrences.mp ho'
    have hplain := not_plain_of_not_intersect hkind
    rw [pl.mem_evalOn_store]
    exact exists_congr fun m => and_congr_right fun _ =>
      nodeData_of_not_plain t w q m ho hplain r
  · constructor
    · intro h
      refine ⟨fun o' ho' hint => ?_, fun pre o post hsplit hplain => ?_⟩
      · obtain ⟨m, hm, hrow⟩ := h o' ho' hint
        obtain ⟨o, ho, rfl⟩ := mem_reducedOccurrences.mp ho'
        obtain ⟨pre, post, hsplit⟩ := append_of_mem ho
        have hraw := ((mem_nodeData_iff t m w (hvalued m hm) hsplit row).mp hrow).1
        exact (pl.mem_evalOn_store t w _ row).mpr ⟨m, hm, hraw⟩
      · have ho : o ∈ q.root.occurrences := by
          rw [hsplit]
          exact mem_append_right _ mem_cons_self
        obtain ⟨m, hm, hrow⟩ := h _ (mem_reducedOccurrences.mpr ⟨o, ho, rfl⟩)
          (isIntersect_of_plain hplain)
        obtain ⟨hraw, hpass⟩ := (mem_nodeData_iff t m w (hvalued m hm) hsplit row).mp hrow
        exact ⟨m, hm, hraw, hpass hplain⟩
    · rintro ⟨hsel, hkeep⟩ o' ho' hint
      obtain ⟨o, ho, rfl⟩ := mem_reducedOccurrences.mp ho'
      obtain ⟨pre, post, hsplit⟩ := append_of_mem ho
      by_cases hplain : Plain o
      · obtain ⟨m, hm, hraw, hpass⟩ := hkeep pre o post hsplit hplain
        exact ⟨m, hm, (mem_nodeData_iff t m w (hvalued m hm) hsplit row).mpr
          ⟨hraw, fun _ => hpass⟩⟩
      · obtain ⟨m, hm, hraw⟩ := (pl.mem_evalOn_store t w _ row).mp (hsel _ ho' hint)
        exact ⟨m, hm, (nodeData_of_not_plain t w q m ho hplain row).mpr hraw⟩

end

end

/-- Where every row that a node returns for a plain intersect has a value on it, the fan-out of a
whole query returns what one node with all shards returns exactly when every row the predicates
select is kept by the nodes. -/
theorem wholeFanoutQuery_eq_store_iff (pl : Placement) (t : Table) (w : Window) (q : TableQuery ι)
    (hvalued : ∀ m ∈ pl.store :: pl.nodes, AnswersValued t m w q.toBitmapQuery) :
    wholeFanoutQuery t pl.nodes w q.toBitmapQuery =
        wholeFanoutQuery t [pl.store] w q.toBitmapQuery ↔
      ∀ pk, queryPlan t q.toBitmapQuery = .ok pk →
        ∀ row, StoreSelects pl t w q.toBitmapQuery pk row →
          NodesKeep pl t w q.toBitmapQuery row := by
  rw [forall_mem_cons] at hvalued
  rw [wholeFanoutQuery_eq t pl.nodes_ne_nil, wholeFanoutQuery_eq t (cons_ne_nil _ _)]
  cases queryPlan t q.toBitmapQuery with
  | error e => simp [Except.map]
  | ok pk =>
    simp only [Except.map, Except.ok.injEq, Finset.ext_iff,
      mem_wholeFanout_nodes _ _ _ _ _ _ hvalued.2, mem_wholeFanout_store _ _ _ _ _ _ hvalued.1,
      and_iff_left_iff_imp]
    constructor
    · rintro h pk' rfl
      exact h
    · intro h
      exact h pk rfl

/-! ## Two nodes -/

/-- Two nodes that are members for every key. -/
def pairPlacement (n₁ n₂ : Node) (h₁ : ∀ key, n₁.member key = true)
    (h₂ : ∀ key, n₂.member key = true)
    (hagree : ∀ s ∈ n₁.bsiCache ++ n₂.bsiCache, ∀ s' ∈ n₁.bsiCache ++ n₂.bsiCache,
      s.field = s'.field → s.bsi.Agree s'.bsi) : Placement where
  store := ⟨n₁.bitmapCache ++ n₂.bitmapCache, n₁.bsiCache ++ n₂.bsiCache, fun _ => true, n₁.blank⟩
  nodes := [n₁, n₂]
  nodes_ne_nil := by simp
  store_member _ := rfl
  bitmap_held := by simp +contextual
  bitmap_placed s hs := by
    rcases mem_append.mp hs with hs | hs
    · exact ⟨n₁, by simp, hs, h₁ _⟩
    · exact ⟨n₂, by simp, hs, h₂ _⟩
  bsi_held := by simp +contextual
  bsi_placed s hs := by
    rcases mem_append.mp hs with hs | hs
    · exact ⟨n₁, by simp, hs, h₁ _⟩
    · exact ⟨n₂, by simp, hs, h₂ _⟩
  bsi_agree := hagree

/-- Two plain intersects below a union. -/
def splitShardQuery : TableQuery ℕ where
  root := .node 0 { index := "orders", field := "u", rowID := 1, operation := .union }
    [.node 1 { index := "orders", field := "a", rowID := 1, operation := .intersect } [],
      .node 2 { index := "orders", field := "b", rowID := 1, operation := .intersect } []]
  ids_nodup := by decide
  index_eq := by decide
  set_operation := by decide
  unsampled := by decide

def splitShardTable : Table where
  timeQuantum := .none
  timeQuantumField := none
  primaryKey := ["id"]
  getAttribute _ := some ⟨.none, false⟩

/-- The first node holds the union and one shard of the first intersect. -/
def splitShardNode₁ : Node where
  bitmapCache := [⟨"u", 1, 0, {1, 2}⟩, ⟨"a", 1, 0, {1}⟩]
  bsiCache := []
  member _ := true

/-- The second node holds the other shard of the first intersect, and the second intersect. -/
def splitShardNode₂ : Node where
  bitmapCache := [⟨"a", 1, 1, {2}⟩, ⟨"b", 1, 0, {1, 2}⟩]
  bsiCache := []
  member _ := true

def splitShardPlacement : Placement :=
  pairPlacement splitShardNode₁ splitShardNode₂ (fun _ => rfl) (fun _ => rfl) (by
    simp [splitShardNode₁, splitShardNode₂])

/-- Row 1 is selected, but the second node drops it from the second intersect because its own
shard of the first intersect does not hold it. -/
theorem splitShard_fanout_loses_row :
    wholeFanoutQuery splitShardTable splitShardPlacement.nodes ⟨0, 0⟩
        splitShardQuery.toBitmapQuery = .ok {2} ∧
      wholeFanoutQuery splitShardTable [splitShardPlacement.store] ⟨0, 0⟩
        splitShardQuery.toBitmapQuery = .ok {1, 2} := by
  decide

/-- A row on a node of its own: in the union and the first intersect, with a value to compare. -/
def valueNode (row : ℕ) (v : ℤ) : Node where
  bitmapCache := [⟨"u", 1, 0, {row}⟩, ⟨"a", 1, 0, {row}⟩]
  bsiCache := [⟨"b", 0, Bsi.empty.setValue row v⟩]
  member _ := true

def valuePlacement : Placement :=
  pairPlacement (valueNode 1 1) (valueNode 2 5) (fun _ => rfl) (fun _ => rfl) (by
    simp [valueNode, Bsi.Agree, Bsi.setValue, Bsi.empty])

/-- A plain intersect and a comparison below a union. -/
def compareQuery : TableQuery ℕ where
  root := .node 0 { index := "orders", field := "u", rowID := 1, operation := .union }
    [.node 1 { index := "orders", field := "a", rowID := 1, operation := .intersect } [],
      .node 2 { index := "orders", field := "b", operation := .intersect, bsiOp := .lt, value := [3] }
        []]
  ids_nodup := by decide
  index_eq := by decide
  set_operation := by decide
  unsampled := by decide

/-- Every row is on one node, and the fan-out answers as one node does. -/
theorem values_fanout_eq_store :
    (∀ m ∈ valuePlacement.store :: valuePlacement.nodes,
        AnswersValued splitShardTable m ⟨0, 0⟩ compareQuery.toBitmapQuery) ∧
      ∀ pk, queryPlan splitShardTable compareQuery.toBitmapQuery = .ok pk →
        ∀ row, StoreSelects valuePlacement splitShardTable ⟨0, 0⟩ compareQuery.toBitmapQuery pk row →
          NodesKeep valuePlacement splitShardTable ⟨0, 0⟩ compareQuery.toBitmapQuery row := by
  have hvalued : ∀ m ∈ valuePlacement.store :: valuePlacement.nodes,
      AnswersValued splitShardTable m ⟨0, 0⟩ compareQuery.toBitmapQuery := by
    unfold AnswersValued ValuedOn HasValue
    decide
  exact ⟨hvalued, (wholeFanoutQuery_eq_store_iff _ _ _ compareQuery hvalued).mp (by decide +kernel)⟩

end QuantaStream.Query
