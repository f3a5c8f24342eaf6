import QuantaStream.Lib.KeyedPass
import QuantaStream.Server.ShardFiles
import QuantaStream.Server.SyncExchange

/-!
# Taking partitions off a node

Two requests take shards off a node.  `OfflinePartitions` selects the cached shards up to a time
and moves their files to the archive; the cleanup of stranded shards selects those whose key is no
longer placed on the node and removes their files.  Both put one operation for each shard into the
queue of the partition worker, which clears the directory of the shard and purges the shard from
the cache.
-/

namespace QuantaStream.Server

open List AList Place Outcome GoMap

/-! ## Requests -/

/-- The shards of a node: what is cached, and the files in the active directory. -/
structure ShardStore where
  cache : ShardCache
  files : Files

variable {Node : Type} [DecidableEq Node]

/-- `cleanupPartitionOwned`: a node that knows of no placement owns every shard. -/
def cleanupPartitionOwned (ring : Option (Ring Node)) (hashKey : Node) (k : ShardKey) : Bool :=
  match ring with
  | none => true
  | some ring =>
    ring.replicas = 0 || (ring.replicasOf k).isEmpty || (ring.replicasOf k).contains hashKey

/-- A request to take shards off a node: `OfflinePartitions` with a time and a table (all tables if
the name is empty), or `cleanupStrandedShards` on the node called `hashKey`. -/
inductive Removal (Node : Type) where
  | offline (time : ℤ) (index : String)
  | cleanup (ring : Option (Ring Node)) (hashKey : Node)

/-- The test that `OfflinePartitions` and `cleanupOp` make on each shard.  A request without a time
is refused and selects nothing. -/
def Removal.selects : Removal Node → ShardKey → Bool
  | .offline time index, k => 0 < time && k.time ≤ time && (index = "" || k.field.index = index)
  | .cleanup ring hashKey, k => !cleanupPartitionOwned ring hashKey k

/-- `iterateBSICache`, then `iterateBitmapCache`. -/
def iterateCaches (order : RangeOrder) (cache : ShardCache) : List ShardKey :=
  let shards := (cache.range order).map Prod.fst
  shards.filter (fun k => k matches .bsi _ _) ++ shards.filter (fun k => k matches .bitmap _)

/-! ## Operations -/

/-- How the process ends: the first primary key attribute of a table without any is read, or the
worker executes a nil operation. -/
inductive Crash where
  | indexOutOfRange
  | nilDereference
  deriving DecidableEq, Repr

variable (tables : TableCache)

/-- `NewPartitionOperation`: nil if the table or its primary key attributes are not found. -/
def newPartitionOperation (k : ShardKey) : Except Crash (Option ShardKey) :=
  match tables.lookup k.field.index with
  | none => .ok none
  | some table =>
    match getPrimaryKeyInfo table with
    | .error _ => .ok none
    | .ok [] => .error .indexOutOfRange
    | .ok (_ :: _) => .ok (some k)

/-- Whether a place lies below `generateBitmapFilePath` of a shard.  For an index that is the
directory of the shard; for a standard bitmap it is the directory of the row, or of one day of the
row with an hourly quantum. -/
def Place.below (tq : TimeQuantum) : ShardKey → Place → Bool
  | .bsi key time, .bsiBundle key' name => key' = key && name = shardName tq time
  | .bsi key time, .bsiSlice key' name _ => key' = key && name = shardName tq time
  | .bitmap k, .rowFile key rowID name =>
    key = k.key && rowID = k.rowID &&
      (tq ≠ .ymdh || name.day = (shardName tq k.time).day)
  | _, _ => false

/-- `executeOperation`: all files below the directory of the shard are moved away or removed. -/
def executeOperation (k : ShardKey) (files : Files) : Files :=
  files.restrict fun p => !p.below (quantum tables k.field) k

def purgePartition (k : ShardKey) (cache : ShardCache) : ShardCache := cache.erase k

/-- What `partitionProcessLoop` does with an operation. -/
def partitionProcess (s : ShardStore) : Option ShardKey → Except Crash ShardStore
  | none => .error .nilDereference
  | some k => .ok ⟨purgePartition k s.cache, executeOperation tables k s.files⟩

/-- A request, and the work of the partition worker on all operations it puts into the queue. -/
def removePartitions (order : RangeOrder) (r : Removal Node)
    (s : ShardStore) : Except Crash ShardStore := do
  let ops ← ((iterateCaches order s.cache).filter r.selects).mapM (newPartitionOperation tables)
  ops.foldlM (partitionProcess tables) s

omit [DecidableEq Node] in
variable {order : RangeOrder} {k : ShardKey}

theorem mem_iterateCaches {cache : ShardCache} : k ∈ iterateCaches order cache ↔ k ∈ cache := by
  have hmem : k ∈ (cache.range order).map Prod.fst ↔ k ∈ cache := by
    rw [mem_map, ← lookup_isSome, Option.isSome_iff_exists]
    constructor
    · rintro ⟨⟨_, e⟩, he, rfl⟩
      exact ⟨e, mem_range.mp he⟩
    · rintro ⟨e, he⟩
      exact ⟨(k, e), mem_range.mpr he, rfl⟩
  rw [iterateCaches, mem_append, mem_filter, mem_filter, hmem]
  cases k <;> simp

/-! ## The effect of a request -/

/-- The table of a shard is known and has a primary key or a time quantum field. -/
def Keyed (k : ShardKey) : Prop :=
  ∃ table name names,
    tables.lookup k.field.index = some table ∧ getPrimaryKeyInfo table = .ok (name :: names)

variable {tables : TableCache}

theorem newPartitionOperation_eq_some {k' : ShardKey} :
    newPartitionOperation tables k = .ok (some k') ↔ k' = k ∧ Keyed tables k := by
  unfold newPartitionOperation Keyed
  cases htable : tables.lookup k.field.index with
  | none => simp
  | some table =>
    cases hinfo : getPrimaryKeyInfo table with
    | error e => simp [hinfo]
    | ok names =>
      cases names with
      | nil => simp [hinfo]
      | cons name names => simp [hinfo, eq_comm]

/-- The operations for a list of shards, one after the other. -/
def clearShards (tables : TableCache) (ks : List ShardKey) (s : ShardStore) : ShardStore :=
  ks.foldl (fun s k => ⟨purgePartition k s.cache, executeOperation tables k s.files⟩) s

theorem lookup_cache_clearShards (tables : TableCache) (ks : List ShardKey) (s : ShardStore)
    (k : ShardKey) :
    (clearShards tables ks s).cache.lookup k = if k ∈ ks then none else s.cache.lookup k := by
  induction ks generalizing s with
  | nil => simp [clearShards]
  | cons k₀ ks ih =>
    rw [clearShards, foldl_cons, ← clearShards, ih, purgePartition, lookup_erase]
    by_cases hk : k = k₀
    · simp [hk]
    · simp [hk]

theorem lookup_files_clearShards (tables : TableCache) (ks : List ShardKey) (s : ShardStore)
    (p : Place) :
    (clearShards tables ks s).files.lookup p =
      if ks.any (fun k => p.below (quantum tables k.field) k) then none
      else s.files.lookup p := by
  induction ks generalizing s with
  | nil => simp [clearShards]
  | cons k₀ ks ih =>
    rw [clearShards, foldl_cons, ← clearShards, ih, executeOperation, lookup_restrict,
      any_cons]
    by_cases hbelow : p.below (quantum tables k₀.field) k₀ = true
    · simp [hbelow]
    · simp [hbelow]

variable {s : ShardStore}

/-- A worker that gets through the queue has met no nil operation. -/
theorem forall_isSome_of_foldlM {ops : List (Option ShardKey)} {s' : ShardStore}
    (h : ops.foldlM (partitionProcess tables) s = .ok s') : ∀ op ∈ ops, op.isSome := by
  induction ops generalizing s with
  | nil => simp
  | cons op ops ih =>
    obtain ⟨s₁, hfirst, hrest⟩ := KeyedPass.foldlM_cons_eq_ok h
    cases op with
    | none => cases hfirst
    | some k => exact forall_mem_cons.mpr ⟨rfl, ih hrest⟩

theorem foldlM_map_some (tables : TableCache) (ks : List ShardKey) (s : ShardStore) :
    (ks.map some).foldlM (partitionProcess tables) s = .ok (clearShards tables ks s) := by
  induction ks generalizing s with
  | nil => rfl
  | cons k ks ih =>
    exact ih _

/-- The shards a request puts operations into the queue for. -/
def selectedShards (order : RangeOrder) (r : Removal Node) (s : ShardStore) : List ShardKey :=
  (iterateCaches order s.cache).filter r.selects

theorem mem_selectedShards {r : Removal Node} :
    k ∈ selectedShards order r s ↔ k ∈ s.cache ∧ r.selects k = true := by
  rw [selectedShards, mem_filter, mem_iterateCaches]

/-- A request succeeds exactly when the tables of all selected shards have a primary key, and then
an operation is executed for each of them. -/
theorem removePartitions_eq_ok {r : Removal Node} {s' : ShardStore} :
    removePartitions tables order r s = .ok s' ↔
      (∀ k ∈ selectedShards order r s, Keyed tables k) ∧
        s' = clearShards tables (selectedShards order r s) s := by
  have hkeyed : (∀ k ∈ selectedShards order r s, Keyed tables k) →
      removePartitions tables order r s =
        .ok (clearShards tables (selectedShards order r s) s) := by
    intro hall
    have hops : (selectedShards order r s).mapM (newPartitionOperation tables) =
        .ok ((selectedShards order r s).map some) := by
      rw [mapM_eq_ok, forall₂_map_right_iff]
      exact forall₂_same.mpr fun k hk => newPartitionOperation_eq_some.mpr ⟨rfl, hall k hk⟩
    refine bind_eq_ok.mpr ⟨_, hops, ?_⟩
    exact foldlM_map_some tables _ s
  constructor
  · intro h
    have hall : ∀ k ∈ selectedShards order r s, Keyed tables k := by
      intro k hk
      obtain ⟨ops, hops, hfold⟩ := bind_eq_ok.mp h
      obtain ⟨op, hop, hnew⟩ := exists_result_of_mem hops hk
      obtain ⟨k', rfl⟩ := Option.isSome_iff_exists.mp (forall_isSome_of_foldlM hfold op hop)
      exact (newPartitionOperation_eq_some.mp hnew).2
    exact ⟨hall, Except.ok.inj (h.symm.trans (hkeyed hall))⟩
  · rintro ⟨hall, rfl⟩
    exact hkeyed hall

/-! ## Exact removal -/

/-- A node whose shards are aligned and whose files carry the names that the time quanta of their
fields give them. -/
structure NodeShards (tables : TableCache) extends ShardStore where
  aligned : AllAligned tables cache
  named : ∀ p ∈ files, p.WellNamed (quantum tables p.shard.field)

variable (tables : TableCache)

/-- The time-quantum partitions that a request selects. -/
def Wanted (r : Removal Node) (s : ShardStore) (k : ShardKey) : Prop :=
  k ∈ s.cache ∧ r.selects k = true ∧ quantum tables k.field ≠ .none

instance (tables : TableCache) (r : Removal Node) (s : ShardStore) (k : ShardKey) :
    Decidable (Wanted tables r s k) :=
  inferInstanceAs (Decidable (_ ∧ _ ∧ _))

/-- The node goes on, and the wanted partitions, and only they, are gone from memory and disk. -/
def RemovesExactly (order : RangeOrder) (r : Removal Node) (s : ShardStore) : Prop :=
  ∃ s', removePartitions tables order r s = .ok s' ∧
    (∀ k, s'.cache.lookup k = if Wanted tables r s k then none else s.cache.lookup k) ∧
    ∀ p, s'.files.lookup p = if Wanted tables r s p.shard then none else s.files.lookup p

/-- What makes a request remove the right shards: the tables of all selected shards have a time
quantum and a primary key, no bundle or pack holds a selected shard, and no file of another shard
lies below the directory of a selected one. -/
structure Removable (tables : TableCache) (r : Removal Node) (s : ShardStore) : Prop where
  keyed : ∀ k ∈ s.cache, r.selects k = true → Keyed tables k
  quantized : ∀ k ∈ s.cache, r.selects k = true → quantum tables k.field ≠ .none
  unbundled : ∀ p ∈ s.files, p.shard ∈ s.cache → r.selects p.shard = true → p.groupFile = none
  alone : ∀ k ∈ s.cache, r.selects k = true → ∀ p ∈ s.files,
    p.below (quantum tables k.field) k = true → p.shard ∈ s.cache ∧ r.selects p.shard = true

/-- A file of an older format lies below the directory of its own shard. -/
theorem below_shard {tq : TimeQuantum} {p : Place} (hnamed : p.WellNamed tq)
    (hgroup : p.groupFile = none) : p.below tq p.shard = true := by
  cases p with
  | packEntry key name | bundleEntry key rowID name => cases hgroup
  | bsiBundle key name | bsiSlice key name slice =>
    simpa [Place.below, Place.shard, Place.name] using Eq.symm hnamed
  | rowFile key rowID name =>
    cases tq with
    | none | ymd => simp [below, shard]
    | ymdh =>
      have hname : name = .dayStamp (name.time / hourNanos) := by
        simpa [WellNamed, legacyStandardBitmapShardPaths] using hnamed
      simp only [below, shard, shardName, ← hname]
      simp

/-- A request removes exactly the selected time-quantum partitions iff the tables of all selected
shards have a time quantum and a primary key, no bundle or pack holds a selected shard, and no file
of another shard lies below the directory of a selected one. -/
theorem removePartitions_exact_iff (order : RangeOrder) (r : Removal Node) (s : NodeShards tables) :
    RemovesExactly tables order r s.toShardStore ↔ Removable tables r s.toShardStore := by
  constructor
  · rintro ⟨s', hok, hcache, hfiles⟩
    obtain ⟨hkeyed, rfl⟩ := removePartitions_eq_ok.mp hok
    -- A selected shard is purged, so it has to be a wanted one.
    have hwanted : ∀ k ∈ s.cache, r.selects k = true → Wanted tables r s.toShardStore k := by
      intro k hk hsel
      by_contra hnot
      have hlookup := hcache k
      rw [lookup_cache_clearShards, if_pos (mem_selectedShards.mpr ⟨hk, hsel⟩),
        if_neg hnot] at hlookup
      exact absurd hk (lookup_eq_none.mp hlookup.symm)
    refine ⟨fun k hk hsel => hkeyed k (mem_selectedShards.mpr ⟨hk, hsel⟩),
      fun k hk hsel => (hwanted k hk hsel).2.2, ?_, ?_⟩
    · intro p hp hk hsel
      have hlookup := hfiles p
      rw [lookup_files_clearShards, if_pos (hwanted _ hk hsel)] at hlookup
      split at hlookup
      next hany =>
        obtain ⟨k, -, hbelow⟩ := any_eq_true.mp hany
        cases p <;> cases k <;> first | rfl | cases hbelow
      next => exact absurd hp (lookup_eq_none.mp hlookup)
    · intro k hk hsel p hp hbelow
      have hlookup := hfiles p
      have hany : (selectedShards order r s.toShardStore).any
          (fun k => p.below (quantum tables k.field) k) = true :=
        any_eq_true.mpr ⟨k, mem_selectedShards.mpr ⟨hk, hsel⟩, hbelow⟩
      rw [lookup_files_clearShards, if_pos hany] at hlookup
      by_contra hnot
      rw [if_neg fun hw => hnot ⟨hw.1, hw.2.1⟩] at hlookup
      exact absurd hp (lookup_eq_none.mp hlookup.symm)
  · intro h
    refine ⟨_, removePartitions_eq_ok.mpr ⟨fun k hk => ?_, rfl⟩, fun k => ?_, fun p => ?_⟩
    · obtain ⟨hk, hsel⟩ := mem_selectedShards.mp hk
      exact h.keyed k hk hsel
    · have hiff : k ∈ selectedShards order r s.toShardStore ↔ Wanted tables r s.toShardStore k :=
        mem_selectedShards.trans
          ⟨fun hk => ⟨hk.1, hk.2, h.quantized k hk.1 hk.2⟩, fun hk => ⟨hk.1, hk.2.1⟩⟩
      rw [lookup_cache_clearShards]
      exact if_congr hiff rfl rfl
    · rw [lookup_files_clearShards]
      by_cases hp : p ∈ s.files
      · refine if_congr ?_ rfl rfl
        rw [any_eq_true]
        constructor
        · rintro ⟨k, hk, hbelow⟩
          obtain ⟨hk, hsel⟩ := mem_selectedShards.mp hk
          obtain ⟨hshard, hshardSel⟩ := h.alone k hk hsel p hp hbelow
          exact ⟨hshard, hshardSel, h.quantized _ hshard hshardSel⟩
        · rintro ⟨hk, hsel, -⟩
          exact ⟨p.shard, mem_selectedShards.mpr ⟨hk, hsel⟩,
            below_shard (s.named p hp) (h.unbundled p hp hk hsel)⟩
      · rw [lookup_eq_none.mpr hp, ite_self, ite_self]

def dailyTable : Table where
  timeQuantum := .ymd
  timeQuantumField := some "day"
  primaryKey := ["id"]
  getAttribute _ := some ⟨.none, false⟩

/-- The shard of a row for one day after the epoch. -/
def dayShard (day : ℤ) : BitmapKey := ⟨⟨"orders", "color"⟩, 1, day * (24 * hourNanos)⟩

/-- Two days of a row, cached and in row files. -/
def twoDays : NodeShards (singleton "orders" dailyTable) where
  cache := (singleton (.bitmap (dayShard 1)) ⟨[[1]], 1, 1⟩).insert
    (.bitmap (dayShard 2)) ⟨[[2]], 1, 1⟩
  files := (singleton (.rowFile ⟨"orders", "color"⟩ 1 (.stamp 24)) ⟨[[1]], 1⟩).insert
    (.rowFile ⟨"orders", "color"⟩ 1 (.stamp 48)) ⟨[[2]], 1⟩
  aligned k hk := by
    rcases mem_insert _ |>.mp hk with rfl | hk
    · exact ⟨2, rfl⟩
    · cases mem_singleton.mp hk
      exact ⟨1, rfl⟩
  named p hp := by
    rcases mem_insert _ |>.mp hp with rfl | hp
    · exact mem_singleton.mpr rfl
    · cases mem_singleton.mp hp
      exact mem_singleton.mpr rfl

/-- Taking the first day offline also takes the file of the second day: both lie in the directory
of the row. -/
theorem later_shard_removed :
    ¬ RemovesExactly (singleton "orders" dailyTable) .asKept
      (.offline (24 * hourNanos) "orders" : Removal ℕ) twoDays.toShardStore := by
  rintro ⟨s', hok, -, hfiles⟩
  obtain ⟨-, rfl⟩ := removePartitions_eq_ok.mp hok
  have hlater := hfiles (.rowFile ⟨"orders", "color"⟩ 1 (.stamp 48))
  revert hlater
  decide

end QuantaStream.Server
