import QuantaStream.Server.PartitionRemoval
import QuantaStream.Server.Savepoint

/-!
# Removed partitions and restarts

A history of a node is a sequence of writes, savepoints and requests that take partitions off the
node.  A partition that was taken off and has not been written since should be gone for good.  The
requests clear the directory of the shard, but today's bundles and packs lie elsewhere, so a
partition that was ever saved to one of them is loaded again.
-/

namespace QuantaStream.Server

open List AList Run

/-! ## Histories -/

/-- A node in the course of a history; `removed` are the partitions that were taken off the node
and not written since. -/
structure HistoryState where
  cache : ShardCache
  disk : Disk
  removed : List ShardKey

/-- The shards with a time that starts a quantum of their table. -/
abbrev AlignedShard (tables : TableCache) :=
  { k : ShardKey // (quantum tables k.field).Aligned k.time }

/-- The events of a history: a fragment changes a shard, `Commit`, and a request that takes
partitions off the node. -/
inductive HistoryEvent (tables : TableCache) (Node : Type) where
  | write (shard : AlignedShard tables) (data : BitData) (time : Time)
  | commit (now persistedAt : Time)
  | remove (order : RangeOrder) (r : Removal Node)

variable {tables : TableCache} {Node : Type} [DecidableEq Node]

/-- The persist time of a shard, zero for one that is not cached. -/
def persistTimeOf (cache : ShardCache) (k : ShardKey) : Time :=
  match cache.lookup k with
  | none => 0
  | some e => e.persistTime

/-- The node after an event.  A request that ends the process removes nothing. -/
def historyStep (s : HistoryState) : HistoryEvent tables Node → HistoryState
  | .write shard data time =>
    { s with
      cache := s.cache.insert shard.1 ⟨data, time, persistTimeOf s.cache shard.1⟩
      removed := s.removed.filter (· ≠ shard.1) }
  | .commit now persistedAt =>
    { s with
      cache := (commit tables now persistedAt s.cache s.disk).1
      disk := (commit tables now persistedAt s.cache s.disk).2 }
  | .remove order r =>
    match removePartitions tables order r ⟨s.cache, s.disk.files⟩ with
    | .ok s' =>
      { cache := s'.cache
        disk := { s.disk with files := s'.files }
        removed := selectedShards order r ⟨s.cache, s.disk.files⟩ ++ s.removed }
    | .error _ => s

/-- A request meets its shards only in files below their own directories, so in none of the bundles
and packs that hold several shards. -/
def MeetsOldFormats (s : HistoryState) : HistoryEvent tables Node → Prop
  | .remove _ r => ∀ p ∈ s.disk.files, p.shard ∈ s.cache → r.selects p.shard = true →
      p.below (quantum tables p.shard.field) p.shard = true
  | _ => True

/-! ## What the events keep -/

section

variable {now persistedAt : Time} {cache : ShardCache} {d : Disk} {k : ShardKey}

theorem mem_commit_cache : k ∈ (commit tables now persistedAt cache d).1 ↔ k ∈ cache := by
  have hmarked : ∀ groups, k ∈ markPersisted tables persistedAt groups cache ↔ k ∈ cache := by
    intro groups
    rw [← lookup_isSome, markPersisted, GoMap.lookup_mapValues, Option.isSome_map,
      lookup_isSome]
  unfold commit
  dsimp only
  split
  · rfl
  generalize (if cacheHasDirtyEntries cache = true then d
    else saveManifest tables cache d.files) = d'
  split
  · rfl
  · split
    · exact hmarked _
    · split <;> exact hmarked _

/-- A savepoint stores data of cached shards only. -/
theorem holds_commit (haligned : AllAligned tables cache)
    (h : Holds (commit tables now persistedAt cache d).2.files k) : k ∈ cache ∨ Holds d.files k := by
  rw [commit_disk, committedDisk] at h
  split at h
  · exact .inr h
  obtain ⟨p, hp, rfl⟩ := h
  rw [files_saveManifest, ← lookup_isSome, lookup_persistGroups haligned] at hp
  split at hp
  · split at hp
    · rw [Option.isSome_map, lookup_isSome] at hp
      exact .inl hp
    · cases hp
  · split at hp
    · cases hp
    · exact .inr ⟨p, lookup_isSome.mp hp, rfl⟩

end

/-- Removed partitions are neither cached nor in any file. -/
structure RemovedGone (tables : TableCache) (s : HistoryState) : Prop where
  aligned : AllAligned tables s.cache
  uncached : ∀ k ∈ s.removed, k ∉ s.cache
  unheld : ∀ k ∈ s.removed, ¬ Holds s.disk.files k

/-- A request that clears the directories of its shards leaves nothing of them. -/
theorem RemovedGone.remove {s : HistoryState} (h : RemovedGone tables s) (order : RangeOrder)
    (r : Removal Node) (hold : MeetsOldFormats s (.remove order r : HistoryEvent tables Node)) :
    RemovedGone tables (historyStep s (.remove order r : HistoryEvent tables Node)) := by
  simp only [historyStep]
  split
  next s' hok =>
    obtain ⟨-, rfl⟩ := removePartitions_eq_ok.mp hok
    set selected := selectedShards order r ⟨s.cache, s.disk.files⟩
    have hcache : ∀ k ∈ (clearShards tables selected ⟨s.cache, s.disk.files⟩).cache,
        k ∉ selected ∧ k ∈ s.cache := by
      intro k hk
      rw [← lookup_isSome, lookup_cache_clearShards] at hk
      split at hk
      · cases hk
      next hnot => exact ⟨hnot, lookup_isSome.mp hk⟩
    refine ⟨fun k hk => h.aligned k (hcache k hk).2, fun k hk hin => ?_, ?_⟩
    · rcases mem_append.mp hk with hk | hk
      · exact (hcache k hin).1 hk
      · exact h.uncached k hk (hcache k hin).2
    · rintro k hk ⟨p, hp, rfl⟩
      rw [← lookup_isSome, lookup_files_clearShards] at hp
      split at hp
      · cases hp
      next hany =>
        have hmem : p ∈ s.disk.files := lookup_isSome.mp hp
        rcases mem_append.mp hk with hk | hk
        · obtain ⟨hin, hselects⟩ := mem_selectedShards.mp hk
          exact hany (any_eq_true.mpr ⟨p.shard, hk, hold p hmem hin hselects⟩)
        · exact h.unheld p.shard hk ⟨p, hmem, rfl⟩
  next => exact h

theorem RemovedGone.step {s : HistoryState} (h : RemovedGone tables s)
    (e : HistoryEvent tables Node) (he : MeetsOldFormats s e) :
    RemovedGone tables (historyStep s e) := by
  cases e with
  | write shard data time =>
    refine ⟨fun k hk => ?_, fun k hk hin => ?_, fun k hk => ?_⟩
    · rcases mem_insert _ |>.mp hk with rfl | hk
      · exact shard.2
      · exact h.aligned k hk
    · obtain ⟨hk, hne⟩ := mem_filter.mp hk
      rcases mem_insert _ |>.mp hin with rfl | hin
      · simp at hne
      · exact h.uncached k hk hin
    · exact h.unheld k (mem_of_mem_filter hk)
  | commit now persistedAt =>
    refine ⟨fun k hk => h.aligned k (mem_commit_cache.mp hk), fun k hk hin => ?_,
      fun k hk hheld => ?_⟩
    · exact h.uncached k hk (mem_commit_cache.mp hin)
    · rcases holds_commit h.aligned hheld with hin | hheld
      · exact h.uncached k hk hin
      · exact h.unheld k hk hheld
  | remove order r => exact h.remove order r he

/-- If no request meets a shard that is in a bundle or pack, then a removed partition that has not
been written since is not loaded by a restart, with or without the manifest. -/
theorem removed_partitions_stay_away (cache : ShardCache) (disk : Disk)
    (haligned : AllAligned tables cache) (es : List (HistoryEvent tables Node))
    (hes : Meets historyStep MeetsOldFormats ⟨cache, disk, []⟩ es) (useManifest : Bool)
    (fragments : Fragments) (hread : readBitmapFiles tables useManifest
      (exec historyStep ⟨cache, disk, []⟩ es).disk = .ok fragments) :
    ∀ k ∈ (exec historyStep ⟨cache, disk, []⟩ es).removed, fragments.lookup k = none := by
  have hinit : RemovedGone tables ⟨cache, disk, []⟩ :=
    ⟨haligned, fun k hk => absurd hk not_mem_nil, fun k hk => absurd hk not_mem_nil⟩
  have hgone : RemovedGone tables (exec historyStep ⟨cache, disk, []⟩ es) :=
    exec_induction historyStep (fun s e hs he => hs.step e he) hinit hes
  intro k hk
  exact lookup_readBitmapFiles_eq_none hread (hgone.unheld k hk)

/-- The tables of the histories below: orders with daily partitions. -/
abbrev dailyTables : TableCache := singleton "orders" dailyTable

def firstDay : AlignedShard dailyTables := ⟨.bitmap (dayShard 1), ⟨1, rfl⟩⟩

def firstDayOffline : HistoryEvent dailyTables ℕ :=
  .remove .asKept (.offline (24 * hourNanos) "orders")

def rowFileDisk : Disk where
  files := singleton (.rowFile ⟨"orders", "color"⟩ 1 (.stamp 24)) ⟨[[1]], 5⟩
  manifest := none

/-- The first day as it is cached after a start from its row file. -/
def firstDayCache : ShardCache := singleton firstDay.1 ⟨[[1]], 5, 5⟩

theorem row_file_stays_away :
    (exec historyStep ⟨firstDayCache, rowFileDisk, []⟩ [firstDayOffline]).removed =
        [firstDay.1] ∧
      ∀ useManifest fragments, readBitmapFiles dailyTables useManifest
        (exec historyStep ⟨firstDayCache, rowFileDisk, []⟩ [firstDayOffline]).disk =
          .ok fragments → fragments.lookup firstDay.1 = none := by
  refine ⟨by decide, fun useManifest fragments hread => ?_⟩
  have haligned : AllAligned dailyTables firstDayCache := by
    intro k hk
    cases mem_singleton.mp hk
    exact firstDay.2
  refine removed_partitions_stay_away firstDayCache rowFileDisk haligned [firstDayOffline]
    ⟨?_, trivial⟩ useManifest fragments hread firstDay.1 (by decide)
  intro p hp hk hsel
  cases mem_singleton.mp hp
  decide

/-- A partition that is saved and then taken offline is loaded again, with the manifest and
without it. -/
theorem saved_partition_reappears :
    let s := exec historyStep ⟨∅, ⟨∅, none⟩, []⟩
      [.write firstDay [[1]] 5, .commit 6 7, firstDayOffline]
    s.removed = [firstDay.1] ∧ s.cache.lookup firstDay.1 = none ∧
      ∀ useManifest, ((readBitmapFiles dailyTables useManifest s.disk).toOption.bind
        fun fragments => fragments.lookup firstDay.1).map Stored.data = some [[1]] := by
  decide

end QuantaStream.Server
