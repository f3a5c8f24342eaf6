import QuantaStream.Server.PersistPass
import QuantaStream.Server.StartupLoad

/-!
# Savepoints

`Commit` makes a savepoint: it writes the bundles and packs of all groups with a dirty shard, and a
manifest that lists the bundle or pack of every cached shard.  If nothing is dirty a usable manifest
is kept as it is; without one the manifest is written anew, and only if that does not help all
groups are written.
-/

namespace QuantaStream.Server

section

variable (tables : TableCache)

/-! ## Writing groups -/

/-- The groups that a persistence pass writes: those with a dirty shard, or all. -/
def dirtyGroups (forceSync : Bool) (cache : ShardCache) : List GroupFile :=
  ((cache.entries.filter fun e => forceSync || e.2.dirty).map fun e => groupFile tables e.1).dedup

variable (cache : ShardCache)

def persistGroups (now : Time) (groups : List GroupFile) (files : Files) : Files :=
  groups.foldl (fun files g => writeGroup tables cache now g files) files

/-- The shards of the groups that were written are marked as persisted. -/
def markPersisted (persistedAt : Time) (groups : List GroupFile) (cache : ShardCache) :
    ShardCache :=
  cache.mapValues fun k e =>
    if groupFile tables k ∈ groups then { e with persistTime := persistedAt } else e

variable {tables}

/-- What is stored after groups have been written. -/
theorem lookup_persistGroups {cache : ShardCache} (haligned : AllAligned tables cache)
    (now : Time) (groups : List GroupFile) (files : Files) (p : Place) :
    (persistGroups tables cache now groups files).lookup p =
      if p.groupFile.any (fun g => decide (g ∈ groups)) then
        if groupPlace tables p.shard = p then
          (cache.lookup p.shard).map fun e => ⟨e.contents, now⟩
        else none
      else if groups.any (fun g => p.replacedBy tables g) then none
      else files.lookup p := by
  induction groups generalizing files with
  | nil => cases hp : p.groupFile <;> simp [persistGroups]
  | cons g groups ih =>
    rw [persistGroups, List.foldl_cons, ← persistGroups, ih, lookup_writeGroup haligned]
    cases hp : p.groupFile with
    | none => by_cases hreplaced : p.replacedBy tables g = true <;> simp [hreplaced]
    | some g' =>
      have hreplaced : ∀ g, p.replacedBy tables g = false := fun g =>
        Place.replacedBy_groupFile hp
      by_cases hmem : g' ∈ groups
      · simp [hmem]
      · by_cases hg : g' = g
        · simp [hg, hreplaced]
        · simp [hmem, hg, hreplaced]

/-! ## Savepoints -/

variable (tables)

/-- The time the manifest gives to a cached shard. -/
def CacheEntry.manifestTime {β : Type} (e : CacheEntry β) : Time :=
  if e.persistTime = 0 then e.modTime else e.persistTime

/-- The time the manifest gives to a standard bundle: that of its newest row. -/
def groupTime (g : GroupFile) : Time :=
  ((cache.entries.filter fun e => groupFile tables e.1 = g).map
    fun e => e.2.manifestTime).foldl max 0

/-- The standard bundle of a shard. -/
def standardGroup : ShardKey → Option (FieldKey × ShardName)
  | .bitmap k => some (k.key, shardName (quantum tables k.key) k.time)
  | .bsi _ _ => none

/-- The entry for the index of a shard. -/
def packEntry (k : ShardKey) (e : CacheEntry BitData) : Option ManifestEntry :=
  match k with
  | .bitmap _ => none
  | .bsi key time => some (.bsiPack key (shardName (quantum tables key) time) e.manifestTime)

/-- The manifest of `saveBitmapShardManifestFromCache`: each standard bundle, and each index in
its pack. -/
def manifestFromCache : List ManifestEntry :=
  (cache.entries.filterMap fun e => standardGroup tables e.1).dedup.map
      (fun g => .standardBundle g.1 g.2 (groupTime tables cache (.standardBundle g.1 g.2))) ++
    cache.entries.filterMap fun e => packEntry tables e.1 e.2

/-- `saveBitmapShardManifestFromCache`; for empty caches the manifest is removed. -/
def saveManifest (files : Files) : Disk where
  files := files
  manifest := some (manifestFromCache tables cache) |>.filter fun entries => !entries.isEmpty

def cacheHasDirtyEntries : Bool := cache.entries.any fun e => e.2.dirty

variable (now persistedAt : Time)

/-- `Commit`, after the queue has been flushed.  The files are written at the time `now` and the
shards marked with the time `persistedAt`. -/
def commit (cache : ShardCache) (d : Disk) : ShardCache × Disk :=
  let hasDirty := cacheHasDirtyEntries cache
  if !hasDirty && (observeManifest d).isSome then (cache, d)
  else
    let d := if hasDirty then d else saveManifest tables cache d.files
    if !hasDirty && (observeManifest d).isSome then (cache, d)
    else
      let groups := dirtyGroups tables (!hasDirty) cache
      let files := persistGroups tables cache now groups d.files
      let marked := markPersisted tables persistedAt groups cache
      if groups ≠ [] then (marked, saveManifest tables marked files)
      else if (observeManifest ⟨files, d.manifest⟩).isSome then (marked, ⟨files, d.manifest⟩)
      else (marked, saveManifest tables marked files)

def keepsManifest (d : Disk) : Bool :=
  !cacheHasDirtyEntries cache && (observeManifest d).isSome

def writtenGroups (d : Disk) : List GroupFile :=
  if cacheHasDirtyEntries cache then dirtyGroups tables false cache
  else if (observeManifest d).isSome ||
      (observeManifest (saveManifest tables cache d.files)).isSome then []
  else dirtyGroups tables true cache

def committedDisk (cache : ShardCache) (d : Disk) : Disk :=
  if keepsManifest cache d then d
  else
    saveManifest tables (markPersisted tables persistedAt (writtenGroups tables cache d) cache)
      (persistGroups tables cache now (writtenGroups tables cache d) d.files)

variable {tables}

theorem markPersisted_nil (persistedAt : Time) (cache : ShardCache) :
    markPersisted tables persistedAt [] cache = cache := by
  simp [markPersisted, GoMap.mapValues]

theorem dirtyGroups_eq_nil {forceSync : Bool} {cache : ShardCache} :
    dirtyGroups tables forceSync cache = [] ↔
      ∀ e ∈ cache.entries, (forceSync || e.2.dirty) = false := by
  simp [dirtyGroups, List.filter_eq_nil_iff]

@[simp]
theorem files_saveManifest (files : Files) : (saveManifest tables cache files).files = files := rfl

/-- What a savepoint leaves on disk. -/
theorem commit_disk (cache : ShardCache) (d : Disk) :
    (commit tables now persistedAt cache d).2 = committedDisk tables now persistedAt cache d := by
  unfold commit committedDisk keepsManifest writtenGroups
  cases hdirty : cacheHasDirtyEntries cache with
  | true =>
    have hgroups : dirtyGroups tables false cache ≠ [] := by
      intro hnil
      obtain ⟨e, he, hd⟩ := List.any_eq_true.mp hdirty
      have := dirtyGroups_eq_nil.mp hnil e he
      simp [hd] at this
    simp [hgroups]
  | false =>
    cases hobs : observeManifest d with
    | some entries => simp
    | none =>
      cases hsaved : observeManifest (saveManifest tables cache d.files) with
      | some entries => simp [hsaved, markPersisted_nil, persistGroups]
      | none =>
        by_cases hgroups : dirtyGroups tables true cache = []
        · have hempty : cache.entries = [] := by
            refine List.eq_nil_iff_forall_not_mem.mpr fun e he => ?_
            simpa using dirtyGroups_eq_nil.mp hgroups e he
          simp [hgroups, persistGroups, saveManifest, manifestFromCache, hempty,
            observeManifest]
        · simp [hsaved, hgroups]

end

end QuantaStream.Server
