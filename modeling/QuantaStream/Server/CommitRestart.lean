import QuantaStream.Server.Savepoint
import QuantaStream.Server.ShardReading

/-!
# A restart after a savepoint

A savepoint writes the bundles and packs of the dirty groups and leaves older files where they are,
apart from the row files that a standard bundle replaces.  A restart then reads new and old files
together.  This module compares what it loads, by manifest or by walk, with the caches at the time
of the savepoint.
-/

namespace QuantaStream.Server

open List Option AList ShardName Place GoMap Stored

/-- The fragments are those of the cached shards, with their contents. -/
def Fragments.Agrees (fragments : Fragments) (cache : ShardCache) : Prop :=
  ∀ k, (fragments.lookup k).map data = (cache.lookup k).map CacheEntry.contents

/-- The caches of a node at a savepoint, and what earlier formats have left on disk for the same
shards.  The files are written at the time `now`. -/
structure SavedState (tables : TableCache) where
  cache : ShardCache
  disk : Disk
  now : Time
  persistedAt : Time
  aligned : AllAligned tables cache
  known : ∀ k ∈ cache, (fieldQuantum? tables k.field).isSome
  named : ∀ k ∈ cache,
    k.field.index ≠ "" ∧ k.field.field ≠ "" ∧ k.field.field ≠ bsiPackLeafDir
  existence : ∀ key t e, cache.lookup (.bsi key t) = some e → e.contents.headD [] ≠ []
  same : ∀ p ∈ disk.files, p.shard ∈ cache ∧ p.WellNamed (quantum tables p.shard.field)
  older : ∀ p f, disk.files.lookup p = some f → f.modTime < now

namespace SavedState

variable {tables : TableCache} (s : SavedState tables)

def committed : Disk := (commit tables s.now s.persistedAt s.cache s.disk).2

/-- The savepoint writes the bundle or pack of the shard. -/
def Writes (k : ShardKey) : Prop := groupFile tables k ∈ writtenGroups tables s.cache s.disk

instance (k : ShardKey) : Decidable (s.Writes k) :=
  inferInstanceAs (Decidable (_ ∈ _))

/-! ## Files after the savepoint -/

theorem files_committed :
    s.committed.files =
      persistGroups tables s.cache s.now (writtenGroups tables s.cache s.disk) s.disk.files := by
  rw [committed, commit_disk, committedDisk]
  split
  next hkeeps =>
    obtain ⟨hdirty, hobs⟩ := Bool.and_eq_true_iff.mp hkeeps
    have hnil : writtenGroups tables s.cache s.disk = [] := by
      rw [writtenGroups, if_neg (by simpa using hdirty), if_pos (by simp [hobs])]
    rw [hnil]
    rfl
  next => rfl

theorem mem_writtenGroups {g : GroupFile} (h : g ∈ writtenGroups tables s.cache s.disk) :
    ∃ k ∈ s.cache, groupFile tables k = g := by
  have hdirty : ∀ {forceSync}, g ∈ dirtyGroups tables forceSync s.cache →
      ∃ k ∈ s.cache, groupFile tables k = g := by
    intro forceSync h
    obtain ⟨e, he, rfl⟩ := mem_map.mp (mem_dedup.mp h)
    exact ⟨e.1, mem_keys_of_mem (mem_of_mem_filter he), rfl⟩
  unfold writtenGroups at h
  split_ifs at h
  · exact hdirty h
  · cases h
  · exact hdirty h

theorem lookup_committed (p : Place) :
    s.committed.files.lookup p =
      if p.groupFile.any (fun g => decide (g ∈ writtenGroups tables s.cache s.disk)) then
        if groupPlace tables p.shard = p then
          (s.cache.lookup p.shard).map fun e => ⟨e.contents, s.now⟩
        else none
      else if (writtenGroups tables s.cache s.disk).any (fun g => p.replacedBy tables g) then none
      else s.disk.files.lookup p := by
  rw [files_committed]
  exact lookup_persistGroups s.aligned s.now _ s.disk.files p

variable {p : Place}

theorem lookup_uncached (h : p.shard ∉ s.cache) : s.committed.files.lookup p = none := by
  rw [lookup_committed, lookup_eq_none.mpr h,
    lookup_eq_none.mpr fun hp : p ∈ s.disk.files => h (s.same p hp).1]
  simp

variable {e : CacheEntry BitData} {k : ShardKey}

theorem lookup_written (hk : s.cache.lookup k = some e) (hw : s.Writes k) :
    s.committed.files.lookup (groupPlace tables k) = some ⟨e.contents, s.now⟩ := by
  have hmem := mem_of_lookup hk
  have hshard := shard_groupPlace tables (s.aligned k hmem)
  rw [lookup_committed, if_pos, hshard, if_pos rfl, hk]
  · rfl
  · rw [groupFile_groupPlace, any_some]
    exact decide_eq_true hw

variable {t : ℤ}

theorem time_of_legacy {tq : TimeQuantum} (h : tq.Aligned t) {name : ShardName}
    (hname : name ∈ legacyStandardBitmapShardPaths tq t) : name.time = t := by
  cases tq with
  | none =>
    have ht : t = 0 := h
    subst ht
    simp only [legacyStandardBitmapShardPaths, mem_cons, not_mem_nil, or_false] at hname
    rcases hname with rfl | rfl <;> rfl
  | ymd | ymdh =>
    rw [mem_singleton.mp hname]
    exact time_shardName h

theorem lookup_unwritten (h : ¬ s.Writes p.shard) :
    s.committed.files.lookup p = s.disk.files.lookup p := by
  by_cases hmem : p.shard ∈ s.cache
  swap
  · rw [s.lookup_uncached hmem]
    exact (lookup_eq_none.mpr fun hp => hmem (s.same p hp).1).symm
  have hgroup : p ∈ s.disk.files → p.groupFile.any
      (fun g => decide (g ∈ writtenGroups tables s.cache s.disk)) = false := by
    intro hp
    obtain ⟨-, hnamed⟩ := s.same p hp
    cases p with
    | packEntry key name | bundleEntry key rowID name =>
      have hname : shardName (quantum tables key) name.time = name := hnamed
      simpa [Writes, groupFile, Place.shard, Place.groupFile, hname] using h
    | _ => rfl
  have hreplaced : (writtenGroups tables s.cache s.disk).any (fun g => p.replacedBy tables g) =
      false := by
    rw [List.any_eq_false]
    intro g hg hreplaced
    obtain ⟨k, hk, rfl⟩ := s.mem_writtenGroups hg
    cases k with
    | bsi key t =>
      cases p <;> cases hreplaced
    | bitmap b =>
      have haligned : (quantum tables b.key).Aligned b.time := s.aligned _ hk
      cases p with
      | rowFile key rowID name =>
        obtain ⟨rfl, hname⟩ := of_decide_eq_true hreplaced
        rw [time_shardName haligned] at hname
        refine h ?_
        simpa [Writes, groupFile, shard, time_of_legacy haligned hname] using hg
      | _ => cases hreplaced
  rw [lookup_committed, hreplaced]
  split
  next hany =>
    have hp : p ∉ s.disk.files := fun hp => by
      rw [hgroup hp] at hany
      cases hany
    rw [if_neg, lookup_eq_none.mpr hp]
    intro hplace
    have hfile := groupFile_groupPlace tables p.shard
    rw [hplace] at hfile
    rw [hfile] at hany
    exact h (of_decide_eq_true hany)
  next => rfl

variable {key : FieldKey}

/-- Older files of an index stay as they are. -/
theorem lookup_indexFile (hshard : p.shard = .bsi key t) (hpack : p.isPack = false) :
    s.committed.files.lookup p = s.disk.files.lookup p := by
  have hgroup : p.groupFile = none := by
    cases p with
    | packEntry key' name => cases hpack
    | bundleEntry key' rowID name => cases hshard
    | _ => rfl
  have hreplaced : ∀ g, p.replacedBy tables g = false := by
    intro g
    cases p with
    | rowFile key' rowID name => cases hshard
    | _ => cases g <;> rfl
  rw [lookup_committed, hgroup]
  simp [hreplaced]

/-- A standard bundle replaces the row files of its shards. -/
theorem lookup_rowFile {rowID : ℕ} {name : ShardName}
    (hw : s.Writes (.bitmap ⟨key, rowID, name.time⟩)) :
    s.committed.files.lookup (.rowFile key rowID name) = none := by
  by_cases hp : Place.rowFile key rowID name ∈ s.disk.files
  · obtain ⟨hmem, hnamed⟩ := s.same _ hp
    have haligned : (quantum tables key).Aligned name.time := s.aligned _ hmem
    have hreplaced : (writtenGroups tables s.cache s.disk).any
        (fun g => (Place.rowFile key rowID name).replacedBy tables g) = true := by
      refine any_eq_true.mpr ⟨_, hw, decide_eq_true ⟨rfl, ?_⟩⟩
      rw [time_shardName haligned]
      exact hnamed
    rw [lookup_committed, hreplaced]
    rfl
  · rw [lookup_committed, lookup_eq_none.mpr hp]
    simp [Place.groupFile]

theorem wellNamed_groupPlace (h : (quantum tables k.field).Aligned k.time) :
    (groupPlace tables k).WellNamed (quantum tables k.field) := by
  have htime := time_shardName h
  cases k with
  | bitmap b => exact congrArg (shardName (quantum tables b.key)) htime
  | bsi key t => exact congrArg (shardName (quantum tables key)) htime

theorem named_committed (hp : p ∈ s.committed.files) :
    p.shard ∈ s.cache ∧ p.WellNamed (quantum tables p.shard.field) := by
  have hmem : p.shard ∈ s.cache := by
    by_contra hmem
    exact lookup_eq_none.mp (s.lookup_uncached hmem) hp
  refine ⟨hmem, ?_⟩
  rw [← lookup_isSome, lookup_committed] at hp
  split at hp
  · split at hp
    next hplace =>
      have hnamed := wellNamed_groupPlace (s.aligned _ hmem)
      rwa [hplace] at hnamed
    · cases hp
  · split at hp
    · cases hp
    · exact (s.same p (lookup_isSome.mp hp)).2

/-! ## What the walk reads -/

theorem readShard_uncached (h : k ∉ s.cache) : readShard tables s.committed.files k = .ok none := by
  have hnil : shardWalk s.committed.files k = [] := by
    refine eq_nil_iff_forall_not_mem.mpr fun e he => ?_
    obtain ⟨hlookup, hshard⟩ := mem_walkOf.mp he
    rw [s.lookup_uncached (of_decide_eq_true hshard ▸ h)] at hlookup
    cases hlookup
  rw [readShard, hnil]
  rfl

/-- The walk meets the files of a shard in an order. -/
theorem walkKey_inj {a b : Place} (ha : a ∈ s.disk.files) (hb : b ∈ s.disk.files)
    (hak : a.shard = k) (hbk : b.shard = k) (h : a.walkKey = b.walkKey) : a = b := by
  obtain ⟨hamem, hanamed⟩ := s.same a ha
  obtain ⟨-, hbnamed⟩ := s.same b hb
  rw [hak] at hamem hanamed
  rw [hbk] at hbnamed
  exact walkKey_injective hak hbk hanamed hbnamed (s.named k hamem).2.2 h

theorem readShard_unwritten (h : ¬ s.Writes k) :
    readShard tables s.committed.files k = readShard tables s.disk.files k := by
  have hwalk : shardWalk s.committed.files k = shardWalk s.disk.files k := by
    refine walkOf_congr ?_ fun p hp => s.lookup_unwritten (of_decide_eq_true hp ▸ h)
    intro a ha b hb hak hbk
    exact s.walkKey_inj ha hb (of_decide_eq_true hak) (of_decide_eq_true hbk)
  rw [readShard, hwalk, readShard]

theorem readShard_row {b : BitmapKey} (hb : s.cache.lookup (.bitmap b) = some e)
    (hw : s.Writes (.bitmap b)) :
    readShard tables s.committed.files (.bitmap b) = .ok (some ⟨e.contents, s.now⟩) := by
  have hmem := mem_of_lookup hb
  have hshard := shard_groupPlace tables (s.aligned _ hmem)
  have hwalk : shardWalk s.committed.files (.bitmap b) =
      [(groupPlace tables (.bitmap b), ⟨e.contents, s.now⟩)] := by
    rw [shardWalk, walkOf_unique _ _ (groupPlace tables (.bitmap b)) (decide_eq_true hshard),
      s.lookup_written hb hw]
    · rfl
    · intro p hp hk
      have hk := of_decide_eq_true hk
      obtain ⟨-, hnamed⟩ := s.named_committed hp
      rw [hk] at hnamed
      rcases place_of_bitmap hk hnamed with rfl | ⟨name, -, rfl⟩
      · rfl
      · -- Its row files are gone.
        rw [← hk] at hw
        rw [← lookup_isSome, s.lookup_rowFile hw] at hp
        cases hp
  rw [readShard, hwalk, foldlM_cons, actAt, if_pos]
  · rfl
  · rw [hshard]
    exact s.known _ hmem

theorem slicesOf_committed :
    slicesOf s.committed.files (.bsi key t) = slicesOf s.disk.files (.bsi key t) := by
  refine walkOf_congr ?_ ?_
  · intro a ha b hb hak hbk
    exact s.walkKey_inj ha hb (of_decide_eq_true (Bool.and_eq_true_iff.mp hak).1)
      (of_decide_eq_true (Bool.and_eq_true_iff.mp hbk).1)
  · intro p hp
    obtain ⟨hk, hslice⟩ := Bool.and_eq_true_iff.mp hp
    refine s.lookup_indexFile (of_decide_eq_true hk) ?_
    cases p with
    | bsiSlice key' name slice => rfl
    | _ => cases hslice

/-- An index that is written reads as cached exactly when older slices do not change it. -/
theorem readShard_index (hk : s.cache.lookup (.bsi key t) = some e) (hw : s.Writes (.bsi key t)) :
    ∃ f, readShard tables s.committed.files (.bsi key t) = .ok (some f) ∧
      (f.data = e.contents ↔ (bsiPackLeafDir < key.field →
        SlicesRepeat s.disk.files (.bsi key t)
          (.bsiBundle key (shardName (quantum tables key) t)) e.contents)) := by
  have hmem := mem_of_lookup hk
  have haligned : (quantum tables key).Aligned t := s.aligned _ hmem
  have htime := time_shardName haligned
  have hbundle := s.lookup_indexFile (p := .bsiBundle key (shardName (quantum tables key) t)) rfl rfl
  have hknown : (fieldQuantum? tables key).isSome := s.known _ hmem
  rw [SlicesRepeat, ← s.slicesOf_committed, ← hbundle]
  refine readShard_pack_iff ?_ htime (s.lookup_written hk hw) hknown (s.named _ hmem).2.2 ?_
  · intro p hp hshard
    have hnamed := (s.named_committed hp).2
    rwa [hshard] at hnamed
  · intro p f hf hshard hpack
    rw [s.lookup_indexFile hshard hpack] at hf
    exact s.older p f hf

/-- Slices of an index that are read after its pack repeat its contents. -/
def LaterSlicesRepeat : ShardKey → BitData → Prop
  | .bitmap _, _ => True
  | .bsi key t, contents => bsiPackLeafDir < key.field →
      SlicesRepeat s.disk.files (.bsi key t)
        (.bsiBundle key (shardName (quantum tables key) t)) contents

/-- The files that are on disk before the savepoint do not stand in the way of a cached shard.  If
the shard is written, later slices have to repeat it; if not, it is read from these files. -/
def OlderFilesAgree (k : ShardKey) (contents : BitData) : Prop :=
  if s.Writes k then s.LaterSlicesRepeat k contents
  else ∃ f, readShard tables s.disk.files k = .ok (some f) ∧ f.data = contents

theorem readShard_iff (hk : s.cache.lookup k = some e) :
    (∃ f, readShard tables s.committed.files k = .ok (some f) ∧ f.data = e.contents) ↔
      s.OlderFilesAgree k e.contents := by
  by_cases hw : s.Writes k
  · rw [OlderFilesAgree, if_pos hw]
    cases k with
    | bitmap b => exact iff_of_true ⟨_, s.readShard_row hk hw, rfl⟩ trivial
    | bsi key t =>
      obtain ⟨f, hf, hiff⟩ := s.readShard_index hk hw
      rw [hf, LaterSlicesRepeat, ← hiff]
      simp
  · rw [OlderFilesAgree, if_neg hw, s.readShard_unwritten hw]

/-- When a walk after the savepoint finds the caches again. -/
theorem scan_restores_iff :
    (∃ fragments, scanFiles tables s.committed.files = .ok fragments ∧
        Fragments.Agrees fragments s.cache) ↔
      ∀ k e, s.cache.lookup k = some e → s.OlderFilesAgree k e.contents := by
  constructor
  · rintro ⟨fragments, hscan, hagrees⟩ k e hk
    rw [← s.readShard_iff hk, readShard_of_scanFiles hscan k]
    have hlookup := hagrees k
    rw [hk, map_some, map_eq_some_iff] at hlookup
    obtain ⟨f, hf, hdata⟩ := hlookup
    exact ⟨f, by rw [hf], hdata⟩
  · intro h
    have hcached k e (hk : s.cache.lookup k = some e) := (s.readShard_iff hk).mpr (h k e hk)
    have hreads : ∀ k, ∃ v, readShard tables s.committed.files k = .ok v := by
      intro k
      cases hk : s.cache.lookup k with
      | none => exact ⟨_, s.readShard_uncached (lookup_eq_none.mp hk)⟩
      | some e =>
        obtain ⟨f, hf, -⟩ := hcached k e hk
        exact ⟨_, hf⟩
    obtain ⟨fragments, hscan⟩ := exists_scanFiles hreads
    refine ⟨fragments, hscan, fun k => ?_⟩
    have hread := readShard_of_scanFiles hscan k
    cases hk : s.cache.lookup k with
    | none =>
      rw [s.readShard_uncached (lookup_eq_none.mp hk)] at hread
      rw [← Except.ok.inj hread]
      rfl
    | some e =>
      obtain ⟨f, hf, hdata⟩ := hcached k e hk
      rw [hf] at hread
      rw [← Except.ok.inj hread, map_some, map_some, hdata]

end SavedState

/-! ## What the manifest loads -/

section

variable (tables : TableCache)

def manifestEntry (cache : ShardCache) : ShardKey → ManifestEntry
  | .bitmap b => .standardBundle b.key (shardName (quantum tables b.key) b.time)
      (groupTime tables cache (groupFile tables (.bitmap b)))
  | .bsi key t => .bsiPack key (shardName (quantum tables key) t)
      (((cache.lookup (.bsi key t)).map CacheEntry.manifestTime).getD 0)

/-- The entry of a shard can be loaded: its bundle is there, or its pack has the index with an
existence bitmap. -/
def listable (files : Files) : ShardKey → Bool
  | .bitmap b => hasGroupFile files (groupFile tables (.bitmap b))
  | .bsi key t =>
    (files.lookup (groupPlace tables (.bsi key t))).any fun f => f.data.headD [] ≠ []

variable {tables} {cache : ShardCache} {files : Files}

theorem mem_manifestFromCache {e : ManifestEntry} :
    e ∈ manifestFromCache tables cache ↔ ∃ k ∈ cache, manifestEntry tables cache k = e := by
  have hentry : ∀ x : (_ : ShardKey) × CacheEntry BitData, x ∈ cache.entries ↔
      cache.lookup x.1 = some x.2 := fun x => mem_lookup_iff.symm
  simp only [manifestFromCache, List.mem_append, List.mem_map, List.mem_dedup, List.mem_filterMap,
    hentry]
  constructor
  · rintro (⟨g, ⟨⟨k, x⟩, hk, hg⟩, rfl⟩ | ⟨⟨k, x⟩, hk, hp⟩)
    · cases k with
      | bitmap b =>
        cases hg
        exact ⟨.bitmap b, lookup_isSome.mp (hk ▸ rfl), rfl⟩
      | bsi key t => cases hg
    · cases k with
      | bitmap b => cases hp
      | bsi key t =>
        cases hp
        refine ⟨.bsi key t, lookup_isSome.mp (hk ▸ rfl), ?_⟩
        rw [manifestEntry, hk]
        rfl
  · rintro ⟨k, hk, rfl⟩
    obtain ⟨x, hx⟩ := isSome_iff_exists.mp (lookup_isSome.mpr hk)
    cases k with
    | bitmap b => exact .inl ⟨_, ⟨⟨.bitmap b, x⟩, hx, rfl⟩, rfl⟩
    | bsi key t =>
      refine .inr ⟨⟨.bsi key t, x⟩, hx, ?_⟩
      rw [manifestEntry, hx]
      rfl

theorem field_manifestEntry (k : ShardKey) : (manifestEntry tables cache k).field = k.field := by
  cases k <;> rfl

theorem present_manifestEntry (k : ShardKey) :
    (manifestEntry tables cache k).present files = hasGroupFile files (groupFile tables k) := by
  cases k <;> rfl

theorem isSome_loadEntry (cache : ShardCache) (k : ShardKey) :
    (loadEntry files (manifestEntry tables cache k)).isSome = listable tables files k := by
  cases k with
  | bitmap b =>
    rw [manifestEntry, loadEntry, listable, groupFile]
    cases hasGroupFile files (.standardBundle b.key (shardName (quantum tables b.key) b.time)) <;>
      rfl
  | bsi key t =>
    rw [manifestEntry, loadEntry, listable, groupPlace]
    cases files.lookup (.packEntry key (shardName (quantum tables key) t)) with
    | none => rfl
    | some f =>
      rw [bind_some, any_some, withExistence]
      split_ifs with h <;> simpa using h

theorem hasGroupFile_iff {g : GroupFile} :
    hasGroupFile files g = true ↔ ∃ p ∈ files, p.groupFile = some g := by
  rw [hasGroupFile, List.any_eq_true]
  constructor
  · rintro ⟨e, he, hg⟩
    exact ⟨e.1, mem_keys_of_mem he, of_decide_eq_true hg⟩
  · rintro ⟨p, hp, hg⟩
    obtain ⟨f, hf⟩ := isSome_iff_exists.mp (lookup_isSome.mpr hp)
    exact ⟨⟨p, f⟩, mem_lookup_iff.mp hf, decide_eq_true hg⟩

variable {k : ShardKey}

theorem hasGroupFile_of_listable (h : listable tables files k = true) :
    hasGroupFile files (groupFile tables k) = true := by
  cases k with
  | bitmap b => exact h
  | bsi key t =>
    cases hf : files.lookup (groupPlace tables (.bsi key t)) with
    | none => simp [listable, hf] at h
    | some f => exact hasGroupFile_iff.mpr ⟨_, mem_of_lookup hf, rfl⟩

/-- An entry of a well named bundle or pack is the place its shard is saved to. -/
theorem groupPlace_shard {p : Place} (hnamed : p.WellNamed (quantum tables p.shard.field))
    (hgroup : p.groupFile.isSome) : groupPlace tables p.shard = p := by
  cases p with
  | packEntry key name => exact congrArg (Place.packEntry key) hnamed
  | bundleEntry key rowID name => exact congrArg (bundleEntry key rowID) hnamed
  | _ => cases hgroup

section

variable (haligned : (quantum tables k.field).Aligned k.time) {fs : List (ShardKey × Stored)}
  (hload : loadEntry files (manifestEntry tables cache k) = some fs)

include haligned hload

/-- What the entry of a shard loads is read from the places of bundles and packs. -/
theorem mem_loadEntry
    (hnamed : ∀ p ∈ files, p.WellNamed (quantum tables p.shard.field)) :
    ∀ f ∈ fs, ∃ g, files.lookup (groupPlace tables f.1) = some g ∧ f.2.data = g.data := by
  intro f hf
  cases k with
  | bitmap b =>
    rw [manifestEntry, loadEntry] at hload
    split at hload
    · cases hload
      obtain ⟨e, he, rfl⟩ := mem_map.mp hf
      obtain ⟨hentry, hgroup⟩ := mem_filter.mp he
      have hplace := groupPlace_shard (hnamed e.1 (mem_keys_of_mem hentry))
        (of_decide_eq_true hgroup ▸ rfl)
      exact ⟨e.2, by rw [hplace]; exact mem_lookup_iff.mpr hentry, rfl⟩
    · cases hload
  | bsi key t =>
    obtain ⟨g, hg, hfs⟩ := bind_eq_some_iff.mp hload
    rw [shard_of_withExistence hfs] at hf
    rw [mem_singleton.mp hf]
    have htime : (shardName (quantum tables key) t).time = t :=
      time_shardName haligned
    refine ⟨g, ?_, rfl⟩
    rw [htime]
    exact hg

/-- The entry of a shard loads the shard if its place is there. -/
theorem exists_mem_loadEntry {g : Stored}
    (hg : files.lookup (groupPlace tables k) = some g) : ∃ f ∈ fs, f.1 = k := by
  have hshard := shard_groupPlace tables haligned
  cases k with
  | bitmap b =>
    rw [manifestEntry, loadEntry] at hload
    split at hload
    · cases hload
      refine ⟨_, mem_map.mpr ⟨⟨_, g⟩, mem_filter.mpr
        ⟨mem_lookup_iff.mp hg, decide_eq_true rfl⟩, rfl⟩, hshard⟩
    · cases hload
  | bsi key t =>
    obtain ⟨g', hg', hfs⟩ := bind_eq_some_iff.mp hload
    rw [shard_of_withExistence hfs]
    exact ⟨_, mem_singleton.mpr rfl, hshard⟩

end

/-- A manifest that is written for the caches and can be loaded gives for each shard what is at
its place. -/
theorem lookup_manifestLoads (haligned : AllAligned tables cache)
    (hnamed : ∀ p ∈ files, p.shard ∈ cache ∧ p.WellNamed (quantum tables p.shard.field))
    (hload : ∀ k ∈ cache, listable tables files k = true) (k : ShardKey) (hk : k ∈ cache) :
    (((manifestLoads files (manifestFromCache tables cache)).foldl addFragment ∅).lookup k).map
      data = (files.lookup (groupPlace tables k)).map data := by
  have hsome : ∀ k ∈ cache, ∃ fs, loadEntry files (manifestEntry tables cache k) = some fs :=
    fun k hk => isSome_iff_exists.mp (isSome_loadEntry cache k ▸ hload k hk)
  have hmem : ∀ f ∈ manifestLoads files (manifestFromCache tables cache),
      ∃ g, files.lookup (groupPlace tables f.1) = some g ∧ f.2.data = g.data := by
    intro f hf
    obtain ⟨e, he, hfe⟩ := mem_flatMap.mp hf
    obtain ⟨k', hk', rfl⟩ := mem_manifestFromCache.mp he
    obtain ⟨fs, hfs⟩ := hsome k' hk'
    rw [hfs] at hfe
    exact mem_loadEntry (haligned k' hk') hfs (fun p hp => (hnamed p hp).2) f hfe
  cases hg : files.lookup (groupPlace tables k) with
  | none =>
    rw [lookup_foldl_addFragment]
    · rfl
    · rintro f hf rfl
      obtain ⟨g, hg', -⟩ := hmem f hf
      cases hg.symm.trans hg'
  | some g =>
    refine data_foldl_addFragment ?_ ∅ nofun (.inr ?_)
    · rintro f hf rfl
      obtain ⟨g', hg', hdata⟩ := hmem f hf
      cases hg.symm.trans hg'
      exact hdata
    · obtain ⟨fs, hfs⟩ := hsome k hk
      obtain ⟨f, hf, hfk⟩ := exists_mem_loadEntry (haligned k hk) hfs hg
      refine ⟨f, mem_flatMap.mpr ⟨_, mem_manifestFromCache.mpr ⟨k, hk, rfl⟩, ?_⟩, hfk⟩
      rw [hfs]
      exact hf

/-- When the manifest written for the caches is usable. -/
theorem observeManifest_saveManifest
    (hproper : ∀ k ∈ cache, k.field.index ≠ "" ∧ k.field.field ≠ "")
    {entries : List ManifestEntry} :
    observeManifest (saveManifest tables cache files) = some entries ↔
      manifestFromCache tables cache = entries ∧ (∃ k, k ∈ cache) ∧
        ∀ k ∈ cache, hasGroupFile files (groupFile tables k) = true := by
  have hempty : (!(manifestFromCache tables cache).isEmpty) = true ↔ ∃ k, k ∈ cache := by
    rw [Bool.not_eq_true', isEmpty_eq_false_iff_exists_mem]
    constructor
    · rintro ⟨e, he⟩
      obtain ⟨k, hk, -⟩ := mem_manifestFromCache.mp he
      exact ⟨k, hk⟩
    · rintro ⟨k, hk⟩
      exact ⟨_, mem_manifestFromCache.mpr ⟨k, hk, rfl⟩⟩
  have hall : ((manifestFromCache tables cache).all fun e =>
      e.field.index ≠ "" && e.field.field ≠ "" && e.present files) = true ↔
        ∀ k ∈ cache, hasGroupFile files (groupFile tables k) = true := by
    rw [List.all_eq_true]
    constructor
    · intro h k hk
      have hpresent := h _ (mem_manifestFromCache.mpr ⟨k, hk, rfl⟩)
      rw [present_manifestEntry] at hpresent
      exact (Bool.and_eq_true_iff.mp hpresent).2
    · intro h e he
      obtain ⟨k, hk, rfl⟩ := mem_manifestFromCache.mp he
      rw [field_manifestEntry, present_manifestEntry, h k hk]
      simpa using hproper k hk
  rw [observeManifest, filter_eq_some_iff, saveManifest, filter_eq_some_iff,
    some.injEq, Bool.and_eq_true]
  constructor
  · rintro ⟨⟨rfl, -⟩, hne, hpresent⟩
    exact ⟨rfl, hempty.mp hne, hall.mp hpresent⟩
  · rintro ⟨rfl, hne, hpresent⟩
    exact ⟨⟨rfl, hempty.mpr hne⟩, hempty.mpr hne, hall.mpr hpresent⟩

/-- When the manifest written for the caches is read at startup, and what it loads. -/
theorem readFromManifest_saveManifest (hknown : ∀ k ∈ cache, (fieldQuantum? tables k.field).isSome)
    (hproper : ∀ k ∈ cache, k.field.index ≠ "" ∧ k.field.field ≠ "") {fragments : Fragments} :
    (observeManifest (saveManifest tables cache files)).bind (readFromManifest tables files) =
        some fragments ↔
      (∃ k, k ∈ cache) ∧ (∀ k ∈ cache, listable tables files k = true) ∧
        fragments =
          (manifestLoads files (manifestFromCache tables cache)).foldl addFragment ∅ := by
  rw [bind_eq_some_iff]
  constructor
  · rintro ⟨entries, hentries, hread⟩
    obtain ⟨rfl, hne, -⟩ := (observeManifest_saveManifest hproper).mp hentries
    obtain ⟨hloaded, rfl⟩ := readFromManifest_eq_some.mp hread
    refine ⟨hne, fun k hk => ?_, rfl⟩
    rw [← isSome_loadEntry cache]
    exact (hloaded _ (mem_manifestFromCache.mpr ⟨k, hk, rfl⟩)).2
  · rintro ⟨hne, hlist, rfl⟩
    have hpresent : ∀ k ∈ cache, hasGroupFile files (groupFile tables k) = true :=
      fun k hk => hasGroupFile_of_listable (hlist k hk)
    refine ⟨_, (observeManifest_saveManifest hproper).mpr ⟨rfl, hne, hpresent⟩, ?_⟩
    refine readFromManifest_eq_some.mpr ⟨fun e he => ?_, rfl⟩
    obtain ⟨k, hk, rfl⟩ := mem_manifestFromCache.mp he
    rw [field_manifestEntry, isSome_loadEntry]
    exact ⟨hknown k hk, hlist k hk⟩

/-- A restart with the manifest and one without it both find the caches if a walk does and a
manifest that can be read loads them. -/
theorem forall_readBitmapFiles_iff {d : Disk} :
    (∀ useManifest, ∃ fragments, readBitmapFiles tables useManifest d = .ok fragments ∧
        Fragments.Agrees fragments cache) ↔
      (∃ fragments, scanFiles tables d.files = .ok fragments ∧
          Fragments.Agrees fragments cache) ∧
        ∀ fragments, (observeManifest d).bind (readFromManifest tables d.files) = some fragments →
          Fragments.Agrees fragments cache := by
  constructor
  · intro h
    refine ⟨h false, fun fragments hread => ?_⟩
    obtain ⟨fragments', hload, hagrees⟩ := h true
    rw [readBitmapFiles, if_pos rfl, hread] at hload
    rw [Except.ok.inj hload]
    exact hagrees
  · rintro ⟨hscan, hmanifest⟩ useManifest
    cases useManifest with
    | false => exact hscan
    | true =>
      rw [readBitmapFiles, if_pos rfl]
      cases hread : (observeManifest d).bind (readFromManifest tables d.files) with
      | none => exact hscan
      | some fragments => exact ⟨fragments, rfl, hmanifest fragments hread⟩

end

/-! ## The restart -/

namespace SavedState

variable {tables : TableCache} (s : SavedState tables)

/-- The manifest does not stand in the way.  One that is kept has to load the caches if it can be
read.  One that is written anew lists bundles and packs: if those of all shards that are not written
are there, they have to hold what is cached. -/
def ManifestAgrees : Prop :=
  if keepsManifest s.cache s.disk then
    ∀ fragments, (observeManifest s.disk).bind (readFromManifest tables s.disk.files) =
      some fragments → Fragments.Agrees fragments s.cache
  else
    (∀ k ∈ s.cache, ¬ s.Writes k → listable tables s.disk.files k = true) →
      ∀ k e, s.cache.lookup k = some e → ¬ s.Writes k →
        (s.disk.files.lookup (groupPlace tables k)).map data = some e.contents

def marked : ShardCache :=
  markPersisted tables s.persistedAt (writtenGroups tables s.cache s.disk) s.cache

theorem mem_marked {k : ShardKey} : k ∈ s.marked ↔ k ∈ s.cache := by
  rw [← lookup_isSome, ← lookup_isSome, marked, markPersisted,
    lookup_mapValues, isSome_map]

/-- The bundle or pack of a shard that is not written is there if it was there. -/
theorem listable_committed {k : ShardKey} (hk : k ∈ s.cache) :
    listable tables s.committed.files k = true ↔
      (¬ s.Writes k → listable tables s.disk.files k = true) := by
  have hshard := shard_groupPlace tables (s.aligned k hk)
  obtain ⟨e, he⟩ := isSome_iff_exists.mp (lookup_isSome.mpr hk)
  by_cases hw : s.Writes k
  · have hplace := s.lookup_written he hw
    refine iff_of_true ?_ fun h => absurd hw h
    cases k with
    | bitmap b =>
      exact hasGroupFile_iff.mpr ⟨_, mem_of_lookup hplace, rfl⟩
    | bsi key t =>
      rw [listable, hplace, any_some]
      exact decide_eq_true (s.existence key t e he)
  · rw [forall_prop_of_true hw]
    cases k with
    | bitmap b =>
      rw [listable, listable, hasGroupFile_iff, hasGroupFile_iff]
      refine exists_congr fun p => and_congr_left fun hp => ?_
      have hreplaced : ∀ g, p.replacedBy tables g = false :=
        fun g => replacedBy_groupFile hp
      have hnot : groupFile tables (.bitmap b) ∉ writtenGroups tables s.cache s.disk := hw
      rw [← lookup_isSome, lookup_committed, hp]
      simp [hreplaced, hnot, lookup_isSome]
    | bsi key t =>
      rw [listable, listable, s.lookup_unwritten]
      rwa [hshard]

/-- A manifest written for the caches loads them exactly when the bundles and packs that are not
written hold what is cached. -/
theorem agrees_manifestLoads_iff
    (hlist : ∀ k ∈ s.marked, listable tables s.committed.files k = true) :
    Fragments.Agrees ((manifestLoads s.committed.files
        (manifestFromCache tables s.marked)).foldl addFragment ∅) s.cache ↔
      ∀ k e, s.cache.lookup k = some e → ¬ s.Writes k →
        (s.disk.files.lookup (groupPlace tables k)).map data = some e.contents := by
  have hlookup := lookup_manifestLoads (fun k hk => s.aligned k (s.mem_marked.mp hk))
    (fun p hp => (s.named_committed hp).imp_left s.mem_marked.mpr) hlist
  have hunwritten k (hk : k ∈ s.cache) (hw : ¬ s.Writes k) :=
    s.lookup_unwritten (p := groupPlace tables k) (by rwa [shard_groupPlace tables (s.aligned k hk)])
  constructor
  · intro hagrees k e he hw
    have hk := mem_of_lookup he
    rw [← hunwritten k hk hw, ← hlookup k (s.mem_marked.mpr hk), hagrees k, he]
    rfl
  · intro h k
    cases he : s.cache.lookup k with
    | none =>
      rw [lookup_foldl_addFragment]
      · rfl
      · rintro f hf rfl
        obtain ⟨p, hp, hshard⟩ := holds_of_mem_manifestLoads hf
        exact lookup_eq_none.mp he (hshard ▸ (s.named_committed hp).1)
    | some e =>
      have hk := mem_of_lookup he
      rw [hlookup k (s.mem_marked.mpr hk)]
      by_cases hw : s.Writes k
      · rw [s.lookup_written he hw]
        rfl
      · rw [hunwritten k hk hw, h k e he hw]
        rfl

theorem manifestAgrees_iff :
    (∀ fragments, (observeManifest s.committed).bind
        (readFromManifest tables s.committed.files) = some fragments →
          Fragments.Agrees fragments s.cache) ↔ s.ManifestAgrees := by
  unfold ManifestAgrees
  split
  next hkeeps =>
    have hdisk : s.committed = s.disk := by
      rw [committed, commit_disk, committedDisk, if_pos hkeeps]
    rw [hdisk]
  next hkeeps =>
    have hdisk : s.committed = saveManifest tables s.marked s.committed.files := by
      rw [s.files_committed, committed, commit_disk, committedDisk, if_neg hkeeps]
      rfl
    have hlist : (∀ k ∈ s.marked, listable tables s.committed.files k = true) ↔
        ∀ k ∈ s.cache, ¬ s.Writes k → listable tables s.disk.files k = true := by
      simp only [s.mem_marked]
      exact forall₂_congr fun k hk => s.listable_committed hk
    have hread := @readFromManifest_saveManifest tables s.marked s.committed.files
      (fun k hk => s.known k (s.mem_marked.mp hk))
      fun k hk => (s.named k (s.mem_marked.mp hk)).imp_right And.left
    rw [← hdisk] at hread
    constructor
    · intro h hdisk k e he hw
      have hk := mem_of_lookup he
      have hlisted := hlist.mpr hdisk
      have hagrees := h _ (hread.mpr ⟨⟨k, s.mem_marked.mpr hk⟩, hlisted, rfl⟩)
      exact (s.agrees_manifestLoads_iff hlisted).mp hagrees k e he hw
    · intro h fragments hfragments
      obtain ⟨-, hlisted, rfl⟩ := hread.mp hfragments
      exact (s.agrees_manifestLoads_iff hlisted).mpr (h (hlist.mp hlisted))

/-- When a restart after a savepoint rebuilds the caches, with the manifest and without it. -/
theorem restart_restores_iff :
    (∀ useManifest, ∃ fragments, readBitmapFiles tables useManifest
        (commit tables s.now s.persistedAt s.cache s.disk).2 = .ok fragments ∧
          Fragments.Agrees fragments s.cache) ↔
      (∀ k e, s.cache.lookup k = some e → s.OlderFilesAgree k e.contents) ∧ s.ManifestAgrees := by
  rw [forall_readBitmapFiles_iff, ← s.manifestAgrees_iff, ← s.scan_restores_iff]
  rfl

end SavedState

def undatedTable : Table where
  timeQuantum := .none
  timeQuantumField := none
  primaryKey := ["id"]
  getAttribute _ := some ⟨.none, false⟩

/-- The field of the index below; its directory comes after the packs. -/
def priceField : FieldKey := ⟨"orders", "price"⟩

/-- An index that was changed after it had been loaded. -/
def changedCache : ShardCache := singleton (.bsi priceField 0) ⟨[[3], [4]], 3, 2⟩

def sliceFiles : Files :=
  (singleton (.bsiSlice priceField .default 0) ⟨[[1]], 2⟩).insert
    (.bsiSlice priceField .default 1) ⟨[[2]], 2⟩

/-- The changed index before a savepoint. -/
def changedIndex : SavedState (singleton "orders" undatedTable) where
  cache := changedCache
  disk := ⟨sliceFiles, none⟩
  now := 5
  persistedAt := 6
  aligned k hk := by
    cases mem_singleton.mp hk
    rfl
  known k hk := by
    cases mem_singleton.mp hk
    rfl
  named k hk := by
    cases mem_singleton.mp hk
    decide
  existence key t e he := by
    have hmem : ShardKey.bsi key t ∈ changedCache := lookup_isSome.mp (he ▸ rfl)
    cases mem_singleton.mp hmem
    cases he
    decide
  same p hp := by
    rcases mem_insert _ |>.mp hp with rfl | hp
    · exact ⟨mem_singleton.mpr rfl, rfl⟩
    · cases mem_singleton.mp hp
      exact ⟨mem_singleton.mpr rfl, rfl⟩
  older p f hf := by
    have hmem : p ∈ sliceFiles := lookup_isSome.mp (hf ▸ rfl)
    rcases mem_insert _ |>.mp hmem with rfl | hmem
    · cases hf
      decide
    · cases mem_singleton.mp hmem
      cases hf
      decide

/-- After the savepoint the slices are still there, and a restart lays them over the pack: the
change is lost. -/
theorem slices_laid_over_pack :
    ¬ ∀ useManifest, ∃ fragments, readBitmapFiles (singleton "orders" undatedTable)
        useManifest (commit (singleton "orders" undatedTable) changedIndex.now
          changedIndex.persistedAt changedIndex.cache changedIndex.disk).2 = .ok fragments ∧
            Fragments.Agrees fragments changedIndex.cache := by
  intro h
  obtain ⟨fragments, hread, hagrees⟩ := h false
  have hold := (congrArg (fun r : Except _ Fragments => r.toOption.bind fun fragments =>
    (fragments.lookup (.bsi priceField 0)).map data) hread).trans (hagrees _)
  revert hold
  decide

end QuantaStream.Server
