import QuantaStream.Server.BitmapCache
import QuantaStream.Server.BitmapQuery

/-!
# The files of the shards

This module models the layout below the `bitmap` directory of `server/bitmapio.go`.  Four
formats have been in use.  The oldest ones keep one file for each row of a standard bitmap and one
file for each slice of a bit-sliced index; then came a bundle for each index, and today the rows of
a field share a standard bundle and the indexes of a table share a pack.  A shard is found again by
the names of the directories above its data.
-/

namespace QuantaStream.Server

open List

/-! ## Tables -/

abbrev TableCache := GoMap String Table

/-- `getFieldConfig`, as far as the layout reads it: the time quantum of a field that exists. -/
def fieldQuantum? (tables : TableCache) (key : FieldKey) : Option TimeQuantum :=
  (tables.lookup key.index).bind fun t =>
    ((getFieldConfig t key.field).toOption.map Attribute.timeQuantum)

/-- `TQType`: the time quantum a new shard of a field is given. -/
def quantum (tables : TableCache) (key : FieldKey) : TimeQuantum :=
  (fieldQuantum? tables key).getD .none

def ShardKey.field : ShardKey → FieldKey
  | .bitmap k => k.key
  | .bsi key _ => key

def ShardKey.time : ShardKey → ℤ
  | .bitmap k => k.time
  | .bsi _ time => time

/-! ## Names -/

def hourNanos : ℤ := 3600000000000

/-- The name of a shard: `default`, the text of an hour as `formatShardTime` writes it, or that
text below a directory for the day. -/
inductive ShardName where
  | default
  | stamp (hour : ℤ)
  | dayStamp (hour : ℤ)
  deriving DecidableEq, Repr

variable (tq : TimeQuantum)

def shardName (time : ℤ) : ShardName :=
  match tq with
  | .none => .default
  | .ymd => .stamp (time / hourNanos)
  | .ymdh => .dayStamp (time / hourNanos)

namespace ShardName

/-- The time that is read from a name. -/
def time : ShardName → ℤ
  | .default => 0
  | .stamp hour => hour * hourNanos
  | .dayStamp hour => hour * hourNanos

/-- The directory of the day, for names that have one. -/
def day : ShardName → Option ℤ
  | .dayStamp hour => some (hour / 24)
  | _ => none

end ShardName

/-- A shard starts with a quantum of its table; without a quantum its time is zero. -/
def TimeQuantum.Aligned : TimeQuantum → ℤ → Prop
  | .none, time => time = 0
  | .ymd, time => 24 * hourNanos ∣ time
  | .ymdh, time => hourNanos ∣ time

/-- The name of an aligned shard gives its time back. -/
theorem ShardName.time_shardName {tq : TimeQuantum} {t : ℤ} (h : tq.Aligned t) :
    (shardName tq t).time = t := by
  cases tq with
  | none => exact h.symm
  | ymd => exact Int.ediv_mul_cancel (dvd_trans (Dvd.intro_left 24 rfl) h)
  | ymdh => exact Int.ediv_mul_cancel h

/-! ## Places -/

/-- The chunks of a serialized shard: one for a standard bitmap, the existence bitmap and the
slices for an index. -/
abbrev BitData := List (List UInt8)

/-- Where the data of one shard is found: an entry of a pack, a bundle of one index, one of its
slices, an entry of a standard bundle, or the file of one row. -/
inductive Place where
  | packEntry (key : FieldKey) (name : ShardName)
  | bsiBundle (key : FieldKey) (name : ShardName)
  | bsiSlice (key : FieldKey) (name : ShardName) (slice : ℕ)
  | bundleEntry (key : FieldKey) (rowID : ℕ) (name : ShardName)
  | rowFile (key : FieldKey) (rowID : ℕ) (name : ShardName)
  deriving DecidableEq, Repr

/-- The name above the data. -/
def Place.name : Place → ShardName
  | .packEntry _ name => name
  | .bsiBundle _ name => name
  | .bsiSlice _ name _ => name
  | .bundleEntry _ _ name => name
  | .rowFile _ _ name => name

/-- The shard that is read from a place. -/
def Place.shard : Place → ShardKey
  | .packEntry key name => .bsi key name.time
  | .bsiBundle key name => .bsi key name.time
  | .bsiSlice key name _ => .bsi key name.time
  | .bundleEntry key rowID name => .bitmap ⟨key, rowID, name.time⟩
  | .rowFile key rowID name => .bitmap ⟨key, rowID, name.time⟩

/-- What is stored at a place, and the modification time of its file. -/
structure Stored where
  data : BitData
  modTime : Time
  deriving DecidableEq, Repr

/-- The files below the `bitmap` directory.  The entries of a pack or a standard bundle are kept
one by one, each with the modification time of the file. -/
abbrev Files := GoMap Place Stored

/-- `legacyStandardBitmapShardPaths`: the names under which a row file of a shard was written. -/
def legacyStandardBitmapShardPaths (time : ℤ) : List ShardName :=
  match tq with
  | .none => [.stamp (time / hourNanos), .default]
  | .ymd => [.stamp (time / hourNanos)]
  | .ymdh => [.dayStamp (time / hourNanos)]

/-- The place has a name that the formats give to shards with this time quantum. -/
def Place.WellNamed : Place → Prop
  | .rowFile _ _ name => name ∈ legacyStandardBitmapShardPaths tq name.time
  | p => shardName tq p.name.time = p.name

/-! ## Bundles and packs -/

/-- A file that holds the shards of several rows of a field, or of several fields of a table. -/
inductive GroupFile where
  | standardBundle (key : FieldKey) (name : ShardName)
  | bsiPack (index : String) (name : ShardName)
  deriving DecidableEq, Repr

/-- The bundle or pack a place is an entry of. -/
def Place.groupFile : Place → Option GroupFile
  | .packEntry key name => some (.bsiPack key.index name)
  | .bundleEntry key _ name => some (.standardBundle key name)
  | _ => none

section

variable (tables : TableCache)

/-- `standardBitmapBundleFilePath` and `bsiPackBundleFilePath`: the file a shard is saved to. -/
def groupFile : ShardKey → GroupFile
  | .bitmap k => .standardBundle k.key (shardName (quantum tables k.key) k.time)
  | .bsi key time => .bsiPack key.index (shardName (quantum tables key) time)

/-- The place of a shard in the file it is saved to. -/
def groupPlace : ShardKey → Place
  | .bitmap k => .bundleEntry k.key k.rowID (shardName (quantum tables k.key) k.time)
  | .bsi key time => .packEntry key (shardName (quantum tables key) time)

@[simp]
theorem groupFile_groupPlace (k : ShardKey) :
    (groupPlace tables k).groupFile = some (groupFile tables k) := by
  cases k <;> rfl

theorem shard_groupPlace {k : ShardKey} (h : (quantum tables k.field).Aligned k.time) :
    (groupPlace tables k).shard = k := by
  have htime := ShardName.time_shardName h
  cases k with
  | bitmap k =>
    exact congrArg (fun t => ShardKey.bitmap ⟨k.key, k.rowID, t⟩) htime
  | bsi key time => exact congrArg (ShardKey.bsi key) htime

/-- `removeLegacyStandardBitmapShardFiles`: the row files that a new standard bundle replaces. -/
def Place.replacedBy (tables : TableCache) : GroupFile → Place → Bool
  | .standardBundle key name, .rowFile key' _ name' =>
    key' = key ∧ name' ∈ legacyStandardBitmapShardPaths (quantum tables key) name.time
  | _, _ => false

/-- The caches of a node: what each shard holds, in serialized form. -/
abbrev ShardCache := GoMap ShardKey (CacheEntry BitData)

/-- `saveCompleteStandardBundle` and `saveCompleteBSIPackWithTimings`: a bundle or pack is written
anew with all cached shards of its group; row files of the shard are removed. -/
def writeGroup (cache : ShardCache) (now : Time) (g : GroupFile) (files : Files) : Files :=
  (cache.entries.filter (fun e => groupFile tables e.1 = g)).foldl
    (fun files e => files.insert (groupPlace tables e.1) ⟨e.2.contents, now⟩)
    (files.restrict fun p => p.groupFile ≠ some g && !p.replacedBy tables g)

/-- All cached shards start with a quantum of their table. -/
def AllAligned (cache : ShardCache) : Prop :=
  ∀ k ∈ cache, (quantum tables k.field).Aligned k.time

variable {tables}

theorem Place.replacedBy_groupFile {g g' : GroupFile} {p : Place} (h : p.groupFile = some g') :
    p.replacedBy tables g = false := by
  cases p <;> cases g <;> first | rfl | cases h

/-- What is stored after a bundle or pack has been written. -/
theorem lookup_writeGroup {cache : ShardCache} (haligned : AllAligned tables cache) (now : Time)
    (g : GroupFile) (files : Files) (p : Place) :
    (writeGroup tables cache now g files).lookup p =
      if p.groupFile = some g then
        if groupPlace tables p.shard = p then
          (cache.lookup p.shard).map fun e => ⟨e.contents, now⟩
        else none
      else if p.replacedBy tables g then none else files.lookup p := by
  rw [writeGroup, GoMap.lookup_foldl_insert, GoMap.lookup_restrict]
  -- The only cached shard that is saved to this place is the one that is read from it.
  have hshard : ∀ e ∈ cache.entries, groupPlace tables e.1 = p → p.shard = e.1 := by
    rintro e he rfl
    exact shard_groupPlace tables (haligned e.1 (mem_keys_of_mem he))
  cases hfind : find? (fun e => decide (groupPlace tables e.1 = p))
      (cache.entries.filter fun e => decide (groupFile tables e.1 = g)).reverse with
  | some e =>
    have hplace : groupPlace tables e.1 = p := by simpa using find?_some hfind
    have hmem := mem_of_find?_eq_some hfind
    rw [mem_reverse, mem_filter, decide_eq_true_eq] at hmem
    have hgroup : p.groupFile = some g := by
      rw [← hplace, groupFile_groupPlace, hmem.2]
    have hlookup : cache.lookup p.shard = some e.2 := by
      rw [hshard e hmem.1 hplace]
      exact AList.mem_lookup_iff.mpr hmem.1
    rw [if_pos hgroup, hshard e hmem.1 hplace, if_pos hplace, ← hshard e hmem.1 hplace, hlookup]
    rfl
  | none =>
    by_cases hgroup : p.groupFile = some g
    · simp only [hgroup, ne_eq, not_true_eq_false, decide_false, Bool.false_and,
        Bool.false_eq_true, if_false, if_true]
      split
      next hplace =>
        cases hcache : cache.lookup p.shard with
        | none => rfl
        | some e =>
          have hentry := AList.mem_lookup_iff.mp hcache
          have hfile : groupFile tables p.shard = g := by
            rw [← hplace, groupFile_groupPlace] at hgroup
            exact Option.some.inj hgroup
          have := find?_eq_none.mp hfind ⟨p.shard, e⟩ (by simp [hentry, hfile])
          simp [hplace] at this
      · rfl
    · by_cases hreplaced : p.replacedBy tables g = true <;> simp [hgroup, hreplaced]

end

end QuantaStream.Server
