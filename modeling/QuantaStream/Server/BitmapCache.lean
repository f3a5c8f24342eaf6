import QuantaStream.Server.ReverseArtifact

/-!
# The caches of a node

A node keeps its standard bitmaps and its bit-sliced indexes in two caches, and the reverse
artifacts of relation fields next to them.  Fragments sent by clients are merged into the caches;
bulk clears and truncation change them as well.  This module models these operations on the
contents, on the time stamps that decide what is persisted, and on the artifacts.
-/

namespace QuantaStream.Server

open Shared List

/-! ## Caches -/

/-- Nanoseconds since the zero time, which is the persist time of what was never persisted. -/
abbrev Time := ℕ

structure FieldKey where
  index : String
  field : String
  deriving DecidableEq, Repr

/-- A shard of one row of a standard bitmap field. -/
structure BitmapKey where
  key : FieldKey
  rowID : ℕ
  time : ℤ
  deriving DecidableEq, Repr

/-- An entry of a cache: its contents, when they were last changed, and when they were last
known to be on disk. -/
structure CacheEntry (β : Type) where
  contents : β
  modTime : Time
  persistTime : Time

abbrev StandardBitmap := CacheEntry Bitmap

abbrev BSIBitmap := CacheEntry Bsi

/-- The caches and the reverse artifacts of a node. -/
structure CacheState where
  bitmapCache : BitmapKey → Option StandardBitmap
  bsiCache : FieldKey → GoMap ℤ BSIBitmap
  artifacts : FieldKey → Option ReverseArtifact

def CacheState.init : CacheState where
  bitmapCache _ := none
  bsiCache _ := ∅
  artifacts _ := none

/-- The keys by which shards are placed on nodes. -/
inductive ShardKey where
  | bitmap (key : BitmapKey)
  | bsi (key : FieldKey) (time : ℤ)
  deriving DecidableEq

/-- What a call reads of its surroundings: the keys the node is a member for, the ownership of
the shards of each field, and the order in which its loops range over maps. -/
structure CallEnv where
  member : ShardKey → Bool
  ownership : FieldKey → Ownership
  order : RangeOrder

/-! ## Standard bitmaps -/

structure BitmapFragment where
  key : BitmapKey
  bits : Bitmap
  modTime : Time
  isClear : Bool := false
  isUpdate : Bool := false
  isInit : Bool := false

/-- `fragmentApplyTime`: a fragment read from disk keeps its own time. -/
def fragmentApplyTime (isInit : Bool) (modTime startedAt : Time) : Time :=
  if isInit then modTime else startedAt

/-- `clearAllRows`: clear the columns in every row of the field in one shard.  `now` is the time
at which each bitmap is changed. -/
def clearAllRows (now : BitmapKey → Time) (key : FieldKey) (time : ℤ) (bits : Bitmap)
    (s : CacheState) : CacheState :=
  { s with bitmapCache := fun k =>
      if k.key = key ∧ k.time = time then
        (s.bitmapCache k).map (fun b => { b with contents := b.contents \ bits, modTime := now k })
      else s.bitmapCache k }

def setBitmap (key : BitmapKey) (b : StandardBitmap) (s : CacheState) : CacheState :=
  { s with bitmapCache := Function.update s.bitmapCache key (some b) }

/-- The merge of a fragment into a bitmap of the cache. -/
def mergeBitmap (f : BitmapFragment) (applyTime : Time) (b : StandardBitmap) : StandardBitmap where
  contents := if f.isClear then b.contents \ f.bits else b.contents ∪ f.bits
  modTime := applyTime
  persistTime := if f.isInit then applyTime else b.persistTime

/-- The first step of `updateBitmapCache`: an update is exclusive within its field. -/
def clearForUpdate (now : BitmapKey → Time) (f : BitmapFragment) (s : CacheState) : CacheState :=
  if f.isUpdate then clearAllRows now f.key.key f.key.time f.bits s else s

/-- `updateBitmapCache`.  `start` is the time at which the call starts, before it takes the cache
lock, `now` the time at which the rows of an update are cleared. -/
def updateBitmapCache (env : CallEnv) (start : Time) (now : BitmapKey → Time)
    (f : BitmapFragment) (s : CacheState) : CacheState :=
  let applyTime := fragmentApplyTime f.isInit f.modTime start
  let s := clearForUpdate now f s
  if f.isClear && f.isUpdate then s
  else
    match s.bitmapCache f.key with
    | none =>
      -- Updates are sent to all nodes; those the key is not placed on ignore them.
      if f.isUpdate && !env.member (.bitmap f.key) then s
      else setBitmap f.key ⟨f.bits, applyTime, if f.isInit then applyTime else 0⟩ s
    | some b => setBitmap f.key (mergeBitmap f applyTime b) s

/-- The bitmap of the fragment's key after the merge, from the one before. -/
def mergedBitmap (env : CallEnv) (applyTime : Time) (f : BitmapFragment)
    (b : Option StandardBitmap) : Option StandardBitmap :=
  match b with
  | none =>
    if f.isUpdate && !env.member (.bitmap f.key) then none
    else some ⟨f.bits, applyTime, if f.isInit then applyTime else 0⟩
  | some b => some (mergeBitmap f applyTime b)

section

variable (env : CallEnv) (start : Time) (now : BitmapKey → Time) (f : BitmapFragment)
  (s : CacheState)

theorem bitmapCache_updateBitmapCache (k : BitmapKey) :
    (updateBitmapCache env start now f s).bitmapCache k =
      if (f.isClear && f.isUpdate) = false ∧ k = f.key then
        mergedBitmap env (fragmentApplyTime f.isInit f.modTime start) f
          ((clearForUpdate now f s).bitmapCache k)
      else (clearForUpdate now f s).bitmapCache k := by
  unfold updateBitmapCache mergedBitmap
  generalize clearForUpdate now f s = s₁
  by_cases hclear : (f.isClear && f.isUpdate) = true
  · simp [hclear]
  have hmerge : (f.isClear && f.isUpdate) = false := by simpa using hclear
  simp only [hmerge, Bool.false_eq_true, if_false, true_and]
  cases hb : s₁.bitmapCache f.key with
  | none =>
    by_cases hk : k = f.key <;> dsimp only <;> split_ifs <;> simp [setBitmap, hk, hb]
  | some b => by_cases hk : k = f.key <;> simp [setBitmap, hk, hb]

@[simp]
theorem bsiCache_updateBitmapCache :
    (updateBitmapCache env start now f s).bsiCache = s.bsiCache := by
  have hclear : (clearForUpdate now f s).bsiCache = s.bsiCache := by
    unfold clearForUpdate clearAllRows
    split_ifs <;> rfl
  rw [← hclear]
  fun_cases updateBitmapCache env start now f s <;> rfl

end

/-! ## Bit-sliced indexes -/

/-- The payload of a BSI fragment: values to store, or columns to clear. -/
inductive BSIData where
  | values (bsi : Bsi)
  | clear (columns : Bitmap)

structure BSIFragment where
  key : FieldKey
  time : ℤ
  data : BSIData
  modTime : Time
  isUpdate : Bool := false
  isInit : Bool := false

variable (enabled : FieldKey → Bool) (env : CallEnv)

/-- `updateRelationshipReverseArtifactForBSIFragment`. -/
def updateArtifact (key : FieldKey) (time : ℤ) (removed : Option (Bsi × Bitmap))
    (addedBSI : Option Bsi) (s : CacheState) : CacheState :=
  if enabled key then
    let artifact := ((s.artifacts key).getD .new).updateForBSIFragment (env.ownership key)
      env.order time removed addedBSI
    { s with artifacts := Function.update s.artifacts key (some artifact) }
  else s

def setShard (key : FieldKey) (time : ℤ) (b : BSIBitmap) (s : CacheState) : CacheState :=
  { s with bsiCache := Function.update s.bsiCache key ((s.bsiCache key).insert time b) }

/-- The clear branch of `updateBSICache`: the shard must exist. -/
def clearBSI (applyTime : Time) (key : FieldKey) (time : ℤ) (columns : Bitmap)
    (s : CacheState) : CacheState :=
  match (s.bsiCache key).lookup time with
  | none => s
  | some b =>
    let clearSet := b.contents.existence ∩ columns
    let s := updateArtifact enabled env key time (some (b.contents, clearSet)) none s
    setShard key time { b with contents := b.contents.clearValues clearSet, modTime := applyTime } s

/-- The rest of `updateBSICache`: stored values of the columns are replaced. -/
def storeBSI (applyTime : Time) (f : BSIFragment) (newBSI : Bsi) (s : CacheState) : CacheState :=
  match (s.bsiCache f.key).lookup f.time with
  | none =>
    if f.isUpdate && !env.member (.bsi f.key f.time) then s
    else
      let s := setShard f.key f.time
        ⟨newBSI, applyTime, if f.isInit then applyTime else 0⟩ s
      updateArtifact enabled env f.key f.time none (some newBSI) s
  | some b =>
    let clearSet := b.contents.existence ∩ newBSI.existence
    let s :=
      if clearSet ≠ ∅ then
        updateArtifact enabled env f.key f.time (some (b.contents, clearSet)) (some newBSI) s
      else updateArtifact enabled env f.key f.time none (some newBSI) s
    setShard f.key f.time
      { contents := (if clearSet ≠ ∅ then b.contents.clearValues clearSet else b.contents).or newBSI
        modTime := applyTime
        persistTime := if f.isInit then applyTime else b.persistTime } s

def updateBSICache (start : Time) (f : BSIFragment) (s : CacheState) : CacheState :=
  let applyTime := fragmentApplyTime f.isInit f.modTime start
  match f.data with
  | .clear columns => clearBSI enabled env applyTime f.key f.time columns s
  | .values newBSI => storeBSI enabled env applyTime f newBSI s

section

variable {enabled : FieldKey → Bool} {env : CallEnv} {key : FieldKey} {time : ℤ}

section

variable (removed : Option (Bsi × Bitmap)) (addedBSI : Option Bsi) (s : CacheState)

@[simp]
theorem bsiCache_updateArtifact :
    (updateArtifact enabled env key time removed addedBSI s).bsiCache = s.bsiCache := by
  unfold updateArtifact
  split_ifs <;> rfl

@[simp]
theorem bitmapCache_updateArtifact :
    (updateArtifact enabled env key time removed addedBSI s).bitmapCache = s.bitmapCache := by
  unfold updateArtifact
  split_ifs <;> rfl

end

def CacheState.bsiEntry (s : CacheState) (k : FieldKey × ℤ) : Option BSIBitmap :=
  (s.bsiCache k.1).lookup k.2

theorem bsiEntry_setShard (b : BSIBitmap) (s : CacheState) (k : FieldKey × ℤ) :
    (setShard key time b s).bsiEntry k = if k = (key, time) then some b else s.bsiEntry k := by
  obtain ⟨key', time'⟩ := k
  unfold setShard CacheState.bsiEntry
  by_cases hkey : key' = key
  · subst hkey
    rcases eq_or_ne time' time with rfl | htime
    · simp
    · simp [htime]
  · simp [hkey]

theorem bsiEntry_updateArtifact (removed : Option (Bsi × Bitmap)) (addedBSI : Option Bsi)
    (s : CacheState) (k : FieldKey × ℤ) :
    (updateArtifact enabled env key time removed addedBSI s).bsiEntry k = s.bsiEntry k := by
  simp [CacheState.bsiEntry]

/-- The index of the fragment's shard after the update, from the one before. -/
def mergedBSI (env : CallEnv) (applyTime : Time) (f : BSIFragment) (b : Option BSIBitmap) :
    Option BSIBitmap :=
  match f.data, b with
  | .clear _, none => none
  | .clear columns, some b =>
    some { b with
      contents := b.contents.clearValues (b.contents.existence ∩ columns)
      modTime := applyTime }
  | .values newBSI, none =>
    if f.isUpdate && !env.member (.bsi f.key f.time) then none
    else some ⟨newBSI, applyTime, if f.isInit then applyTime else 0⟩
  | .values newBSI, some b =>
    let clearSet := b.contents.existence ∩ newBSI.existence
    some
      { contents := (if clearSet ≠ ∅ then b.contents.clearValues clearSet
          else b.contents).or newBSI
        modTime := applyTime
        persistTime := if f.isInit then applyTime else b.persistTime }

section

variable (enabled : FieldKey → Bool) (env : CallEnv) (start : Time) (f : BSIFragment)
  (s : CacheState)

theorem bsiEntry_updateBSICache (k : FieldKey × ℤ) :
    (updateBSICache enabled env start f s).bsiEntry k =
      if k = (f.key, f.time) then
        mergedBSI env (fragmentApplyTime f.isInit f.modTime start) f (s.bsiEntry k)
      else s.bsiEntry k := by
  have hentry : s.bsiEntry (f.key, f.time) = (s.bsiCache f.key).lookup f.time := rfl
  unfold updateBSICache mergedBSI
  cases f.data with
  | clear columns =>
    unfold clearBSI
    cases hb : (s.bsiCache f.key).lookup f.time with
    | none | some b =>
      by_cases hk : k = (f.key, f.time) <;>
        simp [bsiEntry_setShard, bsiEntry_updateArtifact, hk, hentry, hb]
  | values newBSI =>
    unfold storeBSI
    cases hb : (s.bsiCache f.key).lookup f.time with
    | none =>
      by_cases hk : k = (f.key, f.time) <;> dsimp only <;> split_ifs <;>
        simp [bsiEntry_setShard, bsiEntry_updateArtifact, hk, hentry, hb]
    | some b =>
      by_cases hk : k = (f.key, f.time)
      · simp [bsiEntry_setShard, hk, hentry, hb]
      · dsimp only
        split_ifs <;> simp [bsiEntry_setShard, bsiEntry_updateArtifact, hk]

@[simp]
theorem bitmapCache_updateBSICache :
    (updateBSICache enabled env start f s).bitmapCache = s.bitmapCache := by
  unfold updateBSICache clearBSI storeBSI
  cases f.data with
  | clear columns => cases (s.bsiCache f.key).lookup f.time <;> simp [setShard]
  | values newBSI =>
    cases (s.bsiCache f.key).lookup f.time with
    | none | some b =>
      dsimp only
      split_ifs <;> simp [setShard]

end

end

/-! ## Bulk changes -/

/-- The body of the loop over the shards of a field in `clearAll`. -/
def clearAllShard (env : CallEnv) (now : Time) (key : FieldKey) (columns : Bitmap) (s : CacheState)
    (shard : ℤ × BSIBitmap) : CacheState :=
  let clearSet := shard.2.contents.existence ∩ columns
  if clearSet = ∅ then s
  else
    let s := updateArtifact enabled env key shard.1 (some (shard.2.contents, clearSet)) none s
    setShard key shard.1
      { shard.2 with contents := shard.2.contents.clearValues clearSet, modTime := now } s

/-- The loop over the shards of one field in `clearAll`. -/
def clearAllField (env : CallEnv) (now : Time) (key : FieldKey) (start stop : ℤ) (columns : Bitmap)
    (s : CacheState) : CacheState :=
  (((s.bsiCache key).range env.order).filter
    (fun shard => !(shard.1 < start || shard.1 > stop))).foldl
      (clearAllShard enabled env now key columns) s

/-- `clearAll`: clear a set of columns in all shards of a table within a window.  The loops over
different fields touch different parts of the state. -/
def clearAll (env : CallEnv) (now : Time) (index : String) (start stop : ℤ) (columns : Bitmap)
    (s : CacheState) : CacheState where
  bitmapCache k :=
    if k.key.index = index ∧ ¬ (k.time < start ∨ k.time > stop) then
      (s.bitmapCache k).map (fun b => { b with contents := b.contents \ columns, modTime := now })
    else s.bitmapCache k
  bsiCache key :=
    if key.index = index then
      (clearAllField enabled env now key start stop columns s).bsiCache key
    else s.bsiCache key
  artifacts key :=
    if key.index = index then
      (clearAllField enabled env now key start stop columns s).artifacts key
    else s.artifacts key

/-- A shard after `clearAll` has visited it. -/
def clearedShard (now : Time) (columns : Bitmap) (b : BSIBitmap) : BSIBitmap :=
  if b.contents.existence ∩ columns = ∅ then b
  else
    { b with contents := b.contents.clearValues (b.contents.existence ∩ columns), modTime := now }

section

variable (enabled : FieldKey → Bool) (env : CallEnv) (now : Time)

theorem bsiEntry_clearAllShard {key : FieldKey} (columns : Bitmap) {s : CacheState}
    {shard : ℤ × BSIBitmap} (hshard : s.bsiEntry (key, shard.1) = some shard.2) (k : FieldKey × ℤ) :
    (clearAllShard enabled env now key columns s shard).bsiEntry k =
      if k = (key, shard.1) then some (clearedShard now columns shard.2) else s.bsiEntry k := by
  unfold clearAllShard clearedShard
  dsimp only
  split_ifs with hempty hk hk
  · rw [hk, hshard]
  · rfl
  · rw [bsiEntry_setShard, if_pos hk]
  · rw [bsiEntry_setShard, if_neg hk, bsiEntry_updateArtifact]

/-- The loop over the shards of a field visits each shard once. -/
theorem bsiEntry_foldl_clearAllShard {key : FieldKey} (columns : Bitmap)
    {shards : List (ℤ × BSIBitmap)} {s : CacheState}
    (hshards : ∀ shard ∈ shards, s.bsiEntry (key, shard.1) = some shard.2)
    (hnodup : (shards.map Prod.fst).Nodup) (time : ℤ) :
    (shards.foldl (clearAllShard enabled env now key columns) s).bsiEntry (key, time) =
      if time ∈ shards.map Prod.fst then
        (s.bsiEntry (key, time)).map (clearedShard now columns)
      else s.bsiEntry (key, time) := by
  induction shards generalizing s with
  | nil => rfl
  | cons shard shards ih =>
    rw [map_cons, nodup_cons] at hnodup
    have hhead := hshards shard mem_cons_self
    have hentry := bsiEntry_clearAllShard enabled env now columns hhead
    rw [foldl_cons, ih (fun shard' hmem => ?_) hnodup.2, hentry, map_cons]
    · by_cases htime : time = shard.1
      · subst htime
        simp [hnodup.1, hhead]
      · simp only [mem_cons, Prod.mk.injEq, true_and, htime, false_or, if_false]
    · have hne : shard'.1 ≠ shard.1 := fun heq => hnodup.1 (heq ▸ mem_map_of_mem hmem)
      rw [hentry, if_neg fun heq => hne (congrArg Prod.snd heq)]
      exact hshards shard' (mem_cons_of_mem _ hmem)

theorem bsiEntry_clearAll (index : String) (start stop : ℤ) (columns : Bitmap) (s : CacheState)
    (k : FieldKey × ℤ) :
    (clearAll enabled env now index start stop columns s).bsiEntry k =
      if k.1.index = index ∧ ¬ (k.2 < start ∨ k.2 > stop) then
        (s.bsiEntry k).map (clearedShard now columns)
      else s.bsiEntry k := by
  rcases k with ⟨key, time⟩
  by_cases hindex : key.index = index
  · have hfield : (clearAll enabled env now index start stop columns s).bsiEntry (key, time) =
        (clearAllField enabled env now key start stop columns s).bsiEntry (key, time) := by
      simp [CacheState.bsiEntry, clearAll, hindex]
    have hmem : ∀ shard ∈ (s.bsiCache key).range env.order,
        s.bsiEntry (key, shard.1) = some shard.2 := fun shard h => GoMap.mem_range.mp h
    rw [hfield, clearAllField, bsiEntry_foldl_clearAllShard enabled env now columns
      (fun shard h => hmem shard (mem_of_mem_filter h))
      (List.Nodup.sublist (filter_sublist.map _) ((s.bsiCache key).range_nodup env.order))]
    cases hentry : s.bsiEntry (key, time) with
    | none => simp
    | some b =>
      have hvisited : time ∈ (((s.bsiCache key).range env.order).filter
          (fun shard => !(shard.1 < start || shard.1 > stop))).map Prod.fst ↔
            ¬ (time < start ∨ time > stop) := by
        rw [mem_map]
        constructor
        · rintro ⟨shard, hshard, rfl⟩
          simpa using (mem_filter.mp hshard).2
        · intro hwindow
          refine ⟨(time, b), mem_filter.mpr ⟨GoMap.mem_range.mpr hentry, ?_⟩, rfl⟩
          simpa using hwindow
      simp only [hvisited, hindex, true_and]
  · simp [CacheState.bsiEntry, clearAll, hindex]

end

def truncate (index : String) (s : CacheState) : CacheState where
  bitmapCache k := if k.key.index = index then none else s.bitmapCache k
  bsiCache key := if key.index = index then ∅ else s.bsiCache key
  artifacts key := if key.index = index then none else s.artifacts key

/-! ## Rebuilding the artifacts -/

def rebuildArtifact (own : Ownership) (order : RangeOrder) (shards : GoMap ℤ BSIBitmap) :
    Option ReverseArtifact :=
  let artifact := (shards.range order).foldl (fun a shard =>
    { a with
      data := a.data.addRows shard.2.contents
      byShard := a.byShard.insert shard.1
        (((a.byShard.lookup shard.1).getD .new).addRows shard.2.contents) }) ReverseArtifact.new
  if artifact.data.rows > 0 then some (artifact.buildOwned own order) else none

/-- `rebuildRelationshipReverseArtifactsForIndex`. -/
def rebuildArtifacts (env : CallEnv) (index : String) (s : CacheState) : CacheState :=
  { s with artifacts := fun key =>
      if key.index = index then
        if enabled key then rebuildArtifact (env.ownership key) env.order (s.bsiCache key)
        else none
      else s.artifacts key }

end QuantaStream.Server
