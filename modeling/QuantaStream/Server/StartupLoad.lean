import Mathlib.Data.Prod.Lex
import QuantaStream.Lib.KeyedPass
import QuantaStream.Server.ShardFiles

/-!
# Loading the shards at startup

A node that starts fills its caches from disk.  It takes the shards that the shard manifest lists,
if the manifest is usable, and otherwise walks the whole directory.  Both ways collect at most one
fragment for each shard.  When several files hold the same shard the walk keeps the newest bundle or
pack, but lays slice files over whatever it has found before them.
-/

namespace QuantaStream.Server

open List Option GoMap

/-! ## The walk -/

def bsiPackLeafDir : String := "_bsi_pack"

def sliceFile (slice : ℕ) : String := if slice = 0 then "EBM" else toString slice

/-- The name of a row file; the texts of hours start with a digit and come before `default`. -/
def rowFileName : ShardName → String
  | .default => "default"
  | _ => ""

/-- What orders the files of one shard in a walk: the directory below the table, the directory
below the field (rows, then `bsi`, then `standard`), and the name of the file. -/
def Place.walkKey : Place → String ×ₗ ℕ ×ₗ String
  | .packEntry _ _ => toLex (bsiPackLeafDir, toLex (0, "bundle"))
  | .rowFile key _ name => toLex (key.field, toLex (0, rowFileName name))
  | .bsiSlice key _ slice => toLex (key.field, toLex (1, sliceFile slice))
  | .bsiBundle key _ => toLex (key.field, toLex (1, "bundle"))
  | .bundleEntry key _ _ => toLex (key.field, toLex (2, "bundle"))

/-- The files in the lexical order in which `filepath.Walk` visits them. -/
def walk (files : Files) : List (Place × Stored) :=
  (files.range .asKept).insertionSort fun a b => a.1.walkKey ≤ b.1.walkKey

variable {files : Files}

theorem mem_walk {e : Place × Stored} : e ∈ walk files ↔ files.lookup e.1 = some e.2 := by
  rw [walk, mem_insertionSort]
  exact mem_range

abbrev Fragments := GoMap ShardKey Stored

/-- `bitmapStartupFragmentMap.add`: the newer fragment stays. -/
def newer (f : Stored) : Option Stored → Stored
  | none => f
  | some existing => if existing.modTime < f.modTime then f else existing

/-- Chunks appended until there are enough of them. -/
def padTo (n : ℕ) (data : BitData) : BitData := data ++ replicate (n - data.length) []

/-- How much older than its last slice a fragment of slices is taken to be. -/
def tenSeconds : Time := 10000000000

/-- A slice is put into the fragment that is there, whatever it was read from. -/
def laySlice (slice : ℕ) (f : Stored) : Option Stored → Stored
  | none => ⟨(padTo (slice + 1) [[], []]).set slice (f.data.headD []), f.modTime⟩
  | some existing =>
    ⟨(padTo (slice + 1) existing.data).set slice (f.data.headD []), f.modTime - tenSeconds⟩

/-- What the walk makes of the fragment of a shard when it comes to a file. -/
def visitPlace : Place → Stored → Option Stored → Except String Stored
  | .packEntry _ _, f, found => .ok (newer f found)
  | .bsiBundle _ _, f, found => .ok (newer f found)
  | .bundleEntry _ _ _, f, found => .ok (newer f found)
  | .bsiSlice _ _ slice, f, found => .ok (laySlice slice f found)
  | .rowFile _ _ _, f, none => .ok f
  | .rowFile key _ _, _, some _ =>
    .error ("readBitmapFiles: Should not be here for standard bitmaps! [" ++ key.index ++ "/" ++
      key.field ++ "]")

variable (tables : TableCache)

/-- The walk at one file; files of unknown fields are ignored. -/
def visitFile (fragments : Fragments) (e : Place × Stored) : Except String Fragments :=
  if (fieldQuantum? tables e.1.shard.field).isSome then
    (visitPlace e.1 e.2 (fragments.lookup e.1.shard)).map (fragments.insert e.1.shard)
  else .ok fragments

section

variable (files : Files)

/-- The slow scan of `readBitmapFiles`. -/
def scanFiles : Except String Fragments :=
  (walk files).foldlM (visitFile tables) ∅

/-! ## The manifest -/

/-- `BitmapShardManifestEntry`: the file or files that hold a shard, or the shards of a bundle.  The
paths are those of the format, so the name of the shard stands for them. -/
inductive ManifestEntry where
  | standardBundle (key : FieldKey) (name : ShardName) (modTime : Time)
  | standardFile (key : FieldKey) (rowID : ℕ) (name : ShardName) (modTime : Time)
  | bsiPack (key : FieldKey) (name : ShardName) (modTime : Time)
  | bsiBundle (key : FieldKey) (name : ShardName) (modTime : Time)
  | bsiSlices (key : FieldKey) (name : ShardName) (maxBitSlice fileCount : ℕ) (modTime : Time)
  deriving DecidableEq, Repr

def ManifestEntry.field : ManifestEntry → FieldKey
  | .standardBundle key _ _ => key
  | .standardFile key _ _ _ => key
  | .bsiPack key _ _ => key
  | .bsiBundle key _ _ => key
  | .bsiSlices key _ _ _ _ => key

def hasGroupFile (g : GroupFile) : Bool :=
  files.entries.any fun e => e.1.groupFile = some g

/-- The files of an entry exist; for slices the existence bitmap is looked for. -/
def ManifestEntry.present : ManifestEntry → Bool
  | .standardBundle key name _ => hasGroupFile files (.standardBundle key name)
  | .standardFile key rowID name _ => (files.lookup (.rowFile key rowID name)).isSome
  | .bsiPack key name _ => hasGroupFile files (.bsiPack key.index name)
  | .bsiBundle key name _ => (files.lookup (.bsiBundle key name)).isSome
  | .bsiSlices key name _ fileCount _ =>
    0 < fileCount && (files.lookup (.bsiSlice key name 0)).isSome

structure Disk where
  files : Files
  manifest : Option (List ManifestEntry)

/-- `loadAndObserveBitmapShardManifest`: the entries of a manifest with the status `ok`. -/
def observeManifest (d : Disk) : Option (List ManifestEntry) :=
  d.manifest.filter fun entries =>
    !entries.isEmpty &&
      entries.all fun e => e.field.index ≠ "" && e.field.field ≠ "" && e.present d.files

/-- The time of a shard as a modification time. -/
def unixTime (time : ℤ) : Time := (time + 62135596800000000000).toNat

/-- A fragment of an index is refused without an existence bitmap. -/
def withExistence (k : ShardKey) (f : Stored) : Option (List (ShardKey × Stored)) :=
  if f.data.headD [] = [] then none else some [(k, f)]

/-- `loadManifestStandardBundleEntry`, `loadManifestBSIEntry` and the branch for row files. -/
def loadEntry : ManifestEntry → Option (List (ShardKey × Stored))
  | .standardBundle key name modTime =>
    if hasGroupFile files (.standardBundle key name) then
      some ((files.entries.filter fun e => e.1.groupFile = some (.standardBundle key name)).map
        fun e => (e.1.shard, ⟨e.2.data, modTime⟩))
    else none
  | .standardFile key rowID name modTime =>
    (files.lookup (.rowFile key rowID name)).map fun f =>
      [(.bitmap ⟨key, rowID, name.time⟩, ⟨f.data, modTime⟩)]
  | .bsiPack key name modTime =>
    (files.lookup (.packEntry key name)).bind fun f =>
      withExistence (.bsi key name.time) ⟨f.data, max (unixTime name.time) modTime⟩
  | .bsiBundle key name modTime =>
    (files.lookup (.bsiBundle key name)).bind fun f =>
      withExistence (.bsi key name.time) ⟨f.data, max (unixTime name.time) modTime⟩
  | .bsiSlices key name maxBitSlice fileCount modTime =>
    if 0 < fileCount && fileCount ≠ maxBitSlice + 1 then none
    else
      ((List.range (maxBitSlice + 1)).mapM fun slice =>
        (files.lookup (.bsiSlice key name slice)).map fun f => f.data.headD []).bind fun data =>
          withExistence (.bsi key name.time)
            ⟨padTo 2 data, if modTime = 0 then unixTime name.time else modTime⟩

/-- `bitmapStartupFragmentMap.add`. -/
def addFragment (fragments : Fragments) (f : ShardKey × Stored) : Fragments :=
  fragments.insert f.1 (newer f.2 (fragments.lookup f.1))

/-- `readBitmapFilesFromManifest`; without a result the walk is used instead. -/
def readFromManifest (entries : List ManifestEntry) : Option Fragments :=
  entries.foldlM (fun fragments e =>
    if (fieldQuantum? tables e.field).isSome then
      (loadEntry files e).map (foldl addFragment fragments)
    else none) ∅

end

/-- `readBitmapFiles`; `useManifest` is the setting `QUANTASTREAM_USE_SHARD_MANIFEST`. -/
def readBitmapFiles (useManifest : Bool) (d : Disk) : Except String Fragments :=
  match (if useManifest then observeManifest d else none).bind (readFromManifest tables d.files) with
  | some fragments => .ok fragments
  | none => scanFiles tables d.files

/-! ## Shards without files -/

def Holds (files : Files) (k : ShardKey) : Prop := ∃ p ∈ files, p.shard = k

theorem framed_visitFile :
    KeyedPass.Framed (fun (m : Fragments) k => m.lookup k)
      (fun e : Place × Stored => e.1.shard) (visitFile tables) := by
  intro m e m' h k hk
  unfold visitFile at h
  split at h
  · obtain ⟨f, -, rfl⟩ := Outcome.map_eq_ok.mp h
    simp [hk]
  · cases h
    rfl

variable {fragments : Fragments} {k : ShardKey} {tables : TableCache}

theorem lookup_scanFiles_eq_none (h : scanFiles tables files = .ok fragments)
    (hk : ¬ Holds files k) : fragments.lookup k = none := by
  have hne : ∀ e ∈ walk files, k ≠ e.1.shard := by
    rintro e he rfl
    refine hk ⟨e.1, ?_, rfl⟩
    rw [← AList.lookup_isSome, mem_walk.mp he]
    rfl
  rw [(framed_visitFile tables).foldlM_of_forall_ne h hne]
  rfl

variable {fs : List (ShardKey × Stored)}

theorem shard_of_withExistence {f : Stored} (h : withExistence k f = some fs) : fs = [(k, f)] := by
  unfold withExistence at h
  split at h
  · cases h
  · exact (some.inj h).symm

/-- An entry of the manifest loads only shards that its files hold. -/
theorem holds_of_loadEntry {e : ManifestEntry} (h : loadEntry files e = some fs) :
    ∀ f ∈ fs, Holds files f.1 := by
  have hmem : ∀ {p : Place} {f : Stored}, files.lookup p = some f → p ∈ files := by
    intro p f hp
    rw [← AList.lookup_isSome, hp]
    rfl
  cases e with
  | standardBundle key name modTime =>
    rw [loadEntry] at h
    split at h
    · cases h
      intro f hf
      obtain ⟨e, he, rfl⟩ := mem_map.mp hf
      exact ⟨e.1, mem_keys_of_mem (mem_of_mem_filter he), rfl⟩
    · cases h
  | standardFile key rowID name modTime =>
    obtain ⟨f, hf, rfl⟩ := map_eq_some_iff.mp h
    exact forall_mem_singleton.mpr ⟨_, hmem hf, rfl⟩
  | bsiPack key name modTime | bsiBundle key name modTime =>
    obtain ⟨f, hf, hfs⟩ := bind_eq_some_iff.mp h
    rw [shard_of_withExistence hfs]
    exact forall_mem_singleton.mpr ⟨_, hmem hf, rfl⟩
  | bsiSlices key name maxBitSlice fileCount modTime =>
    rw [loadEntry] at h
    split at h
    · cases h
    obtain ⟨data, hdata, hfs⟩ := bind_eq_some_iff.mp h
    rw [range_succ_eq_map, mapM_cons] at hdata
    obtain ⟨ebm, hebm, -⟩ := bind_eq_some_iff.mp hdata
    obtain ⟨f, hf, -⟩ := map_eq_some_iff.mp hebm
    rw [shard_of_withExistence hfs]
    exact forall_mem_singleton.mpr ⟨_, hmem hf, rfl⟩

theorem lookup_foldl_addFragment (hk : ∀ f ∈ fs, k ≠ f.1) (m : Fragments) :
    (fs.foldl addFragment m).lookup k = m.lookup k := by
  induction fs generalizing m with
  | nil => rfl
  | cons f fs ih =>
    obtain ⟨hf, hfs⟩ := forall_mem_cons.mp hk
    rw [foldl_cons, ih hfs, addFragment, lookup_insert, if_neg hf]

/-- Fragments of a shard that all hold the same data leave that data. -/
theorem data_foldl_addFragment {data : BitData} (hdata : ∀ f ∈ fs, f.1 = k → f.2.data = data)
    (m : Fragments) (hm : ∀ f ∈ m.lookup k, f.data = data)
    (hsome : (m.lookup k).isSome ∨ ∃ f ∈ fs, f.1 = k) :
    ((fs.foldl addFragment m).lookup k).map Stored.data = some data := by
  induction fs generalizing m with
  | nil =>
    obtain hsome | ⟨f, hf, -⟩ := hsome
    · obtain ⟨f, hf⟩ := isSome_iff_exists.mp hsome
      rw [foldl_nil, hf, map_some, hm f hf]
    · cases hf
  | cons f fs ih =>
    obtain ⟨hf, hfs⟩ := forall_mem_cons.mp hdata
    by_cases hk : f.1 = k
    · subst hk
      have hlookup : (addFragment m f).lookup f.1 = some (newer f.2 (m.lookup f.1)) := by
        rw [addFragment, lookup_insert, if_pos rfl]
      refine ih hfs (addFragment m f) ?_ (.inl (by rw [hlookup]; rfl))
      intro f' hf'
      rw [hlookup] at hf'
      rw [← some.inj hf']
      cases hfound : m.lookup f.1 with
      | none => exact hf rfl
      | some f' =>
        rw [newer]
        split
        · exact hf rfl
        · exact hm f' hfound
    · have hlookup : (addFragment m f).lookup k = m.lookup k := by
        rw [addFragment, lookup_insert, if_neg (Ne.symm hk)]
      refine ih hfs (addFragment m f) (hlookup ▸ hm) ?_
      rw [hlookup]
      refine hsome.imp_right ?_
      rintro ⟨f', hf', hk'⟩
      obtain rfl | hf' := mem_cons.mp hf'
      · exact absurd hk' hk
      · exact ⟨f', hf', hk'⟩

/-- What the entries of a manifest load, one after the other. -/
def manifestLoads (files : Files) (entries : List ManifestEntry) : List (ShardKey × Stored) :=
  entries.flatMap fun e => (loadEntry files e).getD []

variable {entries : List ManifestEntry}

theorem holds_of_mem_manifestLoads {f : ShardKey × Stored} (hf : f ∈ manifestLoads files entries) :
    Holds files f.1 := by
  obtain ⟨e, -, hfe⟩ := mem_flatMap.mp hf
  cases hload : loadEntry files e with
  | none =>
    rw [hload] at hfe
    cases hfe
  | some fs =>
    rw [hload] at hfe
    exact holds_of_loadEntry hload f hfe

/-- A manifest is read if all its fields are known and all its entries can be loaded. -/
theorem readFromManifest_eq_some :
    readFromManifest tables files entries = some fragments ↔
      (∀ e ∈ entries, (fieldQuantum? tables e.field).isSome ∧ (loadEntry files e).isSome) ∧
        fragments = (manifestLoads files entries).foldl addFragment ∅ := by
  unfold readFromManifest manifestLoads
  generalize (∅ : Fragments) = m
  induction entries generalizing m with
  | nil =>
    constructor
    · intro h
      exact ⟨fun e he => absurd he not_mem_nil, (some.inj h).symm⟩
    · rintro ⟨-, rfl⟩
      rfl
  | cons e entries ih =>
    rw [foldlM_cons, flatMap_cons, foldl_append, forall_mem_cons]
    by_cases hknown : (fieldQuantum? tables e.field).isSome
    · cases hload : loadEntry files e with
      | none => simp [hknown]
      | some fs =>
        simpa [hknown] using ih (fs.foldl addFragment m)
    · simp [hknown]

/-- A shard that no file holds is not loaded, whether a manifest is used or not. -/
theorem lookup_readBitmapFiles_eq_none {useManifest : Bool} {d : Disk}
    (h : readBitmapFiles tables useManifest d = .ok fragments) (hk : ¬ Holds d.files k) :
    fragments.lookup k = none := by
  unfold readBitmapFiles at h
  split at h
  next fragments' hmanifest =>
    cases h
    obtain ⟨entries, -, hread⟩ := bind_eq_some_iff.mp hmanifest
    obtain ⟨-, rfl⟩ := readFromManifest_eq_some.mp hread
    rw [lookup_foldl_addFragment]
    · rfl
    · rintro f hf rfl
      exact hk (holds_of_mem_manifestLoads hf)
  next => exact lookup_scanFiles_eq_none h hk

end QuantaStream.Server
