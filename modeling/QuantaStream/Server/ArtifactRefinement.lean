import QuantaStream.Lib.Run
import QuantaStream.Server.BitmapCache

/-!
# Incremental and rebuilt reverse artifacts

The reverse artifact of a relation field is kept up to date by every change to the shards of the
field, and it can be rebuilt from them.  Both stand for the same set of value-row pairs.

Main results:

- `artifactsTrack_exec`: the artifacts after every run.
-/

namespace QuantaStream.Server

open ParOr Shared List ReverseArtifact GoMap Bsi Run

/-! ## The pairs of a field -/

/-- A shard stores a value for a row. -/
def HasPair (shards : GoMap ℤ BSIBitmap) (time : ℤ) (value : ℤ) (row : ℕ) : Prop :=
  ∃ b, shards.lookup time = some b ∧ b.contents.get? row = some value

variable {shards : GoMap ℤ BSIBitmap} {row : ℕ} {time value : ℤ}

theorem hasPair_insert {time' : ℤ} {b : BSIBitmap} :
    HasPair (shards.insert time b) time' value row ↔
      if time' = time then b.contents.get? row = some value
      else HasPair shards time' value row := by
  unfold HasPair
  rw [lookup_insert]
  split_ifs <;> simp

def bsiPairs (b : Bsi) : Finset (ℤ × ℕ) := b.existence.image (fun row => (b.value row, row))

theorem mem_bsiPairs {b : Bsi} : (value, row) ∈ bsiPairs b ↔ b.get? row = some value := by
  unfold bsiPairs get?
  by_cases h : row ∈ b.existence <;> simp [h]

def shardPairs (shards : GoMap ℤ BSIBitmap) (time : ℤ) : Finset (ℤ × ℕ) :=
  match shards.lookup time with
  | none => ∅
  | some b => bsiPairs b.contents

theorem mem_shardPairs : (value, row) ∈ shardPairs shards time ↔ HasPair shards time value row := by
  unfold shardPairs HasPair
  cases shards.lookup time with
  | none => simp
  | some b => simp [mem_bsiPairs]

theorem shardPairs_congr {shards' : GoMap ℤ BSIBitmap}
    (h : ∀ value row, HasPair shards' time value row ↔ HasPair shards time value row) :
    shardPairs shards' time = shardPairs shards time := by
  ext ⟨value, row⟩
  rw [mem_shardPairs, mem_shardPairs, h]

def fieldPairs (shards : GoMap ℤ BSIBitmap) : Finset (ℤ × ℕ) :=
  parOr (shards.keys.map (shardPairs shards))

theorem mem_fieldPairs :
    (value, row) ∈ fieldPairs shards ↔ ∃ time, HasPair shards time value row := by
  simp only [fieldPairs, mem_parOr, mem_map, exists_exists_and_eq_and, mem_shardPairs]
  refine exists_congr fun time => and_iff_right_of_imp ?_
  rintro ⟨b, hb, _⟩
  exact AList.lookup_isSome.mp (by simp [hb])

/-- The artifact of a field stands for the pairs of its shards. -/
structure Tracks (shards : GoMap ℤ BSIBitmap) (a : ReverseArtifact) : Prop where
  data : Represents a.data (fieldPairs shards)
  byShard : ∀ time, Represents ((a.byShard.lookup time).getD .new) (shardPairs shards time)

variable {S : Finset (ℤ × ℕ)}

theorem Represents.eq_empty {d : ArtifactData} (h : Represents d S) (hrows : d.rows = 0) :
    S = ∅ := by
  rw [← Finset.card_eq_zero, ← h.rows, hrows]

namespace Tracks

variable {shards shards' : GoMap ℤ BSIBitmap} {a : ReverseArtifact}

theorem new : Tracks ∅ .new where
  data := Represents.new
  byShard _ := Represents.new

/-- The owned data does not matter. -/
theorem of_eq {a' : ReverseArtifact} (h : Tracks shards a) (hdata : a'.data = a.data)
    (hbyShard : a'.byShard = a.byShard) : Tracks shards a' :=
  ⟨hdata ▸ h.data, fun time => hbyShard ▸ h.byShard time⟩

variable {time : ℤ}

/-- The pairs of a field of which one shard has changed. -/
theorem mem_fieldPairs_iff (hsame : ∀ time', time' ≠ time → ∀ value row,
      HasPair shards' time' value row ↔ HasPair shards time' value row) {value : ℤ} {row : ℕ} :
    (value, row) ∈ fieldPairs shards' ↔ HasPair shards' time value row ∨
      ∃ time', time' ≠ time ∧ HasPair shards time' value row := by
  rw [mem_fieldPairs]
  constructor
  · rintro ⟨time', hpair⟩
    by_cases ht : time' = time
    · exact .inl (ht ▸ hpair)
    · exact .inr ⟨time', ht, (hsame time' ht value row).mp hpair⟩
  · rintro (hpair | ⟨time', ht, hpair⟩)
    · exact ⟨time, hpair⟩
    · exact ⟨time', (hsame time' ht value row).mpr hpair⟩

section

variable (h : Tracks shards a) (own : Ownership)
  (hsame : ∀ time', time' ≠ time → ∀ value row,
    HasPair shards' time' value row ↔ HasPair shards time' value row)

include h hsame

/-- Removing the stored pairs of some rows of a shard, when no other shard has one of them. -/
theorem removeFragment {oldBSI : Bsi} {removedRows : Bitmap}
    (hat : ∀ value row, HasPair shards' time value row ↔
      HasPair shards time value row ∧ ¬ (row ∈ removedRows ∧ oldBSI.get? row = some value))
    (hother : ∀ time', time' ≠ time → ∀ value row, HasPair shards time' value row →
      row ∉ removedRows) : Tracks shards' (a.removeFragment own time oldBSI removedRows) := by
  refine ⟨h.data.removeRows oldBSI removedRows (fun value row => ?_), fun time' => ?_⟩
  · rw [mem_fieldPairs_iff hsame, mem_fieldPairs_iff fun time' (_ : time' ≠ time) _ _ => Iff.rfl, hat,
      or_and_right]
    refine or_congr_right (and_iff_left_of_imp ?_).symm
    rintro ⟨time', ht, hpair⟩ hrem
    exact hother time' ht value row hpair hrem.1
  · have hat' := h.byShard time
    have hkept : time' ≠ time →
        Represents ((a.byShard.lookup time').getD .new) (shardPairs shards' time') := by
      intro ht
      rw [shardPairs_congr (hsame time' ht)]
      exact h.byShard time'
    unfold ReverseArtifact.removeFragment
    cases hlookup : a.byShard.lookup time with
    | none =>
      rw [hlookup] at hat'
      by_cases ht : time' = time
      · have hnew : shardPairs shards' time = ∅ := by
          ext ⟨value, row⟩
          rw [mem_shardPairs, hat, ← mem_shardPairs, hat'.eq_empty rfl]
          simp
        rw [ht, hnew, hlookup]
        exact Represents.new
      · exact hkept ht
    | some shard =>
      rw [hlookup, Option.getD_some] at hat'
      have hshard' : Represents (shard.removeRows oldBSI removedRows) (shardPairs shards' time) := by
        refine hat'.removeRows oldBSI removedRows (fun value row => ?_)
        rw [mem_shardPairs, mem_shardPairs, hat]
      dsimp only
      split_ifs with hrows
      · rw [lookup_erase]
        split_ifs with ht
        · rw [ht, Option.getD_none, hshard'.eq_empty hrows]
          exact Represents.new
        · exact hkept ht
      · rw [lookup_insert]
        split_ifs with ht
        · exact ht ▸ hshard'
        · exact hkept ht

theorem addFragment {addedBSI : Bsi} (hat : ∀ value row, HasPair shards' time value row ↔
      HasPair shards time value row ∨ addedBSI.get? row = some value) :
    Tracks shards' (a.addFragment own time addedBSI) := by
  refine ⟨h.data.addRows addedBSI (fun value row => ?_), fun time' => ?_⟩
  · rw [mem_fieldPairs_iff hsame, mem_fieldPairs_iff fun time' (_ : time' ≠ time) _ _ => Iff.rfl, hat]
    exact or_right_comm
  · unfold ReverseArtifact.addFragment
    rw [lookup_insert]
    by_cases ht : time' = time
    · subst ht
      rw [if_pos rfl, Option.getD_some]
      refine (h.byShard time').addRows addedBSI (fun value row => ?_)
      rw [mem_shardPairs, mem_shardPairs, hat]
    · rw [if_neg ht, shardPairs_congr (hsame time' ht)]
      exact h.byShard time'

end

/-- One update of the artifact, by removals and additions in one shard. -/
theorem updateForBSIFragment {shards₁ : GoMap ℤ BSIBitmap} (h : Tracks shards a) (own : Ownership)
    (order : RangeOrder) {removed : Option (Bsi × Bitmap)} {addedBSI : Option Bsi}
    (hremove : ∀ a, Tracks shards a → Tracks shards₁ (match removed with
      | none => a
      | some (oldBSI, removedRows) => a.removeFragment own time oldBSI removedRows))
    (hadd : ∀ a, Tracks shards₁ a → Tracks shards' (match addedBSI with
      | none => a
      | some addedBSI => a.addFragment own time addedBSI)) :
    Tracks shards' (a.updateForBSIFragment own order time removed addedBSI) := by
  have hrefresh : Tracks shards (a.refreshOwned own order) := h.of_eq (by simp) (by simp)
  have hsettle := settleOwned_parts own
  exact (hadd _ (hremove _ hrefresh)).of_eq (hsettle _).1 (hsettle _).2

end Tracks

/-! ## One change to a shard -/

/-- Every row is stored in at most one shard. -/
def RowsInOneShard (shards : GoMap ℤ BSIBitmap) : Prop :=
  ∀ time₁ time₂ b₁ b₂, time₁ ≠ time₂ → shards.lookup time₁ = some b₁ →
    shards.lookup time₂ = some b₂ → Disjoint b₁.contents.existence b₂.contents.existence

section

variable {shards : GoMap ℤ BSIBitmap} {a : ReverseArtifact} {time : ℤ} {b : BSIBitmap}

theorem Tracks.removeRows (h : Tracks shards a) (hone : RowsInOneShard shards)
    (hb : shards.lookup time = some b) (own : Ownership) {b' : BSIBitmap} (columns : Bitmap)
    (hb' : b'.contents = b.contents.clearValues (b.contents.existence ∩ columns)) :
    Tracks (shards.insert time b')
      (a.removeFragment own time b.contents (b.contents.existence ∩ columns)) := by
  refine h.removeFragment own (fun _ ht _ _ => by rw [hasPair_insert, if_neg ht])
    (fun value row => ?_) (fun time' ht value row hpair => ?_)
  · have hold : HasPair shards time value row ↔ b.contents.get? row = some value := by
      simp [HasPair, hb]
    rw [hasPair_insert, if_pos rfl, hold, hb', get?_clearValues]
    by_cases hrow : row ∈ b.contents.existence ∩ columns <;> simp [hrow]
  · intro hrow
    rcases hpair with ⟨c, hc, hget⟩
    have hrow' : row ∈ c.contents.existence := mem_existence_iff.mpr ⟨value, hget⟩
    exact Finset.disjoint_left.mp (hone time' time c b ht hc hb) hrow' (Finset.mem_inter.mp hrow).1

/-- Storing the values of an index in a shard that has none of its rows. -/
theorem Tracks.addRows (h : Tracks shards a) (own : Ownership) {b' : BSIBitmap} (addedBSI : Bsi)
    (hb' : ∀ value row, b'.contents.get? row = some value ↔
      HasPair shards time value row ∨ addedBSI.get? row = some value) :
    Tracks (shards.insert time b') (a.addFragment own time addedBSI) := by
  refine h.addFragment own (fun _ ht _ _ => by rw [hasPair_insert, if_neg ht]) (fun value row => ?_)
  rw [hasPair_insert, if_pos rfl, hb']

theorem get?_or_of_disjoint {old new : Bsi} (hdisj : Disjoint old.existence new.existence)
    (value : ℤ) (row : ℕ) :
    (old.or new).get? row = some value ↔
      old.get? row = some value ∨ new.get? row = some value := by
  rw [get?_or]
  split_ifs with hrow
  · have hnew : new.get? row = none :=
      get?_eq_none_iff.mpr (Finset.disjoint_left.mp hdisj hrow)
    simp [hnew]
  · simp [get?_of_notMem hrow]

theorem Tracks.clearShard (h : Tracks shards a) (hone : RowsInOneShard shards)
    (hb : shards.lookup time = some b) (own : Ownership) (order : RangeOrder) (columns : Bitmap)
    (modTime : Time) :
    Tracks (shards.insert time
        { b with contents := b.contents.clearValues (b.contents.existence ∩ columns), modTime := modTime })
      (a.updateForBSIFragment own order time (some (b.contents, b.contents.existence ∩ columns)) none) :=
  h.updateForBSIFragment own order
    (fun _ h => h.removeRows hone hb own columns rfl) (fun _ h => h)

theorem Tracks.newShard (h : Tracks shards a) (hnone : shards.lookup time = none)
    (own : Ownership) (order : RangeOrder) (newBSI : Bsi) (modTime persistTime : Time) :
    Tracks (shards.insert time ⟨newBSI, modTime, persistTime⟩)
      (a.updateForBSIFragment own order time none (some newBSI)) := by
  refine h.updateForBSIFragment own order (fun _ h => h) (fun a h => h.addRows own newBSI ?_)
  simp [HasPair, hnone]

/-- The update of the artifact when values are stored in a shard that has some of the rows. -/
theorem Tracks.storeShard (h : Tracks shards a) (hone : RowsInOneShard shards)
    (hb : shards.lookup time = some b) (own : Ownership) (order : RangeOrder) (newBSI : Bsi)
    (modTime persistTime : Time) :
    Tracks (shards.insert time
        ⟨(b.contents.clearValues (b.contents.existence ∩ newBSI.existence)).or newBSI, modTime,
          persistTime⟩) (a.updateForBSIFragment own order time
        (some (b.contents, b.contents.existence ∩ newBSI.existence)) (some newBSI)) := by
  have hdisj : Disjoint (b.contents.clearValues (b.contents.existence ∩ newBSI.existence)).existence
      newBSI.existence := by
    rw [existence_clearValues, Finset.sdiff_inter_self_left]
    exact Finset.sdiff_disjoint
  rw [← AList.insert_insert shards
    (b := ⟨b.contents.clearValues (b.contents.existence ∩ newBSI.existence), modTime, persistTime⟩)]
  refine h.updateForBSIFragment own order
    (fun _ h => h.removeRows hone hb own newBSI.existence rfl)
    (fun a h => h.addRows own newBSI (fun value row => ?_))
  rw [get?_or_of_disjoint hdisj, hasPair_insert, if_pos rfl]

end

/-! ## Runs -/

inductive BSIMutation where
  | fragment (env : CallEnv) (start : Time) (f : BSIFragment)
  | clearAll (env : CallEnv) (now : Time) (index : String) (start stop : ℤ) (columns : Bitmap)
  | truncate (index : String)

def mutate (enabled : FieldKey → Bool) (s : CacheState) : BSIMutation → CacheState
  | .fragment env start f => updateBSICache enabled env start f s
  | .clearAll env now index start stop columns =>
    clearAll enabled env now index start stop columns s
  | .truncate index => truncate index s

/-- The artifacts of the enabled fields stand for their shards; the other fields have none. -/
structure ArtifactsTrack (enabled : FieldKey → Bool) (s : CacheState) : Prop where
  tracks : ∀ key, enabled key = true →
    Tracks (s.bsiCache key) ((s.artifacts key).getD .new)
  disabled : ∀ key, enabled key = false → s.artifacts key = none

section

variable {enabled : FieldKey → Bool} {s : CacheState} {key : FieldKey} {time : ℤ}

theorem ArtifactsTrack.init : ArtifactsTrack enabled .init where
  tracks _ _ := Tracks.new
  disabled _ _ := rfl

theorem ArtifactsTrack.change (h : ArtifactsTrack enabled s) (env : CallEnv) {b : BSIBitmap}
    {removed : Option (Bsi × Bitmap)} {addedBSI : Option Bsi}
    (hchange : enabled key = true → ∀ a, Tracks (s.bsiCache key) a →
      Tracks ((s.bsiCache key).insert time b)
        (a.updateForBSIFragment (env.ownership key) env.order time removed addedBSI)) :
    ArtifactsTrack enabled
      (setShard key time b (updateArtifact enabled env key time removed addedBSI s)) := by
  unfold setShard updateArtifact
  constructor <;> intro k hk <;> by_cases hkk : k = key
  · subst hkk
    simpa [hk] using hchange hk _ (h.tracks k hk)
  · split_ifs <;> simpa [hkk] using h.tracks k hk
  · subst hkk
    simpa [hk] using h.disabled k hk
  · split_ifs <;> simpa [hkk] using h.disabled k hk

theorem updateArtifact_setShard (env : CallEnv) (b : BSIBitmap)
    (removed : Option (Bsi × Bitmap)) (addedBSI : Option Bsi) :
    updateArtifact enabled env key time removed addedBSI (setShard key time b s) =
      setShard key time b (updateArtifact enabled env key time removed addedBSI s) := by
  unfold updateArtifact setShard
  split_ifs <;> rfl

theorem ArtifactsTrack.clearBSI (h : ArtifactsTrack enabled s)
    (hone : enabled key = true → RowsInOneShard (s.bsiCache key)) (env : CallEnv)
    (applyTime : Time) (columns : Bitmap) :
    ArtifactsTrack enabled (clearBSI enabled env applyTime key time columns s) := by
  unfold Server.clearBSI
  cases hb : (s.bsiCache key).lookup time with
  | none => exact h
  | some b =>
    exact h.change env (fun hkey a ha => ha.clearShard (hone hkey) hb _ _ columns applyTime)

theorem ArtifactsTrack.storeBSI (h : ArtifactsTrack enabled s) (f : BSIFragment)
    (hone : enabled f.key = true → RowsInOneShard (s.bsiCache f.key)) (env : CallEnv)
    (applyTime : Time) (newBSI : Bsi) :
    ArtifactsTrack enabled (storeBSI enabled env applyTime f newBSI s) := by
  unfold Server.storeBSI
  cases hb : (s.bsiCache f.key).lookup f.time with
  | none =>
    dsimp only
    split_ifs
    · exact h
    all_goals
      rw [updateArtifact_setShard]
      exact h.change env (fun _ a ha => ha.newShard hb _ _ newBSI _ _)
  | some b =>
    dsimp only
    by_cases hset : b.contents.existence ∩ newBSI.existence = ∅
    · simp only [hset, ne_eq, not_true_eq_false, if_false]
      refine h.change env (fun _ a ha => ha.updateForBSIFragment _ _ (fun _ h => h)
        (fun a h => h.addRows _ newBSI (fun value row => ?_)))
      rw [get?_or_of_disjoint (Finset.disjoint_iff_inter_eq_empty.mpr hset)]
      simp [HasPair, hb]
    · simp only [ne_eq, hset, not_false_eq_true, if_true]
      exact h.change env (fun hkey a ha => ha.storeShard (hone hkey) hb _ _ newBSI _ _)

/-- Clearing rows keeps every row in at most one shard. -/
theorem RowsInOneShard.insert {shards : GoMap ℤ BSIBitmap} (hone : RowsInOneShard shards)
    {b b' : BSIBitmap} (hb : shards.lookup time = some b)
    (hsub : b'.contents.existence ⊆ b.contents.existence) : RowsInOneShard (shards.insert time b') := by
  intro time₁ time₂ b₁ b₂ hne h₁ h₂
  rw [lookup_insert] at h₁ h₂
  split_ifs at h₁ h₂ with ht₁ ht₂ ht₂
  · exact absurd (ht₁.trans ht₂.symm) hne
  · cases h₁
    subst ht₁
    exact (hone time₁ time₂ b b₂ hne hb h₂).mono_left hsub
  · cases h₂
    subst ht₂
    exact (hone time₁ time₂ b₁ b hne h₁ hb).mono_right hsub
  · exact hone time₁ time₂ b₁ b₂ hne h₁ h₂

/-- The loop over the shards of a field: the shards that are left are still as they were. -/
theorem ArtifactsTrack.foldl_clearAllShard (env : CallEnv) (now : Time) (columns : Bitmap)
    {shards : List (ℤ × BSIBitmap)} (h : ArtifactsTrack enabled s)
    (hone : enabled key = true → RowsInOneShard (s.bsiCache key))
    (hnodup : (shards.map Prod.fst).Nodup)
    (hlookup : ∀ shard ∈ shards, (s.bsiCache key).lookup shard.1 = some shard.2) :
    ArtifactsTrack enabled (shards.foldl (clearAllShard enabled env now key columns) s) := by
  induction shards generalizing s with
  | nil => exact h
  | cons shard shards ih =>
    rw [map_cons, nodup_cons] at hnodup
    have hshard := hlookup shard mem_cons_self
    rw [foldl_cons]
    unfold clearAllShard at ih ⊢
    dsimp only
    split_ifs with hset
    · exact ih h hone hnodup.2 fun x hx => hlookup x (mem_cons_of_mem _ hx)
    have hcache : ∀ b removed added, (setShard key shard.1 b
        (updateArtifact enabled env key shard.1 removed added s)).bsiCache key =
          (s.bsiCache key).insert shard.1 b := by
      unfold setShard updateArtifact
      split_ifs <;> simp
    refine ih (h.change env (fun hkey a ha =>
      ha.clearShard (hone hkey) hshard _ _ columns now)) (fun hkey => ?_) hnodup.2 fun x hx => ?_
    · rw [hcache]
      exact (hone hkey).insert hshard Finset.sdiff_subset
    · have hne : x.1 ≠ shard.1 := fun heq => hnodup.1 (heq ▸ mem_map_of_mem hx)
      rw [hcache, lookup_insert, if_neg hne]
      exact hlookup x (mem_cons_of_mem _ hx)

theorem ArtifactsTrack.clearAllField (h : ArtifactsTrack enabled s)
    (hone : enabled key = true → RowsInOneShard (s.bsiCache key)) (env : CallEnv) (now : Time)
    (start stop : ℤ) (columns : Bitmap) :
    ArtifactsTrack enabled (clearAllField enabled env now key start stop columns s) := by
  refine foldl_clearAllShard env now columns h hone ?_ fun shard hshard => ?_
  · exact ((s.bsiCache key).range_nodup env.order).sublist (filter_sublist.map Prod.fst)
  · exact mem_range.mp (mem_filter.mp hshard).1

/-- Every change to shards keeps the artifacts in step with them. -/
theorem ArtifactsTrack.mutate (h : ArtifactsTrack enabled s)
    (hone : ∀ key, enabled key = true → RowsInOneShard (s.bsiCache key)) (e : BSIMutation) :
    ArtifactsTrack enabled (mutate enabled s e) := by
  cases e with
  | fragment env start f =>
    unfold Server.mutate updateBSICache
    dsimp only
    cases f.data with
    | values newBSI => exact h.storeBSI f (hone f.key) env _ newBSI
    | clear columns => exact h.clearBSI (hone f.key) env _ columns
  | clearAll env now index start stop columns =>
    have hfield : ∀ key, ArtifactsTrack enabled
        (Server.clearAllField enabled env now key start stop columns s) :=
      fun key => h.clearAllField (hone key) env now start stop columns
    constructor <;> intro key hkey <;> simp only [Server.mutate, Server.clearAll] <;>
      split_ifs with hindex
    · exact (hfield key).tracks key hkey
    · exact h.tracks key hkey
    · exact (hfield key).disabled key hkey
    · exact h.disabled key hkey
  | truncate index =>
    constructor <;> intro key hkey <;> simp only [Server.mutate, Server.truncate] <;>
      split_ifs with hindex
    · exact Tracks.new
    · exact h.tracks key hkey
    · rfl
    · exact h.disabled key hkey

/-- Every row of a relation field is stored in at most one shard. -/
def RelationRowsInOneShard (enabled : FieldKey → Bool) (s : CacheState) : Prop :=
  ∀ key, enabled key = true → RowsInOneShard (s.bsiCache key)

end

/-! ## The rebuilt artifact -/

variable {a : ReverseArtifact}

theorem Tracks.congr {shards' : GoMap ℤ BSIBitmap} (h : Tracks shards a)
    (hpairs : ∀ time value row, HasPair shards' time value row ↔ HasPair shards time value row) :
    Tracks shards' a := by
  have hfield : fieldPairs shards' = fieldPairs shards := by
    ext ⟨value, row⟩
    simp only [mem_fieldPairs, hpairs]
  exact ⟨hfield ▸ h.data, fun time => shardPairs_congr (hpairs time) ▸ h.byShard time⟩

/-- The loop of a rebuild: `m` has the shards that were added, `rest` those that are left. -/
theorem Tracks.foldl_rebuild {m : GoMap ℤ BSIBitmap} {rest : List (ℤ × BSIBitmap)}
    (h : Tracks m a) (hnodup : (rest.map Prod.fst).Nodup)
    (hnone : ∀ shard ∈ rest, m.lookup shard.1 = none)
    (hpairs : ∀ time value row, HasPair shards time value row ↔ HasPair m time value row ∨
      ∃ b, (time, b) ∈ rest ∧ b.contents.get? row = some value) :
    Tracks shards (rest.foldl (fun a shard =>
      { a with
        data := a.data.addRows shard.2.contents
        byShard := a.byShard.insert shard.1
          (((a.byShard.lookup shard.1).getD .new).addRows shard.2.contents) }) a) := by
  induction rest generalizing a m with
  | nil => exact h.congr fun time value row => by simpa using hpairs time value row
  | cons shard rest ih =>
    rw [map_cons, nodup_cons] at hnodup
    have hshard := hnone shard mem_cons_self
    have hadd : Tracks (m.insert shard.1 shard.2)
        (a.addFragment ⟨false, fun _ => false⟩ shard.1 shard.2.contents) := by
      refine h.addRows _ _ (fun value row => ?_)
      simp [HasPair, hshard]
    refine ih hadd hnodup.2 (fun x hx => ?_) fun time value row => ?_
    · have hne : x.1 ≠ shard.1 := fun heq => hnodup.1 (heq ▸ mem_map_of_mem hx)
      rw [lookup_insert, if_neg hne]
      exact hnone x (mem_cons_of_mem _ hx)
    · rw [hpairs, hasPair_insert]
      simp only [mem_cons, Prod.ext_iff, or_and_right, exists_or, and_assoc]
      by_cases ht : time = shard.1
      · subst ht
        have hold : ¬ HasPair m shard.1 value row := by
          simp [HasPair, hshard]
        simp [hold]
      · simp [ht]

/-- The rebuilt artifact stands for the shards. -/
theorem tracks_rebuildArtifact (own : Ownership) (order : RangeOrder) (shards : GoMap ℤ BSIBitmap) :
    Tracks shards ((rebuildArtifact own order shards).getD .new) := by
  have hfold : Tracks shards _ := .foldl_rebuild Tracks.new (shards.range_nodup order)
    (fun _ _ => rfl) (by
      simp only [GoMap.mem_range]
      simp [HasPair])
  unfold rebuildArtifact
  dsimp only
  split_ifs with hrows
  · rw [Option.getD_some]
    exact hfold.of_eq (by simp) (by simp)
  have hempty : fieldPairs shards = ∅ := hfold.data.eq_empty (by omega)
  refine Tracks.new.congr (fun time value row => iff_of_false (fun hpair => ?_) (by simp [HasPair]))
  simpa [hempty] using mem_fieldPairs.mpr ⟨time, hpair⟩

/-! ## Equal artifacts -/

/-- Two artifacts have the same rows for each value, as bitmaps and as multisets, and the same
row count. -/
structure SameData (d e : ArtifactData) : Prop where
  byValue : ∀ value, d.byValue.lookup value = e.byValue.lookup value
  rowsByValue : ∀ value, (d.rowsByValue.lookup value).map Multiset.ofList =
    (e.rowsByValue.lookup value).map Multiset.ofList
  rows : d.rows = e.rows

theorem Represents.sameData {d e : ArtifactData} (hd : Represents d S) (he : Represents e S) :
    SameData d e where
  byValue value := (hd.byValue value).trans (he.byValue value).symm
  rowsByValue value := (hd.rowsByValue value).trans (he.rowsByValue value).symm
  rows := hd.rows.trans he.rows.symm

/-- The data of a shard, if it has rows. -/
def ReverseArtifact.shardWithRows (a : ReverseArtifact) (time : ℤ) : Option ArtifactData :=
  (a.byShard.lookup time).filter (fun d => d.rows ≠ 0)

/-- Two artifacts agree on the field and on every shard with rows. -/
structure SameArtifact (a a' : ReverseArtifact) : Prop where
  data : SameData a.data a'.data
  byShard : ∀ time, Option.Rel SameData (a.shardWithRows time) (a'.shardWithRows time)

theorem shardWithRows_eq (h : Represents ((a.byShard.lookup time).getD .new) S) :
    S = ∅ ∧ a.shardWithRows time = none ∨
      S ≠ ∅ ∧ ∃ d, a.shardWithRows time = some d ∧ Represents d S := by
  unfold shardWithRows
  cases hlookup : a.byShard.lookup time with
  | none =>
    rw [hlookup] at h
    exact .inl ⟨h.eq_empty rfl, rfl⟩
  | some d =>
    rw [hlookup, Option.getD_some] at h
    by_cases hrows : d.rows = 0
    · exact .inl ⟨h.eq_empty hrows, by simp [hrows]⟩
    · refine .inr ⟨?_, d, by simp [hrows], h⟩
      intro hS
      rw [h.rows, hS] at hrows
      exact hrows rfl

theorem Tracks.sameArtifact {a' : ReverseArtifact} (h : Tracks shards a) (h' : Tracks shards a') :
    SameArtifact a a' := by
  refine ⟨h.data.sameData h'.data, fun time => ?_⟩
  rcases shardWithRows_eq (h.byShard time) with ⟨hS, hd⟩ | ⟨hS, d, hd, hrep⟩ <;>
    rcases shardWithRows_eq (h'.byShard time) with ⟨hS', hd'⟩ | ⟨hS', d', hd', hrep'⟩ <;>
    rw [hd, hd']
  · exact .none
  · exact absurd hS hS'
  · exact absurd hS' hS
  · exact .some (hrep.sameData hrep')

/-- After every run in which no row is stored in two shards at a time, the maintained artifact
of a field and the one rebuilt from the cache agree; a missing artifact counts as one without
rows. -/
theorem artifact_eq_rebuilt (enabled : FieldKey → Bool) (es : List BSIMutation)
    (hes : Meets (mutate enabled) (fun s _ => RelationRowsInOneShard enabled s) .init es)
    (env : CallEnv) (key : FieldKey) :
    SameArtifact
      (((exec (mutate enabled) .init es).artifacts key).getD .new)
      (((rebuildArtifacts enabled env key.index
        (exec (mutate enabled) .init es)).artifacts key).getD .new) := by
  have htrack := exec_induction (mutate enabled)
    (fun _ e h hone => h.mutate hone e) ArtifactsTrack.init hes
  unfold rebuildArtifacts
  simp only [if_true]
  cases hkey : enabled key with
  | true => exact (htrack.tracks key hkey).sameArtifact (tracks_rebuildArtifact _ _ _)
  | false =>
    rw [htrack.disabled key hkey]
    exact Tracks.new.sameArtifact Tracks.new

/-! ## Shards without rows -/

theorem rowsInOneShard_of_keys (h : ∀ time₁ ∈ shards.keys, ∀ time₂ ∈ shards.keys, time₁ ≠ time₂ →
      (shardPairs shards time₁).image Prod.snd ∩ (shardPairs shards time₂).image Prod.snd = ∅) :
    RowsInOneShard shards := by
  intro time₁ time₂ b₁ b₂ hne h₁ h₂
  have hmem : ∀ {time : ℤ} {b : BSIBitmap}, shards.lookup time = some b →
      time ∈ shards.keys := fun hb => AList.lookup_isSome.mp (by simp [hb])
  have hrows : ∀ b : Bsi, (bsiPairs b).image Prod.snd = b.existence := by
    simp [bsiPairs, Finset.image_image, Function.comp_def]
  have hdisj := h time₁ (hmem h₁) time₂ (hmem h₂) hne
  simp only [shardPairs, h₁, h₂, hrows] at hdisj
  exact Finset.disjoint_iff_inter_eq_empty.mpr hdisj

def customerKey : FieldKey := ⟨"orders", "customer"⟩

/-- A call on a node that is a member for every key and does not filter by ownership. -/
def localCall : CallEnv := ⟨fun _ => true, fun _ => ⟨false, fun _ => true⟩, .asKept⟩

def storeParent (time : ℤ) (row : ℕ) (parent : ℤ) : BSIMutation :=
  .fragment localCall 1
    { key := customerKey, time := time, data := .values (empty.setValue row parent),
      modTime := 0 }

def clearParent (time : ℤ) (row : ℕ) : BSIMutation :=
  .fragment localCall 1
    { key := customerKey, time := time, data := .clear {row}, modTime := 0 }

theorem relationRowsInOneShard_customer {s : CacheState}
    (h : ∀ time₁ ∈ (s.bsiCache customerKey).keys, ∀ time₂ ∈ (s.bsiCache customerKey).keys,
      time₁ ≠ time₂ → (shardPairs (s.bsiCache customerKey) time₁).image Prod.snd ∩
        (shardPairs (s.bsiCache customerKey) time₂).image Prod.snd = ∅) :
    RelationRowsInOneShard (fun key => decide (key = customerKey)) s := by
  intro key hkey
  have heq : key = customerKey := of_decide_eq_true hkey
  subst heq
  exact rowsInOneShard_of_keys h

/-- Two orders in two shards; the first one loses its parent. -/
def emptiedShardRun : List BSIMutation :=
  [storeParent 0 1 5, storeParent 1 2 5, clearParent 0 1]

theorem emptiedShardRun_meets :
    Meets (mutate (fun key => decide (key = customerKey)))
      (fun s _ => RelationRowsInOneShard (fun key => decide (key = customerKey)) s)
      .init emptiedShardRun := by
  refine ⟨relationRowsInOneShard_customer ?_, relationRowsInOneShard_customer ?_,
    relationRowsInOneShard_customer ?_, trivial⟩ <;> decide

def emptiedShardState : CacheState :=
  exec (mutate (fun key => decide (key = customerKey))) .init emptiedShardRun

/-- The maintained artifact has dropped the shard without rows, the rebuilt one has it. -/
theorem emptied_shard_kept_by_rebuild :
    Meets (mutate (fun key => decide (key = customerKey)))
        (fun s _ => RelationRowsInOneShard (fun key => decide (key = customerKey)) s)
        .init emptiedShardRun ∧
      (((emptiedShardState.artifacts customerKey).getD .new).byShard.lookup 0).isSome = false ∧
      ((((rebuildArtifacts (fun key => decide (key = customerKey)) localCall "orders"
        emptiedShardState).artifacts customerKey).getD .new).byShard.lookup 0).isSome =
          true := by
  refine ⟨emptiedShardRun_meets, ?_⟩
  decide

/-- The artifacts of a run that empties a shard. -/
theorem emptiedShardRun_same :
    SameArtifact
      ((emptiedShardState.artifacts customerKey).getD .new)
      (((rebuildArtifacts (fun key => decide (key = customerKey)) localCall "orders"
        emptiedShardState).artifacts customerKey).getD .new) :=
  artifact_eq_rebuilt _ emptiedShardRun emptiedShardRun_meets localCall customerKey

end QuantaStream.Server
