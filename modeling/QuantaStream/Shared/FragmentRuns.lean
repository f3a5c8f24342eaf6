import QuantaStream.Lib.Run
import QuantaStream.Shared.BatchEquivalence

/-!
# Runs of fragments

Fragments reach a node one after another, each at its own time and with its own view of the
placement.  This module compares the caches after any run of them with a reference on the contents
alone: the columns of every row of the standard bitmaps, and the value of every column of a
bit-sliced index.
-/

namespace QuantaStream.Shared

open Server List

/-! ## Standard bitmaps -/

/-- A call of `updateBitmapCache`. -/
structure BitmapUpdate where
  env : CallEnv
  start : Time
  now : BitmapKey → Time
  fragment : BitmapFragment

/-- What a fragment should do to the columns of a row: a set adds its columns to the row and a
clear removes them from it; an update leaves them in no other row of its shard. -/
def referenceBits (f : BitmapFragment) (contents : BitmapKey → Bitmap) (k : BitmapKey) : Bitmap :=
  if k = f.key then
    if f.isClear then contents k \ f.bits else contents k ∪ f.bits
  else if f.isUpdate ∧ k.key = f.key.key ∧ k.time = f.key.time then contents k \ f.bits
  else contents k

/-- The caches and the reference, each after its step. -/
def bitmapStep (p : CacheState × (BitmapKey → Bitmap)) (u : BitmapUpdate) :
    CacheState × (BitmapKey → Bitmap) :=
  (updateBitmapCache u.env u.start u.now u.fragment p.1, referenceBits u.fragment p.2)

/-- The caches have the contents of the reference. -/
def SameBits (p : CacheState × (BitmapKey → Bitmap)) : Prop :=
  ∀ k, bitsOf (p.1.bitmapCache k) = p.2 k

/-- The row of the fragment is cached, or a new row is to be what the fragment has: it is a set, or
an update of a key that the node is a member for.  A fragment without columns and a clear of all
rows need no row. -/
def Lands (s : CacheState) (u : BitmapUpdate) : Prop :=
  u.fragment.bits = ∅ ∨ (s.bitmapCache u.fragment.key).isSome ∨
    if u.fragment.isClear then u.fragment.isUpdate = true
    else u.fragment.isUpdate = true → u.env.member (.bitmap u.fragment.key) = true

theorem bitsOf_row_iff (s : CacheState) (u : BitmapUpdate) :
    bitsOf ((updateBitmapCache u.env u.start u.now u.fragment s).bitmapCache u.fragment.key) =
      (if u.fragment.isClear then bitsOf (s.bitmapCache u.fragment.key) \ u.fragment.bits
        else bitsOf (s.bitmapCache u.fragment.key) ∪ u.fragment.bits) ↔ Lands s u := by
  obtain ⟨env, start, now, f⟩ := u
  have hcleared := bitsOf_clearForUpdate now f s f.key
  rw [bitmapCache_updateBitmapCache, Lands]
  cases hb : s.bitmapCache f.key with
  | none =>
    have hc : (clearForUpdate now f s).bitmapCache f.key = none := by
      unfold clearForUpdate clearAllRows
      split_ifs <;> simp [hb]
    have hempty : ∅ = f.bits ↔ f.bits = ∅ := eq_comm
    cases hclear : f.isClear <;> cases hupdate : f.isUpdate <;>
      cases hmember : env.member (.bitmap f.key) <;>
        simp [hc, mergedBitmap, bitsOf, hupdate, hmember, hempty]
  | some b =>
    have hc : ∃ b', (clearForUpdate now f s).bitmapCache f.key = some b' := by
      unfold clearForUpdate clearAllRows
      split_ifs <;> simp [hb]
    obtain ⟨b', hb'⟩ := hc
    cases hclear : f.isClear <;> cases hupdate : f.isUpdate <;>
      simp_all [mergedBitmap, bitsOf, mergeBitmap]

theorem sameBits_step_iff {p : CacheState × (BitmapKey → Bitmap)} (h : SameBits p)
    (u : BitmapUpdate) : SameBits (bitmapStep p u) ↔ Lands p.1 u := by
  obtain ⟨s, contents⟩ := p
  obtain rfl : (fun k => bitsOf (s.bitmapCache k)) = contents := funext h
  rw [← bitsOf_row_iff]
  constructor
  · intro hsame
    simpa [bitmapStep, referenceBits] using hsame u.fragment.key
  · intro hrow k
    by_cases hk : k = u.fragment.key
    · rw [hk]
      simpa [bitmapStep, referenceBits] using hrow
    · simp [bitmapStep, referenceBits, bitmapCache_updateBitmapCache, hk, bitsOf_clearForUpdate]

/-- The caches have the contents of the reference after every fragment of a run exactly if every
fragment lands. -/
theorem bitmap_runs_sameBits_iff (s : CacheState) (us : List BitmapUpdate) :
    (∀ us', us' <+: us →
      SameBits (Run.exec bitmapStep (s, fun k => bitsOf (s.bitmapCache k)) us')) ↔
      Run.Meets bitmapStep (fun p u => Lands p.1 u) (s, fun k => bitsOf (s.bitmapCache k)) us := by
  have hstep : ∀ p u, True → SameBits p → (SameBits (bitmapStep p u) ↔ Lands p.1 u) :=
    fun _ u _ h => sameBits_step_iff h u
  exact Run.forall_prefix_iff_meets bitmapStep (fun _ _ _ => trivial) hstep trivial (fun _ => rfl) us

/-- A clear of a row that is not cached stores the columns it should remove. -/
theorem clear_of_missing_row_sets :
    ¬ SameBits (bitmapStep (.init, fun _ => ∅)
      ⟨⟨fun _ => true, fun _ => ⟨false, fun _ => true⟩, .asKept⟩, 1, fun _ => 1,
        { key := ⟨⟨"orders", "status"⟩, 3, 0⟩, bits := {7}, modTime := 0, isClear := true }⟩) := by
  intro h
  exact absurd (h ⟨⟨"orders", "status"⟩, 3, 0⟩) (by decide)

/-! ## Bit-sliced indexes -/

/-- The values of every shard after any run are those of the last writers. -/
theorem bsi_runs_lastWriter (enabled : FieldKey → Bool) (k : BSIKey) (s : CacheState)
    (us : List BSIUpdate) :
    shardValues k (us.foldl (fun s u => updateBSICache enabled u.env u.start u.fragment s) s) =
      us.foldl (lastWriter k) (shardValues k s) :=
  (foldl_hom (shardValues k) fun s u => (shardValues_updateBSICache enabled k s u).symm).symm

/-- A node that is not a member drops an update of a shard it does not have. -/
theorem update_of_missing_shard_dropped :
    valueOf (updateBSICache (fun _ => false)
      ⟨fun _ => false, fun _ => ⟨false, fun _ => true⟩, .asKept⟩ 1
        { key := ⟨"orders", "total"⟩, time := 0, data := .values (Bsi.empty.setValue 7 5)
          modTime := 0, isUpdate := true } .init) (⟨"orders", "total"⟩, 0) 7 = none := by
  decide

end QuantaStream.Shared
