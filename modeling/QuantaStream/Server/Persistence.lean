import QuantaStream.Lib.Run
import QuantaStream.Server.PersistPass

/-!
# Writers and persistence passes

Any number of writers apply fragments to the caches of a node while background passes write dirty
groups to disk.  A writer takes its time stamp when it starts, and may then have to wait for the
lock of the cache map, which a pass holds until it is done.
-/

namespace QuantaStream.Server

open Function Shared CacheEntry Run

/-! ## The system -/

/-- The group of a standard bitmap: one file for each field and shard time. -/
def bitmapGroup (k : BitmapKey) : FieldKey × ℤ := (k.key, k.time)

/-- The group of a bit-sliced index: one file for each table and shard time. -/
def bsiGroup (k : FieldKey × ℤ) : String × ℤ := (k.1.index, k.2)

/-- The node: a clock, the stamps of the writers that have started, the caches, the files and
the two passes. -/
structure PersistState where
  clock : Time
  started : ℕ → Option Time
  caches : CacheState
  bitmapKeys : List BitmapKey
  bsiKeys : List (FieldKey × ℤ)
  bitmapDisk : BitmapKey → Option Bitmap
  bsiDisk : FieldKey × ℤ → Option Bsi
  bitmapPass : Pass BitmapKey (FieldKey × ℤ) Bitmap
  bsiPass : Pass (FieldKey × ℤ) (String × ℤ) Bsi

def PersistState.init (bitmapDisk : BitmapKey → Option Bitmap)
    (bsiDisk : FieldKey × ℤ → Option Bsi) : PersistState where
  clock := 1
  started _ := none
  caches := .init
  bitmapKeys := []
  bsiKeys := []
  bitmapDisk := bitmapDisk
  bsiDisk := bsiDisk
  bitmapPass := .idle
  bsiPass := .idle

variable (s : PersistState)

/-- What the pass over standard bitmaps works on. -/
def PersistState.bitmapView : PassView BitmapKey (FieldKey × ℤ) Bitmap where
  keys := s.bitmapKeys
  cache := s.caches.bitmapCache
  disk := s.bitmapDisk
  pass := s.bitmapPass

/-- What the pass over bit-sliced indexes works on. -/
def PersistState.bsiView : PassView (FieldKey × ℤ) (String × ℤ) Bsi where
  keys := s.bsiKeys
  cache := s.caches.bsiEntry
  disk := s.bsiDisk
  pass := s.bsiPass

/-- The steps of the node. -/
inductive PersistEvent where
  | tick
  | start (writer : ℕ)
  | applyBitmap (writer : ℕ) (env : CallEnv) (f : BitmapFragment)
  | applyBSI (writer : ℕ) (env : CallEnv) (f : BSIFragment)
  | bitmapPass (e : PassEvent BitmapKey (FieldKey × ℤ))
  | bsiPass (e : PassEvent (FieldKey × ℤ) (String × ℤ))

/-- Clearing values of a bit-sliced index does not take the lock of the cache map. -/
def BSIData.takesCacheLock : BSIData → Bool
  | .values _ => true
  | .clear _ => false

/-- No pass holds the lock of its cache map. -/
def Pass.isIdle {K G β : Type} : Pass K G β → Bool
  | .idle => true
  | _ => false

/-- Store the bitmap that a pass has marked. -/
def storeMarkedBitmap (marked : Option (BitmapKey × StandardBitmap)) (s : CacheState) :
    CacheState :=
  match marked with
  | none => s
  | some (k, b) => setBitmap k b s

/-- Store the index that a pass has marked. -/
def storeMarkedBSI (marked : Option ((FieldKey × ℤ) × BSIBitmap)) (s : CacheState) : CacheState :=
  match marked with
  | none => s
  | some (k, b) => setShard k.1 k.2 b s

/-- One step.  A writer merges a fragment under the lock of the cache map, or under the lock of
the entry, which it takes before it gives up the other. -/
def persistStep (enabled : FieldKey → Bool) (s : PersistState) : PersistEvent → PersistState
  | .tick => { s with clock := s.clock + 1 }
  | .start writer => { s with started := update s.started writer (some s.clock) }
  | .applyBitmap writer env f =>
    match s.started writer with
    | none => s
    | some t =>
      if s.bitmapPass.isIdle then
        { s with
          started := update s.started writer none
          caches := updateBitmapCache env t (fun _ => s.clock) f s.caches
          bitmapKeys := f.key :: s.bitmapKeys }
      else s
  | .applyBSI writer env f =>
    match s.started writer with
    | none => s
    | some t =>
      if s.bsiPass.isIdle || !f.data.takesCacheLock then
        { s with
          started := update s.started writer none
          caches := updateBSICache enabled env t f s.caches
          bsiKeys := (f.key, f.time) :: s.bsiKeys }
      else s
  | .bitmapPass e =>
    let v := passStep bitmapGroup s.clock s.bitmapView e
    { s with
      caches := storeMarkedBitmap (s.bitmapView.marked e) s.caches
      bitmapDisk := v.disk
      bitmapPass := v.pass }
  | .bsiPass e =>
    let v := passStep bsiGroup s.clock s.bsiView e
    { s with
      caches := storeMarkedBSI (s.bsiView.marked e) s.caches
      bsiDisk := v.disk
      bsiPass := v.pass }

/-! ## Late stamps -/

/-- The stamp of a fragment of a standard bitmap is later than the persist time of the entry it
is merged into, and the clock is later than that of the entries an update clears; a fragment
read from disk is that of an entry which is not in the cache. -/
def BitmapStampLate (t : Time) (f : BitmapFragment) : Prop :=
  if f.isInit then
    f.isUpdate = false ∧ s.caches.bitmapCache f.key = none ∧ s.bitmapDisk f.key = some f.bits
  else
    ((f.isClear && f.isUpdate) = false → ∀ b, s.caches.bitmapCache f.key = some b →
      b.persistTime < t) ∧
    (f.isUpdate = true → ∀ k b, k.key = f.key.key → k.time = f.key.time →
      s.caches.bitmapCache k = some b → b.persistTime < s.clock)

/-- The stamp of a fragment of a bit-sliced index is later than the persist time of the entry,
and later than the modification time that a running save has captured. -/
def BSIStampLate (t : Time) (f : BSIFragment) : Prop :=
  if f.isInit then
    s.caches.bsiEntry (f.key, f.time) = none ∧
      ∀ b, f.data = .values b → s.bsiDisk (f.key, f.time) = some b
  else
    ∀ b, s.caches.bsiEntry (f.key, f.time) = some b →
      b.persistTime < t ∧ (s.bsiPass.saved (f.key, f.time)).before t

/-- The change of a step has a late enough stamp. -/
def StampLate : PersistEvent → Prop
  | .applyBitmap writer _ f =>
    ∀ t, s.started writer = some t → s.bitmapPass.isIdle = true → BitmapStampLate s t f
  | .applyBSI writer _ f =>
    ∀ t, s.started writer = some t → (s.bsiPass.isIdle || !f.data.takesCacheLock) = true →
      BSIStampLate s t f
  | _ => True

theorem Pass.saved_of_isIdle {K G β : Type} {pass : Pass K G β} (h : pass.isIdle = true) (k : K) :
    pass.saved k = .none := by
  cases pass <;> first | rfl | cases h

section

variable {s : PersistState} {t : Time}

/-- The rows that an update clears become dirty and keep their persist time. -/
theorem clearForUpdate_cases (f : BitmapFragment)
    (hlate : f.isUpdate = true → ∀ k b, k.key = f.key.key → k.time = f.key.time →
      s.caches.bitmapCache k = some b → b.persistTime < s.clock) (k : BitmapKey) :
    (clearForUpdate (fun _ => s.clock) f s.caches).bitmapCache k = s.caches.bitmapCache k ∨
      ∃ b b', s.caches.bitmapCache k = some b ∧
        (clearForUpdate (fun _ => s.clock) f s.caches).bitmapCache k = some b' ∧
        b'.dirty = true ∧ b'.persistTime = b.persistTime := by
  fun_cases clearForUpdate (fun _ => s.clock) f s.caches
  case case2 => exact .inl rfl
  case case1 hupdate =>
    unfold clearAllRows
    by_cases hshard : k.key = f.key.key ∧ k.time = f.key.time
    · simp only [hshard, and_self, if_true]
      cases hb : s.caches.bitmapCache k with
      | none => exact .inl rfl
      | some b =>
        have hdirty := hlate hupdate k b hshard.1 hshard.2 hb
        exact .inr ⟨b, _, rfl, rfl, by simpa [dirty] using hdirty, rfl⟩
    · exact .inl (if_neg hshard)

/-- A bitmap that is merged after its persist time is dirty. -/
theorem mergedBitmap_cases (env : CallEnv) {f : BitmapFragment} (hinit : f.isInit = false)
    (ht : 0 < t) {b : Option StandardBitmap} (hb : ∀ x, b = some x → x.persistTime < t) :
    (b = none ∧ mergedBitmap env t f b = none) ∨
      ∃ e, mergedBitmap env t f b = some e ∧ e.dirty = true := by
  cases b with
  | none =>
    unfold mergedBitmap
    by_cases hignored : (f.isUpdate && !env.member (.bitmap f.key)) = true
    · simp [hignored]
    · simpa [hignored, hinit, dirty] using ht
  | some x => simpa [mergedBitmap, mergeBitmap, hinit, dirty] using hb x rfl

/-- An index that is merged after its persist time is dirty and has the time of the merge. -/
theorem mergedBSI_cases (env : CallEnv) {f : BSIFragment} (hinit : f.isInit = false)
    (ht : 0 < t) {b : Option BSIBitmap} (hb : ∀ x, b = some x → x.persistTime < t) :
    (b = none ∧ mergedBSI env t f b = none) ∨
      ∃ e, mergedBSI env t f b = some e ∧ e.dirty = true ∧ e.modTime = t := by
  unfold mergedBSI
  cases f.data with
  | clear columns =>
    cases b with
    | none => exact .inl ⟨rfl, rfl⟩
    | some x => simpa [dirty] using hb x rfl
  | values newBSI =>
    cases b with
    | none =>
      by_cases hignored : (f.isUpdate && !env.member (.bsi f.key f.time)) = true
      · simp [hignored]
      · simpa [hignored, hinit, dirty] using ht
    | some x => simpa [hinit, dirty] using hb x rfl

/-- A late fragment is a late change of the standard bitmaps. -/
theorem lateChange_updateBitmapCache (hidle : s.bitmapPass.isIdle = true) (ht : 0 < t)
    (env : CallEnv) (f : BitmapFragment) (hlate : BitmapStampLate s t f) :
    LateChange s.bitmapView f.key
      (updateBitmapCache env t (fun _ => s.clock) f s.caches).bitmapCache := by
  intro k
  have hsaved : s.bitmapView.pass.saved k = .none := Pass.saved_of_isIdle hidle k
  have hbefore : ∀ t', (s.bitmapView.pass.saved k).before t' := fun _ => hsaved ▸ trivial
  have hview : s.bitmapView.cache k = s.caches.bitmapCache k := rfl
  rw [bitmapCache_updateBitmapCache, hview]
  cases hinit : f.isInit with
  | true =>
    -- The fragment of an entry that is not in the cache is stored as it was read.
    rw [BitmapStampLate, if_pos hinit] at hlate
    rcases hlate with ⟨hupdate, habsent, hdisk⟩
    have hclear : clearForUpdate (fun _ => s.clock) f s.caches = s.caches := by
      simp [clearForUpdate, hupdate]
    rw [hclear]
    by_cases hk : (f.isClear && f.isUpdate) = false ∧ k = f.key
    · rw [if_pos hk, hk.2, habsent]
      refine .inr (.inr ⟨rfl, hk.2 ▸ hsaved, ⟨f.bits, f.modTime, f.modTime⟩, ?_, .inr hdisk⟩)
      simp [mergedBitmap, hupdate, fragmentApplyTime, hinit]
    · rw [if_neg hk]
      exact .inl rfl
  | false =>
    rw [BitmapStampLate, if_neg (by simp [hinit])] at hlate
    have hcases := clearForUpdate_cases f hlate.2 k
    generalize (clearForUpdate (fun _ => s.clock) f s.caches).bitmapCache k = cleared at hcases ⊢
    by_cases hk : (f.isClear && f.isUpdate) = false ∧ k = f.key
    · rw [if_pos hk]
      have hold : ∀ x, cleared = some x → x.persistTime < t := by
        rcases hcases with rfl | ⟨b, b', hb, rfl, -, hpersist⟩
        · exact fun x hx => hlate.1 hk.1 x (hk.2 ▸ hx)
        · rintro x ⟨⟩
          exact hpersist ▸ hlate.1 hk.1 b (hk.2 ▸ hb)
      rcases mergedBitmap_cases env hinit ht hold with ⟨rfl, hmerged⟩ | ⟨e, he, hdirty⟩
      · rcases hcases with hnone | ⟨_, _, _, hsome, _⟩
        · exact .inl (hmerged.trans hnone)
        · cases hsome
      cases hb : s.caches.bitmapCache k with
      | none => exact .inr (.inr ⟨hk.2, hsaved, e, he, .inl hdirty⟩)
      | some b => exact .inr (.inl ⟨b, e, rfl, he, hdirty, hbefore _⟩)
    · rw [if_neg hk]
      exact hcases.imp_right fun ⟨b, b', hb, hb', hdirty, _⟩ =>
        .inl ⟨b, b', hb, hb', hdirty, hbefore _⟩

/-- A late fragment is a late change of the bit-sliced indexes. -/
theorem lateChange_updateBSICache (ht : 0 < t) (enabled : FieldKey → Bool)
    (env : CallEnv) (f : BSIFragment) (hidle : (s.bsiPass.isIdle || !f.data.takesCacheLock) = true)
    (hlate : BSIStampLate s t f) :
    LateChange s.bsiView (f.key, f.time) (updateBSICache enabled env t f s.caches).bsiEntry := by
  intro k
  have hview : s.bsiView.cache k = s.caches.bsiEntry k := rfl
  have hsaved : f.data.takesCacheLock = true → s.bsiView.pass.saved k = .none := fun hlock =>
    Pass.saved_of_isIdle (show s.bsiPass.isIdle = true by simpa [hlock] using hidle) k
  rw [bsiEntry_updateBSICache, hview]
  by_cases hk : k = (f.key, f.time)
  · rw [if_pos hk]
    cases hinit : f.isInit with
    | true =>
      rw [BSIStampLate, if_pos hinit, ← hk] at hlate
      rw [hlate.1]
      cases hdata : f.data with
      | clear columns => simp [mergedBSI, hdata]
      | values newBSI =>
        simp only [mergedBSI, hdata]
        split_ifs with hignored
        · exact .inl rfl
        · exact .inr (.inr ⟨hk, hsaved (by rw [hdata]; rfl), _, rfl,
            .inr (hlate.2 newBSI hdata)⟩)
    | false =>
      rw [BSIStampLate, if_neg (by simp [hinit]), ← hk] at hlate
      have hold : ∀ x, s.caches.bsiEntry k = some x → x.persistTime < t :=
        fun x hx => (hlate x hx).1
      rcases mergedBSI_cases env hinit ht hold with ⟨hnone, hmerged⟩ | ⟨e, he, hdirty, hmod⟩
      · exact .inl (hmerged.trans hnone.symm)
      cases hb : s.caches.bsiEntry k <;> rw [hb] at he
      case none =>
        have hlock : f.data.takesCacheLock = true := by
          cases hdata : f.data with
          | values newBSI => rfl
          | clear columns => simp [mergedBSI, hdata] at he
        exact .inr (.inr ⟨hk, hsaved hlock, e, he, .inl hdirty⟩)
      case some b => exact .inr (.inl ⟨b, e, rfl, he, hdirty, hmod ▸ (hlate b hb).2⟩)
  · rw [if_neg hk]
    exact .inl rfl

end

/-! ## Runs -/

/-- What holds of the node: the clock and the stamps are after the zero time, and both caches
are consistent. -/
structure PersistOk (s : PersistState) : Prop where
  clock_pos : 0 < s.clock
  started_pos : ∀ writer t, s.started writer = some t → 0 < t
  bitmap : Consistent bitmapGroup s.bitmapView
  bsi : Consistent bsiGroup s.bsiView

theorem PersistOk.init (bitmapDisk : BitmapKey → Option Bitmap)
    (bsiDisk : FieldKey × ℤ → Option Bsi) : PersistOk (.init bitmapDisk bsiDisk) where
  clock_pos := Nat.one_pos
  started_pos := nofun
  bitmap := { entry := nofun, keys := nofun, captured := nofun }
  bsi := { entry := nofun, keys := nofun, captured := nofun }

section

variable {enabled : FieldKey → Bool} {s : PersistState} (e : PassEvent BitmapKey (FieldKey × ℤ))

theorem bitmapView_bitmapPass :
    (persistStep enabled s (.bitmapPass e)).bitmapView =
      passStep bitmapGroup s.clock s.bitmapView e := by
  refine PassView.ext (passStep_keys bitmapGroup s.clock s.bitmapView e).symm ?_ rfl rfl
  rw [passStep_cache, persistStep]
  cases s.bitmapView.marked e <;> rfl

theorem bsiView_bitmapPass : (persistStep enabled s (.bitmapPass e)).bsiView = s.bsiView := by
  rw [persistStep]
  cases s.bitmapView.marked e <;> rfl

variable (e : PassEvent (FieldKey × ℤ) (String × ℤ))

theorem bsiView_bsiPass :
    (persistStep enabled s (.bsiPass e)).bsiView = passStep bsiGroup s.clock s.bsiView e := by
  refine PassView.ext (passStep_keys bsiGroup s.clock s.bsiView e).symm ?_ rfl rfl
  rw [passStep_cache, persistStep]
  cases s.bsiView.marked e with
  | none => rfl
  | some m =>
    funext k
    exact (bsiEntry_setShard ..).trans (update_apply ..).symm

theorem bitmapView_bsiPass : (persistStep enabled s (.bsiPass e)).bitmapView = s.bitmapView := by
  rw [persistStep]
  cases s.bsiView.marked e <;> rfl

theorem started_pos_update {started : ℕ → Option Time} {writer : ℕ} {x : Option Time}
    (h : ∀ w t, started w = some t → 0 < t) (hx : ∀ t, x = some t → 0 < t) :
    ∀ w t, update started writer x w = some t → 0 < t := by
  intro w t hw
  rw [update_apply] at hw
  split_ifs at hw
  · exact hx t hw
  · exact h w t hw

theorem PersistOk.step (h : PersistOk s) (e : PersistEvent) (hlate : StampLate s e) :
    PersistOk (persistStep enabled s e) := by
  fun_cases persistStep enabled s e
  case case1 => exact ⟨Nat.succ_pos _, h.started_pos, h.bitmap, h.bsi⟩
  case case2 =>
    exact ⟨h.clock_pos, started_pos_update h.started_pos (by simpa using h.clock_pos),
      h.bitmap, h.bsi⟩
  case case4 env f t hstarted hidle =>
    have hchange := lateChange_updateBitmapCache hidle (h.started_pos _ t hstarted)
      env f (hlate t hstarted hidle)
    refine ⟨h.clock_pos, started_pos_update h.started_pos nofun,
      h.bitmap.lateChange hchange, ?_⟩
    have hview := h.bsi
    unfold PersistState.bsiView CacheState.bsiEntry at hview ⊢
    simpa using hview
  case case7 env f t hstarted hidle =>
    have hchange := lateChange_updateBSICache (h.started_pos _ t hstarted) enabled
      env f hidle (hlate t hstarted hidle)
    refine ⟨h.clock_pos, started_pos_update h.started_pos nofun, ?_,
      h.bsi.lateChange hchange⟩
    have hview := h.bitmap
    unfold PersistState.bitmapView at hview ⊢
    rwa [bitmapCache_updateBSICache]
  case case9 e v =>
    exact ⟨h.clock_pos, h.started_pos, (@bitmapView_bitmapPass enabled s e).symm ▸
      h.bitmap.passStep s.clock e, (@bsiView_bitmapPass enabled s e).symm ▸ h.bsi⟩
  case case10 e v =>
    exact ⟨h.clock_pos, h.started_pos, (@bitmapView_bsiPass enabled s e).symm ▸ h.bitmap,
      (@bsiView_bsiPass enabled s e).symm ▸ h.bsi.passStep s.clock e⟩
  all_goals exact h

end

/-- Entries that are considered clean while no pass is running are on disk with their contents. -/
def CleanOnDisk (s : PersistState) : Prop :=
  (s.bitmapPass = .idle → ∀ k b, s.caches.bitmapCache k = some b → b.dirty = false →
    s.bitmapDisk k = some b.contents) ∧
  (s.bsiPass = .idle → ∀ key time b, (s.caches.bsiCache key).lookup time = some b →
    b.dirty = false → s.bsiDisk (key, time) = some b.contents)

/-- In every run whose changes have late stamps the clean entries are on disk. -/
theorem clean_entries_on_disk (enabled : FieldKey → Bool)
    (bitmapDisk : BitmapKey → Option Bitmap) (bsiDisk : FieldKey × ℤ → Option Bsi)
    (es : List PersistEvent)
    (hes : Meets (persistStep enabled) StampLate (.init bitmapDisk bsiDisk) es) :
    CleanOnDisk (exec (persistStep enabled) (.init bitmapDisk bsiDisk) es) := by
  have hok := exec_induction (persistStep enabled)
    (fun _ e h hlate => h.step e hlate) (PersistOk.init bitmapDisk bsiDisk) hes
  refine ⟨fun _ k b hb hclean => ?_, fun _ key time b hb hclean => ?_⟩
  · exact (hok.bitmap.entry k b hb).disk_eq hclean
  · exact (hok.bsi.entry (key, time) b hb).disk_eq hclean

/-! ## A writer that waits for a pass -/

def colorKey : BitmapKey := ⟨⟨"orders", "color"⟩, 1, 0⟩

def setColor (column : ℕ) : BitmapFragment := { key := colorKey, bits := {column}, modTime := 0 }

def memberCall : CallEnv := ⟨fun _ => true, fun _ => ⟨false, fun _ => true⟩, .asKept⟩

/-- The steps of a pass that saves the group of the row, after it has begun. -/
def saveColor : List PersistEvent :=
  [.bitmapPass .scan, .bitmapPass .scan, .bitmapPass (.save (bitmapGroup colorKey)),
    .bitmapPass (.capture colorKey), .bitmapPass .write, .bitmapPass .takePersistTime,
    .bitmapPass (.mark colorKey), .bitmapPass .groupDone, .bitmapPass .finish]

/-- A first writer, then a pass; the second writer starts during the pass and has to wait. -/
def waitingWriterRun : List PersistEvent :=
  [.start 0, .applyBitmap 0 memberCall (setColor 1), .bitmapPass (.start false), .start 1,
    .tick] ++ saveColor ++ [.applyBitmap 1 memberCall (setColor 2)]

def waitingWriterState : PersistState :=
  exec (persistStep (fun _ => false)) (.init (fun _ => none) (fun _ => none)) waitingWriterRun

/-- The entry counts as clean, but the column of the second writer is not on disk. -/
theorem waiting_writer_not_on_disk : ¬ CleanOnDisk waitingWriterState := by
  intro h
  have hcontents : (waitingWriterState.caches.bitmapCache colorKey).map (·.contents) =
      some {1, 2} := by decide
  have hclean : (waitingWriterState.caches.bitmapCache colorKey).map (·.dirty) =
      some false := by decide
  have hdisk : waitingWriterState.bitmapDisk colorKey = some {1} := by decide
  cases hb : waitingWriterState.caches.bitmapCache colorKey with
  | none => simp [hb] at hclean
  | some b =>
    rw [hb, Option.map_some, Option.some.injEq] at hcontents hclean
    have hb' := h.1 rfl colorKey b hb hclean
    rw [hdisk, hcontents] at hb'
    revert hb'
    decide

/-- The same writers, but the second one starts after the pass. -/
def lateWriterRun : List PersistEvent :=
  [.start 0, .applyBitmap 0 memberCall (setColor 1), .bitmapPass (.start false)] ++ saveColor ++
    [.tick, .start 1, .applyBitmap 1 memberCall (setColor 2)]

theorem lateWriterRun_late :
    Meets (persistStep (fun _ => false)) StampLate (.init (fun _ => none) (fun _ => none))
      lateWriterRun := by
  have hlate : ∀ (s : PersistState) (t : Time) (column : ℕ),
      (s.caches.bitmapCache colorKey).all (fun b => b.persistTime < t) = true →
        BitmapStampLate s t (setColor column) := by
    intro s t column hall
    refine ⟨fun _ b hb => ?_, nofun⟩
    have hb' : s.caches.bitmapCache colorKey = some b := hb
    simpa [hb'] using hall
  refine ⟨trivial, ?_, trivial, trivial, trivial, trivial, trivial, trivial, trivial, trivial,
    trivial, trivial, trivial, trivial, ?_, trivial⟩
  · rintro t ⟨⟩ _
    exact hlate _ _ 1 (by decide)
  · rintro t ⟨⟩ _
    exact hlate _ _ 2 (by decide)

/-- Then the clean entries are on disk. -/
theorem lateWriterRun_on_disk :
    CleanOnDisk (exec (persistStep (fun _ => false))
      (.init (fun _ => none) (fun _ => none)) lateWriterRun) :=
  clean_entries_on_disk (fun _ => false) (fun _ => none) (fun _ => none) lateWriterRun
    lateWriterRun_late

end QuantaStream.Server
