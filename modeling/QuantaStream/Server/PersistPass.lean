import QuantaStream.Server.BitmapCache

/-!
# A persistence pass

A background pass writes the dirty groups of a cache to disk.  It holds the lock of the cache map
for reading from beginning to end; each entry is read and marked under the lock of the entry.  The
pass over standard bitmaps and the one over bit-sliced indexes are the same program over different
keys, groups and contents.
-/

namespace QuantaStream.Server

open Function

/-! ## The pass -/

/-- `ModTime.After(PersistTime)`. -/
def CacheEntry.dirty {β : Type} (e : CacheEntry β) : Bool := e.persistTime < e.modTime

/-- How far a pass has come: it scans all keys, then saves the dirty groups one by one.  A save
captures contents and modification time of the entries of a group, writes them, takes the
persist time, and marks the entries. -/
inductive Pass (K G β : Type) where
  | idle
  | scanning (forceSync : Bool) (todo : List K) (dirty : G → Bool)
  | scanned (dirty : G → Bool)
  | capturing (dirty : G → Bool) (group : G) (captured : K → Option (β × Time))
  | marking (dirty : G → Bool) (group : G) (captured : K → Option (β × Time))
      (persistedAt : Option Time)

/-- The steps of a pass. -/
inductive PassEvent (K G : Type) where
  | start (forceSync : Bool)
  | scan
  | save (group : G)
  | capture (key : K)
  | write
  | takePersistTime
  | mark (key : K)
  | groupDone
  | finish
  | abort

section

variable {K G β : Type} [DecidableEq K] [DecidableEq G] (groupOf : K → G)

/-- The state a pass works on: the keys and entries of the cache, the files, and the pass. -/
@[ext]
structure PassView (K G β : Type) where
  keys : List K
  cache : K → Option (CacheEntry β)
  disk : K → Option β
  pass : Pass K G β

def scanEntry (forceSync : Bool) (dirty : G → Bool) (key : K) (e : Option (CacheEntry β)) :
    G → Bool :=
  match e with
  | none => dirty
  | some e => update dirty (groupOf key) (dirty (groupOf key) || forceSync || e.dirty)

/-- One step of a pass; an event that does not fit the state is ignored. -/
def passStep (clock : Time) (v : PassView K G β) : PassEvent K G → PassView K G β
  | .start forceSync =>
    match v.pass with
    | .idle => { v with pass := .scanning forceSync v.keys (fun _ => false) }
    | _ => v
  | .scan =>
    match v.pass with
    | .scanning forceSync (key :: todo) dirty =>
      let dirty := scanEntry groupOf forceSync dirty key (v.cache key)
      { v with pass := .scanning forceSync todo dirty }
    | .scanning _ [] dirty => { v with pass := .scanned dirty }
    | _ => v
  | .save group =>
    match v.pass with
    | .scanned dirty =>
      if dirty group then { v with pass := .capturing dirty group (fun _ => none) } else v
    | _ => v
  | .capture key =>
    match v.pass, v.cache key with
    | .capturing dirty group captured, some e =>
      if groupOf key = group ∧ captured key = none then
        let captured := update captured key (some (e.contents, e.modTime))
        { v with pass := .capturing dirty group captured }
      else v
    | _, _ => v
  | .write =>
    match v.pass with
    | .capturing dirty group captured =>
      -- Every entry of the group is in the bundle, and the bundle is not empty.
      if v.keys.all (fun k =>
          groupOf k ≠ group || (v.cache k).isNone || (captured k).isSome) &&
          v.keys.any (fun k => (captured k).isSome) then
        { v with
          disk k := if groupOf k = group then (captured k).map Prod.fst else v.disk k
          pass := .marking dirty group captured none }
      else v
    | _ => v
  | .takePersistTime =>
    match v.pass with
    | .marking dirty group captured none =>
      { v with pass := .marking dirty group captured (some clock) }
    | _ => v
  | .mark key =>
    match v.pass, v.cache key with
    | .marking dirty group captured (some persistedAt), some e =>
      match captured key with
      | some (_, modTime) =>
        let e := if modTime < e.modTime then e else { e with persistTime := persistedAt }
        { v with
          cache := update v.cache key (some e)
          pass := .marking dirty group (update captured key none) (some persistedAt) }
      | none => v
    | _, _ => v
  | .groupDone =>
    match v.pass with
    | .marking dirty group captured (some _) =>
      if v.keys.all (fun k => (captured k).isNone) then
        { v with pass := .scanned (update dirty group false) }
      else v
    | _ => v
  | .finish =>
    match v.pass with
    | .scanned dirty =>
      if v.keys.all (fun k => !dirty (groupOf k)) then { v with pass := .idle } else v
    | _ => v
  | .abort => { v with pass := .idle }

@[simp]
theorem passStep_keys (clock : Time) (v : PassView K G β) (e : PassEvent K G) :
    (passStep groupOf clock v e).keys = v.keys := by
  cases e <;>
    (unfold passStep
     repeat' split
     all_goals rfl)

/-- The entry that a step of the pass changes: a mark sets the persist time. -/
def PassView.marked (v : PassView K G β) : PassEvent K G → Option (K × CacheEntry β)
  | .mark key =>
    match v.pass, v.cache key with
    | .marking _ _ captured (some persistedAt), some e =>
      (captured key).map (fun c =>
        (key, if c.2 < e.modTime then e else { e with persistTime := persistedAt }))
    | _, _ => none
  | _ => none

theorem passStep_cache (clock : Time) (v : PassView K G β) (e : PassEvent K G) :
    (passStep groupOf clock v e).cache =
      match v.marked e with
      | none => v.cache
      | some (key, e) => update v.cache key (some e) := by
  cases e with
  | mark key =>
    unfold passStep PassView.marked
    dsimp only
    split
    · rename_i captured persistedAt e hpass hkey
      cases captured key with
      | none | some c => rfl
    · rfl
  | _ =>
    unfold passStep PassView.marked
    dsimp only
    repeat' split
    all_goals rfl

end

/-! ## Consistent entries -/

/-- What a save has done with an entry: captured it, or captured and written it. -/
inductive SavePhase (β : Type) where
  | none
  | captured (contents : β) (modTime : Time)
  | written (contents : β) (modTime : Time)

/-- What the running save has done with a key; a marked entry is done. -/
def Pass.saved {K G β : Type} : Pass K G β → K → SavePhase β
  | .capturing _ _ captured, k =>
    match captured k with
    | some (contents, modTime) => .captured contents modTime
    | none => .none
  | .marking _ _ captured _, k =>
    match captured k with
    | some (contents, modTime) => .written contents modTime
    | none => .none
  | _, _ => .none

section

variable {β : Type}

/-- The contents of an entry that a save has captured are still those that were captured, or the
entry has become dirty since. -/
def StillCaptured (e : CacheEntry β) (contents : β) (modTime : Time) : Prop :=
  e.contents = contents ∨ modTime < e.modTime ∧ e.dirty = true

/-- A clean entry is on disk, also if it is neither changed nor marked before the save ends. -/
def EntryOk (e : CacheEntry β) (disk : Option β) : SavePhase β → Prop
  | .none => e.dirty = false → disk = some e.contents
  | .captured contents modTime =>
    (e.dirty = false → disk = some e.contents) ∧ StillCaptured e contents modTime
  | .written contents modTime => disk = some contents ∧ StillCaptured e contents modTime

variable {e e' : CacheEntry β} {disk : Option β} {phase : SavePhase β}

variable {modTime : Time} {contents : β}

theorem StillCaptured.eq (h : StillCaptured e contents modTime) (hclean : e.dirty = false) :
    e.contents = contents := by
  rcases h with h | ⟨_, hdirty⟩
  · exact h
  · cases hclean.symm.trans hdirty

theorem EntryOk.disk_eq (h : EntryOk e disk phase) (hclean : e.dirty = false) :
    disk = some e.contents := by
  cases phase with
  | none => exact h hclean
  | captured contents modTime => exact h.1 hclean
  | written contents modTime => rw [h.1, h.2.eq hclean]

/-- A save can be given up at any point. -/
theorem EntryOk.forget (h : EntryOk e disk phase) : EntryOk e disk .none :=
  fun hclean => h.disk_eq hclean

/-- The new modification time is later than what the save has captured. -/
def SavePhase.before (phase : SavePhase β) (modTime : Time) : Prop :=
  match phase with
  | .none => True
  | .captured _ seen => seen < modTime
  | .written _ seen => seen < modTime

/-- A change leaves a consistent entry if it makes the entry dirty, also for a running save. -/
theorem EntryOk.apply (h : EntryOk e disk phase) (hdirty : e'.dirty = true)
    (hbefore : phase.before e'.modTime) : EntryOk e' disk phase := by
  have hno : e'.dirty = false → disk = some e'.contents := by
    intro hclean
    cases hdirty.symm.trans hclean
  cases phase with
  | none => exact hno
  | captured contents modTime => exact ⟨hno, .inr ⟨hbefore, hdirty⟩⟩
  | written contents modTime => exact ⟨h.1, .inr ⟨hbefore, hdirty⟩⟩

theorem EntryOk.capture (h : EntryOk e disk .none) :
    EntryOk e disk (.captured e.contents e.modTime) :=
  ⟨h, .inl rfl⟩

theorem EntryOk.write (h : EntryOk e disk (.captured contents modTime)) :
    EntryOk e (some contents) (.written contents modTime) :=
  ⟨rfl, h.2⟩

/-- Marking an entry that was not changed since it was captured. -/
theorem EntryOk.mark (h : EntryOk e disk (.written contents modTime)) (persistedAt : Time) :
    EntryOk (if modTime < e.modTime then e else { e with persistTime := persistedAt }) disk
      .none := by
  split_ifs with hmod
  · exact h.forget
  · intro _
    rcases h.2 with heq | ⟨hlt, _⟩
    · rw [h.1, ← heq]
    · exact absurd hlt hmod

end

/-! ## Consistent caches -/

section

variable {K G β : Type} (groupOf : K → G)

/-- All entries are consistent, their keys are known, and a save has captured only keys of its
group. -/
structure Consistent (v : PassView K G β) : Prop where
  entry : ∀ k e, v.cache k = some e → EntryOk e (v.disk k) (v.pass.saved k)
  keys : ∀ k e, v.cache k = some e → k ∈ v.keys
  captured : ∀ dirty group captured, v.pass = .capturing dirty group captured →
    ∀ k, captured k ≠ none → groupOf k = group

variable {groupOf} {v : PassView K G β}

/-- Leaving the save, or not being in one. -/
theorem Consistent.withPass (h : Consistent groupOf v) {pass : Pass K G β}
    (hsaved : ∀ k, pass.saved k = .none)
    (hcaptured : ∀ dirty group captured, pass = .capturing dirty group captured →
      ∀ k, captured k = none) : Consistent groupOf { v with pass := pass } := { h with
  entry k e hk := by
    rw [hsaved]
    exact (h.entry k e hk).forget
  captured dirty group captured hpass k hk :=
    absurd (hcaptured dirty group captured hpass k) hk }

variable {group : G} {dirty : G → Bool} {captured : K → Option (β × Time)}

theorem Consistent.write [DecidableEq G] (h : Consistent groupOf v)
    (hpass : v.pass = .capturing dirty group captured) (hall : v.keys.all (fun k =>
      groupOf k ≠ group || (v.cache k).isNone || (captured k).isSome) = true) :
    Consistent groupOf { v with
      disk k := if groupOf k = group then (captured k).map Prod.fst else v.disk k
      pass := .marking dirty group captured none } := { h with
  entry k e hk := by
    have hk' : v.cache k = some e := hk
    have he := h.entry k e hk
    rw [hpass] at he
    have hcap := List.all_eq_true.mp hall k (h.keys k e hk)
    simp only [Pass.saved] at he ⊢
    cases hck : captured k with
    | none =>
      have hne : groupOf k ≠ group := by
        simpa [hk', hck] using hcap
      rw [hck] at he
      rw [if_neg hne]
      exact he
    | some c =>
      have hgroup := h.captured dirty group captured hpass k (by simp [hck])
      rw [hck] at he
      rw [if_pos hgroup, Option.map_some]
      exact he.write
  captured _ _ _ heq := by cases heq }

variable [DecidableEq K]

variable {key : K}

theorem Consistent.capture (h : Consistent groupOf v)
    (hpass : v.pass = .capturing dirty group captured) {e : CacheEntry β}
    (hkey : v.cache key = some e) (hgroup : groupOf key = group) (hnone : captured key = none) :
    Consistent groupOf { v with
      pass := .capturing dirty group (update captured key (some (e.contents, e.modTime))) } := { h with
  entry k x hk := by
    have hx := h.entry k x hk
    rw [hpass] at hx
    by_cases hkk : k = key
    · subst hkk
      cases hkey.symm.trans hk
      simp only [Pass.saved, hnone, update_self] at hx ⊢
      exact hx.capture
    · simpa only [Pass.saved, update_of_ne hkk] using hx
  captured dirty' group' captured' heq k hk := by
    cases heq
    by_cases hkk : k = key
    · rw [hkk]
      exact hgroup
    · rw [update_of_ne hkk] at hk
      exact h.captured dirty group captured hpass k hk }

theorem Consistent.mark (h : Consistent groupOf v) {persistedAt : Time}
    (hpass : v.pass = .marking dirty group captured (some persistedAt)) {e : CacheEntry β}
    (hkey : v.cache key = some e) {contents : β} {modTime : Time}
    (hcap : captured key = some (contents, modTime)) :
    Consistent groupOf { v with
      cache := update v.cache key
        (some (if modTime < e.modTime then e else { e with persistTime := persistedAt }))
      pass := .marking dirty group (update captured key none) (some persistedAt) } where
  entry k x hk := by
    by_cases hkk : k = key
    · subst hkk
      have he := h.entry k e hkey
      rw [hpass] at he
      simp only [update_self, Option.some.injEq] at hk
      subst hk
      simp only [Pass.saved, hcap, update_self] at he ⊢
      exact he.mark persistedAt
    · simp only [update_of_ne hkk] at hk
      have hx := h.entry k x hk
      rw [hpass] at hx
      simpa only [Pass.saved, update_of_ne hkk] using hx
  keys k x hk := by
    by_cases hkk : k = key
    · rw [hkk]
      exact h.keys key e hkey
    · simp only [update_of_ne hkk] at hk
      exact h.keys k x hk
  captured _ _ _ heq := by cases heq

/-- The steps of a pass keep a cache consistent. -/
theorem Consistent.passStep [DecidableEq G] (h : Consistent groupOf v) (clock : Time) (e : PassEvent K G) :
    Consistent groupOf (passStep groupOf clock v e) := by
  fun_cases Server.passStep groupOf clock v e
  case case6 => exact h.withPass (fun _ => rfl) (fun _ _ _ heq _ => by cases heq; rfl)
  case case9 hkey hpass hnew captured => exact h.capture hpass hkey hnew.1 hnew.2
  case case12 hpass hall => exact h.write hpass (Bool.and_eq_true_iff.mp hall).1
  case case15 dirty group captured hpass =>
    refine ⟨fun k e hk => ?_, h.keys, fun _ _ _ heq => by cases heq⟩
    have he := h.entry k e hk
    rwa [hpass] at he
  case case17 => exact h.mark ‹_› ‹_› ‹_›
  all_goals first | exact h | exact h.withPass (fun _ => rfl) nofun

/-- A change of the cache by a writer: entries that change become dirty, also for a running
save; an entry that is new, outside of a save, is dirty or was read from disk. -/
def LateChange (v : PassView K G β) (key : K) (cache : K → Option (CacheEntry β)) : Prop :=
  ∀ k, cache k = v.cache k ∨
    (∃ e e', v.cache k = some e ∧ cache k = some e' ∧ e'.dirty = true ∧
      (v.pass.saved k).before e'.modTime) ∨
    (k = key ∧ v.pass.saved k = .none ∧
      ∃ e', cache k = some e' ∧ (e'.dirty = true ∨ v.disk k = some e'.contents))

omit [DecidableEq K] in
theorem Consistent.lateChange (h : Consistent groupOf v) {cache : K → Option (CacheEntry β)}
    (hchange : LateChange v key cache) :
    Consistent groupOf { v with keys := key :: v.keys, cache := cache } := { h with
  entry k x hk := by
    have hk' : cache k = some x := hk
    rcases hchange k with hsame | ⟨e, e', he, he', hdirty, hbefore⟩ | ⟨_, hsaved, e', he', hnew⟩
    · exact h.entry k x (hsame ▸ hk')
    · cases he'.symm.trans hk'
      exact (h.entry k e he).apply hdirty hbefore
    · cases he'.symm.trans hk'
      rw [hsaved]
      intro hclean
      rcases hnew with hdirty | hdisk
      · cases hclean.symm.trans hdirty
      · exact hdisk
  keys k x hk := by
    have hk' : cache k = some x := hk
    rcases hchange k with hsame | ⟨e, e', he, _⟩ | ⟨hkey, _⟩
    · exact List.mem_cons_of_mem _ (h.keys k x (hsame ▸ hk'))
    · exact List.mem_cons_of_mem _ (h.keys k e he)
    · rw [hkey]
      exact List.mem_cons_self }

end

end QuantaStream.Server
