import QuantaStream.Lib.KeyText
import QuantaStream.Server.StartupLoad

/-!
# What a walk reads for one shard

The walk of the directory treats each shard by itself: what it collects for a shard depends on the
files of the shard and on the order of their paths.  A pack lies in a directory of the table, the
older files of an index in the directory of the field, so it depends on the name of the field
whether the pack comes first.  If it does, slices are laid over it.
-/

namespace QuantaStream.Server

open List Option Place ShardKey Outcome GoMap

/-! ## Reading one shard -/

variable (q : Place → Bool)

def walkOf (files : Files) : List (Place × Stored) :=
  (walk files).filter fun e => q e.1

/-- What the walk makes of the fragment of a shard when it comes to a file. -/
def actAt (tables : TableCache) (found : Option Stored) (e : Place × Stored) :
    Except String (Option Stored) :=
  if (fieldQuantum? tables e.1.shard.field).isSome then (visitPlace e.1 e.2 found).map some
  else .ok found

def shardWalk (files : Files) (k : ShardKey) : List (Place × Stored) :=
  walkOf (fun p => p.shard = k) files

/-- What the walk reads for one shard. -/
def readShard (tables : TableCache) (files : Files) (k : ShardKey) :
    Except String (Option Stored) :=
  (shardWalk files k).foldlM (actAt tables) none

variable {tables : TableCache} {files files' : Files} {k : ShardKey}

theorem local_visitFile (tables : TableCache) :
    KeyedPass.Local (fun (m : Fragments) k => m.lookup k)
      (fun e : Place × Stored => e.1.shard) (visitFile tables) (actAt tables) := by
  refine ⟨framed_visitFile tables, fun m e m' h => ?_, fun m e v h => ?_⟩ <;>
    unfold visitFile actAt at * <;>
    split at h
  · obtain ⟨f, hf, rfl⟩ := map_eq_ok.mp h
    simp [*, Except.map]
  · cases h
    simp [*]
  · obtain ⟨f, hf, -⟩ := map_eq_ok.mp h
    simp [*, Except.map]
  · simp [*]

/-- The walk collects for each shard what it reads for it. -/
theorem readShard_of_scanFiles {fragments : Fragments}
    (h : scanFiles tables files = .ok fragments) (k : ShardKey) :
    readShard tables files k = .ok (fragments.lookup k) :=
  (local_visitFile tables).foldlM_act h k

theorem exists_scanFiles (h : ∀ k, ∃ v, readShard tables files k = .ok v) :
    ∃ fragments, scanFiles tables files = .ok fragments :=
  (local_visitFile tables).exists_foldlM h

theorem mem_walkOf {q : Place → Bool} {e : Place × Stored} :
    e ∈ walkOf q files ↔ files.lookup e.1 = some e.2 ∧ q e.1 = true := by
  rw [walkOf, mem_filter, mem_walk]

theorem walkOf_sorted (files : Files) :
    (walkOf q files).Pairwise fun a b => a.1.walkKey ≤ b.1.walkKey := by
  exact (pairwise_insertionSort _ _).sublist filter_sublist

theorem walkOf_nodup (files : Files) : ((walkOf q files).map Prod.fst).Nodup := by
  have hwalk : ((walk files).map Prod.fst).Nodup :=
    ((perm_insertionSort _ _).map Prod.fst).nodup_iff.mpr (files.range_nodup .asKept)
  exact hwalk.sublist (filter_sublist.map Prod.fst)

/-- Two disks that agree on some places are walked alike there, if the walk tells the places
apart. -/
theorem walkOf_congr {q : Place → Bool}
    (hinj : ∀ a ∈ files, ∀ b ∈ files, q a = true → q b = true → a.walkKey = b.walkKey → a = b)
    (hagree : ∀ p, q p = true → files'.lookup p = files.lookup p) :
    walkOf q files' = walkOf q files := by
  have hmem : ∀ e, e ∈ walkOf q files' ↔ e ∈ walkOf q files := by
    intro e
    rw [mem_walkOf, mem_walkOf]
    exact and_congr_left fun hq => by rw [hagree e.1 hq]
  have hperm : (walkOf q files').Perm (walkOf q files) :=
    (perm_ext_iff_of_nodup (Nodup.of_map _ (walkOf_nodup q files'))
      (Nodup.of_map _ (walkOf_nodup q files))).mpr hmem
  refine Perm.eq_of_pairwise ?_ (walkOf_sorted q files') (walkOf_sorted q files) hperm
  intro a b ha hb hab hba
  obtain ⟨halookup, haq⟩ := mem_walkOf.mp ((hmem a).mp ha)
  obtain ⟨hblookup, hbq⟩ := mem_walkOf.mp hb
  have hplace : a.1 = b.1 := hinj a.1 (mem_of_lookup halookup) b.1
    (mem_of_lookup hblookup) haq hbq (le_antisymm hab hba)
  refine Prod.ext hplace ?_
  rw [hplace, hblookup] at halookup
  exact (some.inj halookup).symm

/-! ## Paths of one shard -/

theorem toList_sliceFile {slice : ℕ} (h : slice ≠ 0) :
    (sliceFile slice).toList = slice.repr.toList := by
  rw [sliceFile, if_neg h]
  rfl

theorem isDigit_head_repr (n : ℕ) : ∃ c cs, n.repr.toList = c :: cs ∧ c.isDigit = true := by
  cases hdigits : n.repr.toList with
  | nil =>
    rw [Nat.toList_repr] at hdigits
    exact absurd hdigits Nat.toDigits_ne_nil
  | cons c cs =>
    exact ⟨c, cs, rfl, KeyText.isDigit_of_mem_repr (hdigits ▸ mem_cons_self)⟩

/-- Slices come before a bundle in the same directory. -/
theorem sliceFile_lt_bundle (slice : ℕ) : sliceFile slice < "bundle" := by
  by_cases h : slice = 0
  · subst h
    decide
  obtain ⟨c, cs, htext, hdigit⟩ := isDigit_head_repr slice
  rw [String.lt_iff, toList_sliceFile h, htext]
  have hc : c < 'b' := by
    have hle : c ≤ '9' := by
      simp only [Char.isDigit, Bool.and_eq_true, decide_eq_true_eq] at hdigit
      exact hdigit.2
    exact lt_of_le_of_lt hle (by decide)
  exact cons_lt_cons_iff.mpr (.inl hc)

theorem sliceFile_injective {m n : ℕ} (h : sliceFile m = sliceFile n) : m = n := by
  have hebm : ∀ {n : ℕ}, n ≠ 0 → sliceFile n ≠ sliceFile 0 := by
    intro n hn heq
    obtain ⟨c, cs, htext, hdigit⟩ := isDigit_head_repr n
    have hlist := congrArg String.toList heq
    rw [toList_sliceFile hn, htext] at hlist
    cases hlist
    exact absurd hdigit (by decide)
  by_cases hm : m = 0 <;> by_cases hn : n = 0
  · rw [hm, hn]
  · exact absurd (hm ▸ h.symm) (hebm hn)
  · exact absurd (hn ▸ h) (hebm hm)
  · refine KeyText.repr_toList_injective ?_
    rw [← toList_sliceFile hm, ← toList_sliceFile hn, h]

variable {p : Place} {tq : TimeQuantum}

theorem place_of_bsi {key : FieldKey} {t : ℤ} (hp : p.shard = .bsi key t)
    (hnamed : p.WellNamed tq) :
    p = .packEntry key (shardName tq t) ∨ p = .bsiBundle key (shardName tq t) ∨
      ∃ slice, p = .bsiSlice key (shardName tq t) slice := by
  cases p with
  | packEntry key' name =>
    obtain ⟨rfl, rfl⟩ := bsi.inj hp
    exact .inl (congrArg _ hnamed.symm)
  | bsiBundle key' name =>
    obtain ⟨rfl, rfl⟩ := bsi.inj hp
    exact .inr (.inl (congrArg _ hnamed.symm))
  | bsiSlice key' name slice =>
    obtain ⟨rfl, rfl⟩ := bsi.inj hp
    exact .inr (.inr ⟨slice, congrArg (bsiSlice key' · slice) hnamed.symm⟩)
  | bundleEntry key' rowID name | rowFile key' rowID name => cases hp

theorem place_of_bitmap {b : BitmapKey} (hp : p.shard = .bitmap b) (hnamed : p.WellNamed tq) :
    p = .bundleEntry b.key b.rowID (shardName tq b.time) ∨
      ∃ name ∈ legacyStandardBitmapShardPaths tq b.time, p = .rowFile b.key b.rowID name := by
  cases p with
  | packEntry key' name | bsiBundle key' name | bsiSlice key' name slice => cases hp
  | bundleEntry key' rowID name =>
    obtain rfl := bitmap.inj hp
    exact .inl (congrArg (bundleEntry key' rowID) hnamed.symm)
  | rowFile key' rowID name =>
    obtain rfl := bitmap.inj hp
    exact .inr ⟨name, hnamed, rfl⟩

theorem sliceFile_ne_bundle (slice : ℕ) : sliceFile slice ≠ "bundle" :=
  (sliceFile_lt_bundle slice).ne

theorem walkKey_injective {k : ShardKey} {q : Place} (hp : p.shard = k) (hq : q.shard = k)
    (hpn : p.WellNamed tq) (hqn : q.WellNamed tq) (hfield : k.field.field ≠ bsiPackLeafDir)
    (h : p.walkKey = q.walkKey) : p = q := by
  cases k with
  | bsi key t =>
    have hne : bsiPackLeafDir ≠ key.field := Ne.symm hfield
    rcases place_of_bsi hp hpn with rfl | rfl | ⟨slice, rfl⟩ <;>
      rcases place_of_bsi hq hqn with rfl | rfl | ⟨slice', rfl⟩ <;>
      simp [walkKey, hne, hne.symm, sliceFile_ne_bundle, (sliceFile_ne_bundle _).symm] at h ⊢
    exact sliceFile_injective h
  | bitmap b =>
    have hrow : ∀ {n n' : ShardName}, n ∈ legacyStandardBitmapShardPaths tq b.time →
        n' ∈ legacyStandardBitmapShardPaths tq b.time → rowFileName n = rowFileName n' →
          n = n' := by
      intro n n' hn hn' heq
      cases tq <;> simp only [legacyStandardBitmapShardPaths, mem_cons, not_mem_nil,
        or_false] at hn hn'
      · rcases hn with rfl | rfl <;> rcases hn' with rfl | rfl <;>
          first | rfl | simp [rowFileName] at heq
      · rw [hn, hn']
      · rw [hn, hn']
    rcases place_of_bitmap hp hpn with rfl | ⟨name, hname, rfl⟩ <;>
      rcases place_of_bitmap hq hqn with rfl | ⟨name', hname', rfl⟩ <;> simp [walkKey] at h ⊢
    exact hrow hname hname' h

/-- A place that is the only one with some property is all that the walk meets there. -/
theorem walkOf_unique (files : Files) (q : Place → Bool) (p₀ : Place) (hq : q p₀ = true)
    (huniq : ∀ p ∈ files, q p = true → p = p₀) :
    walkOf q files = ((files.lookup p₀).map fun f => (p₀, f)).toList := by
  have hmem : ∀ e, e ∈ walkOf q files ↔
      e ∈ ((files.lookup p₀).map fun f => (p₀, f)).toList := by
    intro e
    rw [mem_walkOf, mem_toList, map_eq_some_iff]
    constructor
    · rintro ⟨hlookup, hqe⟩
      have hp : e.1 = p₀ := huniq e.1 (mem_of_lookup hlookup) hqe
      exact ⟨e.2, hp ▸ hlookup, by rw [← hp]⟩
    · rintro ⟨f, hf, rfl⟩
      exact ⟨hf, hq⟩
  have hnodup : ((files.lookup p₀).map fun f => (p₀, f)).toList.Nodup := by
    cases files.lookup p₀ <;> simp
  have hperm := (perm_ext_iff_of_nodup (Nodup.of_map _ (walkOf_nodup q files))
    hnodup).mpr hmem
  cases hlookup : files.lookup p₀ <;> rw [hlookup] at hperm
  · exact perm_nil.mp hperm
  · exact perm_singleton.mp hperm

/-- A walk in which the files with some property come first. -/
theorem walkOf_append (files : Files) (q r : Place → Bool)
    (h : ∀ a ∈ files, ∀ b ∈ files, q a = true → q b = true → r a = false → r b = true →
      ¬ a.walkKey ≤ b.walkKey) :
    walkOf q files =
      walkOf (fun p => q p && r p) files ++ walkOf (fun p => q p && !r p) files := by
  have hsplit : ∀ l : List (Place × Stored), (∀ e ∈ l, e.1 ∈ files ∧ q e.1 = true) →
      l.Pairwise (fun a b => a.1.walkKey ≤ b.1.walkKey) →
        l = l.filter (fun e => r e.1) ++ l.filter (fun e => !r e.1) := by
    intro l hl hsorted
    induction l with
    | nil => rfl
    | cons a l ih =>
      obtain ⟨ha, hl⟩ := forall_mem_cons.mp hl
      obtain ⟨hfirst, hsorted⟩ := pairwise_cons.mp hsorted
      cases hr : r a.1 with
      | true => simpa [hr] using ih hl hsorted
      | false =>
        -- Nothing with the property can come later.
        have hnone : l.filter (fun e => r e.1) = [] := by
          refine filter_eq_nil_iff.mpr fun b hb hrb => ?_
          exact h a.1 ha.1 b.1 (hl b hb).1 ha.2 (hl b hb).2 hr hrb (hfirst b hb)
        have hall := ih hl hsorted
        rw [hnone, nil_append] at hall
        simp [hr, hnone, ← hall]
  have hmem : ∀ e ∈ walkOf q files, e.1 ∈ files ∧ q e.1 = true := by
    intro e he
    obtain ⟨hlookup, hqe⟩ := mem_walkOf.mp he
    exact ⟨mem_of_lookup hlookup, hqe⟩
  have hwalk := hsplit _ hmem (walkOf_sorted q files)
  simpa [walkOf, Bool.and_comm] using hwalk

/-! ## Slices over other data -/

/-- A chunk is put in its place. -/
def lay (data : BitData) (s : ℕ × List UInt8) : BitData := (padTo (s.1 + 1) data).set s.1 s.2

theorem lay_eq_self {data : BitData} {s : ℕ × List UInt8} (h : data[s.1]? = some s.2) :
    lay data s = data := by
  obtain ⟨hlt, hget⟩ := List.getElem?_eq_some_iff.mp h
  have hpad : padTo (s.1 + 1) data = data := by
    rw [padTo, Nat.sub_eq_zero_of_le hlt, replicate_zero, append_nil]
  rw [lay, hpad, ← hget, set_getElem_self]

section

variable {ss : List (ℕ × List UInt8)} (hnodup : (ss.map Prod.fst).Nodup) (data : BitData)

include hnodup

theorem getElem?_foldl_lay :
    (∀ s ∈ ss, (ss.foldl lay data)[s.1]? = some s.2) ∧
      ∀ i x, i ∉ ss.map Prod.fst → data[i]? = some x → (ss.foldl lay data)[i]? = some x := by
  induction ss generalizing data with
  | nil => exact ⟨nofun, fun i x _ h => h⟩
  | cons s ss ih =>
    rw [map_cons, nodup_cons] at hnodup
    obtain ⟨hmem, hother⟩ := ih hnodup.2 (lay data s)
    refine ⟨forall_mem_cons.mpr ⟨?_, hmem⟩, fun i x hi h => ?_⟩
    · refine hother s.1 s.2 hnodup.1 ?_
      rw [lay, getElem?_set_self (by simp [padTo]; omega)]
    · rw [map_cons, mem_cons, not_or] at hi
      refine hother i x hi.2 ?_
      rw [lay, getElem?_set_ne (Ne.symm hi.1), padTo,
        List.getElem?_append_left (List.getElem?_eq_some_iff.mp h).1, h]

/-- Slices leave the chunks as they are exactly when they repeat them. -/
theorem foldl_lay_eq_iff : ss.foldl lay data = data ↔ ∀ s ∈ ss, data[s.1]? = some s.2 := by
  constructor
  · intro h s hs
    have := (getElem?_foldl_lay hnodup data).1 s hs
    rwa [h] at this
  · intro h
    clear hnodup
    induction ss with
    | nil => rfl
    | cons s ss ih =>
      obtain ⟨hs, hss⟩ := forall_mem_cons.mp h
      rw [foldl_cons, lay_eq_self hs, ih hss]

end

/-! ## An index with a pack -/

def Place.isPack : Place → Bool
  | .packEntry _ _ => true
  | _ => false

def Place.isSlice : Place → Bool
  | .bsiSlice _ _ _ => true
  | _ => false

def slicesOf (files : Files) (k : ShardKey) : List (Place × Stored) :=
  walkOf (fun p => p.shard = k && p.isSlice) files

/-- The number and the chunk of a slice file. -/
def sliceOf (e : Place × Stored) : ℕ × List UInt8 :=
  match e.1 with
  | .bsiSlice _ _ slice => (slice, e.2.data.headD [])
  | _ => (0, [])

/-- The slices of an index repeat its chunks; where a bundle beside them is newer than they are
taken to be, the bundle repeats them instead. -/
def SlicesRepeat (files : Files) (k : ShardKey) (bundle : Place) (data : BitData) : Prop :=
  ∀ last ∈ (slicesOf files k).getLast?,
    if (files.lookup bundle).any fun b => last.2.modTime - tenSeconds < b.modTime then
      (files.lookup bundle).map Stored.data = some data
    else ∀ e ∈ slicesOf files k, data[(sliceOf e).1]? = some (sliceOf e).2

variable {key : FieldKey} {t : ℤ}

theorem exists_slice {p : Place} (hshard : p.shard = .bsi key t) (hslice : p.isSlice = true) :
    ∃ name slice, p = .bsiSlice key name slice := by
  cases p with
  | bsiSlice key' name slice =>
    obtain ⟨rfl, -⟩ := bsi.inj hshard
    exact ⟨name, slice, rfl⟩
  | _ => cases hslice

theorem exists_slice_of_mem {e : Place × Stored} (he : e ∈ slicesOf files (.bsi key t)) :
    ∃ name slice, e.1 = .bsiSlice key name slice := by
  obtain ⟨hshard, hslice⟩ := Bool.and_eq_true_iff.mp (mem_walkOf.mp he).2
  exact exists_slice (of_decide_eq_true hshard) hslice

theorem getD_map_getLast?_cons {α β : Type} (g : α → β) (a : α) (l : List α) (b : β) :
    ((a :: l).getLast?.map g).getD b = (l.getLast?.map g).getD (g a) := by
  rw [getLast?_cons]
  cases l.getLast? <;> rfl

theorem laySlice_some (slice : ℕ) (f found : Stored) :
    laySlice slice f (some found) =
      ⟨lay found.data (slice, f.data.headD []), f.modTime - tenSeconds⟩ := by
  rw [laySlice, lay]

/-- The walk over slices lays them over what was found before them. -/
theorem foldlM_slices (hknown : (fieldQuantum? tables key).isSome)
    {ss : List (Place × Stored)} (hss : ∀ e ∈ ss, ∃ name slice, e.1 = .bsiSlice key name slice)
    (found : Stored) :
    ss.foldlM (actAt tables) (some found) = .ok (some
      ⟨(ss.map sliceOf).foldl lay found.data,
        (ss.getLast?.map fun e => e.2.modTime - tenSeconds).getD found.modTime⟩) := by
  induction ss generalizing found with
  | nil => rfl
  | cons e ss ih =>
    obtain ⟨⟨name, slice, hp⟩, hss⟩ := forall_mem_cons.mp hss
    have hact : actAt tables (some found) e = .ok (some
        ⟨lay found.data (sliceOf e), e.2.modTime - tenSeconds⟩) := by
      simp [actAt, sliceOf, hp, shard, field, hknown, visitPlace, laySlice_some, Except.map]
    rw [foldlM_cons, hact, ok_bind, ih hss, map_cons, foldl_cons,
      getD_map_getLast?_cons]

/-- The walk over files of an index never fails, and what it has found is at most as new as the
newest of them. -/
theorem foldlM_older (hknown : (fieldQuantum? tables key).isSome) {now : Time}
    (es : List (Place × Stored))
    (hes : ∀ e ∈ es, e.1.shard = .bsi key t ∧ e.2.modTime < now) (found : Option Stored)
    (hfound : ∀ f ∈ found, f.modTime < now) :
    ∃ found', es.foldlM (actAt tables) found = .ok found' ∧ ∀ f ∈ found', f.modTime < now := by
  induction es generalizing found with
  | nil => exact ⟨found, rfl, hfound⟩
  | cons e es ih =>
    obtain ⟨⟨hshard, hold⟩, hes⟩ := forall_mem_cons.mp hes
    have hact : ∃ f, actAt tables found e = .ok (some f) ∧ f.modTime < now := by
      have hnewer : (newer e.2 found).modTime < now := by
        cases found with
        | none => exact hold
        | some f =>
          simp only [newer]
          split_ifs
          exacts [hold, hfound f rfl]
      have hlaid : ∀ slice, (laySlice slice e.2 found).modTime < now := by
        intro slice
        cases found with
        | none => exact hold
        | some f =>
          exact lt_of_le_of_lt (Nat.sub_le e.2.modTime tenSeconds) hold
      rw [actAt, if_pos (by rw [hshard]; exact hknown)]
      cases hp : e.1 with
      | packEntry key' name | bsiBundle key' name => exact ⟨_, rfl, hnewer⟩
      | bsiSlice key' name slice => exact ⟨_, rfl, hlaid slice⟩
      | bundleEntry key' rowID name | rowFile key' rowID name =>
        rw [hp] at hshard
        cases hshard
    obtain ⟨f, hf, hlt⟩ := hact
    rw [foldlM_cons, hf]
    refine ih hes (some f) ?_
    rintro f' ⟨⟩
    exact hlt

theorem directory_of_bsi (hp : p.shard = .bsi key t) :
    (ofLex p.walkKey).1 = if p.isPack then bsiPackLeafDir else key.field := by
  cases p with
  | packEntry key' name => rfl
  | bsiBundle key' name | bsiSlice key' name slice =>
    obtain ⟨rfl, -⟩ := bsi.inj hp
    rfl
  | bundleEntry key' rowID name | rowFile key' rowID name => cases hp

theorem not_walkKey_le {q : Place} (h : (ofLex q.walkKey).1 < (ofLex p.walkKey).1) :
    ¬ p.walkKey ≤ q.walkKey := by
  rw [Prod.Lex.le_iff, not_or]
  exact ⟨h.asymm, fun heq => h.ne' heq.1⟩

/-- A field that comes before the packs: the pack is read last. -/
theorem shardWalk_packLast (hfield : key.field < bsiPackLeafDir) :
    shardWalk files (.bsi key t) =
      walkOf (fun p => p.shard = .bsi key t && !p.isPack) files ++
        walkOf (fun p => p.shard = .bsi key t && p.isPack) files := by
  have h := walkOf_append files (fun p => decide (p.shard = .bsi key t))
    (fun p => !p.isPack) ?_
  · simp only [Bool.not_not] at h
    exact h
  · intro a _ b _ ha hb har hbr
    apply not_walkKey_le
    rw [directory_of_bsi (of_decide_eq_true ha), directory_of_bsi (of_decide_eq_true hb)]
    simp only [Bool.not_eq_false', Bool.not_eq_true'] at har hbr
    simpa [har, hbr] using hfield

/-- A field that comes after the packs: the pack is read first, then slices, then a bundle. -/
theorem shardWalk_packFirst (hfield : bsiPackLeafDir < key.field) :
    shardWalk files (.bsi key t) =
      walkOf (fun p => p.shard = .bsi key t && p.isPack) files ++
        (slicesOf files (.bsi key t) ++
          walkOf (fun p => p.shard = .bsi key t && !p.isPack && !p.isSlice) files) := by
  have hfirst := walkOf_append files (fun p => decide (p.shard = .bsi key t))
    (fun p => p.isPack) ?_
  · have hrest := walkOf_append files
      (fun p => decide (p.shard = .bsi key t) && !p.isPack) (fun p => p.isSlice) ?_
    · have hslices : (fun p : Place => decide (p.shard = .bsi key t) && !p.isPack && p.isSlice) =
          fun p => decide (p.shard = .bsi key t) && p.isSlice := by
        funext p
        cases p <;> simp [isPack, isSlice]
      rw [hslices] at hrest
      rw [shardWalk, hfirst, hrest]
      rfl
    · intro a _ b _ ha hb har hbr
      obtain ⟨ha, hap⟩ := Bool.and_eq_true_iff.mp ha
      obtain ⟨hb, -⟩ := Bool.and_eq_true_iff.mp hb
      have hbundle : ∃ name, a = .bsiBundle key name := by
        cases a with
        | bsiBundle key' name =>
          obtain ⟨rfl, -⟩ := bsi.inj (of_decide_eq_true ha)
          exact ⟨name, rfl⟩
        | packEntry key' name => cases hap
        | bsiSlice key' name slice => cases har
        | bundleEntry key' rowID name | rowFile key' rowID name => cases of_decide_eq_true ha
      obtain ⟨name, rfl⟩ := hbundle
      obtain ⟨name', slice, rfl⟩ := exists_slice (of_decide_eq_true hb) hbr
      simpa [walkKey, Prod.Lex.toLex_le_toLex] using sliceFile_lt_bundle slice
  · intro a _ b _ ha hb har hbr
    apply not_walkKey_le
    rw [directory_of_bsi (of_decide_eq_true ha), directory_of_bsi (of_decide_eq_true hb)]
    simpa [har, hbr] using hfield

theorem actAt_newer (hknown : (fieldQuantum? tables key).isSome) (p : Place) (f : Stored)
    (hshard : p.shard = .bsi key t) (hslice : p.isSlice = false) (found : Option Stored) :
    actAt tables found (p, f) = .ok (some (newer f found)) := by
  cases p with
  | packEntry key' name | bsiBundle key' name =>
    obtain ⟨rfl, -⟩ := bsi.inj hshard
    exact if_pos hknown
  | bsiSlice key' name slice => cases hslice
  | bundleEntry key' rowID name | rowFile key' rowID name => cases hshard

section

variable {tq : TimeQuantum} {pack : Stored}
  (hnamed : ∀ p ∈ files, p.shard = .bsi key t → p.WellNamed tq)

include hnamed

theorem slices_nodup : (((slicesOf files (.bsi key t)).map sliceOf).map Prod.fst).Nodup := by
  rw [List.map_map]
  refine List.Nodup.map_on ?_ (List.Nodup.of_map _ (walkOf_nodup _ files))
  have hplace : ∀ e ∈ slicesOf files (.bsi key t),
      files.lookup e.1 = some e.2 ∧ e.1 = .bsiSlice key (shardName tq t) (sliceOf e).1 := by
    intro e he
    obtain ⟨name, slice, hp⟩ := exists_slice_of_mem he
    obtain ⟨hlookup, hq⟩ := mem_walkOf.mp he
    have hk := of_decide_eq_true (Bool.and_eq_true_iff.mp hq).1
    refine ⟨hlookup, ?_⟩
    rcases place_of_bsi hk (hnamed e.1 (mem_of_lookup hlookup) hk) with
      h | h | ⟨slice', h⟩
    · cases hp.symm.trans h
    · cases hp.symm.trans h
    · rw [h]
      simp [sliceOf, h]
  intro a ha b hb heq
  obtain ⟨halookup, ha⟩ := hplace a ha
  obtain ⟨hblookup, hb⟩ := hplace b hb
  have hab : a.1 = b.1 := by
    rw [ha, hb]
    exact congrArg _ heq
  refine Prod.ext hab ?_
  rw [hab, hblookup] at halookup
  exact (some.inj halookup).symm

variable (htime : (shardName tq t).time = t)

include htime

theorem walkOf_bundles :
    walkOf (fun p => p.shard = .bsi key t && !p.isPack && !p.isSlice) files =
      ((files.lookup (.bsiBundle key (shardName tq t))).map
        fun f => (bsiBundle key (shardName tq t), f)).toList := by
  refine walkOf_unique files _ (.bsiBundle key (shardName tq t)) ?_ ?_
  · simp [shard, isPack, isSlice, htime]
  · intro p hp hq
    obtain ⟨hq, hnotslice⟩ := Bool.and_eq_true_iff.mp hq
    obtain ⟨hk, hnotpack⟩ := Bool.and_eq_true_iff.mp hq
    have hk := of_decide_eq_true hk
    rcases place_of_bsi hk (hnamed p hp hk) with rfl | rfl | ⟨slice, rfl⟩
    · cases hnotpack
    · rfl
    · cases hnotslice

variable (hpack : files.lookup (.packEntry key (shardName tq t)) = some pack)

include hpack

theorem walkOf_packs :
    walkOf (fun p => p.shard = .bsi key t && p.isPack) files =
      [(.packEntry key (shardName tq t), pack)] := by
  rw [walkOf_unique files _ (.packEntry key (shardName tq t)), hpack]
  · rfl
  · simp [shard, isPack, htime]
  · intro p hp hq
    obtain ⟨hk, hispack⟩ := Bool.and_eq_true_iff.mp hq
    have hk := of_decide_eq_true hk
    rcases place_of_bsi hk (hnamed p hp hk) with rfl | rfl | ⟨slice, rfl⟩
    · rfl
    · cases hispack
    · cases hispack

variable (hknown : (fieldQuantum? tables key).isSome)

include hknown

/-- The newest pack of a field that comes before the packs is what is read. -/
theorem readShard_packLast (hfield : key.field < bsiPackLeafDir)
    (hold : ∀ p f, files.lookup p = some f → p.shard = .bsi key t → p.isPack = false →
      f.modTime < pack.modTime) : readShard tables files (.bsi key t) = .ok (some pack) := by
  have hshard : (Place.packEntry key (shardName tq t)).shard = .bsi key t := by
    rw [shard, htime]
  have hother : ∀ e ∈ walkOf (fun p => p.shard = .bsi key t && !p.isPack) files,
      e.1.shard = .bsi key t ∧ e.2.modTime < pack.modTime := by
    intro e he
    obtain ⟨hlookup, hq⟩ := mem_walkOf.mp he
    obtain ⟨hk, hnot⟩ := Bool.and_eq_true_iff.mp hq
    have hk := of_decide_eq_true hk
    exact ⟨hk, hold e.1 e.2 hlookup hk (by simpa using hnot)⟩
  obtain ⟨found, hfound, holder⟩ := foldlM_older hknown _ hother none nofun
  rw [readShard, shardWalk_packLast hfield, walkOf_packs hnamed htime hpack,
    foldlM_append, hfound, ok_bind, foldlM_cons,
    actAt_newer hknown _ pack hshard rfl, ok_bind]
  cases found with
  | none => rfl
  | some f =>
    rw [newer, if_pos (holder f rfl)]
    rfl

/-- What is read of a field that comes after the packs: slices are laid over the pack, and the
bundle is set against the time of the last of them. -/
theorem readShard_packFirst (hfield : bsiPackLeafDir < key.field) :
    readShard tables files (.bsi key t) =
      ((files.lookup (.bsiBundle key (shardName tq t))).map
        fun f => (bsiBundle key (shardName tq t), f)).toList.foldlM (actAt tables) (some
          ⟨((slicesOf files (.bsi key t)).map sliceOf).foldl lay pack.data,
            ((slicesOf files (.bsi key t)).getLast?.map
              fun e => e.2.modTime - tenSeconds).getD pack.modTime⟩) := by
  have hshard : (Place.packEntry key (shardName tq t)).shard = .bsi key t := by
    rw [shard, htime]
  rw [readShard, shardWalk_packFirst hfield, walkOf_packs hnamed htime hpack,
    singleton_append, foldlM_cons, actAt_newer hknown _ pack hshard rfl,
    ok_bind, newer, foldlM_append,
    foldlM_slices hknown (fun e he => exists_slice_of_mem he), ok_bind,
    walkOf_bundles hnamed htime]

/-- When an index is read as its newest pack has it: if the field comes after the packs, its slices
have to repeat the pack. -/
theorem readShard_pack_iff (hfield : key.field ≠ bsiPackLeafDir)
    (hold : ∀ p f, files.lookup p = some f → p.shard = .bsi key t → p.isPack = false →
      f.modTime < pack.modTime) :
    ∃ f, readShard tables files (.bsi key t) = .ok (some f) ∧
      (f.data = pack.data ↔ (bsiPackLeafDir < key.field →
        SlicesRepeat files (.bsi key t) (.bsiBundle key (shardName tq t)) pack.data)) := by
  have hshard : (bsiBundle key (shardName tq t)).shard = .bsi key t := by
    rw [shard, htime]
  rcases lt_or_gt_of_ne hfield with hlt | hgt
  · exact ⟨pack, readShard_packLast hnamed htime hpack hknown hlt hold,
      iff_of_true rfl fun hgt => absurd hgt hlt.asymm⟩
  have hlaid := foldl_lay_eq_iff (slices_nodup hnamed) pack.data
  rw [List.forall_mem_map] at hlaid
  rw [readShard_packFirst hnamed htime hpack hknown hgt, SlicesRepeat]
  cases hlast : (slicesOf files (.bsi key t)).getLast? with
  | none =>
    -- Without slices the pack is found, and a bundle is older.
    rw [getLast?_eq_none_iff.mp hlast]
    refine ⟨pack, ?_, iff_of_true rfl fun _ last h => nomatch h⟩
    cases hbundle : files.lookup (.bsiBundle key (shardName tq t)) with
    | none => rfl
    | some b =>
      have hlt : b.modTime < pack.modTime := hold _ b hbundle hshard rfl
      show ([(_, b)] : List (Place × Stored)).foldlM (actAt tables) (some pack) = _
      rw [foldlM_cons, actAt_newer hknown _ b hshard rfl, newer, if_neg hlt.asymm]
      rfl
  | some last =>
    rw [forall_prop_of_true hgt, map_some, getD_some]
    simp only [mem_def, some.injEq, forall_eq']
    cases hbundle : files.lookup (.bsiBundle key (shardName tq t)) with
    | none => exact ⟨_, rfl, hlaid⟩
    | some b =>
      rw [map_some, toList_some, foldlM_cons,
        actAt_newer hknown _ b hshard rfl, ok_bind, newer, any_some]
      by_cases hlt : last.2.modTime - tenSeconds < b.modTime
      · rw [if_pos hlt, if_pos (decide_eq_true hlt)]
        exact ⟨b, rfl, by rw [map_some, some.injEq]⟩
      · rw [if_neg hlt, if_neg (by rw [decide_eq_true_eq]; exact hlt)]
        exact ⟨_, rfl, hlaid⟩

end

end QuantaStream.Server
