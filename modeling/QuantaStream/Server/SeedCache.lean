import Mathlib.Algebra.GroupWithZero.Nat
import QuantaStream.Lib.KeyText
import QuantaStream.Server.BitmapQuery
import QuantaStream.Server.Sequencer

/-!
# The seed cache of a node

A query that starts from the existence of a field takes the union of the existence bitmaps of the
shards in its window.  The node keeps these unions in a cache, by field and window, and patches
them when a shard changes.

A query truncates the time of a shard to the quantum of the field, and without a quantum takes
every shard.  A patch compares the time of the shard as it is.  A shard that a window counts by
the first test and not by the second makes the cached union stale, and so does a change that
reaches the shard without a patch.
-/

namespace QuantaStream.Server

open ParOr Shared KeyText List CacheState GoMap Run Bsi

/-! ## The cache -/

/-- `SeedBitmap`: the cached union for a window. -/
structure SeedBitmap where
  key : FieldKey
  window : Window
  bits : Bitmap
  count : ℕ

/-- The caches of a node together with the seed cache. -/
structure SeedState where
  caches : CacheState
  seedCache : GoMap String SeedBitmap

def SeedState.init : SeedState where
  caches := .init
  seedCache := ∅

variable (key : FieldKey)

def seedCacheKey (w : Window) : String :=
  key.index ++ "/" ++ key.field ++ "/" ++ toString w.fromTime ++ "/" ++ toString w.toTime

def storeSeedBitmap (w : Window) (bits : Bitmap) (count : ℕ) (st : SeedState) : SeedState :=
  { st with seedCache := st.seedCache.insert (seedCacheKey key w) ⟨key, w, bits, count⟩ }

/-- The body of the loop of `updateSeedCacheForBSIFragment`. -/
def updateSeed (shardNano : ℤ) (added removed : Option Bitmap)
    (entry : SeedBitmap) : Option SeedBitmap :=
  if entry.key ≠ key then some entry
  else if shardNano < entry.window.fromTime || shardNano > entry.window.toTime then some entry
  else
    match removed, added with
    | some _, _ => none
    | none, some added =>
      some { entry with bits := parOr [entry.bits, added], count := (parOr [entry.bits, added]).card }
    | none, none => some entry

/-- `updateSeedCacheForBSIFragment`. -/
def updateSeedCache (shardNano : ℤ) (added removed : Option Bitmap)
    (seeds : GoMap String SeedBitmap) : GoMap String SeedBitmap :=
  seeds.updateAll (updateSeed key shardNano added removed)

/-! ## Queries -/

variable (tables : String → Option Table)

/-- The quantum of a field, by `getFieldConfig`.  A table that is not configured is a nil
pointer. -/
def fieldQuantum (key : FieldKey) : Except QueryError TimeQuantum :=
  match tables key.index with
  | none => .error .panicked
  | some table => (getFieldConfig table key.field).map Attribute.timeQuantum

def Window.truncate (w : Window) (tq : TimeQuantum) : Window where
  fromTime := truncateTime w.fromTime tq
  toTime := truncateTime w.toTime tq

/-- A query counts a shard: there is no quantum, or its truncated time is in the window. -/
def counts (tq : TimeQuantum) (w : Window) (time : ℤ) : Bool :=
  tq = .none || !(truncateTime time tq < w.fromTime || truncateTime time tq > w.toTime)

/-- The existence bitmaps of the shards that a query counts. -/
def existenceBitmaps (order : RangeOrder) (tq : TimeQuantum) (w : Window)
    (shards : GoMap ℤ BSIBitmap) : List Bitmap :=
  ((shards.range order).filter (fun shard => counts tq w shard.1)).map
    (fun shard => shard.2.contents.existence)

def timeRangeExistenceWithCount (order : RangeOrder)
    (key : FieldKey) (w : Window) (st : SeedState) : Except QueryError (Bitmap × ℕ) × SeedState :=
  match fieldQuantum tables key with
  | .error e => (.error e, st)
  | .ok tq =>
    let w := w.truncate tq
    match st.seedCache.lookup (seedCacheKey key w) with
    | some entry => (.ok (entry.bits, entry.count), st)
    | none =>
      let results := existenceBitmaps order tq w (st.caches.bsiCache key)
      let count := (results.map Finset.card).sum
      (.ok (parOr results, count), storeSeedBitmap key w (parOr results) count st)

/-! ## Changes -/

/-- The patch of the seed cache by `updateBSICache`. -/
def patchForFragment (env : CallEnv) (f : BSIFragment) (st : SeedState) : GoMap String SeedBitmap :=
  match f.data, st.caches.bsiEntry (f.key, f.time) with
  | .clear _, none => st.seedCache
  | .clear columns, some b =>
    updateSeedCache f.key f.time none (some (b.contents.existence ∩ columns)) st.seedCache
  | .values newBSI, none =>
    if f.isUpdate && !env.member (.bsi f.key f.time) then st.seedCache
    else updateSeedCache f.key f.time (some newBSI.existence) none st.seedCache
  | .values newBSI, some _ =>
    updateSeedCache f.key f.time (some newBSI.existence) none st.seedCache

/-- The patches of one cached union by `clearAll`: one for each shard that loses columns. -/
def clearAllSeed (env : CallEnv) (index : String) (start stop : ℤ) (columns : Bitmap)
    (caches : CacheState) (entry : SeedBitmap) : Option SeedBitmap :=
  if entry.key.index = index then
    (((caches.bsiCache entry.key).range env.order).filter
      (fun shard => !(shard.1 < start || shard.1 > stop))).foldl
        (fun entry shard =>
          let clearSet := shard.2.contents.existence ∩ columns
          if clearSet = ∅ then entry
          else entry.bind (fun e => updateSeed e.key shard.1 none (some clearSet) e)) (some entry)
  else some entry

/-- What happens on a node: the changes to its bit-sliced indexes, and queries. -/
inductive SeedEvent where
  | mutation (e : BSIMutation)
  | purgePartition (key : FieldKey) (time : ℤ)
  | mergeBSIDiff (now : Time) (key : FieldKey) (time : ℤ) (diff : Bsi)
  | checkoutSequence (now : Time) (key : FieldKey) (time : ℤ)
  | query (order : RangeOrder) (key : FieldKey) (w : Window)

def seedStep (enabled : FieldKey → Bool) (tables : String → Option Table) (st : SeedState) :
    SeedEvent → SeedState
  | .mutation e =>
    { caches := mutate enabled st.caches e
      seedCache :=
        match e with
        | .fragment env _ f => patchForFragment env f st
        | .clearAll env _ index start stop columns =>
          st.seedCache.updateAll (clearAllSeed env index start stop columns st.caches)
        | .truncate index =>
          st.seedCache.updateAll (fun e => if e.key.index = index then none else some e) }
  | .purgePartition key time =>
    match st.caches.bsiEntry (key, time) with
    | none => st
    | some b =>
      { caches :=
          { st.caches with
            bsiCache :=
              Function.update st.caches.bsiCache key ((st.caches.bsiCache key).erase time) }
        seedCache := updateSeedCache key time none (some b.contents.existence) st.seedCache }
  | .mergeBSIDiff now key time diff =>
    -- No patch: the difference to a peer goes to the shard only.
    match st.caches.bsiEntry (key, time) with
    | none => st
    | some b =>
      { st with
        caches := setShard key time
          { b with contents := (b.contents.clearValues diff.existence).or diff, modTime := now }
          st.caches }
  | .checkoutSequence now key time =>
    -- The shard of a primary key is there, and empty, before its first row.
    match st.caches.bsiEntry (key, time) with
    | none => { st with caches := setShard key time ⟨.empty, now, 0⟩ st.caches }
    | some _ => st
  | .query order key w => (timeRangeExistenceWithCount tables order key w st).2

/-! ## Conditions -/

/-- The name of a field without the separator of the cache keys. -/
def FieldKey.Plain (key : FieldKey) : Prop :=
  '/' ∉ key.index.toList ∧ '/' ∉ key.field.toList

/-- A patch for a shard reaches every cached union that counts the shard. -/
def Seen (st : SeedState) (key : FieldKey) (time : ℤ) : Prop :=
  ∀ text entry tq, st.seedCache.lookup text = some entry → entry.key = key →
    fieldQuantum tables key = .ok tq → counts tq entry.window time = true →
      entry.window.fromTime ≤ time ∧ time ≤ entry.window.toTime

/-- The condition of a step: a patch reaches the cached unions that count a changed shard, and the
difference to a peer has nothing that they lack. -/
def SeedStepOk (st : SeedState) : SeedEvent → Prop
  | .mutation (.fragment _ _ f) => Seen tables st f.key f.time
  | .mutation (.clearAll _ _ index start stop columns) =>
    ∀ key time, key.index = index → ¬ (time < start ∨ time > stop) →
      st.caches.columns (key, time) ∩ columns ≠ ∅ → Seen tables st key time
  | .mutation (.truncate _) => True
  | .purgePartition key time => Seen tables st key time
  | .mergeBSIDiff _ key time diff =>
    ∀ text entry tq, st.seedCache.lookup text = some entry → entry.key = key →
      fieldQuantum tables key = .ok tq → counts tq entry.window time = true →
        diff.existence ⊆ entry.bits
  | .checkoutSequence _ _ _ => True
  | .query _ key _ => key.Plain

/-! ## Cache keys -/

variable {key : FieldKey} {w : Window}

/-- Fields and windows have different keys. -/
theorem seedCacheKey_inj {key' : FieldKey} {w' : Window} (hkey : key.Plain) (hkey' : key'.Plain)
    (h : seedCacheKey key w = seedCacheKey key' w') : key = key' ∧ w = w' := by
  have hlist := congrArg String.toList h
  simp only [seedCacheKey, String.toList_append, append_assoc] at hlist
  rcases append_separator_inj hkey.1 hkey'.1 hlist with ⟨hindex, hlist⟩
  rcases append_separator_inj hkey.2 hkey'.2 hlist with ⟨hfield, hlist⟩
  rcases append_separator_inj (slash_notMem_toString _) (slash_notMem_toString _) hlist with
    ⟨hfrom, hto⟩
  exact ⟨congrArg₂ FieldKey.mk (String.toList_injective hindex) (String.toList_injective hfield),
    congrArg₂ Window.mk (toString_int_injective hfrom) (toString_int_injective hto)⟩

/-! ## Windows -/

theorem truncateTime_le (time : ℤ) (tq : TimeQuantum) : truncateTime time tq ≤ time := by
  unfold truncateTime
  split_ifs <;> omega

theorem truncateTime_mono {time time' : ℤ} (h : time ≤ time') (tq : TimeQuantum) :
    truncateTime time tq ≤ truncateTime time' tq := by
  unfold truncateTime
  split_ifs <;> omega

theorem truncateTime_truncateTime (time : ℤ) (tq : TimeQuantum) :
    truncateTime (truncateTime time tq) tq = truncateTime time tq := by
  unfold truncateTime
  split_ifs <;> omega

theorem Window.truncate_truncate (w : Window) (tq : TimeQuantum) :
    (w.truncate tq).truncate tq = w.truncate tq := by
  unfold Window.truncate
  rw [truncateTime_truncateTime, truncateTime_truncateTime]

variable {tq : TimeQuantum}

/-- A time in a truncated window is counted. -/
theorem counts_of_mem (hw : w.truncate tq = w) {time : ℤ} (hfrom : w.fromTime ≤ time)
    (hto : time ≤ w.toTime) : counts tq w time = true := by
  have hstart : truncateTime w.fromTime tq = w.fromTime := congrArg Window.fromTime hw
  have hlow := truncateTime_mono hfrom tq
  have hhigh := truncateTime_le time tq
  unfold counts
  simp only [Bool.or_eq_true, Bool.not_eq_true', Bool.or_eq_false_iff, decide_eq_true_eq,
    decide_eq_false_iff_not]
  omega

/-- The union of the existence bitmaps of the shards in a window. -/
def existenceIn (tq : TimeQuantum) (w : Window) (caches : CacheState) (key : FieldKey) : Bitmap :=
  parOr (existenceBitmaps .asKept tq w (caches.bsiCache key))

theorem mem_parOr_existenceBitmaps {order : RangeOrder} {caches : CacheState} {c : ℕ} :
    c ∈ parOr (existenceBitmaps order tq w (caches.bsiCache key)) ↔
      ∃ time, counts tq w time = true ∧ c ∈ caches.columns (key, time) := by
  have hcolumns : ∀ time, c ∈ caches.columns (key, time) ↔
      ∃ b, (caches.bsiCache key).lookup time = some b ∧ c ∈ b.contents.existence := by
    intro time
    cases hentry : (caches.bsiCache key).lookup time <;> simp [columns, bsiEntry, hentry]
  simp only [mem_parOr, existenceBitmaps, mem_map, mem_filter, Prod.exists, GoMap.mem_range,
    hcolumns]
  aesop

theorem mem_existenceIn {caches : CacheState} {c : ℕ} : c ∈ existenceIn tq w caches key ↔
      ∃ time, counts tq w time = true ∧ c ∈ caches.columns (key, time) :=
  mem_parOr_existenceBitmaps

/-! ## The columns of the shards -/

variable {s : CacheState} {k : FieldKey × ℤ}

theorem columns_of_bsiEntry_eq {s' : CacheState} (h : s'.bsiEntry k = s.bsiEntry k) :
    s'.columns k = s.columns k := by
  unfold columns
  rw [h]

variable {f : BSIFragment}

section

variable (enabled : FieldKey → Bool) (env : CallEnv)

/-- A fragment of values adds its columns, unless the node ignores it. -/
theorem columns_updateBSICache_values (start : Time)
    {newBSI : Bsi} (hdata : f.data = .values newBSI) (hstored : s.bsiEntry (f.key, f.time) = none →
      (f.isUpdate && !env.member (.bsi f.key f.time)) = false) :
    (updateBSICache enabled env start f s).columns (f.key, f.time) =
      s.columns (f.key, f.time) ∪ newBSI.existence := by
  unfold columns
  rw [bsiEntry_updateBSICache, if_pos rfl]
  unfold mergedBSI
  cases hentry : s.bsiEntry (f.key, f.time) with
  | none => simp [hdata, hstored hentry]
  | some b =>
    simp only [hdata, Option.elim_some]
    rw [existence_or]
    split_ifs
    · ext c
      simp only [existence_clearValues, Finset.mem_union, Finset.mem_sdiff, Finset.mem_inter]
      tauto
    · rfl

theorem columns_updateBSICache_ignored (start : Time) (hentry : s.bsiEntry (f.key, f.time) = none)
    (hignored : ∀ newBSI, f.data = .values newBSI →
      (f.isUpdate && !env.member (.bsi f.key f.time)) = true) (k : FieldKey × ℤ) :
    (updateBSICache enabled env start f s).columns k = s.columns k := by
  refine columns_of_bsiEntry_eq ?_
  rw [bsiEntry_updateBSICache]
  split_ifs with hk
  · subst hk
    unfold mergedBSI
    rw [hentry]
    cases hdata : f.data with
    | clear columns => rfl
    | values newBSI => simp [hignored newBSI hdata]
  · rfl

end

/-! ## Cached unions -/

/-- A cached union is under its key and is the union for its window. -/
structure SeedOk (caches : CacheState) (text : String) (entry : SeedBitmap) : Prop where
  text_eq : text = seedCacheKey entry.key entry.window
  plain : entry.key.Plain
  fresh : ∃ tq, fieldQuantum tables entry.key = .ok tq ∧ entry.window.truncate tq = entry.window ∧
    entry.bits = existenceIn tq entry.window caches entry.key

/-- No cached union is stale. -/
def SeedsFresh (st : SeedState) : Prop :=
  ∀ text entry, st.seedCache.lookup text = some entry → SeedOk tables st.caches text entry

section

variable {tables : String → Option Table} {caches caches' : CacheState} {text : String}
  {entry entry' : SeedBitmap} {key : FieldKey} {time : ℤ}

/-- Only the counted shards matter to a cached union. -/
theorem SeedOk.of_columns (h : SeedOk tables caches text entry)
    (hsame : ∀ tq time, fieldQuantum tables entry.key = .ok tq →
      counts tq entry.window time = true →
        caches'.columns (entry.key, time) = caches.columns (entry.key, time)) :
    SeedOk tables caches' text entry := by
  rcases h.fresh with ⟨tq, hquantum, hwindow, hbits⟩
  refine ⟨h.text_eq, h.plain, tq, hquantum, hwindow, ?_⟩
  ext c
  rw [hbits, mem_existenceIn, mem_existenceIn]
  refine exists_congr fun time => and_congr_right fun hcounts => ?_
  rw [hsame tq time hquantum hcounts]

/-- A shard that is counted and gets columns. -/
theorem existenceIn_union {w : Window} {tq : TimeQuantum} {added : Bitmap}
    (hcounts : counts tq w time = true)
    (hsame : ∀ k, k ≠ (key, time) → caches'.columns k = caches.columns k)
    (hadded : caches'.columns (key, time) = caches.columns (key, time) ∪ added) :
    existenceIn tq w caches' key = existenceIn tq w caches key ∪ added := by
  have hcolumns : ∀ time' c, c ∈ caches'.columns (key, time') ↔
      c ∈ caches.columns (key, time') ∨ time' = time ∧ c ∈ added := by
    intro time' c
    by_cases htime : time' = time
    · simp [htime, hadded]
    · simp [htime, hsame (key, time') (by simpa using htime)]
  ext c
  simp only [Finset.mem_union, mem_existenceIn, hcolumns, and_or_left, exists_or]
  refine or_congr_right ⟨?_, fun hc => ⟨time, hcounts, rfl, hc⟩⟩
  rintro ⟨_, _, _, hc⟩
  exact hc

theorem updateSeed_cases {added removed : Option Bitmap}
    (h : updateSeed key time added removed entry = some entry') :
    (entry' = entry ∧ (entry.key = key →
      ¬ (entry.window.fromTime ≤ time ∧ time ≤ entry.window.toTime))) ∨
    (entry.key = key ∧ removed = none ∧ entry.window.fromTime ≤ time ∧ time ≤ entry.window.toTime ∧
      match added with
      | none => entry' = entry
      | some added => entry' =
          { entry with
            bits := parOr [entry.bits, added], count := (parOr [entry.bits, added]).card }) := by
  unfold updateSeed at h
  split_ifs at h with hkey hwindow
  · exact .inl ⟨(Option.some.inj h).symm, fun heq => absurd heq hkey⟩
  · refine .inl ⟨(Option.some.inj h).symm, fun _ hmem => ?_⟩
    simp only [Bool.or_eq_true, decide_eq_true_eq] at hwindow
    omega
  · simp only [Bool.or_eq_true, decide_eq_true_eq, not_or] at hwindow
    have hmem : entry.window.fromTime ≤ time ∧ time ≤ entry.window.toTime := by omega
    cases removed with
    | some removed => cases h
    | none =>
      cases added <;> exact .inr ⟨not_not.mp hkey, rfl, hmem.1, hmem.2, (Option.some.inj h).symm⟩

/-- A patch reaches a cached union if it counts the shard. -/
def SeenBy (tables : String → Option Table) (entry : SeedBitmap) (key : FieldKey) (time : ℤ) :
    Prop :=
  ∀ tq, entry.key = key → fieldQuantum tables key = .ok tq → counts tq entry.window time = true →
    entry.window.fromTime ≤ time ∧ time ≤ entry.window.toTime

section

variable (h : SeedOk tables caches text entry) (hseen : SeenBy tables entry key time)
  (hsame : ∀ k, k ≠ (key, time) → caches'.columns k = caches.columns k)

include h hseen hsame

/-- A change to a shard outside of the window of a cached union. -/
theorem SeedOk.outside
    (hout : entry.key = key → ¬ (entry.window.fromTime ≤ time ∧ time ≤ entry.window.toTime)) :
    SeedOk tables caches' text entry := by
  refine h.of_columns fun tq time' hquantum hcounts => hsame _ fun heq => ?_
  rw [Prod.mk.injEq] at heq
  rcases heq with ⟨hkey, rfl⟩
  exact hout hkey (hseen tq hkey (hkey ▸ hquantum) hcounts)

theorem SeedOk.removed {removed : Bitmap}
    (hentry : updateSeed key time none (some removed) entry = some entry') :
    SeedOk tables caches' text entry' := by
  rcases updateSeed_cases hentry with ⟨rfl, hout⟩ | ⟨-, hnone, -⟩
  · exact h.outside hseen hsame hout
  · cases hnone

theorem SeedOk.added {added : Bitmap}
    (hadded : caches'.columns (key, time) = caches.columns (key, time) ∪ added)
    (hentry : updateSeed key time (some added) none entry = some entry') :
    SeedOk tables caches' text entry' := by
  rcases updateSeed_cases hentry with ⟨rfl, hout⟩ | ⟨hkey, -, hfrom, hto, hentry'⟩
  · exact h.outside hseen hsame hout
  rcases h.fresh with ⟨tq, hquantum, hwindow, hbits⟩
  have hcounts : counts tq entry.window time = true := counts_of_mem hwindow hfrom hto
  rw [hentry']
  refine ⟨h.text_eq, h.plain, tq, hquantum, hwindow, ?_⟩
  rw [hkey, existenceIn_union hcounts hsame hadded, ← hkey, ← hbits]
  simp

end

/-- What `clearAll` leaves in the cache does not have a cleared shard in its window. -/
theorem clearAllSeed_cases {env : CallEnv} {index : String} {start stop : ℤ} {columns : Bitmap}
    (h : clearAllSeed env index start stop columns caches entry = some entry') :
    entry' = entry ∧ (entry.key.index = index → ∀ time, ¬ (time < start ∨ time > stop) →
      caches.columns (entry.key, time) ∩ columns ≠ ∅ →
        ¬ (entry.window.fromTime ≤ time ∧ time ≤ entry.window.toTime)) := by
  have hfold : ∀ (shards : List (ℤ × BSIBitmap)) (e : Option SeedBitmap),
      shards.foldl (fun entry shard =>
        let clearSet := shard.2.contents.existence ∩ columns
        if clearSet = ∅ then entry
        else entry.bind (fun e => updateSeed e.key shard.1 none (some clearSet) e)) e = some entry' →
      e = some entry' ∧ ∀ shard ∈ shards, shard.2.contents.existence ∩ columns ≠ ∅ →
        ¬ (entry'.window.fromTime ≤ shard.1 ∧ shard.1 ≤ entry'.window.toTime) := by
    intro shards
    induction shards with
    | nil => exact fun e he => ⟨he, nofun⟩
    | cons shard shards ih =>
      intro e he
      rcases ih _ he with ⟨hhead, hrest⟩
      suffices hstep : e = some entry' ∧ (shard.2.contents.existence ∩ columns ≠ ∅ →
          ¬ (entry'.window.fromTime ≤ shard.1 ∧ shard.1 ≤ entry'.window.toTime)) from
        ⟨hstep.1, forall_mem_cons.mpr ⟨hstep.2, hrest⟩⟩
      dsimp only at hhead
      split_ifs at hhead with hempty
      · exact ⟨hhead, absurd hempty⟩
      · rcases Option.bind_eq_some_iff.mp hhead with ⟨e', he', hupdate⟩
        rcases updateSeed_cases hupdate with ⟨rfl, hout⟩ | ⟨-, hnone, -⟩
        · exact ⟨he', fun _ => hout rfl⟩
        · cases hnone
  unfold clearAllSeed at h
  split_ifs at h with hindex
  · rcases hfold _ _ h with ⟨heq, hout⟩
    cases heq
    refine ⟨rfl, fun _ time hwindow hclear => ?_⟩
    unfold CacheState.columns at hclear
    cases hentry : caches.bsiEntry (entry.key, time) with
    | none => simp [hentry] at hclear
    | some b =>
      rw [hentry] at hclear
      refine hout (time, b) (mem_filter.mpr ⟨mem_range.mpr hentry, ?_⟩) hclear
      simpa using hwindow
  · exact ⟨(Option.some.inj h).symm, fun heq => absurd heq hindex⟩

end

/-! ## Runs -/

section

variable {tables : String → Option Table} {st : SeedState}

/-- A change and its patch. -/
theorem SeedsFresh.update (h : SeedsFresh tables st) {caches' : CacheState}
    {f : SeedBitmap → Option SeedBitmap}
    (hentry : ∀ text entry entry', st.seedCache.lookup text = some entry →
      SeedOk tables st.caches text entry → f entry = some entry' →
        SeedOk tables caches' text entry') :
    SeedsFresh tables ⟨caches', st.seedCache.updateAll f⟩ := by
  intro text entry' hlookup
  rw [lookup_updateAll] at hlookup
  rcases Option.bind_eq_some_iff.mp hlookup with ⟨entry, hentry', hupdate⟩
  exact hentry text entry entry' hentry' (h text entry hentry') hupdate

variable {key : FieldKey}

theorem Seen.seenBy {time : ℤ} (h : Seen tables st key time) {text : String} {entry : SeedBitmap}
    (hentry : st.seedCache.lookup text = some entry) : SeenBy tables entry key time :=
  fun tq => h text entry tq hentry

theorem SeedsFresh.fragment (h : SeedsFresh tables st) {f : BSIFragment}
    (hseen : Seen tables st f.key f.time) (enabled : FieldKey → Bool) (env : CallEnv)
    (start : Time) :
    SeedsFresh tables ⟨updateBSICache enabled env start f st.caches, patchForFragment env f st⟩ := by
  have hsame : ∀ k, k ≠ (f.key, f.time) →
      (updateBSICache enabled env start f st.caches).columns k = st.caches.columns k :=
    fun k hk => columns_of_bsiEntry_eq (by rw [bsiEntry_updateBSICache, if_neg hk])
  have hignored : (st.caches.bsiEntry (f.key, f.time) = none) →
      (∀ newBSI, f.data = .values newBSI →
        (f.isUpdate && !env.member (.bsi f.key f.time)) = true) →
      SeedsFresh tables ⟨updateBSICache enabled env start f st.caches, st.seedCache⟩ :=
    fun hentry hdata text entry hlookup =>
      (h text entry hlookup).of_columns fun _ _ _ _ =>
        columns_updateBSICache_ignored enabled env start hentry hdata _
  have hvalues : ∀ newBSI, f.data = .values newBSI →
      (st.caches.bsiEntry (f.key, f.time) = none →
        (f.isUpdate && !env.member (.bsi f.key f.time)) = false) →
      SeedsFresh tables ⟨updateBSICache enabled env start f st.caches,
        updateSeedCache f.key f.time (some newBSI.existence) none st.seedCache⟩ :=
    fun newBSI hdata hstored => h.update fun text entry entry' hlookup hok hupdate =>
      hok.added (hseen.seenBy hlookup) hsame
        (columns_updateBSICache_values enabled env start hdata hstored) hupdate
  fun_cases patchForFragment env f st with
  | case1 columns hentry hdata => exact hignored hentry fun _ heq => nomatch hdata.symm.trans heq
  | case2 columns b hentry hdata =>
    exact h.update fun text entry entry' hlookup hok hupdate =>
      hok.removed (hseen.seenBy hlookup) hsame hupdate
  | case3 newBSI hentry hdata hupdate => exact hignored hentry fun _ _ => hupdate
  | case4 newBSI hentry hdata hupdate =>
    exact hvalues newBSI hdata fun _ => Bool.eq_false_iff.mpr hupdate
  | case5 newBSI b hentry hdata =>
    exact hvalues newBSI hdata fun hnone => nomatch hentry.symm.trans hnone

theorem SeedsFresh.clearAll (h : SeedsFresh tables st) {index : String} {start stop : ℤ}
    {columns : Bitmap} (hseen : ∀ key time, key.index = index → ¬ (time < start ∨ time > stop) →
      st.caches.columns (key, time) ∩ columns ≠ ∅ → Seen tables st key time)
    (enabled : FieldKey → Bool) (env : CallEnv) (now : Time) :
    SeedsFresh tables ⟨clearAll enabled env now index start stop columns st.caches,
      st.seedCache.updateAll (clearAllSeed env index start stop columns st.caches)⟩ := by
  refine h.update fun text entry entry' hlookup hok hupdate => ?_
  rcases clearAllSeed_cases hupdate with ⟨rfl, hout⟩
  refine hok.of_columns fun tq time hquantum hcounts => ?_
  unfold CacheState.columns
  rw [bsiEntry_clearAll]
  split_ifs with hk
  · have hnone : st.caches.columns (entry'.key, time) ∩ columns = ∅ := by
      by_contra hclear
      exact hout hk.1 time hk.2 hclear
        (hseen _ _ hk.1 hk.2 hclear text _ tq hlookup rfl hquantum hcounts)
    unfold CacheState.columns at hnone
    cases hentry : st.caches.bsiEntry (entry'.key, time) with
    | none => rfl
    | some b =>
      rw [hentry, Option.elim_some] at hnone
      rw [Option.map_some, clearedShard, if_pos hnone]
  · rfl

theorem SeedsFresh.truncate (h : SeedsFresh tables st) (index : String) :
    SeedsFresh tables ⟨truncate index st.caches,
      st.seedCache.updateAll (fun e => if e.key.index = index then none else some e)⟩ := by
  refine h.update fun text entry entry' hlookup hok hupdate => ?_
  split_ifs at hupdate with hindex
  cases hupdate
  refine hok.of_columns fun tq time _ _ => columns_of_bsiEntry_eq ?_
  simp [bsiEntry, Server.truncate, hindex]

theorem columns_setShard (s : CacheState) (key : FieldKey) (time : ℤ) (b : BSIBitmap)
    (k : FieldKey × ℤ) :
    (setShard key time b s).columns k =
      if k = (key, time) then b.contents.existence else s.columns k := by
  unfold columns
  rw [bsiEntry_setShard]
  split_ifs <;> rfl

theorem SeedsFresh.mergeBSIDiff (h : SeedsFresh tables st) {time : ℤ} {diff : Bsi} {b : BSIBitmap}
    (hb : st.caches.bsiEntry (key, time) = some b)
    (hsub : ∀ text entry tq, st.seedCache.lookup text = some entry → entry.key = key →
      fieldQuantum tables key = .ok tq → counts tq entry.window time = true →
      diff.existence ⊆ entry.bits) (now : Time) :
    SeedsFresh tables ⟨setShard key time
      { b with contents := (b.contents.clearValues diff.existence).or diff, modTime := now }
      st.caches, st.seedCache⟩ := by
  intro text entry hlookup
  have hok := h text entry hlookup
  rcases hok.fresh with ⟨tq, hquantum, hwindow, hbits⟩
  have hsame := fun k hk => (columns_setShard st.caches key time
    { b with contents := (b.contents.clearValues diff.existence).or diff, modTime := now } k).trans
      (if_neg hk)
  by_cases hcounted : entry.key = key ∧ counts tq entry.window time = true
  · rcases hcounted with ⟨rfl, hcounts⟩
    refine ⟨hok.text_eq, hok.plain, tq, hquantum, hwindow, ?_⟩
    have hcolumns : st.caches.columns (entry.key, time) = b.contents.existence := by
      rw [columns, hb]
      rfl
    rw [existenceIn_union hcounts hsame, ← hbits, Finset.union_eq_left.mpr
      (hsub text entry tq hlookup rfl hquantum hcounts)]
    rw [columns_setShard, if_pos rfl, hcolumns, existence_or, existence_clearValues,
      Finset.sdiff_union_self_eq_union]
  · refine hok.of_columns fun tq' time' hquantum' hcounts => hsame _ fun heq => ?_
    obtain rfl : tq = tq' := Except.ok.inj (hquantum.symm.trans hquantum')
    rw [Prod.mk.injEq] at heq
    exact hcounted ⟨heq.1, heq.2 ▸ hcounts⟩

/-- What a query answers, and what it leaves in the cache. -/
theorem SeedsFresh.query (h : SeedsFresh tables st) (hplain : key.Plain) (order : RangeOrder)
    (w : Window) {tq : TimeQuantum} (hquantum : fieldQuantum tables key = .ok tq) :
    (∃ count, (timeRangeExistenceWithCount tables order key w st).1 =
      .ok (existenceIn tq (w.truncate tq) st.caches key, count)) ∧
    SeedsFresh tables (timeRangeExistenceWithCount tables order key w st).2 := by
  unfold timeRangeExistenceWithCount
  rw [hquantum]
  dsimp only
  cases hcached : st.seedCache.lookup (seedCacheKey key (w.truncate tq)) with
  | some entry =>
    have hok := h _ entry hcached
    rcases seedCacheKey_inj hplain hok.plain hok.text_eq with ⟨hkey, hwindow⟩
    rcases hok.fresh with ⟨tq', hquantum', -, hbits⟩
    rw [← hkey, hquantum] at hquantum'
    obtain rfl := Except.ok.inj hquantum'
    refine ⟨⟨entry.count, ?_⟩, h⟩
    dsimp only
    rw [hbits, ← hkey, ← hwindow]
  | none =>
    have hbits : parOr (existenceBitmaps order tq (w.truncate tq) (st.caches.bsiCache key)) =
        existenceIn tq (w.truncate tq) st.caches key := by
      ext c
      rw [mem_parOr_existenceBitmaps, mem_existenceIn]
    rw [hbits]
    refine ⟨⟨_, rfl⟩, fun text entry hlookup => ?_⟩
    simp only [storeSeedBitmap, lookup_insert] at hlookup
    split_ifs at hlookup with htext
    · cases hlookup
      exact ⟨htext, hplain, tq, hquantum, w.truncate_truncate tq, rfl⟩
    · exact h text entry hlookup

theorem SeedsFresh.step (enabled : FieldKey → Bool) (h : SeedsFresh tables st) (e : SeedEvent)
    (he : SeedStepOk tables st e) : SeedsFresh tables (seedStep enabled tables st e) := by
  fun_cases seedStep enabled tables st e with
  | case1 e =>
    cases e with
    | fragment env start f => exact h.fragment he enabled env start
    | clearAll env now index start stop columns => exact h.clearAll he enabled env now
    | truncate index => exact h.truncate index
  | case3 key time b hb =>
    refine h.update fun text entry entry' hlookup hok hupdate =>
      hok.removed (Seen.seenBy he hlookup) (fun k hk => columns_of_bsiEntry_eq ?_) hupdate
    by_cases hkey : k.1 = key
    · have htime : k.2 ≠ time := fun htime => hk (Prod.ext hkey htime)
      simp [bsiEntry, hkey, htime]
    · simp [bsiEntry, hkey]
  | case5 now key time diff b hb => exact h.mergeBSIDiff hb he now
  | case6 now key time hb =>
    have hnone : (st.caches.bsiEntry (key, time)).isNone = true := by rw [hb]; rfl
    exact fun text entry hlookup => (h text entry hlookup).of_columns fun _ _ _ _ =>
      columns_setShard_empty hnone now _
  | case8 order key w =>
    cases hquantum : fieldQuantum tables key with
    | error e =>
      simp only [timeRangeExistenceWithCount, hquantum]
      exact h
    | ok tq => exact (h.query he order w hquantum).2
  | case2 | case4 | case7 => exact h

end

/-- After every run whose steps all meet their conditions, a query for the existence of a field
answers with the union of the existence bitmaps of the shards in its window at that moment. -/
theorem seed_matches_shards (enabled : FieldKey → Bool) (tables : String → Option Table)
    (es : List SeedEvent)
    (hes : Meets (seedStep enabled tables) (SeedStepOk tables) .init es) (order : RangeOrder)
    (key : FieldKey) (hplain : key.Plain) (w : Window) (tq : TimeQuantum)
    (hquantum : fieldQuantum tables key = .ok tq) :
    let st := exec (seedStep enabled tables) .init es
    ∃ count, (timeRangeExistenceWithCount tables order key w st).1 =
      .ok (existenceIn tq (w.truncate tq) st.caches key, count) := by
  have hfresh : SeedsFresh tables (exec (seedStep enabled tables) .init es) :=
    exec_induction (seedStep enabled tables) (fun _ e h he => h.step enabled e he)
      nofun hes
  exact (hfresh.query hplain order w hquantum).1

/-- The one table of the examples, without a quantum. -/
def flatTables (index : String) : Option Table :=
  if index = "orders" then
    some ⟨.none, none, ["id"], fun field => if field = "id" then some ⟨.none, true⟩ else none⟩
  else none

/-- The existence of the field is asked for a window after the time of its only shard, a row is
stored, and the same query does not find it. -/
theorem stale_seed_without_quantum :
    let key : FieldKey := ⟨"orders", "id"⟩
    let w : Window := ⟨1685577600000000000, 1685664000000000000⟩
    let store : SeedEvent := .mutation (.fragment localCall 1
      { key := key, time := 0, data := .values (empty.setValue 7 1), modTime := 0 })
    let st := exec (seedStep (fun _ => false) flatTables) .init [.query .asKept key w, store]
    (timeRangeExistenceWithCount flatTables .asKept key w st).1 = .ok (∅, 0) ∧
      (timeRangeExistenceWithCount flatTables .asKept key w { st with seedCache := ∅ }).1 =
        .ok ({7}, 1) := by
  constructor <;> decide +kernel

/-- With a window from the time of the shard on the cached union gets the row. -/
theorem seed_matches_shards_orders :
    let key : FieldKey := ⟨"orders", "id"⟩
    let w : Window := ⟨0, 86400000000000⟩
    let store : SeedEvent := .mutation (.fragment localCall 1
      { key := key, time := 0, data := .values (empty.setValue 7 1), modTime := 0 })
    let st := exec (seedStep (fun _ => false) flatTables) .init [.query .asKept key w, store]
    ∃ count, (timeRangeExistenceWithCount flatTables .asKept key w st).1 =
      .ok (existenceIn .none (w.truncate .none) st.caches key, count) := by
  intro key w store st
  have hplain : key.Plain := by
    unfold FieldKey.Plain
    decide
  refine seed_matches_shards (fun _ => false) flatTables [.query .asKept key w, store]
    ⟨hplain, ?_, trivial⟩ .asKept key hplain w .none (by decide)
  intro text entry tq hlookup _ _ _
  have hcache : (seedStep (fun _ => false) flatTables .init (.query .asKept key w)).seedCache =
      (∅ : GoMap String SeedBitmap).insert (seedCacheKey key w) ⟨key, w, ∅, 0⟩ := rfl
  rw [hcache, lookup_insert] at hlookup
  split_ifs at hlookup <;> cases hlookup
  exact ⟨le_refl 0, by decide⟩

end QuantaStream.Server
