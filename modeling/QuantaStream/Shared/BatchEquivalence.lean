import QuantaStream.Lib.ExclusiveSet
import QuantaStream.Shared.BatchBuffer

/-!
# A flush and its calls one by one

A flush sends what the buffer has merged: sets before clears, values before cleared values, and
each pending bitmap with the update flag of the call that created it.  This module compares the
contents of the server after a flush with those after each call has been sent alone, column by
column: a column of a standard field is in a set of rows, a column of a bit-sliced index has at
most one value, and every fragment acts on these independently.
-/

namespace QuantaStream.Shared

open Server List Function Option SetOp BatchCall GoMap Bsi

/-! ## The contents of a column -/

/-- The columns of an entry of the bitmap cache; a missing entry has none. -/
def bitsOf (b : Option StandardBitmap) : Bitmap := (b.map CacheEntry.contents).getD ∅

/-- The rows of a field that a column is in, in one shard. -/
def rowsOf (s : CacheState) (key : FieldKey) (time : ℤ) (column : ℕ) : Set ℕ :=
  {row | column ∈ bitsOf (s.bitmapCache ⟨key, row, time⟩)}

def valueOf (s : CacheState) (key : BSIKey) (column : ℕ) : Option ℤ :=
  (s.bsiEntry key).bind (fun b => b.contents.get? column)

/-- Two servers have the same bitmaps and the same values. -/
def SameContents (s t : CacheState) : Prop :=
  (∀ key, bitsOf (s.bitmapCache key) = bitsOf (t.bitmapCache key)) ∧
    ∀ key column, valueOf s key column = valueOf t key column

theorem sameContents_iff {s t : CacheState} :
    SameContents s t ↔ (∀ key time column, rowsOf s key time column = rowsOf t key time column) ∧
      ∀ key column, valueOf s key column = valueOf t key column := by
  refine and_congr_left fun _ => ⟨fun h key time column => ?_, fun h key => ?_⟩
  · ext row
    simp [rowsOf, h]
  · ext column
    exact Set.ext_iff.mp (h key.key key.time column) key.rowID

/-- Clears of standard bitmaps are sent as updates. -/
def ClearsAreUpdates : Fragment → Prop
  | .bitmap f => f.isClear = true → f.isUpdate = true
  | .bsi _ => True

/-- What a fragment does to the rows of a column. -/
def rowOp (key : FieldKey) (time : ℤ) (column : ℕ) : Fragment → Option (SetOp ℕ)
  | .bitmap f =>
    if f.key.key = key ∧ f.key.time = time ∧ column ∈ f.bits then
      some (if f.isClear then .clear else .add f.key.rowID f.isUpdate)
    else none
  | .bsi _ => none

/-- What a fragment does to the value of a column. -/
def valueOp (key : BSIKey) (column : ℕ) : Fragment → Option (Option ℤ)
  | .bitmap _ => none
  | .bsi f =>
    if (f.key, f.time) = key then
      match f.data with
      | .values b => (b.get? column).map some
      | .clear columns => if column ∈ columns then some none else none
    else none

/-! ## One fragment -/

variable {site : Site} {order : RangeOrder}

theorem bitsOf_clearForUpdate (now : BitmapKey → Time) (f : BitmapFragment) (s : CacheState)
    (k : BitmapKey) :
    bitsOf ((clearForUpdate now f s).bitmapCache k) =
      if f.isUpdate ∧ k.key = f.key.key ∧ k.time = f.key.time then
        bitsOf (s.bitmapCache k) \ f.bits
      else bitsOf (s.bitmapCache k) := by
  unfold clearForUpdate clearAllRows
  by_cases hupdate : f.isUpdate = true <;>
    by_cases hshard : k.key = f.key.key ∧ k.time = f.key.time <;>
    cases hb : s.bitmapCache k <;> simp [hupdate, hshard, bitsOf, hb]

theorem bitsOf_serve_bitmap {f : BitmapFragment} (hf : ClearsAreUpdates (.bitmap f))
    (s : CacheState) (k : BitmapKey) :
    bitsOf ((serve site order s (.bitmap f)).bitmapCache k) =
      if f.isClear = false ∧ k = f.key then
        bitsOf ((clearForUpdate site.now f s).bitmapCache k) ∪ f.bits
      else bitsOf ((clearForUpdate site.now f s).bitmapCache k) := by
  unfold serve
  rw [bitmapCache_updateBitmapCache]
  generalize (clearForUpdate site.now f s).bitmapCache k = b
  cases hclear : f.isClear with
  | true => simp [hf hclear]
  | false =>
    by_cases hk : k = f.key
    · cases b <;> simp [hk, mergedBitmap, mergeBitmap, hclear, bitsOf, Site.env]
    · simp [hk]

theorem rowsOf_serve (key : FieldKey) (time : ℤ) (column : ℕ) {f : Fragment}
    (hf : ClearsAreUpdates f) (s : CacheState) :
    rowsOf (serve site order s f) key time column =
      (rowOp key time column f).elim (rowsOf s key time column)
        (apply (rowsOf s key time column)) := by
  cases f with
  | bsi f => simp [serve, rowsOf, rowOp]
  | bitmap f =>
    ext row
    simp only [rowsOf, Set.mem_ofPred_eq, bitsOf_serve_bitmap hf, bitsOf_clearForUpdate, rowOp]
    by_cases hshard : f.key.key = key ∧ f.key.time = time
    · obtain ⟨rfl, rfl⟩ := hshard
      have hrow : (⟨f.key.key, row, f.key.time⟩ : BitmapKey) = f.key ↔ row = f.key.rowID :=
        ⟨congrArg BitmapKey.rowID, by rintro rfl; rfl⟩
      by_cases hcolumn : column ∈ f.bits
      · cases hclear : f.isClear with
        | true => simp [hcolumn, hf hclear, apply]
        | false =>
          cases hupdate : f.isUpdate <;> by_cases hr : row = f.key.rowID <;>
            simp [hrow, hcolumn, hr, apply]
      · by_cases hr : row = f.key.rowID <;> split_ifs <;> simp_all
    · have hne : ¬ (f.key.key = key ∧ f.key.time = time ∧ column ∈ f.bits) :=
        fun h => hshard ⟨h.1, h.2.1⟩
      have hkey : (⟨key, row, time⟩ : BitmapKey) ≠ f.key :=
        fun h => hshard ⟨by rw [← h], by rw [← h]⟩
      have hcleared : ¬ (f.isUpdate = true ∧ key = f.key.key ∧ time = f.key.time) :=
        fun h => hshard ⟨h.2.1.symm, h.2.2.symm⟩
      simp [hne, hkey, hcleared]

theorem value_cleared (b : Bsi) (columns : Bitmap) (column : ℕ) :
    (b.clearValues (b.existence ∩ columns)).get? column =
      if column ∈ columns then none else b.get? column := by
  by_cases hcolumn : column ∈ columns <;> by_cases hex : column ∈ b.existence <;>
    simp [get?_clearValues, get?_of_notMem, hcolumn, hex]

/-- A call of `updateBSICache`. -/
structure BSIUpdate where
  env : CallEnv
  start : Time
  fragment : BSIFragment

/-- What a node has of a shard: whether there is an entry, and the value of every column. -/
structure ShardValues where
  held : Bool
  value : ℕ → Option ℤ

def shardValues (k : BSIKey) (s : CacheState) : ShardValues := ⟨(s.bsiEntry k).isSome, valueOf s k⟩

/-- The last writer decides: a set overrides the values of its columns, a clear removes them.  An
update is dropped by a node that neither has the shard nor is a member for it. -/
def lastWriter (k : BSIKey) (v : ShardValues) (u : BSIUpdate) : ShardValues :=
  if (u.fragment.key, u.fragment.time) = k then
    match u.fragment.data with
    | .clear columns => { v with value := fun c => if c ∈ columns then none else v.value c }
    | .values b =>
      if u.fragment.isUpdate && !v.held && !u.env.member (.bsi k.1 k.2) then v
      else ⟨true, fun c => (b.get? c).or (v.value c)⟩
  else v

theorem shardValues_updateBSICache (enabled : FieldKey → Bool) (k : BSIKey) (s : CacheState)
    (u : BSIUpdate) : shardValues k (updateBSICache enabled u.env u.start u.fragment s) =
      lastWriter k (shardValues k s) u := by
  obtain ⟨env, start, f⟩ := u
  unfold shardValues lastWriter valueOf
  rw [bsiEntry_updateBSICache]
  by_cases hk : (f.key, f.time) = k
  · subst hk
    generalize s.bsiEntry (f.key, f.time) = b
    unfold mergedBSI
    cases f.data with
    | clear columns => cases b <;> simp [value_cleared]
    | values newBSI =>
      cases b with
      | none => cases hignored : (f.isUpdate && !env.member (.bsi f.key f.time)) <;> simp_all
      | some b => simpa using funext (get?_replace b.contents newBSI)
  · simp [hk, Ne.symm hk]

theorem valueOf_serve (key : BSIKey) (column : ℕ) (f : Fragment) (s : CacheState) :
    valueOf (serve site order s f) key column =
      (valueOp key column f).getD (valueOf s key column) := by
  cases f with
  | bitmap f => simp [serve, valueOf, valueOp, CacheState.bsiEntry]
  | bsi f =>
    have hvalues := shardValues_updateBSICache site.enabled key s ⟨site.env order, site.start, f⟩
    refine (congrFun (congrArg ShardValues.value hvalues) column).trans ?_
    simp only [lastWriter, valueOp, shardValues]
    by_cases hkey : (f.key, f.time) = key
    · cases f.data with
      | clear columns => by_cases hcolumn : column ∈ columns <;> simp [hkey, hcolumn]
      | values newBSI => cases hget : newBSI.get? column <;> simp [hkey, Site.env, hget]
    · simp [hkey]

/-! ## Lists of fragments -/

/-- The rows of a column after a list of fragments. -/
theorem rowsOf_serveAll (key : FieldKey) (time : ℤ) (column : ℕ) {fs : List Fragment}
    (hfs : ∀ f ∈ fs, ClearsAreUpdates f) (s : CacheState) :
    rowsOf (serveAll site order s fs) key time column =
      run (rowsOf s key time column) (fs.filterMap (rowOp key time column)) := by
  induction fs generalizing s with
  | nil => rfl
  | cons f fs ih =>
    have hrest := ih (fun g hg => hfs g (mem_cons_of_mem _ hg)) (serve site order s f)
    rw [serveAll, foldl_cons, ← serveAll, hrest,
      rowsOf_serve key time column (hfs f mem_cons_self), filterMap_cons]
    cases rowOp key time column f <;> rfl

/-- The value of a column after a list of fragments: the last one decides. -/
theorem valueOf_serveAll (key : BSIKey) (column : ℕ) (fs : List Fragment) (s : CacheState) :
    valueOf (serveAll site order s fs) key column =
      (fs.filterMap (valueOp key column)).getLastD (valueOf s key column) := by
  induction fs generalizing s with
  | nil => rfl
  | cons f fs ih =>
    rw [serveAll, foldl_cons, ← serveAll, ih, valueOf_serve, filterMap_cons]
    cases valueOp key column f with
    | none => rfl
    | some v => rw [getLastD_cons]; rfl

/-! ## What the buffer holds -/

/-- The update flag of the first `SetBit` call on a bitmap. -/
def firstFlag (key : BitmapKey) (calls : List BatchCall) : Option Bool :=
  calls.findSome? fun
    | .setBit k _ isUpdate => if k = key then some isUpdate else none
    | _ => none

/-- The calls on the value of a column, in call order: values, and clears as no value. -/
def valueCalls (key : BSIKey) (column : ℕ) (calls : List BatchCall) : List (Option ℤ) :=
  calls.filterMap fun
    | .setValue k c value => if k = key ∧ c = column then some (some value) else none
    | .clearValue k c => if k = key ∧ c = column then some none else none
    | _ => none

/-- The calls on the rows of a column, in call order. -/
def rowCalls (key : FieldKey) (time : ℤ) (column : ℕ) (calls : List BatchCall) : List (SetOp ℕ) :=
  calls.filterMap fun
    | .setBit k c isUpdate =>
      if k.key = key ∧ k.time = time ∧ c = column then some (.add k.rowID isUpdate) else none
    | .clearBit k c => if k.key = key ∧ k.time = time ∧ c = column then some .clear else none
    | _ => none

theorem mem_addPending {m : GoMap BitmapKey PendingBitmap} {key k : BitmapKey} {column c : ℕ}
    {isUpdate : Bool} :
    (∃ b, (addPending m key column isUpdate).lookup k = some b ∧ c ∈ b.bits) ↔
      (k = key ∧ c = column) ∨ ∃ b, m.lookup k = some b ∧ c ∈ b.bits := by
  unfold addPending
  by_cases hk : k = key
  · subst hk
    cases m.lookup k <;> simp
  · cases m.lookup key <;> simp [hk]

theorem flag_addPending (m : GoMap BitmapKey PendingBitmap) (key k : BitmapKey) (column : ℕ)
    (isUpdate : Bool) :
    ((addPending m key column isUpdate).lookup k).map PendingBitmap.isUpdate =
      ((m.lookup k).map PendingBitmap.isUpdate).or (if key = k then some isUpdate else none) := by
  unfold addPending
  by_cases hk : k = key
  · subst hk
    cases m.lookup k <;> simp
  · cases m.lookup key <;> simp [hk, Ne.symm hk]

theorem value_pending (m : GoMap BSIKey Bsi) (key k : BSIKey) (column c : ℕ) (value : ℤ) :
    ((m.insert key (((m.lookup key).getD .empty).setValue column value)).lookup k).bind
        (fun bsi => bsi.get? c) =
      if key = k ∧ column = c then some value
      else (m.lookup k).bind (fun bsi => bsi.get? c) := by
  by_cases hk : k = key
  · subst hk
    by_cases hc : c = column
    · simp [hc, get?_setValue]
    · cases m.lookup k <;> simp [get?_setValue, hc, Ne.symm hc]
  · simp [hk, Ne.symm hk]

theorem mem_clearPending {m : GoMap BSIKey Bitmap} {key k : BSIKey} {column c : ℕ} :
    (∃ columns, (m.insert key (insert column ((m.lookup key).getD ∅))).lookup k = some columns ∧
        c ∈ columns) ↔
      (∃ columns, m.lookup k = some columns ∧ c ∈ columns) ∨ (key = k ∧ column = c) := by
  by_cases hk : k = key
  · subst hk
    by_cases hc : c = column
    · simp [hc]
    · cases m.lookup k <;> simp [hc, Ne.symm hc]
  · simp [hk, Ne.symm hk]

/-- The maps of a buffer after calls that have sent nothing. -/
structure Holds (b : BatchBuffer) (calls : List BatchCall) : Prop where
  sets : ∀ k c, (∃ p, b.batchSets.lookup k = some p ∧ c ∈ p.bits) ↔
    ∃ isUpdate, .setBit k c isUpdate ∈ calls
  flag : ∀ k, (b.batchSets.lookup k).map PendingBitmap.isUpdate = firstFlag k calls
  clears : ∀ k c, (∃ p, b.batchClears.lookup k = some p ∧ c ∈ p.bits) ↔ .clearBit k c ∈ calls
  clearFlag : ∀ k p, b.batchClears.lookup k = some p → p.isUpdate = true
  values : ∀ k c, (b.batchValues.lookup k).bind (fun bsi => bsi.get? c) =
    ((valueCalls k c calls).filter isSome).getLastD none
  clearValues : ∀ k c, (∃ columns, b.batchClearValues.lookup k = some columns ∧ c ∈ columns) ↔
    none ∈ valueCalls k c calls

theorem Holds.record {b : BatchBuffer} {calls : List BatchCall} (h : Holds b calls)
    (call : BatchCall) : Holds (record b call) (calls ++ [call]) where
  sets k c := by
    cases call with
    | setBit key column isUpdate =>
      simp only [Shared.record, mem_addPending, h.sets, mem_append, mem_singleton,
        setBit.injEq]
      constructor
      · rintro (⟨rfl, rfl⟩ | ⟨u, hu⟩)
        · exact ⟨isUpdate, .inr ⟨rfl, rfl, rfl⟩⟩
        · exact ⟨u, .inl hu⟩
      · rintro ⟨u, hu | ⟨rfl, rfl, -⟩⟩
        · exact .inr ⟨u, hu⟩
        · exact .inl ⟨rfl, rfl⟩
    | _ => simpa [Shared.record] using h.sets k c
  flag k := by
    cases call with
    | setBit key column isUpdate =>
      simp only [Shared.record, flag_addPending, h.flag, firstFlag, findSome?_append,
        findSome?_singleton]
    | _ => simpa [Shared.record, firstFlag] using h.flag k
  clears k c := by
    cases call with
    | clearBit key column =>
      simp only [Shared.record, mem_addPending, h.clears, mem_append, mem_singleton,
        clearBit.injEq]
      exact Or.comm
    | _ => simpa [Shared.record] using h.clears k c
  clearFlag k p hp := by
    cases call with
    | clearBit key column =>
      have hflag := flag_addPending b.batchClears key k column true
      simp only [Shared.record] at hp
      rw [hp] at hflag
      cases hold : b.batchClears.lookup k with
      | none => grind
      | some p' =>
        have := h.clearFlag k p' hold
        simpa [hold, this] using hflag
    | _ => exact h.clearFlag k p hp
  values k c := by
    cases call with
    | setValue key column | clearValue key column =>
      simp only [Shared.record, value_pending, h.values, valueCalls, filterMap_append,
        filter_append, filterMap_cons, filterMap_nil]
      by_cases hkc : key = k ∧ column = c <;> simp [hkc]
    | _ => simpa [Shared.record, valueCalls] using h.values k c
  clearValues k c := by
    cases call with
    | clearValue key column =>
      simp only [Shared.record, mem_clearPending, h.clearValues, valueCalls,
        filterMap_append, mem_append, filterMap_cons, filterMap_nil]
      by_cases hkc : key = k ∧ column = c <;> simp [hkc]
    | _ => simpa [Shared.record, valueCalls] using h.clearValues k c

/-- What a new buffer holds after calls that have sent nothing. -/
theorem holds_foldl_record (batchSize : ℕ) (calls : List BatchCall) :
    Holds (calls.foldl record (newBatchBuffer batchSize)) calls := by
  induction calls using reverseRecOn with
  | nil =>
    refine ⟨fun k c => ?_, fun k => ?_, fun k c => ?_, nofun, fun k c => ?_, fun k c => ?_⟩ <;>
      simp [newBatchBuffer, firstFlag, valueCalls]
  | append_singleton calls call ih =>
    rw [foldl_append]
    exact ih.record call

/-! ## The changes a flush makes to a column -/

section

variable {b : BatchBuffer} {calls : List BatchCall}

/-- The sets of a flush that change a column. -/
def flushSets (order : RangeOrder) (modTime : Time) (b : BatchBuffer) (key : FieldKey) (time : ℤ)
    (column : ℕ) : List (SetOp ℕ) :=
  (batchMutate order modTime b.batchSets false).filterMap (rowOp key time column)

/-- The clears of a flush that change a column. -/
def flushClears (order : RangeOrder) (modTime : Time) (b : BatchBuffer) (key : FieldKey)
    (time : ℤ) (column : ℕ) : List (SetOp ℕ) :=
  (batchMutate order modTime b.batchClears true).filterMap (rowOp key time column)

variable {key : FieldKey} {column : ℕ} {time : ℤ}

theorem mem_rowOps {order : RangeOrder} {modTime : Time} {batch : GoMap BitmapKey PendingBitmap}
    {isClear : Bool} {op : SetOp ℕ} :
    op ∈ (batchMutate order modTime batch isClear).filterMap (rowOp key time column) ↔
      ∃ row p, batch.lookup ⟨key, row, time⟩ = some p ∧ column ∈ p.bits ∧
        op = if isClear then .clear else .add row p.isUpdate := by
  simp only [batchMutate, filterMap_map, mem_filterMap, comp_apply, rowOp]
  constructor
  · rintro ⟨⟨k, p⟩, hmem, hop⟩
    split_ifs at hop with hk hclear
    all_goals
      rcases hk with ⟨rfl, rfl, hcolumn⟩
      exact ⟨k.rowID, p, mem_range.mp hmem, hcolumn, by simpa [hclear] using hop.symm⟩
  · rintro ⟨row, p, hlookup, hcolumn, rfl⟩
    exact ⟨⟨⟨key, row, time⟩, p⟩, mem_range.mpr hlookup, by simp [hcolumn]⟩

theorem mem_rowCalls {op : SetOp ℕ} :
    op ∈ rowCalls key time column calls ↔ ∃ row,
      (∃ isUpdate, .setBit ⟨key, row, time⟩ column isUpdate ∈ calls ∧ op = .add row isUpdate) ∨
        .clearBit ⟨key, row, time⟩ column ∈ calls ∧ op = .clear := by
  simp only [rowCalls, mem_filterMap]
  constructor
  · rintro ⟨call, hcall, hop⟩
    cases call with
    | setBit k c isUpdate | clearBit k c =>
      dsimp only at hop
      split_ifs at hop with hk
      rcases hk with ⟨rfl, rfl, rfl⟩
      cases hop
      exact ⟨k.rowID, by simp [hcall]⟩
    | setValue k c v | clearValue k c => cases hop
  · rintro ⟨row, ⟨u, hcall, rfl⟩ | ⟨hcall, rfl⟩⟩ <;> exact ⟨_, hcall, by simp⟩

theorem mem_adds_rowCalls {row : ℕ} :
    row ∈ adds (rowCalls key time column calls) ↔
      ∃ isUpdate, .setBit ⟨key, row, time⟩ column isUpdate ∈ calls := by
  simp [adds, mem_rowCalls]

theorem clear_mem_rowCalls :
    .clear ∈ rowCalls key time column calls ↔
      ∃ row, .clearBit ⟨key, row, time⟩ column ∈ calls := by
  simp [mem_rowCalls]

variable {modTime : Time}

theorem distinct_flushSets : Distinct (flushSets order modTime b key time column) := by
  have hnodup := b.batchSets.range_nodup order
  rw [Nodup, pairwise_map] at hnodup
  unfold flushSets batchMutate Distinct
  rw [filterMap_map, pairwise_filterMap]
  refine hnodup.imp ?_
  rintro ⟨⟨k, row, t⟩, p⟩ ⟨⟨k', row', t'⟩, p'⟩ hne op hop op' hop' a x y rfl rfl
  simp only [comp_apply, rowOp, ite_none_right_eq_some, Bool.false_eq_true,
    if_false, some.injEq, add.injEq] at hop hop'
  rcases hop with ⟨⟨rfl, rfl, -⟩, rfl, -⟩
  rcases hop' with ⟨⟨rfl, rfl, -⟩, rfl, -⟩
  exact hne rfl

/-- The sets of a flush add the rows of the `SetBit` calls, with the flags of the buffer. -/
theorem mem_flushSets (h : Holds b calls) {row : ℕ} {x : Bool} :
    .add row x ∈ flushSets order modTime b key time column ↔
      row ∈ adds (rowCalls key time column calls) ∧
        firstFlag ⟨key, row, time⟩ calls = some x := by
  rw [flushSets, mem_rowOps, mem_adds_rowCalls, ← h.sets, ← h.flag]
  simp only [Bool.false_eq_true, if_false, add.injEq]
  constructor
  · rintro ⟨row', p, hlookup, hcolumn, rfl, rfl⟩
    exact ⟨⟨p, hlookup, hcolumn⟩, by rw [hlookup]; rfl⟩
  · rintro ⟨⟨p, hlookup, hcolumn⟩, hflag⟩
    rw [hlookup] at hflag
    exact ⟨row, p, hlookup, hcolumn, rfl, (some.inj hflag).symm⟩

/-- The rows of a shard whose pending bitmap is marked as an update: the first `SetBit` call on
it was one. -/
def updateRows (key : FieldKey) (time : ℤ) (calls : List BatchCall) : Set ℕ :=
  {row | firstFlag ⟨key, row, time⟩ calls = some true}

variable (order : RangeOrder) (modTime : Time) (key : FieldKey) (time : ℤ) (column : ℕ)

theorem clear_notMem_flushSets : .clear ∉ flushSets order modTime b key time column := by
  intro h
  rcases mem_rowOps.mp h with ⟨row, p, -, -, hop⟩
  simp at hop

theorem adds_flushSets (h : Holds b calls) :
    adds (flushSets order modTime b key time column) =
      adds (rowCalls key time column calls) := by
  ext row
  constructor
  · rintro ⟨x, hx⟩
    exact ((mem_flushSets h).mp hx).1
  · intro hrow
    have hset := mem_adds_rowCalls.mp hrow
    rw [← h.sets] at hset
    rcases hset with ⟨p, hlookup, -⟩
    refine ⟨p.isUpdate, (mem_flushSets h).mpr ⟨hrow, ?_⟩⟩
    rw [← h.flag, hlookup]
    rfl

theorem hasExclusive_flushSets (h : Holds b calls) :
    HasExclusive (flushSets order modTime b key time column) ↔
      (adds (rowCalls key time column calls) ∩ updateRows key time calls).Nonempty :=
  exists_congr fun _ => mem_flushSets h

theorem flushClears_ne_nil_iff (h : Holds b calls) :
    flushClears order modTime b key time column ≠ [] ↔
      .clear ∈ rowCalls key time column calls := by
  rw [clear_mem_rowCalls]
  constructor
  · intro hne
    rcases exists_mem_of_ne_nil _ hne with ⟨op, hop⟩
    rcases mem_rowOps.mp hop with ⟨row, p, hlookup, hcolumn, -⟩
    exact ⟨row, (h.clears _ _).mp ⟨p, hlookup, hcolumn⟩⟩
  · rintro ⟨row, hcall⟩
    rcases (h.clears _ _).mpr hcall with ⟨p, hlookup, hcolumn⟩
    exact ne_nil_of_mem (mem_rowOps.mpr ⟨row, p, hlookup, hcolumn, rfl⟩)

theorem rowOps_flushFragments :
    (flushFragments order modTime b).filterMap (rowOp key time column) =
      flushSets order modTime b key time column ++ flushClears order modTime b key time column := by
  simp [flushFragments, flushSets, flushClears, batchSetValue, batchClearValue, filterMap_map,
    comp_def, rowOp]

/-- The changes of a flush to the value of a column: the stored value and then the clear. -/
theorem valueOps_flushFragments (k : BSIKey) :
    (flushFragments order modTime b).filterMap (valueOp k column) =
      (((b.batchValues.lookup k).bind (fun bsi => bsi.get? column)).map some).toList ++
        ((b.batchClearValues.lookup k).bind
          (fun columns => if column ∈ columns then some none else none)).toList := by
  have hbitmaps : ∀ batch isClear,
      (batchMutate order modTime batch isClear).filterMap (valueOp k column) = [] := by
    simp [batchMutate, filterMap_map, comp_def, valueOp]
  simp only [flushFragments, filterMap_append, hbitmaps, nil_append]
  refine congrArg₂ (· ++ ·) ?_ ?_
  · rw [map_bind, ← filterMap_range _ order, batchSetValue, filterMap_map,
      filterMap_filter]
    refine filterMap_congr fun e _ => ?_
    by_cases hempty : e.2.existence = ∅
    · simp [hempty, get?]
    · simp [hempty, valueOp]
  · rw [← filterMap_range _ order, batchClearValue, filterMap_map]
    exact filterMap_congr fun e _ => by simp [valueOp]

end

/-! ## When a flush leaves what its calls leave -/

/-- The condition on the rows of a column, from the rows before, the calls on the column and the
rows whose pending bitmap is marked as an update. -/
@[mk_iff]
structure RowsAgree (kept : Set ℕ) (rows : Set ℕ) (ops : List (SetOp ℕ)) : Prop where
  /-- A column that is cleared at all is cleared last. -/
  clear : .clear ∈ ops → ops.getLast? = some .clear
  /-- If a pending bitmap of the column is an update, the column is set in one row, and some call
  on it is an update or it was in no other row before. -/
  update : .clear ∉ ops → (adds ops ∩ kept).Nonempty →
    (∃ row, adds ops = {row}) ∧ (HasExclusive ops ∨ rows ⊆ adds ops)
  /-- If no pending bitmap of the column is an update but some call on it is, all rows it is in
  before or is set in are set from the last such call on. -/
  merged : .clear ∉ ops → adds ops ∩ kept = ∅ → HasExclusive ops →
    rows ∪ adds ops ⊆ sinceExclusive ops

/-- The condition on the value of a column: if it is cleared at all, it is cleared last. -/
def ValuesAgree (ops : List (Option ℤ)) : Prop := none ∈ ops → ops.getLast? = some none

section

variable {b : BatchBuffer} {calls : List BatchCall}

theorem rows_agree_iff (modTime : Time) (key : FieldKey) (time : ℤ) (column : ℕ)
    (h : Holds b calls) (rows : Set ℕ) :
    (∀ order, run rows (flushSets order modTime b key time column ++
        flushClears order modTime b key time column) =
      run rows (rowCalls key time column calls)) ↔
    RowsAgree (updateRows key time calls) rows (rowCalls key time column calls) := by
  have hadds := fun order => adds_flushSets order modTime key time column h
  have hexcl := fun order => hasExclusive_flushSets order modTime key time column h
  have hnoClear := fun order => clear_notMem_flushSets (b := b) order modTime key time column
  have hclears := fun order => flushClears_ne_nil_iff order modTime key time column h
  generalize hops : rowCalls key time column calls = ops at hadds hexcl hclears ⊢
  generalize updateRows key time calls = kept at hexcl ⊢
  by_cases hclear : .clear ∈ ops
  · have hflush : ∀ order, run rows (flushSets order modTime b key time column ++
        flushClears order modTime b key time column) = ∅ := by
      intro order
      rw [run_append]
      refine run_of_clears (fun op hop => ?_) ((hclears order).mpr hclear)
      rcases mem_rowOps.mp hop with ⟨row, p, -, -, heq⟩
      exact heq
    have hrun : (∀ _ : RangeOrder, ∅ = run rows ops) ↔ run rows ops = ∅ :=
      ⟨fun h => (h .asKept).symm, fun h _ => h.symm⟩
    simp [rowsAgree_iff, hflush, hrun, run_eq_empty_iff hclear, hclear]
  · have hnil : ∀ order, flushClears order modTime b key time column = [] := by
      intro order
      by_contra hne
      exact hclear ((hclears order).mp hne)
    simp only [hnil, append_nil, rowsAgree_iff, hclear, false_imp_iff, not_false_iff, true_imp_iff,
      true_and]
    by_cases hkept : (adds ops ∩ kept).Nonempty
    · simp only [hkept, hkept.ne_empty, true_imp_iff, false_imp_iff, and_true]
      constructor
      · intro hrun
        -- The order of the loop matters as soon as the column is in two pending bitmaps.
        have hboth := (hrun .asKept).trans (hrun .backwards).symm
        simp only [flushSets, batchMutate, range_backwards, map_reverse,
          filterMap_reverse] at hboth
        rcases eq_singleton_of_run_reverse (hnoClear .asKept)
          distinct_flushSets ((hexcl .asKept).mpr hkept) hboth
          with ⟨row, hrow⟩
        have hsingle : adds ops = {row} := by
          rw [← hadds .asKept, hrow]
          ext a
          simp [mem_adds_cons]
        refine ⟨⟨row, hsingle⟩, ?_⟩
        by_cases hupdate : HasExclusive ops
        · exact .inl hupdate
        · have hleft := hrun .asKept
          rw [hrow, run_of_noExclusive hclear hupdate, hsingle] at hleft
          rw [hsingle]
          exact .inr (Set.union_eq_right.mp hleft.symm)
      · rintro ⟨⟨row, hsingle⟩, hupdate⟩ order
        rw [run_eq_singleton (hnoClear order) ((hexcl order).mpr hkept)
          ((hadds order).trans hsingle)]
        by_cases hexclOps : HasExclusive ops
        · rw [run_eq_singleton hclear hexclOps hsingle]
        · have hrows := hupdate.resolve_left hexclOps
          rw [run_of_noExclusive hclear hexclOps, Set.union_eq_right.mpr hrows, hsingle]
    · have hempty : adds ops ∩ kept = ∅ := Set.not_nonempty_iff_eq_empty.mp hkept
      have hflush : ∀ order, run rows (flushSets order modTime b key time column) =
          rows ∪ adds ops := by
        intro order
        rw [run_of_noExclusive (hnoClear order) (fun he => hkept ((hexcl order).mp he)),
          hadds]
      simp only [hflush, hempty, Set.not_nonempty_empty, false_imp_iff, true_imp_iff, true_and]
      by_cases hupdate : HasExclusive ops
      · rw [run_of_exclusive hclear hupdate]
        refine ⟨fun hrun _ => (hrun .asKept).subset, fun hagree _ => (hagree hupdate).antisymm ?_⟩
        exact (sinceExclusive_subset_adds ops).trans Set.subset_union_right
      · rw [run_of_noExclusive hclear hupdate]
        exact iff_of_true (fun _ => rfl) fun hu => absurd hu hupdate

theorem values_agree_iff (order : RangeOrder) (modTime : Time) (key : BSIKey) (column : ℕ)
    (h : Holds b calls) (v : Option ℤ) :
    ((flushFragments order modTime b).filterMap (valueOp key column)).getLastD v =
        (valueCalls key column calls).getLastD v ↔
      ValuesAgree (valueCalls key column calls) := by
  rw [valueOps_flushFragments, h.values]
  have hclears := h.clearValues key column
  generalize valueCalls key column calls = ops at hclears ⊢
  by_cases hclear : none ∈ ops
  · rcases hclears.mpr hclear with ⟨columns, hlookup, hcolumn⟩
    rw [hlookup, bind_some, if_pos hcolumn, toList_some, getLastD_concat, ValuesAgree]
    rcases eq_nil_or_concat ops with rfl | ⟨pre, last, rfl⟩
    · exact absurd hclear not_mem_nil
    · simp only [concat_eq_append, getLastD_concat, getLast?_concat,
        some.injEq, concat_eq_append ▸ hclear, true_implies]
      exact eq_comm
  · have hall : ops.filter isSome = ops := by
      refine filter_eq_self.mpr fun op hop => isSome_iff_ne_none.mpr ?_
      rintro rfl
      exact hclear hop
    rw [bind_eq_none_iff.mpr fun columns hlookup => if_neg fun hcolumn =>
      hclear (hclears.mp ⟨columns, hlookup, hcolumn⟩), hall, toList_none, append_nil]
    refine iff_of_true ?_ fun hc => absurd hc hclear
    rcases eq_nil_or_concat ops with rfl | ⟨pre, last, rfl⟩
    · rfl
    · cases last with
      | none => exact absurd (by simp) hclear
      | some x => simp

end

theorem rowOps_calls (modTime : Time) (key : FieldKey) (time : ℤ) (column : ℕ)
    (calls : List BatchCall) :
    (calls.map (fragment modTime)).filterMap (rowOp key time column) =
      rowCalls key time column calls := by
  rw [filterMap_map, rowCalls]
  refine filterMap_congr fun call _ => ?_
  cases call <;> simp [fragment, rowOp, eq_comm]

theorem valueOps_calls (modTime : Time) (key : BSIKey) (column : ℕ) (calls : List BatchCall) :
    (calls.map (fragment modTime)).filterMap (valueOp key column) =
      valueCalls key column calls := by
  rw [filterMap_map, valueCalls]
  refine filterMap_congr fun call _ => ?_
  cases call with
  | setBit k c isUpdate | clearBit k c => rfl
  | setValue k c | clearValue k c =>
    by_cases hk : k = key <;> by_cases hc : column = c <;>
      simp [fragment, valueOp, get?_setValue, hk, hc, Ne.symm]

theorem clearsAreUpdates_calls (modTime : Time) (calls : List BatchCall) :
    ∀ f ∈ calls.map (fragment modTime), ClearsAreUpdates f := by
  intro f hf
  rcases mem_map.mp hf with ⟨call, -, rfl⟩
  cases call <;> simp [fragment, ClearsAreUpdates]

theorem clearsAreUpdates_flush {b : BatchBuffer} {calls : List BatchCall} (h : Holds b calls)
    (order : RangeOrder) (modTime : Time) :
    ∀ f ∈ flushFragments order modTime b, ClearsAreUpdates f := by
  intro f hf
  simp only [flushFragments, batchMutate, batchSetValue, batchClearValue, mem_append,
    List.mem_map] at hf
  rcases hf with ((⟨e, -, rfl⟩ | ⟨e, he, rfl⟩) | ⟨e, -, rfl⟩) | ⟨e, -, rfl⟩
  · simp [ClearsAreUpdates]
  · intro _
    exact h.clearFlag e.1 e.2 (mem_range.mp he)
  · trivial
  · trivial

/-- A flush leaves the contents that its calls leave when they are sent one by one, whatever the
order of its loops, exactly if the calls on each column agree with the phases of the flush. -/
theorem flush_eq_callwise_iff (site : Site) (batchSize : ℕ) (calls : List BatchCall)
    (s : CacheState) (hroom : HasRoom (newBatchBuffer batchSize) calls) :
    (∀ order, SameContents (buffered site order batchSize calls s) (callwise site order calls s)) ↔
      (∀ key time column, RowsAgree (updateRows key time calls) (rowsOf s key time column)
        (rowCalls key time column calls)) ∧
      ∀ key column, ValuesAgree (valueCalls key column calls) := by
  have hholds := holds_foldl_record batchSize calls
  have hbuffered : ∀ order, buffered site order batchSize calls s =
      serveAll site order s
        (flushFragments order site.start (calls.foldl record (newBatchBuffer batchSize))) := by
    intro order
    simp only [buffered, exec_of_hasRoom site order hroom, flush]
  generalize calls.foldl record (newBatchBuffer batchSize) = b at hholds hbuffered
  have hrows : ∀ order key time column,
      rowsOf (buffered site order batchSize calls s) key time column =
          rowsOf (callwise site order calls s) key time column ↔
        run (rowsOf s key time column) (flushSets order site.start b key time column ++
            flushClears order site.start b key time column) =
          run (rowsOf s key time column) (rowCalls key time column calls) := by
    intro order key time column
    rw [hbuffered, callwise,
      rowsOf_serveAll key time column (clearsAreUpdates_flush hholds order site.start),
      rowsOf_serveAll key time column (clearsAreUpdates_calls site.start calls),
      rowOps_flushFragments, rowOps_calls]
  have hvalues : ∀ order key column,
      valueOf (buffered site order batchSize calls s) key column =
          valueOf (callwise site order calls s) key column ↔
        ValuesAgree (valueCalls key column calls) := by
    intro order key column
    rw [hbuffered, callwise, valueOf_serveAll, valueOf_serveAll, valueOps_calls]
    exact values_agree_iff order site.start key column hholds _
  simp only [sameContents_iff, hrows, hvalues, ← rows_agree_iff site.start _ _ _ hholds]
  constructor
  · intro hsame
    exact ⟨fun key time column order => (hsame order).1 key time column, (hsame .asKept).2⟩
  · intro hagree order
    exact ⟨fun key time column => hagree.1 key time column order, hagree.2⟩

/-! ## Instances -/

def plainSite : Site where
  enabled _ := false
  ownership _ := ⟨false, fun _ => false⟩
  start := 1
  now _ := 1

def stateRow : BitmapKey := ⟨⟨"users", "state"⟩, 7, 0⟩

def setThenClear : List BatchCall := [.setBit stateRow 1 false, .clearBit stateRow 1]

def clearThenSet : List BatchCall := [.clearBit stateRow 1, .setBit stateRow 1 false]

/-- A set followed by a clear is sent in that order. -/
theorem setThenClear_agrees :
    HasRoom (newBatchBuffer 10) setThenClear ∧
      ∀ order, SameContents (buffered plainSite order 10 setThenClear .init)
        (callwise plainSite order setThenClear .init) := by
  refine ⟨?room, (flush_eq_callwise_iff plainSite 10 setThenClear .init ?room).mpr
    ⟨fun key time column => ?_, fun key column => nofun⟩⟩
  case room => constructor <;> decide
  simp only [rowCalls, setThenClear, filterMap_cons, filterMap_nil]
  split_ifs
  · exact ⟨fun _ => rfl, fun h => absurd (by simp) h, fun h => absurd (by simp) h⟩
  · exact ⟨nofun, fun _ h => absurd h (by simp [adds_nil]),
      fun _ _ h => absurd h (by simp [HasExclusive])⟩

/-- The last call sets the column, and the flush leaves it cleared. -/
theorem clearThenSet_lost :
    1 ∈ bitsOf ((callwise plainSite .asKept clearThenSet .init).bitmapCache stateRow) ∧
      1 ∉ bitsOf ((buffered plainSite .asKept 10 clearThenSet .init).bitmapCache stateRow) := by
  decide

end QuantaStream.Shared
