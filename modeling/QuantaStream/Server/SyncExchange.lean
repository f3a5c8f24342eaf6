import Mathlib.Algebra.BigOperators.Group.Finset.Basic
import QuantaStream.Server.BitmapCache
import QuantaStream.Shared.Membership

/-!
# Exchanging the contents of a shard

A node pushes to a joining node what that node lacks of the shards it is to hold.  For each shard
the joining node first compares summaries: cardinality, sum of the values and time of the last
change.  Only if they differ are the contents compared, and then only the columns that are stored:
columns the joining node does not have are sent to it, columns the pushing node does not have are
merged into its own shard.

The halves of `Synchronize` for bit-sliced shards and for standard bitmaps differ in what they
check before a shard is looked at and in how contents are merged; `ShardKind` holds what they
do differently.
-/

namespace QuantaStream.Server

open Shared Bsi

variable {Node K β : Type} [DecidableEq Node]

/-! ## Placement -/

/-- What places shard keys on nodes: the ranking of the hash table, the number of replicas, and the
states of the nodes. -/
structure Ring (Node : Type) where
  getN : ℕ → ShardKey → List Node
  replicas : ℕ
  nodeStatus : Node → Option NodeState

def Ring.replicasOf (ring : Ring Node) (key : ShardKey) : List Node :=
  ring.getN ring.replicas key

/-- `CheckNodeForKey`: whether a node that takes part is a replica of the key, and which one. -/
def Ring.checkNodeForKey (ring : Ring Node) (key : ShardKey) (nodeID : Node) : Bool × ℕ :=
  if nodeID ∈ ring.replicasOf key then
    match ring.nodeStatus nodeID with
    | none => (false, 0)
    | some state =>
      if state ≠ .active ∧ state ≠ .syncing then (false, 0)
      else (true, (ring.replicasOf key).idxOf nodeID + 1)
  else (false, 0)

/-! ## Fields -/

/-- What is read of the configuration of a field and its table: how values are mapped, the time
quantum of the table, and the result of `GetPrimaryKeyInfo`. -/
structure FieldConfig where
  mappingStrategy : String
  timeQuantumType : String
  primaryKeyInfo : Except String (List String)

def FieldConfig.isBSI (c : FieldConfig) : Bool :=
  c.mappingStrategy ∈ ["IntBSI", "FloatScaleBSI", "TimestampBSI", "TimeStampBSI", "SysMillisBSI",
    "SysMicroBSI", "SysSecBSI", "StringLexBSI", "UUIDBSI", "CustomBSI", "ParentRelation"]

/-- The errors of `SyncStatus`. -/
inductive StatusError where
  | indexNotSpecified
  | fieldNotSpecified
  | noFieldConfig (field : FieldKey)
  | timeNotSpecified (index : String)
  deriving DecidableEq, Repr

/-- How `Synchronize` ends without a result. -/
inductive SyncError where
  | primaryKeyInfo (field : FieldKey) (err : String)
  | status (err : StatusError)
  | response (field : FieldKey)
  | cacheItemMissing (field : FieldKey)
  /-- The lookup of a mapping or a primary key that is not there. -/
  | panicked (field : FieldKey)
  deriving DecidableEq, Repr

/-! ## Shards of both kinds -/

/-- What merging a pushed fragment reads on the joining node. -/
structure PushEnv where
  call : CallEnv
  enabled : FieldKey → Bool
  pushedAt : ShardKey → Time

/-- The rows of a shard that may be absent. -/
def rows (get? : β → ℕ → Option ℤ) (e : Option (CacheEntry β)) (c : ℕ) : Option ℤ :=
  e.bind fun e => get? e.contents c

/-- What the two halves of `Synchronize` do differently. -/
structure ShardKind (K β : Type) where
  isBSI : Bool
  shardKey : K → ShardKey
  field : K → FieldKey
  time : K → ℤ
  lookup : CacheState → K → Option (CacheEntry β)
  store : K → CacheEntry β → CacheState → CacheState
  columns : β → Finset ℕ
  get? : β → ℕ → Option ℤ
  empty : β
  /-- The checksum of the contents. -/
  checksum : β → ℤ
  /-- The contents in some columns. -/
  retain : β → Finset ℕ → β
  /-- The contents with others merged into them. -/
  join : β → β → β
  /-- Whether the shards of a field are looked at. -/
  visits : FieldKey → Option FieldConfig → Except SyncError Bool
  /-- The effect of a pushed difference on the joining node. -/
  push : PushEnv → K → β → CacheState → CacheState
  mem_columns : ∀ b c, c ∈ columns b ↔ (get? b c).isSome
  get?_empty : ∀ c, get? empty c = none
  get?_retain : ∀ b s c, get? (retain b s) c = if c ∈ s then get? b c else none
  get?_join : ∀ b d c, get? (join b d) c = (get? d c).or (get? b c)
  lookup_store_self : ∀ k e s, lookup (store k e s) k = some e
  lookup_store_of_ne : ∀ k e s k', k' ≠ k → lookup (store k e s) k' = lookup s k'
  lookup_push_of_ne : ∀ env k d s k', k' ≠ k → lookup (push env k d s) k' = lookup s k'
  rows_push : ∀ env k d s c,
    rows get? (lookup (push env k d s) k) c = (get? d c).or (rows get? (lookup s k) c)

/-! ## The handshake -/

/-- `SyncStatusRequest` for a shard. -/
structure SyncStatusRequest (K : Type) where
  key : K
  cardinality : ℕ
  bsiChecksum : ℤ
  modTime : Time
  sendData : Bool

structure SyncStatusResponse (β : Type) where
  ok : Bool := false
  cardinality : ℕ := 0
  bsiChecksum : ℤ := 0
  modTime : Time := 0
  data : Option β := none

def skew (a b : Time) : ℕ := if b < a then a - b else b - a

variable (kind : ShardKind K β)

/-- A request agrees with a shard in cardinality and checksum, and the times differ by less than
100 milliseconds. -/
def ShardKind.agrees (req : SyncStatusRequest K) (v : CacheEntry β) : Bool :=
  (kind.columns v.contents).card = req.cardinality ∧ kind.checksum v.contents = req.bsiChecksum ∧
    skew v.modTime req.modTime / 1000000 < 100

/-- `SyncStatus` on the joining node. -/
def syncStatus (schema : FieldKey → Option FieldConfig)
    (s : CacheState) (req : SyncStatusRequest K) : Except StatusError (SyncStatusResponse β) :=
  let field := kind.field req.key
  if field.index = "" then .error .indexNotSpecified
  else if field.field = "" then .error .fieldNotSpecified
  else
    match schema field with
    | none => .error (.noFieldConfig field)
    | some attr =>
      if attr.timeQuantumType ≠ "" ∧ kind.time req.key = 0 then
        .error (.timeNotSpecified field.index)
      else
        match kind.lookup s req.key with
        | none => .ok {}
        | some v =>
          let ok := kind.agrees req v
          .ok
            { ok := ok
              cardinality := (kind.columns v.contents).card
              bsiChecksum := kind.checksum v.contents
              modTime := v.modTime
              data := if !ok && req.sendData then some v.contents else none }

/-! ## The flow -/

/-- Both nodes during a synchronization, and the number of differences so far. -/
structure SyncState where
  pushing : CacheState
  joining : CacheState
  differences : ℕ := 0

/-- What a synchronization reads besides the caches. -/
structure SyncEnv (Node : Type) where
  schema : FieldKey → Option FieldConfig
  ring : Ring Node
  nodeID : Node
  push : PushEnv
  mergedAt : ShardKey → Time

def ShardKind.request (e : K × CacheEntry β) : SyncStatusRequest K where
  key := e.1
  cardinality := (kind.columns e.2.contents).card
  bsiChecksum := kind.checksum e.2.contents
  modTime := e.2.modTime
  sendData := true

/-- The contents sent with a response. -/
def ShardKind.received (k : K) (res : SyncStatusResponse β) : Except SyncError β :=
  if 0 < res.cardinality then
    match res.data with
    | none => .error (.response (kind.field k))
    | some data => .ok data
  else .ok kind.empty

/-- `mergeBSIDiff` and `mergeBitmapDiff`. -/
def ShardKind.mergeDiff (now : Time) (k : K) (diff : β) (s : CacheState) :
    Except SyncError CacheState :=
  match kind.lookup s k with
  | none => .error (.cacheItemMissing (kind.field k))
  | some e =>
    .ok (kind.store k { e with contents := kind.join e.contents diff, modTime := now } s)

/-- The columns to be pulled.  They are dropped if the joining node has the older shard, or if the
shard should not stay here. -/
def ShardKind.pullDiff (kind : ShardKind K β) (e : CacheEntry β) (res : SyncStatusResponse β)
    (remote : β) (foundLocal : Bool) : Finset ℕ :=
  let pullDiff := kind.columns remote \ kind.columns e.contents
  if res.modTime < e.modTime then ∅
  else if pullDiff ≠ ∅ ∧ foundLocal = false then ∅
  else pullDiff

/-- Send a difference, if there is one. -/
def ShardKind.pushDiff (env : PushEnv) (e : K × CacheEntry β)
    (diff : Finset ℕ) (s : SyncState) : SyncState :=
  if diff = ∅ then s
  else
    { s with
      joining := kind.push env e.1 (kind.retain e.2.contents diff) s.joining
      differences := s.differences + 1 }

/-- Merge a difference into the own shard, if there is one. -/
def ShardKind.pull (now : Time) (k : K) (remote : β) (diff : Finset ℕ)
    (s : SyncState) : Except SyncError SyncState :=
  if diff = ∅ then .ok s
  else
    (kind.mergeDiff now k (kind.retain remote diff) s.pushing).map fun pushing =>
      { s with pushing := pushing, differences := s.differences + 1 }

/-- The part of the loop body that follows a response with a difference. -/
def ShardKind.exchange (env : SyncEnv Node) (e : K × CacheEntry β)
    (res : SyncStatusResponse β) (remote : β) (s : SyncState) : Except SyncError SyncState :=
  let foundLocal := (env.ring.checkNodeForKey (kind.shardKey e.1) env.nodeID).1
  let pushDiff := kind.columns e.2.contents \ kind.columns remote
  -- A key that should be removed here is not pushed either.
  if pushDiff ≠ ∅ ∧ foundLocal = false then .ok s
  else
    kind.pull (env.mergedAt (kind.shardKey e.1)) e.1 remote
      (kind.pullDiff e.2 res remote foundLocal) (kind.pushDiff env.push e pushDiff s)

/-- The body of the loops of `Synchronize`. -/
def syncEntry (env : SyncEnv Node) (newNodeID : Node) (s : SyncState)
    (e : K × CacheEntry β) : Except SyncError SyncState :=
  match kind.visits (kind.field e.1) (env.schema (kind.field e.1)) with
  | .error err => .error err
  | .ok false => .ok s
  | .ok true =>
    if (env.ring.checkNodeForKey (kind.shardKey e.1) newNodeID).1 = false then .ok s
    else
      match syncStatus kind env.schema s.joining (kind.request e) with
      | .error err => .error (.status err)
      | .ok res =>
        if res.ok then .ok s
        else
          match kind.received e.1 res with
          | .error err => .error err
          | .ok remote => kind.exchange env e res remote s

/-! ## The two kinds -/

/-- The checksum of an index: the sum of its values as a 64-bit integer. -/
def bsiChecksum (b : Bsi) : ℤ := (∑ c ∈ b.existence, b.value c).bmod (2 ^ 64)

/-- The fragment by which a difference of a bit-sliced shard is pushed. -/
def bsiPushFragment (k : FieldKey × ℤ) (diff : Bsi) : BSIFragment where
  key := k.1
  time := k.2
  data := .values diff
  modTime := 0

/-- The fragment by which a difference of a standard bitmap is pushed. -/
def bitmapPushFragment (k : BitmapKey) (diff : Bitmap) : BitmapFragment where
  key := k
  bits := diff
  modTime := 0

/-- Bit-sliced shards are passed over when their field is not configured any more. -/
def visitsBSI (field : FieldKey) : Option FieldConfig → Except SyncError Bool
  | none => .ok false
  | some attr =>
    match attr.primaryKeyInfo with
    | .error err => .error (.primaryKeyInfo field err)
    | .ok [] => .error (.panicked field)
    | .ok (_ :: _) => .ok true

/-- Standard bitmaps are passed over when their field is bit-sliced. -/
def visitsBitmap (field : FieldKey) : Option FieldConfig → Except SyncError Bool
  | none => .error (.panicked field)
  | some attr => .ok (!attr.isBSI)

theorem rows_updateBSICache (env : PushEnv) (k : FieldKey × ℤ) (diff : Bsi) (s : CacheState)
    (c : ℕ) :
    rows get? ((updateBSICache env.enabled env.call (env.pushedAt (.bsi k.1 k.2))
        (bsiPushFragment k diff) s).bsiEntry k) c =
      (diff.get? c).or (rows get? (s.bsiEntry k) c) := by
  have hkey : k = ((bsiPushFragment k diff).key, (bsiPushFragment k diff).time) := rfl
  rw [bsiEntry_updateBSICache, if_pos hkey]
  cases s.bsiEntry k with
  | none => simp [mergedBSI, bsiPushFragment, rows]
  | some b => exact get?_replace b.contents diff c

def bsiShards : ShardKind (FieldKey × ℤ) Bsi where
  isBSI := true
  shardKey k := .bsi k.1 k.2
  field k := k.1
  time k := k.2
  lookup := CacheState.bsiEntry
  store k e s := setShard k.1 k.2 e s
  columns := existence
  get? := get?
  empty := empty
  checksum := bsiChecksum
  retain := Bsi.retain
  join b d := (b.clearValues d.existence).or d
  visits := visitsBSI
  push env k diff s :=
    updateBSICache env.enabled env.call (env.pushedAt (.bsi k.1 k.2)) (bsiPushFragment k diff) s
  mem_columns b c := by by_cases h : c ∈ b.existence <;> simp [get?, h]
  get?_empty := get?_empty
  get?_retain := get?_retain
  get?_join b d c := by
    rw [get?_or, get?_clearValues]
    by_cases hb : c ∈ b.existence <;> by_cases hd : c ∈ d.existence <;> simp [get?, hb, hd]
  lookup_store_self k e s := by rw [bsiEntry_setShard, if_pos rfl]
  lookup_store_of_ne k e s k' h := by rw [bsiEntry_setShard, if_neg h]
  lookup_push_of_ne env k d s k' h := by rw [bsiEntry_updateBSICache]; exact if_neg h
  rows_push := rows_updateBSICache

/-- Membership in a bitmap as a row without a value of its own. -/
def bitmapRow (bits : Bitmap) (c : ℕ) : Option ℤ := if c ∈ bits then some 0 else none

theorem bitmapCache_pushFragment (env : PushEnv) (k k' : BitmapKey) (diff : Bitmap)
    (s : CacheState) :
    (updateBitmapCache env.call (env.pushedAt (.bitmap k)) (fun _ => env.pushedAt (.bitmap k))
        (bitmapPushFragment k diff) s).bitmapCache k' =
      if k' = k then
        mergedBitmap env.call (env.pushedAt (.bitmap k)) (bitmapPushFragment k diff)
          (s.bitmapCache k')
      else s.bitmapCache k' := by
  rw [bitmapCache_updateBitmapCache]
  simp [bitmapPushFragment, clearForUpdate, fragmentApplyTime]

theorem rows_updateBitmapCache (env : PushEnv) (k : BitmapKey) (diff : Bitmap) (s : CacheState)
    (c : ℕ) :
    rows bitmapRow ((updateBitmapCache env.call (env.pushedAt (.bitmap k))
        (fun _ => env.pushedAt (.bitmap k)) (bitmapPushFragment k diff) s).bitmapCache k) c =
      (bitmapRow diff c).or (rows bitmapRow (s.bitmapCache k) c) := by
  rw [bitmapCache_pushFragment, if_pos rfl]
  cases s.bitmapCache k with
  | none => simp [mergedBitmap, bitmapPushFragment, rows]
  | some b =>
    by_cases hb : c ∈ b.contents <;> by_cases hd : c ∈ diff <;>
      simp [mergedBitmap, mergeBitmap, bitmapPushFragment, rows, bitmapRow, hb, hd]

/-- Shards of standard bitmaps.  Their requests and responses leave the checksum at zero. -/
def bitmapShards : ShardKind BitmapKey Bitmap where
  isBSI := false
  shardKey := .bitmap
  field k := k.key
  time k := k.time
  lookup s k := s.bitmapCache k
  store := setBitmap
  columns b := b
  get? := bitmapRow
  empty := ∅
  checksum _ := 0
  retain b s := b ∩ s
  join b d := b ∪ d
  visits := visitsBitmap
  push env k diff s :=
    updateBitmapCache env.call (env.pushedAt (.bitmap k)) (fun _ => env.pushedAt (.bitmap k))
      (bitmapPushFragment k diff) s
  mem_columns b c := by by_cases h : c ∈ b <;> simp [bitmapRow, h]
  get?_empty c := by simp [bitmapRow]
  get?_retain b s c := by
    by_cases hb : c ∈ b <;> by_cases hs : c ∈ s <;> simp [bitmapRow, hb, hs]
  get?_join b d c := by
    by_cases hb : c ∈ b <;> by_cases hd : c ∈ d <;> simp [bitmapRow, hb, hd]
  lookup_store_self k e s := by simp [setBitmap]
  lookup_store_of_ne k e s k' h := by simp [setBitmap, h]
  lookup_push_of_ne env k d s k' h := by rw [bitmapCache_pushFragment, if_neg h]
  rows_push := rows_updateBitmapCache

end QuantaStream.Server
