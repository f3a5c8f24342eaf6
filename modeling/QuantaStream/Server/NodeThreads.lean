import QuantaStream.Server.PartitionRemoval

/-!
# The threads of a node

This module models how the threads of a node share its locks and queues: the workers that apply
fragments, the partition worker, and the threads that serve mutations, offline requests and table
operations.  A thread is kept as the point it has reached in the source, and a lock is held by the
threads that are between its `Lock` and its `Unlock`.  Sections that hold a lock and
neither block nor take another one are one step: the readers of the table cache, a look at a shard
for the manifest, the locks of the seed cache and of the artifacts.

The locks of the caches follow `sync.RWMutex`: a writer first announces itself, which keeps new
readers and writers out, and then waits for the readers that are inside.
-/

namespace QuantaStream.Server

/-! ## Fragments -/

/-- A fragment of the queue: the shard it is for and the kind of mutation. -/
structure Fragment where
  shard : ShardKey
  isClear : Bool
  isUpdate : Bool
  deriving DecidableEq

/-- `IndexKVPair`: an item of a mutation request. -/
structure MutationItem where
  key : FieldKey
  rowID : ℕ
  time : ℤ
  isClear : Bool
  isUpdate : Bool
  sync : Bool

/-- `newBitmapFragment` for an item. -/
def MutationItem.fragment (item : MutationItem) (isBSI : Bool) : Fragment where
  shard := if isBSI then .bsi item.key item.time else .bitmap ⟨item.key, item.rowID, item.time⟩
  isClear := item.isClear
  isUpdate := item.isUpdate

/-- `bitmapCacheLock` and `bsiCacheLock`. -/
inductive CacheLock where
  | bitmap
  | bsi
  deriving DecidableEq

/-- The lock of the cache a shard is in. -/
def ShardKey.cacheLock : ShardKey → CacheLock
  | .bitmap _ => .bitmap
  | .bsi _ _ => .bsi

/-- The points of `updateBitmapCache` and `updateBSICache`: the configuration of the field is read;
a clear of an index looks the shard up without a lock; the lock of the cache is announced and
entered; inside it the rows of an update are cleared and the shard is locked; an index looks at its
configuration again for the artifacts; the fragment is merged. -/
inductive Stage where
  | config
  | lookup
  | announce
  | enter
  | clear (rows : List ShardKey)
  | shard
  | shardOnly
  | artifact (locked : Bool)
  | merge

def Fragment.firstStage (f : Fragment) : Stage :=
  match f.shard with
  | .bitmap _ => .config
  | .bsi _ _ => if f.isClear then .lookup else .config

/-- The work on a fragment.  The number stands for the channel `Done` of the fragment. -/
structure Task where
  id : ℕ
  fragment : Fragment
  stage : Stage

namespace Task

def cacheLock (task : Task) : CacheLock := task.fragment.shard.cacheLock

/-- The work has announced itself as a writer of a cache. -/
def announced (l : CacheLock) (task : Task) : Bool :=
  task.cacheLock = l &&
    match task.stage with
    | .enter => true
    | .clear _ => true
    | .shard => true
    | _ => false

/-- The work is inside a cache as its writer. -/
def inside (l : CacheLock) (task : Task) : Bool :=
  task.cacheLock = l &&
    match task.stage with
    | .clear _ => true
    | .shard => true
    | _ => false

/-- The work holds the lock of a shard. -/
def locksShard (k : ShardKey) (task : Task) : Bool :=
  task.fragment.shard = k &&
    match task.stage with
    | .artifact locked => locked
    | .merge => true
    | _ => false

end Task

/-! ## Threads -/

/-- The point of a mutation request in its current item: `getFieldConfig`, `isBSI`, the choice
between the queue and inline work, and the inline work. -/
inductive MutatePoint where
  | config
  | kind
  | ready (f : Fragment) (sync : Bool)
  | applying (task : Task)

/-- An operation of the partition queue: a shard, and whether it is the index of the key. -/
abbrev PartitionOp := Option (ShardKey × Bool)

/-- The points of `OfflinePartitions`, which goes through both caches. -/
inductive OfflinePoint where
  | rlock (l : CacheLock)
  | iterate (l : CacheLock) (ks : List ShardKey)
  | operate (l : CacheLock) (k : ShardKey) (ks : List ShardKey)
  | send (l : CacheLock) (op : PartitionOp) (k : ShardKey) (ks : List ShardKey)

/-- The points of a DROP or TRUNCATE: the table lock, `Truncate`, the manifest, `flush`. -/
inductive TablePoint where
  | lock
  | announce (l : CacheLock)
  | enter (l : CacheLock)
  | truncate
  | rlock (l : CacheLock)
  | peek (l : CacheLock) (ks : List ShardKey)
  | sendNop
  | awaitNop (id : ℕ)
  | sendAux (workers ids : List ℕ)
  | awaitAux (ids : List ℕ)

/-- The points of `partitionProcessLoop`. -/
inductive PurgePoint where
  | idle
  | execute (k : ShardKey) (isPK : Bool)
  | announce (k : ShardKey)
  | enter (k : ShardKey)
  | purge (k : ShardKey)

/-- A thread at the point it has reached. -/
inductive Thread where
  | worker (task : Option Task)
  | partition (point : PurgePoint)
  | mutate (items : List MutationItem) (point : MutatePoint) (awaits : List ℕ)
  | offline (time : ℤ) (index : String) (point : OfflinePoint)
  | tableOp (drop : Bool) (index : String) (point : TablePoint)
  | returned (ok : Bool)

namespace Thread

/-- The thread holds the table lock. -/
def locksTables : Thread → Bool
  | tableOp _ _ .lock => false
  | tableOp _ _ _ => true
  | _ => false

/-- The thread has announced itself as a writer of a cache.  `Truncate` keeps the lock of the
standard bitmaps while it takes the one of the indexes. -/
def announced (l : CacheLock) : Thread → Bool
  | worker (some task) => task.announced l
  | mutate _ (.applying task) _ => task.announced l
  | partition (.enter k) => k.cacheLock = l
  | partition (.purge k) => k.cacheLock = l
  | tableOp _ _ (.enter .bitmap) => l = .bitmap
  | tableOp _ _ (.announce .bsi) => l = .bitmap
  | tableOp _ _ (.enter .bsi) => true
  | tableOp _ _ .truncate => true
  | _ => false

/-- The thread is inside a cache as its writer. -/
def inside (l : CacheLock) : Thread → Bool
  | worker (some task) => task.inside l
  | mutate _ (.applying task) _ => task.inside l
  | partition (.purge k) => k.cacheLock = l
  | tableOp _ _ (.announce .bsi) => l = .bitmap
  | tableOp _ _ (.enter .bsi) => l = .bitmap
  | tableOp _ _ .truncate => true
  | _ => false

/-- The thread is inside a cache as a reader. -/
def reads (l : CacheLock) : Thread → Bool
  | offline _ _ (.iterate l' _) => l' = l
  | offline _ _ (.operate l' _ _) => l' = l
  | offline _ _ (.send l' _ _ _) => l' = l
  | tableOp _ _ (.peek l' _) => l' = l
  | _ => false

def locksShard (k : ShardKey) : Thread → Bool
  | worker (some task) => task.locksShard k
  | mutate _ (.applying task) _ => task.locksShard k
  | offline _ _ (.operate _ k' _) => k' = k
  | offline _ _ (.send _ _ k' _) => k' = k
  | _ => false

end Thread

def tablesFree (ts : List Thread) : Bool := !ts.any Thread.locksTables

def unannounced (l : CacheLock) (ts : List Thread) : Bool := !ts.any (Thread.announced l)

def unread (l : CacheLock) (ts : List Thread) : Bool := !ts.any (Thread.reads l)

def shardFree (k : ShardKey) (ts : List Thread) : Bool := !ts.any (Thread.locksShard k)

/-! ## What the threads share -/

inductive Queued where
  | nop (id : ℕ)
  | fragment (id : ℕ) (f : Fragment)
  deriving DecidableEq

/-- What became of a fragment: it was merged into the caches, or skipped. -/
inductive Handling where
  | merged
  | skipped
  deriving DecidableEq

/-- What the threads share.  `done` are the signals sent so far; `accepted` and `handled` record
the fragments that requests have handed over and what became of them. -/
structure Shared where
  tables : TableCache
  cached : List ShardKey
  fragQueue : List Queued
  aux : List (List ℕ)
  partitionQueue : List PartitionOp
  done : List ℕ
  nextID : ℕ
  accepted : List (ℕ × Fragment)
  handled : List (ℕ × Fragment × Handling)
  crashed : Bool

namespace Shared

def crash (sh : Shared) : Shared := { sh with crashed := true }

def handle (task : Task) (h : Handling) (sh : Shared) : Shared :=
  { sh with handled := (task.id, task.fragment, h) :: sh.handled }

def signal (id : ℕ) (sh : Shared) : Shared := { sh with done := id :: sh.done }

/-- The cached shards of one of the caches, in the order of a loop. -/
def shards (order : RangeOrder) (l : CacheLock) (sh : Shared) : List ShardKey :=
  order.order (sh.cached.filter fun k => k.cacheLock = l)

/-- The rows that an update of a standard bitmap clears: all of its field in its shard. -/
def rowsToClear (order : RangeOrder) (f : Fragment) (sh : Shared) : List ShardKey :=
  match f.shard with
  | .bsi _ _ => []
  | .bitmap b =>
    if f.isUpdate then
      order.order (sh.cached.filter fun k =>
        match k with
        | .bitmap b' => b'.key = b.key && b'.time = b.time
        | .bsi _ _ => false)
    else []

end Shared

/-- The settings of a node: the keys it is a member for and the order of its loops over maps. -/
structure NodeEnv where
  member : ShardKey → Bool
  order : RangeOrder

/-- The capacity of `fragQueue` and of `partitionQueue`. -/
def queueCapacity : ℕ := 10000000

/-- The capacity of the channel `aux` of a worker. -/
def auxCapacity : ℕ := 100

def workersCount : ℕ := 20

variable (tables : TableCache)

def fieldKnown (key : FieldKey) : Bool := (fieldQuantum? tables key).isSome

/-- The attributes of the primary key of a table exist. -/
def keyKnown (index : String) : Bool :=
  (tables.lookup index).any fun t => (getPrimaryKeyInfo t).toOption.isSome

/-- `newBSIBitmap` reads the parent of an attribute it may not have found, and the first attribute
of a key whose attributes may be missing. -/
def newBSIBitmapPanics (key : FieldKey) : Bool :=
  !fieldKnown tables key || !keyKnown tables key.index

/-- `isBSI`: nothing for a field that does not exist, where the source reads a nil attribute. -/
def isBSI (tables : TableCache) (key : FieldKey) : Option Bool :=
  (tables.lookup key.index).bind fun t => (t.getAttribute key.field).map Attribute.isBSI

/-- `IsPK`: the shard is of the first attribute of the key. -/
def isKeyField (k : ShardKey) : Bool :=
  (tables.lookup k.field.index).any fun t =>
    (getPrimaryKeyInfo t).toOption.any fun names => names.head? = some k.field.field

/-! ## Steps -/

section

variable (env : NodeEnv) (ts : List Thread) (sh : Shared)

/-- The next step of `updateBitmapCache` or `updateBSICache`; without a result the thread is blocked.
The stage is `none` when the work is finished. -/
def applyStep (task : Task) : Option (Option Stage × Shared) :=
  let f := task.fragment
  match task.stage with
  | .config =>
    if tablesFree ts then
      match f.shard with
      | .bitmap _ => some (some .announce, sh)
      | .bsi key _ =>
        some (some .announce, if newBSIBitmapPanics sh.tables key then sh.crash else sh)
    else none
  | .lookup =>
    -- The map is read without its lock, which ends the process if it is being written.
    if ts.any (Thread.inside .bsi) then some (none, sh.crash)
    else if f.shard ∈ sh.cached then some (some .shardOnly, sh)
    else some (none, sh.handle task .skipped)
  | .announce => if unannounced f.shard.cacheLock ts then some (some .enter, sh) else none
  | .enter =>
    if unread f.shard.cacheLock ts then some (some (.clear (sh.rowsToClear env.order f)), sh)
    else none
  | .clear (k :: rows) => if shardFree k ts then some (some (.clear rows), sh) else none
  | .clear [] =>
    if f.shard.cacheLock = .bitmap && f.isClear && f.isUpdate then
      some (none, sh.handle task .merged)
    else if f.shard ∈ sh.cached then some (some .shard, sh)
    else if f.isUpdate && !env.member f.shard then some (none, sh.handle task .skipped)
    else
      some (if f.shard.cacheLock = .bsi then some (.artifact false) else none,
        { sh.handle task .merged with cached := f.shard :: sh.cached })
  | .shard =>
    if shardFree f.shard ts then
      some (some (if f.shard.cacheLock = .bsi then .artifact true else .merge), sh)
    else none
  | .shardOnly => if shardFree f.shard ts then some (some (.artifact true), sh) else none
  | .artifact locked =>
    if tablesFree ts then
      some (if locked then (some .merge, sh) else (none, sh))
    else none
  | .merge => some (none, sh.handle task .merged)

/-- A worker at the top of its loop: it takes from its own channel or from the queue. -/
def idleStep (i : ℕ) (own : Bool) (sh : Shared) : Option (Thread × Shared) :=
  if own then
    match sh.aux[i]? with
    | some (id :: ids) => some (.worker none, { sh.signal id with aux := sh.aux.set i ids })
    | _ => none
  else
    match sh.fragQueue with
    | [] => none
    | .nop id :: queue => some (.worker none, { sh.signal id with fragQueue := queue })
    | .fragment id f :: queue =>
      some (.worker (some ⟨id, f, f.firstStage⟩), { sh with fragQueue := queue })

/-- The partition worker.  It executes a nil operation like any other. -/
def partitionStep : PurgePoint → Option (PurgePoint × Shared)
  | .idle =>
    match sh.partitionQueue with
    | [] => none
    | none :: queue => some (.idle, { sh with partitionQueue := queue }.crash)
    | some (k, isPK) :: queue => some (.execute k isPK, { sh with partitionQueue := queue })
  | .execute k isPK =>
    if k.cacheLock = .bsi && isPK && !tablesFree ts then none else some (.announce k, sh)
  | .announce k => if unannounced k.cacheLock ts then some (.enter k, sh) else none
  | .enter k => if unread k.cacheLock ts then some (.purge k, sh) else none
  | .purge k => some (.idle, { sh with cached := sh.cached.filter fun k' => k' ≠ k })

/-- `BatchMutate`, `BatchMutateItems` and `enqueueBatchMutation`. -/
def mutateStep (items : List MutationItem) (awaits : List ℕ) :
    MutatePoint → Option (Thread × Shared)
  | .config =>
    match items with
    | [] =>
      match awaits with
      | [] => some (.returned true, sh)
      | id :: awaits => if id ∈ sh.done then some (.mutate [] .config awaits, sh) else none
    | item :: _ =>
      if tablesFree ts then
        if fieldKnown sh.tables item.key then some (.mutate items .kind awaits, sh)
        else some (.returned false, sh)
      else none
  | .kind =>
    match items with
    | [] => none
    | item :: items =>
      if tablesFree ts then
        match isBSI sh.tables item.key with
        | none => some (.returned false, sh.crash)
        | some bsi => some (.mutate items (.ready (item.fragment bsi) item.sync) awaits, sh)
      else none
  | .ready f sync =>
    let accepted := { sh with
      nextID := sh.nextID + 1
      accepted := (sh.nextID, f) :: sh.accepted }
    if sync then
      some (.mutate items (.applying ⟨sh.nextID, f, f.firstStage⟩) awaits, accepted)
    else if sh.fragQueue.length < queueCapacity then
      some (.mutate items .config (awaits ++ [sh.nextID]),
        { accepted with fragQueue := sh.fragQueue ++ [.fragment sh.nextID f] })
    else some (.returned false, sh)
  | .applying task =>
    (applyStep env ts sh task).map fun r =>
      match r.1 with
      | some stage => (.mutate items (.applying { task with stage := stage }) awaits, r.2)
      | none => (.mutate items .config awaits, r.2)

/-- `OfflinePartitions` with `iterateBSICache` and `iterateBitmapCache`. -/
def offlineStep (time : ℤ) (index : String) : OfflinePoint → Option (Thread × Shared)
  | .rlock l =>
    if unannounced l ts then
      some (.offline time index (.iterate l (sh.shards env.order l)), sh)
    else none
  | .iterate .bsi [] => some (.offline time index (.rlock .bitmap), sh)
  | .iterate .bitmap [] => some (.returned true, sh)
  | .iterate l (k :: ks) =>
    if shardFree k ts then
      if (Removal.offline time index : Removal Unit).selects k then
        some (.offline time index (.operate l k ks), sh)
      else some (.offline time index (.iterate l ks), sh)
    else none
  | .operate l k ks =>
    if tablesFree ts then
      match newPartitionOperation sh.tables k with
      | .error _ => some (.returned false, sh.crash)
      | .ok op =>
        some (.offline time index
          (.send l (op.map fun k => (k, isKeyField sh.tables k)) k ks), sh)
    else none
  | .send l op _ ks =>
    if sh.partitionQueue.length < queueCapacity then
      some (.offline time index (.iterate l ks),
        { sh with partitionQueue := sh.partitionQueue ++ [op] })
    else none

/-- `TableOperation` for DROP and TRUNCATE. -/
def tableStep (drop : Bool) (index : String) : TablePoint → Option (Thread × Shared)
  | .lock =>
    if tablesFree ts then
      some (.tableOp drop index (.announce .bitmap),
        if drop then { sh with tables := sh.tables.erase index } else sh)
    else none
  | .announce l =>
    if unannounced l ts then some (.tableOp drop index (.enter l), sh) else none
  | .enter l =>
    if unread l ts then
      some (.tableOp drop index (if l = .bitmap then .announce .bsi else .truncate), sh)
    else none
  | .truncate =>
    some (.tableOp drop index (.rlock .bitmap),
      { sh with cached := sh.cached.filter fun k => k.field.index ≠ index })
  | .rlock l =>
    if unannounced l ts then
      some (.tableOp drop index (.peek l (sh.shards env.order l)), sh)
    else none
  | .peek l [] => some (.tableOp drop index (if l = .bitmap then .rlock .bsi else .sendNop), sh)
  | .peek l (k :: ks) =>
    if shardFree k ts then some (.tableOp drop index (.peek l ks), sh) else none
  | .sendNop =>
    if sh.fragQueue.length < queueCapacity then
      some (.tableOp drop index (.awaitNop sh.nextID),
        { sh with nextID := sh.nextID + 1, fragQueue := sh.fragQueue ++ [.nop sh.nextID] })
    else none
  | .awaitNop id =>
    if id ∈ sh.done then
      some (.tableOp drop index (.sendAux (List.range workersCount) []), sh)
    else none
  | .sendAux [] ids => some (.tableOp drop index (.awaitAux ids), sh)
  | .sendAux (w :: workers) ids =>
    match sh.aux[w]? with
    | none => none
    | some queue =>
      if queue.length < auxCapacity then
        some (.tableOp drop index (.sendAux workers (ids ++ [sh.nextID])),
          { sh with
            nextID := sh.nextID + 1
            aux := sh.aux.set w (queue ++ [sh.nextID]) })
      else none
  | .awaitAux [] => some (.returned true, sh)
  | .awaitAux (id :: ids) =>
    if id ∈ sh.done then some (.tableOp drop index (.awaitAux ids), sh) else none

/-- The next step of the thread number `i`, if it is not blocked.  An idle worker chooses between
its own channel and the queue. -/
def advance (i : ℕ) (own : Bool) (sh : Shared) : Thread → Option (Thread × Shared)
  | .worker none => idleStep i own sh
  | .worker (some task) =>
    (applyStep env ts sh task).map fun r =>
      match r.1 with
      | some stage => (.worker (some { task with stage := stage }), r.2)
      | none => (.worker none, r.2.signal task.id)
  | .partition point => (partitionStep ts sh point).map fun r => (.partition r.1, r.2)
  | .mutate items point awaits => mutateStep env ts sh items awaits point
  | .offline time index point => offlineStep env ts sh time index point
  | .tableOp drop index point => tableStep env ts sh drop index point
  | .returned _ => none

/-- `flush` gives up; the table lock is released. -/
def giveUp : Thread → Option Thread
  | .tableOp _ _ (.awaitNop _) => some (.returned false)
  | .tableOp _ _ (.awaitAux (_ :: _)) => some (.returned false)
  | _ => none

end

/-! ## Runs -/

structure NodeState where
  shared : Shared
  threads : List Thread

inductive Request where
  | mutate (items : List MutationItem)
  | offline (time : ℤ) (index : String)
  | tableOp (drop : Bool) (index : String)

def Request.thread : Request → Thread
  | .mutate items => .mutate items .config []
  | .offline time index =>
    if time ≤ 0 then .returned false else .offline time index (.rlock .bsi)
  | .tableOp drop index => if index = "" then .returned false else .tableOp drop index .lock

/-- An event: a step of a thread, a timeout of a flush, or a new request. -/
inductive NodeEvent where
  | step (i : ℕ) (own : Bool)
  | timeout (i : ℕ)
  | arrive (r : Request)

/-- The step of a thread, if it is not blocked and the process is running. -/
def threadStep (env : NodeEnv) (s : NodeState) (e : ℕ × Bool) : Option NodeState :=
  if s.shared.crashed then none
  else
    (s.threads[e.1]?).bind fun t =>
      (advance env s.threads e.1 e.2 s.shared t).map fun r =>
        ⟨r.2, s.threads.set e.1 r.1⟩

def nodeStep (env : NodeEnv) (s : NodeState) : NodeEvent → NodeState
  | .step i own => (threadStep env s (i, own)).getD s
  | .timeout i =>
    match (s.threads[i]?).bind giveUp with
    | some t => if s.shared.crashed then s else { s with threads := s.threads.set i t }
    | none => s
  | .arrive r =>
    if s.shared.crashed then s else { s with threads := s.threads ++ [r.thread] }

/-- A node with the given tables and cached shards, before any request. -/
def NodeState.start (cached : List ShardKey) : NodeState where
  shared := {
    tables := tables
    cached := cached
    fragQueue := []
    aux := List.replicate workersCount []
    partitionQueue := []
    done := []
    nextID := 0
    accepted := []
    handled := []
    crashed := false }
  threads := List.replicate workersCount (.worker none) ++ [.partition .idle]

end QuantaStream.Server
