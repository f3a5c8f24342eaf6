import QuantaStream.Lib.Inevitable
import QuantaStream.Server.NodeThreads

/-!
# Calm steps of a node

A table operation holds the table lock while it waits for all workers, and the workers, the offline
requests and the mutation requests take the same lock with others in their hands.  A step is calm if
a table operation takes the lock only when nobody is under way, and an offline request starts only
when no table operation is under way.  This module says what a calm step of each kind of thread can
do, and gives every thread a weight that its steps lower.
-/

namespace QuantaStream.Server

open List Option Thread Fragment Handling

/-! ## Calm steps -/

/-- The thread neither holds a lock nor is on the way to something that a table operation takes
away. -/
def Thread.still : Thread → Bool
  | .worker none => true
  | .partition .idle => true
  | .mutate _ .config _ => true
  | .offline _ _ (.rlock _) => true
  | .tableOp _ _ .lock => true
  | .returned _ => true
  | _ => false

/-- Every table has a primary key or a time quantum field, with all their attributes. -/
def allKeyed (tables : TableCache) : Bool :=
  tables.entries.all fun e => (getPrimaryKeyInfo e.2).toOption.any fun names => !names.isEmpty

/-- How many shards the work on a fragment may still add. -/
def Task.adds (task : Task) : ℕ :=
  match task.stage with
  | .config => 1
  | .announce => 1
  | .enter => 1
  | .clear _ => 1
  | _ => 0

/-- How many shards a thread may still add. -/
def Thread.adds : Thread → ℕ
  | .worker (some task) => task.adds
  | .mutate items (.ready _ _) _ => items.length + 1
  | .mutate items (.applying task) _ => items.length + task.adds
  | .mutate items _ _ => items.length
  | _ => 0

/-- How many shards an element of the queue may still add. -/
def Queued.adds : Queued → ℕ
  | .nop _ => 0
  | .fragment _ _ => 1

/-- How many shards the threads share or have in their queue. -/
def Shared.adds (sh : Shared) : ℕ := sh.cached.length + (sh.fragQueue.map Queued.adds).sum

/-- The shards that are cached and those that may still be added. -/
def shardBound (s : NodeState) : ℕ := s.shared.adds + (s.threads.map adds).sum

/-- How many operations an offline request may still send. -/
def Thread.promised : Thread → ℕ
  | .offline _ _ (.iterate _ ks) => ks.length
  | .offline _ _ (.operate _ _ ks) => ks.length + 1
  | .offline _ _ (.send _ _ _ ks) => ks.length + 1
  | _ => 0

/-- The operations that are queued or may still be sent. -/
def operationBound (s : NodeState) : ℕ :=
  s.shared.partitionQueue.length + (s.threads.map promised).sum

/-- Nobody is under way and the queues are empty. -/
def quiet (s : NodeState) : Bool :=
  s.threads.all still && s.shared.fragQueue.isEmpty && s.shared.partitionQueue.isEmpty

/-- The step of a thread is calm.  A table operation takes the lock of a quiet node; an offline
request enters a cache when no table operation is under way and there is room for an operation on
each shard; a clear of an index looks it up when nobody writes the cache. -/
def Thread.calm (env : NodeEnv) (s : NodeState) : Thread → Bool
  | .tableOp _ _ .lock => quiet s
  | .offline _ _ (.rlock l) =>
    tablesFree s.threads &&
      decide (operationBound s + (s.shared.shards env.order l).length ≤ queueCapacity)
  | .worker (some ⟨_, _, .lookup⟩) => !s.threads.any (inside .bsi)
  | .mutate _ (.applying ⟨_, _, .lookup⟩) _ => !s.threads.any (inside .bsi)
  | _ => true

/-- The event is calm: no flush runs into its timeout, and requests arrive at a node whose tables
have keys and whose shards fit into a queue. -/
def calm (env : NodeEnv) (s : NodeState) : NodeEvent → Bool
  | .step i _ => (s.threads[i]?).all (Thread.calm env s)
  | .timeout _ => false
  | .arrive r =>
    allKeyed s.shared.tables && decide (shardBound s + r.thread.adds ≤ queueCapacity)

/-! ## Orderly states -/

def tableKnown (tables : TableCache) (k : ShardKey) : Prop :=
  (tables.lookup k.field.index).isSome

/-- What became of a fragment is on record; only updates and clears are skipped. -/
def Recorded (sh : Shared) (id : ℕ) (f : Fragment) : Prop :=
  (id, f, merged) ∈ sh.handled ∨
    (id, f, skipped) ∈ sh.handled ∧ (f.isUpdate = true ∨ f.isClear = true)

/-- The work on a fragment is in order: its field exists, only clears look the shard up without a
lock, and a new index has been merged before its artifact is looked at. -/
structure Task.Ok (sh : Shared) (task : Task) : Prop where
  known : fieldKnown sh.tables task.fragment.shard.field = true
  clears : task.stage = .lookup → task.fragment.isClear = true
  merged : task.stage = .artifact false →
    (task.id, task.fragment, merged) ∈ sh.handled

/-- A thread is in order. -/
def Thread.Ok (sh : Shared) : Thread → Prop
  | .worker (some task) => task.Ok sh
  | .mutate items .kind _ => ∃ item ∈ items.head?, fieldKnown sh.tables item.key = true
  | .mutate _ (.ready f _) _ => fieldKnown sh.tables f.shard.field = true
  | .mutate _ (.applying task) _ => task.Ok sh
  | .offline _ _ (.iterate _ ks) => ∀ k ∈ ks, tableKnown sh.tables k
  | .offline _ _ (.operate _ k ks) => ∀ k' ∈ k :: ks, tableKnown sh.tables k'
  | .offline _ _ (.send _ op _ ks) => op.isSome ∧ ∀ k ∈ ks, tableKnown sh.tables k
  | .tableOp _ _ (.sendAux workers _) => ∀ w ∈ workers, w < workersCount
  | _ => True

variable {env : NodeEnv} {ts : List Thread} {sh sh' : Shared}

variable {tables : TableCache}

/-- The tables of a keyed node have keys. -/
theorem allKeyed_lookup (h : allKeyed tables = true) {index : String} {t : Table}
    (ht : tables.lookup index = some t) :
    ∃ name names, getPrimaryKeyInfo t = .ok (name :: names) := by
  have hall := all_eq_true.mp h ⟨index, t⟩ (AList.mem_lookup_iff.mp ht)
  cases hinfo : getPrimaryKeyInfo t with
  | error e => simp [hinfo, Except.toOption] at hall
  | ok names =>
    cases names with
    | nil => simp [hinfo, Except.toOption] at hall
    | cons name names => exact ⟨name, names, rfl⟩

theorem tableKnown_of_fieldKnown {k : ShardKey} (h : fieldKnown tables k.field = true) :
    tableKnown tables k := by
  unfold fieldKnown fieldQuantum? at h
  unfold tableKnown
  cases ht : tables.lookup k.field.index with
  | none => simp [ht] at h
  | some t => rfl

/-- A new index of a known field is created without a panic. -/
theorem not_newBSIBitmapPanics (hkeyed : allKeyed tables = true) {k : ShardKey}
    (h : fieldKnown tables k.field = true) : newBSIBitmapPanics tables k.field = false := by
  obtain ⟨t, ht⟩ := isSome_iff_exists.mp (tableKnown_of_fieldKnown h)
  obtain ⟨name, names, hinfo⟩ := allKeyed_lookup hkeyed ht
  have hkey : keyKnown tables k.field.index = true := by
    simp [keyKnown, ht, hinfo, Except.toOption]
  simp [newBSIBitmapPanics, h, hkey]

/-! ## Weights -/

/-- How many steps the work on a fragment may still take, if at most `n` shards are cached. -/
def Stage.weight (n : ℕ) : Stage → ℕ
  | .merge => 1
  | .artifact _ => 2
  | .shard => 3
  | .shardOnly => 3
  | .lookup => 4
  | .clear rows => 4 + rows.length
  | .enter => 5 + n
  | .announce => 6 + n
  | .config => 7 + n

/-- What a step of the work on a fragment may make of the cached shards and the record, and that it
stays in order. -/
structure ApplySpec (sh : Shared) (task : Task) (stage : Option Stage) (cached : List ShardKey)
    (handled : List (ℕ × Fragment × Handling)) : Prop where
  keeps : sh.handled ⊆ handled
  known : ∀ k ∈ cached, k ∈ sh.cached ∨ tableKnown sh.tables k
  next : ∀ st ∈ stage,
    Task.Ok { sh with cached := cached, handled := handled } { task with stage := st }
  finished : stage = none →
    Recorded { sh with cached := cached, handled := handled } task.id task.fragment
  adds : cached.length + (stage.elim 0 fun st => Task.adds { task with stage := st }) ≤
    sh.cached.length + task.adds
  lower : ∀ n, sh.cached.length ≤ n → stage.elim 0 (Stage.weight n) < task.stage.weight n

theorem length_rowsToClear_le (order : RangeOrder) (f : Fragment) (sh : Shared) :
    (sh.rowsToClear order f).length ≤ sh.cached.length := by
  unfold Shared.rowsToClear
  split
  · exact Nat.zero_le _
  · split
    · rw [(order.perm _).length_eq]
      exact length_filter_le _ _
    · exact Nat.zero_le _

theorem Stage.weight_pos (n : ℕ) (st : Stage) : 0 < st.weight n := by
  cases st <;> simp only [Stage.weight] <;> omega

/-- A step of the work on a fragment keeps its order. -/
theorem applyStep_spec (hkeyed : allKeyed sh.tables = true) {task : Task} (hok : task.Ok sh)
    (hcalm : task.stage = .lookup → ts.any (inside .bsi) = false) {stage : Option Stage}
    (h : applyStep env ts sh task = some (stage, sh')) :
    ∃ cached handled, sh' = { sh with cached := cached, handled := handled } ∧
      ApplySpec sh task stage cached handled := by
  have hsame : ∀ {st : Stage}, (st ≠ .lookup ∧ st ≠ .artifact false ∧
      Task.adds { task with stage := st } ≤ task.adds) →
        (∀ n, sh.cached.length ≤ n → st.weight n < task.stage.weight n) →
          ∃ cached handled, sh = { sh with cached := cached, handled := handled } ∧
            ApplySpec sh task (some st) cached handled := by
    intro st ⟨hlookup, hartifact, hadds⟩ hlower
    refine ⟨sh.cached, sh.handled, rfl, Subset.refl _, fun k hk => .inl hk, ?_,
      nofun, Nat.add_le_add_left hadds _, hlower⟩
    rintro _ ⟨⟩
    exact ⟨hok.known, fun h => absurd h hlookup, fun h => absurd h hartifact⟩
  have hfinish : ∀ handling,
      handling = .merged ∨ task.fragment.isUpdate = true ∨ task.fragment.isClear = true →
      ∃ cached handled, sh.handle task handling =
        { sh with cached := cached, handled := handled } ∧
          ApplySpec sh task none cached handled := by
    intro handling hhandling
    refine ⟨sh.cached, _, rfl, subset_cons_self _ _, fun k hk => .inl hk,
      nofun, fun _ => ?_, Nat.add_le_add_left (Nat.zero_le _) _,
      fun n _ => Stage.weight_pos n task.stage⟩
    cases handling with
    | merged => exact .inl mem_cons_self
    | skipped => exact .inr ⟨mem_cons_self, hhandling.resolve_left (by simp)⟩
  revert h
  fun_cases applyStep env ts sh task with
  | case3 | case8 | case10 | case12 | case18 | case20 | case22 => nofun
  | case1 _ hst | case5 _ hst | case7 _ hst | case11 _ _ hst | case14 _ hst | case19 _ hst =>
    rintro ⟨⟩
    exact hsame (by simp [Task.adds, hst]) (by simp [Stage.weight, hst])
  | case2 _ hst _ key t hshard =>
    have hpanics := not_newBSIBitmapPanics hkeyed hok.known
    rw [show task.fragment.shard = .bsi key t from hshard] at hpanics
    rw [show newBSIBitmapPanics sh.tables key = false from hpanics]
    rintro ⟨⟩
    exact hsame (by simp [Task.adds, hst]) (by simp [Stage.weight, hst])
  | case4 hst hwrites =>
    rw [hcalm hst] at hwrites
    cases hwrites
  | case6 _ hst =>
    rintro ⟨⟩
    exact hfinish .skipped (.inr (.inr (hok.clears hst)))
  | case9 f hst =>
    rintro ⟨⟩
    refine hsame (by simp [Task.adds, hst]) fun n hn => ?_
    have hlen := length_rowsToClear_le env.order f sh
    simp only [Stage.weight, hst]
    omega
  | case13 | case23 =>
    rintro ⟨⟩
    exact hfinish .merged (.inl rfl)
  | case15 _ _ _ _ hskip =>
    rintro ⟨⟩
    exact hfinish .skipped (.inr (.inl (Bool.and_eq_true_iff.mp hskip).1))
  | case16 _ hst =>
    rintro ⟨⟩
    refine ⟨_, _, rfl, subset_cons_self _ _, ?_, ?_, fun _ => .inl mem_cons_self, ?_, ?_⟩
    · exact forall_mem_cons.mpr ⟨.inr (tableKnown_of_fieldKnown hok.known), fun _ => .inl⟩
    · intro st hst
      split at hst
      · cases hst
        exact ⟨hok.known, nofun, fun _ => mem_cons_self⟩
      · cases hst
    · split <;> simp [Task.adds, hst]
    · intro n _
      split <;> simp [Stage.weight, hst]
  | case17 _ hst =>
    rintro ⟨⟩
    split <;> exact hsame (by simp [Task.adds]) (by simp [Stage.weight, hst])
  | case21 locked hst =>
    cases locked with
    | true =>
      rintro ⟨⟩
      exact hsame (by simp [Task.adds]) (by simp [Stage.weight, hst])
    | false =>
      rintro ⟨⟩
      exact ⟨sh.cached, sh.handled, rfl, Subset.refl _, fun k hk => .inl hk, nofun,
        fun _ => .inl (hok.merged hst), Nat.le_add_right _ _, fun n _ => Stage.weight_pos n _⟩

variable (n : ℕ)

/-- How many steps an element of the queue may still cause. -/
def Queued.weight : Queued → ℕ
  | .nop _ => 1
  | .fragment _ _ => 8 + n

/-- How many steps the queues may still cause. -/
def Shared.weight (sh : Shared) : ℕ :=
  (sh.fragQueue.map (Queued.weight n)).sum + (sh.aux.map length).sum +
    5 * sh.partitionQueue.length

/-- The steps within one item of a mutation request. -/
def MutatePoint.weight : MutatePoint → ℕ
  | .config => 1
  | .kind => 0
  | .ready _ _ => 11 + n
  | .applying task => task.stage.weight n + 2

/-- The steps of an offline request; each operation it sends causes five more. -/
def OfflinePoint.weight : OfflinePoint → ℕ
  | .rlock .bsi => 16 * n + 4
  | .rlock .bitmap => 8 * n + 2
  | .iterate l ks => 8 * ks.length + (if l = .bsi then 8 * n + 3 else 1)
  | .operate l _ ks => 8 * ks.length + 7 + (if l = .bsi then 8 * n + 3 else 1)
  | .send l _ _ ks => 8 * ks.length + 6 + (if l = .bsi then 8 * n + 3 else 1)

def TablePoint.weight : TablePoint → ℕ
  | .awaitAux ids => ids.length + 1
  | .sendAux workers ids => 3 * workers.length + ids.length + 2
  | .awaitNop _ => 3 * workersCount + 3
  | .sendNop => 3 * workersCount + 5
  | .peek .bsi ks => ks.length + 3 * workersCount + 6
  | .rlock .bsi => n + 3 * workersCount + 7
  | .peek .bitmap ks => ks.length + n + 3 * workersCount + 8
  | .rlock .bitmap => 2 * n + 3 * workersCount + 9
  | .truncate => 2 * n + 3 * workersCount + 10
  | .enter .bsi => 2 * n + 3 * workersCount + 11
  | .announce .bsi => 2 * n + 3 * workersCount + 12
  | .enter .bitmap => 2 * n + 3 * workersCount + 13
  | .announce .bitmap => 2 * n + 3 * workersCount + 14
  | .lock => 2 * n + 3 * workersCount + 15

def PurgePoint.weight : PurgePoint → ℕ
  | .idle => 0
  | .purge _ => 1
  | .enter _ => 2
  | .announce _ => 3
  | .execute _ _ => 4

/-- How many steps a thread may still take. -/
def Thread.weight : Thread → ℕ
  | .worker none => 0
  | .worker (some task) => task.stage.weight n
  | .partition point => point.weight
  | .mutate items point awaits => 1 + awaits.length + items.length * (12 + n) + point.weight n
  | .offline _ _ point => point.weight n
  | .tableOp _ _ point => point.weight n
  | .returned _ => 0

/-! ## Moves -/

/-- The signals a thread waits for. -/
def Thread.awaited : Thread → List ℕ
  | .mutate _ _ awaits => awaits
  | .tableOp _ _ (.awaitNop id) => [id]
  | .tableOp _ _ (.sendAux _ ids) => ids
  | .tableOp _ _ (.awaitAux ids) => ids
  | _ => []

/-- The thread has dropped a table whose shards may still be cached. -/
def Thread.drops (index : String) : Thread → Bool
  | .tableOp drop index' (.announce _) => drop && index' = index
  | .tableOp drop index' (.enter _) => drop && index' = index
  | .tableOp drop index' .truncate => drop && index' = index
  | _ => false

/-- The work a thread has in hand. -/
def Thread.task : Thread → Option Task
  | .worker task => task
  | .mutate _ (.applying task) _ => some task
  | _ => none

def Queued.id : Queued → ℕ
  | .nop id => id
  | .fragment id _ => id

/-- The queues hold nothing but the nops of a flush. -/
def Shared.OnlyNops (sh : Shared) : Prop :=
  (∀ q ∈ sh.fragQueue, ∃ id, q = .nop id) ∧ sh.partitionQueue = []

/-- A signal has been sent or is on its way. -/
def Shared.Signals (sh : Shared) (id : ℕ) : Prop :=
  id ∈ sh.done ∨ (∃ q ∈ sh.fragQueue, q.id = id) ∨ ∃ ids ∈ sh.aux, id ∈ ids

/-- What every step keeps of the queues and of the caches; a fragment that leaves the queue is in
the hands of the thread. -/
structure Shared.Keeps (sh sh' : Shared) (t' : Thread) : Prop where
  aux : sh'.aux.length = sh.aux.length
  queued : ∀ id f, Queued.fragment id f ∈ sh'.fragQueue →
    Queued.fragment id f ∈ sh.fragQueue ∨ fieldKnown sh'.tables f.shard.field = true
  operations : (∀ op ∈ sh.partitionQueue, op.isSome) → ∀ op ∈ sh'.partitionQueue, op.isSome
  cached : ∀ k ∈ sh'.cached, k ∈ sh.cached ∨ tableKnown sh'.tables k
  handled : sh.handled ⊆ sh'.handled
  queue : ∀ id f, Queued.fragment id f ∈ sh.fragQueue → Queued.fragment id f ∈ sh'.fragQueue ∨
    ∃ task ∈ t'.task, task.id = id ∧ task.fragment = f
  accepted : ∀ id f, (id, f) ∈ sh'.accepted → (id, f) ∈ sh.accepted ∨
    Queued.fragment id f ∈ sh'.fragQueue ∨
      ∃ task ∈ t'.task, task.id = id ∧ task.fragment = f

theorem Shared.Keeps.refl (sh : Shared) (t' : Thread) : sh.Keeps sh t' where
  aux := rfl
  queued _ _ h := .inl h
  operations h := h
  cached _ h := .inl h
  handled _ h := h
  queue _ _ h := .inl h
  accepted _ _ h := .inl h

/-- The head of the queue is taken; a fragment is then in the hands of the thread. -/
theorem Shared.Keeps.of_tail {sh : Shared} {t' : Thread} {q : Queued} {queue : List Queued}
    (hqueue : sh.fragQueue = q :: queue) (done : List ℕ) (htask : ∀ id f, q = .fragment id f →
      ∃ task ∈ t'.task, task.id = id ∧ task.fragment = f) :
    sh.Keeps { sh with done := done, fragQueue := queue } t' where
  aux := rfl
  queued _ _ h := .inl (hqueue ▸ mem_cons_of_mem _ h)
  operations h := h
  cached _ h := .inl h
  handled _ h := h
  queue id f h := by
    rw [hqueue] at h
    rcases mem_cons.mp h with h | h
    · exact .inr (htask id f h.symm)
    · exact .inl h
  accepted _ _ h := .inl h

/-- What every step does to the table lock and under it. -/
structure KeepsLock (sh sh' : Shared) (t t' : Thread) : Prop where
  tables : sh'.tables = sh.tables ∨
    ∃ index, t = .tableOp true index .lock ∧ sh' = { sh with tables := sh.tables.erase index }
  dropping : ∀ index, t.drops index → t'.drops index ∨ ∀ k ∈ sh'.cached, k.field.index ≠ index
  dropped : ∀ index, t = .tableOp true index .lock → t'.drops index
  locks : t'.locksTables → t.locksTables ∨ ∃ drop index, t = .tableOp drop index .lock
  locked : (t.locksTables ∨ ∃ drop index, t = .tableOp drop index .lock) →
    sh.OnlyNops → sh'.OnlyNops

variable {t t' : Thread}

/-- A thread that is not a table operation has nothing to do with the table lock. -/
theorem KeepsLock.of_free (ht : ∀ drop index point, t ≠ .tableOp drop index point)
    (ht' : t'.locksTables = false) (htables : sh'.tables = sh.tables) : KeepsLock sh sh' t t' := by
  have hlocks : t.locksTables = false := by
    cases t with
    | tableOp drop index point => exact absurd rfl (ht drop index point)
    | _ => rfl
  have hdrops : ∀ index, t.drops index = false := by
    cases t with
    | tableOp drop index point => exact absurd rfl (ht drop index point)
    | _ => exact fun _ => rfl
  exact {
    tables := .inl htables
    dropping index h := absurd h (by simp [hdrops index])
    dropped index h := absurd h (ht true index .lock)
    locks h := absurd h (by simp [ht'])
    locked h := by
      rcases h with h | ⟨drop, index, h⟩
      · cases hlocks.symm.trans h
      · exact absurd h (ht drop index .lock) }

/-- A thread keeps being a worker or the partition worker. -/
structure KeepsKind (t t' : Thread) : Prop where
  worker : (∃ task, t = .worker task) → ∃ task, t' = .worker task
  partition : (∃ point, t = .partition point) → ∃ point, t' = .partition point

theorem KeepsKind.of_worker (task task' : Option Task) : KeepsKind (.worker task) (.worker task') :=
  ⟨fun _ => ⟨_, rfl⟩, fun ⟨_, h⟩ => nomatch h⟩

/-- What a calm step of a thread can do. -/
structure Moves (env : NodeEnv) (ts : List Thread) (sh : Shared) (t t' : Thread) (sh' : Shared) :
    Prop extends sh.Keeps sh' t', KeepsLock sh sh' t t', KeepsKind t t' where
  running : sh'.crashed = false
  ok : t'.Ok sh'
  stays : tablesFree ts = false → t.still → sh.OnlyNops → t'.still ∧ sh'.OnlyNops
  awaited : ∀ id ∈ t'.awaited, id ∈ t.awaited ∨ sh'.Signals id
  signals : ∀ id, sh.Signals id ∨ (∃ task, t = .worker (some task) ∧ task.id = id) →
    sh'.Signals id ∨ ∃ task, t' = .worker (some task) ∧ task.id = id
  tasks : ∀ task ∈ t.task, (∃ task' ∈ t'.task, task'.id = task.id ∧
    task'.fragment = task.fragment) ∨ Recorded sh' task.id task.fragment
  promised : sh'.partitionQueue.length + t'.promised ≤
    sh.partitionQueue.length + t.promised + (match t with
      | .offline _ _ (.rlock l) => (sh.shards env.order l).length
      | _ => 0)
  adds : sh'.adds + t'.adds ≤ sh.adds + t.adds
  lower : ∀ n, sh.cached.length ≤ n →
    t'.weight n + sh'.weight n < t.weight n + sh.weight n

/-- The thread serves a request and has no fragment in hand. -/
structure Thread.Serves (t : Thread) : Prop where
  worker : ∀ task, t ≠ .worker task
  partition : ∀ point, t ≠ .partition point
  task : t.task = none

theorem Shared.Signals.mono {id : ℕ} (h : sh.Signals id) (hdone : sh.done ⊆ sh'.done)
    (hqueue : sh.fragQueue ⊆ sh'.fragQueue)
    (haux : (∃ ids ∈ sh.aux, id ∈ ids) → ∃ ids ∈ sh'.aux, id ∈ ids) : sh'.Signals id :=
  h.imp (hdone ·) (.imp (fun ⟨q, hq, hid⟩ => ⟨q, hqueue hq, hid⟩) haux)

/-- A request has no worker's signal to give. -/
theorem Shared.Signals.of_request {id : ℕ}
    (h : sh.Signals id ∨ ∃ task, t = .worker (some task) ∧ task.id = id)
    (ht : ∀ task, t ≠ .worker task) : sh.Signals id :=
  h.resolve_right fun ⟨_, h, _⟩ => ht _ h

theorem KeepsKind.of_request (hworker : ∀ task, t ≠ .worker task)
    (hpartition : ∀ point, t ≠ .partition point) : KeepsKind t t' :=
  ⟨fun ⟨task, h⟩ => absurd h (hworker task), fun ⟨point, h⟩ => absurd h (hpartition point)⟩

variable {drop : Bool} {time : ℤ} {index : String} {point : TablePoint}

theorem length_shards_le (order : RangeOrder) (l : CacheLock) (sh : Shared) :
    (sh.shards order l).length ≤ sh.cached.length := by
  rw [Shared.shards, (order.perm _).length_eq]
  exact length_filter_le _ _

variable {queue : List ℕ} {w : ℕ}

/-- A queue that grows loses nothing. -/
theorem exists_mem_set {aux : List (List ℕ)} {id : ℕ} {queue' : List ℕ}
    (hqueue : aux[w]? = some queue) (hsub : queue ⊆ queue') (h : ∃ ids ∈ aux, id ∈ ids) :
    ∃ ids ∈ aux.set w queue', id ∈ ids := by
  obtain ⟨ids, hids, hid⟩ := h
  obtain ⟨j, hj⟩ := mem_iff_getElem?.mp hids
  by_cases hjw : w = j
  · subst hjw
    cases hqueue.symm.trans hj
    exact ⟨queue', mem_set (List.getElem?_eq_some_iff.mp hqueue).1 _, hsub hid⟩
  · refine ⟨ids, mem_iff_getElem?.mpr ⟨j, ?_⟩, hid⟩
    rw [getElem?_set_ne hjw, hj]

variable {k : ShardKey}

/-- A shard of a known table has an operation. -/
theorem exists_newPartitionOperation (hkeyed : allKeyed sh.tables = true)
    (hk : tableKnown sh.tables k) : newPartitionOperation sh.tables k = .ok (some k) := by
  obtain ⟨t, ht⟩ := isSome_iff_exists.mp hk
  obtain ⟨name, names, hinfo⟩ := allKeyed_lookup hkeyed ht
  exact newPartitionOperation_eq_some.mpr ⟨rfl, t, name, names, ht, hinfo⟩

variable {f : Fragment}

/-- The work on a fragment of a known field starts in order. -/
theorem ok_firstStage {id : ℕ} (hknown : fieldKnown sh.tables f.shard.field = true) :
    Task.Ok sh ⟨id, f, f.firstStage⟩ := by
  refine ⟨hknown, ?_, ?_⟩
  · fun_cases firstStage f with
    | case2 _ _ _ hclear => exact fun _ => hclear
    | _ => nofun
  · fun_cases firstStage f <;> nofun

theorem adds_firstStage_le (id : ℕ) (f : Fragment) : Task.adds ⟨id, f, f.firstStage⟩ ≤ 1 := by
  simp only [Task.adds, firstStage]
  split
  all_goals omega

theorem weight_firstStage_le (n : ℕ) (f : Fragment) : f.firstStage.weight n ≤ 7 + n := by
  simp only [firstStage]
  split
  · simp [Stage.weight]
  · split <;> simp only [Stage.weight] <;> omega

/-- The kind of a known field is known. -/
theorem exists_isBSI {tables : TableCache} {key : FieldKey}
    (h : fieldKnown tables key = true) : ∃ bsi, isBSI tables key = some bsi := by
  unfold fieldKnown fieldQuantum? at h
  unfold isBSI
  cases ht : tables.lookup key.index with
  | none => simp [ht] at h
  | some t =>
    cases ha : t.getAttribute key.field with
    | none => simp [ht, getFieldConfig, ha, Except.toOption] at h
    | some a => exact ⟨a.isBSI, by simp [ha]⟩

/-- A calm lookup of an index happens while nobody writes the cache. -/
theorem calm_lookup (hcalm : t.calm env ⟨sh, ts⟩ = true) {task : Task}
    (htask : t.task = some task) (hstage : task.stage = .lookup) :
    ts.any (inside .bsi) = false := by
  obtain ⟨id, f, st⟩ := task
  subst hstage
  cases t with
  | worker task =>
    cases htask
    simpa [Thread.calm] using hcalm
  | mutate items point awaits =>
    cases point with
    | applying task =>
      cases htask
      simpa [Thread.calm] using hcalm
    | _ => cases htask
  | _ => cases htask

/-! ### Table operations -/

variable (hrun : sh.crashed = false)

include hrun

/-- A request returns. -/
theorem Moves.returns (ht : t.Serves)
    (hdrops : ∀ j, t.drops j = false) (hlock : ∀ drop index, t ≠ .tableOp drop index .lock)
    (hlower : ∀ n, 0 < t.weight n) (ok : Bool) : Moves env ts sh t (.returned ok) sh where
  toKeeps := .refl sh _
  tables := .inl rfl
  dropping j h := absurd h (by simp [hdrops j])
  dropped j h := absurd h (hlock true j)
  locks := nofun
  locked _ h := h
  toKeepsKind := .of_request ht.worker ht.partition
  running := hrun
  ok := trivial
  stays _ _ h := ⟨rfl, h⟩
  awaited := nofun
  signals _ h := .inl (.of_request h ht.worker)
  tasks task h := absurd h (by simp [ht.task])
  promised := by
    have : (returned ok).promised = 0 := rfl
    omega
  adds := Nat.add_le_add_left (Nat.zero_le _) _
  lower n _ := Nat.add_lt_add_right (hlower n) _

/-- A step of a table operation that changes nothing that is shared. -/
theorem Moves.tableOp_same {p p' : TablePoint} (hp : p ≠ .lock)
    (hok : (tableOp drop index p').Ok sh) (hdrops : ∀ j, (tableOp drop index p).drops j →
      (tableOp drop index p').drops j) (hawaited : (tableOp drop index p').awaited ⊆
      (tableOp drop index p).awaited)
    (hlower : ∀ n, sh.cached.length ≤ n → p'.weight n < p.weight n) :
    Moves env ts sh (.tableOp drop index p) (.tableOp drop index p') sh where
  toKeeps := .refl sh _
  tables := .inl rfl
  dropping j h := .inl (hdrops j h)
  dropped j h := absurd (tableOp.inj h).2.2 hp
  locks _ := .inl (by cases p <;> first | rfl | exact absurd rfl hp)
  locked _ h := h
  toKeepsKind := .of_request nofun nofun
  running := hrun
  ok := hok
  stays _ h := by cases p <;> first | exact absurd rfl hp | cases h
  awaited id h := .inl (hawaited h)
  signals _ h := .inl (.of_request h nofun)
  tasks := nofun
  promised := Nat.le_refl _
  adds := Nat.le_refl _
  lower n hn := Nat.add_lt_add_right (hlower n hn) _

/-- A table operation takes the lock, and a drop removes the table. -/
theorem moves_lock (hfree : tablesFree ts = true) (tables : TableCache)
    (htables : drop = false ∧ tables = sh.tables ∨ drop = true ∧ tables = sh.tables.erase index) :
    Moves env ts sh (.tableOp drop index .lock) (.tableOp drop index (.announce .bitmap))
      { sh with tables := tables } where
  toKeeps := { Shared.Keeps.refl sh _ with
    queued _ _ h := .inl h
    cached _ h := .inl h }
  tables := by
    obtain ⟨-, htables⟩ | ⟨rfl, rfl⟩ := htables
    · exact .inl htables
    · exact .inr ⟨index, rfl, rfl⟩
  dropping := nofun
  dropped j h := by
    cases h
    simp [drops]
  locks _ := .inr ⟨_, _, rfl⟩
  locked _ h := h
  toKeepsKind := .of_request nofun nofun
  running := hrun
  ok := trivial
  stays h := by
    cases hfree.symm.trans h
  awaited := nofun
  signals _ h := .inl (.of_request h nofun)
  tasks := nofun
  promised := Nat.le_refl _
  adds := Nat.le_refl _
  lower n _ := Nat.add_lt_add_right (Nat.lt_succ_self _) _

/-- The shards of the table leave the caches. -/
theorem moves_truncate :
    Moves env ts sh (.tableOp drop index .truncate) (.tableOp drop index (.rlock .bitmap))
      { sh with cached := sh.cached.filter fun k => k.field.index ≠ index } where
  toKeeps := { Shared.Keeps.refl sh _ with
    cached _ h := .inl (mem_of_mem_filter h) }
  tables := .inl rfl
  dropping j h := by
    obtain ⟨-, hj⟩ := Bool.and_eq_true_iff.mp h
    rw [← of_decide_eq_true hj]
    exact .inr fun k hk => by simpa using (mem_filter.mp hk).2
  dropped := nofun
  locks _ := .inl rfl
  locked _ h := h
  toKeepsKind := .of_request nofun nofun
  running := hrun
  ok := trivial
  stays := nofun
  awaited := nofun
  signals _ h := .inl (.of_request h nofun)
  tasks := nofun
  promised := Nat.le_refl _
  adds := Nat.add_le_add_right (Nat.add_le_add_right (length_filter_le _ _) _) _
  lower n _ := Nat.add_lt_add_right (Nat.lt_succ_self _) _

/-- A flush sends its nop. -/
theorem moves_sendNop :
    Moves env ts sh (.tableOp drop index .sendNop) (.tableOp drop index (.awaitNop sh.nextID))
      { sh with nextID := sh.nextID + 1, fragQueue := sh.fragQueue ++ [.nop sh.nextID] } where
  aux := rfl
  queued id f h := .inl (by simpa using h)
  operations h := h
  cached _ h := .inl h
  handled _ h := h
  queue _ _ h := .inl (mem_append_left _ h)
  accepted _ _ h := .inl h
  tables := .inl rfl
  dropping := nofun
  dropped := nofun
  locks _ := .inl rfl
  locked _ h :=
    ⟨forall_mem_append.mpr ⟨h.1, forall_mem_singleton.mpr ⟨_, rfl⟩⟩, h.2⟩
  toKeepsKind := .of_request nofun nofun
  running := hrun
  ok := trivial
  stays := nofun
  awaited id h := by
    rw [mem_singleton.mp h]
    exact .inr (.inr (.inl ⟨.nop sh.nextID, by simp, rfl⟩))
  signals _ h := .inl ((Shared.Signals.of_request h nofun).mono (Subset.refl _)
    (subset_append_left _ _) id)
  tasks := nofun
  promised := Nat.le_refl _
  adds := by simp [Shared.adds, Queued.adds, adds]
  lower n _ := by
    simp only [weight, TablePoint.weight, Shared.weight, map_append, sum_append,
      map_cons, map_nil, sum_cons, sum_nil, Queued.weight]
    omega

/-- A flush sends its nop to one worker. -/
theorem moves_sendAux {workers ids : List ℕ}
    (hworkers : ∀ w' ∈ w :: workers, w' < workersCount) (hqueue : sh.aux[w]? = some queue) :
    Moves env ts sh (.tableOp drop index (.sendAux (w :: workers) ids))
      (.tableOp drop index (.sendAux workers (ids ++ [sh.nextID]))) { sh with
        nextID := sh.nextID + 1
        aux := sh.aux.set w (queue ++ [sh.nextID]) } := by
  have hw : w < sh.aux.length := (List.getElem?_eq_some_iff.mp hqueue).1
  have hsent : (queue ++ [sh.nextID]) ∈ sh.aux.set w (queue ++ [sh.nextID]) :=
    mem_set hw _
  exact {
    toKeeps := { Shared.Keeps.refl sh _ with aux := length_set }
    tables := .inl rfl
    dropping := nofun
    dropped := nofun
    locks _ := .inl rfl
    locked _ h := h
    toKeepsKind := .of_request nofun nofun
    running := hrun
    ok w' h := hworkers w' (mem_cons_of_mem _ h)
    stays := nofun
    awaited id h := by
      rcases mem_append.mp h with h | h
      · exact .inl h
      · rw [mem_singleton.mp h]
        exact .inr (.inr (.inr ⟨_, hsent, by simp⟩))
    signals _ h := .inl ((Shared.Signals.of_request h nofun).mono (Subset.refl _)
      (Subset.refl _) (exists_mem_set hqueue (subset_append_left _ _)))
    tasks := nofun
    promised := Nat.le_refl _
    adds := Nat.le_refl _
    lower n _ := by
      have hsum := sum_map_set length hqueue (queue ++ [sh.nextID])
      simp only [weight, TablePoint.weight, Shared.weight, length_cons,
        length_append, length_nil] at hsum ⊢
      omega }

variable {t' : Thread}

/-- Every step of a table operation. -/
theorem moves_tableStep (hok : (tableOp drop index point).Ok sh)
    (h : tableStep env ts sh drop index point = some (t', sh')) :
    Moves env ts sh (.tableOp drop index point) t' sh' := by
  revert h
  fun_cases tableStep env ts sh drop index point <;> rintro ⟨⟩
  next hfree =>
    cases drop with
    | false => exact moves_lock hrun hfree sh.tables (.inl ⟨rfl, rfl⟩)
    | true => exact moves_lock hrun hfree _ (.inr ⟨rfl, rfl⟩)
  next l _ =>
    exact .tableOp_same hrun (by simp) trivial (fun j h => h) (fun _ h => h)
      (fun n hn => by cases l <;> simp [TablePoint.weight])
  next l _ =>
    cases l <;> exact .tableOp_same hrun (by simp) trivial (fun j h => h) (fun _ h => h)
      (fun n hn => by simp [TablePoint.weight])
  next => exact moves_truncate hrun
  next l _ =>
    refine .tableOp_same hrun (by simp) trivial (fun j h => h) (fun _ h => h) (fun n hn => ?_)
    have hlen := length_shards_le env.order l sh
    cases l <;> simp only [TablePoint.weight] <;> omega
  next l =>
    cases l <;> exact .tableOp_same hrun (by simp) trivial (fun j h => h) (fun _ h => h)
      (fun n hn => by simp [TablePoint.weight])
  next l k ks _ =>
    refine .tableOp_same hrun (by simp) trivial (fun j h => h) (fun _ h => h) (fun n hn => ?_)
    cases l <;> simp [TablePoint.weight]
  next => exact moves_sendNop hrun
  next id _ =>
    refine .tableOp_same hrun (by simp) ?_ (fun j h => h) ?_ (fun n hn => ?_)
    · exact fun w hw => mem_range.mp hw
    · exact nofun
    · simp [TablePoint.weight]
  next ids =>
    exact .tableOp_same hrun (by simp) trivial (fun j h => h) (fun _ h => h)
      (fun n hn => by simp [TablePoint.weight])
  next w workers ids queue hqueue _ => exact moves_sendAux hrun hok hqueue
  next =>
    refine .returns (t := .tableOp drop index (.awaitAux [])) hrun ⟨nofun, nofun, rfl⟩
      (fun j => rfl) (fun _ _ h => ?_) (fun n => ?_) true
    · cases h
    · exact Nat.succ_pos _
  next id ids _ =>
    exact .tableOp_same hrun (by simp) trivial (fun j h => h)
      (fun _ h => mem_cons_of_mem _ h) (fun n hn => by simp [TablePoint.weight])

/-! ### Offline requests -/

/-- A step of an offline request that changes nothing that is shared. -/
theorem Moves.offline_same {p p' : OfflinePoint}
    (hok : (offline time index p').Ok sh) (hstays : tablesFree ts = false → ∀ l, p ≠ .rlock l)
    (hpromised : (offline time index p').promised ≤
      (offline time index p).promised + match p with
        | .rlock l => (sh.shards env.order l).length
        | _ => 0) (hlower : ∀ n, sh.cached.length ≤ n → p'.weight n < p.weight n) :
    Moves env ts sh (.offline time index p) (.offline time index p') sh where
  toKeeps := .refl sh _
  toKeepsLock := .of_free nofun rfl rfl
  toKeepsKind := .of_request nofun nofun
  running := hrun
  ok := hok
  stays hfree hstill := by
    cases p with
    | rlock l => exact absurd rfl (hstays hfree l)
    | _ => cases hstill
  awaited := nofun
  signals _ h := .inl (.of_request h nofun)
  tasks := nofun
  promised := by
    have := hpromised
    cases p <;> exact Nat.add_assoc _ _ _ ▸ Nat.add_le_add_left this _
  adds := Nat.le_refl _
  lower n hn := Nat.add_lt_add_right (hlower n hn) _

/-- An offline request sends an operation. -/
theorem moves_send {l : CacheLock} {op : PartitionOp}
    {ks : List ShardKey} (hok : (offline time index (.send l op k ks)).Ok sh) :
    Moves env ts sh (.offline time index (.send l op k ks)) (.offline time index (.iterate l ks))
      { sh with partitionQueue := sh.partitionQueue ++ [op] } where
  toKeeps := { Shared.Keeps.refl sh _ with
    operations h := forall_mem_append.mpr ⟨h, forall_mem_singleton.mpr hok.1⟩ }
  toKeepsLock := .of_free nofun rfl rfl
  toKeepsKind := .of_request nofun nofun
  running := hrun
  ok := hok.2
  stays := nofun
  awaited := nofun
  signals _ h := .inl (.of_request h nofun)
  tasks := nofun
  promised := by
    simp only [promised, length_append, length_singleton]
    omega
  adds := Nat.le_refl _
  lower n _ := by
    simp only [weight, OfflinePoint.weight, Shared.weight, length_append,
      length_singleton]
    omega

/-- Every calm step of an offline request. -/
theorem moves_offlineStep (hkeyed : allKeyed sh.tables = true)
    {point : OfflinePoint} (hok : (offline time index point).Ok sh)
    (hcalm : ∀ l, point = .rlock l → tablesFree ts = true)
    (hcached : tablesFree ts = true → ∀ k ∈ sh.cached, tableKnown sh.tables k)
    (h : offlineStep env ts sh time index point = some (t', sh')) :
    Moves env ts sh (.offline time index point) t' sh' := by
  have hserves : (offline time index point).Serves := ⟨nofun, nofun, rfl⟩
  revert h
  fun_cases offlineStep env ts sh time index point <;> rintro ⟨⟩
  next l _ =>
    have hfree := hcalm l rfl
    refine .offline_same hrun (fun k hk => hcached hfree k
      (mem_of_mem_filter ((env.order.perm _).mem_iff.mp hk)))
      (fun h => by rw [hfree] at h; cases h) (Nat.le_of_eq (Nat.zero_add _).symm)
      (fun n hn => ?_)
    have hlen := length_shards_le env.order l sh
    cases l <;> simp [OfflinePoint.weight] <;> omega
  next =>
    exact .offline_same hrun trivial nofun (Nat.le_refl _)
      (fun n _ => by simp [OfflinePoint.weight])
  next =>
    refine .returns hrun hserves (fun _ => rfl) nofun (fun n => ?_) true
    simp [weight, OfflinePoint.weight]
  next l k ks _ _ =>
    refine .offline_same hrun hok nofun (Nat.le_refl _) (fun n _ => ?_)
    simp only [OfflinePoint.weight, length_cons]
    omega
  next l k ks _ _ =>
    refine .offline_same hrun (fun k' hk' => hok k' (mem_cons_of_mem _ hk'))
      nofun (Nat.le_succ _) (fun n _ => ?_)
    simp only [OfflinePoint.weight, length_cons]
    omega
  next l k ks _ e hop =>
    rw [exists_newPartitionOperation hkeyed (hok k mem_cons_self)] at hop
    cases hop
  next l k ks _ op hop =>
    rw [exists_newPartitionOperation hkeyed (hok k mem_cons_self)] at hop
    cases hop
    refine .offline_same hrun ⟨rfl, fun k' hk' => hok k' (mem_cons_of_mem _ hk')⟩
      nofun (Nat.le_refl _) (fun n _ => ?_)
    simp only [OfflinePoint.weight]
    omega
  next => exact moves_send hrun hok

/-! ### The partition worker -/

/-- The partition worker takes an operation, goes on with it, or purges a shard. -/
theorem Moves.partition_of {p p' : PurgePoint} {cached : List ShardKey} {queue : List PartitionOp}
    (hqueue : ∀ op ∈ queue, op ∈ sh.partitionQueue)
    (hqueuelen : queue.length ≤ sh.partitionQueue.length)
    (hcached : ∀ k ∈ cached, k ∈ sh.cached) (hcachedlen : cached.length ≤ sh.cached.length)
    (hstays : p = .idle → sh.partitionQueue ≠ [])
    (hlower : p'.weight + 5 * queue.length < p.weight + 5 * sh.partitionQueue.length) :
    Moves env ts sh (.partition p) (.partition p')
      { sh with cached := cached, partitionQueue := queue } where
  toKeeps := { Shared.Keeps.refl sh _ with
    operations h op hop := h op (hqueue op hop)
    cached k h := .inl (hcached k h) }
  toKeepsLock := .of_free nofun rfl rfl
  worker := fun ⟨_, h⟩ => nomatch h
  partition _ := ⟨_, rfl⟩
  running := hrun
  ok := trivial
  stays _ hstill h := by
    cases p with
    | idle => exact absurd h.2 (hstays rfl)
    | _ => cases hstill
  awaited := nofun
  signals _ h := .inl (.of_request h nofun)
  tasks := nofun
  promised := hqueuelen
  adds := Nat.add_le_add_right (Nat.add_le_add_right hcachedlen _) _
  lower n _ := by
    simp only [weight, Shared.weight]
    omega

/-- Every step of the partition worker. -/
theorem moves_partitionStep (hops : ∀ op ∈ sh.partitionQueue, op.isSome) {p p' : PurgePoint}
    (h : partitionStep ts sh p = some (p', sh')) :
    Moves env ts sh (.partition p) (.partition p') sh' := by
  have hsame : p ≠ .idle → p'.weight < p.weight → sh' = sh →
      Moves env ts sh (.partition p) (.partition p') sh' := by
    rintro hp hlower rfl
    exact .partition_of hrun (fun _ h => h) (Nat.le_refl _) (fun _ h => h) (Nat.le_refl _)
      (fun h => absurd h hp) (Nat.add_lt_add_right hlower _)
  revert h
  fun_cases partitionStep ts sh p <;> rintro ⟨⟩
  next queue hqueue =>
    have := hops none (by rw [hqueue]; exact mem_cons_self)
    cases this
  next k isPK queue hqueue =>
    refine .partition_of hrun (fun op hop => ?_) ?_ (fun _ h => h) (Nat.le_refl _)
      (fun _ => ?_) ?_
    · rw [hqueue]
      exact mem_cons_of_mem _ hop
    · rw [hqueue]
      exact Nat.le_succ _
    · simp [hqueue]
    · simp only [hqueue, PurgePoint.weight, length_cons]
      omega
  case case10 k =>
    exact .partition_of hrun (fun _ h => h) (Nat.le_refl _)
      (fun _ h => mem_of_mem_filter h) (length_filter_le _ _) nofun
      (by simp [PurgePoint.weight])
  all_goals exact hsame (by simp) (by simp [PurgePoint.weight]) rfl

/-! ### Mutation requests -/

variable {items items' : List MutationItem} {awaits awaits' : List ℕ}

/-- A step of a mutation request that changes nothing that is shared. -/
theorem Moves.mutate_same {p p' : MutatePoint}
    (hok : (Thread.mutate items' p' awaits').Ok sh) (htask : (Thread.mutate items p awaits).task = none)
    (hstays : tablesFree ts = false → (Thread.mutate items p awaits).still →
      (Thread.mutate items' p' awaits').still) (hawaits : awaits' ⊆ awaits)
    (hadds : (Thread.mutate items' p' awaits').adds ≤ (Thread.mutate items p awaits).adds)
    (hlower : ∀ n, (Thread.mutate items' p' awaits').weight n <
      (Thread.mutate items p awaits).weight n) :
    Moves env ts sh (.mutate items p awaits) (.mutate items' p' awaits') sh where
  toKeeps := .refl sh _
  toKeepsLock := .of_free nofun rfl rfl
  toKeepsKind := .of_request nofun nofun
  running := hrun
  ok := hok
  stays hfree hstill h := ⟨hstays hfree hstill, h⟩
  awaited _ h := .inl (hawaits h)
  signals _ h := .inl (.of_request h nofun)
  tasks task h := absurd h (by simp [htask])
  promised := Nat.le_refl _
  adds := Nat.add_le_add_left hadds _
  lower n _ := Nat.add_lt_add_right (hlower n) _

/-- A mutation request starts to work on a fragment itself. -/
theorem moves_apply {sync : Bool} (hok : (Thread.mutate items (.ready f sync) awaits).Ok sh) :
    Moves env ts sh (.mutate items (.ready f sync) awaits)
      (.mutate items (.applying ⟨sh.nextID, f, f.firstStage⟩) awaits) { sh with
        nextID := sh.nextID + 1
        accepted := (sh.nextID, f) :: sh.accepted } where
  toKeeps := { Shared.Keeps.refl sh _ with
    accepted id f' h := by
      rcases mem_cons.mp h with h | h
      · cases h
        exact .inr (.inr ⟨_, rfl, rfl, rfl⟩)
      · exact .inl h }
  toKeepsLock := .of_free nofun rfl rfl
  toKeepsKind := .of_request nofun nofun
  running := hrun
  ok := ok_firstStage hok
  stays := nofun
  awaited _ h := .inl h
  signals _ h := .inl (.of_request h nofun)
  tasks := nofun
  promised := Nat.le_refl _
  adds := Nat.add_le_add_left (Nat.add_le_add_left (adds_firstStage_le _ f) _) _
  lower n _ := by
    have := weight_firstStage_le n f
    simp only [weight, MutatePoint.weight, Shared.weight]
    omega

/-- A mutation request leaves a fragment to the workers. -/
theorem moves_enqueue {sync : Bool} (hok : (Thread.mutate items (.ready f sync) awaits).Ok sh) :
    Moves env ts sh (.mutate items (.ready f sync) awaits)
      (.mutate items .config (awaits ++ [sh.nextID])) { sh with
        nextID := sh.nextID + 1
        accepted := (sh.nextID, f) :: sh.accepted
        fragQueue := sh.fragQueue ++ [.fragment sh.nextID f] } where
  aux := rfl
  queued id f' h := by
    rcases mem_append.mp h with h | h
    · exact .inl h
    · cases mem_singleton.mp h
      exact .inr hok
  operations h := h
  cached _ h := .inl h
  handled _ h := h
  toKeepsLock := .of_free nofun rfl rfl
  toKeepsKind := .of_request nofun nofun
  running := hrun
  ok := trivial
  stays := nofun
  awaited id h := by
    rcases mem_append.mp h with h | h
    · exact .inl h
    · rw [mem_singleton.mp h]
      exact .inr (.inr (.inl ⟨.fragment sh.nextID f, by simp, rfl⟩))
  signals _ h := .inl ((Shared.Signals.of_request h nofun).mono (Subset.refl _)
    (subset_append_left _ _) id)
  queue _ _ h := .inl (mem_append_left _ h)
  accepted id f' h := by
    rcases mem_cons.mp h with h | h
    · cases h
      exact .inr (.inl (by simp))
    · exact .inl h
  tasks := nofun
  promised := Nat.le_refl _
  adds := by
    simp only [Shared.adds, adds, map_append, sum_append, map_cons,
      map_nil, sum_cons, sum_nil, Queued.adds]
    omega
  lower n _ := by
    simp only [weight, MutatePoint.weight, Shared.weight, map_append, sum_append,
      map_cons, map_nil, sum_cons, sum_nil, Queued.weight, length_append,
      length_singleton]
    omega

section

variable {task : Task} {cached : List ShardKey} {handled : List (ℕ × Fragment × Handling)}

/-- A mutation request works on a fragment. -/
theorem moves_applying {stage : Option Stage} (h : ApplySpec sh task stage cached handled) :
    Moves env ts sh (.mutate items (.applying task) awaits)
      (.mutate items (stage.elim .config fun st => .applying { task with stage := st }) awaits)
      { sh with cached := cached, handled := handled } where
  toKeeps := { Shared.Keeps.refl sh _ with cached := h.known, handled := h.keeps }
  toKeepsLock := .of_free nofun rfl rfl
  toKeepsKind := .of_request nofun nofun
  running := hrun
  ok := by
    cases stage with
    | none => trivial
    | some st => exact h.next st rfl
  stays := nofun
  awaited _ h := .inl h
  signals _ h := .inl (.of_request h nofun)
  tasks task' ht := by
    cases ht
    cases stage with
    | none => exact .inr (h.finished rfl)
    | some st => exact .inl ⟨_, rfl, rfl, rfl⟩
  promised := Nat.le_refl _
  adds := by
    have := h.adds
    cases stage <;> simp only [Shared.adds, adds, elim_none, elim_some] at this ⊢ <;> omega
  lower n hn := by
    have := h.lower n hn
    cases stage <;>
      simp only [elim_none, elim_some, weight, MutatePoint.weight, Shared.weight] at this ⊢ <;>
      omega

/-- A worker works on a fragment. -/
theorem moves_working {st : Stage} (h : ApplySpec sh task (some st) cached handled) :
    Moves env ts sh (.worker (some task)) (.worker (some { task with stage := st }))
      { sh with cached := cached, handled := handled } where
  toKeeps := { Shared.Keeps.refl sh _ with cached := h.known, handled := h.keeps }
  toKeepsLock := .of_free nofun rfl rfl
  toKeepsKind := .of_worker _ _
  running := hrun
  ok := h.next st rfl
  stays := nofun
  awaited := nofun
  signals id hid := hid.imp_right fun ⟨task', ht, hid⟩ => by
    cases ht
    exact ⟨_, rfl, hid⟩
  tasks task' ht := by
    cases ht
    exact .inl ⟨_, rfl, rfl, rfl⟩
  promised := Nat.le_refl _
  adds := by
    have := h.adds
    simp only [Shared.adds, adds, elim_some] at this ⊢
    omega
  lower n hn := Nat.add_lt_add_right (h.lower n hn) _

/-- A worker ends its work and signals it. -/
theorem moves_worked (h : ApplySpec sh task none cached handled) :
    Moves env ts sh (.worker (some task)) (.worker none)
      (Shared.signal task.id { sh with cached := cached, handled := handled }) where
  toKeeps := { Shared.Keeps.refl sh _ with cached := h.known, handled := h.keeps }
  toKeepsLock := .of_free nofun rfl rfl
  toKeepsKind := .of_worker _ _
  running := hrun
  ok := trivial
  stays := nofun
  awaited := nofun
  signals id hid := .inl (by
    rcases hid with (hid | hid | hid) | ⟨task', ht, hid⟩
    · exact .inl (mem_cons_of_mem _ hid)
    · exact .inr (.inl hid)
    · exact .inr (.inr hid)
    · cases ht
      exact .inl (hid ▸ mem_cons_self))
  tasks task' ht := by
    cases ht
    exact .inr (h.finished rfl)
  promised := Nat.le_refl _
  adds := by
    have := h.adds
    simp only [Shared.adds, Shared.signal, adds, elim_none] at this ⊢
    omega
  lower n hn := Nat.add_lt_add_right (h.lower n hn) _

end

/-- Every calm step of a mutation request. -/
theorem moves_mutateStep (hkeyed : allKeyed sh.tables = true)
    {point : MutatePoint} (hok : (Thread.mutate items point awaits).Ok sh)
    (hcalm : ∀ task, point = .applying task → task.stage = .lookup →
      ts.any (inside .bsi) = false) (h : mutateStep env ts sh items awaits point = some (t', sh')) :
    Moves env ts sh (.mutate items point awaits) t' sh' := by
  have hreturns : ∀ {p : MutatePoint} {ok : Bool}, (Thread.mutate items p awaits).task = none →
      Moves env ts sh (.mutate items p awaits) (.returned ok) sh := by
    intro p ok htask
    refine .returns hrun ⟨(fun _ h => by cases h), (fun _ h => by cases h), htask⟩ (fun _ => rfl)
      (by rintro _ _ ⟨⟩) (fun n => ?_) ok
    simp only [weight]
    omega
  revert h
  fun_cases mutateStep env ts sh items awaits point with
  | case3 | case6 | case7 | case10 => rintro ⟨⟩
  | case1 | case5 | case13 =>
    rintro ⟨⟩
    exact hreturns rfl
  | case2 id awaits =>
    rintro ⟨⟩
    exact .mutate_same hrun trivial rfl (fun _ _ => rfl) (subset_cons_self _ _) (Nat.le_refl _)
      (fun n => by simp [weight])
  | case4 _ item items hfree hknown =>
    rintro ⟨⟩
    refine .mutate_same hrun ⟨item, rfl, hknown⟩ rfl (fun h => ?_) (Subset.refl _)
      (Nat.le_refl _) (fun n => by simp [weight, MutatePoint.weight])
    cases hfree.symm.trans h
  | case8 _ item items hfree hnone =>
    obtain ⟨_, ⟨⟩, hknown⟩ := hok
    obtain ⟨bsi, hbsi⟩ := exists_isBSI hknown
    cases hnone.symm.trans hbsi
  | case9 _ item items hfree bsi =>
    rintro ⟨⟩
    obtain ⟨_, ⟨⟩, hknown⟩ := hok
    refine .mutate_same hrun ?_ rfl (by rintro _ ⟨⟩) (Subset.refl _) (Nat.le_refl _) (fun n => ?_)
    · cases bsi <;> exact hknown
    · simp only [weight, MutatePoint.weight, length_cons, Nat.succ_mul]
      omega
  | case11 =>
    intro h
    obtain ⟨rfl, hsh⟩ := Prod.mk.inj (Option.some.inj h)
    exact hsh ▸ moves_apply hrun hok
  | case12 =>
    rintro ⟨⟩
    exact moves_enqueue hrun hok
  | case14 _ _ task =>
    intro h
    obtain ⟨⟨stage, sh''⟩, happly, h⟩ := map_eq_some_iff.mp h
    obtain ⟨cached, handled, rfl, hspec⟩ := applyStep_spec hkeyed hok (hcalm task rfl) happly
    cases stage with
    | some st | none =>
      cases h
      exact moves_applying hrun hspec

/-! ### Workers -/

variable {id : ℕ}

/-- A worker answers a nop of its own queue. -/
theorem moves_takeAux {i : ℕ} {ids : List ℕ} (haux : sh.aux[i]? = some (id :: ids)) :
    Moves env ts sh (.worker none) (.worker none)
      { sh.signal id with aux := sh.aux.set i ids } where
  toKeeps := { Shared.Keeps.refl sh _ with aux := length_set }
  toKeepsLock := .of_free nofun rfl rfl
  toKeepsKind := .of_worker _ _
  running := hrun
  ok := trivial
  stays _ _ h := ⟨rfl, h⟩
  awaited := nofun
  signals id' h := .inl (by
    rcases h.resolve_right fun ⟨_, h, _⟩ => nomatch h with h | h | ⟨ids', hids, hid⟩
    · exact .inl (mem_cons_of_mem _ h)
    · exact .inr (.inl h)
    · obtain ⟨j, hj⟩ := mem_iff_getElem?.mp hids
      by_cases hij : i = j
      · subst hij
        cases haux.symm.trans hj
        rcases mem_cons.mp hid with rfl | hid
        · exact .inl mem_cons_self
        · exact .inr (.inr ⟨ids, mem_set (List.getElem?_eq_some_iff.mp haux).1 _, hid⟩)
      · refine .inr (.inr ⟨ids', mem_iff_getElem?.mpr ⟨j, ?_⟩, hid⟩)
        rw [getElem?_set_ne hij, hj])
  tasks := nofun
  promised := Nat.le_refl _
  adds := Nat.le_refl _
  lower n _ := by
    have hsum := sum_map_set length haux ids
    simp only [weight, Shared.weight, Shared.signal, length_cons] at hsum ⊢
    omega

/-- A worker answers a nop of the common queue. -/
theorem moves_takeNop {queue : List Queued} (hqueue : sh.fragQueue = .nop id :: queue) :
    Moves env ts sh (.worker none) (.worker none) { sh.signal id with fragQueue := queue } where
  toKeeps := .of_tail hqueue _ nofun
  toKeepsLock := .of_free nofun rfl rfl
  toKeepsKind := .of_worker _ _
  running := hrun
  ok := trivial
  stays _ _ h := ⟨rfl, fun q hq => h.1 q (hqueue ▸ mem_cons_of_mem _ hq), h.2⟩
  awaited := nofun
  signals id' h := .inl (by
    rcases h.resolve_right fun ⟨_, h, _⟩ => nomatch h with h | ⟨q, hq, hid⟩ | h
    · exact .inl (mem_cons_of_mem _ h)
    · rw [hqueue] at hq
      rcases mem_cons.mp hq with rfl | hq
      · exact .inl (hid ▸ mem_cons_self)
      · exact .inr (.inl ⟨q, hq, hid⟩)
    · exact .inr (.inr h))
  tasks := nofun
  promised := Nat.le_refl _
  adds := by
    simp only [Shared.adds, Shared.signal, hqueue, map_cons, sum_cons]
    omega
  lower n _ := by
    simp only [weight, Shared.weight, Shared.signal, hqueue, map_cons, sum_cons,
      Queued.weight]
    omega

/-- A worker takes a fragment. -/
theorem moves_takeFragment {f : Fragment} {queue : List Queued}
    (hqueue : sh.fragQueue = .fragment id f :: queue)
    (hknown : fieldKnown sh.tables f.shard.field = true) :
    Moves env ts sh (.worker none) (.worker (some ⟨id, f, f.firstStage⟩))
      { sh with fragQueue := queue } where
  toKeeps := .of_tail hqueue sh.done fun _ _ h => ⟨_, rfl, Queued.fragment.inj h⟩
  toKeepsLock := .of_free nofun rfl rfl
  toKeepsKind := .of_worker _ _
  running := hrun
  ok := ok_firstStage hknown
  stays _ _ h := by
    obtain ⟨_, hnop⟩ := h.1 (.fragment id f) (hqueue ▸ mem_cons_self)
    cases hnop
  awaited := nofun
  signals id' h := by
    rcases h.resolve_right fun ⟨_, h, _⟩ => nomatch h with h | ⟨q, hq, hid⟩ | h
    · exact .inl (.inl h)
    · rw [hqueue] at hq
      rcases mem_cons.mp hq with rfl | hq
      · exact .inr ⟨_, rfl, hid⟩
      · exact .inl (.inr (.inl ⟨q, hq, hid⟩))
    · exact .inl (.inr (.inr h))
  tasks := nofun
  promised := Nat.le_refl _
  adds := by
    have := adds_firstStage_le id f
    simp only [Shared.adds, adds, hqueue, map_cons, sum_cons, Queued.adds]
    omega
  lower n _ := by
    have := weight_firstStage_le n f
    simp only [weight, Shared.weight, hqueue, map_cons, sum_cons, Queued.weight]
    omega

section

variable (hqueued : ∀ id f, Queued.fragment id f ∈ sh.fragQueue →
  fieldKnown sh.tables f.shard.field = true)
  {i : ℕ} {own : Bool}

include hqueued

/-- Every step of a worker without work. -/
theorem moves_idleStep
    (h : idleStep i own sh = some (t', sh')) : Moves env ts sh (.worker none) t' sh' := by
  revert h
  fun_cases idleStep i own sh <;> rintro ⟨⟩
  next _ id ids haux => exact moves_takeAux hrun haux
  next _ id queue hqueue => exact moves_takeNop hrun hqueue
  next _ id f queue hqueue =>
    exact moves_takeFragment hrun hqueue (hqueued id f (hqueue ▸ mem_cons_self))

/-- What a calm step of a thread does. -/
theorem moves_of_advance (hkeyed : allKeyed sh.tables = true)
    (hcached : tablesFree ts = true → ∀ k ∈ sh.cached, tableKnown sh.tables k)
    (hops : ∀ op ∈ sh.partitionQueue, op.isSome)
    (hok : t.Ok sh) (hcalm : t.calm env ⟨sh, ts⟩ = true)
    (h : advance env ts i own sh t = some (t', sh')) : Moves env ts sh t t' sh' := by
  cases t with
  | worker task =>
    cases task with
    | none => exact moves_idleStep hrun hqueued h
    | some task =>
      rw [advance, map_eq_some_iff] at h
      obtain ⟨⟨stage, sh''⟩, happly, h⟩ := h
      obtain ⟨cached, handled, rfl, hspec⟩ := applyStep_spec hkeyed hok
        (fun hstage => calm_lookup hcalm rfl hstage) happly
      cases stage with
      | some st =>
        cases h
        exact moves_working hrun hspec
      | none =>
        cases h
        exact moves_worked hrun hspec
  | partition point =>
    rw [advance, map_eq_some_iff] at h
    obtain ⟨⟨point', sh''⟩, hpoint, h⟩ := h
    cases h
    exact moves_partitionStep hrun hops hpoint
  | mutate items point awaits =>
    refine moves_mutateStep hrun hkeyed hok (fun task hpoint hstage => ?_) h
    subst hpoint
    exact calm_lookup hcalm rfl hstage
  | offline time index point =>
    refine moves_offlineStep hrun hkeyed hok (fun l hpoint => ?_) hcached h
    subst hpoint
    exact (Bool.and_eq_true_iff.mp hcalm).1
  | tableOp drop index point => exact moves_tableStep hrun hok h
  | returned ok => cases h

end

end QuantaStream.Server
