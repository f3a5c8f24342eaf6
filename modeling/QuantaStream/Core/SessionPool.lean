import Mathlib.Algebra.GroupWithZero.Nat
import QuantaStream.Lib.GoMap
import QuantaStream.Lib.GoString
import QuantaStream.Lib.Run

/-!
# The session pool

A pool lends sessions to its callers.  It keeps its permits in one channel and the idle sessions of
each table in another, with a generation for each table that is raised when the table is
invalidated.  This module models the pool as a state machine whose events are the critical sections
of its calls: a return takes one to look at the generation and one to put the session back, and
between them it flushes; an invalidation takes one to drain the idle sessions and one, under another
lock, to evict the table from the cache.
-/

namespace QuantaStream.Core
namespace Pool

open GoString List

/-! ## Sessions and tables -/

/-- `Table` in the cache: the name in its schema, the tables of its parent relations, and when it was
loaded. -/
structure CachedTable where
  name : GoString
  parents : List GoString
  loadedAt : ℕ

/-- What `LoadSchema` and the checks of `LoadTable` find for a table: its name and the tables of its
parent relations. -/
abbrev Schemas := GoString → Option (GoString × List GoString)

/-- `TableCacheStruct`. -/
abbrev TableCacheMap := GoMap GoString CachedTable

/-- `LoadTable`: a table in the cache is taken as it is, another one is loaded now. -/
def loadTable (now : ℕ) (schemas : Schemas) (cache : TableCacheMap) (name : GoString) :
    Option CachedTable × TableCacheMap :=
  match cache.lookup name with
  | some table => (some table, cache)
  | none =>
    match schemas name with
    | none => (none, cache)
    | some (schemaName, parents) =>
      let table : CachedTable := ⟨schemaName, parents, now⟩
      (some table, cache.insert name table)

/-- The loop of `OpenSession` over the parent tables; it stops at the first that cannot be loaded. -/
def loadParents (now : ℕ) (schemas : Schemas) (cache : TableCacheMap) :
    List GoString → Bool × TableCacheMap
  | [] => (true, cache)
  | parent :: parents =>
    match loadTable now schemas cache parent with
    | (none, cache) => (false, cache)
    | (some _, cache) => loadParents now schemas cache parents

/-- `OpenSession`: the table of a session, and what the cache is afterwards.  The buffers of the
tables may fail to build. -/
def openSession (now : ℕ) (schemas : Schemas) (buffered : Bool) (cache : TableCacheMap)
    (name : GoString) : Option CachedTable × TableCacheMap :=
  if name = [] then (none, cache)
  else
    match loadTable now schemas cache name with
    | (none, cache) => (none, cache)
    | (some table, cache) =>
      match loadParents now schemas cache table.parents with
      | (true, cache) => (if buffered then some table else none, cache)
      | (false, cache) => (none, cache)

/-- `Session`: the name it was opened for, its table, and `poolGeneration`. -/
structure PoolSession where
  home : GoString
  table : CachedTable
  generation : ℕ

/-- `sessionPoolEntry`: the channel of idle sessions, by their numbers, and its generation. -/
structure SessionPoolEntry where
  pool : List ℕ
  generation : ℕ

/-- A call of `ReturnWithProfile` that has looked at the generation of its session. -/
structure ReturnCall where
  tableName : GoString
  session : ℕ
  stale : Bool

/-- A call of `InvalidateTable`: the name it was given and when it raised the generation. -/
structure Invalidation where
  tableName : GoString
  began : ℕ

/-- `SessionPool` with the calls under way.  The sessions are all that were ever opened and a session
is named by its place among them; `lent` are those that callers have, `invalidated` the
invalidations that have returned. -/
structure PoolState where
  poolSize : ℕ
  semaphores : ℕ
  sessPoolMap : GoMap GoString SessionPoolEntry
  tableGenerations : GoMap GoString ℕ
  tableCache : TableCacheMap
  sessions : List PoolSession
  lent : List ℕ
  returning : List ReturnCall
  invalidating : List Invalidation
  invalidated : List Invalidation
  clock : ℕ

/-- `NewSessionPool` over a table cache. -/
def newSessionPool (poolSize : ℕ) (tableCache : TableCacheMap) : PoolState where
  poolSize := poolSize
  semaphores := poolSize
  sessPoolMap := ∅
  tableGenerations := ∅
  tableCache := tableCache
  sessions := []
  lent := []
  returning := []
  invalidating := []
  invalidated := []
  clock := 0

/-! ## Critical sections -/

/-- `sessionPoolTableKey`; `toLower` stands for `strings.ToLower`. -/
def sessionPoolTableKey (toLower : GoString → GoString) (tableName : GoString) : GoString :=
  toLower (trimSpace tableName)

/-- What `Borrow` gives its caller. -/
inductive BorrowResult where
  | drained
  | failed
  | session (id : ℕ)
  deriving DecidableEq

section

variable (toLower : GoString → GoString) (st : PoolState) (tableName : GoString)

def tableGeneration : ℕ :=
  (st.tableGenerations.lookup (sessionPoolTableKey toLower tableName)).getD 0

/-- `getPoolByTableName`: a table without idle sessions gets an empty entry. -/
def getPoolByTableName : SessionPoolEntry :=
  (st.sessPoolMap.lookup tableName).getD ⟨[], tableGeneration toLower st tableName⟩

def borrow (schemas : Schemas) (buffered : Bool) (st : PoolState) : PoolState × BorrowResult :=
  let cp := getPoolByTableName toLower st tableName
  if st.semaphores = 0 then
    ({ st with sessPoolMap := st.sessPoolMap.insert tableName cp }, .drained)
  else
    match cp.pool with
    | id :: pool =>
      ({ st with
          semaphores := st.semaphores - 1
          sessPoolMap := st.sessPoolMap.insert tableName ⟨pool, cp.generation⟩
          sessions := st.sessions.modify id fun s => { s with generation := cp.generation }
          lent := id :: st.lent }, .session id)
    | [] =>
      let opened := openSession st.clock schemas buffered st.tableCache tableName
      match opened.1 with
      | none =>
        ({ st with
            semaphores := st.semaphores - 1
            sessPoolMap := st.sessPoolMap.insert tableName cp
            tableCache := opened.2 }, .failed)
      | some table =>
        ({ st with
            semaphores := st.semaphores - 1
            sessPoolMap := st.sessPoolMap.insert tableName cp
            tableCache := opened.2
            sessions := st.sessions ++ [⟨tableName, table, cp.generation⟩]
            lent := st.sessions.length :: st.lent }, .session st.sessions.length)

/-- `returnSemaphoreLocked`: a permit that does not fit is dropped. -/
def returnSemaphore : PoolState :=
  { st with semaphores := min st.poolSize (st.semaphores + 1) }

def giveBack (id : ℕ) (st : PoolState) : PoolState := { st with lent := st.lent.erase id }

/-- The first critical section of `ReturnWithProfile`. -/
def returnBegin (id : ℕ) (st : PoolState) : PoolState :=
  match st.sessions[id]? with
  | none => st
  | some s =>
    { st with returning := st.returning ++
        [⟨tableName, id, decide (s.generation ≠ tableGeneration toLower st tableName)⟩] }

/-- The end of `ReturnWithProfile`: a session that is or has become stale and one whose flush failed
are closed, another one goes back to the idle sessions of its table. -/
def finishReturn (call : ReturnCall) (flushed : Bool) (st : PoolState) : PoolState :=
  if call.stale || !flushed || (st.sessions[call.session]?).all fun s =>
      s.generation ≠ tableGeneration toLower st call.tableName then
    giveBack call.session (returnSemaphore st)
  else
    let cp := getPoolByTableName toLower st call.tableName
    let pool :=
      -- A session for which there is no permit to give back is forgotten, one that does not fit is
      -- closed.
      if st.semaphores < st.poolSize ∧ cp.pool.length < st.poolSize then cp.pool ++ [call.session]
      else cp.pool
    giveBack call.session (returnSemaphore { st with
      sessPoolMap := st.sessPoolMap.insert call.tableName ⟨pool, cp.generation⟩
      sessions := st.sessions.modify call.session fun s => { s with generation := cp.generation } })

/-- The end of the call of `ReturnWithProfile` in place `i`. -/
def returnEnd (i : ℕ) (flushed : Bool) (st : PoolState) : PoolState :=
  match st.returning[i]? with
  | none => st
  | some call => finishReturn toLower call flushed { st with returning := st.returning.eraseIdx i }

/-- The first critical section of `InvalidateTable`: the generation of the table is raised and its
idle sessions are taken out. -/
def invalidateBegin (st : PoolState) : PoolState :=
  let canonical := sessionPoolTableKey toLower tableName
  if canonical = [] then { st with invalidated := ⟨tableName, st.clock⟩ :: st.invalidated }
  else
    { st with
      tableGenerations := st.tableGenerations.insert canonical
        ((st.tableGenerations.lookup canonical).getD 0 + 1)
      sessPoolMap := st.sessPoolMap.restrict fun key => sessionPoolTableKey toLower key ≠ canonical
      invalidating := ⟨tableName, st.clock⟩ :: st.invalidating }

/-- `invalidateTableCache`, with which the call of `InvalidateTable` in place `i` returns. -/
def invalidateEnd (i : ℕ) (st : PoolState) : PoolState :=
  match st.invalidating[i]? with
  | none => st
  | some call =>
    let canonical := sessionPoolTableKey toLower call.tableName
    { st with
      tableCache := st.tableCache.restrict fun key =>
        sessionPoolTableKey toLower key ≠ canonical &&
          !(st.tableCache.lookup key).any fun t => sessionPoolTableKey toLower t.name = canonical
      invalidating := st.invalidating.eraseIdx i
      invalidated := call :: st.invalidated }

def idleCount : ℕ :=
  (st.sessPoolMap.entries.map fun e => e.2.pool.length).sum

/-- `Recover`: every idle session is dropped, and a permit is added for each. -/
def recover : PoolState :=
  { st with
    semaphores := min st.poolSize (st.semaphores + idleCount st)
    sessPoolMap := st.sessPoolMap.mapValues fun _ e => { e with pool := [] } }

/-- A critical section of a call, or a table that another component loads into the cache. -/
inductive PoolEvent where
  | borrow (tableName : GoString) (schemas : Schemas) (buffered : Bool)
  | returnBegin (tableName : GoString) (id : ℕ)
  | returnEnd (i : ℕ) (flushed : Bool)
  | invalidateBegin (tableName : GoString)
  | invalidateEnd (i : ℕ)
  | recover
  | load (tableName : GoString) (schemas : Schemas)

def criticalSection : PoolEvent → PoolState
  | .borrow tableName schemas buffered => (borrow toLower tableName schemas buffered st).1
  | .returnBegin tableName id => returnBegin toLower tableName id st
  | .returnEnd i flushed => returnEnd toLower i flushed st
  | .invalidateBegin tableName => invalidateBegin toLower tableName st
  | .invalidateEnd i => invalidateEnd toLower i st
  | .recover => recover st
  | .load tableName schemas =>
    { st with tableCache := (loadTable st.clock schemas st.tableCache tableName).2 }

def poolStep (e : PoolEvent) : PoolState :=
  { criticalSection toLower st e with clock := st.clock + 1 }

end

/-! ## Permits -/

/-- The free permits and the sessions that are lent add up to the size of the pool. -/
def Conserved (st : PoolState) : Prop := st.semaphores + st.lent.length = st.poolSize

/-- The event takes and gives permits as it should: a borrow that finds a permit and no idle session
can open one; a session that is returned was lent, or no permit is missing; a recovery finds no idle
session, or no permit is missing. -/
def PermitsKept (toLower : GoString → GoString) (st : PoolState) : PoolEvent → Prop
  | .borrow tableName schemas buffered =>
    st.semaphores = 0 ∨ (getPoolByTableName toLower st tableName).pool ≠ [] ∨
      (openSession st.clock schemas buffered st.tableCache tableName).1.isSome
  | .returnEnd i _ =>
    ∀ call ∈ st.returning[i]?, call.session ∈ st.lent ∨ st.semaphores = st.poolSize
  | .recover => idleCount st = 0 ∨ st.semaphores = st.poolSize
  | _ => True

section

variable {toLower : GoString → GoString} {st : PoolState}

section

variable (h : Conserved st)

include h

theorem conserved_borrow_iff (tableName : GoString) (schemas : Schemas) (buffered : Bool) :
    Conserved (borrow toLower tableName schemas buffered st).1 ↔
      PermitsKept toLower st (.borrow tableName schemas buffered) := by
  unfold Conserved at h
  unfold borrow PermitsKept
  simp only
  by_cases hsem : st.semaphores = 0
  · simp [hsem, Conserved] at h ⊢
    exact h
  rw [if_neg hsem]
  cases hpool : (getPoolByTableName toLower st tableName).pool with
  | cons id pool =>
    simp only [Conserved, length_cons, ne_eq, reduceCtorEq, not_false_eq_true, true_or,
      or_true, iff_true]
    omega
  | nil =>
    cases hopen : (openSession st.clock schemas buffered st.tableCache tableName).1 with
    | none =>
      simp only [Conserved, hsem, ne_eq, not_true_eq_false, Option.isSome_none, or_self,
        iff_false, Bool.false_eq_true]
      omega
    | some table =>
      simp only [Conserved, length_cons, Option.isSome_some, or_true, iff_true]
      omega

theorem conserved_giveBack_iff (id : ℕ) :
    Conserved (giveBack id (returnSemaphore st)) ↔
      id ∈ st.lent ∨ st.semaphores = st.poolSize := by
  unfold Conserved at h
  unfold Conserved giveBack returnSemaphore
  by_cases hlent : id ∈ st.lent
  · have hpos : 0 < st.lent.length := length_pos_of_mem hlent
    rw [length_erase_of_mem hlent]
    simp only [hlent, true_or, iff_true]
    omega
  · rw [erase_of_not_mem hlent]
    simp only [hlent, false_or]
    omega

theorem conserved_finishReturn_iff (call : ReturnCall) (flushed : Bool) :
    Conserved (finishReturn toLower call flushed st) ↔
      call.session ∈ st.lent ∨ st.semaphores = st.poolSize := by
  unfold finishReturn
  split
  · exact conserved_giveBack_iff h call.session
  · -- The session goes back to its table, which changes neither the permits nor what is lent.
    have hpooled : ∀ sessPoolMap sessions, Conserved { st with
        sessPoolMap := sessPoolMap, sessions := sessions } := fun _ _ => h
    exact conserved_giveBack_iff (hpooled _ _) call.session

theorem conserved_returnEnd_iff (i : ℕ) (flushed : Bool) :
    Conserved (returnEnd toLower i flushed st) ↔ PermitsKept toLower st (.returnEnd i flushed) := by
  unfold returnEnd PermitsKept
  cases hcall : st.returning[i]? with
  | none => simp [hcall, h]
  | some call =>
    have hrest : Conserved { st with returning := st.returning.eraseIdx i } := h
    simp only [hcall, Option.mem_def, Option.some.injEq, forall_eq']
    exact conserved_finishReturn_iff hrest call flushed

theorem conserved_recover_iff : Conserved (recover st) ↔ PermitsKept toLower st .recover := by
  unfold Conserved at h
  unfold Conserved recover PermitsKept
  simp only
  omega

/-- The events that keep the permits in balance. -/
theorem conserved_poolStep_iff (e : PoolEvent) :
    Conserved (poolStep toLower st e) ↔ PermitsKept toLower st e := by
  change Conserved (criticalSection toLower st e) ↔ PermitsKept toLower st e
  cases e with
  | borrow tableName schemas buffered => exact conserved_borrow_iff h tableName schemas buffered
  | returnEnd i flushed => exact conserved_returnEnd_iff h i flushed
  | recover => exact conserved_recover_iff h
  | returnBegin tableName id | invalidateBegin tableName | invalidateEnd i =>
    simp only [criticalSection, returnBegin, invalidateBegin, invalidateEnd, PermitsKept, iff_true]
    split <;> exact h
  | load tableName schemas => exact iff_of_true h trivial

end

end

/-- In a run of the calls on a new pool the free permits and the lent sessions always add up to its
size exactly if every event takes and gives permits as it should. -/
theorem permits_conserved_iff (toLower : GoString → GoString) (poolSize : ℕ)
    (tableCache : TableCacheMap) (es : List PoolEvent) :
    (∀ es', es' <+: es →
        Conserved (Run.exec (poolStep toLower) (newSessionPool poolSize tableCache) es')) ↔
      Run.Meets (poolStep toLower) (PermitsKept toLower) (newSessionPool poolSize tableCache) es := by
  have hstep : ∀ st e, True → Conserved st →
      (Conserved (poolStep toLower st e) ↔ PermitsKept toLower st e) :=
    fun st e _ h => conserved_poolStep_iff h e
  have hstart : Conserved (newSessionPool poolSize tableCache) := Nat.add_zero poolSize
  exact Run.forall_prefix_iff_meets (poolStep toLower) (fun _ _ _ => trivial) hstep trivial hstart es

def oneTable (name : String) : Schemas := fun table =>
  if table = ascii name then some (ascii name, []) else none

/-- The permits and the lent sessions of a new pool after a run. -/
def permitsAfter (poolSize : ℕ) (es : List PoolEvent) : ℕ × ℕ :=
  let st := Run.exec (poolStep id) (newSessionPool poolSize ∅) es
  (st.semaphores, st.lent.length)

/-- A borrow of a table that does not exist takes the permit of a pool of one session for good; a
recovery gives a pool of two sessions a third permit while one session is lent. -/
theorem failed_borrow_keeps_permit :
    permitsAfter 1 [.borrow (ascii "lineitem") (oneTable "orders") true] = (0, 0) ∧
      permitsAfter 2 [.borrow (ascii "orders") (oneTable "orders") true,
        .borrow (ascii "orders") (oneTable "orders") true, .returnBegin (ascii "orders") 0,
        .returnEnd 0 true, .recover] = (2, 1) := by
  decide

end Pool
end QuantaStream.Core
