import QuantaStream.Lib.GoMap
import QuantaStream.Lib.GoString
import QuantaStream.Lib.Run

/-!
# The session router

A router owns sessions behind workers.  A worker takes messages from its channel, in their order: a
record is put into the session of its table, and a flush marker makes the worker flush all its
sessions and reply.  A ticker makes it flush or close idle sessions.  A worker whose put or idle
flush fails returns, and its channel is read no more; a flush that was asked for reports its error
and the worker goes on.

The calls of the router are threads next to the workers.  `Enqueue` waits for room in the
channel of its record; `Flush` sends a marker to every worker, waits for room in each channel,
and then for the replies, until its context is cancelled; `Close` closes the channels and waits
for the workers.  A send to a closed channel panics.

A session is modelled by the records whose mutations are in its batch buffer.  Its flush gives the
session a new buffer before it sends the old one, so a failure of the backend loses the records.
-/

namespace QuantaStream.Core
namespace Router

open GoString List GoMap

/-! ## Records and sessions -/

/-- `IngestRecord`, as far as the router reads it. -/
structure IngestRecord where
  tableName : GoString
  shardKey : GoString := []
  buildShardKey : GoString := []
  deriving DecidableEq, Repr

def IngestRecord.routeShardKey (r : IngestRecord) : GoString :=
  let key := trimSpace r.buildShardKey
  if key ≠ [] then key else trimSpace r.shardKey

/-- What `Enqueue` refuses at once. -/
def enqueueError (r : IngestRecord) : Option String :=
  if r.tableName = [] then some "table name is required"
  else if r.routeShardKey = [] then some "shard key or build shard key is required"
  else none

inductive RouterError where
  | openSession
  | payloadHash
  | putRow
  | flush
  | context
  deriving DecidableEq, Repr

/-- How the flush of a session ends: the batch buffer or the string index may fail to be sent. -/
inductive FlushOutcome where
  | ok
  | batchFailed
  | indexFailed
  deriving DecidableEq, Repr

/-- What a flush did to the records in a buffer. -/
structure Flushed where
  failed : Bool := false
  flushed : List ℕ := []
  lost : List ℕ := []
  deriving DecidableEq, Repr

/-- `Session.flush`: the session has a new buffer when the old one is sent, and nothing is sent of
an empty one. -/
def sessionFlush (outcome : FlushOutcome) (buffered : List ℕ) : Flushed :=
  match outcome with
  | .ok => { flushed := buffered }
  | .batchFailed => if buffered = [] then {} else { failed := true, lost := buffered }
  | .indexFailed => { failed := true, flushed := buffered }

/-- The sessions of a worker by their tables: the records in their buffers. -/
abbrev Sessions := GoMap GoString (List ℕ)

def Buffered (sessions : Sessions) (number : ℕ) : Prop :=
  ∃ table buffered, sessions.lookup table = some buffered ∧ number ∈ buffered

/-- What a pass does to a session it visits. -/
inductive Visit where
  | skip
  | flush (outcome : FlushOutcome)
  | close (outcome : FlushOutcome)
  deriving DecidableEq, Repr

/-- A pass over the sessions of a worker. -/
structure Pass where
  sessions : Sessions
  flushed : List ℕ := []
  lost : List ℕ := []
  failed : Bool := false

/-- A pass at one session; a session that is closed is forgotten. -/
def visitSession (visit : Visit) (table : GoString) (p : Pass) : Pass :=
  match p.sessions.lookup table with
  | none => p
  | some buffered =>
    match visit with
    | .skip => p
    | .flush outcome =>
      let r := sessionFlush outcome buffered
      { sessions := p.sessions.insert table []
        flushed := p.flushed ++ r.flushed
        lost := p.lost ++ r.lost
        failed := r.failed }
    | .close outcome =>
      let r := sessionFlush outcome buffered
      { sessions := if r.failed then p.sessions.insert table [] else p.sessions.erase table
        flushed := p.flushed ++ r.flushed
        lost := p.lost ++ r.lost
        failed := r.failed }

/-- A pass over sessions ends at the first that fails. -/
def visitSessions (visit : GoString → Visit) : List GoString → Pass → Pass
  | [], p => p
  | table :: tables, p =>
    let p := visitSession (visit table) table p
    if p.failed then p else visitSessions visit tables p

variable (order : RangeOrder)

/-- `flushIdleSessions`: the times of a session decide whether it is closed, flushed, or left. -/
def flushIdleSessions (visit : GoString → Visit) (sessions : Sessions) : Pass :=
  visitSessions visit ((sessions.range order).map Prod.fst) { sessions := sessions }

def flushWorkerSessions (outcome : GoString → FlushOutcome) (sessions : Sessions) : Pass :=
  visitSessions (fun table => .flush (outcome table)) ((sessions.range order).map Prod.fst)
    { sessions := sessions }

def closeWorkerSessions (outcome : GoString → FlushOutcome) (sessions : Sessions) : Pass :=
  visitSessions (fun table => .close (outcome table)) ((sessions.range order).map Prod.fst)
    { sessions := sessions }

/-- What the backend and the clock decide when a record is put. -/
structure PutEnv where
  opens : Bool := true
  hashes : Bool := true
  puts : Bool := true
  active : Option FlushOutcome := none
  deriving DecidableEq, Repr

structure PutResult where
  sessions : Sessions
  put : Bool := false
  flushed : List ℕ := []
  lost : List ℕ := []
  err : Option RouterError := none

/-- `putRecord`: a session is opened if the table has none; after the put the session is flushed
if its last flush is long ago. -/
def putRecord (env : PutEnv) (number : ℕ) (record : IngestRecord) (sessions : Sessions) : PutResult :=
  let existing := sessions.lookup record.tableName
  if existing = none ∧ env.opens = false then
    { sessions := sessions, err := some .openSession }
  else
    let buffered := existing.getD []
    let sessions := sessions.insert record.tableName buffered
    if env.hashes = false then { sessions := sessions, err := some .payloadHash }
    else if env.puts = false then { sessions := sessions, err := some .putRow }
    else
      match env.active with
      | none =>
        { sessions := sessions.insert record.tableName (buffered ++ [number]), put := true }
      | some outcome =>
        let r := sessionFlush outcome (buffered ++ [number])
        { sessions := sessions.insert record.tableName []
          put := true
          flushed := r.flushed
          lost := r.lost
          err := if r.failed then some .flush else none }

/-! ## Workers -/

/-- `sessionRouterMessage`: a record with the number of its `Enqueue`, or the marker of a `Flush`. -/
inductive Message where
  | record (number : ℕ) (record : IngestRecord)
  | flush (call : ℕ)
  deriving DecidableEq, Repr

/-- A worker runs, or its goroutine has returned. -/
inductive WorkerStatus where
  | running
  | stopped (err : Option RouterError)
  deriving DecidableEq, Repr

structure Worker where
  queue : List Message := []
  sessions : Sessions := ∅
  ticked : Bool := false
  status : WorkerStatus := .running

/-- The turn of a worker: a message, a tick, or the end of a closed channel. -/
inductive Turn where
  | take (env : PutEnv) (order : RangeOrder) (outcome : GoString → FlushOutcome)
  | idle (order : RangeOrder) (visit : GoString → Visit)
  | drain (order : RangeOrder) (outcome : GoString → FlushOutcome)

structure Work where
  worker : Worker
  put : List ℕ := []
  flushed : List ℕ := []
  lost : List ℕ := []
  reply : Option (ℕ × Option RouterError) := none
  err : Option RouterError := none

def statusAfter : Option RouterError → WorkerStatus
  | none => .running
  | some e => .stopped (some e)

def Pass.err (p : Pass) : Option RouterError := if p.failed then some .flush else none

/-- A turn of the loop of `startWorker`. -/
def workerTurn (closed : Bool) (w : Worker) : Turn → Option Work
  | .take env order outcome =>
    if w.status = .running then
      match w.queue with
      | [] => none
      | .record number record :: queue =>
        let r := putRecord env number record w.sessions
        some {
          worker := { w with queue := queue, sessions := r.sessions, status := statusAfter r.err }
          put := if r.put then [number] else []
          flushed := r.flushed
          lost := r.lost
          err := r.err }
      | .flush call :: queue =>
        let p := flushWorkerSessions order outcome w.sessions
        some {
          worker := { w with queue := queue, sessions := p.sessions }
          flushed := p.flushed
          lost := p.lost
          reply := some (call, p.err) }
    else none
  | .idle order visit =>
    if w.status = .running ∧ w.ticked = true then
      let p := flushIdleSessions order visit w.sessions
      some {
        worker := { w with sessions := p.sessions, ticked := false, status := statusAfter p.err }
        flushed := p.flushed
        lost := p.lost
        err := p.err }
    else none
  | .drain order outcome =>
    if w.status = .running ∧ closed = true ∧ w.queue = [] then
      let p := closeWorkerSessions order outcome w.sessions
      some {
        worker := { w with sessions := p.sessions, status := .stopped p.err }
        flushed := p.flushed
        lost := p.lost
        err := p.err }
    else none

/-! ## The router -/

/-- `SessionRouterConfig`, with the shard of each route key. -/
structure RouterConfig where
  shardCount : ℕ
  configuredChannelSize : Int
  shardOf : GoString → Fin shardCount

variable (cfg : RouterConfig)

/-- The size of the channels; `NewSessionRouter` has a default for it. -/
def RouterConfig.channelSize : ℕ :=
  if cfg.configuredChannelSize ≤ 0 then 100000 else cfg.configuredChannelSize.toNat

theorem RouterConfig.channelSize_pos : 0 < cfg.channelSize := by
  unfold channelSize
  split
  · exact Nat.succ_pos _
  · omega

def RouterConfig.shard (r : IngestRecord) : Fin cfg.shardCount :=
  cfg.shardOf r.routeShardKey

/-- A call of `Flush`: the records that were accepted before it, whether its context will be
cancelled, the shards it has still to send to and the shards whose replies it has still to take. -/
structure FlushCall (k : ℕ) where
  before : ℕ
  cancellable : Bool
  unsent : List (Fin k)
  awaited : List (Fin k) := []
  replies : Fin k → Option (Option RouterError) := fun _ => none
  firstErr : Option RouterError := none
  result : Option (Option RouterError) := none

/-- The router with its callers.  The last fields are history: the records in the order in which
their `Enqueue` returned, those that were put, flushed and lost with the call that lost them, and
the results of `Close`. -/
structure RouterState (cfg : RouterConfig) where
  workers : Fin cfg.shardCount → Worker := fun _ => {}
  closed : Bool := false
  panicked : Bool := false
  groupErr : Option RouterError := none
  waiting : List IngestRecord := []
  flushes : List (FlushCall cfg.shardCount) := []
  closing : ℕ := 0
  accepted : List IngestRecord := []
  put : List ℕ := []
  flushed : List ℕ := []
  lost : List (ℕ × Option ℕ) := []
  closeResults : List (Option RouterError) := []

/-- The steps of callers, workers and clocks. -/
inductive RouterEvent (cfg : RouterConfig) where
  | enqueue (record : IngestRecord)
  | send (caller : ℕ)
  | flush (cancellable : Bool) (order : List (Fin cfg.shardCount))
  | flushSend (call : ℕ)
  | flushReceive (call : ℕ)
  | flushCancel (call : ℕ)
  | close
  | closeReturn
  | tick (shard : Fin cfg.shardCount)
  | work (shard : Fin cfg.shardCount) (turn : Turn)

variable {cfg : RouterConfig}

def Worker.push (w : Worker) (m : Message) : Worker := { w with queue := w.queue ++ [m] }

variable (s : RouterState cfg)

def RouterState.setWorker (i : Fin cfg.shardCount) (w : Worker) : RouterState cfg :=
  { s with workers := Function.update s.workers i w }

def RouterState.setFlush (f : ℕ) (c : FlushCall cfg.shardCount) : RouterState cfg :=
  { s with flushes := s.flushes.set f c }

/-- The reply of a worker arrives in the channel of a call. -/
def FlushCall.answer {k : ℕ} (c : FlushCall k) (i : Fin k) (reply : Option RouterError) :
    FlushCall k :=
  { c with replies := Function.update c.replies i (some reply) }

/-- The replies of the calls after a worker's turn. -/
def answerCall {k : ℕ} (flushes : List (FlushCall k)) (i : Fin k) :
    Option (ℕ × Option RouterError) → List (FlushCall k)
  | none => flushes
  | some (f, reply) => flushes.modify f (fun c => c.answer i reply)

/-- The router after a worker's turn. -/
def RouterState.apply (i : Fin cfg.shardCount) (work : Work) : RouterState cfg :=
  { s with
    workers := Function.update s.workers i work.worker
    flushes := answerCall s.flushes i work.reply
    groupErr := s.groupErr.or work.err
    put := s.put ++ work.put
    flushed := s.flushed ++ work.flushed
    lost := s.lost ++ work.lost.map (fun number => (number, work.reply.map Prod.fst)) }

/-- `Enqueue` at its send: it waits while the channel is full. -/
def sendRecord (caller : ℕ) : Option (RouterState cfg) :=
  match s.waiting[caller]? with
  | none => none
  | some record =>
    let w := s.workers (cfg.shard record)
    if s.closed then some { s with panicked := true }
    else if w.queue.length < cfg.channelSize then
      some { s.setWorker (cfg.shard record) (w.push (.record s.accepted.length record)) with
        waiting := s.waiting.eraseIdx caller
        accepted := s.accepted ++ [record] }
    else none

/-- `Flush` at its next send: it waits while the channel is full. -/
def sendMarker (f : ℕ) : Option (RouterState cfg) :=
  match s.flushes[f]? with
  | none => none
  | some c =>
    match c.result, c.unsent with
    | none, i :: unsent =>
      if s.closed then some { s with panicked := true }
      else if (s.workers i).queue.length < cfg.channelSize then
        some ((s.setWorker i ((s.workers i).push (.flush f))).setFlush f
          { c with unsent := unsent, awaited := c.awaited ++ [i] })
      else none
    | _, _ => none

/-- `Flush` takes the reply of the next worker; the last one lets it return its first error. -/
def receiveReply (f : ℕ) : Option (RouterState cfg) :=
  match s.flushes[f]? with
  | none => none
  | some c =>
    match c.result, c.unsent, c.awaited with
    | none, [], i :: awaited =>
      match c.replies i with
      | none => none
      | some reply =>
        let firstErr := c.firstErr.or reply
        some (s.setFlush f { c with
          awaited := awaited
          firstErr := firstErr
          result := if awaited = [] then some firstErr else none })
    | _, _, _ => none

/-- `Flush` returns because its context is cancelled. -/
def cancelFlush (f : ℕ) : Option (RouterState cfg) :=
  match s.flushes[f]? with
  | none => none
  | some c =>
    if c.result = none ∧ c.cancellable = true then
      some (s.setFlush f { c with result := some (some .context) })
    else none

/-- A step of the router; it is none if the step cannot happen. -/
def routerStep? (e : RouterEvent cfg) : Option (RouterState cfg) :=
  if s.panicked then none
  else
    match e with
    | .enqueue record =>
      if enqueueError record = none then some { s with waiting := s.waiting ++ [record] } else none
    | .send caller => sendRecord s caller
    | .flush cancellable order =>
      if order.Perm (List.finRange cfg.shardCount) then
        some { s with
          flushes := s.flushes ++
            [{ before := s.accepted.length, cancellable := cancellable, unsent := order }] }
      else none
    | .flushSend f => sendMarker s f
    | .flushReceive f => receiveReply s f
    | .flushCancel f => cancelFlush s f
    | .close => some { s with closed := true, closing := s.closing + 1 }
    | .closeReturn =>
      if 0 < s.closing ∧ ∀ i, (s.workers i).status ≠ .running then
        some { s with
          closing := s.closing - 1
          closeResults := s.closeResults ++ [s.groupErr] }
      else none
    | .tick i =>
      if (s.workers i).status = .running then
        some (s.setWorker i { s.workers i with ticked := true })
      else none
    | .work i turn => (workerTurn s.closed (s.workers i) turn).map (s.apply i)

/-- A step of the router; one that cannot happen leaves the state. -/
def routerStep (s : RouterState cfg) (e : RouterEvent cfg) : RouterState cfg :=
  (routerStep? s e).getD s

def newRouter (cfg : RouterConfig) : RouterState cfg := {}

def oneWorker : RouterConfig where
  shardCount := 1
  configuredChannelSize := 8
  shardOf _ := 0

def onlyWorker : Fin oneWorker.shardCount := ⟨0, Nat.one_pos⟩

def orderRecord : IngestRecord where
  tableName := ascii "orders"
  shardKey := ascii "k"

/-! ## What happens to the records in the buffers -/

variable {buffered : List ℕ}

/-- A flush sends the buffer, or it fails and the buffer is lost. -/
theorem sessionFlush_cases (outcome : FlushOutcome) (buffered : List ℕ) :
    (sessionFlush outcome buffered).flushed = buffered ∧ (sessionFlush outcome buffered).lost = [] ∨
      outcome = .batchFailed ∧ (sessionFlush outcome buffered).failed = true ∧
        (sessionFlush outcome buffered).lost = buffered := by
  cases outcome with
  | ok | indexFailed => exact .inl ⟨rfl, rfl⟩
  | batchFailed => by_cases hnil : buffered = [] <;> simp [sessionFlush, hnil]

theorem sessionFlush_of_not_failed {outcome : FlushOutcome}
    (h : (sessionFlush outcome buffered).failed = false) :
    (sessionFlush outcome buffered).flushed = buffered := by
  rcases sessionFlush_cases outcome buffered with ⟨hflushed, _⟩ | ⟨_, hfailed, _⟩
  · exact hflushed
  · cases h.symm.trans hfailed

variable {number : ℕ}

theorem mem_sessionFlush (outcome : FlushOutcome) (h : number ∈ buffered) :
    number ∈ (sessionFlush outcome buffered).flushed ∨
      number ∈ (sessionFlush outcome buffered).lost := by
  rcases sessionFlush_cases outcome buffered with ⟨hflushed, _⟩ | ⟨_, _, hlost⟩
  · exact .inl (by rwa [hflushed])
  · exact .inr (by rwa [hlost])

/-- Only a failure of the batch buffer loses records. -/
theorem mem_lost_sessionFlush {outcome : FlushOutcome}
    (h : number ∈ (sessionFlush outcome buffered).lost) :
    outcome = .batchFailed ∧ number ∈ buffered ∧ (sessionFlush outcome buffered).failed = true := by
  rcases sessionFlush_cases outcome buffered with ⟨_, hlost⟩ | ⟨houtcome, hfailed, hlost⟩
  · simp [hlost] at h
  · exact ⟨houtcome, hlost ▸ h, hfailed⟩

def Visit.outcome : Visit → Option FlushOutcome
  | .skip => none
  | .flush outcome => some outcome
  | .close outcome => some outcome

/-- What one visit does, whichever it is: a session that is visited has its buffer flushed, and
the other sessions stay as they are. -/
theorem visitSession_spec (visit : Visit) (table : GoString) (p : Pass) :
    visitSession visit table p = p ∧ (p.sessions.lookup table = none ∨ visit.outcome = none) ∨
      ∃ outcome buffered, visit.outcome = some outcome ∧ p.sessions.lookup table = some buffered ∧
        (visitSession visit table p).flushed = p.flushed ++ (sessionFlush outcome buffered).flushed ∧
        (visitSession visit table p).lost = p.lost ++ (sessionFlush outcome buffered).lost ∧
        (visitSession visit table p).failed = (sessionFlush outcome buffered).failed ∧
        (∀ b, (visitSession visit table p).sessions.lookup table = some b → b = []) ∧
        ∀ t ≠ table, (visitSession visit table p).sessions.lookup t = p.sessions.lookup t := by
  unfold visitSession
  cases hlookup : p.sessions.lookup table with
  | none => exact .inl ⟨rfl, .inl rfl⟩
  | some buffered =>
    cases visit with
    | skip => exact .inl ⟨rfl, .inr rfl⟩
    | flush outcome =>
      refine .inr ⟨outcome, buffered, rfl, rfl, rfl, rfl, rfl, fun b hb => ?_, fun t ht => ?_⟩
      · simpa [lookup_insert] using hb.symm
      · rw [lookup_insert, if_neg ht]
    | close outcome =>
      refine .inr ⟨outcome, buffered, rfl, rfl, rfl, rfl, rfl, fun b hb => ?_, fun t ht => ?_⟩
      · dsimp only at hb
        split at hb <;> simp_all
      · dsimp only
        split <;> simp [ht]

/-- A record that a pass knows of: it is in a buffer, flushed, or lost. -/
def Pass.Covers (p : Pass) (number : ℕ) : Prop :=
  Buffered p.sessions number ∨ number ∈ p.flushed ∨ number ∈ p.lost

variable {table : GoString} {p : Pass}

theorem visitSession_covers {visit : Visit} (h : p.Covers number) :
    (visitSession visit table p).Covers number := by
  rcases visitSession_spec visit table p with
    ⟨hsame, _⟩ | ⟨outcome, buffered, _, hlookup, hflushed, hlost, _, _, hother⟩
  · rw [hsame]
    exact h
  rcases h with ⟨t, b, htb, hmem⟩ | hmem | hmem
  · by_cases ht : t = table
    · subst ht
      cases htb.symm.trans hlookup
      rcases mem_sessionFlush outcome hmem with hmem | hmem <;>
        simp [Pass.Covers, hflushed, hlost, hmem]
    · exact .inl ⟨t, b, by rw [hother t ht, htb], hmem⟩
  · simp [Pass.Covers, hflushed, hmem]
  · simp [Pass.Covers, hlost, hmem]

/-- A pass over sessions forgets no record. -/
theorem visitSessions_covers (visit : GoString → Visit) (tables : List GoString)
    (h : p.Covers number) : (visitSessions visit tables p).Covers number := by
  induction tables generalizing p with
  | nil => exact h
  | cons table tables ih =>
    simp only [visitSessions]
    split
    · exact visitSession_covers h
    · exact ih (visitSession_covers h)

variable {t : GoString} {b : List ℕ}

theorem visitSession_lookup {visit : Visit}
    (h : (visitSession visit table p).sessions.lookup t = some b) :
    b = [] ∨ p.sessions.lookup t = some b := by
  rcases visitSession_spec visit table p with ⟨hsame, _⟩ | ⟨_, _, _, _, _, _, _, hempty, hother⟩
  · rw [hsame] at h
    exact .inr h
  · by_cases ht : t = table
    · subst ht
      exact .inl (hempty b h)
    · rw [hother t ht] at h
      exact .inr h

variable {visit : GoString → Visit} {tables : List GoString}

theorem visitSessions_lookup (h : (visitSessions visit tables p).sessions.lookup t = some b) :
    b = [] ∨ p.sessions.lookup t = some b := by
  induction tables generalizing p with
  | nil => exact .inr h
  | cons table tables ih =>
    simp only [visitSessions] at h
    split at h
    · exact visitSession_lookup h
    · exact (ih h).elim .inl visitSession_lookup

/-- A pass that visits sessions to flush or close them and reports no failure leaves no record in
their buffers. -/
theorem visitSessions_empties (hvisit : ∀ t, (visit t).outcome ≠ none)
    (hok : (visitSessions visit tables p).failed = false) (ht : t ∈ tables)
    (h : (visitSessions visit tables p).sessions.lookup t = some b) : b = [] := by
  induction tables generalizing p with
  | nil => cases ht
  | cons table tables ih =>
    simp only [visitSessions] at hok h
    split at hok
    next hfailed => exact absurd hok (by rw [hfailed]; decide)
    next hfailed =>
      rw [if_neg hfailed] at h
      rcases mem_cons.mp ht with rfl | ht
      · rcases visitSessions_lookup h with hnil | hstep
        · exact hnil
        rcases visitSession_spec (visit t) t p with
          ⟨hsame, hnone | hskip⟩ | ⟨_, _, _, _, _, _, _, hempty, _⟩
        · simp [hsame, hnone] at hstep
        · exact absurd hskip (hvisit t)
        · exact hempty b hstep
      · exact ih hok ht h

/-- A pass loses a record only at a session whose batch buffer fails, and it reports that. -/
theorem visitSessions_lost (h : number ∈ (visitSessions visit tables p).lost) :
    number ∈ p.lost ∨ (visitSessions visit tables p).failed = true ∧
      ∃ table buffered, p.sessions.lookup table = some buffered ∧ number ∈ buffered ∧
        (visit table).outcome = some .batchFailed := by
  induction tables generalizing p with
  | nil => exact .inl h
  | cons table tables ih =>
    simp only [visitSessions] at h ⊢
    rcases visitSession_spec (visit table) table p with
      ⟨hsame, _⟩ | ⟨outcome, buffered, houtcome, hlookup, _, hlost, hfailed, _, _⟩
    · rw [hsame] at h ⊢
      split at h
      · exact .inl h
      next hok =>
        rw [if_neg hok]
        exact ih h
    · split at h
      next hfail =>
        rw [if_pos hfail]
        rcases mem_append.mp (hlost ▸ h) with h | h
        · exact .inl h
        · rcases mem_lost_sessionFlush h with ⟨rfl, hmem, _⟩
          exact .inr ⟨hfail, table, buffered, hlookup, hmem, houtcome⟩
      next hok =>
        rw [if_neg hok]
        rcases ih h with h | ⟨hfail, t, b, htb, hmem, hbatch⟩
        · rcases mem_append.mp (hlost ▸ h) with h | h
          · exact .inl h
          · exact absurd (hfailed.trans (mem_lost_sessionFlush h).2.2) hok
        · refine .inr ⟨hfail, t, b, ?_, hmem, hbatch⟩
          rcases visitSession_lookup htb with rfl | hb
          · cases hmem
          · exact hb

variable {sessions : Sessions}

/-- A pass over all sessions that flushes or closes each and reports no failure flushes every record
in their buffers. -/
theorem flushed_of_not_failed (hvisit : ∀ t, (visit t).outcome ≠ none) {order : RangeOrder}
    (hp : visitSessions visit ((sessions.range order).map Prod.fst) { sessions := sessions } = p)
    (hok : p.failed = false) (h : Buffered sessions number) : number ∈ p.flushed := by
  have hcovers : p.Covers number := hp ▸ visitSessions_covers _ _ (.inl h)
  subst hp
  rcases hcovers with ⟨t, b, htb, hmem⟩ | hmem | hmem
  · have hnil : b = [] := (visitSessions_lookup htb).elim id fun hlookup =>
      visitSessions_empties hvisit hok (mem_map_of_mem (mem_range.mpr hlookup)) htb
    simp [hnil] at hmem
  · exact hmem
  · rcases visitSessions_lost hmem with hmem | ⟨hfail, _⟩
    · cases hmem
    · cases hok.symm.trans hfail

/-- A put that reports no error has put the record, and no record that was in a buffer is lost. -/
theorem putRecord_ok {env : PutEnv} {record : IngestRecord}
    (hok : (putRecord env number record sessions).err = none) :
    (putRecord env number record sessions).put = true ∧
      ∀ m, m = number ∨ Buffered sessions m →
        m ∈ (putRecord env number record sessions).flushed ∨
          Buffered (putRecord env number record sessions).sessions m := by
  have hmember : ∀ m, m = number ∨ Buffered sessions m →
      m ∈ (sessions.lookup record.tableName).getD [] ++ [number] ∨
        ∃ t b, t ≠ record.tableName ∧ sessions.lookup t = some b ∧ m ∈ b := by
    rintro m (rfl | ⟨t, b, htb, hmem⟩)
    · exact .inl (mem_append_right _ (mem_singleton_self _))
    · by_cases ht : t = record.tableName
      · subst ht
        rw [htb]
        exact .inl (mem_append_left _ hmem)
      · exact .inr ⟨t, b, ht, htb, hmem⟩
  revert hok
  fun_cases putRecord env number record sessions
  next => nofun
  next => nofun
  next => nofun
  next hactive =>
    intro _
    refine ⟨rfl, fun m hm => .inr ?_⟩
    rcases hmember m hm with hmem | ⟨t, b, ht, htb, hmem⟩
    · exact ⟨record.tableName, _, by rw [lookup_insert, if_pos rfl], hmem⟩
    · exact ⟨t, b, by rw [lookup_insert, if_neg ht, lookup_insert, if_neg ht, htb], hmem⟩
  next outcome hactive r =>
    intro hok
    refine ⟨rfl, fun m hm => ?_⟩
    rcases hmember m hm with hmem | ⟨t, b, ht, htb, hmem⟩
    · have hfine : r.failed = false := by simpa using hok
      exact .inl ((sessionFlush_of_not_failed hfine).symm ▸ hmem)
    · exact .inr ⟨t, b, by rw [lookup_insert, if_neg ht, lookup_insert, if_neg ht, htb], hmem⟩

end Router
end QuantaStream.Core
