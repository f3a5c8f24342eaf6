import QuantaStream.Core.RowLog

/-!
# Replaying the log

A restart plans the recovery and replays the records of the plan, in order, by new sessions: one
for each table.  A record whose call is refused stops the replay.  At a commit record the sessions
are flushed.

The record of a call is in the log before the session has looked at the call.  So the calls that
the live sessions refused are replayed with the others, and the first of them stops the replay.
If the log has none of them, the replay accepts every record, and the rows of the storage are
those of the live sessions: the log writes what they wrote, and what had been sent before the crash
is written again.
-/

namespace QuantaStream.Core

open GoString List RowSystem LogEntry Run Overwrite Session GoMap

section

variable {S T K F V : Type} [DecidableEq S] [DecidableEq T] [DecidableEq K] [DecidableEq F]

/-! ## The replay -/

variable (schema : Schema T K F V)

/-- A session as `OpenSession` returns it: it has its table open and the tables of its parents. -/
def openSession (t : T) : Session T K F V :=
  { tables := t :: (schema.table t).parents.map ParentRelation.parent }

/-- What the replay of a record meets: the answers of the allocator, the order of the loops over
maps, and what the buffer of the session sends before the next record. -/
structure ReplayEnv (T K F : Type) where
  next : T → K → Except String ℕ
  order : RangeOrder := .asKept
  sending : Sending T F := .none

/-- The storage, the sessions by their tables, and which of them the replay has borrowed. -/
structure ReplayState (T K F V : Type) where
  system : RowSystem T T K F V
  borrowed : GoMap T Unit := ∅

def newReplay (store : Storage T F V) : ReplayState T K F V :=
  { system := { store := store, session := openSession schema } }

/-- The end of a record: the session of a table has run a call and its buffer sends something. -/
def ReplayState.ran (st : ReplayState T K F V) (t : T) (sess : Session T K F V)
    (sending : Sending T F) : ReplayState T K F V :=
  { system := sendBuffer t sending (st.system.setSession t sess)
    borrowed := st.borrowed.insert t () }

def flushAll (sessions : List S) (sys : RowSystem S T K F V) : RowSystem S T K F V :=
  sessions.foldl (fun sys s => flushSession s sys) sys

def displayText (s : GoString) : String := String.ofList (s.map fun b => Char.ofNat b.toNat)

/-- The body of the loop of `ReplayLocalWALRecoveryPlanToSessionPool`. -/
def replayRecord (env : ReplayEnv T K F) (e : LogEntry T F)
    (st : ReplayState T K F V) : Except String Unit × ReplayState T K F V :=
  match e.call.recode with
  | .put req =>
    match putRow schema st.system.store env.next req (st.system.session req.table) with
    | (.error err, sess) =>
      (.error s!"replay WAL put_row table={schema.tableName req.table} lsn={e.record.lsn} operation_id={displayText e.record.operationID}: {err}",
        st.ran req.table sess env.sending)
    | (.ok (), sess) => (.ok (), st.ran req.table sess env.sending)
  | .update req =>
    match updateFields schema req.table req.values env.order
        ((st.system.session req.table).setCurrent req.table req.columnID) with
    | (.error err, sess) =>
      (.error s!"replay WAL update_row table={schema.tableName req.table} lsn={e.record.lsn} operation_id={displayText e.record.operationID}: {err}",
        st.ran req.table sess env.sending)
    | (.ok (), sess) => (.ok (), st.ran req.table sess env.sending)
  | .commit =>
    -- `commitBoundary`: the borrowed sessions are flushed and released.
    (.ok (), { system := flushAll ((st.borrowed.range env.order).map Prod.fst) st.system })

/-- The loop of `ReplayLocalWALRecoveryPlanToSessionPool`, with what each record meets by its
sequence number. -/
def replay (schema : Schema T K F V) (env : ℕ → ReplayEnv T K F) :
    List (LogEntry T F) → ReplayState T K F V → Except String Unit × ReplayState T K F V
  | [], st => (.ok (), st)
  | e :: es, st =>
    match replayRecord schema (env e.record.lsn) e st with
    | (.error err, st) => (.error err, st)
    | (.ok (), st) => replay schema env es st

/-- The entries of the log that a plan replays. -/
def RecoveryPlan.entries (plan : RecoveryPlan) (log : List (LogEntry T F)) : List (LogEntry T F) :=
  log.filter (fun e => decide (e.record ∈ plan.replayRecords))

/-! ## Sessions of a replay -/

structure Session.Flushed (sess : Session T K F V) : Prop where
  stagedKeys : ∀ t c, (sess.stagedKeys t).lookup c = none
  staged : ∀ t c f, sess.staged t c f = none

/-- The session of a table in a replay: it has unsent data of its own table only and no wrong
memory of a domain. -/
structure ReplaySession (schema : Schema T K F V) (store : Storage T F V) (t : T)
    (sess : Session T K F V) : Prop where
  tables : sess.tables = t :: (schema.table t).parents.map ParentRelation.parent
  keys : ∀ t', t' ≠ t → ∀ c, (sess.stagedKeys t').lookup c = none
  cells : ∀ t', t' ≠ t → ∀ c f, sess.staged t' c f = none
  seenEmpty : ∀ t', t' ≠ t → ∀ shard, (sess.domains t').lookup (.shard shard) ≠ some .empty
  memory : ∀ k, ¬ StaleEmpty (schema.table t).keys (sess.keyState store t) k

/-- The sessions of a replay, whose rows are those after the crash with some writes; sessions that
are not borrowed have no unsent data. -/
structure Replaying (schema : Schema T K F V) (crash : Storage T F V) (st : ReplayState T K F V)
    (E : Effective T K F V) (ws : List (Write (T × K) F V)) : Prop
    extends Written schema crash st.system.store st.system.session E ws where
  session : ∀ t, ReplaySession schema st.system.store t (st.system.session t)
  idle : ∀ t, st.borrowed.lookup t = none → (st.system.session t).Flushed

variable {schema : Schema T K F V} {crash : Storage T F V} {st : ReplayState T K F V}
  {E : Effective T K F V} {ws : List (Write (T × K) F V)} {sess : Session T K F V}

omit [DecidableEq F] in
/-- The session of a table has no wrong memory of any table. -/
theorem ReplaySession.not_staleEmpty {store : Storage T F V} {t : T}
    (h : ReplaySession schema store t sess) (p : T) (k : K) :
    ¬ StaleEmpty (schema.table p).keys (sess.keyState store p) k := by
  by_cases hp : p = t
  · subst hp
    exact h.memory k
  · exact fun hstale => h.seenEmpty p hp _ hstale.2.1

/-- A replay starts with idle sessions. -/
theorem replaying_newReplay (h : StoredOk schema crash) :
    Replaying schema crash (newReplay schema crash) (crash.effective schema) [] where
  refines := h.refines fun _ => ⟨fun _ _ => rfl, fun _ _ => rfl, fun _ _ _ => rfl⟩
  rows := rfl
  stagedBy := nofun
  grow _ _ _ hv := hv
  session _ :=
    { tables := rfl
      keys _ _ _ := rfl
      cells _ _ _ _ := rfl
      seenEmpty _ _ _ := nofun
      memory _ hstale := nomatch hstale.2.1 }
  idle _ _ := ⟨fun _ _ => rfl, fun _ _ _ => rfl⟩

variable {w : Write (T × K) F V}

theorem ReplaySession.call {store : Storage T F V} {session : T → Session T K F V}
    {E' : Effective T K F V} (h : ReplaySession schema store w.row.1 (session w.row.1))
    (heffect : CallEffect schema store session E w.row.1 w sess E') :
    ReplaySession schema store w.row.1 sess where
  tables := by rw [heffect.tables, h.tables]
  keys t' ht' c := by
    rw [(heffect.otherTables t' ht').1]
    exact h.keys t' ht' c
  cells t' ht' c f := by
    cases hv : sess.staged t' c f with
    | none => rfl
    | some v =>
      rcases heffect.written t' c f v hv with hold | ⟨rfl, -, -⟩
      · rw [h.cells t' ht'] at hold
        cases hold
      · exact absurd rfl ht'
  seenEmpty t' ht' shard hempty := h.seenEmpty t' ht' shard ((heffect.otherTables t' ht').2 shard hempty)
  memory k hstale := h.memory k (heffect.memories _ _ hstale)

/-- A replayed call adds its write. -/
theorem Replaying.call (h : Replaying schema crash st E ws) {E' : Effective T K F V}
    (heffect : CallEffect schema st.system.store st.system.session E w.row.1 w sess E') :
    Replaying schema crash
      { system := st.system.setSession w.row.1 sess
        borrowed := st.borrowed.insert w.row.1 () } E' (ws ++ [w]) := by
  refine ⟨h.toWritten.call heffect, fun t => ?_, fun t hnone => ?_⟩
  · by_cases ht : t = w.row.1
    · subst ht
      simpa [setSession] using (h.session w.row.1).call heffect
    · simpa [setSession, ht] using h.session t
  · by_cases ht : t = w.row.1
    · subst ht
      simp at hnone
    · simp only [lookup_insert, ht, if_false] at hnone
      simpa [setSession, ht] using h.idle t hnone

omit [DecidableEq T] [DecidableEq K] [DecidableEq F] in
theorem Session.Flushed.sent (h : sess.Flushed) (sending : Sending T F) :
    (sess.sent sending).Flushed where
  stagedKeys t c := by simp [Session.sent, lookup_restrict, h.stagedKeys t c]
  staged t c f := by
    rw [Session.staged, Session.sent, CellBuffer.staged_sent (CellBuffer.unmixed_of_staged h.staged)]
    simp [h.staged t c f]

/-- The session of a table after one of the sessions has sent something. -/
theorem Replaying.session_sent (h : Replaying schema crash st E ws) (t : T) (sending : Sending T F)
    (t' : T) : ReplaySession schema (sendBuffer t sending st.system).store t'
      ((sendBuffer t sending st.system).session t') := by
  have hself := h.session t'
  -- What is stored afterwards was stored before, or it is sent now.
  have hstored : ∀ c v, ((sendBuffer t sending st.system).store.keys t').lookup c = some v →
      (st.system.store.keys t').lookup c = some v ∨
        ((st.system.session t).stagedKeys t').lookup c = some v := by
    intro c v hv
    simp only [sendBuffer, setSession, Storage.receive, lookup_union,
      lookup_restrict, Option.or_eq_some_iff] at hv
    rcases hv with hv | ⟨-, hv⟩
    · split_ifs at hv
      exact .inr hv
    · exact .inl hv
  by_cases ht : t' = t
  · subst ht
    simp only [sendBuffer, setSession, Function.update_self] at hstored ⊢
    refine ⟨hself.tables, fun p hp c => ?_, fun p hp c f => ?_, hself.seenEmpty, ?_⟩
    · simp [sent, lookup_restrict, hself.keys p hp c]
    · rw [staged, sent, CellBuffer.staged_sent (h.refines.unmixed t')]
      simp [hself.cells p hp c f]
    · rintro k ⟨hunknown, hempty, hauthority, c, hc⟩
      rcases hstored c _ hc with hc | hc
      · exact hself.memory k ⟨hunknown, hempty, hauthority, c, hc⟩
      -- A key that is sent is in the batch.
      · rcases (h.refines.stagedKeys t' t' c _ hc).2.2 with ⟨k', hentry, hk'⟩
        rw [← KeyCodec.entry_injective hentry] at hk'
        cases hunknown.symm.trans hk'
  · simp only [sendBuffer, setSession, Function.update_of_ne ht] at hstored ⊢
    refine { hself with memory := ?_ }
    rintro k ⟨hunknown, hempty, hauthority, c, hc⟩
    rcases hstored c _ hc with hc | hc
    · exact hself.memory k ⟨hunknown, hempty, hauthority, c, hc⟩
    · rw [(h.session t).keys t' ht] at hc
      cases hc

/-- The buffer of a session sends something. -/
theorem Replaying.send (h : Replaying schema crash st E ws) (t : T) (sending : Sending T F) :
    Replaying schema crash { st with system := sendBuffer t sending st.system } E ws := by
  refine ⟨h.toWritten.sent rfl (h.refines.sendBuffer t sending), h.session_sent t sending,
    fun t' hnone => ?_⟩
  · by_cases ht : t' = t
    · subst ht
      simpa [sendBuffer, setSession] using (h.idle t' hnone).sent sending
    · simpa [sendBuffer, setSession, ht] using h.idle t' hnone

/-! ## Records -/

/-- The allocator answers with unused columns. -/
def NextOk (env : ℕ → ReplayEnv T K F) (st : ReplayState T K F V) (e : LogEntry T F) : Prop :=
  ∀ t k, ∃ c, (env e.record.lsn).next t k = .ok c ∧
    UnusedColumn st.system.store st.system.session t c

/-- A replayable put meets the condition of a put in the session of its table. -/
theorem Replaying.putOk (h : Replaying schema crash st E ws) {req : PutRequest T}
    (hcall : Replayable schema crash.keys (.put req) w) {next : T → K → Except String ℕ}
    (hnext : ∀ t k, ∃ c, next t k = .ok c ∧ UnusedColumn st.system.store st.system.session t c) :
    PutOk schema st.system.store st.system.session req.table req next w := by
  have hsession := h.session req.table
  rcases hcall.plain with ⟨hprovided, hmode, hlookup, hchildren, hparents⟩
  refine ⟨hprovided, hmode, hlookup, hchildren, hcall.write.mono h.refines.storedOk h.grow,
    hsession.not_staleEmpty _ _, fun rel hrel => ⟨?_, fun read hread k hk => ?_⟩, hnext _ _,
    fun s' hs' => ⟨fun c hc => ?_, fun c _ f => ?_⟩⟩
  · rw [hsession.tables]
    exact mem_cons_of_mem _ (mem_map_of_mem hrel)
  · exact ⟨hparents rel hrel read hread k hk, hsession.not_staleEmpty _ _⟩
  · rw [(h.session s').keys req.table hs'.symm] at hc
    cases hc
  · exact (h.session s').cells req.table hs'.symm c f

/-- A replayable record is accepted, and the replay writes its row. -/
theorem Replaying.record (h : Replaying schema crash st E ws) {e : LogEntry T F}
    (hcall : Replayable schema crash.keys e.call w) (hmixed : Unmixed (ws ++ [w]))
    {env : ℕ → ReplayEnv T K F} (hnext : NextOk env st e) :
    ∃ st' E', replayRecord schema (env e.record.lsn) e st = (.ok (), st') ∧
      Replaying schema crash st' E' (ws ++ [w]) := by
  obtain ⟨record, call⟩ := e
  have hrecode := hcall.recode
  have hkinds := h.stagedAlike hmixed
  cases hwrite : hcall.write with
  | @put req k cells hkey hcells =>
    rcases putRow_ok h.refines (h.putOk hcall hnext) (hkinds _) with ⟨sess, E', hput, heffect⟩
    refine ⟨_, E', ?_, (h.call heffect).send req.table (env record.lsn).sending⟩
    simp only [replayRecord, hrecode, hput]
    rfl
  | @update req k cells hkey hcells =>
    have hwrite := hcall.write.mono h.refines.storedOk h.grow
    have hothers := fun s' hs' f => (h.session s').cells req.table (Ne.symm hs') req.columnID f
    rcases updateFields_ok h.refines ⟨hwrite, hothers⟩ (hkinds _) (env record.lsn).order with
      ⟨sess, E', hupdate, heffect⟩
    refine ⟨_, E', ?_, (h.call heffect).send req.table (env record.lsn).sending⟩
    simp only [replayRecord, hrecode, hupdate]
    rfl

/-- The step of a replay, whatever it returns. -/
def replayStep (schema : Schema T K F V) (env : ℕ → ReplayEnv T K F) (st : ReplayState T K F V)
    (e : LogEntry T F) : ReplayState T K F V :=
  (replayRecord schema (env e.record.lsn) e st).2

/-- Replayable records are all accepted. -/
theorem replay_ok (h : Replaying schema crash st E ws) {es : List (LogEntry T F)}
    {ws' : List (Write (T × K) F V)}
    (hcalls : List.Forall₂ (fun e w => Replayable schema crash.keys e.call w) es ws')
    (hmixed : Unmixed (ws ++ ws')) {env : ℕ → ReplayEnv T K F}
    (hnext : Meets (replayStep schema env) (NextOk env) st es) :
    (∀ rest, replay schema env (es ++ rest) st =
        replay schema env rest (exec (replayStep schema env) st es)) ∧
      ∃ E', Replaying schema crash (exec (replayStep schema env) st es) E' (ws ++ ws') := by
  induction hcalls generalizing st E ws with
  | nil =>
    rw [append_nil]
    exact ⟨fun _ => rfl, E, h⟩
  | @cons e w es ws' hcall _ ih =>
    have hfirst : Unmixed (ws ++ [w]) := hmixed.mono (by simp)
    rcases h.record hcall hfirst hnext.1 with ⟨st₁, E₁, hrecord, hst₁⟩
    obtain rfl : replayStep schema env st e = st₁ := congrArg Prod.snd hrecord
    rw [append_cons] at hmixed ⊢
    rcases ih hst₁ hmixed hnext.2 with ⟨hreplay, hrest⟩
    refine ⟨fun rest => ?_, hrest⟩
    rw [cons_append, replay, hrecord]
    exact hreplay rest

/-! ## Flushing -/

variable {sys : RowSystem S T K F V}

omit [DecidableEq T] [DecidableEq F] in
/-- Flushing sessions does not change the effective storage. -/
theorem refines_flushAll (h : Refines schema sys.store sys.session E) (sessions : List S) :
    Refines schema (flushAll sessions sys).store (flushAll sessions sys).session E := by
  induction sessions generalizing sys with
  | nil => exact h
  | cons s sessions ih => exact ih (h.flushSession s)

omit [DecidableEq T] [DecidableEq K] [DecidableEq F] in
/-- A session that was flushed, or had no unsent data, has none. -/
theorem flushed_flushAll {sessions : List S} (h : ∀ s, s ∉ sessions → (sys.session s).Flushed)
    (s : S) : ((flushAll sessions sys).session s).Flushed := by
  induction sessions generalizing sys with
  | nil => exact h s (by simp)
  | cons s₁ sessions ih =>
    refine ih fun s' hs' => ?_
    by_cases hself : s' = s₁
    · subst hself
      refine ⟨fun t c => ?_, fun t c f => ?_⟩
      · simp [flushSession, setSession, sent, lookup_restrict, Sending.all]
      · simp [flushSession, setSession, sent, Sending.all, CellBuffer.sent, CellBuffer.staged]
    · have hold := h s' (by simp [hself, hs'])
      simpa [flushSession, setSession, hself] using hold

omit [DecidableEq T] [DecidableEq F] in
/-- After a flush of all sessions the storage has their rows. -/
theorem rows_flushAll (h : Refines schema sys.store sys.session E) {sessions : List S}
    (hall : ∀ s, s ∉ sessions → (sys.session s).Flushed) :
    (flushAll sessions sys).store.rows schema = E.rows :=
  (refines_flushAll h sessions).rows_store (fun s => (flushed_flushAll hall s).stagedKeys)
    fun s => (flushed_flushAll hall s).staged

/-! ## Recovery -/

omit [DecidableEq S] in
/-- A log that ends with a commit record is replayed as a whole. -/
theorem Logged.plan {start : Storage T F V} (h : Logged schema start sys E ws) (now : Timestamp)
    (path : String) :
    ∃ plan, planRecovery path ((sys.append now .commit).log.map record) none = .ok plan ∧
      plan.entries (sys.append now .commit).log = (sys.append now .commit).log := by
  let commit : LocalWALRecord := prepareRecord now sys.nextLSN { kind := kindCommit }
  have hrecords : (sys.append now .commit).log.map record =
      sys.log.map record ++ [commit] := by
    simp [append, commit, LoggedCall.kind]
  rw [hrecords]
  have hbelow : ∀ r ∈ sys.log.map record, r.lsn < commit.lsn := by
    intro r hr
    rcases mem_map.mp hr with ⟨e, he, rfl⟩
    exact h.below e he
  have hincreasing := h.increasing.append h.positive hbelow
  rcases planRecovery_of_increasing hincreasing (fun _ (h : none = some _) => by cases h) path with
    ⟨plan, hplan, hmem⟩
  refine ⟨plan, hplan, filter_eq_self.mpr fun e he => decide_eq_true ((hmem e.record).mpr ?_)⟩
  have hrecord : e.record ∈ sys.log.map record ++ [commit] := hrecords ▸ mem_map_of_mem he
  refine ⟨hrecord, (pairwise_cons.mp hincreasing).1 _ (mem_map_of_mem hrecord), commit,
    mem_append_right _ (mem_singleton_self commit), rfl, ?_⟩
  rcases mem_append.mp hrecord with hrecord | hrecord
  · exact Nat.le_of_lt (hbelow _ hrecord)
  · exact Nat.le_of_eq (congrArg _ (mem_singleton.mp hrecord))

/-- A storage from which the log leads to the rows that it leads to from the start. -/
structure Recoverable (schema : Schema T K F V) (start : Storage T F V) (log : List (LogEntry T F))
    (ws : List (Write (T × K) F V)) (store : Storage T F V) : Prop where
  stored : StoredOk schema store
  calls : Forall₂ (fun e w => Replayable schema store.keys e.call w) log ws
  unmixed : Unmixed ws
  rows : applyAll ws (store.rows schema) = applyAll ws (start.rows schema)

omit [DecidableEq S] in
/-- What the sessions have sent before a crash is written again. -/
theorem Logged.recoverable {start : Storage T F V} (h : Logged schema start sys E ws)
    (hstart : StoredOk schema start) : Recoverable schema start sys.log ws sys.store where
  stored := h.refines.storedOk
  calls := h.calls
  unmixed := h.unmixed
  rows := (applyAll_eq_of_agreeOff (h.agreeOff hstart)).symm

/-- From a recoverable storage, the replay of the log and a commit leads to the live rows. -/
theorem Logged.recover {start store : Storage T F V} (hlive : Logged schema start sys E ws)
    (h : Recoverable schema start sys.log ws store) {env : ℕ → ReplayEnv T K F}
    (hnext : Meets (replayStep schema env) (NextOk env) (newReplay schema store) sys.log)
    (now : Timestamp) (path : String) :
    ∃ plan st', planRecovery path ((sys.append now .commit).log.map record) none = .ok plan ∧
      replay schema env (plan.entries (sys.append now .commit).log) (newReplay schema store) =
        (.ok (), st') ∧
      ∀ sessions : List S, (∀ s, s ∈ sessions) →
        st'.system.store.rows schema = (flushAll sessions sys).store.rows schema := by
  rcases hlive.plan now path with ⟨plan, hplan, hentries⟩
  rcases replay_ok (replaying_newReplay h.stored) h.calls h.unmixed hnext with
    ⟨hreplay, E₁, hst₁⟩
  generalize exec (replayStep schema env) (newReplay schema store) sys.log = st₁ at hreplay hst₁
  let borrowed := (st₁.borrowed.range (env sys.nextLSN).order).map Prod.fst
  have hidle : ∀ t, t ∉ borrowed → (st₁.system.session t).Flushed := by
    intro t ht
    refine hst₁.idle t ?_
    cases hlookup : st₁.borrowed.lookup t with
    | none => rfl
    | some u => exact absurd (mem_map_of_mem (mem_range.mpr hlookup)) ht
  refine ⟨plan, { system := flushAll borrowed st₁.system }, hplan, ?_, fun sessions hall => ?_⟩
  · rw [hentries, append]
    exact hreplay _
  · calc (flushAll borrowed st₁.system).store.rows schema
        = E₁.rows := rows_flushAll hst₁.refines hidle
      _ = applyAll ws (store.rows schema) := by rw [hst₁.rows, nil_append]
      _ = applyAll ws (start.rows schema) := h.rows
      _ = E.rows := hlive.rows.symm
      _ = (flushAll sessions sys).store.rows schema :=
          (rows_flushAll hlive.refines fun s hs => absurd (hall s) hs).symm

/-- Flushing sessions changes no rows. -/
theorem Written.flushAll {start : Storage T F V} {sys : RowSystem S T K F V} (sessions : List S)
    (h : Written schema start sys.store sys.session E ws) :
    Written schema start (flushAll sessions sys).store (flushAll sessions sys).session E ws := by
  induction sessions generalizing sys with
  | nil => exact h
  | cons s sessions ih => exact ih (h.sent rfl (h.refines.flushSession s))

/-- What a crash and any number of recoveries leave that are cut off: each has replayed some records
of the log and may have flushed sessions. -/
inductive Interrupted (schema : Schema T K F V) (log : List (LogEntry T F)) (crash : Storage T F V) :
    Storage T F V → Prop where
  | crash : Interrupted schema log crash crash
  | recovery {store env} (h : Interrupted schema log crash store) (n : ℕ)
      (hnext : Meets (replayStep schema env) (NextOk env) (newReplay schema store) (log.take n))
      (flushed : List T) : Interrupted schema log crash
        (flushAll flushed (exec (replayStep schema env) (newReplay schema store)
          (log.take n)).system).store

/-- A recovery that is cut off can be repeated. -/
theorem Recoverable.interrupted {start store : Storage T F V} {log : List (LogEntry T F)}
    (hcrash : Recoverable schema start log ws crash) (h : Interrupted schema log crash store) :
    Recoverable schema start log ws store := by
  induction h with
  | crash => exact hcrash
  | @recovery store env _ n hnext flushed h =>
    rcases replay_ok (replaying_newReplay h.stored) (forall₂_take n h.calls)
      (h.unmixed.mono (take_subset n ws)) hnext with ⟨-, E, hreplayed⟩
    have hflushed := hreplayed.toWritten.flushAll flushed
    refine ⟨hflushed.refines.storedOk, h.calls.imp fun _ _ hcall =>
      hcall.mono hflushed.refines.storedOk hflushed.grow, h.unmixed, Eq.trans ?_ h.rows⟩
    have hrows := applyAll_eq_of_agreeOff (hflushed.agreeOff h.stored)
    rw [← take_append_drop n ws, applyAll, applyAll, foldl_append, foldl_append]
    exact congrArg (foldl _ · _) hrows.symm

end

/-! ## A refused call -/

inductive OrderField where
  | id
  | amount
  deriving DecidableEq

/-- The amount of an order, which is also its number. -/
def orderAmount : Value → Except String ℤ
  | .int n => .ok n
  | _ => .error "not a number"

/-- A table of orders by their numbers. -/
def orderSchema : Schema Unit ℤ OrderField ℤ where
  table _ :=
    { keys :=
        { codec :=
            { tableName := "orders"
              primaryKey := "id"
              render := toString
              shard _ := 0
              authority n := n
              authority_injective _ h := h } }
      readKey row _ := (orderAmount row.value).map some
      attributes := [fun row _ => (orderAmount row.value).map fun n => [(.amount, some n)]]
      isPrimaryKey f := f = .id
      mapField _ v := (orderAmount v).map some }
  fieldName
    | .id => "id"
    | .amount => "amount"
  columnValue c := c

def orderStart : RowSystem Unit Unit ℤ OrderField ℤ :=
  { store := {}, session := fun _ => { tables := [()] } }

/-- A put of an order, whose allocator answers with a column. -/
def orderPut (n : ℤ) (c : ℕ) : RowEvent Unit Unit ℤ OrderField :=
  .put () noon { table := (), row := { value := .int n } } (fun _ _ => .ok c)

/-- The replay of a record in which the allocator answers with a column. -/
def orderEnv (c : ℕ) : ℕ → ReplayEnv Unit ℤ OrderField := fun lsn =>
  { next := fun _ _ => .ok (c + lsn) }

def renumber : RowEvent Unit Unit ℤ OrderField :=
  .update () noon { table := (), columnID := 1, values := AList.insert .id (.int 9) ∅ } .asKept

/-- Two orders are put, and between them the session refuses to update the number of the first. -/
def refusedRun : RowSystem Unit Unit ℤ OrderField ℤ :=
  exec (rowStep orderSchema) orderStart [orderPut 7 1, renumber, orderPut 8 2]

/-- An order is put and flushed, its amount is updated, and another order is put. -/
def orderEvents : List (RowEvent Unit Unit ℤ OrderField) :=
  [orderPut 7 1, .flush (),
    .update () noon { table := (), columnID := 1, values := AList.insert .amount (.int 9) ∅ } .asKept,
    orderPut 8 2]

def orderRun : RowSystem Unit Unit ℤ OrderField ℤ :=
  exec (rowStep orderSchema) orderStart orderEvents

theorem orderStart_ok : StartOk orderSchema orderStart :=
  ⟨⟨fun _ _ _ _ => nofun, fun _ _ _ => nofun⟩,
    fun _ => ⟨fun _ _ => rfl, fun _ _ => rfl, fun _ _ _ => rfl⟩, rfl, rfl⟩

/-- No call clears a cell of an order. -/
theorem order_sets {keys : Unit → KeyStore} {call : LoggedCall Unit OrderField}
    {w : Write (Unit × ℤ) OrderField ℤ} (h : CallWrite orderSchema keys call w) :
    ∀ e ∈ w.cells, e.2 ≠ none := by
  have hfield : ∀ a e, fieldCell orderSchema () a = some e → e.2 ≠ none := by
    rintro ⟨f, v⟩ e he
    cases f <;> cases v <;> cases he
    exact Option.some_ne_none _
  cases h with
  | @put req k cells hkey hcells =>
    simp only [rowCells, orderSchema, attributeCells, mapM_nil, mapM_cons] at hcells
    cases hamount : orderAmount req.row.value with
    | error e => simp [hamount, Except.map, Except.toOption] at hcells
    | ok n =>
      simp [hamount, Except.map, Except.toOption] at hcells
      simp [← hcells]
  | update hkey hcells =>
    intro e he
    have hall := forall₂_of_mapM hcells
    obtain ⟨i, hi, rfl⟩ := mem_iff_getElem.mp he
    exact hfield _ _ ((forall₂_iff_get.mp hall).2 i (hall.length_eq ▸ hi) hi).2

theorem order_unmixed {st : RowSystem Unit Unit ℤ OrderField ℤ}
    {w : Write (Unit × ℤ) OrderField ℤ} (h : ∀ e ∈ w.cells, e.2 ≠ none) :
    UnmixedWithLog orderSchema st w := by
  intro ws hws
  generalize st.log = log at hws
  have hsets : ∀ w' ∈ ws ++ [w], ∀ e ∈ w'.cells, e.2 ≠ none := by
    refine forall_mem_append.mpr ⟨fun w' hw' => ?_, forall_mem_singleton.mpr h⟩
    induction hws with
    | nil => cases hw'
    | cons hcall _ ih =>
      rcases mem_cons.mp hw' with rfl | hw'
      · exact order_sets hcall
      · exact ih hw'
  intro w₁ hw₁ w₂ hw₂ _ f v v' hv hv'
  exact iff_of_false (hsets w₁ hw₁ _ hv) (hsets w₂ hw₂ _ hv')

theorem orderEvents_ok :
    Meets (rowStep orderSchema) (RowOk orderSchema) orderStart orderEvents := by
  have hput : ∀ {st : RowSystem Unit Unit ℤ OrderField ℤ} {n : ℤ} {c : ℕ},
      (Value.int n).recode = .int n →
        lookupPrimaryKey (orderSchema.table ()).keys (st.store.keys ()) n = [] →
        UnusedColumn st.store st.session () c → RowOk orderSchema st (orderPut n c) := by
    intro st n c hrecode hnew hc _
    refine ⟨by simp [PutRequest.recode, hrecode], ⟨((), n), [(.amount, some n)]⟩, ?_, order_unmixed (by simp)⟩
    exact
      { provided := rfl
        mode := rfl
        shouldLookup := rfl
        children := rfl
        write := .put rfl rfl
        memory := fun ⟨_, _, _, c', hc'⟩ => not_mem_nil (hnew ▸ mem_lookupPrimaryKey.mpr hc')
        parents _ := nofun
        column := ⟨c, rfl, hc⟩
        others _ hs := absurd rfl hs }
  refine ⟨hput rfl rfl ?_, trivial, fun _ => ⟨rfl, ⟨((), 7), [(.amount, some 9)]⟩, ⟨.update rfl rfl, fun _ hs => absurd rfl hs⟩,
    order_unmixed (by simp)⟩, hput rfl rfl ?_, trivial⟩
  all_goals exact ⟨by decide, rfl, fun _ => rfl, fun _ => rfl, fun _ _ => rfl⟩

end QuantaStream.Core
