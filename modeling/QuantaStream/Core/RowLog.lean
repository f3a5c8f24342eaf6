import QuantaStream.Core.RowCalls
import QuantaStream.Core.RecoveryPlan

/-!
# Sessions that log their calls

A run of sessions on one storage and one log.  If every logged call meets its condition, the rows
of the sessions are those of the start with the writes of the log, in order.  The storage alone
may be behind: what is still in a buffer is missing from it, but it differs from the start only
where the log writes.
-/

namespace QuantaStream.Core

open List Function Storage RowSystem Overwrite Option

section

variable {S T K F V : Type}

/-! ## Rows of a storage -/

/-- A storage as one without buffers. -/
def Storage.effective (schema : Schema T K F V) (store : Storage T F V) : Effective T K F V where
  column t k := (lookupPrimaryKey (schema.table t).keys (store.keys t) k).head?
  cells := store.cells

def Storage.rows (schema : Schema T K F V) (store : Storage T F V) : Rows (T × K) F V :=
  (store.effective schema).rows

/-- A storage in which a key has at most one column, and never the column 0. -/
structure StoredOk (schema : Schema T K F V) (store : Storage T F V) : Prop where
  unique : ∀ t k c c', (store.keys t).lookup c = some ((schema.table t).keys.codec.entry k) →
    (store.keys t).lookup c' = some ((schema.table t).keys.codec.entry k) → c = c'
  nonzero : ∀ t k c, (store.keys t).lookup c = some ((schema.table t).keys.codec.entry k) → c ≠ 0

variable {schema : Schema T K F V} {store : Storage T F V} {session : S → Session T K F V}
  {E : Effective T K F V} {keys : T → KeyStore} {w : Write (T × K) F V}

/-- The column of a key is the one that stores it. -/
theorem StoredOk.column_eq_some_iff (h : StoredOk schema store) {t : T} {k : K} {c : ℕ} :
    (store.effective schema).column t k = some c ↔
      (store.keys t).lookup c = some ((schema.table t).keys.codec.entry k) := by
  rw [← mem_lookupPrimaryKey]
  rcases lookupPrimaryKey_cases (h.unique t k) with hmatched | ⟨c', hmatched⟩
  · simp [effective, hmatched]
  · simp [effective, hmatched, eq_comm]

/-! ## Writes and stored keys -/

def KeysGrow (keys keys' : T → KeyStore) : Prop :=
  ∀ t c v, (keys t).lookup c = some v → (keys' t).lookup c = some v

/-- A parent that was found is found again. -/
theorem StoredOk.parentCells_mono (h : StoredOk schema store)
    (hgrow : KeysGrow keys store.keys) {row : SourceRow} {rel : ParentRelation T K F}
    {cells : List (F × Option V)} (hcells : parentCells schema keys row rel = some cells) :
    parentCells schema store.keys row rel = some cells := by
  unfold parentCells at hcells ⊢
  cases hsource : rel.source with
  | direct read =>
    rwa [hsource] at hcells
  | lookup read =>
    simp only [hsource] at hcells ⊢
    split at hcells
    · cases hcells
    · exact hcells
    · rename_i k _
      split at hcells
      · rename_i c hmatched
        -- The column that had the key still has it, and no other does.
        have hc := mem_lookupPrimaryKey.mp (hmatched ▸ mem_singleton_self c)
        have hc' := mem_lookupPrimaryKey.mpr (hgrow _ _ _ hc)
        rcases lookupPrimaryKey_cases (h.unique rel.parent k) with hnone | ⟨c', hsome⟩
        · rw [hnone] at hc'
          cases hc'
        · rw [hsome] at hc' ⊢
          rwa [mem_singleton.mp hc'] at hcells
      · cases hcells

theorem mapM_mono {α β : Type} {f g : α → Option β} (h : ∀ a b, f a = some b → g a = some b)
    {as : List α} {bs : List β} (hf : as.mapM f = some bs) : as.mapM g = some bs := by
  induction as generalizing bs with
  | nil => exact hf
  | cons a as ih =>
    simp only [mapM_cons, Option.bind_eq_bind, Option.bind_eq_some_iff, Option.pure_def,
      Option.some.injEq] at hf ⊢
    rcases hf with ⟨b, hb, bs', hbs, rfl⟩
    exact ⟨b, h a b hb, bs', ih hbs, rfl⟩

/-- The write of a call stays the same while keys are added. -/
theorem CallWrite.mono {call : LoggedCall T F}
    (h : StoredOk schema store)
    (hgrow : KeysGrow keys store.keys) (hwrite : CallWrite schema keys call w) :
    CallWrite schema store.keys call w := by
  cases hwrite with
  | put hkey hcells =>
    refine .put hkey ?_
    simp only [rowCells, bind_eq_some_iff] at hcells ⊢
    rcases hcells with ⟨parents, hparents, hattributes⟩
    exact ⟨parents, mapM_mono (fun _ _ => h.parentCells_mono hgrow) hparents, hattributes⟩
  | update hkey hcells => exact .update (hgrow _ _ _ hkey) hcells

/-- What a put must be like for any session to accept it, besides having a write: it has the
default options and no rows of child tables, and its table and the tables of its parents are looked
up by their keys. -/
def Plain (schema : Schema T K F V) : LoggedCall T F → Prop
  | .put req => req.providedColumnID = 0 ∧ req.primaryKeyMode = .verifyExisting ∧
      (schema.table req.table).keys.shouldLookup = true ∧
      (schema.table req.table).children req.row = .ok [] ∧
      ∀ rel ∈ (schema.table req.table).parents, ∀ read, rel.source = .lookup read →
        ∀ k, read req.row = .ok (some k) → (schema.table rel.parent).keys.shouldLookup = true
  | .update _ => True
  | .commit => False

/-- Sending stages nothing. -/
theorem staged_of_sent {sess : Session T K F V} (h : sess.cells.Unmixed) (sending : Sending T F)
    {t : T} {c : ℕ} {f : F} {v : Option V} (hv : (sess.sent sending).staged t c f = some v) :
    sess.staged t c f = some v := by
  rw [Session.staged, Session.sent, CellBuffer.staged_sent h] at hv
  split_ifs at hv
  exact hv

/-! ## Idle sessions -/

variable [DecidableEq K]

/-- A session with an empty buffer and no batch. -/
structure Session.Idle (sess : Session T K F V) : Prop where
  identity : ∀ t k, (sess.identity t).lookup k = none
  stagedKeys : ∀ t c, (sess.stagedKeys t).lookup c = none
  staged : ∀ t c f, sess.staged t c f = none

/-- Idle sessions behave like their storage. -/
theorem StoredOk.refines (h : StoredOk schema store) (hidle : ∀ s, (session s).Idle) :
    Refines schema store session (store.effective schema) := by
  refine ⟨?_, ?_, ?_, ?_, ?_, ?_, ?_, fun _ _ _ _ => rfl,
    fun s => CellBuffer.unmixed_of_staged (hidle s).staged⟩
  · intro t k c
    rw [h.column_eq_some_iff]
    exact (or_iff_left (by simp [(hidle _).stagedKeys])).symm
  · intro t k k' c hk hk'
    rw [h.column_eq_some_iff] at hk hk'
    exact KeyCodec.entry_injective (some.inj (hk.symm.trans hk'))
  · intro t k c hk
    exact h.nonzero t k c (h.column_eq_some_iff.mp hk)
  · intro s t k c hk
    rw [(hidle s).identity] at hk
    cases hk
  · intro s t c v hv
    rw [(hidle s).stagedKeys] at hv
    cases hv
  all_goals
    intro s t c f v hv
    rw [(hidle s).staged] at hv
    cases hv

theorem Refines.storedOk (h : Refines schema store session E) : StoredOk schema store where
  unique _ _ _ _ hc hc' := h.heldOnce (.inl hc) (.inl hc')
  nonzero t k c hc := h.nonzero t k c ((h.held t k c).mpr (.inl hc))

/-- The rows of sessions without unsent data are those of their storage. -/
theorem Refines.rows_store (h : Refines schema store session E)
    (hkeys : ∀ s t c, ((session s).stagedKeys t).lookup c = none)
    (hcells : ∀ s t c f, (session s).staged t c f = none) : store.rows schema = E.rows := by
  funext a
  have hcolumn : (store.effective schema).column a.1 a.2 = E.column a.1 a.2 := by
    refine ext fun c => ?_
    rw [h.storedOk.column_eq_some_iff, h.held]
    exact (or_iff_left (by simp [hkeys])).symm
  have hcontent : store.cells = E.cells := by
    funext t c f
    exact h.stored t c f fun s => hcells s t c f
  simp only [rows, Effective.rows, hcolumn]
  simp only [effective, hcontent]

/-- Sending adds keys to the storage. -/
theorem Refines.keysGrow_receive (h : Refines schema store session E) (s : S)
    (sending : Sending T F) : KeysGrow store.keys (store.receive sending (session s)).keys := by
  intro t c v hv
  simp only [receive, GoMap.lookup_union, GoMap.lookup_restrict]
  cases hstaged : ((session s).stagedKeys t).lookup c with
  | none => simp [hv]
  | some v' =>
    rw [(h.stagedKeys s t c v' hstaged).1] at hv
    cases hv

theorem PutOk.plain {store : Storage T F V} {session : S → Session T K F V} {s : S}
    {req : PutRequest T} {next : T → K → Except String ℕ}
    (h : PutOk schema store session s req next w) : Plain schema (.put req : LoggedCall T F) :=
  ⟨h.provided, h.mode, h.shouldLookup, h.children, fun rel hrel read hread k hk =>
    ((h.parents rel hrel).2 read hread k hk).1⟩

end

/-! ## Runs -/

/-- What happens to sessions: a call, or a buffer sends something or is flushed. -/
inductive RowEvent (S T K F : Type) where
  | put (s : S) (now : Timestamp) (req : PutRequest T) (next : T → K → Except String ℕ)
  | update (s : S) (now : Timestamp) (req : UpdateRequest T F) (order : RangeOrder)
  | send (s : S) (sending : Sending T F)
  | flush (s : S)

section

variable {S T K F V : Type} [DecidableEq S] [DecidableEq T] [DecidableEq K] [DecidableEq F]

variable (schema : Schema T K F V)

def rowStep (st : RowSystem S T K F V) : RowEvent S T K F → RowSystem S T K F V
  | .put s now req next => (callPut schema next s now req st).2
  | .update s now req order => (callUpdate schema s now req order st).2
  | .send s sending => sendBuffer s sending st
  | .flush s => flushSession s st

/-- A write and the writes of the log do not both set and clear a cell. -/
def UnmixedWithLog (st : RowSystem S T K F V) (w : Write (T × K) F V) : Prop :=
  ∀ ws, Forall₂ (fun e w => CallWrite schema st.store.keys e.call w) st.log ws →
    Unmixed (ws ++ [w])

/-- The condition of a step: a call that is logged keeps its values in the log, meets the condition
of the call, and leaves no cell both set and cleared. -/
def RowOk (st : RowSystem S T K F V) : RowEvent S T K F → Prop
  | .put s _ req next => req.table ∈ (st.session s).tables → req.recode = req ∧
      ∃ w, PutOk schema st.store st.session s req next w ∧ UnmixedWithLog schema st w
  | .update s _ req _ => req.table ∈ (st.session s).tables → req.recode = req ∧
      ∃ w, UpdateOk schema st.store st.session s req w ∧ UnmixedWithLog schema st w
  | .send _ _ => True
  | .flush _ => True

/-- A logged call that a replay can repeat. -/
structure Replayable (schema : Schema T K F V) (keys : T → KeyStore) (call : LoggedCall T F)
    (w : Write (T × K) F V) : Prop where
  write : CallWrite schema keys call w
  recode : call.recode = call
  plain : Plain schema call

/-- Sessions whose rows are those of a start with some writes: the keys of the start are stored, and
what the sessions have staged are cells of the writes. -/
structure Written (schema : Schema T K F V) (start store : Storage T F V)
    (session : S → Session T K F V) (E : Effective T K F V)
    (ws : List (Write (T × K) F V)) : Prop where
  refines : Refines schema store session E
  rows : E.rows = applyAll ws (start.rows schema)
  grow : KeysGrow start.keys store.keys
  stagedBy : ∀ s t c f v, (session s).staged t c f = some v →
    ∃ k, E.column t k = some c ∧ ∃ w ∈ ws, w.row = (t, k) ∧ (f, v) ∈ w.cells

/-- Sessions whose log has the writes that lead from a storage to their rows. -/
structure Logged (schema : Schema T K F V) (start : Storage T F V) (st : RowSystem S T K F V)
    (E : Effective T K F V) (ws : List (Write (T × K) F V)) : Prop
    extends Written schema start st.store st.session E ws where
  calls : Forall₂ (fun e w => Replayable schema st.store.keys e.call w) st.log ws
  unmixed : Unmixed ws
  increasing : Increasing 0 (st.log.map LogEntry.record)
  below : ∀ e ∈ st.log, e.record.lsn < st.nextLSN
  positive : 0 < st.nextLSN

variable {schema : Schema T K F V} {start : Storage T F V} {st : RowSystem S T K F V}
  {E : Effective T K F V} {ws : List (Write (T × K) F V)}
  {w : Write (T × K) F V}

omit [DecidableEq T] [DecidableEq K] in
theorem Replayable.mono {store : Storage T F V} {keys : T → KeyStore} {call : LoggedCall T F}
    (hstored : StoredOk schema store) (hgrow : KeysGrow keys store.keys)
    (h : Replayable schema keys call w) : Replayable schema store.keys call w :=
  ⟨h.write.mono hstored hgrow, h.recode, h.plain⟩

variable {sess : Session T K F V}

section

variable {store : Storage T F V} {session : S → Session T K F V}
  (h : Written schema start store session E ws) {s : S}

include h

/-- A call adds its write. -/
theorem Written.call {E' : Effective T K F V}
    (heffect : CallEffect schema store session E s w sess E') :
    Written schema start store (update session s sess) E' (ws ++ [w]) := { heffect with
  rows := by
    rw [heffect.rows, h.rows]
    simp [applyAll]
  grow := h.grow
  stagedBy s' t c f v hv := by
    have hold : (session s').staged t c f = some v → ∃ k, E'.column t k = some c ∧
        ∃ w' ∈ ws ++ [w], w'.row = (t, k) ∧ (f, v) ∈ w'.cells := by
      intro hv
      rcases h.stagedBy s' t c f v hv with ⟨k, hk, w', hw', hcell⟩
      exact ⟨k, heffect.columns t k c hk, w', mem_append_left _ hw', hcell⟩
    by_cases hs : s' = s
    · subst hs
      rw [update_self] at hv
      rcases heffect.written t c f v hv with hv | ⟨rfl, hcolumn, hcell⟩
      · exact hold hv
      · exact ⟨w.row.2, hcolumn, w, by simp, rfl, hcell⟩
    · rw [update_of_ne hs] at hv
      exact hold hv }

/-- What a session sends changes no rows. -/
theorem Written.sent {sending : Sending T F} (hcells : sess.cells = (session s).cells.sent sending)
    (hrefines : Refines schema (store.receive sending (session s)) (update session s sess) E) :
    Written schema start (store.receive sending (session s)) (update session s sess) E ws where
  refines := hrefines
  rows := h.rows
  grow t c v hv := h.refines.keysGrow_receive s sending t c v (h.grow t c v hv)
  stagedBy s' t c f v hv := by
    refine h.stagedBy s' t c f v ?_
    by_cases hs : s' = s
    · subst hs
      rw [update_self, Session.staged, hcells] at hv
      exact staged_of_sent (h.refines.unmixed s') sending hv
    · rwa [update_of_ne hs] at hv

omit [DecidableEq S] in
/-- A session has staged nothing the other way than a write that does not mix with the writes
before it. -/
theorem Written.stagedAlike (hmixed : Unmixed (ws ++ [w])) (s : S) :
    StagedAlike E (session s) w := by
  intro staged hstaged e he v hv
  have hw : w ∈ ws ++ [w] := by simp
  rcases hv with hv | hv
  · rcases hstaged e.1 v hv with ⟨c, hc, hv⟩
    rcases h.stagedBy s _ c _ v hv with ⟨k, hk, w', hw', hrow, hcell⟩
    have hsame : w'.row = w.row := by rw [hrow, h.refines.injective _ k w.row.2 c hk hc]
    exact hmixed w' (mem_append_left _ hw') w hw hsame e.1 v e.2 hcell he
  · exact hmixed w hw w hw rfl e.1 v e.2 hv he

end

/-- A logged call. -/
theorem Logged.call (h : Logged schema start st E ws) {s : S} {E' : Effective T K F V}
    {call : LoggedCall T F} (hcall : Replayable schema st.store.keys call w)
    (hmixed : Unmixed (ws ++ [w]))
    (heffect : CallEffect schema st.store st.session E s w sess E') (now : Timestamp) :
    Logged schema start ((st.append now call).setSession s sess) E' (ws ++ [w]) where
  toWritten := h.toWritten.call heffect
  calls := rel_append h.calls (.cons hcall .nil)
  unmixed := hmixed
  increasing := by
    simp only [setSession, append, map_append, map_singleton]
    refine h.increasing.append h.positive fun r hr => ?_
    rcases mem_map.mp hr with ⟨e, he, rfl⟩
    exact h.below e he
  below e he := by
    rcases mem_append.mp he with he | he
    · exact Nat.lt_succ_of_lt (h.below e he)
    · rw [mem_singleton.mp he]
      exact Nat.lt_succ_self _
  positive := Nat.succ_pos _

/-- A session sends something. -/
theorem Logged.sent (h : Logged schema start st E ws) {s : S} {sending : Sending T F}
    (hcells : sess.cells = (st.session s).cells.sent sending)
    (hrefines : Refines schema (st.store.receive sending (st.session s))
      (update st.session s sess) E) :
    Logged schema start
      ({ st with store := st.store.receive sending (st.session s) }.setSession s sess) E ws := { h with
  toWritten := h.toWritten.sent hcells hrefines
  calls := h.calls.imp fun _ _ hcall =>
    hcall.mono hrefines.storedOk (h.refines.keysGrow_receive s sending) }

/-- Every step keeps the log in line with the rows. -/
theorem Logged.step (h : Logged schema start st E ws) {e : RowEvent S T K F}
    (he : RowOk schema st e) : ∃ E' ws', Logged schema start (rowStep schema st e) E' ws' := by
  cases e with
  | put s now req next =>
    by_cases hopen : req.table ∈ (st.session s).tables
    · rcases he hopen with ⟨hrecode, w, hok, hlog⟩
      have hmixed := hlog ws (h.calls.imp fun _ _ hcall => hcall.write)
      rcases putRow_ok h.refines hok (h.stagedAlike hmixed s) with
        ⟨sess, E', hput, heffect⟩
      refine ⟨E', ws ++ [w], ?_⟩
      have hcall : Replayable schema st.store.keys (.put req) w :=
        ⟨hok.write, congrArg LoggedCall.put hrecode, hok.plain⟩
      simp only [rowStep, callPut, hopen, not_true_eq_false, if_false, hput]
      exact h.call hcall hmixed heffect now
    · exact ⟨E, ws, by simpa [rowStep, callPut, hopen] using h⟩
  | update s now req order =>
    by_cases hopen : req.table ∈ (st.session s).tables
    · rcases he hopen with ⟨hrecode, w, hok, hlog⟩
      have hmixed := hlog ws (h.calls.imp fun _ _ hcall => hcall.write)
      rcases updateFields_ok h.refines hok (h.stagedAlike hmixed s) order with
        ⟨sess, E', hupdate, heffect⟩
      refine ⟨E', ws ++ [w], ?_⟩
      have hcall : Replayable schema st.store.keys (.update req) w :=
        ⟨hok.write, congrArg LoggedCall.update hrecode, trivial⟩
      simp only [rowStep, callUpdate, hopen, not_true_eq_false, if_false, hupdate]
      exact h.call hcall hmixed heffect now
    · exact ⟨E, ws, by simpa [rowStep, callUpdate, hopen] using h⟩
  | send s sending =>
    exact ⟨E, ws, h.sent rfl (h.refines.sendBuffer s sending)⟩
  | flush s =>
    exact ⟨E, ws, h.sent rfl (h.refines.flushSession s)⟩

/-- Sessions without unsent data, before their first call. -/
structure StartOk (schema : Schema T K F V) (st : RowSystem S T K F V) : Prop where
  stored : StoredOk schema st.store
  idle : ∀ s, (st.session s).Idle
  log : st.log = []
  nextLSN : st.nextLSN = 1

omit [DecidableEq S] in
theorem StartOk.logged (h : StartOk schema st) :
    Logged schema st.store st (st.store.effective schema) [] where
  refines := h.stored.refines h.idle
  rows := rfl
  calls := by
    rw [h.log]
    exact .nil
  grow _ _ _ hv := hv
  stagedBy s t c f v hv := by
    rw [(h.idle s).staged] at hv
    cases hv
  unmixed := nofun
  increasing := by simp [h.log, Increasing]
  below := by simp [h.log]
  positive := by simp [h.nextLSN]

/-- After a run whose steps meet their conditions, the log has the writes of the run. -/
theorem logged_run (h : StartOk schema st) {es : List (RowEvent S T K F)}
    (hes : Run.Meets (rowStep schema) (RowOk schema) st es) :
    ∃ E ws, Logged schema st.store (Run.exec (rowStep schema) st es) E ws := by
  refine Run.exec_induction (I := fun st' => ∃ E ws, Logged schema st.store st' E ws)
    (rowStep schema) ?_ ⟨_, _, h.logged⟩ hes
  rintro st' e ⟨E, ws, hlogged⟩ he
  exact hlogged.step he

/-! ## What a crash leaves -/

variable {store : Storage T F V} {session : S → Session T K F V}
  (h : Written schema start store session E ws)

include h

omit [DecidableEq S] in
/-- A cell that is not written is not in a buffer. -/
theorem Written.stored_of_not_touches {t : T} {k : K} {c : ℕ}
    (hk : E.column t k = some c) {f : F} (hf : ¬ TouchesCell ws (t, k) f) :
    store.cells t c f = E.cells t c f := by
  refine h.refines.stored t c f fun s => ?_
  cases hv : (session s).staged t c f with
  | none => rfl
  | some v =>
    rcases h.stagedBy s t c f v hv with ⟨k', hk', w, hw, hrow, hcell⟩
    rw [h.refines.injective t k' k c hk' hk] at hrow
    exact absurd ⟨w, hw, hrow, v, hcell⟩ hf

omit [DecidableEq S] in
/-- The storage differs from the start only where the writes go. -/
theorem Written.agreeOff (hstart : StoredOk schema start) :
    AgreeOff ws (start.rows schema) (store.rows schema) := by
  have hstored := h.refines.storedOk
  -- A row of the start is in the storage, at its column.
  have hold : ∀ t k c, (start.effective schema).column t k = some c →
      (store.effective schema).column t k = some c := fun t k c hc =>
    hstored.column_eq_some_iff.mpr (h.grow t c _ (hstart.column_eq_some_iff.mp hc))
  have hcolumn : ∀ t k c, (store.effective schema).column t k = some c →
      E.column t k = some c := fun t k c hc =>
    (h.refines.held t k c).mpr (.inl (hstored.column_eq_some_iff.mp hc))
  constructor
  · rintro ⟨t, k⟩ ha
    have hsame : E.rows (t, k) = start.rows schema (t, k) := by
      rw [h.rows, applyAll_of_not_touches ha]
    rw [← hsame]
    cases hstartColumn : (start.effective schema).column t k with
    | none =>
      have hnone : E.column t k = none := by
        simpa [Storage.rows, Effective.rows, hstartColumn] using hsame
      have hnone' : (store.effective schema).column t k = none :=
        eq_none_iff_forall_ne_some.mpr fun c hc => by simp [hcolumn t k c hc] at hnone
      simp [Storage.rows, Effective.rows, hnone, hnone']
    | some c =>
      have hc := hold t k c hstartColumn
      have hcells : store.cells t c = E.cells t c := by
        funext f
        refine h.stored_of_not_touches (hcolumn t k c hc) ?_
        rintro ⟨w, hw, hrow, -⟩
        exact ha ⟨w, hw, hrow⟩
      simp only [Storage.rows, Effective.rows, hc, hcolumn t k c hc, map_some]
      rw [← hcells]
      rfl
  · rintro ⟨t, k⟩ f hf
    have hsame : cell (start.rows schema) (t, k) f = cell E.rows (t, k) f := by
      rw [h.rows, cell_applyAll_of_not_touches hf]
    cases hc : (store.effective schema).column t k with
    | none =>
      -- The row is new and not sent, so the cell was empty from the start.
      have hnone : (start.effective schema).column t k = none :=
        eq_none_iff_forall_ne_some.mpr fun c hstartColumn => by simp [hold t k c hstartColumn] at hc
      simp [cell, Storage.rows, Effective.rows, hnone, hc]
    | some c =>
      rw [hsame, Storage.rows, Effective.cell_rows (hcolumn t k c hc), Effective.cell_rows hc]
      exact (h.stored_of_not_touches (hcolumn t k c hc) hf).symm

end

end QuantaStream.Core
