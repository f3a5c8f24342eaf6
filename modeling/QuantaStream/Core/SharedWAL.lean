import QuantaStream.Core.RecoveryPlan

/-!
# Sessions that share a log

Several sessions append to one log.  A put or update appends its record first and then puts the
row into the buffer of its session; a flush sends the buffer to storage.  A commit holds the lock
of the log: it appends a commit record, lets the storage commit, and advances the checkpoint to
the commit record.  A crash may come after any step, and the recovery plan of that moment decides
what is replayed.

The plan knows sequence numbers and not sessions.  So a commit of one session makes the records of
the others replayed, and its checkpoint takes them out of the plan again, stored or not.  This
module says exactly when a run of the sessions recovers at every moment.
-/

namespace QuantaStream.Core

open GoString List LocalWALRecord Option Run

/-! ## The system -/

def LocalWALRecord.isRow (r : LocalWALRecord) : Bool :=
  r.kind = kindPutRow || r.kind = kindUpdateRow

/-- The log, with the session that wrote each record, its checkpoint, and how far the sessions
are.  A row in progress has its record in the log and is not in the buffer yet; `boundary` is the
commit that holds the lock of the log. -/
structure SharedState (S : Type) where
  log : List (S × LocalWALRecord) := []
  nextLSN : ℕ := 1
  checkpoint : Option ℕ := none
  inProgress : List (S × ℕ) := []
  buffered : List (S × ℕ) := []
  stored : List ℕ := []
  boundary : Option (S × LocalWALRecord) := none

open SharedState

inductive SharedEvent (S : Type) where
  /-- A put (or an update) appends its record. -/
  | appendRow (session : S) (update : Bool) (now : Timestamp) (record : LocalWALRecord)
  /-- Its row enters the buffer. -/
  | bufferRow (session : S)
  /-- Its row is rejected. -/
  | rejectRow (session : S)
  /-- The buffer is sent to storage, by a flush or because it is full. -/
  | flush (session : S)
  /-- Sending the buffer fails. -/
  | flushFails (session : S)
  /-- A commit takes the lock and appends its record. -/
  | commitAppend (session : S) (now : Timestamp) (record : LocalWALRecord)
  /-- The storage or the checkpoint file fails, and the commit releases the lock. -/
  | commitFails
  /-- The storage has committed: the checkpoint advances and the lock is released. -/
  | commitDone

def rowRecord (update : Bool) (now : Timestamp) (nextLSN : ℕ) (record : LocalWALRecord) :
    LocalWALRecord :=
  prepareRecord now nextLSN { record with kind := if update then kindUpdateRow else kindPutRow }

def boundaryRecord (now : Timestamp) (nextLSN : ℕ) (record : LocalWALRecord) : LocalWALRecord :=
  prepareRecord now nextLSN { record with kind := kindCommit }

section

variable {S : Type} (st : SharedState S)

def SharedState.push (s : S) (r : LocalWALRecord) : SharedState S :=
  { st with log := st.log ++ [(s, r)], nextLSN := st.nextLSN + 1 }

def advanceCheckpoint (lsn : ℕ) (checkpoint : Option ℕ) : Option ℕ :=
  if lsn ≤ checkpoint.getD 0 then checkpoint else some lsn

/-- The end of a commit: the checkpoint advances and the lock is released. -/
def SharedState.advance (lsn : ℕ) : SharedState S :=
  { st with checkpoint := advanceCheckpoint lsn st.checkpoint, boundary := none }

def SharedState.isBusy [DecidableEq S] (st : SharedState S) (s : S) : Bool := st.inProgress.any (·.1 = s)

/-- One step.  A session makes one call at a time, and an append needs the lock. -/
def sharedStep [DecidableEq S] (st : SharedState S) : SharedEvent S → SharedState S
  | .appendRow s update now record =>
    let r := rowRecord update now st.nextLSN record
    if st.boundary.isSome || st.isBusy s then st
    else
      match frameOf r with
      | .error _ => st
      | .ok _ => { st.push s r with inProgress := st.inProgress ++ [(s, st.nextLSN)] }
  | .bufferRow s =>
    { st with
      buffered := st.buffered ++ st.inProgress.filter (·.1 = s)
      inProgress := st.inProgress.filter (·.1 ≠ s) }
  | .rejectRow s => { st with inProgress := st.inProgress.filter (·.1 ≠ s) }
  | .flush s =>
    { st with
      stored := st.stored ++ (st.buffered.filter (·.1 = s)).map Prod.snd
      buffered := st.buffered.filter (·.1 ≠ s) }
  | .flushFails s => { st with buffered := st.buffered.filter (·.1 ≠ s) }
  | .commitAppend s now record =>
    let r := boundaryRecord now st.nextLSN record
    if st.boundary.isSome || st.isBusy s then st
    else
      match frameOf r with
      | .error _ => st
      | .ok _ => { st.push s r with boundary := some (s, r) }
  | .commitFails => { st with boundary := none }
  | .commitDone =>
    match st.boundary with
    | none => st
    | some c => st.advance c.2.lsn

/-! ## Recovery -/

def SharedState.records : List LocalWALRecord := st.log.map Prod.snd

/-- A session has a commit record after a sequence number. -/
def SharedState.CommittedAfter (s : S) (lsn : ℕ) : Prop :=
  ∃ e ∈ st.log, e.1 = s ∧ e.2.isCommit ∧ lsn < e.2.lsn

def SharedState.HasCommitted (s : S) : Prop :=
  ∃ e ∈ st.log, e.1 = s ∧ e.2.isCommit

/-- After a crash in this state, a row that its own session committed is stored or replayed, and
no row of a session that never committed is replayed. -/
def Recovers (path : String) (st : SharedState S) : Prop :=
  ∃ plan, planRecovery path st.records st.checkpoint = .ok plan ∧
    (∀ e ∈ st.log, e.2.isRow → st.CommittedAfter e.1 e.2.lsn →
      e.2.lsn ∈ st.stored ∨ e.2 ∈ plan.replayRecords) ∧
    (∀ e ∈ st.log, e.2.isRow → e.2 ∈ plan.replayRecords → st.HasCommitted e.1)

/-- When a step keeps the log recoverable.  A commit needs that the rows of its session up to the
checkpoint are stored, and that the rows behind the checkpoint are its own or of sessions that
have committed.  A checkpoint needs that the rows up to it that their sessions committed are
stored. -/
def SharedOk [DecidableEq S] (st : SharedState S) : SharedEvent S → Prop
  | .commitAppend s now record =>
    st.boundary.isSome = false → st.isBusy s = false →
    (frameOf (boundaryRecord now st.nextLSN record)).isOk →
    (∀ e ∈ st.log, e.2.isRow → e.1 = s → e.2.lsn ≤ st.checkpoint.getD 0 →
      e.2.lsn ∈ st.stored) ∧
    ∀ e ∈ st.log, e.2.isRow → st.checkpoint.getD 0 < e.2.lsn → e.1 = s ∨ st.HasCommitted e.1
  | .commitDone =>
    ∀ c, st.boundary = some c → ∀ e ∈ st.log, e.2.isRow → e.2.lsn ≤ c.2.lsn →
      st.CommittedAfter e.1 e.2.lsn → e.2.lsn ∈ st.stored
  | _ => True

/-! ## Order -/

/-- Sequence numbers increase, the next one is new, the checkpoint is one of the log, and the
commit that holds the lock is in the log. -/
structure Ordered (st : SharedState S) : Prop where
  increasing : Increasing 0 st.records
  below : ∀ e ∈ st.log, e.2.lsn < st.nextLSN
  positive : 0 < st.nextLSN
  checkpoint : ∀ lsn, st.checkpoint = some lsn → ∃ r ∈ st.records, r.lsn = lsn
  boundary : ∀ c, st.boundary = some c → c ∈ st.log

theorem ordered_empty : Ordered ({} : SharedState S) where
  increasing := pairwise_singleton _ _
  below := by simp
  positive := Nat.one_pos
  checkpoint := by simp
  boundary := by simp

variable {st : SharedState S}

/-- A record with the next number keeps the order, whoever is in progress and whoever holds the
lock for a record of the log. -/
theorem Ordered.push (h : Ordered st) (s : S) {r : LocalWALRecord} (hr : r.lsn = st.nextLSN)
    (inProgress : List (S × ℕ)) {boundary : Option (S × LocalWALRecord)}
    (hboundary : ∀ c, boundary = some c → c ∈ st.log ++ [(s, r)]) :
    Ordered { st.push s r with inProgress := inProgress, boundary := boundary } := by
  have hrecords : (st.push s r).records = st.records ++ [r] := by
    simp [SharedState.records, SharedState.push]
  refine ⟨?_, ?_, Nat.succ_pos _, ?_, hboundary⟩
  · have hbelow : ∀ r' ∈ st.records, r'.lsn < r.lsn := by
      intro r' hr'
      rcases mem_map.mp hr' with ⟨e, he, rfl⟩
      exact hr ▸ h.below e he
    exact hrecords ▸ h.increasing.append (hr ▸ h.positive) hbelow
  · exact forall_mem_append.mpr ⟨fun e he => Nat.lt_succ_of_lt (h.below e he),
      forall_mem_singleton.mpr (Nat.lt_succ_of_le (Nat.le_of_eq hr))⟩
  · intro lsn hlsn
    rcases h.checkpoint lsn hlsn with ⟨r', hr', heq⟩
    exact ⟨r', hrecords ▸ mem_append_left _ hr', heq⟩

theorem Ordered.sharedStep [DecidableEq S] (h : Ordered st) (e : SharedEvent S) :
    Ordered (sharedStep st e) := by
  fun_cases Core.sharedStep st e
  case case3 => exact h.push _ rfl _ fun c hc => mem_append_left _ (h.boundary c hc)
  case case10 =>
    refine h.push _ rfl _ fun c hc => ?_
    rw [← some.inj hc]
    exact mem_append_right _ (mem_singleton_self _)
  case case13 c hc =>
    refine { h with checkpoint := ?_, boundary := by simp [advance] }
    intro lsn hlsn
    simp only [advance, advanceCheckpoint] at hlsn
    split_ifs at hlsn
    · exact h.checkpoint lsn hlsn
    · exact ⟨c.2, mem_map_of_mem (h.boundary c hc), some.inj hlsn⟩
  all_goals first | exact { h with } | exact { h with boundary := nofun }

/-! ## Recovery by sequence numbers -/

/-- The rows up to the checkpoint that their own sessions committed are stored. -/
def NothingLost (st : SharedState S) : Prop :=
  ∀ e ∈ st.log, e.2.isRow → e.2.lsn ≤ st.checkpoint.getD 0 → st.CommittedAfter e.1 e.2.lsn →
    e.2.lsn ∈ st.stored

/-- The rows behind the checkpoint that anyone's commit record follows are of sessions that have
committed. -/
def NothingInvented (st : SharedState S) : Prop :=
  ∀ e ∈ st.log, e.2.isRow → st.checkpoint.getD 0 < e.2.lsn →
    (∃ c ∈ st.records, c.isCommit ∧ e.2.lsn ≤ c.lsn) → st.HasCommitted e.1

/-- Recovery in terms of sequence numbers. -/
theorem recovers_iff (h : Ordered st) (path : String) :
    Recovers path st ↔ NothingLost st ∧ NothingInvented st := by
  rcases planRecovery_of_increasing h.increasing h.checkpoint path with ⟨plan, hplan, hreplay⟩
  constructor
  · rintro ⟨plan', hplan', hlost, hinvented⟩
    obtain rfl : plan = plan' := Except.ok.inj (hplan.symm.trans hplan')
    refine ⟨fun e he hrow hle hcommit => ?_, fun e he hrow hlt hc => ?_⟩
    · refine (hlost e he hrow hcommit).resolve_right fun hmem => ?_
      have hlt := ((hreplay e.2).mp hmem).2.1
      omega
    · exact hinvented e he hrow ((hreplay e.2).mpr ⟨mem_map_of_mem he, hlt, hc⟩)
  · rintro ⟨hlost, hinvented⟩
    refine ⟨plan, hplan, fun e he hrow hcommit => ?_, fun e he hrow hmem => ?_⟩
    · by_cases hle : e.2.lsn ≤ st.checkpoint.getD 0
      · exact .inl (hlost e he hrow hle hcommit)
      · rcases hcommit with ⟨c, hc, -, hiscommit, hlt⟩
        exact .inr ((hreplay e.2).mpr ⟨mem_map_of_mem he, Nat.lt_of_not_le hle, c.2,
          mem_map_of_mem hc, hiscommit, Nat.le_of_lt hlt⟩)
    · rcases (hreplay e.2).mp hmem with ⟨-, hlt, hc⟩
      exact hinvented e he hrow hlt hc

/-! ## Steps that append rows or move them -/

theorem not_isCommit_of_isRow {r : LocalWALRecord} (h : r.isRow) : r.isCommit = false := by
  rcases Bool.or_eq_true_iff.mp h with h | h
  all_goals
    unfold isCommit
    rw [of_decide_eq_true h]
    decide

/-- A step that keeps the checkpoint, appends only rows with new numbers and loses nothing from
storage. -/
structure RowStep (st st' : SharedState S) : Prop where
  log : ∃ rows, st'.log = st.log ++ rows ∧ ∀ e ∈ rows, e.2.isRow ∧ st.nextLSN ≤ e.2.lsn
  checkpoint : st'.checkpoint = st.checkpoint
  stored : st.stored ⊆ st'.stored

section

variable {st st' : SharedState S} (h : RowStep st st')

include h

variable {e : S × LocalWALRecord}

/-- An entry of the log after such a step is old, or a new row. -/
theorem RowStep.mem_log (he : e ∈ st'.log) : e ∈ st.log ∨ e.2.isRow ∧ st.nextLSN ≤ e.2.lsn := by
  rcases h.log with ⟨rows, hlog, hrows⟩
  exact (mem_append.mp (hlog ▸ he)).imp_right (hrows e)

theorem RowStep.mem_log_of_mem (he : e ∈ st.log) : e ∈ st'.log := by
  rcases h.log with ⟨rows, hlog, -⟩
  exact hlog ▸ mem_append_left _ he

theorem RowStep.mem_log_of_isCommit (he : e ∈ st'.log) (hcommit : e.2.isCommit) : e ∈ st.log := by
  rcases h.mem_log he with he | ⟨hrow, -⟩
  · exact he
  · cases (not_isCommit_of_isRow hrow).symm.trans hcommit

/-- A row with a commit record after it is old. -/
theorem RowStep.mem_log_of_committed (hst : Ordered st) (he : e ∈ st'.log)
    {c : S × LocalWALRecord} (hc : c ∈ st'.log) (hcommit : c.2.isCommit) (hle : e.2.lsn ≤ c.2.lsn) :
    e ∈ st.log := by
  rcases h.mem_log he with he | ⟨-, hge⟩
  · exact he
  · have hlt := hst.below c (h.mem_log_of_isCommit hc hcommit)
    omega

theorem RowStep.nothingLost (hst : Ordered st) (hlost : NothingLost st) : NothingLost st' := by
  rintro e he hrow hle ⟨c, hc, howner, hcommit, hlt⟩
  have he' := h.mem_log_of_committed hst he hc hcommit (Nat.le_of_lt hlt)
  rw [h.checkpoint] at hle
  exact h.stored (hlost e he' hrow hle ⟨c, h.mem_log_of_isCommit hc hcommit, howner, hcommit, hlt⟩)

theorem RowStep.nothingInvented (hst : Ordered st) (hinvented : NothingInvented st) :
    NothingInvented st' := by
  rintro e he hrow hlt ⟨r, hr, hcommit, hle⟩
  rcases mem_map.mp hr with ⟨c, hc, rfl⟩
  have he' := h.mem_log_of_committed hst he hc hcommit hle
  rw [h.checkpoint] at hlt
  rcases hinvented e he' hrow hlt
    ⟨c.2, mem_map_of_mem (h.mem_log_of_isCommit hc hcommit), hcommit, hle⟩ with
    ⟨c', hc', howner, hcommit'⟩
  exact ⟨c', h.mem_log_of_mem hc', howner, hcommit'⟩

end

/-! ## Commits -/

section

variable {st : SharedState S} {s : S} {r : LocalWALRecord}

theorem exists_mem_push {P : S × LocalWALRecord → Prop} :
    (∃ e ∈ (st.push s r).log, P e) ↔ (∃ e ∈ st.log, P e) ∨ P (s, r) := by
  simp [push, or_and_right, exists_or]

theorem committedAfter_push (hr : r.isCommit) (s' : S) (lsn : ℕ) :
    (st.push s r).CommittedAfter s' lsn ↔ st.CommittedAfter s' lsn ∨ s = s' ∧ lsn < r.lsn :=
  exists_mem_push.trans (or_congr_right (and_congr_right fun _ => and_iff_right hr))

theorem hasCommitted_push (hr : r.isCommit) (s' : S) :
    (st.push s r).HasCommitted s' ↔ st.HasCommitted s' ∨ s = s' :=
  exists_mem_push.trans (or_congr_right (and_iff_left hr))

/-- A row of the log after a commit record was in it before. -/
theorem mem_log_of_isRow (hr : r.isCommit) {e : S × LocalWALRecord} (he : e ∈ (st.push s r).log)
    (hrow : e.2.isRow) : e ∈ st.log := by
  rcases mem_append.mp he with he | he
  · exact he
  · rw [mem_singleton.mp he] at hrow
    cases (not_isCommit_of_isRow hrow).symm.trans hr

/-- A commit record commits the rows of its session up to the checkpoint too, which are not
replayed. -/
theorem nothingLost_push_iff (h : Ordered st) (hlost : NothingLost st) (hr : r.isCommit)
    (hlsn : r.lsn = st.nextLSN) :
    NothingLost (st.push s r) ↔
      ∀ e ∈ st.log, e.2.isRow → e.1 = s → e.2.lsn ≤ st.checkpoint.getD 0 → e.2.lsn ∈ st.stored := by
  constructor
  · intro hpush e he hrow howner hle
    refine hpush e (mem_append_left _ he) hrow hle ((committedAfter_push hr _ _).mpr ?_)
    exact .inr ⟨howner.symm, hlsn ▸ h.below e he⟩
  · intro hown e he hrow hle hcommitted
    have he' := mem_log_of_isRow hr he hrow
    rcases (committedAfter_push hr _ _).mp hcommitted with hcommitted | ⟨rfl, -⟩
    · exact hlost e he' hrow hle hcommitted
    · exact hown e he' hrow rfl hle

/-- A commit record makes every row behind the checkpoint replayed. -/
theorem nothingInvented_push_iff (h : Ordered st) (hr : r.isCommit) (hlsn : r.lsn = st.nextLSN) :
    NothingInvented (st.push s r) ↔
      ∀ e ∈ st.log, e.2.isRow → st.checkpoint.getD 0 < e.2.lsn →
        e.1 = s ∨ st.HasCommitted e.1 := by
  constructor
  · intro hpush e he hrow hlt
    have hcommitted := hpush e (mem_append_left _ he) hrow hlt
      ⟨r, by simp [records, push], hr, hlsn ▸ Nat.le_of_lt (h.below e he)⟩
    exact ((hasCommitted_push hr _).mp hcommitted).symm.imp_left Eq.symm
  · intro hall e he hrow hlt _
    rw [hasCommitted_push hr]
    exact (hall e (mem_log_of_isRow hr he hrow) hrow hlt).symm.imp_right Eq.symm

theorem checkpoint_advance (st : SharedState S) (lsn : ℕ) :
    (st.advance lsn).checkpoint.getD 0 = max lsn (st.checkpoint.getD 0) := by
  unfold advance advanceCheckpoint
  split_ifs with hle
  · rw [Nat.max_eq_right hle]
  · rw [getD_some, Nat.max_eq_left (by omega)]

theorem nothingLost_advance_iff (hlost : NothingLost st) (lsn : ℕ) :
    NothingLost (st.advance lsn) ↔
      ∀ e ∈ st.log, e.2.isRow → e.2.lsn ≤ lsn → st.CommittedAfter e.1 e.2.lsn →
        e.2.lsn ∈ st.stored := by
  have hcheck := checkpoint_advance st lsn
  constructor
  · intro hadvance e he hrow hle hcommitted
    exact hadvance e he hrow (by omega) hcommitted
  · intro hall e he hrow hle hcommitted
    by_cases hold : e.2.lsn ≤ st.checkpoint.getD 0
    · exact hlost e he hrow hold hcommitted
    · exact hall e he hrow (by omega) hcommitted

theorem nothingInvented_advance (hinvented : NothingInvented st) (lsn : ℕ) :
    NothingInvented (st.advance lsn) := by
  intro e he hrow hlt hc
  have hcheck := checkpoint_advance st lsn
  exact hinvented e he hrow (by omega) hc

end

/-! ## Runs -/

section

variable [DecidableEq S] {st : SharedState S}

/-- An event that is no part of a commit. -/
def SharedEvent.isRowEvent : SharedEvent S → Bool
  | .commitAppend _ _ _ | .commitDone => false
  | _ => true

theorem rowStep_sharedStep {e : SharedEvent S} (he : e.isRowEvent) :
    RowStep st (sharedStep st e) := by
  fun_cases sharedStep st e
  case case3 s update _ _ r _ _ _ _ =>
    refine ⟨⟨[(s, r)], rfl, ?_⟩, rfl, fun _ h => h⟩
    intro e he
    rw [mem_singleton.mp he]
    cases update <;> simp [isRow, rowRecord, prepareRecord, r]
  case case6 => exact ⟨⟨[], by simp⟩, rfl, fun _ h => mem_append_left _ h⟩
  all_goals first
    | exact absurd he Bool.false_ne_true
    | exact ⟨⟨[], by simp⟩, rfl, fun _ h => h⟩

section

variable (path : String) (h : Ordered st) (hst : Recovers path st)

include h hst

theorem recovers_commitAppend_iff (s : S) (now : Timestamp) (record : LocalWALRecord) :
    Recovers path (sharedStep st (.commitAppend s now record)) ↔
      SharedOk st (.commitAppend s now record) := by
  have hordered := h.sharedStep (.commitAppend s now record)
  rcases (recovers_iff h path).mp hst with ⟨hlost, hinvented⟩
  simp only [SharedOk]
  simp only [sharedStep] at hordered ⊢
  split at hordered
  next hblocked =>
    refine ⟨fun _ hfree hbusy => ?_, fun _ => by rwa [if_pos hblocked]⟩
    simp [hfree, hbusy] at hblocked
  next hblocked =>
    rw [if_neg hblocked]
    split at hordered
    next hframe =>
      rw [hframe]
      exact ⟨fun _ _ _ => nofun, fun _ => hst⟩
    next hframe =>
      have hcommit : (boundaryRecord now st.nextLSN record).isCommit := by
        simp [isCommit, boundaryRecord, prepareRecord]
      rw [Bool.or_eq_true, not_or, Bool.not_eq_true, Bool.not_eq_true] at hblocked
      simp only [hframe]
      rw [recovers_iff hordered]
      have hlostIff := nothingLost_push_iff (s := s) h hlost hcommit rfl
      have hinventedIff := nothingInvented_push_iff (s := s) h hcommit rfl
      exact ⟨fun hboth _ _ _ => ⟨hlostIff.mp hboth.1, hinventedIff.mp hboth.2⟩,
        fun hok => (hok hblocked.1 hblocked.2 rfl).imp hlostIff.mpr hinventedIff.mpr⟩

theorem recovers_commitDone_iff :
    Recovers path (sharedStep st .commitDone) ↔ SharedOk st .commitDone := by
  have hordered := h.sharedStep .commitDone
  rcases (recovers_iff h path).mp hst with ⟨hlost, hinvented⟩
  cases hboundary : st.boundary with
  | none =>
    have hstep : sharedStep st .commitDone = st := by simp [sharedStep, hboundary]
    rw [hstep]
    exact ⟨fun _ c hc => absurd (hboundary ▸ hc) (by simp), fun _ => hst⟩
  | some c =>
    have hstep : sharedStep st .commitDone = st.advance c.2.lsn := by
      simp [sharedStep, hboundary]
    rw [recovers_iff hordered, hstep, nothingLost_advance_iff hlost]
    constructor
    · intro hboth c' hc'
      rw [hboundary] at hc'
      exact some.inj hc' ▸ hboth.1
    · intro hok
      exact ⟨hok c hboundary, nothingInvented_advance hinvented c.2.lsn⟩

/-- A step keeps the log recoverable exactly under its condition. -/
theorem recovers_sharedStep_iff (e : SharedEvent S) :
    Recovers path (sharedStep st e) ↔ SharedOk st e := by
  by_cases he : e.isRowEvent
  · have hrow : RowStep st (sharedStep st e) := rowStep_sharedStep he
    rcases (recovers_iff h path).mp hst with ⟨hlost, hinvented⟩
    refine iff_of_true ((recovers_iff (h.sharedStep e) path).mpr
      ⟨hrow.nothingLost h hlost, hrow.nothingInvented h hinvented⟩) ?_
    cases e with
    | commitAppend s now record | commitDone => cases he
    | _ => trivial
  · cases e with
    | commitAppend s now record => exact recovers_commitAppend_iff path h hst s now record
    | commitDone => exact recovers_commitDone_iff path h hst
    | _ => exact absurd rfl he

end

/-- The runs of sessions on a new log that recover at every moment, by losing no row that its own
session committed and replaying no row of a session that never committed, are exactly those whose
commits and checkpoints meet their conditions. -/
theorem recovers_throughout_iff (path : String) (es : List (SharedEvent S)) :
    (∀ es', es' <+: es → Recovers path (exec sharedStep {} es')) ↔
      Meets sharedStep SharedOk {} es := by
  have hempty : Recovers path ({} : SharedState S) :=
    (recovers_iff ordered_empty path).mpr ⟨fun e he => by simp at he, fun e he => by simp at he⟩
  have hstep : ∀ (st : SharedState S) e, Ordered st → Recovers path st →
      (Recovers path (sharedStep st e) ↔ SharedOk st e) :=
    fun _ e h hst => recovers_sharedStep_iff path h hst e
  exact forall_prefix_iff_meets sharedStep (fun _ e h => h.sharedStep e) hstep ordered_empty
    hempty es

end

end

/-! ## Runs that do not recover -/

/-- A row of the second session, and before its commit the first session commits. -/
def inventingRun : List (SharedEvent Bool) :=
  [.appendRow true false noon { operationID := ascii "put" },
    .bufferRow true,
    .commitAppend false noon { operationID := ascii "commit" }]

/-- After the commit of the first session the second commits as well, without a flush. -/
def losingRun : List (SharedEvent Bool) :=
  inventingRun ++ [.commitDone, .commitAppend true noon { operationID := ascii "commit" }]

/-- The commit of one session makes the row of another replayed, and after its checkpoint that row
is lost when the other session commits. -/
theorem shared_log_invents_and_loses :
    ¬ Recovers "wal" (exec sharedStep {} inventingRun) ∧
    ¬ Recovers "wal" (exec sharedStep {} losingRun) := by
  have hordered : ∀ es : List (SharedEvent Bool), Ordered (exec sharedStep {} es) := fun es =>
    List.foldlRecOn es sharedStep ordered_empty fun _ h e _ => h.sharedStep e
  rw [recovers_iff (hordered _), recovers_iff (hordered _)]
  refine ⟨fun h => ?_, fun h => ?_⟩
  · have hinvented := h.2
    revert hinvented
    unfold NothingInvented HasCommitted
    decide +kernel
  · have hlost := h.1
    revert hlost
    unfold NothingLost CommittedAfter
    decide +kernel

end QuantaStream.Core
