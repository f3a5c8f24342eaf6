import QuantaStream.Core.WALRecord
import QuantaStream.Lib.LineLog

/-!
# The local write-ahead log

The log is a file of frames, one in a line, that is only appended to.  Records are numbered by log
sequence numbers (LSNs).  A checkpoint, kept in a file of its own, names the last commit record
whose effects are known to be in storage.  When the log is opened, a torn last line is cut off;
what lies behind the checkpoint is planned for recovery up to the last commit record.
-/

namespace QuantaStream.Core

open GoString Json LineLog List

/-! ## Appending -/

/-- `LocalWAL`, with the contents of its file. -/
structure LocalWAL where
  file : GoString := []
  nextLSN : ℕ := 1
  checkpointLSN : ℕ := 0
  syncOnAppend : Bool := true

/-- What the file system does with an append: the write may fail after some bytes, and the sync
may fail. -/
structure AppendIO where
  writeFailsAfter : Option ℕ := none
  syncFails : Bool := false

/-- The start of `appendLocked`: the record that is written. -/
def prepareRecord (now : Timestamp) (nextLSN : ℕ) (r : LocalWALRecord) : LocalWALRecord :=
  { r with
    version := localWALVersion
    lsn := nextLSN
    timestamp := if r.timestamp = .zero then now else r.timestamp
    payload := if r.payload = [] then ascii "{}" else r.payload }

/-- The text of the frame of a valid record. -/
def frameOf (r : LocalWALRecord) : Except String GoString :=
  match validateLocalWALRecord r with
  | .error e => .error e
  | .ok () =>
    match newLocalWALFrame r with
    | .error e => .error e
    | .ok frame =>
      match marshalFrame frame with
      | .error e => .error s!"marshal WAL frame: {e}"
      | .ok text => .ok text

def appendLocked (io : AppendIO) (now : Timestamp) (r : LocalWALRecord) (w : LocalWAL) :
    Except String LocalWALRecord × LocalWAL :=
  let record := prepareRecord now w.nextLSN r
  match frameOf record with
  | .error e => (.error e, w)
  | .ok text =>
    match io.writeFailsAfter with
    | some n => (.error "append WAL frame", { w with file := w.file ++ (line text).take n })
    | none =>
      if w.syncOnAppend && io.syncFails then
        (.error "sync WAL frame", { w with file := w.file ++ line text })
      else (.ok record, { w with file := w.file ++ line text, nextLSN := w.nextLSN + 1 })

/-! ## Reading -/

/-- The state of the loop of `readLocalWAL`, and its result. -/
structure ReadResult where
  records : List LocalWALRecord := []
  lastLSN : ℕ := 0
  lineNumber : ℕ := 0
  byteCount : ℕ := 0
  validByteCount : ℕ := 0
  tornTailBytes : ℕ := 0
  tornTailLine : ℕ := 0

variable (st : ReadResult)

/-- The state after a line of some bytes with a record. -/
def ReadResult.push (r : LocalWALRecord) (bytes : ℕ) : ReadResult :=
  { st with
    records := st.records ++ [r]
    lastLSN := r.lsn
    lineNumber := st.lineNumber + 1
    byteCount := st.byteCount + bytes
    validByteCount := st.byteCount + bytes }

/-- The body of the loop of `readLocalWAL` on a complete line. -/
def readLine (data : GoString) : Except String ReadResult :=
  let lineNumber := st.lineNumber + 1
  let byteCount := st.byteCount + data.length
  let text := trimSpace data
  if text = [] then
    .ok { st with lineNumber := lineNumber, byteCount := byteCount, validByteCount := byteCount }
  else
    match unmarshalFrame text with
    | .error e => .error s!"parse WAL frame line {lineNumber}: {e}"
    | .ok frame =>
      match validateLocalWALFrame frame with
      | .error e => .error s!"validate WAL frame line {lineNumber}: {e}"
      | .ok () =>
        if frame.record.lsn ≤ st.lastLSN then
          .error s!"WAL LSN sequence is not increasing at line {lineNumber}: got {frame.record.lsn} after {st.lastLSN}"
        else .ok (st.push frame.record data.length)

/-- The end of `readLocalWAL`: an unterminated last line is torn. -/
def readTail (tail : GoString) : ReadResult :=
  if tail = [] then st
  else
    { st with
      byteCount := st.byteCount + tail.length
      tornTailBytes := st.byteCount + tail.length - st.validByteCount
      tornTailLine := st.lineNumber + 1 }

def readLocalWAL (data : GoString) : Except String ReadResult :=
  ((splitLines data).1.foldlM readLine {}).map (fun st => readTail st (splitLines data).2)

/-- The check of the sequence numbers when a log is opened or its recovery planned: the last
one. -/
def checkLSNs (lastLSN : ℕ) : List LocalWALRecord → Except String ℕ
  | [] => .ok lastLSN
  | r :: rest =>
    if r.lsn ≤ lastLSN then
      .error s!"WAL LSN sequence is not increasing: got {r.lsn} after {lastLSN}"
    else checkLSNs r.lsn rest

/-- `OpenLocalWALWithOptions`, on the contents of the log and the checkpoint of its file. -/
def openLocalWAL (path : String) (syncOnAppend : Bool) (data : GoString) (checkpoint : Option ℕ) :
    Except String LocalWAL :=
  match readLocalWAL data with
  | .error e => .error e
  | .ok read =>
    match checkLSNs 0 read.records with
    | .error e => .error e
    | .ok lastLSN =>
      if checkpoint.getD 0 > lastLSN then
        .error s!"WAL checkpoint LSN {checkpoint.getD 0} is ahead of WAL tail {lastLSN}. Run `qstream-admin wal validate --path {path}` and verify the WAL/checkpoint files belong to the same data directory before startup"
      else
        .ok
          { file := if read.tornTailBytes ≠ 0 then data.take read.validByteCount else data
            nextLSN := lastLSN + 1
            checkpointLSN := checkpoint.getD 0
            syncOnAppend := syncOnAppend }

/-! ## Planning recovery -/

/-- `LocalWALRecoveryPlan`, as far as it is about the records. -/
structure RecoveryPlan where
  checkpointLSN : ℕ
  lastLSN : ℕ
  recordCount : ℕ
  checkpointedRecordCount : ℕ
  replayRecords : List LocalWALRecord
  pendingRecords : List LocalWALRecord
  replayCommitBoundaryCount : ℕ

def LocalWALRecord.isCommit (r : LocalWALRecord) : Bool := r.kind = kindCommit

def upToLastCommit (tail : List LocalWALRecord) : List LocalWALRecord :=
  (tail.reverse.dropWhile (fun r => !r.isCommit)).reverse

def afterLastCommit (tail : List LocalWALRecord) : List LocalWALRecord :=
  (tail.reverse.takeWhile (fun r => !r.isCommit)).reverse

/-- `PlanLocalWALRecoveryWithOptions` on the records of the log. -/
def planRecovery (path : String) (records : List LocalWALRecord) (checkpoint : Option ℕ) :
    Except String RecoveryPlan :=
  match checkLSNs 0 records with
  | .error e => .error e
  | .ok lastLSN =>
    let checkpointLSN := checkpoint.getD 0
    if checkpointLSN > lastLSN then
      .error s!"WAL checkpoint LSN {checkpointLSN} is ahead of WAL tail {lastLSN}. Run `qstream-admin wal validate --path {path}` and verify the WAL/checkpoint files belong to the same data directory before planning recovery"
    else
      let tail := records.filter (fun r => r.lsn > checkpointLSN)
      .ok
        { checkpointLSN := checkpointLSN
          lastLSN := lastLSN
          recordCount := records.length
          checkpointedRecordCount := records.countP (fun r => r.lsn ≤ checkpointLSN)
          replayRecords := upToLastCommit tail
          pendingRecords := afterLastCommit tail
          replayCommitBoundaryCount := (upToLastCommit tail).countP LocalWALRecord.isCommit }

/-- `PlanLocalWALRecoveryWithOptions`. -/
def planLocalWALRecovery (path : String) (data : GoString) (checkpoint : Option ℕ) :
    Except String RecoveryPlan :=
  match readLocalWAL data with
  | .error e => .error e
  | .ok read => planRecovery path read.records checkpoint

/-! ## Lines of records -/

/-- What is written for a record reads back as the record. -/
def readsBack (r : LocalWALRecord) : Bool :=
  match frameOf r with
  | .error _ => true
  | .ok text =>
    match unmarshalFrame text with
    | .error _ => false
    | .ok frame => frame.record = r && validateLocalWALFrame frame = .ok ()

variable {text : GoString} {r : LocalWALRecord}

/-- The text of a frame is one line between braces. -/
theorem frameOf_line (h : frameOf r = .ok text) :
    10 ∉ text ∧ ∃ mid, text = 123 :: mid ++ [125] := by
  unfold frameOf at h
  split at h <;> try contradiction
  split at h <;> try contradiction
  split at h <;> try contradiction
  next htext =>
    cases h
    exact marshalFrame_line htext

/-- The frame that is read from what is written for a record. -/
theorem exists_frame_of_readsBack (h : frameOf r = .ok text) (hback : readsBack r) :
    ∃ frame, unmarshalFrame text = .ok frame ∧ frame.record = r ∧
      validateLocalWALFrame frame = .ok () := by
  unfold readsBack at hback
  simp only [h] at hback
  split at hback <;> try contradiction
  next hframe =>
    simp only [Bool.and_eq_true, decide_eq_true_eq] at hback
    exact ⟨_, hframe, hback.1, hback.2⟩

/-- Reading the line of a record with a later number. -/
theorem readLine_frame (h : frameOf r = .ok text) (hback : readsBack r) {st : ReadResult}
    (hlsn : st.lastLSN < r.lsn) : readLine st (line text) = .ok (st.push r (line text).length) := by
  rcases exists_frame_of_readsBack h hback with ⟨frame, hframe, hrecord, hvalid⟩
  rcases (frameOf_line h).2 with ⟨mid, rfl⟩
  have htrim : trimSpace (line (123 :: mid ++ [125])) = 123 :: mid ++ [125] := by
    have hline : line (123 :: mid ++ [125]) = 123 :: mid ++ [125, 10] := by simp [line]
    rw [hline]
    exact trimSpace_line (by decide) (by decide) (by decide) (by decide) mid
  have hne : 123 :: mid ++ [125] ≠ [] := cons_ne_nil _ _
  have hnot : ¬ r.lsn ≤ st.lastLSN := by omega
  simp only [readLine, htrim, hne, if_false, hframe, hvalid, hnot, hrecord]

/-! ## Increasing sequence numbers -/

def Increasing (lastLSN : ℕ) (records : List LocalWALRecord) : Prop :=
  (lastLSN :: records.map LocalWALRecord.lsn).Pairwise (· < ·)

variable {records : List LocalWALRecord} {lastLSN : ℕ}

theorem Increasing.head_lt (h : Increasing lastLSN (r :: records)) : lastLSN < r.lsn :=
  (pairwise_cons.mp h).1 r.lsn (mem_map_of_mem mem_cons_self)

theorem Increasing.tail (h : Increasing lastLSN (r :: records)) : Increasing r.lsn records :=
  (pairwise_cons.mp h).2

theorem Increasing.append (h : Increasing lastLSN records) (hlast : lastLSN < r.lsn)
    (hbelow : ∀ r' ∈ records, r'.lsn < r.lsn) : Increasing lastLSN (records ++ [r]) := by
  unfold Increasing at h ⊢
  rw [map_append, ← cons_append, pairwise_append]
  refine ⟨h, pairwise_singleton _ _, ?_⟩
  intro a ha b hb
  rw [map_singleton, mem_singleton] at hb
  subst hb
  rcases mem_cons.mp ha with rfl | ha
  · exact hlast
  · rcases mem_map.mp ha with ⟨r', hr', rfl⟩
    exact hbelow r' hr'

theorem checkLSNs_of_increasing (h : Increasing lastLSN records) :
    ∃ last, checkLSNs lastLSN records = .ok last ∧ lastLSN ≤ last ∧
      ∀ r ∈ records, r.lsn ≤ last := by
  induction records generalizing lastLSN with
  | nil => exact ⟨lastLSN, rfl, Nat.le_refl _, by simp⟩
  | cons r records ih =>
    have hlt := h.head_lt
    have hnot : ¬ r.lsn ≤ lastLSN := by omega
    rcases ih h.tail with ⟨last, hlast, hle, hbound⟩
    refine ⟨last, by simp only [checkLSNs, hnot, if_false, hlast], by omega, ?_⟩
    exact forall_mem_cons.mpr ⟨hle, hbound⟩

end QuantaStream.Core
