import QuantaStream.Core.LocalWAL
import QuantaStream.Lib.Run

/-!
# Appends that fail

A run of appends to a new log, each of which may fail: the write may stop after some bytes, and
the sync may fail after all of them.  A failed append leaves its bytes in the file and does not
use up its sequence number.  So the file stays a log as long as nothing is appended behind the
bytes of a failed append.
-/

namespace QuantaStream.Core

open GoString LineLog List Run

/-! ## Files of records -/

def written (r : LocalWALRecord) : GoString := (frameOf r).toOption.getD []

/-- The record can be written, and reads back. -/
def Writable (r : LocalWALRecord) : Prop := frameOf r = .ok (written r) ∧ readsBack r

def recordLines (records : List LocalWALRecord) : GoString := (records.map written).flatMap line

theorem recordLines_append (records : List LocalWALRecord) (r : LocalWALRecord) :
    recordLines (records ++ [r]) = recordLines records ++ line (written r) := by
  simp [recordLines]

variable {records : List LocalWALRecord}

/-- The loop of reading over the lines of records. -/
theorem foldlM_readLine (hw : ∀ r ∈ records, Writable r) (st : ReadResult)
    (hlsn : Increasing st.lastLSN records) (hvalid : st.validByteCount = st.byteCount) :
    ∃ st', ((records.map written).map line).foldlM readLine st = .ok st' ∧
      st'.records = st.records ++ records ∧
      st'.byteCount = st.byteCount + (recordLines records).length ∧
      st'.validByteCount = st'.byteCount ∧ st'.tornTailBytes = st.tornTailBytes := by
  induction records generalizing st with
  | nil => exact ⟨st, rfl, by simp [recordLines, hvalid]⟩
  | cons r records ih =>
    have hr := hw r mem_cons_self
    have hread := readLine_frame hr.1 hr.2 hlsn.head_lt
    rcases ih (fun r' hr' => hw r' (mem_cons_of_mem _ hr'))
      (st.push r (line (written r)).length) hlsn.tail rfl with
      ⟨st', hrun, hrecords, hbytes, hvalid', htorn⟩
    refine ⟨st', ?_, ?_, ?_, hvalid', htorn⟩
    · rw [map_cons, map_cons, foldlM_cons, hread]
      exact hrun
    · simp [hrecords, ReadResult.push]
    · simp [hbytes, ReadResult.push, recordLines, Nat.add_assoc]

section

variable {tail : GoString} (hw : ∀ r ∈ records, Writable r) (hlsn : Increasing 0 records)
  (htail : 10 ∉ tail)

include hw hlsn htail

/-- A file of records and an unterminated rest reads back as the records. -/
theorem readLocalWAL_recordLines :
    ∃ read, readLocalWAL (recordLines records ++ tail) = .ok read ∧ read.records = records ∧
      read.validByteCount = (recordLines records).length ∧ read.tornTailBytes = tail.length := by
  have hlines : splitLines (recordLines records ++ tail) =
      ((records.map written).map line, tail) := by
    have htexts : ∀ text ∈ records.map written, 10 ∉ text := by
      intro text htext
      rcases mem_map.mp htext with ⟨r, hr, rfl⟩
      exact (frameOf_line (hw r hr).1).1
    rw [recordLines, splitLines_flatMap htexts, splitLines_of_no_newline htail, append_nil]
  rcases foldlM_readLine hw {} hlsn rfl with ⟨st, hrun, hrecords, hbytes, hvalid, htorn⟩
  have hcount : st.byteCount = (recordLines records).length := by simpa using hbytes
  refine ⟨readTail st tail, ?_, ?_, ?_, ?_⟩
  · rw [readLocalWAL, hlines, hrun]
    rfl
  all_goals
    unfold readTail
    split_ifs with hempty
  · simpa using hrecords
  · simpa using hrecords
  · omega
  · exact hvalid.trans hcount
  · simpa [hempty] using htorn
  · simp [hvalid]

/-- A file of records and an unterminated rest opens, and the rest is cut off. -/
theorem openLocalWAL_recordLines (path : String) (sync : Bool) :
    ∃ w, openLocalWAL path sync (recordLines records ++ tail) none = .ok w ∧
      w.file = recordLines records := by
  rcases readLocalWAL_recordLines hw hlsn htail with ⟨read, hread, hrecords, hvalid, htorn⟩
  rcases checkLSNs_of_increasing hlsn with ⟨last, hlast, -, -⟩
  rw [← hrecords] at hlast
  have hnot : ¬ (none : Option ℕ).getD 0 > last := by simp
  simp only [openLocalWAL, hread, hlast, hnot, if_false]
  by_cases hempty : tail = []
  · simp [htorn, hempty]
  · simp [htorn, hempty, hvalid]

end

/-! ## Runs of appends -/

/-- What an append does: nothing, a part of the line that counts as none, or the whole line. -/
theorem appendLocked_cases (io : AppendIO) (now : Timestamp) (r : LocalWALRecord) (w : LocalWAL) :
    (∃ e, appendLocked io now r w = (.error e, w)) ∨
    ∃ text, frameOf (prepareRecord now w.nextLSN r) = .ok text ∧
      ((∃ e n, appendLocked io now r w =
          (.error e, { w with file := w.file ++ (line text).take n })) ∨
        appendLocked io now r w = (.ok (prepareRecord now w.nextLSN r),
          { w with file := w.file ++ line text, nextLSN := w.nextLSN + 1 })) := by
  cases htext : frameOf (prepareRecord now w.nextLSN r) with
  | error e => exact .inl ⟨e, by simp only [appendLocked, htext]⟩
  | ok text =>
    refine .inr ⟨text, rfl, ?_⟩
    cases hwrite : io.writeFailsAfter with
    | some n => exact .inl ⟨_, n, by simp only [appendLocked, htext, hwrite]; rfl⟩
    | none =>
      by_cases hsync : (w.syncOnAppend && io.syncFails) = true
      · refine .inl ⟨"sync WAL frame", (line text).length, ?_⟩
        simp [appendLocked, htext, hwrite, hsync]
      · exact .inr (by simp only [appendLocked, htext, hwrite, hsync]; rfl)

/-- A log with its history: the records whose append succeeded, the bytes that failed appends
left in the file, and the record of the last append if it failed. -/
structure AppendState where
  wal : LocalWAL
  acknowledged : List LocalWALRecord := []
  leftover : GoString := []
  failed : Option LocalWALRecord := none

structure AppendCall where
  record : LocalWALRecord
  now : Timestamp
  io : AppendIO := {}

variable (st : AppendState)

def appendStep (c : AppendCall) : AppendState :=
  match appendLocked c.io c.now c.record st.wal with
  | (.ok record, wal) =>
    { st with wal := wal, acknowledged := st.acknowledged ++ [record], failed := none }
  | (.error _, wal) =>
    { st with
      wal := wal
      leftover := st.leftover ++ wal.file.drop st.wal.file.length
      failed := some (prepareRecord c.now st.wal.nextLSN c.record) }

variable (syncOnAppend : Bool)

def newLog : AppendState := { wal := { syncOnAppend := syncOnAppend } }

/-- An append behind no bytes of a failed append, of a record that reads back. -/
def AppendOk (c : AppendCall) : Prop :=
  st.leftover = [] ∧ readsBack (prepareRecord c.now st.wal.nextLSN c.record)

/-- The file holds the acknowledged records, and behind them at most a part of the line of the
last append, which failed. -/
structure LogOk (st : AppendState) : Prop where
  writable : ∀ r ∈ st.acknowledged, Writable r
  increasing : Increasing 0 st.acknowledged
  below : ∀ r ∈ st.acknowledged, r.lsn < st.wal.nextLSN
  positive : 0 < st.wal.nextLSN
  file : st.wal.file = recordLines st.acknowledged ++ st.leftover
  leftover : st.leftover = [] ∨ ∃ r n, st.failed = some r ∧ Writable r ∧
    r.lsn = st.wal.nextLSN ∧ st.leftover = (line (written r)).take n

theorem logOk_newLog : LogOk (newLog syncOnAppend) where
  writable := by simp [newLog]
  increasing := pairwise_singleton _ _
  below := by simp [newLog]
  positive := Nat.one_pos
  file := rfl
  leftover := .inl rfl

theorem LogOk.appendStep {st : AppendState} {c : AppendCall} (h : LogOk st)
    (hc : AppendOk st c) : LogOk (appendStep st c) := by
  rcases hc with ⟨hclean, hback⟩
  have hfile : st.wal.file = recordLines st.acknowledged := by
    rw [h.file, hclean, append_nil]
  rcases appendLocked_cases c.io c.now c.record st.wal with ⟨e, heq⟩ | ⟨text, htext, heq⟩
  · simp only [Core.appendStep, heq]
    exact ⟨h.writable, h.increasing, h.below, h.positive, by simp [hclean, hfile],
      .inl (by simp [hclean])⟩
  · have hwritten : written (prepareRecord c.now st.wal.nextLSN c.record) = text := by
      simp [written, htext, Except.toOption]
    have hwritable : Writable (prepareRecord c.now st.wal.nextLSN c.record) :=
      ⟨by rw [hwritten, htext], hback⟩
    rcases heq with ⟨e, n, heq⟩ | heq
    · simp only [Core.appendStep, heq]
      refine ⟨h.writable, h.increasing, h.below, h.positive, by simp [hclean, hfile],
        .inr ⟨_, n, rfl, hwritable, rfl, by simp [hclean, hwritten]⟩⟩
    · simp only [Core.appendStep, heq]
      refine ⟨?_, h.increasing.append h.positive h.below, ?_, Nat.succ_pos _, ?_, .inl hclean⟩
      · exact forall_mem_append.mpr ⟨h.writable, forall_mem_singleton.mpr hwritable⟩
      · exact forall_mem_append.mpr ⟨fun r hr => Nat.lt_succ_of_lt (h.below r hr),
          forall_mem_singleton.mpr (Nat.lt_succ_self _)⟩
      · rw [recordLines_append, hwritten, hclean, append_nil, hfile]

/-- The records that a log holds: the acknowledged ones, and perhaps the one of the last append,
which failed. -/
def HoldsAcknowledged (records : List LocalWALRecord) : Prop :=
  records = st.acknowledged ∨
    ∃ r, st.failed = some r ∧ records = st.acknowledged ++ [r]

/-- The file of a log is lines of records and an unterminated rest. -/
theorem LogOk.exists_records {st : AppendState} (h : LogOk st) :
    ∃ records tail, st.wal.file = recordLines records ++ tail ∧ 10 ∉ tail ∧
      (∀ r ∈ records, Writable r) ∧ Increasing 0 records ∧ HoldsAcknowledged st records := by
  rcases h.leftover with hclean | ⟨r, n, hfailed, hr, hlsn, hleft⟩
  · exact ⟨st.acknowledged, [], by rw [h.file, hclean], not_mem_nil, h.writable, h.increasing,
      .inl rfl⟩
  by_cases hn : n ≤ (written r).length
  -- The line is cut before its newline.
  · have htake : st.leftover = (written r).take n := by
      rw [hleft, line, take_append_of_le_length hn]
    exact ⟨st.acknowledged, st.leftover, h.file,
      fun hmem => (frameOf_line hr.1).1 (mem_of_mem_take (htake ▸ hmem)),
      h.writable, h.increasing, .inl rfl⟩
  · have hfull : st.leftover = line (written r) := by
      rw [hleft]
      exact take_of_length_le (by simp [line]; omega)
    refine ⟨st.acknowledged ++ [r], [], ?_, not_mem_nil, ?_, ?_, .inr ⟨r, hfailed, rfl⟩⟩
    · rw [h.file, hfull, recordLines_append, append_nil]
    · exact forall_mem_append.mpr ⟨h.writable, forall_mem_singleton.mpr hr⟩
    · exact h.increasing.append (hlsn ▸ h.positive) (fun r' hr' => hlsn ▸ h.below r' hr')

/-- In every run of appends in which none follows the bytes of a failed one, and whose records
read back from their own frames, the file opens at every moment, its sequence numbers increase,
and it reads back as the acknowledged records, up to the record of a failed last append. -/
theorem append_run_reads_back (calls : List AppendCall)
    (h : Meets appendStep AppendOk (newLog syncOnAppend) calls) (path : String) :
    ∃ read w, readLocalWAL (exec appendStep (newLog syncOnAppend) calls).wal.file = .ok read ∧
      openLocalWAL path syncOnAppend (exec appendStep (newLog syncOnAppend) calls).wal.file
        none = .ok w ∧
      w.file = recordLines read.records ∧
      (read.records.map LocalWALRecord.lsn).Pairwise (· < ·) ∧
      HoldsAcknowledged (exec appendStep (newLog syncOnAppend) calls) read.records := by
  have hlog : LogOk (exec appendStep (newLog syncOnAppend) calls) :=
    exec_induction appendStep (fun _ _ hst hc => hst.appendStep hc)
      (logOk_newLog syncOnAppend) h
  rcases hlog.exists_records with ⟨records, tail, hfile, htail, hw, hlsn, hholds⟩
  rcases readLocalWAL_recordLines hw hlsn htail with ⟨read, hread, rfl, -, -⟩
  rcases openLocalWAL_recordLines hw hlsn htail path syncOnAppend with ⟨w, hw', hwfile⟩
  rw [hfile]
  exact ⟨read, w, hread, hw', hwfile, (pairwise_cons.mp hlsn).2, hholds⟩

def commitRecord (operationID : String) : LocalWALRecord :=
  { operationID := ascii operationID, kind := kindCommit }

def noon : Timestamp := ⟨2024, 1, 1, 12, 0, 0, 0⟩

/-- Two appends, of which the second stops after five bytes, meet the condition. -/
def tornRun : List AppendCall :=
  [⟨commitRecord "a", noon, {}⟩, ⟨commitRecord "b", noon, { writeFailsAfter := some 5 }⟩]

theorem append_run_reads_back_torn :
    ∃ read w, readLocalWAL (exec appendStep (newLog true) tornRun).wal.file = .ok read ∧
      openLocalWAL "wal" true (exec appendStep (newLog true) tornRun).wal.file
        none = .ok w ∧
      w.file = recordLines read.records ∧
      (read.records.map LocalWALRecord.lsn).Pairwise (· < ·) ∧
      HoldsAcknowledged (exec appendStep (newLog true) tornRun) read.records :=
  append_run_reads_back true tornRun
    ⟨⟨rfl, by decide +kernel⟩, ⟨by decide +kernel, by decide +kernel⟩, trivial⟩ "wal"

/-- A log after an append that the file system spoils and one that succeeds. -/
def afterFailure (io : AppendIO) : AppendState :=
  exec appendStep (newLog true) [⟨commitRecord "a", noon, io⟩, ⟨commitRecord "b", noon, {}⟩]

/-- After a failed sync the next append reuses the sequence number; after a failed write it spoils
its own line.  It succeeds both times, and the file is no log any more. -/
theorem failed_append_breaks_log : ((afterFailure { syncFails := true }).acknowledged.length = 1 ∧
      (match openLocalWAL "wal" true (afterFailure { syncFails := true }).wal.file none with
        | .ok _ => "opened"
        | .error e => e) = "WAL LSN sequence is not increasing at line 2: got 1 after 1") ∧
    ((afterFailure { writeFailsAfter := some 5 }).acknowledged.length = 1 ∧
      (openLocalWAL "wal" true (afterFailure { writeFailsAfter := some 5 }).wal.file
        none).isOk = false) :=
  ⟨by decide +kernel, by decide +kernel⟩

end QuantaStream.Core
