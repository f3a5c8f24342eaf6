import Mathlib.Data.List.Induction
import QuantaStream.Core.WALAppend

/-!
# What a recovery plan replays

A recovery plan splits the records behind the checkpoint at the last commit record, whoever
committed.  On a log with increasing sequence numbers this says by sequence numbers alone which
records are replayed.
-/

namespace QuantaStream.Core

open GoString LineLog List

theorem upToLastCommit_append (tail : List LocalWALRecord) (r : LocalWALRecord) :
    upToLastCommit (tail ++ [r]) = if r.isCommit then tail ++ [r] else upToLastCommit tail := by
  cases hr : r.isCommit with
  | true | false => simp [upToLastCommit, hr]

/-- On increasing sequence numbers, the records up to the last commit record are those with a
commit record not before them. -/
theorem mem_upToLastCommit {tail : List LocalWALRecord}
    (h : tail.Pairwise (fun r r' => r.lsn < r'.lsn)) (r : LocalWALRecord) :
    r ∈ upToLastCommit tail ↔ r ∈ tail ∧ ∃ c ∈ tail, c.isCommit ∧ r.lsn ≤ c.lsn := by
  induction tail using List.reverseRecOn with
  | nil => simp [upToLastCommit]
  | append_singleton tail a ih =>
    rw [pairwise_append] at h
    have hlast : ∀ r' ∈ tail, r'.lsn < a.lsn := fun r' hr' =>
      h.2.2 r' hr' a (mem_singleton_self a)
    rw [upToLastCommit_append]
    cases ha : a.isCommit with
    | true =>
      refine ⟨fun hr => ⟨hr, a, by simp, ha, ?_⟩, And.left⟩
      rcases mem_append.mp hr with hr | hr
      · exact Nat.le_of_lt (hlast r hr)
      · exact Nat.le_of_eq (congrArg _ (mem_singleton.mp hr))
    | false =>
      rw [if_neg Bool.false_ne_true, ih h.1]
      constructor
      · rintro ⟨hr, c, hc, hcommit, hle⟩
        exact ⟨mem_append_left _ hr, c, mem_append_left _ hc, hcommit, hle⟩
      · rintro ⟨hr, c, hc, hcommit, hle⟩
        have hc' : c ∈ tail := by
          rcases mem_append.mp hc with hc | hc
          · exact hc
          · rw [mem_singleton.mp hc, ha] at hcommit
            exact absurd hcommit Bool.false_ne_true
        refine ⟨?_, c, hc', hcommit, hle⟩
        rcases mem_append.mp hr with hr | hr
        · exact hr
        -- The new record comes after every commit record.
        · have hlt := hlast c hc'
          rw [mem_singleton.mp hr] at hle
          omega

variable {records : List LocalWALRecord}

theorem Increasing.pairwise {lastLSN : ℕ} (h : Increasing lastLSN records) :
    records.Pairwise (fun r r' => r.lsn < r'.lsn) :=
  pairwise_map.mp (pairwise_cons.mp h).2

/-- Planning fails on increasing sequence numbers if the checkpoint is ahead of all of them.  Else it
splits the records behind the checkpoint, and replays those that have a commit record not before
them. -/
theorem planRecovery_spec (h : Increasing 0 records) (path : String) (checkpoint : Option ℕ) :
    (∃ e, planRecovery path records checkpoint = .error e) ∧
        (∃ lsn, checkpoint = some lsn ∧ ∀ r ∈ records, r.lsn < lsn) ∨
      ∃ plan, planRecovery path records checkpoint = .ok plan ∧
        plan.replayRecords ++ plan.pendingRecords =
          records.filter (fun r => r.lsn > checkpoint.getD 0) ∧
        ∀ r, r ∈ plan.replayRecords ↔
          r ∈ records ∧ checkpoint.getD 0 < r.lsn ∧ ∃ c ∈ records, c.isCommit ∧ r.lsn ≤ c.lsn := by
  rcases checkLSNs_of_increasing h with ⟨last, hlast, -, hbound⟩
  by_cases hahead : checkpoint.getD 0 > last
  · refine .inl ⟨⟨_, by simp only [planRecovery, hlast, hahead, if_true]; rfl⟩, ?_⟩
    cases checkpoint with
    | none => cases hahead
    | some lsn => exact ⟨lsn, rfl, fun r hr => Nat.lt_of_le_of_lt (hbound r hr) hahead⟩
  simp only [planRecovery, hlast, hahead, if_false]
  refine .inr ⟨_, rfl, ?_, fun r => ?_⟩
  · rw [upToLastCommit, afterLastCommit, ← reverse_append, takeWhile_append_dropWhile,
      reverse_reverse]
  rw [mem_upToLastCommit (h.pairwise.filter _)]
  simp only [mem_filter, decide_eq_true_eq]
  constructor
  · rintro ⟨⟨hr, hlt⟩, c, ⟨hc, -⟩, hcommit, hle⟩
    exact ⟨hr, hlt, c, hc, hcommit, hle⟩
  · rintro ⟨hr, hlt, c, hc, hcommit, hle⟩
    exact ⟨⟨hr, hlt⟩, c, ⟨hc, Nat.lt_of_lt_of_le hlt hle⟩, hcommit, hle⟩

/-- Planning succeeds with a checkpoint among the sequence numbers. -/
theorem planRecovery_of_increasing (h : Increasing 0 records) {checkpoint : Option ℕ}
    (hcheck : ∀ lsn, checkpoint = some lsn → ∃ r ∈ records, r.lsn = lsn) (path : String) :
    ∃ plan, planRecovery path records checkpoint = .ok plan ∧
      ∀ r, r ∈ plan.replayRecords ↔
        r ∈ records ∧ checkpoint.getD 0 < r.lsn ∧ ∃ c ∈ records, c.isCommit ∧ r.lsn ≤ c.lsn := by
  rcases planRecovery_spec h path checkpoint with ⟨-, lsn, hlsn, hbelow⟩ | ⟨plan, hplan, -, hmem⟩
  · rcases hcheck lsn hlsn with ⟨r, hr, rfl⟩
    exact absurd (hbelow r hr) (Nat.lt_irrefl _)
  · exact ⟨plan, hplan, hmem⟩

/-- The plan of a file of records, with or without a torn last line, is that of the records. -/
theorem planLocalWALRecovery_recordLines {tail : GoString} (hw : ∀ r ∈ records, Writable r)
    (hlsn : Increasing 0 records) (htail : 10 ∉ tail) (path : String) (checkpoint : Option ℕ) :
    planLocalWALRecovery path (recordLines records ++ tail) checkpoint =
      planRecovery path records checkpoint := by
  rcases readLocalWAL_recordLines hw hlsn htail with ⟨read, hread, hrecords, -, -⟩
  simp only [planLocalWALRecovery, hread, hrecords]

/-- After every run of appends as above, the recovery plan of the file replays every acknowledged
record behind the checkpoint that has an acknowledged commit record not before it, and no record
but acknowledged ones and that of a failed last append. -/
theorem acknowledged_commits_replayed (syncOnAppend : Bool) (calls : List AppendCall)
    {st : AppendState} (h : Run.Meets appendStep AppendOk (newLog syncOnAppend) calls)
    (hst : Run.exec appendStep (newLog syncOnAppend) calls = st) {checkpoint : Option ℕ}
    (hcheck : ∀ lsn, checkpoint = some lsn → ∃ r ∈ st.acknowledged, r.lsn = lsn)
    (path : String) :
    ∃ plan, planLocalWALRecovery path st.wal.file checkpoint = .ok plan ∧
      (∀ r ∈ st.acknowledged, checkpoint.getD 0 < r.lsn →
        ∀ c ∈ st.acknowledged, c.isCommit → r.lsn ≤ c.lsn → r ∈ plan.replayRecords) ∧
      ∀ r ∈ plan.replayRecords, r ∈ st.acknowledged ∨ st.failed = some r := by
  have hlog : LogOk st := hst ▸ Run.exec_induction appendStep
    (fun _ _ hst hc => hst.appendStep hc) (logOk_newLog syncOnAppend) h
  rcases hlog.exists_records with ⟨records, tail, hfile, htail, hw, hlsn, hholds⟩
  have hsub : ∀ r ∈ st.acknowledged, r ∈ records := by
    rcases hholds with rfl | ⟨r, -, rfl⟩ <;> simp +contextual
  have hall : ∀ r ∈ records, r ∈ st.acknowledged ∨ st.failed = some r := by
    rcases hholds with rfl | ⟨r, hr, rfl⟩ <;> simp +contextual [or_imp, *]
  rcases planRecovery_of_increasing hlsn (fun lsn hl => (hcheck lsn hl).imp fun r hr =>
    ⟨hsub r hr.1, hr.2⟩) path with ⟨plan, hplan, hmem⟩
  refine ⟨plan, ?_, fun r hr hlt c hc hcommit hle => ?_, fun r hr => hall r ((hmem r).mp hr).1⟩
  · rw [hfile, planLocalWALRecovery_recordLines hw hlsn htail, hplan]
  · exact (hmem r).mpr ⟨hsub r hr, hlt, c, hsub c hc, hcommit, hle⟩

def tornLog : AppendState := Run.exec appendStep (newLog true) tornRun

theorem acknowledged_commit_replayed_torn :
    ∃ plan, planLocalWALRecovery "wal" tornLog.wal.file none = .ok plan ∧
      (∀ r ∈ tornLog.acknowledged, 0 < r.lsn → ∀ c ∈ tornLog.acknowledged, c.isCommit →
        r.lsn ≤ c.lsn → r ∈ plan.replayRecords) ∧
      ∀ r ∈ plan.replayRecords, r ∈ tornLog.acknowledged ∨ tornLog.failed = some r :=
  acknowledged_commits_replayed true tornRun
    ⟨⟨rfl, by decide +kernel⟩, ⟨by decide +kernel, by decide +kernel⟩, trivial⟩ rfl
    (by simp) "wal"

end QuantaStream.Core
