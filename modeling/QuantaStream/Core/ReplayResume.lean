import Mathlib.Data.List.Sort
import QuantaStream.Core.SharedWAL

/-!
# Resuming an interrupted replay

A replay advances the checkpoint at the commit records of its plan.  When it is interrupted, the
next start plans the recovery again, from the checkpoint that the last of them has left.
-/

namespace QuantaStream.Core

open List

variable (checkpoint : Option ℕ)

/-- `CheckpointCommittedRecord`: only a numbered commit record advances the checkpoint. -/
def checkpointCommittedRecord (r : LocalWALRecord) : Option ℕ :=
  if r.isCommit ∧ r.lsn ≠ 0 then advanceCheckpoint r.lsn checkpoint else checkpoint

/-- The checkpoint after a replay of some records. -/
def checkpointAfter (replayed : List LocalWALRecord) : Option ℕ :=
  replayed.foldl checkpointCommittedRecord checkpoint

/-- The checkpoint stays, or it advances to one of the replayed records. -/
theorem checkpointAfter_cases (replayed : List LocalWALRecord) :
    checkpointAfter checkpoint replayed = checkpoint ∨
      ∃ r ∈ replayed, checkpoint.getD 0 ≤ r.lsn ∧
        checkpointAfter checkpoint replayed = some r.lsn := by
  induction replayed generalizing checkpoint with
  | nil => exact .inl rfl
  | cons r replayed ih =>
    rw [checkpointAfter, foldl_cons, ← checkpointAfter]
    have hstep : checkpointCommittedRecord checkpoint r = checkpoint ∨
        checkpoint.getD 0 ≤ r.lsn ∧ checkpointCommittedRecord checkpoint r = some r.lsn := by
      unfold checkpointCommittedRecord advanceCheckpoint
      split_ifs
      · exact .inl rfl
      · exact .inr ⟨by omega, rfl⟩
      · exact .inl rfl
    rcases hstep with hstep | ⟨hle, hstep⟩
    · rw [hstep]
      exact (ih checkpoint).imp_right fun ⟨r', hr', heq⟩ => ⟨r', mem_cons_of_mem _ hr', heq⟩
    · rw [hstep]
      rcases ih (some r.lsn) with heq | ⟨r', hr', hle', heq⟩
      · exact .inr ⟨r, mem_cons_self, hle, heq⟩
      · exact .inr ⟨r', mem_cons_of_mem _ hr', Nat.le_trans hle hle', heq⟩

section

variable {l : List LocalWALRecord} (h : l.Pairwise (fun r r' => r.lsn < r'.lsn))

include h

/-- Increasing sequence numbers are split by any number. -/
theorem filter_lsn_append (lsn : ℕ) :
    l.filter (fun r => r.lsn ≤ lsn) ++ l.filter (fun r => r.lsn > lsn) = l := by
  have hparts := pairwise_append.mpr ⟨h.filter (·.lsn ≤ lsn), h.filter (·.lsn > lsn), ?_⟩
  · refine hparts.eq_of_mem_iff h fun r => ?_
    simp only [mem_append, mem_filter, decide_eq_true_eq, ← and_or_left]
    exact and_iff_left (Nat.lt_or_ge lsn r.lsn).symm
  · intro r hr r' hr'
    simp only [mem_filter, decide_eq_true_eq] at hr hr'
    omega

end

/-- Planning on increasing sequence numbers fails only if the checkpoint is ahead of all of them.
It splits the records into those up to the checkpoint, those to replay, which end in a commit
record, and pending ones without commit records.  If a replay stops after some records, the plan
from the checkpoint it has left replays the records of the old plan behind that checkpoint, and
among them all that were not replayed. -/
theorem replay_resumes {records : List LocalWALRecord} (h : Increasing 0 records) (path : String)
    (checkpoint : Option ℕ) :
    (∀ e, planRecovery path records checkpoint = .error e →
      ∀ r ∈ records, r.lsn < checkpoint.getD 0) ∧
    ∀ plan, planRecovery path records checkpoint = .ok plan →
      records.filter (fun r => r.lsn ≤ checkpoint.getD 0) ++ plan.replayRecords ++
          plan.pendingRecords = records ∧
        (∀ r ∈ plan.replayRecords.getLast?, r.isCommit) ∧
        (∀ r ∈ plan.pendingRecords, ¬ r.isCommit) ∧
        ∀ n, ∃ resumed, planRecovery path records
            (checkpointAfter checkpoint (plan.replayRecords.take n)) = .ok resumed ∧
          plan.replayRecords.filter (fun r =>
              r.lsn ≤ (checkpointAfter checkpoint (plan.replayRecords.take n)).getD 0) ++
            resumed.replayRecords = plan.replayRecords ∧
          ∀ r ∈ plan.replayRecords.drop n, r ∈ resumed.replayRecords := by
  rcases planRecovery_spec h path checkpoint with
    ⟨⟨e, hplan⟩, lsn, rfl, hbelow⟩ | ⟨plan, hplan, hsplit, hreplay⟩
  · rw [hplan]
    exact ⟨fun _ _ => hbelow, nofun⟩
  rw [hplan]
  refine ⟨nofun, fun _ heq => ?_⟩
  cases heq
  have htail := h.pairwise.filter fun r => r.lsn > checkpoint.getD 0
  rw [← hsplit] at htail
  have hsorted := (pairwise_append.mp htail).1
  have hcommits : ∀ c ∈ records, checkpoint.getD 0 < c.lsn → c.isCommit → c ∈ plan.replayRecords :=
    fun c hc hlt hcommit => (hreplay c).mpr ⟨hc, hlt, c, hc, hcommit, Nat.le_refl _⟩
  refine ⟨?_, fun r hr => ?_, fun r hr hcommit => ?_, fun n => ?_⟩
  · rw [append_assoc, hsplit, filter_lsn_append h.pairwise]
  -- The last record has a commit record not before it, which is itself.
  · rcases getLast?_eq_some_iff.mp hr with ⟨init, hinit⟩
    rcases (hreplay r).mp (mem_of_getLast? hr) with ⟨-, hlt, c, hc, hcommit, hle⟩
    have hmem := hcommits c hc (Nat.lt_of_lt_of_le hlt hle) hcommit
    rw [hinit] at hsorted hmem
    rcases mem_append.mp hmem with hmem | hmem
    · have := (pairwise_append.mp hsorted).2.2 c hmem r (mem_singleton_self r)
      omega
    · exact mem_singleton.mp hmem ▸ hcommit
  · have hbehind : r ∈ plan.replayRecords ++ plan.pendingRecords := mem_append_right _ hr
    rw [hsplit, mem_filter, decide_eq_true_eq] at hbehind
    have hmem := hcommits r hbehind.1 hbehind.2 hcommit
    exact Nat.lt_irrefl _ ((pairwise_append.mp htail).2.2 r hmem r hr)
  have hcases := checkpointAfter_cases checkpoint (plan.replayRecords.take n)
  generalize checkpointAfter checkpoint (plan.replayRecords.take n) = reached at hcases
  rcases planRecovery_spec h path reached with
    ⟨⟨e, herror⟩, lsn, rfl, hbelow⟩ | ⟨resumed, hresumed, hsplit', hreplay'⟩
  · rcases hcases with rfl | ⟨r, hr, -, heq⟩
    · cases hplan.symm.trans herror
    · cases heq
      exact absurd (hbelow r ((hreplay r).mp (mem_of_mem_take hr)).1) (Nat.lt_irrefl _)
  have htail' := h.pairwise.filter fun r => r.lsn > reached.getD 0
  rw [← hsplit'] at htail'
  have hge : checkpoint.getD 0 ≤ reached.getD 0 := by
    rcases hcases with rfl | ⟨r, -, hle, rfl⟩
    · exact Nat.le_refl _
    · exact hle
  have hrest : resumed.replayRecords =
      plan.replayRecords.filter fun r => r.lsn > reached.getD 0 := by
    refine (pairwise_append.mp htail').1.eq_of_mem_iff (hsorted.filter _) fun r => ?_
    rw [mem_filter, hreplay, hreplay', decide_eq_true_eq]
    exact ⟨fun ⟨hr, hlt, hc⟩ => ⟨⟨hr, Nat.lt_of_le_of_lt hge hlt, hc⟩, hlt⟩,
      fun ⟨⟨hr, _, hc⟩, hlt⟩ => ⟨hr, hlt, hc⟩⟩
  refine ⟨resumed, hresumed, hrest ▸ filter_lsn_append hsorted _, fun r hr => ?_⟩
  rw [hrest, mem_filter, decide_eq_true_eq]
  refine ⟨mem_of_mem_drop hr, ?_⟩
  rcases hcases with rfl | ⟨r', hr', -, rfl⟩
  · exact ((hreplay r).mp (mem_of_mem_drop hr)).2.1
  · rw [← take_append_drop n plan.replayRecords] at hsorted
    exact (pairwise_append.mp hsorted).2.2 r' hr' r hr

def twoCommits : List LocalWALRecord := [boundaryRecord noon 1 {}, boundaryRecord noon 2 {}]

theorem twoCommits_resume : Increasing 0 twoCommits ∧
    ∃ resumed, planRecovery "wal" twoCommits (checkpointAfter none (twoCommits.take 1)) =
        .ok resumed ∧
      twoCommits.filter (fun r => r.lsn ≤ 1) ++ resumed.replayRecords = twoCommits := by
  have h : Increasing 0 twoCommits := by simp [Increasing, twoCommits, boundaryRecord, prepareRecord]
  rcases (replay_resumes h "wal" none).2 _ rfl with ⟨-, -, -, hresume⟩
  rcases hresume 1 with ⟨resumed, hplan, hsplit, -⟩
  exact ⟨h, resumed, hplan, hsplit⟩

end QuantaStream.Core
