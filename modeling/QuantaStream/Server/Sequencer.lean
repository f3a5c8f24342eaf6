import Mathlib.Data.List.TakeWhile
import QuantaStream.Server.ArtifactRefinement

/-!
# Sequencers

A client that needs columns for new rows checks out a range of column IDs.  The node keeps the
ranges it has handed out in a queue at the shard of the primary key, sorted by their last IDs, and
drops those that the columns of the shard have passed.  A new range starts behind the last ID of
the queue, or behind the last column if the queue is empty.

Column IDs are unsigned numbers of 64 bits, and so is the arithmetic on them.

Main results:

- `SequencerQueue.maximum_push`, `SequencerQueue.maximum_purge`: the last ID of
  the queue after each operation.
-/

namespace QuantaStream.Server

open Shared List Function

def idSpace : ℕ := 2 ^ 64

/-! ## Ranges -/

structure Sequencer where
  start : ℕ
  count : ℕ
  current : ℕ
  deriving DecidableEq, Repr

open Sequencer

namespace Sequencer

def new (start count : ℕ) : Sequencer := ⟨start, count, start⟩

variable (s : Sequencer)

def limit : ℕ := (s.start + s.count) % idSpace

def isFullySubscribed : Bool := !(s.current < s.limit)

/-- `Next`: a used-up range returns 0. -/
def next : ℕ × Sequencer :=
  if s.current < s.limit then (s.current, { s with current := s.current + 1 }) else (0, s)

/-- `Maximum`: the ID before the limit. -/
def maximum : ℕ := if s.limit = 0 then idSpace - 1 else s.limit - 1

/-- The IDs that `Next` has still to return. -/
def ids : Finset ℕ := Finset.Ico s.current s.limit

variable {s : Sequencer}

@[simp]
theorem mem_ids {id : ℕ} : id ∈ s.ids ↔ s.current ≤ id ∧ id < s.limit := by
  simp [ids]

theorem isFullySubscribed_iff : s.isFullySubscribed = true ↔ s.ids = ∅ := by
  simp [isFullySubscribed, ids]

/-- `Next` takes the least of the IDs. -/
theorem next_of_not_subscribed (h : s.isFullySubscribed = false) :
    s.next.1 ∈ s.ids ∧ s.next.2.ids = s.ids.erase s.next.1 := by
  have hlt : s.current < s.limit := by simpa [isFullySubscribed] using h
  simp only [next, hlt, if_true]
  refine ⟨by simp [hlt], ?_⟩
  ext id
  have hlimit : ({ s with current := s.current + 1 } : Sequencer).limit = s.limit := rfl
  simp only [mem_ids, Finset.mem_erase, hlimit]
  omega

variable {count start : ℕ}

/-- A range that does not reach the end of the space. -/
theorem maximum_new (hcount : 0 < count) (h : start + count ≤ idSpace) :
    (new start count).maximum = start + count - 1 := by
  unfold maximum limit
  by_cases hend : start + count = idSpace
  · simp [new, hend]
  · have hmod : (start + count) % idSpace = start + count := Nat.mod_eq_of_lt (by omega)
    simp only [new, hmod]
    rw [if_neg (by omega)]

theorem mem_ids_new {id : ℕ} (hid : id ∈ (new start count).ids) :
    start ≤ id ∧ id < start + count := by
  rw [mem_ids] at hid
  refine ⟨hid.1, Nat.lt_of_lt_of_le hid.2 ?_⟩
  exact Nat.mod_le _ _

theorem isFullySubscribed_new (hcount : 0 < count) (h : start + count < idSpace) :
    (new start count).isFullySubscribed = false := by
  have hlimit : (new start count).limit = start + count := Nat.mod_eq_of_lt h
  have hlt : (new start count).current < (new start count).limit := by
    rw [hlimit]
    exact Nat.lt_add_of_pos_right hcount
  simp [isFullySubscribed, hlt]

end Sequencer

/-! ## The queue -/

/-- `SequencerQueue`: the ranges, sorted by their last IDs. -/
structure SequencerQueue where
  queue : List Sequencer
  sorted : queue.Pairwise (fun s s' => s.maximum ≤ s'.maximum)

namespace SequencerQueue

def empty : SequencerQueue := ⟨[], .nil⟩

instance : Std.Total (fun s s' : Sequencer => s.maximum ≤ s'.maximum) :=
  ⟨fun s s' => Nat.le_total s.maximum s'.maximum⟩

instance : IsTrans Sequencer (fun s s' => s.maximum ≤ s'.maximum) :=
  ⟨fun _ _ _ => Nat.le_trans⟩

variable (q : SequencerQueue)

/-- `Push`: the range is appended and the queue sorted. -/
def push (s : Sequencer) : SequencerQueue :=
  ⟨(q.queue ++ [s]).insertionSort (fun s s' => s.maximum ≤ s'.maximum),
    pairwise_insertionSort _ _⟩

/-- `Purge`: ranges are dropped from the head up to the first that ends behind `max`. -/
def purge (max : ℕ) : SequencerQueue :=
  ⟨q.queue.dropWhile (fun s => s.maximum ≤ max),
    q.sorted.sublist (dropWhile_suffix _).sublist⟩

/-- `Maximum`: the last ID of the ranges, 0 if there are none. -/
def maximum : ℕ := (q.queue.getLast?).elim 0 Sequencer.maximum

variable {q : SequencerQueue}

theorem le_maximum {s : Sequencer} (hs : s ∈ q.queue) : s.maximum ≤ q.maximum := by
  unfold maximum
  cases hlast : q.queue.getLast? with
  | none =>
    rw [getLast?_eq_none_iff.mp hlast] at hs
    cases hs
  | some last =>
    rcases getLast?_eq_some_iff.mp hlast with ⟨ranges, hranges⟩
    have hsorted := q.sorted
    rw [hranges, pairwise_append] at hsorted
    rw [hranges] at hs
    rcases mem_append.mp hs with hs | hs
    · exact hsorted.2.2 s hs last (mem_singleton_self last)
    · rw [mem_singleton.mp hs]
      exact Nat.le_refl _

theorem exists_maximum (h : q.queue ≠ []) : ∃ s ∈ q.queue, s.maximum = q.maximum := by
  refine ⟨q.queue.getLast h, getLast_mem h, ?_⟩
  rw [maximum, getLast?_eq_getLast_of_ne_nil h]
  rfl

theorem maximum_eq {m : ℕ} (hle : ∀ s ∈ q.queue, s.maximum ≤ m)
    (hmem : ∃ s ∈ q.queue, s.maximum = m) : q.maximum = m := by
  rcases hmem with ⟨s, hs, rfl⟩
  rcases exists_maximum (ne_nil_of_mem hs) with ⟨last, hlast, hmax⟩
  exact Nat.le_antisymm (hmax ▸ hle last hlast) (le_maximum hs)

@[simp]
theorem maximum_empty : empty.maximum = 0 := rfl

theorem mem_push {s s' : Sequencer} : s' ∈ (q.push s).queue ↔ s' ∈ q.queue ∨ s' = s := by
  simp [push]

theorem maximum_push (q : SequencerQueue) (s : Sequencer) :
    (q.push s).maximum = max q.maximum s.maximum := by
  refine maximum_eq (fun s' hs' => ?_) ?_
  · rcases mem_push.mp hs' with hs' | rfl
    · exact Nat.le_trans (le_maximum hs') (Nat.le_max_left _ _)
    · exact Nat.le_max_right _ _
  · rcases Nat.le_total q.maximum s.maximum with hle | hle
    · exact ⟨s, mem_push.mpr (.inr rfl), (Nat.max_eq_right hle).symm⟩
    · by_cases hempty : q.queue = []
      · have hzero : q.maximum = 0 := by simp [maximum, hempty]
        exact ⟨s, mem_push.mpr (.inr rfl), by omega⟩
      · rcases exists_maximum hempty with ⟨s', hs', hmax⟩
        exact ⟨s', mem_push.mpr (.inl hs'), by omega⟩

/-- A purge drops the last range only if it drops all. -/
theorem maximum_purge (q : SequencerQueue) (max : ℕ) :
    (q.purge max).maximum = if q.maximum ≤ max then 0 else q.maximum := by
  split_ifs with hmax
  · have hnil : (q.purge max).queue = [] :=
      dropWhile_eq_nil_iff.mpr fun s hs => by
        simpa using Nat.le_trans (le_maximum hs) hmax
    simp [maximum, hnil]
  · refine maximum_eq (fun s hs => ?_) ?_
    · exact le_maximum ((dropWhile_suffix _).subset hs)
    · have hne : q.queue ≠ [] := by
        intro hnil
        exact hmax (by simp [maximum, hnil])
      rcases exists_maximum hne with ⟨s, hs, hs'⟩
      refine ⟨s, ?_, hs'⟩
      -- The range that ends last is not among those that are dropped.
      rw [← q.queue.takeWhile_append_dropWhile (p := fun s => s.maximum ≤ max)] at hs
      rcases mem_append.mp hs with hs | hs
      · have hdropped := mem_takeWhile_imp hs
        simp only [decide_eq_true_eq] at hdropped
        omega
      · exact hs

end SequencerQueue

/-! ## Checkouts -/

structure CheckoutRequest where
  index : String
  pkField : String
  time : ℤ
  reservationSize : ℕ

def CheckoutRequest.shard (req : CheckoutRequest) : FieldKey × ℤ := (⟨req.index, req.pkField⟩, req.time)

/-- A node with the queues of its shards.  The queue of a shard that is not there is empty. -/
structure SequencerNode where
  cache : CacheState
  queues : FieldKey × ℤ → SequencerQueue := fun _ => .empty

def CacheState.columns (s : CacheState) (shard : FieldKey × ℤ) : Bitmap :=
  (s.bsiEntry shard).elim ∅ (fun b => b.contents.existence)

/-- The greatest column, 0 if there is none. -/
def maxColumnID (columns : Bitmap) : ℕ := columns.sup id

variable (tqType : FieldKey → String)

/-- Where the ranges of an empty shard start: at its time, if the field has a time quantum. -/
def baseID (shard : FieldKey × ℤ) : ℕ :=
  if tqType shard.1 ≠ "" then (shard.2 % (idSpace : ℤ)).toNat else 0

/-- The start of the next range, from the greatest column and the last ID of the queue. -/
def nextSeqStart (base maxColID maxSeq : ℕ) : ℕ :=
  if maxSeq = 0 then
    if maxColID = 0 then (base + 1) % idSpace else (maxColID + 1) % idSpace
  else (maxSeq + 1) % idSpace

def checkoutSequence (now : Time) (req : CheckoutRequest) (n : SequencerNode) :
    Except String Sequencer × SequencerNode :=
  if req.index = "" then (.error "index not specified for sequencer checkout", n)
  else if req.pkField = "" then (.error "PK field not specified for sequencer checkout", n)
  else if req.reservationSize = 0 then (.error "PK field not specified for sequencer checkout", n)
  else
    let cache :=
      if (n.cache.bsiEntry req.shard).isNone then
        setShard req.shard.1 req.time ⟨.empty, now, 0⟩ n.cache
      else n.cache
    let maxColID := maxColumnID (cache.columns req.shard)
    let queue := (n.queues req.shard).purge maxColID
    let start := nextSeqStart (baseID tqType req.shard) maxColID queue.maximum
    let seq := new start req.reservationSize
    (.ok seq, { cache := cache, queues := Function.update n.queues req.shard (queue.push seq) })

/-- The ID that the next range starts behind: the last of the columns and of the queue, or the
base of an empty shard. -/
def lastID (base maxColID maxSeq : ℕ) : ℕ :=
  if maxColID = 0 ∧ maxSeq = 0 then base else max maxColID maxSeq

theorem le_lastID (base maxColID maxSeq : ℕ) :
    maxColID ≤ lastID base maxColID maxSeq ∧ maxSeq ≤ lastID base maxColID maxSeq := by
  unfold lastID
  split_ifs <;> omega

/-- Whether the queue was purged makes no difference to the next start. -/
theorem nextSeqStart_purge (base maxColID : ℕ) (q : SequencerQueue) :
    nextSeqStart base maxColID (q.purge maxColID).maximum =
      (lastID base maxColID q.maximum + 1) % idSpace := by
  rw [SequencerQueue.maximum_purge]
  unfold nextSeqStart lastID
  by_cases hpassed : q.maximum ≤ maxColID
  · by_cases hempty : maxColID = 0
    · have hqueue : q.maximum = 0 := by omega
      simp [hempty, hqueue]
    · simp [hpassed, hempty]
  · have hqueue : q.maximum ≠ 0 := by omega
    have hmax : max maxColID q.maximum = q.maximum := by omega
    simp [hpassed, hqueue, hmax]

/-- The ID that the next range of a shard starts behind. -/
def SequencerNode.lastID (tqType : FieldKey → String) (n : SequencerNode) (shard : FieldKey × ℤ) : ℕ :=
  Server.lastID (baseID tqType shard) (maxColumnID (n.cache.columns shard)) (n.queues shard).maximum

/-- A request that is not refused. -/
structure CheckoutRequest.Valid (req : CheckoutRequest) : Prop where
  index : req.index ≠ ""
  pkField : req.pkField ≠ ""
  reservationSize : 0 < req.reservationSize

theorem columns_setShard_empty {s : CacheState} {shard : FieldKey × ℤ}
    (h : (s.bsiEntry shard).isNone = true) (now : Time) (k : FieldKey × ℤ) :
    (setShard shard.1 shard.2 ⟨.empty, now, 0⟩ s).columns k = s.columns k := by
  unfold CacheState.columns
  rw [bsiEntry_setShard]
  split_ifs with hk
  · subst hk
    rw [Option.isNone_iff_eq_none.mp h]
    rfl
  · rfl

variable {req : CheckoutRequest}

theorem checkoutSequence_of_not_valid (h : ¬ req.Valid) (tqType : FieldKey → String) (now : Time)
    (n : SequencerNode) : ∃ e, checkoutSequence tqType now req n = (.error e, n) := by
  unfold checkoutSequence
  split_ifs with hindex hfield hsize
  iterate 3 exact ⟨_, rfl⟩
  all_goals exact absurd ⟨hindex, hfield, Nat.pos_of_ne_zero hsize⟩ h

/-- A range that fits into the space of IDs starts behind the last ID, and the queue ends with
it. -/
theorem checkoutSequence_ok (h : req.Valid) {tqType : FieldKey → String} {n : SequencerNode}
    (hroom : n.lastID tqType req.shard + req.reservationSize < idSpace) (now : Time) :
    ∃ n', checkoutSequence tqType now req n =
        (.ok (new (n.lastID tqType req.shard + 1) req.reservationSize), n') ∧
      ∀ k, (n'.queues k).maximum =
        if k = req.shard then n.lastID tqType req.shard + req.reservationSize
        else (n.queues k).maximum := by
  have hsize := h.reservationSize
  -- The shard is made if it is not there, which adds no columns.
  let cache :=
    if (n.cache.bsiEntry req.shard).isNone then
      setShard req.shard.1 req.time ⟨.empty, now, 0⟩ n.cache
    else n.cache
  have hcolumns : ∀ k, cache.columns k = n.cache.columns k := by
    intro k
    by_cases hnone : (n.cache.bsiEntry req.shard).isNone = true
    · simp only [cache, hnone, if_true]
      exact columns_setShard_empty hnone now k
    · simp [cache, hnone]
  have hstart : nextSeqStart (baseID tqType req.shard) (maxColumnID (cache.columns req.shard))
      ((n.queues req.shard).purge (maxColumnID (cache.columns req.shard))).maximum =
        n.lastID tqType req.shard + 1 := by
    rw [nextSeqStart_purge, hcolumns]
    exact Nat.mod_eq_of_lt (by unfold SequencerNode.lastID at hroom; omega)
  let queue := (n.queues req.shard).purge (maxColumnID (cache.columns req.shard))
  let seq := new (n.lastID tqType req.shard + 1) req.reservationSize
  refine ⟨⟨cache, update n.queues req.shard (queue.push seq)⟩, ?_, fun k => ?_⟩
  · unfold checkoutSequence
    rw [if_neg h.index, if_neg h.pkField, if_neg hsize.ne']
    simp only [seq, ← hstart]
    rfl
  · dsimp only
    by_cases hk : k = req.shard
    · subst hk
      have hlast := (le_lastID (baseID tqType req.shard)
        (maxColumnID (n.cache.columns req.shard)) (n.queues req.shard).maximum).2
      rw [update_self, SequencerQueue.maximum_push, SequencerQueue.maximum_purge,
        if_pos rfl, maximum_new hsize (by omega)]
      unfold SequencerNode.lastID at hroom ⊢
      split_ifs <;> omega
    · rw [update_of_ne hk, if_neg hk]

theorem queues_checkoutSequence_of_ne {k : FieldKey × ℤ} (hk : k ≠ req.shard)
    (tqType : FieldKey → String) (now : Time) (n : SequencerNode) :
    (checkoutSequence tqType now req n).2.queues k = n.queues k := by
  unfold checkoutSequence
  split_ifs
  iterate 3 rfl
  all_goals exact update_of_ne hk _ _

/-- What a checkout does that fits into the space of IDs: the new range lies behind the queue and
the columns of its shard, and the queue ends with it. -/
structure CheckedOut (req : CheckoutRequest) (n : SequencerNode) (seq : Sequencer)
    (n' : SequencerNode) : Prop where
  last : ∀ id ∈ seq.ids, n.lastID tqType req.shard < id ∧ id ≤ (n'.queues req.shard).maximum
  queue : ∀ id ∈ seq.ids, (n.queues req.shard).maximum < id
  columns : ∀ id ∈ seq.ids, ∀ c ∈ n.cache.columns req.shard, c < id
  maximum : (n'.queues req.shard).maximum = n.lastID tqType req.shard + req.reservationSize
  grows : (n.queues req.shard).maximum ≤ (n'.queues req.shard).maximum
  others : ∀ k, k ≠ req.shard → (n'.queues k).maximum = (n.queues k).maximum

/-- A range that fits into the space of IDs is checked out; there are IDs in it if it does not end
with the last of the space. -/
theorem checkedOut (h : req.Valid) {tqType : FieldKey → String} {n : SequencerNode}
    (hroom : n.lastID tqType req.shard + req.reservationSize < idSpace) (now : Time) :
    ∃ seq n', checkoutSequence tqType now req n = (.ok seq, n') ∧
      (n.lastID tqType req.shard + req.reservationSize + 1 < idSpace →
        seq.isFullySubscribed = false) ∧ CheckedOut tqType req n seq n' := by
  rcases checkoutSequence_ok h hroom now with ⟨n', hout, hqueues⟩
  have hlast : maxColumnID (n.cache.columns req.shard) ≤ n.lastID tqType req.shard ∧
      (n.queues req.shard).maximum ≤ n.lastID tqType req.shard := le_lastID _ _ _
  have hmax := hqueues req.shard
  rw [if_pos rfl] at hmax
  have hids : ∀ id ∈ (new (n.lastID tqType req.shard + 1) req.reservationSize).ids,
      n.lastID tqType req.shard < id ∧ id ≤ (n'.queues req.shard).maximum := by
    intro id hid
    have hrange := mem_ids_new hid
    omega
  refine ⟨_, n', hout, ?_, hids, fun id hid => ?_, fun id hid c hc => ?_, hmax, ?_, ?_⟩
  · exact fun hbehind => isFullySubscribed_new h.reservationSize (by omega)
  · exact Nat.lt_of_le_of_lt hlast.2 (hids id hid).1
  · exact Nat.lt_of_le_of_lt (Nat.le_trans (Finset.le_sup (f := fun c => c) hc) hlast.1) (hids id hid).1
  · omega
  · intro k hk
    rw [hqueues k, if_neg hk]

end QuantaStream.Server
