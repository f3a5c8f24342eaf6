import QuantaStream.Server.Sequencer

/-!
# Column IDs of new rows

Sessions take the columns of new rows from ranges that they check out at the node.  A session keeps
a range until it has used it up.  The node keeps the ranges at the shard of the primary key, and
truncating the table removes the shards with their queues; the sessions keep their ranges.

So while a table is not truncated, its ranges are disjoint and lie behind the columns that are
there.  But a session that goes on with a range from before a truncation shares its IDs with the
ranges that are checked out afterwards.
-/

namespace QuantaStream.Core

open Shared Server Finset Run Sequencer

/-! ## Sessions -/

def reservationSize : ℕ := 1000

/-- What a session and a node do for the column of the next row. -/
structure Allocation where
  result : Except String ℕ
  checkedOut : Option Sequencer
  sequencer : Option Sequencer
  node : SequencerNode

def sessionRequest (shard : FieldKey × ℤ) : CheckoutRequest :=
  ⟨shard.1.index, shard.1.field, shard.2, reservationSize⟩

/-- The range that a session has for a shard can be used. -/
def usable (sequencer : Option Sequencer) : Bool := sequencer.any (fun seq => !seq.isFullySubscribed)

/-- `NextColumnID`: a session without a range, or with one that is used up, checks out another. -/
def nextColumnID (tqType : FieldKey → String) (now : Time) (shard : FieldKey × ℤ)
    (sequencer : Option Sequencer) (n : SequencerNode) : Allocation :=
  if usable sequencer then
    let seq := sequencer.getD (.new 0 0)
    { result := .ok seq.next.1, checkedOut := none, sequencer := some seq.next.2, node := n }
  else
    match checkoutSequence tqType now (sessionRequest shard) n with
    | (.error e, n) =>
      { result := .error s!"Sequencer checkout error for {shard.1.index}.{shard.1.field} - {e}]"
        checkedOut := none
        sequencer := sequencer
        node := n }
    | (.ok seq, n) =>
      { result := .ok seq.next.1
        checkedOut := some seq
        sequencer := some seq.next.2
        node := n }

/-! ## Histories -/

/-- A range that was checked out, with the columns of its shard at that time. -/
structure Issue where
  shard : FieldKey × ℤ
  range : Sequencer
  columns : Bitmap
  deriving DecidableEq

/-- A node and its sessions, with the ranges that were checked out, and the columns of each table
that sessions took since it was last truncated. -/
structure ColumnHistory (S : Type) where
  node : SequencerNode
  sequencers : S → FieldKey × ℤ → Option Sequencer := fun _ _ => none
  issued : List Issue := []
  drawn : FieldKey → List (ℤ × ℕ) := fun _ => []

open ColumnHistory

/-- What happens: a client checks out a range, a session takes a column, or the bit-sliced indexes
change. -/
inductive ColumnEvent (S : Type) where
  | checkout (now : Time) (req : CheckoutRequest)
  | nextColumnID (s : S) (now : Time) (shard : FieldKey × ℤ)
  | mutate (e : BSIMutation)

section

variable {S : Type} [DecidableEq S]

/-- Truncating a table removes the queues of its shards. -/
def truncateQueues (index : String) (queues : FieldKey × ℤ → SequencerQueue) :
    FieldKey × ℤ → SequencerQueue :=
  fun k => if k.1.index = index then .empty else queues k

variable (h : ColumnHistory S)

/-- A range is checked out. -/
def ColumnHistory.issue (shard : FieldKey × ℤ) (range : Option Sequencer)
    (n : SequencerNode) : ColumnHistory S :=
  { h with
    node := n
    issued := h.issued ++ range.toList.map (fun seq => ⟨shard, seq, h.node.cache.columns shard⟩) }

/-- A session has a range for a shard. -/
def ColumnHistory.setSequencer (s : S) (shard : FieldKey × ℤ)
    (sequencer : Option Sequencer) : ColumnHistory S :=
  { h with
    sequencers := Function.update h.sequencers s (Function.update (h.sequencers s) shard sequencer) }

def ColumnHistory.draw (shard : FieldKey × ℤ) (id : ℕ) : ColumnHistory S :=
  { h with drawn := Function.update h.drawn shard.1 (h.drawn shard.1 ++ [(shard.2, id)]) }

def columnStep (enabled : FieldKey → Bool) (tqType : FieldKey → String) (h : ColumnHistory S) :
    ColumnEvent S → ColumnHistory S
  | .checkout now req =>
    let out := checkoutSequence tqType now req h.node
    h.issue req.shard out.1.toOption out.2
  | .nextColumnID s now shard =>
    let out := nextColumnID tqType now shard (h.sequencers s shard) h.node
    let h := (h.issue shard out.checkedOut out.node).setSequencer s shard out.sequencer
    match out.result with
    | .error _ => h
    | .ok id => h.draw shard id
  | .mutate (.truncate index) =>
    { h with
      node :=
        { cache := truncate index h.node.cache
          queues := truncateQueues index h.node.queues }
      drawn key := if key.index = index then [] else h.drawn key }
  | .mutate e => { h with node := { h.node with cache := mutate enabled h.node.cache e } }

def newHistory (cache : CacheState) : ColumnHistory S := { node := { cache := cache } }

def ColumnHistory.issuedOn (k : FieldKey × ℤ) : List Issue :=
  h.issued.filter (fun i => i.shard = k)

def ColumnHistory.request : ColumnEvent S → Option CheckoutRequest
  | .checkout _ req => some req
  | .nextColumnID s _ shard =>
    if usable (h.sequencers s shard) then none else some (sessionRequest shard)
  | .mutate _ => none

/-- The next range of the request fits into the space of IDs. -/
def HasRoom (tqType : FieldKey → String) (n : SequencerNode) (req : CheckoutRequest) : Prop :=
  n.lastID tqType req.shard + req.reservationSize < idSpace

/-! ## Ranges of one shard -/

/-- The ranges of a shard end in its queue, are disjoint, and lie behind the columns that were
there. -/
structure ShardOk (k : FieldKey × ℤ) (h : ColumnHistory S) : Prop where
  bound : ∀ i ∈ h.issuedOn k, ∀ id ∈ i.range.ids, id ≤ (h.node.queues k).maximum
  disjoint : (h.issuedOn k).Pairwise (fun i i' => Disjoint i.range.ids i'.range.ids)
  above : ∀ i ∈ h.issuedOn k, ∀ c ∈ i.columns, ∀ id ∈ i.range.ids, c < id

/-- The condition of a step for a shard: its table is not truncated, and its ranges have room. -/
def ShardStepOk (tqType : FieldKey → String) (k : FieldKey × ℤ) (h : ColumnHistory S)
    (e : ColumnEvent S) : Prop :=
  (∀ req, h.request e = some req → req.Valid → req.shard = k → HasRoom tqType h.node req) ∧
    ∀ index, e = .mutate (.truncate index) → k.1.index ≠ index

omit [DecidableEq S] in
theorem issuedOn_issue (shard k : FieldKey × ℤ) (range : Option Sequencer) (n : SequencerNode) :
    (h.issue shard range n).issuedOn k = h.issuedOn k ++
      if shard = k then range.toList.map (fun seq => ⟨shard, seq, h.node.cache.columns shard⟩)
      else [] := by
  unfold issuedOn issue
  split_ifs with hk <;> simp [hk]

variable {tqType : FieldKey → String} {h : ColumnHistory S} {req : CheckoutRequest}
  {seq : Sequencer} {n' : SequencerNode}

omit [DecidableEq S] in
theorem ShardOk.issue (hok : ShardOk req.shard h) (hout : CheckedOut tqType req h.node seq n') :
    ShardOk req.shard (h.issue req.shard (some seq) n') := by
  have hissued : (h.issue req.shard (some seq) n').issuedOn req.shard =
      h.issuedOn req.shard ++ [⟨req.shard, seq, h.node.cache.columns req.shard⟩] := by
    rw [issuedOn_issue, if_pos rfl]
    rfl
  constructor <;> rw [hissued]
  · exact List.forall_mem_append.mpr
      ⟨fun i hi id hid => Nat.le_trans (hok.bound i hi id hid) hout.grows,
        List.forall_mem_singleton.mpr fun id hid => (hout.last id hid).2⟩
  · rw [List.pairwise_append]
    refine ⟨hok.disjoint, List.pairwise_singleton _ _, fun i hi i' hi' => ?_⟩
    rw [List.mem_singleton.mp hi']
    -- The range lies behind the queue, and the earlier ranges do not.
    refine disjoint_left.mpr fun id hid hid' => ?_
    exact absurd (hok.bound i hi id hid) (Nat.not_le.mpr (hout.queue id hid'))
  · exact List.forall_mem_append.mpr ⟨hok.above,
      List.forall_mem_singleton.mpr fun c hc id hid => hout.columns id hid c hc⟩

variable {k : FieldKey × ℤ}

omit [DecidableEq S] in
/-- Histories with the same ranges and the same queue. -/
theorem ShardOk.congr {h h' : ColumnHistory S} (hok : ShardOk k h)
    (hon : h'.issuedOn k = h.issuedOn k) (hqueue : h'.node.queues k = h.node.queues k) :
    ShardOk k h' := by
  constructor <;> rw [hon]
  · exact hqueue ▸ hok.bound
  · exact hok.disjoint
  · exact hok.above

omit [DecidableEq S] in
theorem ShardOk.checkout (hok : ShardOk k h)
    (hroom : req.Valid → req.shard = k → HasRoom tqType h.node req) (now : Time) :
    ShardOk k (h.issue req.shard (checkoutSequence tqType now req h.node).1.toOption
      (checkoutSequence tqType now req h.node).2) := by
  by_cases hk : req.shard = k
  · subst hk
    by_cases hvalid : req.Valid
    · rcases checkedOut hvalid (hroom hvalid rfl) now with ⟨seq, n', hout, -, hchecked⟩
      rw [hout]
      exact hok.issue hchecked
    · rcases checkoutSequence_of_not_valid hvalid tqType now h.node with ⟨e, hout⟩
      simpa [hout, ColumnHistory.issue, Except.toOption] using hok
  · refine hok.congr ?_ (queues_checkoutSequence_of_ne (Ne.symm hk) tqType now h.node)
    rw [issuedOn_issue, if_neg hk, List.append_nil]

/-- The range that a session checks out is the one that the node hands out. -/
theorem nextColumnID_of_not_usable {sequencer : Option Sequencer} (h : usable sequencer = false)
    (tqType : FieldKey → String) (now : Time) (shard : FieldKey × ℤ) (n : SequencerNode) :
    (nextColumnID tqType now shard sequencer n).checkedOut =
        (checkoutSequence tqType now (sessionRequest shard) n).1.toOption ∧
      (nextColumnID tqType now shard sequencer n).node =
        (checkoutSequence tqType now (sessionRequest shard) n).2 := by
  simp only [nextColumnID, h, Bool.false_eq_true, if_false]
  rcases checkoutSequence tqType now (sessionRequest shard) n with ⟨_ | seq, n'⟩ <;>
    exact ⟨rfl, rfl⟩

variable {enabled : FieldKey → Bool}

theorem ShardOk.step (hok : ShardOk k h) {e : ColumnEvent S} (he : ShardStepOk tqType k h e) :
    ShardOk k (columnStep enabled tqType h e) := by
  cases e with
  | checkout now req => exact hok.checkout (he.1 req rfl) now
  | nextColumnID s now shard =>
    have hissue : ShardOk k (h.issue shard
        (nextColumnID tqType now shard (h.sequencers s shard) h.node).checkedOut
        (nextColumnID tqType now shard (h.sequencers s shard) h.node).node) := by
      cases husable : usable (h.sequencers s shard) with
      | true =>
        simp only [nextColumnID, husable, if_true]
        exact hok.congr (by simp [issuedOn_issue]) rfl
      | false =>
        have hout := nextColumnID_of_not_usable husable tqType now shard h.node
        rw [hout.1, hout.2]
        exact hok.checkout (he.1 (sessionRequest shard) (by simp [request, husable]))
          now
    simp only [columnStep]
    split <;> exact hissue.congr rfl rfl
  | mutate e =>
    cases e with
    | truncate index =>
      have hindex := he.2 index rfl
      refine hok.congr rfl ?_
      simp [columnStep, truncateQueues, hindex]
    | fragment env start f | clearAll env now index start stop columns => exact hok.congr rfl rfl

/-- On every shard, in every run in which its table is not truncated and its ranges do not reach
the end of the IDs: the ranges that are checked out are disjoint, and every ID of a range is greater
than every column that is in the shard when the range is checked out. -/
theorem issued_ranges_disjoint (enabled : FieldKey → Bool) (tqType : FieldKey → String)
    (cache : CacheState) (k : FieldKey × ℤ) (es : List (ColumnEvent S))
    (hes : Meets (columnStep enabled tqType) (ShardStepOk tqType k) (newHistory cache) es) :
    ((exec (columnStep enabled tqType) (newHistory cache) es).issuedOn k).Pairwise
        (fun i i' => Disjoint i.range.ids i'.range.ids) ∧
      ∀ i ∈ (exec (columnStep enabled tqType) (newHistory cache) es).issuedOn k,
        ∀ c ∈ i.columns, ∀ id ∈ i.range.ids, c < id := by
  have hstart : ShardOk k (newHistory cache : ColumnHistory S) := ⟨nofun, .nil, nofun⟩
  have hok : ShardOk k _ := exec_induction _ (fun _ _ hok he => hok.step he) hstart hes
  exact ⟨hok.disjoint, hok.above⟩

/-! ## Columns since the last truncation -/

/-- The IDs that a session may still take for a shard. -/
def ColumnHistory.remaining (h : ColumnHistory S) (s : S) (k : FieldKey × ℤ) : Finset ℕ :=
  (h.sequencers s k).elim ∅ ids

/-- The IDs of a shard, those taken since the last truncation and those that sessions may still
take, lie between its base and the last ID of its queue, and none occurs twice.  The shards of a
table have their IDs apart. -/
structure ColumnsOk (tqType : FieldKey → String) (h : ColumnHistory S) : Prop where
  remaining : ∀ s k, ∀ id ∈ h.remaining s k,
    baseID tqType k < id ∧ id ≤ (h.node.queues k).maximum
  drawn : ∀ k id, (k.2, id) ∈ h.drawn k.1 →
    baseID tqType k < id ∧ id ≤ (h.node.queues k).maximum
  apart : ∀ s s' k, s ≠ s' → Disjoint (h.remaining s k) (h.remaining s' k)
  unused : ∀ s k id, (k.2, id) ∈ h.drawn k.1 → id ∉ h.remaining s k
  once : ∀ key, ((h.drawn key).map Prod.snd).Nodup
  shards : ∀ key t t', t ≠ t' → (h.node.queues (key, t)).maximum ≠ 0 →
    (h.node.queues (key, t')).maximum ≠ 0 →
      (h.node.queues (key, t)).maximum ≤ baseID tqType (key, t') ∨
        (h.node.queues (key, t')).maximum ≤ baseID tqType (key, t)

/-- The condition of a checkout: the range ends before the last ID of the space, with which it would
count as used up; it lies behind the base of its shard, and it is apart from the IDs of the other
shards of the table. -/
structure RangeOk (tqType : FieldKey → String) (n : SequencerNode) (req : CheckoutRequest) : Prop where
  room : n.lastID tqType req.shard + req.reservationSize + 1 < idSpace
  base : baseID tqType req.shard ≤ n.lastID tqType req.shard
  shards : ∀ t, t ≠ req.time → (n.queues (req.shard.1, t)).maximum ≠ 0 →
    n.lastID tqType req.shard + req.reservationSize ≤ baseID tqType (req.shard.1, t) ∨
      (n.queues (req.shard.1, t)).maximum ≤ baseID tqType req.shard

/-- The condition of a step: a checkout meets its condition, and no session has IDs left of a table
that is truncated. -/
def ColumnStepOk (tqType : FieldKey → String) (h : ColumnHistory S) (e : ColumnEvent S) : Prop :=
  (∀ req, h.request e = some req → req.Valid → RangeOk tqType h.node req) ∧
    ∀ index, e = .mutate (.truncate index) →
      ∀ s k, k.1.index = index → usable (h.sequencers s k) = false

omit [DecidableEq S] in
theorem remaining_eq_empty_iff {s : S} :
    h.remaining s k = ∅ ↔ usable (h.sequencers s k) = false := by
  unfold remaining usable
  cases h.sequencers s k with
  | none => simp
  | some seq => simp [← isFullySubscribed_iff]

omit [DecidableEq S] in
/-- A range that goes to no session of the history. -/
theorem ColumnsOk.issue (hok : ColumnsOk tqType h) (hrange : RangeOk tqType h.node req)
    (hout : CheckedOut tqType req h.node seq n') (range : Option Sequencer) :
    ColumnsOk tqType (h.issue req.shard range n') := by
  have hgrows : ∀ k, (h.node.queues k).maximum ≤ (n'.queues k).maximum := by
    intro k
    by_cases hk : k = req.shard
    · rw [hk]
      exact hout.grows
    · exact Nat.le_of_eq (hout.others k hk).symm
  have hself : ∀ t, t ≠ req.time → (n'.queues (req.shard.1, t)).maximum ≠ 0 →
      (n'.queues req.shard).maximum ≤ baseID tqType (req.shard.1, t) ∨
        (n'.queues (req.shard.1, t)).maximum ≤ baseID tqType req.shard := by
    intro t ht hne
    have hother := hout.others (req.shard.1, t) fun heq => ht (congrArg Prod.snd heq)
    rw [hother] at hne ⊢
    rw [hout.maximum]
    exact hrange.shards t ht hne
  refine ⟨fun s k id hid => ?_, fun k id hid => ?_, hok.apart, hok.unused, hok.once, ?_⟩
  · exact (hok.remaining s k id hid).imp_right (Nat.le_trans · (hgrows k))
  · exact (hok.drawn k id hid).imp_right (Nat.le_trans · (hgrows k))
  · intro key t t' hne ht ht'
    dsimp only [ColumnHistory.issue] at ht ht' ⊢
    by_cases hk : (key, t) = req.shard
    · obtain ⟨rfl, rfl⟩ := Prod.mk.inj hk
      exact hself t' hne.symm ht'
    by_cases hk' : (key, t') = req.shard
    · obtain ⟨rfl, rfl⟩ := Prod.mk.inj hk'
      exact (hself t hne ht).symm
    · rw [hout.others _ hk] at ht ⊢
      rw [hout.others _ hk'] at ht' ⊢
      exact hok.shards key t t' hne ht ht'

theorem remaining_setSequencer (h : ColumnHistory S) (s s' : S) (k k' : FieldKey × ℤ)
    (seq : Sequencer) :
    (h.setSequencer s k (some seq)).remaining s' k' =
      if s' = s ∧ k' = k then seq.ids else h.remaining s' k' := by
  unfold remaining setSequencer
  by_cases hs : s' = s
  · subst hs
    by_cases hk : k' = k <;> simp [hk]
  · simp [hs]

theorem ColumnsOk.newSequencer (hok : ColumnsOk tqType h) (hrange : RangeOk tqType h.node req)
    (hout : CheckedOut tqType req h.node seq n') (s : S) :
    ColumnsOk tqType ((h.issue req.shard (some seq) n').setSequencer s req.shard (some seq)) := by
  have hissue := hok.issue hrange hout (some seq)
  refine ⟨fun s' k id hid => ?_, hissue.drawn, fun s' s'' k hne => ?_, fun s' k id hid => ?_,
    hissue.once, hissue.shards⟩
  · rw [remaining_setSequencer] at hid
    split_ifs at hid with hself
    · rw [hself.2]
      have hlast := hout.last id hid
      exact ⟨Nat.lt_of_le_of_lt hrange.base hlast.1, hlast.2⟩
    · exact hissue.remaining s' k id hid
  · simp only [remaining_setSequencer]
    -- What other sessions have left lies in the queue, and the new range behind it.
    have hbehind : ∀ s', Disjoint seq.ids (h.remaining s' req.shard) := by
      intro s'
      refine disjoint_left.mpr fun id hid hid' => ?_
      exact absurd (hok.remaining s' _ id hid').2 (Nat.not_le.mpr (hout.queue id hid))
    split_ifs with hs' hs'' hs''
    · exact absurd (hs'.1.trans hs''.1.symm) hne
    · rw [hs'.2]
      exact hbehind s''
    · rw [hs''.2]
      exact (hbehind s').symm
    · exact hissue.apart s' s'' k hne
  · rw [remaining_setSequencer]
    split_ifs with hself
    · intro hid'
      rw [hself.2] at hid
      exact absurd (hok.drawn _ id hid).2 (Nat.not_le.mpr (hout.queue id hid'))
    · exact hissue.unused s' k id hid

omit [DecidableEq S] in
theorem drawn_draw (h : ColumnHistory S) (k : FieldKey × ℤ) (id : ℕ) (key : FieldKey) :
    (h.draw k id).drawn key = if key = k.1 then h.drawn k.1 ++ [(k.2, id)] else h.drawn key :=
  Function.update_apply _ _ _ _

theorem ColumnsOk.draw (hok : ColumnsOk tqType h) {s : S} (hseq : h.sequencers s k = some seq)
    (hfree : seq.isFullySubscribed = false) :
    ColumnsOk tqType ((h.setSequencer s k (some seq.next.2)).draw k seq.next.1) := by
  have hremaining : h.remaining s k = seq.ids := by simp [ColumnHistory.remaining, hseq]
  rcases next_of_not_subscribed hfree with ⟨hmem, hnext⟩
  have hself : seq.next.1 ∈ h.remaining s k := hremaining ▸ hmem
  have hless : ∀ s' k', (h.setSequencer s k (some seq.next.2)).remaining s' k' ⊆ h.remaining s' k' := by
    intro s' k'
    rw [remaining_setSequencer]
    split_ifs with heq
    · rw [heq.1, heq.2, hremaining, hnext]
      exact erase_subset _ _
    · exact Subset.refl _
  have hdrawn : ∀ k' id, (k'.2, id) ∈ (h.draw k seq.next.1).drawn k'.1 →
      (k'.2, id) ∈ h.drawn k'.1 ∨ k' = k ∧ id = seq.next.1 := by
    intro k' id hid
    rw [drawn_draw] at hid
    split_ifs at hid with hkey
    · rcases List.mem_append.mp hid with hid | hid
      · exact .inl (hkey ▸ hid)
      · obtain ⟨htime, rfl⟩ := Prod.mk.inj (List.mem_singleton.mp hid)
        exact .inr ⟨Prod.ext hkey htime, rfl⟩
    · exact .inl hid
  refine ⟨fun s' k' id hid => hok.remaining s' k' id (hless s' k' hid), fun k' id hid => ?_,
    fun s' s'' k' hne => (hok.apart s' s'' k' hne).mono (hless s' k') (hless s'' k'),
    fun s' k' id hid hid' => ?_, fun key => ?_, hok.shards⟩
  · rcases hdrawn k' id hid with hid | ⟨rfl, rfl⟩
    · exact hok.drawn k' id hid
    · exact hok.remaining s k' _ hself
  · rcases hdrawn k' id hid with hid | ⟨rfl, rfl⟩
    · exact hok.unused s' k' id hid (hless s' k' hid')
    change seq.next.1 ∈ (h.setSequencer s k' (some seq.next.2)).remaining s' k' at hid'
    by_cases hs : s' = s
    · subst hs
      rw [remaining_setSequencer, if_pos ⟨rfl, rfl⟩, hnext] at hid'
      exact absurd rfl (mem_erase.mp hid').1
    · exact disjoint_left.mp (hok.apart s' s k' hs) (hless s' k' hid') hself
  · rw [drawn_draw]
    split_ifs with hkey
    · rw [List.map_append, List.nodup_append]
      refine ⟨hok.once k.1, List.nodup_singleton _, ?_⟩
      rintro id hid id' hid' rfl
      rw [List.map_singleton, List.mem_singleton] at hid'
      subst hid'
      rcases List.mem_map.mp hid with ⟨⟨t, id'⟩, hmem', hid'⟩
      subst hid'
      by_cases ht : t = k.2
      · subst ht
        exact hok.unused s k _ hmem' hself
      -- The ID would lie in two shards of the table.
      · have hone := hok.drawn (k.1, t) _ hmem'
        have htwo : baseID tqType (k.1, k.2) < seq.next.1 ∧
            seq.next.1 ≤ (h.node.queues (k.1, k.2)).maximum := hok.remaining s k _ hself
        rcases hok.shards k.1 t k.2 ht (by omega) (by omega) with hle | hle <;> omega
    · exact hok.once key

omit [DecidableEq S] in
@[simp]
theorem issue_none (h : ColumnHistory S) (shard : FieldKey × ℤ) :
    h.issue shard none h.node = h := by
  simp [issue]

theorem usable_iff {sequencer : Option Sequencer} :
    usable sequencer = true ↔ ∃ seq, sequencer = some seq ∧ seq.isFullySubscribed = false := by
  cases sequencer with
  | none | some seq => simp [usable]

theorem ColumnsOk.nextColumnID
    (hok : ColumnsOk tqType h) {s : S} {shard : FieldKey × ℤ} (now : Time)
    (hrange : usable (h.sequencers s shard) = false → (sessionRequest shard).Valid →
      RangeOk tqType h.node (sessionRequest shard)) :
    ColumnsOk tqType (columnStep enabled tqType h (.nextColumnID s now shard)) := by
  cases husable : usable (h.sequencers s shard) with
  | true =>
    rcases usable_iff.mp husable with ⟨seq, hseq, hfree⟩
    rw [hseq] at husable
    simp only [columnStep, Core.nextColumnID, hseq, husable, if_true, Option.getD_some, issue_none]
    exact hok.draw hseq hfree
  | false =>
    by_cases hvalid : (sessionRequest shard).Valid
    · have hok' := hrange husable hvalid
      rcases checkedOut hvalid (Nat.lt_of_succ_lt hok'.room) now with
        ⟨seq, n', hout, hfree, hchecked⟩
      have hnew := hok.newSequencer hok' hchecked s
      have hshard : (sessionRequest shard).shard = shard := rfl
      rw [hshard] at hnew
      have hdraw := hnew.draw (s := s) (k := shard) (by simp [setSequencer])
        (hfree hok'.room)
      simpa [columnStep, Core.nextColumnID, husable, hout, setSequencer] using hdraw
    · rcases checkoutSequence_of_not_valid hvalid tqType now h.node with ⟨e, hout⟩
      simpa [columnStep, Core.nextColumnID, husable, hout, issue_none, setSequencer]

/-- A table is truncated of which no session has IDs left. -/
theorem ColumnsOk.truncate (hok : ColumnsOk tqType h) {index : String}
    (hnone : ∀ s k, k.1.index = index → usable (h.sequencers s k) = false) :
    ColumnsOk tqType (columnStep enabled tqType h (.mutate (.truncate index))) := by
  have hqueues : ∀ k, ((columnStep enabled tqType h (.mutate (.truncate index))).node.queues
      k).maximum = if k.1.index = index then 0 else (h.node.queues k).maximum := by
    intro k
    by_cases hk : k.1.index = index <;> simp [columnStep, truncateQueues, hk]
  have hdrawn : ∀ key id, id ∈ (columnStep enabled tqType h (.mutate (.truncate index))).drawn key →
      key.index ≠ index ∧ id ∈ h.drawn key := by
    intro key id hid
    simp only [columnStep] at hid
    split_ifs at hid with hkey
    · cases hid
    · exact ⟨hkey, hid⟩
  refine ⟨fun s k id hid => ?_, fun k id hid => ?_, hok.apart, fun s k id hid => ?_, fun key => ?_, ?_⟩
  · rw [hqueues]
    split_ifs with hk
    · change id ∈ h.remaining s k at hid
      rw [remaining_eq_empty_iff.mpr (hnone s k hk)] at hid
      cases hid
    · exact hok.remaining s k id hid
  · rcases hdrawn k.1 _ hid with ⟨hk, hid⟩
    rw [hqueues, if_neg hk]
    exact hok.drawn k id hid
  · exact hok.unused s k id (hdrawn k.1 _ hid).2
  · simp only [columnStep]
    split_ifs with hkey
    · exact List.nodup_nil
    · exact hok.once key
  · intro key t t' hne ht ht'
    simp only [hqueues] at ht ht' ⊢
    by_cases hkey : key.index = index
    · exact absurd (if_pos hkey) ht
    · simp only [if_neg hkey] at ht ht' ⊢
      exact hok.shards key t t' hne ht ht'

theorem ColumnsOk.step (hok : ColumnsOk tqType h) {e : ColumnEvent S}
    (he : ColumnStepOk tqType h e) : ColumnsOk tqType (columnStep enabled tqType h e) := by
  cases e with
  | checkout now req =>
    by_cases hvalid : req.Valid
    · have hrange := he.1 req rfl hvalid
      rcases checkedOut hvalid (Nat.lt_of_succ_lt hrange.room) now with ⟨seq, n', hout, -, hchecked⟩
      simp only [columnStep, hout]
      exact hok.issue hrange hchecked _
    · rcases checkoutSequence_of_not_valid hvalid tqType now h.node with ⟨err, hout⟩
      simpa [columnStep, hout, Except.toOption] using hok
  | nextColumnID s now shard =>
    exact hok.nextColumnID now fun husable =>
      he.1 (sessionRequest shard) (by simp [request, husable])
  | mutate e =>
    cases e with
    | truncate index => exact hok.truncate (he.2 index rfl)
    | fragment env start f | clearAll env now index start stop columns =>
      exact { hok with }

/-- In every run in which no table is truncated while a session has IDs of it left, and the ranges
have room: the columns of a table that sessions took since it was last truncated are distinct. -/
theorem live_columns_distinct (enabled : FieldKey → Bool) (tqType : FieldKey → String)
    (cache : CacheState) (es : List (ColumnEvent S))
    (hes : Meets (columnStep enabled tqType) (ColumnStepOk tqType) (newHistory cache) es)
    (key : FieldKey) :
    (((exec (columnStep enabled tqType) (newHistory cache) es).drawn key).map Prod.snd).Nodup := by
  have hstart : ColumnsOk tqType (newHistory cache : ColumnHistory S) :=
    ⟨nofun, nofun, fun _ _ _ _ => disjoint_empty_left _, nofun, fun _ => List.nodup_nil,
      fun _ _ _ _ hne => absurd rfl hne⟩
  have hok : ColumnsOk tqType _ := exec_induction _ (fun _ _ hok he => hok.step he) hstart hes
  exact hok.once key

end

/-! ## Runs that fail -/

def orderShard : FieldKey × ℤ := (⟨"orders", "id"⟩, 0)

def storeOrder (c : ℕ) : ColumnEvent Bool :=
  .mutate (.fragment localCall 1 ⟨orderShard.1, 0, .values (Bsi.empty.setValue c 7), 1, false, false⟩)

def tenOrders : ColumnEvent Bool := .checkout 1 ⟨"orders", "id", 0, 10⟩

/-- Two ranges with an order stored in between. -/
theorem issued_ranges_disjoint_orders :
    ((exec (columnStep (fun _ => false) (fun _ => "")) (newHistory .init)
        [tenOrders, storeOrder 20, tenOrders]).issuedOn orderShard).Pairwise
          (fun i i' => Disjoint i.range.ids i'.range.ids) ∧
      ∀ i ∈ (exec (columnStep (fun _ => false) (fun _ => "")) (newHistory .init)
        [tenOrders, storeOrder 20, tenOrders]).issuedOn orderShard,
        ∀ c ∈ i.columns, ∀ id ∈ i.range.ids, c < id := by
  refine issued_ranges_disjoint (fun _ => false) (fun _ => "") .init orderShard
    [tenOrders, storeOrder 20, tenOrders] ⟨⟨?_, nofun⟩, ⟨nofun, nofun⟩, ⟨?_, nofun⟩, trivial⟩
  all_goals
    rintro req hreq - -
    cases hreq
    unfold HasRoom
    decide +kernel

/-- If the greatest column is stored, the IDs of the next range wrap around and start at 0. -/
theorem range_wraps_around :
    ∃ i ∈ (exec (columnStep (fun _ => false) (fun _ => "")) (newHistory .init)
        [storeOrder (2 ^ 64 - 1), tenOrders]).issuedOn orderShard,
      ∃ c ∈ i.columns, ∃ id ∈ i.range.ids, ¬ c < id := by
  refine ⟨⟨orderShard, ⟨0, 10, 0⟩, {2 ^ 64 - 1}⟩, by decide +kernel, 2 ^ 64 - 1, ?_, 0, ?_, ?_⟩
  · exact mem_singleton_self _
  · decide +kernel
  · exact Nat.not_lt_zero _

/-- A session takes an ID, the table is truncated, and another session takes two.  The first
session goes on with its range and takes the same ID. -/
theorem column_drawn_twice :
    (exec (columnStep (fun _ => false) (fun _ => "")) (newHistory .init)
        [.nextColumnID false 1 orderShard, .mutate (.truncate "orders"),
          .nextColumnID true 1 orderShard, .nextColumnID true 1 orderShard,
          .nextColumnID false 1 orderShard]).drawn orderShard.1 = [(0, 1), (0, 2), (0, 2)] ∧
    ¬ ([(0, 1), (0, 2), (0, 2)].map Prod.snd : List ℕ).Nodup := by
  refine ⟨by decide +kernel, by decide⟩

/-- A session keeps its range of the orders while another table is truncated, and goes on with
it. -/
theorem live_columns_distinct_orders :
    (((exec (columnStep (fun _ => false) (fun _ => "")) (newHistory .init)
        [.nextColumnID true 1 orderShard, .mutate (.truncate "customers"),
          .nextColumnID true 1 orderShard]).drawn orderShard.1).map Prod.snd).Nodup := by
  refine live_columns_distinct (fun _ => false) (fun _ => "") .init
    [.nextColumnID true 1 orderShard, .mutate (.truncate "customers"),
      .nextColumnID true 1 orderShard] ⟨⟨?_, nofun⟩, ⟨nofun, ?_⟩, ⟨?_, nofun⟩, trivial⟩ orderShard.1
  · intro req hreq _
    obtain rfl : sessionRequest orderShard = req := Option.some.inj hreq
    exact ⟨by decide +kernel, by decide +kernel, fun t _ hne => absurd rfl hne⟩
  · rintro index ⟨⟩ s k hk
    have hne : k ≠ orderShard := by
      rintro rfl
      exact absurd hk (by decide)
    simp only [columnStep]
    cases s <;> split <;> simp [draw, setSequencer,
      issue, newHistory, usable, hne]
  · exact fun req hreq => nomatch (hreq : none = some req)

end QuantaStream.Core
