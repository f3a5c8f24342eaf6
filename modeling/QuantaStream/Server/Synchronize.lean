import QuantaStream.Lib.KeyedPass
import QuantaStream.Server.SyncExchange

/-!
# Synchronizing a joining node

A synchronization visits all shards of the pushing node.  A visit changes only its own shard, so
the shards can be looked at one by one: what a visit leaves behind on both nodes depends on what
they hold for the shard, and on the placement of its key.
-/

namespace QuantaStream.Server

open Option ShardKind CacheState Bsi

variable {Node K β : Type} [DecidableEq Node]

/-! ## One shard -/

section

variable {kind : ShardKind K β} {env : SyncEnv Node} {newNodeID : Node} {s s' : SyncState}
  {e : K × CacheEntry β}

def ShardKind.rowsAt (kind : ShardKind K β) (s : CacheState) (k : K) : ℕ → Option ℤ :=
  rows kind.get? (kind.lookup s k)

/-- The contents of a shard are compared: it is looked at, the joining node is found for its key,
and the summary there is another one. -/
structure ShardKind.Compared (kind : ShardKind K β) (env : SyncEnv Node) (newNodeID : Node)
    (joining : CacheState) (e : K × CacheEntry β) : Prop where
  visits : kind.visits (kind.field e.1) (env.schema (kind.field e.1)) = .ok true
  found : (env.ring.checkNodeForKey (kind.shardKey e.1) newNodeID).1 = true
  differs : ∀ v, kind.lookup joining e.1 = some v → kind.agrees (kind.request e) v = false

variable {res : SyncStatusResponse β} {schema : FieldKey → Option FieldConfig}

theorem syncStatus_eq_ok {c : CacheState}
    {req : SyncStatusRequest K} (h : syncStatus kind schema c req = .ok res) :
    (kind.lookup c req.key = none ∧ res = {}) ∨
      ∃ v, kind.lookup c req.key = some v ∧
        res =
          { ok := kind.agrees req v
            cardinality := (kind.columns v.contents).card
            bsiChecksum := kind.checksum v.contents
            modTime := v.modTime
            data := if !kind.agrees req v && req.sendData then some v.contents else none } := by
  revert h
  fun_cases syncStatus kind schema c req <;> rintro ⟨⟩
  next hnone => exact .inl ⟨hnone, rfl⟩
  next v hv _ => exact .inr ⟨v, hv, rfl⟩

variable {remote : β}

theorem get?_received {c : CacheState}
    (hstatus : syncStatus kind schema c (kind.request e) = .ok res)
    (hreceived : kind.received e.1 res = .ok remote) (x : ℕ) :
    kind.get? remote x = kind.rowsAt c e.1 x := by
  unfold received at hreceived
  unfold rowsAt rows
  rcases syncStatus_eq_ok hstatus with ⟨(hlookup : kind.lookup c e.1 = none), rfl⟩ |
    ⟨v, (hlookup : kind.lookup c e.1 = some v), rfl⟩
  · cases hreceived
    rw [hlookup, kind.get?_empty]
    rfl
  · rw [hlookup, bind_some]
    dsimp only at hreceived
    split at hreceived
    · split at hreceived
      · cases hreceived
      next data hdata =>
        cases hreceived
        split at hdata
        · cases hdata
          rfl
        · cases hdata
    next hcard =>
      -- An empty shard is not sent.
      cases hreceived
      have hempty : kind.columns v.contents = ∅ :=
        Finset.card_eq_zero.mp (Nat.eq_zero_of_not_pos hcard)
      have hx : x ∉ kind.columns v.contents := by simp [hempty]
      rw [kind.mem_columns, not_isSome_iff_eq_none] at hx
      rw [kind.get?_empty, hx]

/-- What can come of a visit: nothing, or an exchange with what the joining node has. -/
theorem syncEntry_cases (h : syncEntry kind env newNodeID s e = .ok s') :
    (s' = s ∧ ¬ kind.Compared env newNodeID s.joining e) ∨
      (kind.Compared env newNodeID s.joining e ∧ ∃ res remote,
        (∀ c, kind.get? remote c = kind.rowsAt s.joining e.1 c) ∧
          kind.exchange env e res remote s = .ok s') := by
  revert h
  fun_cases syncEntry kind env newNodeID s e
  case case2 hvisits =>
    rintro ⟨⟩
    exact .inl ⟨rfl, fun hcompared => nomatch hvisits.symm.trans hcompared.visits⟩
  case case3 hvisits hfound =>
    rintro ⟨⟩
    exact .inl ⟨rfl, fun hcompared => nomatch hfound.symm.trans hcompared.found⟩
  case case5 hvisits hfound res hstatus hok =>
    rintro ⟨⟩
    refine .inl ⟨rfl, fun hcompared => ?_⟩
    rcases syncStatus_eq_ok hstatus with ⟨-, rfl⟩ | ⟨v, hv, rfl⟩
    · cases hok
    · cases hok.symm.trans (hcompared.differs v hv)
  case case7 hvisits hfound res hstatus hok remote hreceived =>
    intro h
    refine .inr ⟨⟨hvisits, by simpa using hfound, fun v hv => ?_⟩, res, remote,
      get?_received hstatus hreceived, h⟩
    rcases syncStatus_eq_ok hstatus with ⟨hnone, -⟩ | ⟨w, hw, rfl⟩
    · cases hnone.symm.trans hv
    · cases hw.symm.trans hv
      simpa using hok
  all_goals nofun

@[simp]
theorem pushing_pushDiff (env : PushEnv) (diff : Finset ℕ) :
    (kind.pushDiff env e diff s).pushing = s.pushing := by
  unfold pushDiff
  split_ifs <;> rfl

theorem rowsAt_pushDiff (env : PushEnv) (diff : Finset ℕ) (c : ℕ) :
    kind.rowsAt (kind.pushDiff env e diff s).joining e.1 c =
      (if c ∈ diff then kind.get? e.2.contents c else none).or (kind.rowsAt s.joining e.1 c) := by
  unfold pushDiff
  split
  next hempty => simp [hempty]
  · rw [rowsAt, kind.rows_push, kind.get?_retain]
    rfl

theorem pull_cases {now : Time} {k : K} {diff : Finset ℕ}
    (h : kind.pull now k remote diff s = .ok s') :
    s'.joining = s.joining ∧
      ((diff = ∅ ∧ s'.pushing = s.pushing) ∨ ∃ b, kind.lookup s.pushing k = some b ∧
        s'.pushing = kind.store k
          { b with contents := kind.join b.contents (kind.retain remote diff), modTime := now }
          s.pushing) := by
  unfold pull at h
  split at h
  next hempty =>
    cases h
    exact ⟨rfl, .inl ⟨hempty, rfl⟩⟩
  · obtain ⟨pushing, hmerge, rfl⟩ := Outcome.map_eq_ok.mp h
    unfold mergeDiff at hmerge
    split at hmerge
    · cases hmerge
    next b hb =>
      cases hmerge
      exact ⟨rfl, .inr ⟨b, hb, rfl⟩⟩

theorem rowsAt_pull {now : Time} {k : K} {diff : Finset ℕ}
    (h : kind.pull now k remote diff s = .ok s') (c : ℕ) :
    kind.rowsAt s'.pushing k c =
      (if c ∈ diff then kind.get? remote c else none).or (kind.rowsAt s.pushing k c) := by
  obtain ⟨-, ⟨rfl, hpushing⟩ | ⟨b, hb, hpushing⟩⟩ := pull_cases h
  · rw [hpushing]
    simp
  · rw [hpushing, rowsAt, rowsAt, kind.lookup_store_self, hb]
    exact (kind.get?_join _ _ c).trans (by rw [kind.get?_retain]; rfl)

/-- An exchange is given up for a shard that should not stay; otherwise each side gets what it
lacks. -/
theorem exchange_cases (h : kind.exchange env e res remote s = .ok s') :
    (s' = s ∧ kind.columns e.2.contents \ kind.columns remote ≠ ∅ ∧
      (env.ring.checkNodeForKey (kind.shardKey e.1) env.nodeID).1 = false) ∨
    ((kind.columns e.2.contents \ kind.columns remote ≠ ∅ →
        (env.ring.checkNodeForKey (kind.shardKey e.1) env.nodeID).1 = true) ∧
      ∃ diff ⊆ kind.columns remote \ kind.columns e.2.contents,
        kind.pull (env.mergedAt (kind.shardKey e.1)) e.1 remote diff
          (kind.pushDiff env.push e (kind.columns e.2.contents \ kind.columns remote) s) =
          .ok s') := by
  unfold exchange at h
  dsimp only at h
  split at h
  next hstays =>
    cases h
    exact .inl ⟨rfl, hstays⟩
  next hstays =>
    refine .inr ⟨fun hpush => by simpa using not_and.mp hstays hpush, _, ?_, h⟩
    unfold pullDiff
    dsimp only
    split_ifs <;> simp

/-- What is neither changed by storing the shard nor by a push to it is not changed by a visit. -/
theorem syncEntry_preserves {α : Type} {f : CacheState → α}
    (hstore : ∀ x c, f (kind.store e.1 x c) = f c)
    (hpush : ∀ d c, f (kind.push env.push e.1 d c) = f c)
    (h : syncEntry kind env newNodeID s e = .ok s') :
    f s'.pushing = f s.pushing ∧ f s'.joining = f s.joining := by
  rcases syncEntry_cases h with ⟨rfl, -⟩ | ⟨-, res, remote, -, hexchange⟩
  · exact ⟨rfl, rfl⟩
  rcases exchange_cases hexchange with ⟨rfl, -⟩ | ⟨-, diff, -, hpull⟩
  · exact ⟨rfl, rfl⟩
  obtain ⟨hjoining, hpushing⟩ := pull_cases hpull
  constructor
  · rcases hpushing with ⟨-, hpushing⟩ | ⟨b, -, hpushing⟩
    · rw [hpushing, pushing_pushDiff]
    · rw [hpushing, hstore, pushing_pushDiff]
  · rw [hjoining]
    unfold pushDiff
    split_ifs
    · rfl
    · exact hpush _ _

theorem framed_syncEntry (kind : ShardKind K β) (env : SyncEnv Node) (newNodeID : Node) :
    KeyedPass.Framed (fun s k => (kind.lookup s.pushing k, kind.lookup s.joining k)) Prod.fst
      (syncEntry kind env newNodeID) := by
  intro s e s' h k hk
  obtain ⟨hpushing, hjoining⟩ :=
    @syncEntry_preserves _ _ _ _ kind env newNodeID s s' e _ (fun c => kind.lookup c k)
      (fun x c => kind.lookup_store_of_ne e.1 x c k hk)
      (fun d c => kind.lookup_push_of_ne env.push e.1 d c k hk) h
  exact Prod.ext hpushing hjoining

/-- The missing rows of a shard are handed over: its contents are compared, and the shard is to
stay on the pushing node. -/
structure ShardKind.HandsOver (kind : ShardKind K β) (env : SyncEnv Node) (newNodeID : Node)
    (joining : CacheState) (e : K × CacheEntry β) : Prop
    extends kind.Compared env newNodeID joining e where
  stays : (env.ring.checkNodeForKey (kind.shardKey e.1) env.nodeID).1 = true

theorem mem_columns_sdiff {a b : β} {c : ℕ} :
    c ∈ kind.columns a \ kind.columns b ↔ (kind.get? a c).isSome ∧ kind.get? b c = none := by
  rw [Finset.mem_sdiff, kind.mem_columns, kind.mem_columns, Bool.not_eq_true,
    isSome_eq_false_iff, isNone_iff_eq_none]

/-- The rows of a shard after its visit: either nothing has changed and nothing is handed over, or
the joining node has the rows of both nodes, its own first, and the pushing node may have got rows
it did not have. -/
theorem rows_syncEntry (hlocal : kind.lookup s.pushing e.1 = some e.2)
    (h : syncEntry kind env newNodeID s e = .ok s') :
    (s' = s ∧ ¬ kind.HandsOver env newNodeID s.joining e) ∨
      ((∀ c, (kind.rowsAt s.pushing e.1 c).isSome → kind.rowsAt s.joining e.1 c = none →
          kind.HandsOver env newNodeID s.joining e) ∧
        (∀ c, kind.rowsAt s'.joining e.1 c =
          (kind.rowsAt s.joining e.1 c).or (kind.rowsAt s.pushing e.1 c)) ∧
        ∀ c, kind.rowsAt s'.pushing e.1 c = kind.rowsAt s.pushing e.1 c ∨
          (kind.rowsAt s.pushing e.1 c = none ∧
            kind.rowsAt s'.pushing e.1 c = kind.rowsAt s.joining e.1 c)) := by
  have hown : ∀ c, kind.get? e.2.contents c = kind.rowsAt s.pushing e.1 c := by
    intro c
    rw [rowsAt, hlocal]
    rfl
  rcases syncEntry_cases h with ⟨rfl, hnot⟩ | ⟨hcompared, res, remote, hremote, hexchange⟩
  · exact .inl ⟨rfl, fun hover => hnot hover.toCompared⟩
  have hmissing : ∀ c, c ∈ kind.columns e.2.contents \ kind.columns remote ↔
      (kind.rowsAt s.pushing e.1 c).isSome ∧ kind.rowsAt s.joining e.1 c = none := by
    intro c
    rw [mem_columns_sdiff, hown, hremote]
  rcases exchange_cases hexchange with ⟨rfl, -, hleaves⟩ | ⟨hstays, diff, hdiff, hpull⟩
  · refine .inl ⟨rfl, fun hover => ?_⟩
    cases hleaves.symm.trans hover.stays
  refine .inr ⟨fun c hc hnone => ?_, fun c => ?_, fun c => ?_⟩
  · refine ⟨hcompared, hstays ?_⟩
    exact Finset.nonempty_iff_ne_empty.mp ⟨c, (hmissing c).mpr ⟨hc, hnone⟩⟩
  · rw [(pull_cases hpull).1, rowsAt_pushDiff, hown]
    by_cases hc : c ∈ kind.columns e.2.contents \ kind.columns remote
    · obtain ⟨hsome, hnone⟩ := (hmissing c).mp hc
      rw [if_pos hc, hnone]
      simp
    · rw [if_neg hc, none_or]
      rw [hmissing, not_and_or, not_isSome_iff_eq_none] at hc
      rcases hc with hnone | hsome
      · rw [hnone, or_none]
      · rw [or_of_isSome (isSome_iff_ne_none.mpr hsome)]
  · rw [rowsAt_pull hpull, pushing_pushDiff]
    by_cases hc : c ∈ diff
    · obtain ⟨hsome, hnone⟩ := mem_columns_sdiff.mp (hdiff hc)
      rw [hown] at hnone
      rw [if_pos hc, hnone, or_none, hremote]
      exact .inr ⟨rfl, rfl⟩
    · rw [if_neg hc]
      exact .inl rfl

/-- The joining node holds every row that the pushing node has in a shard, with the same value. -/
def ShardKind.HoldsAt (kind : ShardKind K β) (s : SyncState) (k : K) : Prop :=
  ∀ c v, kind.rowsAt s.pushing k c = some v → kind.rowsAt s.joining k c = some v

/-- No row of a shard has different values on the two nodes, and rows that the joining node lacks
are handed over. -/
structure ShardKind.ReadyAt (kind : ShardKind K β) (env : SyncEnv Node) (newNodeID : Node)
    (s : SyncState) (e : K × CacheEntry β) : Prop where
  agree : ∀ c v w, kind.rowsAt s.pushing e.1 c = some v → kind.rowsAt s.joining e.1 c = some w →
    v = w
  handsOver : ∀ c, (kind.rowsAt s.pushing e.1 c).isSome → kind.rowsAt s.joining e.1 c = none →
    kind.HandsOver env newNodeID s.joining e

/-- The shards that a visit makes complete. -/
theorem holdsAt_syncEntry_iff (hlocal : kind.lookup s.pushing e.1 = some e.2)
    (h : syncEntry kind env newNodeID s e = .ok s') :
    kind.HoldsAt s' e.1 ↔ kind.ReadyAt env newNodeID s e := by
  rcases rows_syncEntry hlocal h with ⟨rfl, hnot⟩ | ⟨hover, hjoining, hpushing⟩
  · constructor
    · intro hholds
      refine ⟨fun c v w hv hw => ?_, fun c hsome hnone => ?_⟩
      · exact some.inj ((hholds c v hv).symm.trans hw)
      · obtain ⟨v, hv⟩ := isSome_iff_exists.mp hsome
        cases hnone.symm.trans (hholds c v hv)
    · intro hready c v hv
      cases hw : kind.rowsAt s'.joining e.1 c with
      | none => exact absurd (hready.handsOver c (by simp [hv]) hw) hnot
      | some w => rw [hready.agree c v w hv hw]
  · constructor
    · intro hholds
      refine ⟨fun c v w hv hw => ?_, hover⟩
      have hkept : kind.rowsAt s'.pushing e.1 c = some v := by
        rcases hpushing c with heq | ⟨hnone, -⟩
        · rw [heq, hv]
        · cases hnone.symm.trans hv
      have hgot := hholds c v hkept
      rw [hjoining, hw, some_or] at hgot
      exact (some.inj hgot).symm
    · intro hready c v hv
      rw [hjoining]
      rcases hpushing c with heq | ⟨-, heq⟩
      · rw [heq] at hv
        cases hw : kind.rowsAt s.joining e.1 c with
        | none => rw [none_or, hv]
        | some w => rw [some_or, hready.agree c v w hv hw]
      · rw [heq] at hv
        rw [hv, some_or]

end

/-! ## The whole flow -/

/-- The shards of a node in the order in which a snapshot lists them.  Those that are looked at are
of the kind that their field is configured for, so that the joining node looks for them in the same
cache. -/
structure Snapshot (kind : ShardKind K β) (schema : FieldKey → Option FieldConfig)
    (s : CacheState) where
  entries : List (K × CacheEntry β)
  nodup : (entries.map Prod.fst).Nodup
  mem_iff : ∀ k e, (k, e) ∈ entries ↔ kind.lookup s k = some e
  typed : ∀ x ∈ entries, ∀ attr, schema (kind.field x.1) = some attr →
    kind.visits (kind.field x.1) (some attr) = .ok true → attr.isBSI = kind.isBSI

/-- `Synchronize`, once the joining node is connected. -/
def synchronize (env : SyncEnv Node) (newNodeID : Node) (start : SyncState)
    (bsis : Snapshot bsiShards env.schema start.pushing)
    (bitmaps : Snapshot bitmapShards env.schema start.pushing) : Except SyncError SyncState := do
  let s ← bsis.entries.foldlM (syncEntry bsiShards env newNodeID) start
  bitmaps.entries.foldlM (syncEntry bitmapShards env newNodeID) s

/-- The joining node holds every row of the pushing node in the shards it is a replica of. -/
def ShardKind.Complete (kind : ShardKind K β) (ring : Ring Node) (newNodeID : Node)
    (s : SyncState) : Prop :=
  ∀ k, newNodeID ∈ ring.replicasOf (kind.shardKey k) → kind.HoldsAt s k

/-- The shards that the joining node is a replica of are ready. -/
def ShardKind.Ready (kind : ShardKind K β) (env : SyncEnv Node) (newNodeID : Node)
    (s : SyncState) : Prop :=
  ∀ e, kind.lookup s.pushing e.1 = some e.2 →
    newNodeID ∈ env.ring.replicasOf (kind.shardKey e.1) → kind.ReadyAt env newNodeID s e

section

variable {kind : ShardKind K β} {env : SyncEnv Node} {newNodeID : Node} {s s' : SyncState}

theorem holdsAt_congr {k : K} (hpushing : kind.lookup s.pushing k = kind.lookup s'.pushing k)
    (hjoining : kind.lookup s.joining k = kind.lookup s'.joining k) :
    kind.HoldsAt s k ↔ kind.HoldsAt s' k := by
  unfold ShardKind.HoldsAt rowsAt
  rw [hpushing, hjoining]

theorem readyAt_of_lookup_eq {e : K × CacheEntry β}
    (hpushing : kind.lookup s.pushing e.1 = kind.lookup s'.pushing e.1)
    (hjoining : kind.lookup s.joining e.1 = kind.lookup s'.joining e.1)
    (h : kind.ReadyAt env newNodeID s e) : kind.ReadyAt env newNodeID s' e := by
  have hrows : kind.rowsAt s'.pushing e.1 = kind.rowsAt s.pushing e.1 := by
    rw [rowsAt, rowsAt, hpushing]
  have hrows' : kind.rowsAt s'.joining e.1 = kind.rowsAt s.joining e.1 := by
    rw [rowsAt, rowsAt, hjoining]
  refine ⟨fun c v w hv hw => ?_, fun c hsome hnone => ?_⟩
  · exact h.agree c v w (hrows ▸ hv) (hrows' ▸ hw)
  · have hover := h.handsOver c (hrows ▸ hsome) (hrows' ▸ hnone)
    exact ⟨⟨hover.visits, hover.found, fun v hv => hover.differs v (hjoining.trans hv)⟩, hover.stays⟩

theorem ready_of_lookup_eq (hpushing : ∀ k, kind.lookup s.pushing k = kind.lookup s'.pushing k)
    (hjoining : ∀ k, kind.lookup s.joining k = kind.lookup s'.joining k)
    (h : kind.Ready env newNodeID s) : kind.Ready env newNodeID s' := by
  intro e hlocal hreplica
  exact readyAt_of_lookup_eq (hpushing e.1) (hjoining e.1)
    (h e ((hpushing e.1).trans hlocal) hreplica)

/-- A loop over a snapshot makes the shards complete that are ready. -/
theorem complete_foldlM_syncEntry_iff (snapshot : Snapshot kind env.schema s.pushing)
    (h : snapshot.entries.foldlM (syncEntry kind env newNodeID) s = .ok s') :
    kind.Complete env.ring newNodeID s' ↔ kind.Ready env newNodeID s := by
  have hframe := framed_syncEntry kind env newNodeID
  have hvisited : ∀ e, kind.lookup s.pushing e.1 = some e.2 →
      (kind.HoldsAt s' e.1 ↔ kind.ReadyAt env newNodeID s e) := by
    intro e hlocal
    obtain ⟨s₁, s₂, hstart, hvisit, hfinal⟩ :=
      hframe.exists_visit snapshot.nodup h ((snapshot.mem_iff e.1 e.2).mpr hlocal)
    obtain ⟨hpushing, hjoining⟩ := Prod.ext_iff.mp hstart
    obtain ⟨hpushing', hjoining'⟩ := Prod.ext_iff.mp hfinal
    rw [holdsAt_congr hpushing' hjoining', holdsAt_syncEntry_iff (hpushing.trans hlocal) hvisit]
    exact ⟨readyAt_of_lookup_eq hpushing hjoining, readyAt_of_lookup_eq hpushing.symm hjoining.symm⟩
  constructor
  · intro hcomplete e hlocal hreplica
    exact (hvisited e hlocal).mp (hcomplete e.1 hreplica)
  · intro hready k hreplica
    cases hlocal : kind.lookup s.pushing k with
    | some b => exact (hvisited (k, b) hlocal).mpr (hready (k, b) hlocal hreplica)
    | none =>
      have hother : ∀ e ∈ snapshot.entries, k ≠ e.1 := by
        rintro e he rfl
        cases hlocal.symm.trans ((snapshot.mem_iff e.1 e.2).mp he)
      obtain ⟨hpushing, -⟩ := Prod.ext_iff.mp (hframe.foldlM_of_forall_ne h hother)
      have hnone : kind.lookup s'.pushing k = none := hpushing.trans hlocal
      intro c v hv
      rw [rowsAt, hnone] at hv
      cases hv

end

/-- What no visit changes is not changed by a loop. -/
theorem foldlM_syncEntry_preserves {K β α : Type} [DecidableEq K] {kind : ShardKind K β}
    {f : CacheState → α} {env : SyncEnv Node} {newNodeID : Node} {s s' : SyncState}
    {entries : List (K × CacheEntry β)} (hstore : ∀ k x c, f (kind.store k x c) = f c)
    (hpush : ∀ k d c, f (kind.push env.push k d c) = f c)
    (h : entries.foldlM (syncEntry kind env newNodeID) s = .ok s') :
    f s'.pushing = f s.pushing ∧ f s'.joining = f s.joining := by
  refine Prod.ext_iff.mp (KeyedPass.foldlM_eq_of_visit_eq
    (f := fun s => (f s.pushing, f s.joining)) (fun e _ s s' hvisit => ?_) h)
  obtain ⟨hpushing, hjoining⟩ := syncEntry_preserves (hstore e.1) (hpush e.1) hvisit
  exact Prod.ext hpushing hjoining

/-- When a synchronization ends without an error, the joining node holds every row of the pushing
node in the shards it is a replica of, with the same values, exactly if no such row had another
value on the joining node before and each shard with a missing row was handed over: it was looked
at, its summary was different, and both nodes were found for its key. -/
theorem synchronize_complete_iff (env : SyncEnv Node) (newNodeID : Node) (start after : SyncState)
    (bsis : Snapshot bsiShards env.schema start.pushing)
    (bitmaps : Snapshot bitmapShards env.schema start.pushing)
    (h : synchronize env newNodeID start bsis bitmaps = .ok after) :
    (bsiShards.Complete env.ring newNodeID after ∧
        bitmapShards.Complete env.ring newNodeID after) ↔
      bsiShards.Ready env newNodeID start ∧ bitmapShards.Ready env newNodeID start := by
  obtain ⟨s, hbsis, hbitmaps⟩ := Outcome.bind_eq_ok.mp h
  obtain ⟨hpushing, hjoining⟩ := foldlM_syncEntry_preserves (f := bitmapCache)
    (fun _ _ _ => rfl) (fun _ _ _ => bitmapCache_updateBSICache _ _ _ _ _) hbsis
  obtain ⟨hpushing', hjoining'⟩ := foldlM_syncEntry_preserves (f := bsiCache)
    (fun _ _ _ => rfl) (fun _ _ _ => bsiCache_updateBitmapCache _ _ _ _ _) hbitmaps
  -- The snapshot of the bitmaps is taken after the first loop, which leaves them alone.
  let bitmaps' : Snapshot bitmapShards env.schema s.pushing :=
    { bitmaps with
      mem_iff k e := (bitmaps.mem_iff k e).trans (by simp [bitmapShards, hpushing]) }
  have hbsi : bsiShards.Complete env.ring newNodeID after ↔
      bsiShards.Complete env.ring newNodeID s :=
    forall₂_congr fun k _ => holdsAt_congr (by simp [bsiShards, bsiEntry, hpushing'])
      (by simp [bsiShards, bsiEntry, hjoining'])
  have hbitmap : bitmapShards.Ready env newNodeID s ↔ bitmapShards.Ready env newNodeID start :=
    ⟨ready_of_lookup_eq (congrFun hpushing) (congrFun hjoining),
      ready_of_lookup_eq (congrFun hpushing.symm) (congrFun hjoining.symm)⟩
  rw [hbsi, complete_foldlM_syncEntry_iff bsis hbsis,
    complete_foldlM_syncEntry_iff bitmaps' hbitmaps, hbitmap]

/-! ## Two nodes with one shard -/

section

def soleField : FieldKey := ⟨"orders", "quantity"⟩

/-- Every key is placed on both nodes. -/
def soleEnv : SyncEnv Bool where
  schema field := if field = soleField then some ⟨"IntBSI", "", .ok ["id"]⟩ else none
  ring := { getN := fun _ _ => [false, true], replicas := 2, nodeStatus := fun _ => some .active }
  nodeID := false
  push :=
    { call := ⟨fun _ => true, fun _ => ⟨false, fun _ => true⟩, .asKept⟩
      enabled _ := false
      pushedAt _ := 7 }
  mergedAt _ := 7

def soleShard (values : Bsi) : CacheState :=
  setShard soleField 0 ⟨values, 5, 0⟩ .init

/-- Its bit-sliced shards. -/
def soleSnapshot (values : Bsi) : Snapshot bsiShards soleEnv.schema (soleShard values) where
  entries := [((soleField, 0), ⟨values, 5, 0⟩)]
  nodup := by simp
  mem_iff k e := by
    have hentry : bsiShards.lookup (soleShard values) k =
        if k = (soleField, 0) then some ⟨values, 5, 0⟩ else none :=
      bsiEntry_setShard _ _ _
    rw [hentry]
    split_ifs with hk <;> simp [hk, eq_comm]
  typed x hx attr hattr _ := by
    cases List.mem_singleton.mp hx
    cases hattr
    rfl

def noBitmaps (values : Bsi) : Snapshot bitmapShards soleEnv.schema (soleShard values) where
  entries := []
  nodup := by simp
  mem_iff k e := by simp [bitmapShards, soleShard, setShard, init]
  typed x hx := by cases hx

/-- The synchronization of a node with one shard. -/
def soleSynchronize (own other : Bsi) : Except SyncError SyncState :=
  synchronize soleEnv true ⟨soleShard own, soleShard other, 0⟩ (soleSnapshot own) (noBitmaps own)

/-- Shards of equal cardinality, sum and modification time pass for equal, and the joining node
keeps other values. -/
theorem equal_summaries_hide_values :
    ∃ after, soleSynchronize ((empty.setValue 1 10).setValue 2 20)
        ((empty.setValue 1 20).setValue 2 10) = .ok after ∧
      bsiShards.rowsAt after.pushing (soleField, 0) 1 = some 10 ∧
      bsiShards.rowsAt after.joining (soleField, 0) 1 = some 20 :=
  ⟨_, rfl, by decide, by decide⟩

/-- A row that the joining node lacks is handed over. -/
theorem synchronize_complete_iff_sole_row :
    ∃ after, soleSynchronize (empty.setValue 1 10) empty = .ok after ∧
      bsiShards.rowsAt after.joining (soleField, 0) 1 = some 10 ∧
      ((bsiShards.Complete soleEnv.ring true after ∧
          bitmapShards.Complete soleEnv.ring true after) ↔
        bsiShards.Ready soleEnv true
            ⟨soleShard (empty.setValue 1 10), soleShard empty, 0⟩ ∧
          bitmapShards.Ready soleEnv true
            ⟨soleShard (empty.setValue 1 10), soleShard empty, 0⟩) :=
  ⟨_, rfl, by decide, synchronize_complete_iff soleEnv true _ _ (soleSnapshot _) (noBitmaps _) rfl⟩

end

end QuantaStream.Server
