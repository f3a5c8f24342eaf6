import Mathlib.Algebra.Order.BigOperators.Group.List
import QuantaStream.Server.NodeMoves

/-!
# Orderly nodes

A node is orderly if its workers are there, a table operation that holds the table lock is alone
with idle threads, every awaited signal is on its way, and every fragment that was accepted can be
accounted for.  Calm steps and calm arrivals keep a node orderly and every calm step lowers its rank.
-/

namespace QuantaStream.Server

open List Thread

/-! ## The invariant -/

variable (s : NodeState)

/-- A signal has been sent or is on its way, or a worker will send it. -/
def Pending (id : ℕ) : Prop :=
  s.shared.Signals id ∨ ∃ (i : ℕ) (task : Task),
    s.threads[i]? = some (.worker (some task)) ∧ task.id = id

/-- A fragment is in the queue, in somebody's hands, or on record. -/
def Accounted (id : ℕ) (f : Fragment) : Prop :=
  Queued.fragment id f ∈ s.shared.fragQueue ∨
    (∃ (i : ℕ) (t : Thread), s.threads[i]? = some t ∧
      ∃ task ∈ t.task, task.id = id ∧ task.fragment = f) ∨
      Recorded s.shared id f

/-- The shards of the caches are of tables that exist, or of one that is being dropped. -/
def CachedKnown : Prop :=
  ∀ k ∈ s.shared.cached, tableKnown s.shared.tables k ∨
    ∃ (i : ℕ) (t : Thread), s.threads[i]? = some t ∧ t.drops k.field.index

/-- A thread that holds the table lock is alone with threads that are still. -/
def Exclusive : Prop :=
  ∀ (i : ℕ) (t : Thread), s.threads[i]? = some t → t.locksTables →
    s.shared.OnlyNops ∧ ∀ (j : ℕ) (u : Thread), s.threads[j]? = some u → j ≠ i → u.still

/-- The invariant of the runs with calm steps. -/
structure Orderly (s : NodeState) : Prop where
  running : s.shared.crashed = false
  keyed : allKeyed s.shared.tables = true
  small : shardBound s ≤ queueCapacity
  room : operationBound s ≤ queueCapacity
  workers : ∀ i < workersCount, ∃ task, s.threads[i]? = some (.worker task)
  partition : ∃ point, s.threads[workersCount]? = some (.partition point)
  aux : s.shared.aux.length = workersCount
  ok : ∀ (i : ℕ) (t : Thread), s.threads[i]? = some t → t.Ok s.shared
  queued : ∀ id f, Queued.fragment id f ∈ s.shared.fragQueue →
    fieldKnown s.shared.tables f.shard.field = true
  operations : ∀ op ∈ s.shared.partitionQueue, op.isSome
  cached : CachedKnown s
  exclusive : Exclusive s
  awaited : ∀ (i : ℕ) (t : Thread), s.threads[i]? = some t → ∀ id ∈ t.awaited, Pending s id
  accounted : ∀ id f, (id, f) ∈ s.shared.accepted → Accounted s id f

/-! ## One step -/

variable {t : Thread}

theorem Thread.not_still_of_locksTables (h : t.locksTables = true) : t.still = false := by
  cases t with
  | tableOp drop index point => cases point <;> first | rfl | cases h
  | _ => cases h

theorem Thread.locksTables_of_drops {index : String} (h : t.drops index = true) :
    t.locksTables = true := by
  cases t with
  | tableOp drop index point => cases point <;> first | rfl | cases h
  | _ => cases h

theorem Thread.ok_of_still (h : t.still = true) (sh : Shared) : t.Ok sh := by
  cases t with
  | worker task =>
    cases task with
    | none => trivial
    | some task => cases h
  | mutate items point awaits | offline time index point | tableOp drop index point =>
    cases point <;> trivial
  | _ => trivial

variable {sh sh' : Shared}

theorem Task.Ok.mono {task : Task} (h : task.Ok sh) (htables : sh'.tables = sh.tables)
    (hhandled : sh.handled ⊆ sh'.handled) : task.Ok sh' :=
  ⟨htables ▸ h.known, h.clears, fun hstage => hhandled (h.merged hstage)⟩

/-- Order is kept while the tables stay and the record grows. -/
theorem Thread.Ok.mono (h : t.Ok sh) (htables : sh'.tables = sh.tables)
    (hhandled : sh.handled ⊆ sh'.handled) : t.Ok sh' := by
  cases t with
  | worker task =>
    cases task with
    | none => trivial
    | some task => exact Task.Ok.mono h htables hhandled
  | mutate items point awaits =>
    cases point with
    | config => trivial
    | applying task => exact Task.Ok.mono h htables hhandled
    | _ =>
      simp only [Ok, htables] at h ⊢
      exact h
  | offline time index point =>
    cases point with
    | rlock l => trivial
    | _ =>
      simp only [Ok, htables] at h ⊢
      exact h
  | tableOp drop index point => cases point <;> exact h
  | _ => trivial

theorem Recorded.mono {id : ℕ} {f : Fragment} (h : Recorded sh id f)
    (hhandled : sh.handled ⊆ sh'.handled) : Recorded sh' id f :=
  h.imp (fun h => hhandled h) fun h => ⟨hhandled h.1, h.2⟩

variable {ts : List Thread} {u : Thread} {i : ℕ}

theorem getElem?_set_cases {j : ℕ} {t' : Thread} (h : (ts.set i t')[j]? = some u) :
    j = i ∧ u = t' ∨ j ≠ i ∧ ts[j]? = some u := by
  rw [getElem?_set] at h
  split_ifs at h with hij
  · exact .inl ⟨hij.symm, (Option.some.inj h).symm⟩
  · exact .inr ⟨Ne.symm hij, h⟩

/-- A thread has moved or is where it was. -/
theorem moved_or_kept {j : ℕ} (hi : ts[i]? = some t) (hj : ts[j]? = some u) (t' : Thread) :
    j = i ∧ u = t ∨ (ts.set i t')[j]? = some u := by
  by_cases hji : j = i
  · subst hji
    exact .inl ⟨rfl, Option.some.inj (hj.symm.trans hi)⟩
  · exact .inr (by rw [getElem?_set_ne (Ne.symm hji), hj])

variable {s : NodeState}

theorem quiet_still (h : quiet s = true) (hi : s.threads[i]? = some t) : t.still = true := by
  simp only [quiet, Bool.and_eq_true, all_eq_true] at h
  exact h.1.1 t (mem_of_getElem? hi)

theorem quiet_onlyNops (h : quiet s = true) : s.shared.OnlyNops := by
  simp only [quiet, Bool.and_eq_true, List.isEmpty_iff] at h
  exact ⟨fun q hq => absurd hq (by simp [h.1.2]), h.2⟩

section

variable {env : NodeEnv} {s : NodeState} {i : ℕ} {t t' : Thread} {sh' : Shared}

theorem getElem?_set_moved (hi : s.threads[i]? = some t) : (s.threads.set i t')[i]? = some t' := by
  rw [getElem?_set_self', hi]
  rfl

/-- The bound counts the cached shards. -/
theorem length_cached_le_shardBound (s : NodeState) : s.shared.cached.length ≤ shardBound s := by
  simp only [shardBound, Shared.adds]
  omega

theorem tablesFree_eq_false_of_locked {ts : List Thread} {j : ℕ} {u : Thread}
    (hj : ts[j]? = some u) (hlocks : u.locksTables = true) : tablesFree ts = false := by
  have hany : ts.any locksTables = true :=
    any_eq_true.mpr ⟨u, mem_of_getElem? hj, hlocks⟩
  simp [tablesFree, hany]

variable (hm : Moves env s.threads s.shared t t' sh')

include hm

/-- The tables keep their keys. -/
theorem keyed_step (ho : Orderly s) : allKeyed sh'.tables = true := by
  rcases hm.tables with htables | ⟨index, -, rfl⟩
  · exact htables ▸ ho.keyed
  · refine all_eq_true.mpr fun e he => all_eq_true.mp ho.keyed e ?_
    exact (kerase_sublist index _).subset he

section

variable (hi : s.threads[i]? = some t)

include hi

/-- No step raises the bound on the shards. -/
theorem shardBound_le : shardBound ⟨sh', s.threads.set i t'⟩ ≤ shardBound s := by
  have hsum := sum_map_set adds hi t'
  have := hm.adds
  simp only [shardBound]
  omega

/-- A signal stays pending or is sent. -/
theorem Pending.step {id : ℕ} (h : Pending s id) : Pending ⟨sh', s.threads.set i t'⟩ id := by
  have hmoved : s.shared.Signals id ∨ (∃ task, t = .worker (some task) ∧ task.id = id) →
      Pending ⟨sh', s.threads.set i t'⟩ id := by
    intro h
    refine (hm.signals id h).imp_right fun ⟨task, ht, hid⟩ => ⟨i, task, ?_, hid⟩
    rw [← ht]
    exact getElem?_set_moved hi
  rcases h with h | ⟨j, task, hj, hid⟩
  · exact hmoved (.inl h)
  rcases moved_or_kept hi hj t' with ⟨rfl, rfl⟩ | hj
  · exact hmoved (.inr ⟨task, rfl, hid⟩)
  · exact .inr ⟨j, task, hj, hid⟩

/-- No step loses a fragment. -/
theorem Accounted.step
    {id : ℕ} {f : Fragment} (h : Accounted s id f) : Accounted ⟨sh', s.threads.set i t'⟩ id f := by
  have hmoved := @getElem?_set_moved s i t t' hi
  rcases h with h | ⟨j, u, hj, task, htask, hid, hf⟩ | h
  · rcases hm.queue id f h with h | h
    · exact .inl h
    · exact .inr (.inl ⟨i, t', hmoved, h⟩)
  · rcases moved_or_kept hi hj t' with ⟨rfl, rfl⟩ | hj
    · subst hid hf
      rcases hm.tasks task htask with h | h
      · exact .inr (.inl ⟨j, t', hmoved, h⟩)
      · exact .inr (.inr h)
    · exact .inr (.inl ⟨j, u, hj, task, htask, hid, hf⟩)
  · exact .inr (.inr (h.mono hm.handled))

/-- The tables of cached shards stay known. -/
theorem cached_step (ho : Orderly s) : CachedKnown ⟨sh', s.threads.set i t'⟩ := by
  intro k hk
  have hmoved := @getElem?_set_moved s i t t' hi
  rcases hm.cached k hk with hold | hknown
  · rcases ho.cached k hold with hknown | ⟨j, u, hj, hdrops⟩
    · rcases hm.tables with htables | ⟨index, ht, rfl⟩
      · exact .inl (by simpa [htables] using hknown)
      · by_cases hindex : k.field.index = index
        · exact .inr ⟨i, t', hmoved, hindex ▸ hm.dropped index ht⟩
        · refine .inl ?_
          rw [tableKnown, AList.lookup_erase_ne hindex]
          exact hknown
    · rcases moved_or_kept hi hj t' with ⟨rfl, rfl⟩ | hj
      · rcases hm.dropping _ hdrops with h | h
        · exact .inr ⟨j, t', hmoved, h⟩
        · exact absurd rfl (h k hk)
      · exact .inr ⟨j, u, hj, hdrops⟩
  · exact .inl hknown

end

variable (hcalm : t.calm env s = true)

include hcalm

/-- A step of a thread that drops a table is taken while all threads are still. -/
theorem tables_step :
    sh'.tables = s.shared.tables ∨ quiet s = true ∧ ∃ index, t = .tableOp true index .lock ∧
      sh' = { s.shared with tables := s.shared.tables.erase index } := by
  refine hm.tables.imp_right fun ⟨index, ht, hsh⟩ => ⟨?_, index, ht, hsh⟩
  subst ht
  exact hcalm

/-- The threads stay in order. -/
theorem ok_step (ho : Orderly s)
    : ∀ (j : ℕ) (u : Thread), (s.threads.set i t')[j]? = some u → u.Ok sh' := by
  intro j u hj
  rcases getElem?_set_cases hj with ⟨rfl, rfl⟩ | ⟨hji, hj⟩
  · exact hm.ok
  · rcases tables_step hm hcalm with htables | ⟨hquiet, -⟩
    · exact (ho.ok j u hj).mono htables hm.handled
    · exact ok_of_still (quiet_still hquiet hj) sh'

theorem queued_step (ho : Orderly s) :
    ∀ id f, Queued.fragment id f ∈ sh'.fragQueue →
      fieldKnown sh'.tables f.shard.field = true := by
  intro id f hmem
  rcases hm.queued id f hmem with h | h
  · rcases tables_step hm hcalm with htables | ⟨hquiet, -⟩
    · exact htables ▸ ho.queued id f h
    · obtain ⟨_, hnop⟩ := (quiet_onlyNops hquiet).1 _ h
      cases hnop
  · exact h

variable (hi : s.threads[i]? = some t)

include hi

/-- The operations still fit into their queue. -/
theorem operationBound_le (ho : Orderly s)
    : operationBound ⟨sh', s.threads.set i t'⟩ ≤ queueCapacity := by
  have hsum := sum_map_set promised hi t'
  have hroom := ho.room
  have hpromised := hm.promised
  simp only [operationBound] at hroom ⊢
  split at hpromised
  next time index l =>
    have hfits := of_decide_eq_true (Bool.and_eq_true_iff.mp hcalm).2
    simp only [operationBound] at hfits
    omega
  next => omega

/-- A table operation stays alone under its lock. -/
theorem exclusive_step (ho : Orderly s) : Exclusive ⟨sh', s.threads.set i t'⟩ := by
  intro j u hj hlocks
  rcases getElem?_set_cases hj with ⟨rfl, rfl⟩ | ⟨hji, hj⟩
  · -- The thread that moved has the lock, or it has just taken it on a quiet node.
    have hothers : s.shared.OnlyNops ∧
        ∀ (k : ℕ) (v : Thread), s.threads[k]? = some v → k ≠ j → v.still := by
      rcases hm.locks hlocks with hold | ⟨drop, index, rfl⟩
      · exact ho.exclusive j t hi hold
      · exact ⟨quiet_onlyNops hcalm, fun k v hk _ => quiet_still hcalm hk⟩
    refine ⟨hm.locked (hm.locks hlocks) hothers.1, fun k v hk hkj => ?_⟩
    rcases getElem?_set_cases hk with ⟨rfl, -⟩ | ⟨-, hk⟩
    · exact absurd rfl hkj
    · exact hothers.2 k v hk hkj
  · obtain ⟨hnops, hstill⟩ := ho.exclusive j u hj hlocks
    obtain ⟨hstill', hnops'⟩ := hm.stays (tablesFree_eq_false_of_locked hj hlocks)
      (hstill i t hi (Ne.symm hji)) hnops
    refine ⟨hnops', fun k v hk hkj => ?_⟩
    rcases getElem?_set_cases hk with ⟨rfl, rfl⟩ | ⟨-, hk⟩
    · exact hstill'
    · exact hstill k v hk hkj

/-- A move keeps a node in order. -/
theorem Orderly.of_moves (ho : Orderly s) : Orderly ⟨sh', s.threads.set i t'⟩ := { hm with
  keyed := keyed_step hm ho
  small := (shardBound_le hm hi).trans ho.small
  room := operationBound_le hm hcalm hi ho
  workers j hj := by
    obtain ⟨task, htask⟩ := ho.workers j hj
    rcases moved_or_kept hi htask t' with ⟨rfl, rfl⟩ | hkept
    · obtain ⟨task', rfl⟩ := hm.worker ⟨task, rfl⟩
      exact ⟨task', getElem?_set_moved hi⟩
    · exact ⟨task, hkept⟩
  partition := by
    obtain ⟨point, hpoint⟩ := ho.partition
    rcases moved_or_kept hi hpoint t' with ⟨rfl, rfl⟩ | hkept
    · obtain ⟨point', rfl⟩ := hm.partition ⟨point, rfl⟩
      exact ⟨point', getElem?_set_moved hi⟩
    · exact ⟨point, hkept⟩
  aux := hm.aux.trans ho.aux
  ok := ok_step hm hcalm ho
  queued := queued_step hm hcalm ho
  operations := hm.operations ho.operations
  cached := cached_step hm hi ho
  exclusive := exclusive_step hm hcalm hi ho
  awaited j u hj id hid := by
    rcases getElem?_set_cases hj with ⟨rfl, rfl⟩ | ⟨-, hj⟩
    · rcases hm.awaited id hid with h | h
      · exact (ho.awaited j t hi id h).step hm hi
      · exact .inl h
    · exact (ho.awaited j u hj id hid).step hm hi
  accounted id f hmem := by
    rcases hm.accepted id f hmem with h | h | h
    · exact (ho.accounted id f h).step hm hi
    · exact .inl h
    · exact .inr (.inl ⟨i, t', getElem?_set_moved hi, h⟩) }

end

/-! ## Calm steps of the threads -/

/-- A calm step of a thread. -/
def calmStep (env : NodeEnv) (s : NodeState) (e : ℕ × Bool) : Option NodeState :=
  if calm env s (.step e.1 e.2) then threadStep env s e else none

section

variable {env : NodeEnv} {s s' : NodeState} {e : ℕ × Bool}

theorem calmStep_eq_some (h : calmStep env s e = some s') :
    ∃ t t' sh', s.threads[e.1]? = some t ∧ t.calm env s = true ∧
      advance env s.threads e.1 e.2 s.shared t = some (t', sh') ∧
        s' = ⟨sh', s.threads.set e.1 t'⟩ := by
  unfold calmStep threadStep at h
  split_ifs at h with hcalm
  obtain ⟨t, ht, h⟩ := Option.bind_eq_some_iff.mp h
  obtain ⟨⟨t', sh'⟩, hadvance, rfl⟩ := Option.map_eq_some_iff.mp h
  have hcalm' : t.calm env s = true := by simpa [calm, ht] using hcalm
  exact ⟨t, t', sh', ht, hcalm', hadvance, rfl⟩

/-- A calm step of an orderly node is a move. -/
theorem Orderly.moves (ho : Orderly s) (h : calmStep env s e = some s') :
    ∃ t t' sh', s.threads[e.1]? = some t ∧ t.calm env s = true ∧
      Moves env s.threads s.shared t t' sh' ∧ s' = ⟨sh', s.threads.set e.1 t'⟩ := by
  obtain ⟨t, t', sh', ht, hcalm, hadvance, hs'⟩ := calmStep_eq_some h
  refine ⟨t, t', sh', ht, hcalm, moves_of_advance ho.running ho.queued ho.keyed
    (fun hfree k hk => ?_) ho.operations (ho.ok e.1 t ht) hcalm hadvance, hs'⟩
  rcases ho.cached k hk with hknown | ⟨j, u, hj, hdrops⟩
  · exact hknown
  · rw [tablesFree_eq_false_of_locked hj (locksTables_of_drops hdrops)] at hfree
    cases hfree

/-- A calm step keeps a node orderly. -/
theorem Orderly.step (ho : Orderly s) (h : calmStep env s e = some s') : Orderly s' := by
  obtain ⟨t, t', sh', ht, hcalm, hm, rfl⟩ := ho.moves h
  exact ho.of_moves hm hcalm ht

end

/-! ## The rank of a node -/

/-- How many steps the threads and the queues may still take, if at most `n` shards are cached. -/
def rankAt (n : ℕ) (s : NodeState) : ℕ :=
  (s.threads.map (weight n)).sum + s.shared.weight n

def rank (s : NodeState) : ℕ := rankAt (shardBound s) s

variable {m n : ℕ}

section

variable (h : m ≤ n)

include h

theorem Stage.weight_mono (st : Stage) : st.weight m ≤ st.weight n := by
  cases st <;> simp only [Stage.weight] <;> omega

theorem Queued.weight_mono (q : Queued) : q.weight m ≤ q.weight n := by
  cases q <;> simp only [Queued.weight] <;> omega

theorem TablePoint.weight_mono (p : TablePoint) : p.weight m ≤ p.weight n := by
  unfold TablePoint.weight
  split <;> omega

theorem OfflinePoint.weight_mono (p : OfflinePoint) : p.weight m ≤ p.weight n := by
  unfold OfflinePoint.weight
  split
  · omega
  · omega
  all_goals
    split <;> omega

theorem MutatePoint.weight_mono (p : MutatePoint) : p.weight m ≤ p.weight n := by
  cases p with
  | applying task => exact Nat.add_le_add_right (Stage.weight_mono h _) _
  | ready f sync => exact Nat.add_le_add_left h _
  | _ => exact Nat.le_refl _

/-- A thread may take more steps if there may be more shards. -/
theorem Thread.weight_mono (t : Thread) : t.weight m ≤ t.weight n := by
  cases t with
  | worker task =>
    cases task with
    | none => exact Nat.le_refl _
    | some task => exact Stage.weight_mono h _
  | mutate items point awaits =>
    have hitems : items.length * (12 + m) ≤ items.length * (12 + n) :=
      Nat.mul_le_mul_left _ (Nat.add_le_add_left h _)
    have hpoint := MutatePoint.weight_mono h point
    simp only [weight]
    omega
  | offline time index point => exact OfflinePoint.weight_mono h point
  | tableOp drop index point => exact TablePoint.weight_mono h point
  | _ => exact Nat.le_refl _

/-- So may the whole node. -/
theorem rankAt_mono (s : NodeState) : rankAt m s ≤ rankAt n s := by
  have hthreads : (s.threads.map (weight m)).sum ≤ (s.threads.map (weight n)).sum :=
    sum_le_sum fun t _ => weight_mono h t
  have hqueue : (s.shared.fragQueue.map (Queued.weight m)).sum ≤
      (s.shared.fragQueue.map (Queued.weight n)).sum :=
    sum_le_sum fun q _ => Queued.weight_mono h q
  simp only [rankAt, Shared.weight]
  omega

end

/-- A calm step lowers the rank of the node. -/
theorem Orderly.rank_lt {env : NodeEnv} {s' : NodeState} {e : ℕ × Bool} (ho : Orderly s)
    (h : calmStep env s e = some s') : rank s' < rank s := by
  obtain ⟨t, t', sh', ht, -, hm, rfl⟩ := ho.moves h
  have hsum := sum_map_set (weight (shardBound s)) ht t'
  have hlower := hm.lower (shardBound s) (length_cached_le_shardBound s)
  calc rank ⟨sh', s.threads.set e.1 t'⟩
      ≤ rankAt (shardBound s) ⟨sh', s.threads.set e.1 t'⟩ := rankAt_mono (shardBound_le hm ht) _
    _ < rank s := by
        simp only [rank, rankAt]
        omega

/-! ## Arrivals -/

/-- A request starts still and waits for nothing. -/
theorem Request.thread_spec (r : Request) : r.thread.still = true ∧ r.thread.awaited = [] := by
  cases r with
  | mutate items => exact ⟨rfl, rfl⟩
  | offline time index | tableOp drop index =>
    rw [Request.thread]
    split <;> exact ⟨rfl, rfl⟩

theorem Thread.promised_of_still (h : t.still = true) : t.promised = 0 := by
  cases t with
  | offline time index point => cases point <;> first | rfl | cases h
  | _ => rfl

theorem getElem?_arrive (h : (ts ++ [u])[i]? = some t) :
    ts[i]? = some t ∨ i = ts.length ∧ t = u := by
  rw [getElem?_append] at h
  split_ifs at h
  · exact .inl h
  obtain ⟨hi, rfl⟩ := List.getElem?_eq_some_iff.mp h
  rw [length_singleton] at hi
  exact .inr ⟨by omega, getElem_singleton hi⟩

theorem getElem?_append_some (h : ts[i]? = some t) (u : Thread) : (ts ++ [u])[i]? = some t := by
  rw [List.getElem?_append_left (List.getElem?_eq_some_iff.mp h).1, h]

/-- A calm arrival keeps a node orderly. -/
theorem Orderly.arrive {env : NodeEnv} {r : Request} (ho : Orderly s)
    (hcalm : calm env s (.arrive r) = true) :
    Orderly { s with threads := s.threads ++ [r.thread] } := { ho with
  small := by
    have hfits := of_decide_eq_true (Bool.and_eq_true_iff.mp hcalm).2
    simp only [shardBound, map_append, sum_append, map_cons, map_nil,
      sum_cons, sum_nil] at hfits ⊢
    omega
  room := by
    have hroom := ho.room
    have hpromised := promised_of_still r.thread_spec.1
    simp only [operationBound, map_append, sum_append, map_cons, map_nil,
      sum_cons, sum_nil] at hroom ⊢
    omega
  workers i hi :=
    let ⟨task, htask⟩ := ho.workers i hi
    ⟨task, getElem?_append_some htask _⟩
  partition :=
    let ⟨point, hpoint⟩ := ho.partition
    ⟨point, getElem?_append_some hpoint _⟩
  ok i t hi := by
    rcases getElem?_arrive hi with hi | ⟨-, rfl⟩
    · exact ho.ok i t hi
    · exact ok_of_still r.thread_spec.1 _
  cached k hk := (ho.cached k hk).imp_right fun ⟨i, t, hi, hdrops⟩ =>
    ⟨i, t, getElem?_append_some hi _, hdrops⟩
  exclusive i t hi hlocks := by
    rcases getElem?_arrive hi with hi | ⟨-, rfl⟩
    · obtain ⟨hnops, hstill⟩ := ho.exclusive i t hi hlocks
      refine ⟨hnops, fun j u hj hji => ?_⟩
      rcases getElem?_arrive hj with hj | ⟨-, rfl⟩
      · exact hstill j u hj hji
      · exact r.thread_spec.1
    · have hstill := r.thread_spec.1
      rw [not_still_of_locksTables hlocks] at hstill
      cases hstill
  awaited i t hi id hid := by
    rcases getElem?_arrive hi with hi | ⟨-, rfl⟩
    · refine (ho.awaited i t hi id hid).imp_right fun ⟨j, task, hj, htask⟩ => ?_
      exact ⟨j, task, getElem?_append_some hj _, htask⟩
    · rw [r.thread_spec.2] at hid
      cases hid
  accounted id f hmem := by
    refine (ho.accounted id f hmem).imp_right (Or.imp_left fun ⟨i, t, hi, htask⟩ => ?_)
    exact ⟨i, t, getElem?_append_some hi _, htask⟩ }

end QuantaStream.Server
