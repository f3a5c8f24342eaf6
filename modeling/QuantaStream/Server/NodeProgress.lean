import QuantaStream.Server.OrderlyNode

/-!
# Progress of a node

An orderly node that has requests to answer can take a calm step.  Threads are ordered by what they
hold: a thread with a shard lock waits for nobody, a writer inside a cache waits for shard locks, a
reader inside a cache too, and so on; a thread of the lowest level can always move.  With the rank
this gives that every schedule of calm steps answers all requests.
-/

namespace QuantaStream.Server

open List Thread Option Run

/-- A thread of the node can take a calm step. -/
def CanStep (env : NodeEnv) (s : NodeState) : Prop := ∃ e s', calmStep env s e = some s'

/-! ## Levels -/

/-- The level of the work on a fragment. -/
def Stage.level : Stage → ℕ
  | .merge => 0
  | .artifact true => 0
  | .clear _ => 1
  | .shard => 1
  | .enter => 3
  | _ => 4

/-- The level of a thread: 0 with the lock of a shard, 1 as a writer inside a cache, 2 as a reader,
3 as an announced writer, 4 otherwise. -/
def Thread.level : Thread → ℕ
  | .worker (some task) => task.stage.level
  | .mutate _ (.applying task) _ => task.stage.level
  | .partition (.purge _) => 1
  | .partition (.enter _) => 3
  | .offline _ _ (.operate _ _ _) => 0
  | .offline _ _ (.send _ _ _ _) => 0
  | .offline _ _ (.iterate _ _) => 2
  | .tableOp _ _ .lock => 4
  | .tableOp _ _ _ => 0
  | _ => 4

section

variable {k : ShardKey} {l : CacheLock} {task : Task}

theorem Task.level_of_locksShard (h : task.locksShard k = true) : task.stage.level = 0 := by
  obtain ⟨id, f, st⟩ := task
  cases st with
  | artifact locked =>
    cases locked with
    | false => simp [Task.locksShard] at h
    | true => rfl
  | merge => rfl
  | _ => simp [Task.locksShard] at h

theorem Task.level_of_inside (h : task.inside l = true) : task.stage.level ≤ 1 := by
  obtain ⟨id, f, st⟩ := task
  cases st with
  | clear rows | shard => exact Nat.le_refl 1
  | _ => simp [Task.inside] at h

theorem Task.level_of_announced (h : task.announced l = true) : task.stage.level ≤ 3 := by
  obtain ⟨id, f, st⟩ := task
  cases st with
  | enter => exact Nat.le_refl 3
  | clear rows | shard => exact (by decide : 1 ≤ 3)
  | _ => simp [Task.announced] at h

theorem Thread.level_of_locksShard : ∀ {t : Thread}, t.locksShard k = true → t.level = 0
  | .worker (some _), h | .mutate _ (.applying _) _, h => Task.level_of_locksShard h
  | .offline _ _ point, h => by cases point <;> first | rfl | cases h

theorem Thread.level_of_inside : ∀ {t : Thread}, t.inside l = true → t.level ≤ 1
  | .worker (some _), h | .mutate _ (.applying _) _, h => Task.level_of_inside h
  | .partition point, h => by cases point <;> first | exact Nat.le_refl _ | cases h
  | .tableOp _ _ point, h => by cases point <;> first | exact Nat.zero_le _ | cases h

theorem Thread.level_of_reads : ∀ {t : Thread}, t.reads l = true → t.level ≤ 2
  | .offline _ _ point, h => by
    cases point with
    | rlock l => cases h
    | iterate l ks => exact Nat.le_refl 2
    | _ => exact Nat.zero_le 2
  | .tableOp _ _ point, h => by cases point <;> first | exact Nat.zero_le _ | cases h

theorem Thread.level_of_announced : ∀ {t : Thread}, t.announced l = true → t.level ≤ 3
  | .worker (some _), h | .mutate _ (.applying _) _, h => Task.level_of_announced h
  | .partition (.enter _), _ => Nat.le_refl 3
  | .partition (.purge _), _ => (by decide : 1 ≤ 3)
  | .tableOp _ _ point, h => by cases point <;> first | exact Nat.zero_le _ | cases h

theorem Thread.level_of_still : ∀ {t : Thread}, t.still = true → t.level = 4
  | .worker none, _ | .returned _, _ => rfl
  | .partition point, h | .mutate _ point _, h | .offline _ _ point, h | .tableOp _ _ point, h => by
    cases point <;> first | rfl | cases h

theorem Thread.task_of_still : ∀ {t : Thread}, t.still = true → t.task = none
  | .worker none, _ | .partition _, _ | .offline _ _ _, _ | .tableOp _ _ _, _ | .returned _, _ => rfl
  | .mutate _ point _, h => by cases point <;> first | rfl | cases h

theorem Stage.level_le (st : Stage) : st.level ≤ 4 := by
  unfold Stage.level
  split <;> decide

theorem Thread.level_le (t : Thread) : t.level ≤ 4 := by
  unfold level
  split <;> first | exact Stage.level_le _ | decide

end

/-! ## Threads that are not blocked -/

section

variable {env : NodeEnv} {ts : List Thread} {sh : Shared}

/-- What is free for a thread if no thread has a lower level. -/
structure FreeAt (ts : List Thread) (n : ℕ) : Prop where
  shard : 1 ≤ n → ∀ k, shardFree k ts = true
  inside : 2 ≤ n → ∀ l, ts.any (inside l) = false
  read : 3 ≤ n → ∀ l, unread l ts = true
  announced : 4 ≤ n → ∀ l, unannounced l ts = true

theorem any_eq_false_of_level {p : Thread → Bool} {m n : ℕ} (hn : ∀ t ∈ ts, n ≤ t.level)
    (hp : ∀ t, p t = true → t.level ≤ m) (hmn : m < n) : ts.any p = false := by
  refine any_eq_false.mpr fun t ht hpt => ?_
  have hlow := hn t ht
  have hhigh := hp t hpt
  omega

theorem freeAt_of_level {n : ℕ} (hn : ∀ t ∈ ts, n ≤ t.level) : FreeAt ts n where
  shard h k := by
    simp [shardFree, any_eq_false_of_level hn (fun t ht => (level_of_locksShard ht).le) h]
  inside h l := any_eq_false_of_level hn (fun t ht => level_of_inside ht) h
  read h l := by simp [unread, any_eq_false_of_level hn (fun t ht => level_of_reads ht) h]
  announced h l := by
    simp [unannounced, any_eq_false_of_level hn (fun t ht => level_of_announced ht) h]

/-- The work on a fragment of the lowest level goes on. -/
theorem applyStep_isSome (hfree : tablesFree ts = true) {task : Task}
    (hlevel : FreeAt ts task.stage.level) : (applyStep env ts sh task).isSome := by
  obtain ⟨id, f, st⟩ := task
  cases st with
  | config =>
    simp only [applyStep, hfree, if_true]
    split <;> rfl
  | lookup =>
    simp only [applyStep]
    split_ifs <;> rfl
  | announce => simp [applyStep, hlevel.announced (Nat.le_refl _)]
  | enter => simp [applyStep, hlevel.read (Nat.le_refl _)]
  | clear rows =>
    cases rows with
    | nil =>
      simp only [applyStep]
      split_ifs <;> rfl
    | cons k rows => simp [applyStep, hlevel.shard (Nat.le_refl _)]
  | shard => simp [applyStep, hlevel.shard (Nat.le_refl _)]
  | shardOnly => simp [applyStep, hlevel.shard (show 1 ≤ 4 by decide)]
  | artifact locked => simp [applyStep, hfree]
  | merge => rfl

end

section

variable {env : NodeEnv} {s : NodeState} {i : ℕ} {t : Thread}

theorem Orderly.canStep (ho : Orderly s) (hi : s.threads[i]? = some t)
    (hcalm : t.calm env s = true) (own : Bool)
    (h : (advance env s.threads i own s.shared t).isSome) : CanStep env s := by
  obtain ⟨r, hr⟩ := isSome_iff_exists.mp h
  refine ⟨(i, own), ⟨r.2, s.threads.set i r.1⟩, ?_⟩
  simp [calmStep, calm, threadStep, hi, hcalm, hr, ho.running]

/-- A lookup of the lowest level is calm, and so is every other stage of the work. -/
theorem calm_of_task {task : Task} : ∀ {t : Thread}, t.task = some task →
    FreeAt s.threads task.stage.level → t.calm env s = true
  | .worker (some ⟨_, _, st⟩), rfl, hlevel | .mutate _ (.applying ⟨_, _, st⟩) _, rfl, hlevel => by
    cases st with
    | lookup => simp [Thread.calm, hlevel.inside (show 2 ≤ 4 by decide)]
    | _ => rfl

section

variable (ho : Orderly s)

include ho

/-- A thread that is under way and of the lowest level can move. -/
theorem canStep_of_lowest (hfree : tablesFree s.threads = true)
    (hi : s.threads[i]? = some t) (hstill : t.still = false) (hlevel : FreeAt s.threads t.level) :
    CanStep env s := by
  cases t with
  | worker task =>
    cases task with
    | none => cases hstill
    | some task =>
      refine ho.canStep hi (calm_of_task rfl hlevel) false ?_
      rw [advance, isSome_map]
      exact applyStep_isSome hfree hlevel
  | partition point =>
    refine ho.canStep hi rfl false ?_
    rw [advance, isSome_map]
    cases point with
    | idle => cases hstill
    | execute k isPK => simp [partitionStep, hfree]
    | announce k => simp [partitionStep, hlevel.announced (Nat.le_refl _)]
    | enter k => simp [partitionStep, hlevel.read (Nat.le_refl _)]
    | purge k => rfl
  | mutate items point awaits =>
    cases point with
    | config => cases hstill
    | kind =>
      refine ho.canStep hi rfl false ?_
      obtain ⟨item, hitem, -⟩ := ho.ok i _ hi
      cases items with
      | nil => cases hitem
      | cons item' items =>
        simp only [advance, mutateStep, hfree, if_true]
        split <;> rfl
    | ready f sync =>
      refine ho.canStep hi rfl false ?_
      simp only [advance, mutateStep]
      split_ifs <;> rfl
    | applying task =>
      refine ho.canStep hi (calm_of_task rfl hlevel) false ?_
      rw [advance, mutateStep, isSome_map]
      exact applyStep_isSome hfree hlevel
  | offline time index point =>
    cases point with
    | rlock l => cases hstill
    | iterate l ks =>
      refine ho.canStep hi rfl false ?_
      cases ks with
      | nil => cases l <;> rfl
      | cons k ks =>
        simp only [advance, offlineStep, hlevel.shard (show 1 ≤ 2 by decide), if_true]
        split <;> rfl
    | operate l k ks =>
      refine ho.canStep hi rfl false ?_
      simp only [advance, offlineStep, hfree, if_true]
      split <;> rfl
    | send l op k ks =>
      refine ho.canStep hi rfl false ?_
      -- The operation has been promised, so there is room for it.
      have hroom : s.shared.partitionQueue.length < queueCapacity := by
        have hpromised : ks.length + 1 ≤ (s.threads.map promised).sum :=
          le_sum_of_mem (mem_map_of_mem (mem_of_getElem? hi))
        have hroom := ho.room
        simp only [operationBound] at hroom
        omega
      simp [advance, offlineStep, hroom]
  | tableOp drop index point =>
    cases point with
    | lock => cases hstill
    | _ =>
      rw [tablesFree_eq_false_of_locked hi rfl] at hfree
      cases hfree
  | returned ok => cases hstill

/-- A node with a thread that is under way without the table lock can take a step. -/
theorem Orderly.canStep_of_busy (hi : s.threads[i]? = some t)
    (hstill : t.still = false) (hlocks : t.locksTables = false) : CanStep env s := by
  cases hfree : tablesFree s.threads with
  | false =>
    -- Somebody else holds the table lock, and then the thread is still.
    obtain ⟨u, hu, hulocks⟩ : ∃ u ∈ s.threads, u.locksTables = true := by
      simpa [tablesFree] using hfree
    obtain ⟨j, hj⟩ := mem_iff_getElem?.mp hu
    have hij : i ≠ j := by
      rintro rfl
      cases hi.symm.trans hj
      cases hlocks.symm.trans hulocks
    cases hstill.symm.trans ((ho.exclusive j u hj hulocks).2 i t hi hij)
  | true =>
    obtain ⟨u, ⟨hu, hustill⟩, hmin⟩ := (measure level).wf.has_min
      {u | u ∈ s.threads ∧ u.still = false} ⟨t, mem_of_getElem? hi, hstill⟩
    obtain ⟨j, hj⟩ := mem_iff_getElem?.mp hu
    refine canStep_of_lowest ho hfree hj hustill (freeAt_of_level fun v hv => ?_)
    cases hvstill : v.still with
    | true =>
      rw [level_of_still hvstill]
      exact u.level_le
    | false => exact Nat.le_of_not_lt (hmin v ⟨hv, hvstill⟩)

theorem Orderly.idle_or_canStep {w : ℕ} (hw : w < workersCount) :
    s.threads[w]? = some (.worker none) ∨ CanStep env s := by
  obtain ⟨task, htask⟩ := ho.workers w hw
  cases task with
  | none => exact .inl htask
  | some task => exact .inr (ho.canStep_of_busy htask rfl rfl)

theorem Orderly.canStep_of_fragQueue (h : s.shared.fragQueue ≠ []) : CanStep env s := by
  refine (ho.idle_or_canStep (show 0 < workersCount by decide)).elim (fun hidle => ?_) id
  refine ho.canStep hidle rfl false ?_
  cases hqueue : s.shared.fragQueue with
  | nil => exact absurd hqueue h
  | cons q queue => cases q <;> simp [advance, idleStep, hqueue]

theorem Orderly.canStep_of_aux {ids : List ℕ} (hids : ids ∈ s.shared.aux)
    (h : ids ≠ []) : CanStep env s := by
  obtain ⟨w, hw⟩ := mem_iff_getElem?.mp hids
  have hlt : w < workersCount := ho.aux ▸ (List.getElem?_eq_some_iff.mp hw).1
  refine (ho.idle_or_canStep hlt).elim (fun hidle => ?_) id
  refine ho.canStep hidle rfl true ?_
  cases ids with
  | nil => exact absurd rfl h
  | cons id ids => simp [advance, idleStep, hw]

theorem Orderly.canStep_of_pending {id : ℕ} (h : Pending s id)
    (hdone : id ∉ s.shared.done) : CanStep env s := by
  rcases h with (h | ⟨q, hq, -⟩ | ⟨ids, hids, hid⟩) | ⟨w, task, hw, -⟩
  · exact absurd h hdone
  · exact ho.canStep_of_fragQueue (ne_nil_of_mem hq)
  · exact ho.canStep_of_aux hids (ne_nil_of_mem hid)
  · exact ho.canStep_of_busy hw rfl rfl

theorem Orderly.canStep_of_partitionQueue (h : s.shared.partitionQueue ≠ []) : CanStep env s := by
  obtain ⟨point, hpoint⟩ := ho.partition
  cases point with
  | idle =>
    refine ho.canStep hpoint rfl false ?_
    cases hqueue : s.shared.partitionQueue with
    | nil => exact absurd hqueue h
    | cons op queue => cases op <;> simp [advance, partitionStep, hqueue]
  | _ => exact ho.canStep_of_busy hpoint rfl rfl

end

/-- Beside threads that are still, a thread meets only what it holds itself. -/
theorem any_eq_false_beside (hi : s.threads[i]? = some t)
    (hstill : ∀ (j : ℕ) (u : Thread), s.threads[j]? = some u → j ≠ i → u.still)
    {p : Thread → Bool} (hp : ∀ u, p u = true → u.level ≤ 3) (ht : p t = false) :
    s.threads.any p = false := by
  refine any_eq_false.mpr fun u hu hpu => ?_
  obtain ⟨j, hj⟩ := mem_iff_getElem?.mp hu
  by_cases hji : j = i
  · subst hji
    cases hi.symm.trans hj
    cases ht.symm.trans hpu
  · have hlevel := hp u hpu
    rw [level_of_still (hstill j u hj hji)] at hlevel
    omega

/-- A table operation that holds the table lock can go on, or a worker can. -/
theorem Orderly.canStep_of_locked (ho : Orderly s) (hi : s.threads[i]? = some t)
    (hlocks : t.locksTables = true) : CanStep env s := by
  obtain ⟨hnops, hstill⟩ := ho.exclusive i t hi hlocks
  cases t with
  | tableOp drop index point =>
    have hannounced : ∀ l, announced l (.tableOp drop index point) = false →
        unannounced l s.threads = true := fun l h => by
      simp [unannounced, any_eq_false_beside hi hstill (fun u => level_of_announced) h]
    have hread : ∀ l, reads l (.tableOp drop index point) = false →
        unread l s.threads = true := fun l h => by
      simp [unread, any_eq_false_beside hi hstill
        (fun u hu => (level_of_reads hu).trans (by decide)) h]
    have hshard : ∀ k, shardFree k s.threads = true := fun k => by
      simp [shardFree, any_eq_false_beside hi hstill
        (fun u hu => (level_of_locksShard hu).le.trans (by decide)) rfl]
    cases point with
    | lock => cases hlocks
    | announce l =>
      refine ho.canStep hi rfl false ?_
      cases l with
      | bitmap => simp [advance, tableStep, hannounced .bitmap rfl]
      | bsi => simp [advance, tableStep, hannounced .bsi rfl]
    | enter l =>
      refine ho.canStep hi rfl false ?_
      simp [advance, tableStep, hread l rfl]
    | truncate => exact ho.canStep hi rfl false rfl
    | rlock l =>
      refine ho.canStep hi rfl false ?_
      simp [advance, tableStep, hannounced l rfl]
    | peek l ks =>
      refine ho.canStep hi rfl false ?_
      cases ks with
      | nil => rfl
      | cons k ks => simp [advance, tableStep, hshard k]
    | sendNop =>
      by_cases hqueue : s.shared.fragQueue = []
      · refine ho.canStep hi rfl false ?_
        simp [advance, tableStep, hqueue, queueCapacity]
      · exact ho.canStep_of_fragQueue hqueue
    | awaitNop id =>
      by_cases hdone : id ∈ s.shared.done
      · refine ho.canStep hi rfl false ?_
        simp [advance, tableStep, hdone]
      · exact ho.canStep_of_pending (ho.awaited i _ hi id mem_cons_self) hdone
    | sendAux workers ids =>
      cases workers with
      | nil => exact ho.canStep hi rfl false rfl
      | cons w workers =>
        have hw : w < s.shared.aux.length := ho.aux ▸ ho.ok i _ hi w mem_cons_self
        obtain ⟨queue, hqueue⟩ : ∃ queue, s.shared.aux[w]? = some queue :=
          ⟨_, getElem?_eq_getElem hw⟩
        by_cases hempty : queue = []
        · refine ho.canStep hi rfl false ?_
          simp [advance, tableStep, hqueue, hempty, auxCapacity]
        · exact ho.canStep_of_aux (mem_of_getElem? hqueue) hempty
    | awaitAux ids =>
      cases ids with
      | nil => exact ho.canStep hi rfl false rfl
      | cons id ids =>
        by_cases hdone : id ∈ s.shared.done
        · refine ho.canStep hi rfl false ?_
          simp [advance, tableStep, hdone]
        · exact ho.canStep_of_pending (ho.awaited i _ hi id mem_cons_self) hdone
  | _ => cases hlocks

/-- The thread is no request, or one that has returned. -/
def Thread.finished : Thread → Bool
  | .worker _ => true
  | .partition _ => true
  | .returned _ => true
  | _ => false

/-- Every request has returned and what became of every accepted fragment is on record. -/
def Settled (s : NodeState) : Prop :=
  (∀ t ∈ s.threads, t.finished) ∧
    ∀ id f, (id, f) ∈ s.shared.accepted → Recorded s.shared id f

/-- A node can take a step, or all threads are still, the queues are empty and nobody holds the
table lock. -/
theorem Orderly.canStep_or_quiet (ho : Orderly s) :
    CanStep env s ∨ quiet s = true ∧ tablesFree s.threads = true := by
  by_cases hlocked : ∃ u ∈ s.threads, u.locksTables = true
  · obtain ⟨u, hu, hlocks⟩ := hlocked
    obtain ⟨j, hj⟩ := mem_iff_getElem?.mp hu
    exact .inl (ho.canStep_of_locked hj hlocks)
  by_cases hbusy : ∃ u ∈ s.threads, u.still = false
  · obtain ⟨u, hu, hstill⟩ := hbusy
    obtain ⟨j, hj⟩ := mem_iff_getElem?.mp hu
    refine .inl (ho.canStep_of_busy hj hstill ?_)
    exact Bool.eq_false_iff.mpr fun hlocks => hlocked ⟨u, hu, hlocks⟩
  by_cases hfrag : s.shared.fragQueue = []
  · by_cases hpartition : s.shared.partitionQueue = []
    · refine .inr ⟨?_, ?_⟩
      · simpa [quiet, hfrag, hpartition] using hbusy
      · simpa [tablesFree] using hlocked
    · exact .inl (ho.canStep_of_partitionQueue hpartition)
  · exact .inl (ho.canStep_of_fragQueue hfrag)

/-- On a quiet node a request that has not returned can go on, or a worker can. -/
theorem Orderly.canStep_of_quiet (ho : Orderly s) (hquiet : quiet s = true)
    (hfree : tablesFree s.threads = true) (hi : s.threads[i]? = some t)
    (hrequest : t.finished = false) : CanStep env s := by
  have hlevel : FreeAt s.threads 4 := freeAt_of_level fun u hu => by
    obtain ⟨j, hj⟩ := mem_iff_getElem?.mp hu
    exact (level_of_still (quiet_still hquiet hj)).ge
  have hstill := quiet_still hquiet hi
  cases t with
  | worker task | partition point => cases hrequest
  | mutate items point awaits =>
    cases point with
    | config =>
      cases items with
      | nil =>
        cases awaits with
        | nil => exact ho.canStep hi rfl false rfl
        | cons id awaits =>
          by_cases hdone : id ∈ s.shared.done
          · refine ho.canStep hi rfl false ?_
            simp [advance, mutateStep, hdone]
          · exact ho.canStep_of_pending (ho.awaited i _ hi id mem_cons_self) hdone
      | cons item items =>
        refine ho.canStep hi rfl false ?_
        simp only [advance, mutateStep, hfree, if_true]
        split <;> rfl
    | _ => cases hstill
  | offline time index point =>
    cases point with
    | rlock l =>
      have hpromised : (s.threads.map promised).sum = 0 := by
        refine sum_eq_zero fun n hn => ?_
        obtain ⟨u, hu, rfl⟩ := mem_map.mp hn
        obtain ⟨j, hj⟩ := mem_iff_getElem?.mp hu
        exact promised_of_still (quiet_still hquiet hj)
      have hfits : operationBound s + (s.shared.shards env.order l).length ≤ queueCapacity := by
        have hshards := length_shards_le env.order l s.shared
        have hbound := length_cached_le_shardBound s
        have hsmall := ho.small
        simp only [operationBound, hpromised, (quiet_onlyNops hquiet).2, length_nil]
        omega
      refine ho.canStep hi ?_ false ?_
      · simp [Thread.calm, hfree, hfits]
      · simp [advance, offlineStep, hlevel.announced (Nat.le_refl _)]
    | _ => cases hstill
  | tableOp drop index point =>
    cases point with
    | lock =>
      refine ho.canStep hi hquiet false ?_
      simp [advance, tableStep, hfree]
    | _ => cases hstill
  | returned ok => cases hrequest

/-- A node that is not settled can take a calm step. -/
theorem Orderly.progress (ho : Orderly s) (h : ¬ Settled s) : CanStep env s := by
  refine ho.canStep_or_quiet.elim id fun ⟨hquiet, hfree⟩ => ?_
  by_cases hrequests : ∀ t ∈ s.threads, t.finished
  · -- Every accepted fragment is on record, since the queue and all hands are empty.
    refine absurd ⟨hrequests, fun id f hmem => ?_⟩ h
    rcases ho.accounted id f hmem with hqueue | ⟨j, u, hj, task, htask, -⟩ | hrecorded
    · obtain ⟨_, hnop⟩ := (quiet_onlyNops hquiet).1 _ hqueue
      cases hnop
    · cases htask.symm.trans (task_of_still (quiet_still hquiet hj))
    · exact hrecorded
  · obtain ⟨t, ht, hrequest⟩ : ∃ t ∈ s.threads, t.finished = false := by simpa using hrequests
    obtain ⟨i, hi⟩ := mem_iff_getElem?.mp ht
    exact ho.canStep_of_quiet hquiet hfree hi hrequest

/-- Every schedule of calm steps settles an orderly node. -/
theorem Orderly.inevitable (ho : Orderly s) : Inevitable (calmStep env) Settled s :=
  Inevitable.of_rank rank (fun _ h hgoal => h.progress hgoal)
    (fun _ _ _ h hstep => ⟨h.step hstep, h.rank_lt hstep⟩) s ho

end

/-! ## Runs -/

/-- A node after its start: the shards it has loaded are of tables that exist. -/
structure LoadedNode where
  tables : TableCache
  cached : List ShardKey
  known : ∀ k ∈ cached, tableKnown tables k

namespace LoadedNode

variable (node : LoadedNode)

def start : NodeState := NodeState.start node.tables node.cached

theorem thread_start {i : ℕ} {t : Thread} (h : node.start.threads[i]? = some t) :
    t = .worker none ∨ t = .partition .idle := by
  rcases mem_append.mp (mem_of_getElem? h) with ht | ht
  · exact .inl (eq_of_mem_replicate ht)
  · exact .inr (mem_singleton.mp ht)

theorem threadStep_start (env : NodeEnv) (e : ℕ × Bool) : threadStep env node.start e = none := by
  refine bind_eq_none_iff.mpr fun t ht => ?_
  rcases node.thread_start ht with rfl | rfl
  · rw [map_eq_none_iff, advance, idleStep]
    split
    · split
      next id ids haux =>
        have hmem : id :: ids ∈ replicate workersCount [] := mem_of_getElem? haux
        cases eq_of_mem_replicate hmem
      next => rfl
    · rfl
  · rfl

theorem settled_start : Settled node.start := by
  refine ⟨fun t ht => ?_, fun id f h => nomatch h⟩
  obtain ⟨i, hi⟩ := mem_iff_getElem?.mp ht
  rcases node.thread_start hi with rfl | rfl <;> rfl

/-- A node that has room for its shards and whose tables have keys starts orderly. -/
theorem orderly_start (hkeyed : allKeyed node.tables = true)
    (hsmall : shardBound node.start ≤ queueCapacity) : Orderly node.start where
  running := rfl
  keyed := hkeyed
  small := hsmall
  room := Nat.zero_le _
  workers i hi := by
    refine ⟨none, ?_⟩
    have hlen : i < (replicate workersCount (worker none)).length := by
      rwa [length_replicate]
    rw [start, NodeState.start, getElem?_append_left hlen, getElem?_replicate, if_pos hi]
  partition := ⟨.idle, rfl⟩
  aux := length_replicate
  ok i t hi := by
    rcases node.thread_start hi with rfl | rfl <;> trivial
  queued := nofun
  operations := nofun
  cached k hk := .inl (node.known k hk)
  exclusive i t hi hlocks := by
    rcases node.thread_start hi with rfl | rfl <;> cases hlocks
  awaited i t hi id hid := by
    rcases node.thread_start hi with rfl | rfl <;> cases hid
  accounted := nofun

variable {node} {env : NodeEnv}

/-- A calm event leaves a node orderly, or as it was at the start. -/
theorem nodeStep_orderly {s : NodeState} {e : NodeEvent} (hs : s = node.start ∨ Orderly s)
    (hcalm : calm env s e = true) : nodeStep env s e = node.start ∨ Orderly (nodeStep env s e) := by
  cases e with
  | step i own =>
    cases hstep : threadStep env s (i, own) with
    | none =>
      rw [nodeStep, hstep]
      exact hs
    | some s' =>
      rcases hs with rfl | ho
      · rw [node.threadStep_start] at hstep
        cases hstep
      · rw [nodeStep, hstep]
        have hcalmStep : calmStep env s (i, own) = some s' := by
          rw [calmStep, if_pos hcalm, hstep]
        exact .inr (ho.step hcalmStep)
  | timeout i => cases hcalm
  | arrive r =>
    have ho : Orderly s := by
      rcases hs with rfl | ho
      · obtain ⟨hkeyed, hfits⟩ := Bool.and_eq_true_iff.mp hcalm
        refine node.orderly_start hkeyed ?_
        exact (Nat.le_add_right _ _).trans (of_decide_eq_true hfits)
      · exact ho
    rw [nodeStep, if_neg (by simp [ho.running])]
    exact .inr (ho.arrive hcalm)

end LoadedNode

/-- In every run of calm events the node keeps running, every schedule of calm steps answers all
requests without a timeout and leaves a record of every fragment, and the caches hold shards of
tables that exist or are being dropped. -/
theorem calm_run_settles (env : NodeEnv) (node : LoadedNode) (es : List NodeEvent)
    (hes : Meets (nodeStep env) (fun s e => calm env s e = true) node.start es) :
    (exec (nodeStep env) node.start es).shared.crashed = false ∧
      Inevitable (calmStep env) Settled (exec (nodeStep env) node.start es) ∧
        CachedKnown (exec (nodeStep env) node.start es) := by
  have hinv := exec_induction (nodeStep env) (fun s e => LoadedNode.nodeStep_orderly)
    (.inl rfl) hes
  rcases hinv with hstart | ho
  · rw [hstart]
    exact ⟨rfl, .here node.settled_start, fun k hk => .inl (node.known k hk)⟩
  · exact ⟨ho.running, ho.inevitable, ho.cached⟩

/-! ## A flush that waits for a worker that waits for the flush -/

def keyedTable : Table where
  timeQuantum := .none
  timeQuantumField := none
  primaryKey := ["id"]
  getAttribute _ := some ⟨.none, true⟩

def twoTables : LoadedNode where
  tables := (AList.singleton "orders" keyedTable).insert "items" keyedTable
  cached := []
  known := nofun

def memberNode : NodeEnv := ⟨fun _ => true, .asKept⟩

def mutationOf (index : String) : Request := .mutate [⟨⟨index, "price"⟩, 0, 0, false, false, false⟩]

/-- A mutation that is applied, and a table that is dropped afterwards. -/
def mutateThenDrop : List NodeEvent :=
  .arrive (mutationOf "orders") :: replicate 3 (.step 21 false) ++
    replicate 6 (.step 0 false) ++ replicate 2 (.step 21 false) ++
      .arrive (.tableOp true "orders") :: replicate 9 (.step 22 false)

theorem mutateThenDrop_settles :
    Meets (nodeStep memberNode) (fun s e => calm memberNode s e = true) twoTables.start
        mutateThenDrop ∧
      Inevitable (calmStep memberNode) Settled
        (exec (nodeStep memberNode) twoTables.start mutateThenDrop) := by
  refine ⟨?calm, (calm_run_settles memberNode twoTables mutateThenDrop ?calm).2.1⟩
  decide

/-- A fragment of one table is queued when another table is truncated. -/
def queuedThenTruncate : List NodeEvent :=
  .arrive (mutationOf "orders") :: replicate 3 (.step 21 false) ++
    .arrive (.tableOp false "items") :: replicate 11 (.step 22 false) ++
      [.step 0 false, .step 0 false, .step 1 false] ++ replicate 23 (.step 22 false) ++
        (range workersCount).map fun i => .step i true

/-- A table is dropped while a mutation is between its configuration and its kind. -/
def dropDuringMutation : List NodeEvent :=
  [.arrive (mutationOf "orders"), .step 21 false, .arrive (.tableOp true "orders")] ++
    replicate 11 (.step 22 false) ++ .step 0 false :: replicate 22 (.step 22 false) ++
      (range workersCount).map (fun i => .step i true) ++
        replicate 21 (.step 22 false) ++ [.step 21 false]

/-- The node after a truncation with a fragment in the queue. -/
def stuckNode : NodeState := exec (nodeStep memberNode) twoTables.start queuedThenTruncate

/-- A flush waits with the table lock for a worker whose fragment waits for the table lock, and no
thread can take a step; and a mutation of a table that has just been dropped ends the process. -/
theorem flush_deadlocks :
    stuckNode.shared.crashed = false ∧
      (stuckNode.threads[22]?).map finished = some false ∧
        (∀ e, threadStep memberNode stuckNode e = none) ∧
          (exec (nodeStep memberNode) twoTables.start dropDuringMutation).shared.crashed =
            true := by
  have hblocked : ∀ i < 23, ∀ own, (threadStep memberNode stuckNode (i, own)).isNone := by
    decide +kernel
  refine ⟨by decide +kernel, by decide +kernel, fun e => ?_, by decide +kernel⟩
  rcases Nat.lt_or_ge e.1 23 with hlt | hge
  · exact isNone_iff_eq_none.mp (hblocked e.1 hlt e.2)
  have hnone : stuckNode.threads[e.1]? = none :=
    getElem?_eq_none (le_trans (by decide +kernel) hge)
  unfold threadStep
  split
  · rfl
  · rw [hnone]
    rfl

end QuantaStream.Server
