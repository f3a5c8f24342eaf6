import QuantaStream.Core.SessionPool

/-!
# Sessions after an invalidation

An invalidation of a table first raises its generation and takes the idle sessions out of the pool,
and then evicts the table from the cache.  A session that is opened in between gets the table that is
about to be evicted, with the new generation, and goes from borrower to borrower afterwards.  Without
such a borrow every session that is lent after an invalidation has returned was opened on a table
that was loaded after it began.
-/

namespace QuantaStream.Core
namespace Pool

open GoString List Option GoMap Run

variable {toLower : GoString → GoString}

/-! ## The condition -/

/-- No borrow takes a table from the cache while an invalidation of the table has drained the pool
but not yet the cache; a session is returned under the name of its table; the name of a table that
is invalidated is not blank. -/
def InTurn (toLower : GoString → GoString) (st : PoolState) : PoolEvent → Prop
  | .borrow tableName _ _ =>
    st.tableCache.lookup tableName = none ∨ ∀ call ∈ st.invalidating,
      sessionPoolTableKey toLower call.tableName ≠ sessionPoolTableKey toLower tableName
  | .returnBegin tableName id => ∀ s ∈ st.sessions[id]?,
      sessionPoolTableKey toLower tableName = sessionPoolTableKey toLower s.home
  | .invalidateBegin tableName => sessionPoolTableKey toLower tableName ≠ []
  | _ => True

instance (toLower : GoString → GoString) (st : PoolState) (e : PoolEvent) :
    Decidable (InTurn toLower st e) := by
  cases e <;> unfold InTurn <;> infer_instance

/-! ## The invariant -/

/-- The point in time is not before any invalidation of the table in a list. -/
def Current (toLower : GoString → GoString) (calls : List Invalidation) (tableName : GoString)
    (time : ℕ) : Prop :=
  ∀ call ∈ calls, sessionPoolTableKey toLower call.tableName =
    sessionPoolTableKey toLower tableName → call.began ≤ time

def PoolState.calls (st : PoolState) : List Invalidation := st.invalidating ++ st.invalidated

/-- The generation of a table, zero if it was never raised. -/
def generationIn (toLower : GoString → GoString) (generations : GoMap GoString ℕ)
    (tableName : GoString) : ℕ :=
  (generations.lookup (sessionPoolTableKey toLower tableName)).getD 0

section

variable (toLower : GoString → GoString) (generations : GoMap GoString ℕ)
  (calls : List Invalidation)

/-- A session that is of the generation of its table is current. -/
structure SessionTidy (s : PoolSession) : Prop where
  le : s.generation ≤ generationIn toLower generations s.home
  current : s.generation = generationIn toLower generations s.home →
    Current toLower calls s.home s.table.loadedAt

/-- The idle sessions of an entry are of its table and current, and the entry is of the generation of
the table. -/
structure EntryTidy (sessions : List PoolSession) (tableName : GoString)
    (entry : SessionPoolEntry) : Prop where
  generation : entry.generation = generationIn toLower generations tableName
  idle : ∀ id ∈ entry.pool, ∃ s, sessions[id]? = some s ∧
    sessionPoolTableKey toLower s.home = sessionPoolTableKey toLower tableName ∧
      Current toLower calls tableName s.table.loadedAt

end

/-- A table in the cache is current, or an invalidation is about to evict it. -/
def CacheTidy (toLower : GoString → GoString) (st : PoolState) (cache : TableCacheMap) : Prop :=
  ∀ name t, cache.lookup name = some t → Current toLower st.calls name t.loadedAt ∨
    ∃ call ∈ st.invalidating,
      sessionPoolTableKey toLower call.tableName = sessionPoolTableKey toLower name

/-- The invariant of the runs whose events all come in turn. -/
structure Tidy (toLower : GoString → GoString) (st : PoolState) : Prop where
  times : ∀ call ∈ st.calls, call.began ≤ st.clock
  cached : CacheTidy toLower st st.tableCache
  entries : ∀ name entry, st.sessPoolMap.lookup name = some entry →
    EntryTidy toLower st.tableGenerations st.calls st.sessions name entry
  sessions : ∀ s ∈ st.sessions, SessionTidy toLower st.tableGenerations st.calls s
  returning : ∀ call ∈ st.returning, ∃ s, st.sessions[call.session]? = some s ∧
    sessionPoolTableKey toLower call.tableName = sessionPoolTableKey toLower s.home

theorem generationIn_congr (generations : GoMap GoString ℕ) {name name' : GoString}
    (h : sessionPoolTableKey toLower name = sessionPoolTableKey toLower name') :
    generationIn toLower generations name = generationIn toLower generations name' := by
  unfold generationIn
  rw [h]

theorem Current.congr {calls : List Invalidation} {name name' : GoString} {time : ℕ}
    (h : Current toLower calls name time)
    (hname : sessionPoolTableKey toLower name = sessionPoolTableKey toLower name') :
    Current toLower calls name' time := by
  intro call hcall hkey
  exact h call hcall (hkey.trans hname.symm)

/-! ## Loading tables -/

section

variable {now : ℕ} {schemas : Schemas} {cache : TableCacheMap} {name : GoString}

variable {t : CachedTable} {key : GoString}

/-- What is in the cache after a load was there before or is loaded now. -/
theorem lookup_loadTable (h : (loadTable now schemas cache name).2.lookup key = some t) :
    cache.lookup key = some t ∨ t.loadedAt = now := by
  unfold loadTable at h
  split at h
  · exact .inl h
  split at h
  · exact .inl h
  · rw [lookup_insert] at h
    split at h
    · cases h
      exact .inr rfl
    · exact .inl h

theorem lookup_loadParents {parents : List GoString}
    (h : (loadParents now schemas cache parents).2.lookup key = some t) :
    cache.lookup key = some t ∨ t.loadedAt = now := by
  induction parents generalizing cache with
  | nil => exact .inl h
  | cons parent parents ih =>
    rw [loadParents] at h
    split at h
    next cache' heq => exact lookup_loadTable (by rwa [heq])
    next table cache' heq =>
      rcases ih h with h | h
      · exact lookup_loadTable (by rwa [heq])
      · exact .inr h

theorem lookup_openSession {buffered : Bool}
    (h : (openSession now schemas buffered cache name).2.lookup key = some t) :
    cache.lookup key = some t ∨ t.loadedAt = now := by
  unfold openSession at h
  split at h
  · exact .inl h
  split at h
  next cache' heq => exact lookup_loadTable (by rwa [heq])
  next table cache' heq =>
    have hparents : cache'.lookup key = some t ∨ t.loadedAt = now := by
      split at h
      next heq' => exact lookup_loadParents (by rwa [heq'])
      next heq' => exact lookup_loadParents (by rwa [heq'])
    rcases hparents with h | h
    · exact lookup_loadTable (by rwa [heq])
    · exact .inr h

/-- The table of a new session was in the cache or is loaded now. -/
theorem openSession_eq_some {buffered : Bool}
    (h : (openSession now schemas buffered cache name).1 = some t) :
    cache.lookup name = some t ∨ t.loadedAt = now := by
  have hload : ∀ t', (loadTable now schemas cache name).1 = some t' →
      cache.lookup name = some t' ∨ t'.loadedAt = now := by
    intro t' h
    unfold loadTable at h
    split at h
    next hcached =>
      cases h
      exact .inl hcached
    next =>
      split at h
      · cases h
      · cases h
        exact .inr rfl
  revert h
  fun_cases openSession now schemas buffered cache name
  case case3 table cache' heq _ _ =>
    rw [heq] at hload
    intro h
    split at h
    · cases h
      exact hload t rfl
    · cases h
  all_goals nofun

end

/-! ## One event -/

section

variable {st : PoolState}

section

variable (h : Tidy toLower st)

include h

theorem Tidy.current_clock (name : GoString) : Current toLower st.calls name st.clock :=
  fun call hcall _ => h.times call hcall

/-- A cache that only got tables that are loaded now. -/
theorem Tidy.cacheTidy {cache : TableCacheMap} (hcache : ∀ name t, cache.lookup name = some t →
      st.tableCache.lookup name = some t ∨ t.loadedAt = st.clock) : CacheTidy toLower st cache := by
  intro name t ht
  rcases hcache name t ht with ht | ht
  · exact h.cached name t ht
  · rw [ht]
    exact .inl (h.current_clock name)

theorem Tidy.entry (name : GoString) :
    EntryTidy toLower st.tableGenerations st.calls st.sessions name
      (getPoolByTableName toLower st name) := by
  unfold getPoolByTableName
  cases hentry : st.sessPoolMap.lookup name with
  | some entry => exact h.entries name entry hentry
  | none => exact ⟨rfl, fun _ hid => nomatch hid⟩

variable {name : GoString}

theorem Tidy.with_entry {entry : SessionPoolEntry}
    (hentry : EntryTidy toLower st.tableGenerations st.calls st.sessions name entry) :
    Tidy toLower { st with sessPoolMap := st.sessPoolMap.insert name entry } := { h with
  entries name' entry' hlookup := by
    rw [lookup_insert] at hlookup
    split at hlookup
    next heq =>
      subst heq
      cases hlookup
      exact hentry
    next => exact h.entries name' entry' hlookup }

/-- The pool with other sessions; those that were there keep their tables. -/
theorem Tidy.with_sessions {sessions : List PoolSession}
    (hkeeps : ∀ (id : ℕ) s, st.sessions[id]? = some s → ∃ s', sessions[id]? = some s' ∧
      s'.home = s.home ∧ s'.table = s.table)
    (htidy : ∀ s ∈ sessions, SessionTidy toLower st.tableGenerations st.calls s) :
    Tidy toLower { st with sessions := sessions } := { h with
  entries name entry hlookup := by
    have hentry := h.entries name entry hlookup
    refine ⟨hentry.generation, fun id hid => ?_⟩
    obtain ⟨s, hs, hhome, hcurrent⟩ := hentry.idle id hid
    obtain ⟨s', hs', hhome', htable'⟩ := hkeeps id s hs
    exact ⟨s', hs', hhome' ▸ hhome, htable' ▸ hcurrent⟩
  sessions := htidy
  returning call hcall := by
    obtain ⟨s, hs, hhome⟩ := h.returning call hcall
    obtain ⟨s', hs', hhome', -⟩ := hkeeps call.session s hs
    exact ⟨s', hs', hhome' ▸ hhome⟩ }

variable {s : PoolSession}

/-- A session of the table gets the generation of the table. -/
theorem Tidy.regenerate {id : ℕ} (hs : st.sessions[id]? = some s) {generation : ℕ}
    (hgeneration : generation = generationIn toLower st.tableGenerations s.home)
    (hcurrent : Current toLower st.calls s.home s.table.loadedAt) :
    Tidy toLower { st with sessions := st.sessions.modify id fun s =>
      { s with generation := generation } } := by
  apply h.with_sessions
  · intro id' s' hs'
    rw [getElem?_modify, hs']
    exact ⟨_, rfl, by split <;> rfl, by split <;> rfl⟩
  · intro s' hs'
    obtain ⟨id', hid'⟩ := mem_iff_getElem?.mp hs'
    rw [getElem?_modify] at hid'
    obtain ⟨s'', hs'', heq⟩ := map_eq_some_iff.mp hid'
    by_cases hid : id = id'
    · subst hid
      cases hs.symm.trans hs''
      rw [if_pos rfl] at heq
      subst heq
      exact ⟨Nat.le_of_eq hgeneration, fun _ => hcurrent⟩
    · rw [if_neg hid] at heq
      subst heq
      exact h.sessions s'' (mem_of_getElem? hs'')

theorem Tidy.with_session (hs : SessionTidy toLower st.tableGenerations st.calls s) :
    Tidy toLower { st with sessions := st.sessions ++ [s] } := by
  apply h.with_sessions
  · intro id s' hs'
    refine ⟨s', ?_, rfl, rfl⟩
    rw [List.getElem?_append_left (List.getElem?_eq_some_iff.mp hs').1, hs']
  · exact forall_mem_append.mpr ⟨h.sessions, forall_mem_singleton.mpr hs⟩

theorem Tidy.with_cache {cache : TableCacheMap} (hcache : CacheTidy toLower st cache) :
    Tidy toLower { st with tableCache := cache } :=
  { h with cached := hcache }

theorem Tidy.with_permits (semaphores : ℕ) (lent : List ℕ) :
    Tidy toLower { st with semaphores := semaphores, lent := lent } :=
  { h with }

section

variable {schemas : Schemas} {buffered : Bool}
  (hturn : InTurn toLower st (.borrow name schemas buffered))

include hturn

/-- The table of a session that is opened in turn is current. -/
theorem Tidy.current_opened {t : CachedTable}
    (ht : (openSession st.clock schemas buffered st.tableCache name).1 = some t) :
    Current toLower st.calls name t.loadedAt := by
  rcases openSession_eq_some ht with hcached | hnow
  · rcases hturn with hnone | hpending
    · cases hcached.symm.trans hnone
    · rcases h.cached name t hcached with hcurrent | ⟨call, hcall, hkey⟩
      · exact hcurrent
      · exact absurd hkey (hpending call hcall)
  · rw [hnow]
    exact h.current_clock name

/-- `Borrow` in turn keeps the pool tidy, and what it lends is current. -/
theorem Tidy.borrow :
    Tidy toLower (borrow toLower name schemas buffered st).1 ∧
      ∀ id s, (borrow toLower name schemas buffered st).2 = .session id →
        (borrow toLower name schemas buffered st).1.sessions[id]? = some s →
          Current toLower st.calls name s.table.loadedAt := by
  have hentry := h.entry name
  fun_cases Pool.borrow toLower name schemas buffered st
  case case1 => exact ⟨h.with_entry hentry, fun id s hlent => nomatch hlent⟩
  case case2 cp _ id pool hpool =>
    obtain ⟨s, hs, hhome, hcurrent⟩ := hentry.idle id (hpool ▸ mem_cons_self)
    have hgeneration := hentry.generation.trans (generationIn_congr _ hhome.symm)
    refine ⟨Tidy.with_permits (Tidy.regenerate (h.with_entry ?_) hs hgeneration
      (hcurrent.congr hhome.symm)) _ _, fun id' s' hlent hs' => ?_⟩
    · exact ⟨hentry.generation, fun id' hid' => hentry.idle id' (hpool ▸ mem_cons_of_mem _ hid')⟩
    · cases hlent
      simp only [getElem?_modify, hs, Option.map_eq_map, Option.map_some,
        Option.some.injEq, if_true] at hs'
      subst hs'
      exact hcurrent
  all_goals
    have hcache : CacheTidy toLower st
        (openSession st.clock schemas buffered st.tableCache name).2 :=
      h.cacheTidy fun key t => lookup_openSession
  case case3 =>
    exact ⟨((h.with_entry hentry).with_cache hcache).with_permits _ _,
      fun id s hlent => nomatch hlent⟩
  case case4 cp _ _ opened table hopen =>
    have hcurrent := h.current_opened hturn hopen
    refine ⟨Tidy.with_permits (Tidy.with_session ((h.with_entry hentry).with_cache hcache) ?_) _ _,
      fun id s hlent hs => ?_⟩
    · exact ⟨Nat.le_of_eq hentry.generation, fun _ => hcurrent⟩
    · cases hlent
      simp only [getElem?_concat_length, some.injEq] at hs
      subst hs
      exact hcurrent

end

theorem Tidy.finishReturn {call : ReturnCall} (flushed : Bool)
    (hs : st.sessions[call.session]? = some s)
    (hhome : sessionPoolTableKey toLower call.tableName = sessionPoolTableKey toLower s.home) :
    Tidy toLower (finishReturn toLower call flushed st) := by
  unfold Pool.finishReturn
  split
  next => exact h.with_permits _ _
  next hfresh =>
    have hgeneration : s.generation = generationIn toLower st.tableGenerations call.tableName := by
      simp only [hs, all_some, Bool.or_eq_true, not_or, decide_eq_true_eq, not_not] at hfresh
      exact hfresh.2
    have hcurrent := (h.sessions s (mem_of_getElem? hs)).current
      (hgeneration.trans (generationIn_congr _ hhome))
    have hentry := h.entry call.tableName
    refine Tidy.with_permits (Tidy.regenerate (h.with_entry ?_) hs
      (hentry.generation.trans (generationIn_congr _ hhome)) hcurrent) _ _
    refine ⟨hentry.generation, ?_⟩
    dsimp only
    split
    · exact forall_mem_append.mpr ⟨hentry.idle, forall_mem_singleton.mpr
        ⟨s, hs, hhome.symm, hcurrent.congr hhome.symm⟩⟩
    · exact hentry.idle

theorem Tidy.with_returning {returning : List ReturnCall}
    (hreturning : ∀ call ∈ returning, ∃ s, st.sessions[call.session]? = some s ∧
      sessionPoolTableKey toLower call.tableName = sessionPoolTableKey toLower s.home) :
    Tidy toLower { st with returning := returning } :=
  { h with returning := hreturning }

theorem Tidy.returnBegin {id : ℕ} (hturn : InTurn toLower st (.returnBegin name id)) :
    Tidy toLower (returnBegin toLower name id st) := by
  unfold Pool.returnBegin
  split
  next => exact h
  next s hs =>
    exact h.with_returning (forall_mem_append.mpr
      ⟨h.returning, forall_mem_singleton.mpr ⟨s, hs, hturn s hs⟩⟩)

theorem Tidy.returnEnd (i : ℕ) (flushed : Bool) :
    Tidy toLower (returnEnd toLower i flushed st) := by
  unfold Pool.returnEnd
  split
  next => exact h
  next call hcall =>
    obtain ⟨s, hs, hhome⟩ := h.returning call (mem_of_getElem? hcall)
    have hrest : Tidy toLower { st with returning := st.returning.eraseIdx i } :=
      h.with_returning fun call' hcall' => h.returning call' (mem_of_mem_eraseIdx hcall')
    exact hrest.finishReturn flushed hs hhome

end

theorem generationIn_raised (generations : GoMap GoString ℕ) (name name' : GoString) :
    generationIn toLower (generations.insert (sessionPoolTableKey toLower name)
        ((generations.lookup (sessionPoolTableKey toLower name)).getD 0 + 1)) name' =
      if sessionPoolTableKey toLower name' = sessionPoolTableKey toLower name then
        generationIn toLower generations name' + 1
      else generationIn toLower generations name' := by
  unfold generationIn
  rw [lookup_insert]
  split
  next heq => rw [heq, getD_some]
  next => rfl

/-- An invalidation of another table does not matter. -/
theorem Current.cons {calls : List Invalidation} {time : ℕ} (h : Current toLower calls name time)
    {call : Invalidation}
    (hne : sessionPoolTableKey toLower name ≠ sessionPoolTableKey toLower call.tableName) :
    Current toLower (call :: calls) name time :=
  forall_mem_cons.mpr ⟨fun hkey => absurd hkey.symm hne, h⟩

theorem Tidy.invalidateBegin (h : Tidy toLower st)
    (hturn : InTurn toLower st (.invalidateBegin name)) :
    Tidy toLower (invalidateBegin toLower name st) := by
  unfold Pool.invalidateBegin
  simp only [if_neg hturn]
  exact { h with
    times := forall_mem_cons.mpr ⟨Nat.le_refl _, h.times⟩
    cached name' t ht := by
      by_cases hkey : sessionPoolTableKey toLower name' = sessionPoolTableKey toLower name
      · exact .inr ⟨⟨name, st.clock⟩, mem_cons_self, hkey.symm⟩
      · rcases h.cached name' t ht with hcurrent | ⟨call, hcall, hcallKey⟩
        · exact .inl (hcurrent.cons hkey)
        · exact .inr ⟨call, mem_cons_of_mem _ hcall, hcallKey⟩
    entries name' entry hlookup := by
      rw [lookup_restrict] at hlookup
      split at hlookup
      next hkey =>
        have hne := of_decide_eq_true hkey
        have hentry := h.entries name' entry hlookup
        refine ⟨?_, fun id hid => ?_⟩
        · rw [generationIn_raised, if_neg hne]
          exact hentry.generation
        · obtain ⟨s, hs, hhome, hcurrent⟩ := hentry.idle id hid
          exact ⟨s, hs, hhome, hcurrent.cons hne⟩
      next => cases hlookup
    sessions s hs := by
      have hsession := h.sessions s hs
      have hle := hsession.le
      constructor <;> rw [generationIn_raised] <;> split_ifs with hkey
      · omega
      · exact hle
      · -- The session is of an older generation now.
        intro hgeneration
        omega
      · exact fun hgeneration => (hsession.current hgeneration).cons hkey }

theorem Tidy.invalidateEnd (h : Tidy toLower st) (i : ℕ) :
    Tidy toLower (invalidateEnd toLower i st) := by
  unfold Pool.invalidateEnd
  split
  next => exact h
  next call hcall =>
    -- The calls that have begun are the same.
    have hcalls : ∀ call' ∈ st.invalidating.eraseIdx i ++ call :: st.invalidated, call' ∈ st.calls :=
      forall_mem_append.mpr ⟨fun _ hcall' => mem_append_left _ (mem_of_mem_eraseIdx hcall'),
        forall_mem_cons.mpr ⟨mem_append_left _ (mem_of_getElem? hcall), fun _ => mem_append_right _⟩⟩
    have hcurrent : ∀ {name : GoString} {time : ℕ}, Current toLower st.calls name time →
        Current toLower (st.invalidating.eraseIdx i ++ call :: st.invalidated) name time :=
      fun hcurrent call' hcall' => hcurrent call' (hcalls call' hcall')
    exact { h with
      times call' hcall' := h.times call' (hcalls call' hcall')
      cached name t ht := by
        rw [lookup_restrict] at ht
        split at ht
        next hkey =>
          have hne := of_decide_eq_true (Bool.and_eq_true_iff.mp hkey).1
          rcases h.cached name t ht with hcur | ⟨call', hcall', hkey'⟩
          · exact .inl (hcurrent hcur)
          refine .inr ⟨call', ?_, hkey'⟩
          obtain ⟨j, hj⟩ := mem_iff_getElem?.mp hcall'
          have hji : j ≠ i := by
            rintro rfl
            cases hcall.symm.trans hj
            exact hne hkey'.symm
          exact mem_eraseIdx_iff_getElem?.mpr ⟨j, hji, hj⟩
        next => cases ht
      entries name entry hlookup := by
        have hentry := h.entries name entry hlookup
        refine ⟨hentry.generation, fun id hid => ?_⟩
        obtain ⟨s, hs, hhome, hcur⟩ := hentry.idle id hid
        exact ⟨s, hs, hhome, hcurrent hcur⟩
      sessions s hs :=
        ⟨(h.sessions s hs).le, fun hgeneration => hcurrent ((h.sessions s hs).current hgeneration)⟩ }

theorem Tidy.recover (h : Tidy toLower st) : Tidy toLower (recover st) := { h with
  entries name entry hlookup := by
    simp only [Pool.recover, lookup_mapValues] at hlookup
    obtain ⟨entry', hentry', rfl⟩ := map_eq_some_iff.mp hlookup
    exact ⟨(h.entries name entry' hentry').generation, fun _ hid => nomatch hid⟩ }

theorem clock_criticalSection (st : PoolState) (e : PoolEvent) :
    (criticalSection toLower st e).clock = st.clock := by
  cases e <;> simp only [criticalSection, borrow, returnBegin, returnEnd, finishReturn,
    invalidateBegin, invalidateEnd]
  all_goals repeat' split
  all_goals rfl

theorem Tidy.poolStep (h : Tidy toLower st) {e : PoolEvent} (hturn : InTurn toLower st e) :
    Tidy toLower (poolStep toLower st e) := by
  have hsection : Tidy toLower (criticalSection toLower st e) := by
    cases e with
    | borrow name schemas buffered => exact (h.borrow hturn).1
    | returnBegin name id => exact h.returnBegin hturn
    | returnEnd i flushed => exact h.returnEnd i flushed
    | invalidateBegin name => exact h.invalidateBegin hturn
    | invalidateEnd i => exact h.invalidateEnd i
    | recover => exact h.recover
    | load name schemas => exact h.with_cache (h.cacheTidy fun key t => lookup_loadTable)
  exact { hsection with
    times call hcall := by
      have hbegan := hsection.times call hcall
      rw [clock_criticalSection] at hbegan
      exact Nat.le_succ_of_le hbegan }

end

/-! ## Runs -/

theorem tidy_newSessionPool (poolSize : ℕ) (tableCache : TableCacheMap) :
    Tidy toLower (newSessionPool poolSize tableCache) where
  times := nofun
  cached _ _ _ := .inl nofun
  entries := nofun
  sessions := nofun
  returning := nofun

/-- In every run whose events come in turn, a session that is lent after an invalidation of its table
has returned was opened on a table that was loaded after the invalidation began. -/
theorem borrow_after_invalidation (toLower : GoString → GoString) (poolSize : ℕ)
    (tableCache : TableCacheMap) (es : List PoolEvent) (tableName : GoString) (schemas : Schemas)
    (buffered : Bool)
    (hes : Meets (poolStep toLower) (InTurn toLower) (newSessionPool poolSize tableCache)
      (es ++ [.borrow tableName schemas buffered])) {id : ℕ} {s : PoolSession} :
    let st := exec (poolStep toLower) (newSessionPool poolSize tableCache) es
    let lent := borrow toLower tableName schemas buffered st
    lent.2 = .session id → lent.1.sessions[id]? = some s →
      ∀ call ∈ st.invalidated,
        sessionPoolTableKey toLower call.tableName = sessionPoolTableKey toLower tableName →
          call.began ≤ s.table.loadedAt := by
  intro st lent hlent hs call hcall hkey
  obtain ⟨hbefore, hturn, -⟩ := (meets_append (poolStep toLower)).mp hes
  have htidy : Tidy toLower st := exec_induction (poolStep toLower)
    (fun _ _ h hturn => h.poolStep hturn) (tidy_newSessionPool poolSize tableCache) hbefore
  exact (htidy.borrow hturn).2 id s hlent hs call (mem_append_right _ hcall) hkey

/-- A session is opened after the pool has been drained and before the cache has, and goes back. -/
def betweenSections : List PoolEvent :=
  [.load (ascii "orders") (oneTable "orders"), .invalidateBegin (ascii "Orders"),
    .borrow (ascii "orders") (oneTable "orders") true, .invalidateEnd 0,
    .returnBegin (ascii "orders") 0, .returnEnd 0 true]

/-- `strings.ToLower` on the letters of ASCII. -/
def lowerAscii (s : GoString) : GoString :=
  s.map fun b => if 65 ≤ b ∧ b ≤ 90 then b + 32 else b

/-- The invalidation began at time 1 and has returned, and a later borrow lends a session whose table
was loaded at time 0. -/
theorem borrow_between_sections :
    let st := exec (poolStep lowerAscii) (newSessionPool 1 ∅) betweenSections
    let lent := borrow lowerAscii (ascii "orders") (oneTable "orders") true st
    st.invalidated.map Invalidation.began = [1] ∧ lent.2 = .session 0 ∧
      (lent.1.sessions[0]?).map (fun s => s.table.loadedAt) = some 0 := by
  decide

/-- The same calls, with the borrow after the invalidation. -/
def afterSections : List PoolEvent :=
  [.load (ascii "orders") (oneTable "orders"), .invalidateBegin (ascii "Orders"),
    .invalidateEnd 0, .borrow (ascii "orders") (oneTable "orders") true,
    .returnBegin (ascii "orders") 0, .returnEnd 0 true]

theorem borrow_after_sections :
    let st := exec (poolStep lowerAscii) (newSessionPool 1 ∅) afterSections
    let lent := borrow lowerAscii (ascii "orders") (oneTable "orders") true st
    lent.2 = .session 0 ∧ ∀ s, lent.1.sessions[0]? = some s →
      ∀ call ∈ st.invalidated, sessionPoolTableKey lowerAscii call.tableName =
        sessionPoolTableKey lowerAscii (ascii "orders") → call.began ≤ s.table.loadedAt := by
  refine ⟨?lent, fun s hs =>
    borrow_after_invalidation lowerAscii 1 ∅ afterSections _ _ _ ?turn ?lent hs⟩
  case lent | turn => decide

end Pool
end QuantaStream.Core
