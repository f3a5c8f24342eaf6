import QuantaStream.Core.PrimaryKey
import QuantaStream.Lib.Run

/-!
# One column for each primary key

A session that verifies existing keys is meant to give every primary key one column: a key put
before is found again, in the batch or in the index.  The session also remembers that a domain was
empty when it first looked, and does not forget it when it flushes rows into the domain; and its
readers may answer from values that they read earlier and keep.  This module proves that keys and
columns correspond one to one in every history in which no put relies on such a stale memory.
-/

namespace QuantaStream.Core

open List AList Option GoMap Run

variable {K : Type}

/-! ## Keys and domains -/

/-- Two states differ in their domain states only. -/
structure SameKeys (s t : KeyState K) : Prop where
  identity : t.batchPrimaryKeyIdentity = s.batchPrimaryKeyIdentity
  staged : t.staged = s.staged
  stored : t.stored = s.stored

theorem SameKeys.refl (s : KeyState K) : SameKeys s s := ⟨rfl, rfl, rfl⟩

theorem SameKeys.trans {s t u : KeyState K} (h : SameKeys s t) (h' : SameKeys t u) : SameKeys s u :=
  ⟨h'.identity.trans h.identity, h'.staged.trans h.staged, h'.stored.trans h.stored⟩

variable (table : KeyTable K)

theorem sameKeys_markNonEmpty (k : K) (s : KeyState K) :
    SameKeys s (markDomainState .authority .nonEmpty
      (markDomainState (.shard (table.codec.shard k)) .nonEmpty s)) :=
  ⟨rfl, rfl, rfl⟩

/-- The domain of a key is taken to be empty: it was seen to be empty, or the backend sees it. -/
def TakenForEmpty (s : KeyState K) (k : K) : Prop :=
  s.primaryKeyDomainStates.lookup (.shard (table.codec.shard k)) ≠ some .nonEmpty ∧
    s.primaryKeyDomainStates.lookup .authority ≠ some .nonEmpty ∧
    (s.primaryKeyDomainStates.lookup (.shard (table.codec.shard k)) = some .empty ∨
      table.probes = true ∧ primaryKeyDomainState table s.stored k = .empty)

/-- The lookup of a key is skipped if its domain is taken to be empty.  What the backend sees is
noted. -/
theorem shouldSkip_cases (req : ResolveRequest K) (s : KeyState K) :
    ((shouldSkipLookupForEmptyDomain table req s).1 = true ↔
      req.primaryKeyMode ≠ .assumeNew ∧ TakenForEmpty table s req.key) ∧
    ((shouldSkipLookupForEmptyDomain table req s).2 = s ∨
      primaryKeyDomainState table s.stored req.key = .empty ∧
        shouldSkipLookupForEmptyDomain table req s =
          (true, markDomainState (.shard (table.codec.shard req.key)) .empty s) ∨
      (shouldSkipLookupForEmptyDomain table req s).2 = markDomainState .authority .nonEmpty
        (markDomainState (.shard (table.codec.shard req.key)) .nonEmpty s)) := by
  unfold shouldSkipLookupForEmptyDomain TakenForEmpty
  dsimp only
  split_ifs with hmode hnonEmpty hauthority hempty hprobes
  · exact ⟨by simp [hmode], .inl rfl⟩
  · exact ⟨by simp [hnonEmpty], .inl rfl⟩
  · exact ⟨by simp [hauthority], .inl rfl⟩
  · exact ⟨by simp [hmode, hauthority, hempty], .inl rfl⟩
  · exact ⟨by simp_all, .inl rfl⟩
  · cases hstate : primaryKeyDomainState table s.stored req.key with
    | unknown => exact ⟨by simp [hempty], .inl rfl⟩
    | empty => exact ⟨by simp_all, .inr (.inl ⟨rfl, rfl⟩)⟩
    | nonEmpty => exact ⟨by simp [hempty], .inr (.inr rfl)⟩

theorem sameKeys_shouldSkip (req : ResolveRequest K) (s : KeyState K) :
    SameKeys s (shouldSkipLookupForEmptyDomain table req s).2 := by
  rcases (shouldSkip_cases table req s).2 with h | ⟨-, h⟩ | h <;> rw [h]
  · exact .refl s
  · exact ⟨rfl, rfl, rfl⟩
  · exact sameKeys_markNonEmpty table req.key s

theorem identity_stagePrimaryKey (k : K) (c : ℕ) (s : KeyState K) :
    (stagePrimaryKey table k c s).batchPrimaryKeyIdentity = s.batchPrimaryKeyIdentity := by
  unfold stagePrimaryKey
  split_ifs <;> rfl

variable {table : KeyTable K} {k : K}

/-- The columns that store a key. -/
theorem mem_lookupPrimaryKey {stored : KeyStore} {c : ℕ} :
    c ∈ lookupPrimaryKey table stored k ↔ stored.lookup c = some (table.codec.entry k) := by
  rw [← GoMap.mem_range, lookupPrimaryKey, mem_filterMap]
  constructor
  · rintro ⟨⟨c', v⟩, hmem, hif⟩
    split_ifs at hif with hv
    injection hif with hc
    subst hc hv
    exact hmem
  · intro hmem
    exact ⟨(c, table.codec.entry k), hmem, if_pos rfl⟩

/-- A domain that is probed as empty stores no key. -/
theorem not_stored_of_probe_empty {stored : KeyStore}
    (h : primaryKeyDomainState table stored k = .empty) (c : ℕ) :
    stored.lookup c ≠ some (table.codec.entry k) := by
  intro hc
  have hany : (stored.range .asKept).any (fun e => e.2.1 = table.codec.shard k) = true :=
    any_eq_true.mpr ⟨_, mem_range.mpr hc, by simp [KeyCodec.entry]⟩
  rw [primaryKeyDomainState, if_pos hany] at h
  cases h

variable [DecidableEq K]

/-! ## Histories -/

/-- The values that the readers of the backend answer from: those of the index, or those that a
`StandardBSIProjectionCache` has kept since an earlier read.  Keys are searched in the first, and
domains are counted in the second. -/
structure KeyReaders where
  searched : KeyStore
  probed : KeyStore

/-- What a resolver works on: the domain of the key has been probed, if it has to be, and the key
would be searched in the values of its reader. -/
def KeyState.readBy (s : KeyState K) (table : KeyTable K) (req : ResolveRequest K)
    (readers : KeyReaders) : KeyState K :=
  let probed :=
    if table.shouldLookup ∧ s.batchPrimaryKeyIdentity.lookup req.key = none then
      (shouldSkipLookupForEmptyDomain table req { s with stored := readers.probed }).2
    else s
  { probed with stored := readers.searched }

/-- A step of a session on one table.  Puts, and the lookups that rows of child tables make, come
with what the allocator would return and with their readers. -/
inductive KeyEvent (K : Type) where
  | put (key : K) (next : Except String ℕ) (readers : KeyReaders)
  | lookup (key : K) (next : Except String ℕ) (readers : KeyReaders)
  | send
  | flush

/-- The memories of a session and the keys its puts have resolved so far. -/
structure KeyHistory (K : Type) where
  keys : KeyState K
  resolved : List (K × ResolveResult) := []

variable (table : KeyTable K)

def keyStep (h : KeyHistory K) : KeyEvent K → KeyHistory K
  | .put key next readers =>
    let result := putKey table { key := key } next (h.keys.readBy table { key := key } readers)
    let keys := { result.2 with stored := h.keys.stored }
    match result.1 with
    | .ok r => ⟨keys, h.resolved ++ [(key, r)]⟩
    | .error _ => { h with keys := keys }
  | .lookup key next readers =>
    let req : ResolveRequest K := { key := key, lookupOnly := true }
    let keys := (resolvePrimaryKeyColumnID table req next (h.keys.readBy table req readers)).2
    { h with keys := { keys with stored := h.keys.stored } }
  | .send => { h with keys := sendStaged h.keys }
  | .flush => { h with keys := flushKeys h.keys }

/-- The session believes that the domain of a key is empty although the key is stored. -/
def StaleEmpty (s : KeyState K) (k : K) : Prop :=
  s.batchPrimaryKeyIdentity.lookup k = none ∧
    s.primaryKeyDomainStates.lookup (.shard (table.codec.shard k)) = some .empty ∧
    s.primaryKeyDomainStates.lookup .authority ≠ some .nonEmpty ∧
    ∃ c, s.stored.lookup c = some (table.codec.entry k)

/-- The allocator returns a column that is neither stored nor staged. -/
def FreshColumn (s : KeyState K) (next : Except String ℕ) : Prop :=
  ∀ c, next = .ok c → s.stored.lookup c = none ∧ s.staged.lookup c = none

/-- A key outside the batch is in the searched values exactly where it is stored. -/
def FoundAsStored (s : KeyState K) (readers : KeyReaders) (k : K) : Prop :=
  s.batchPrimaryKeyIdentity.lookup k = none → ∀ c,
    readers.searched.lookup c = some (table.codec.entry k) ↔
      s.stored.lookup c = some (table.codec.entry k)

/-- The condition on a step: allocated columns are fresh, no put relies on a stale memory of an
empty domain or on stale values of its reader, and no parent lookup of a key outside the batch takes
its domain to be empty. -/
def KeyStepOk (h : KeyHistory K) : KeyEvent K → Prop
  | .put key next readers => FreshColumn h.keys next ∧ FoundAsStored table h.keys readers key ∧
      ¬ StaleEmpty table
        { h.keys.readBy table { key := key } readers with stored := h.keys.stored } key
  | .lookup key _ readers =>
    let req : ResolveRequest K := { key := key, lookupOnly := true }
    h.keys.batchPrimaryKeyIdentity.lookup key = none →
      (shouldSkipLookupForEmptyDomain table req (h.keys.readBy table req readers)).1 = false
  | .send => True
  | .flush => True

/-! ## What a step does -/

variable {table : KeyTable K} {k : K} {s : KeyState K}

/-- A put that skips the lookup, and does not rely on a stale memory, is of a key that is not
stored. -/
theorem not_stored_of_skip (req : ResolveRequest K)
    (hmiss : s.batchPrimaryKeyIdentity.lookup req.key = none)
    (hstale : ¬ StaleEmpty table s req.key)
    (hskip : (shouldSkipLookupForEmptyDomain table req s).1 = true) (c : ℕ) :
    s.stored.lookup c ≠ some (table.codec.entry req.key) := by
  rcases ((shouldSkip_cases table req s).1.mp hskip).2 with ⟨-, hauthority, hempty | ⟨-, hprobe⟩⟩
  · exact fun hc => hstale ⟨hmiss, hempty, hauthority, c, hc⟩
  · exact not_stored_of_probe_empty hprobe c

/-- A key that is not in the batch gets a new column, or it is looked up. -/
theorem resolve_of_miss (hlookup : table.shouldLookup = true) (req : ResolveRequest K)
    (hmiss : s.batchPrimaryKeyIdentity.lookup req.key = none) (next : Except String ℕ) :
    resolvePrimaryKeyColumnID table req next s =
      if req.primaryKeyMode = .assumeNew ∨ (shouldSkipLookupForEmptyDomain table req s).1 then
        allocateAndStage table req next (shouldSkipLookupForEmptyDomain table req s).2
      else lookupAndAllocate table req next (shouldSkipLookupForEmptyDomain table req s).2 := by
  simp only [resolvePrimaryKeyColumnID, hlookup, hmiss, Bool.not_true, Bool.false_eq_true, if_false]
  split_ifs <;> simp_all

/-- What a put of a key can do to the keys of a session. -/
inductive PutOutcome (table : KeyTable K) (k : K) (next : Except String ℕ) (s : KeyState K) :
    Except String ResolveResult → KeyState K → Prop
  /-- The key is in the batch. -/
  | hit {c : ℕ} {t : KeyState K} (hc : s.batchPrimaryKeyIdentity.lookup k = some c)
      (ht : SameKeys s t) : PutOutcome table k next s (.ok ⟨c, true⟩) t
  /-- The key is not in the batch, and one column stores it. -/
  | found {c : ℕ} {t : KeyState K} (hmiss : s.batchPrimaryKeyIdentity.lookup k = none)
      (hc : ∀ c', s.stored.lookup c' = some (table.codec.entry k) ↔ c' = c)
      (ht : SameKeys s t) : PutOutcome table k next s (.ok ⟨c, true⟩) t
  /-- The key is new and gets the allocated column. -/
  | new {c : ℕ} {t : KeyState K} (hmiss : s.batchPrimaryKeyIdentity.lookup k = none)
      (hc : ∀ c', s.stored.lookup c' ≠ some (table.codec.entry k)) (hnext : next = .ok c)
      (hidentity : t.batchPrimaryKeyIdentity = s.batchPrimaryKeyIdentity.insert k c)
      (hstaged : ∀ c', t.staged.lookup c' =
        if c' = c then some (table.codec.entry k) else s.staged.lookup c')
      (hstored : t.stored = s.stored) : PutOutcome table k next s (.ok ⟨c, false⟩) t
  /-- The put is refused. -/
  | failed {e : String} {t : KeyState K} (ht : SameKeys s t) :
      PutOutcome table k next s (.error e) t

/-- A key that is neither known nor stored gets a new column. -/
theorem putOutcome_allocate {next : Except String ℕ}
    {s t : KeyState K} (ht : SameKeys s t) (hmiss : s.batchPrimaryKeyIdentity.lookup k = none)
    (hc : ∀ c', s.stored.lookup c' ≠ some (table.codec.entry k))
    (hresolve : resolvePrimaryKeyColumnID table { key := k } next s =
      allocateAndStage table { key := k } next t) :
    PutOutcome table k next s (putKey table { key := k } next s).1
      (putKey table { key := k } next s).2 := by
  unfold putKey
  rw [hresolve]
  unfold allocateAndStage allocatePrimaryKeyColumnID
  cases hnext : next with
  | error e => exact .failed ht
  | ok c =>
    have hmiss' : (stagePrimaryKey table k c t).batchPrimaryKeyIdentity.lookup k = none := by
      rw [identity_stagePrimaryKey, ht.identity, hmiss]
    simp only [ne_eq, not_true_eq_false, if_false, Bool.false_eq_true]
    refine .new hmiss hc rfl ?_ (fun c' => ?_) ?_
    · simp only [setPrimaryKeyIdentity, identity_stagePrimaryKey, ht.identity, hmiss]
    · simp only [setPrimaryKeyIdentity, hmiss', ← ht.staged]
      unfold stagePrimaryKey
      by_cases hc' : c' = c
      · subst hc'
        simp
      · split_ifs <;> simp [hc']
    · simp only [setPrimaryKeyIdentity, hmiss']
      unfold stagePrimaryKey
      split_ifs <;> exact ht.stored

/-- A put that does not rely on a stale memory finds its key or makes it known. -/
theorem putKey_outcome (hlookup : table.shouldLookup = true) {next : Except String ℕ}
    (hstale : ¬ StaleEmpty table s k) :
    PutOutcome table k next s (putKey table { key := k } next s).1
      (putKey table { key := k } next s).2 := by
  cases hidentity : s.batchPrimaryKeyIdentity.lookup k with
  | some c =>
    have hresolve : resolvePrimaryKeyColumnID table { key := k } next s =
        (.ok ⟨c, true⟩, s) := by
      simp [resolvePrimaryKeyColumnID, hlookup, hidentity]
    simp only [putKey, hresolve, if_true]
    exact .hit hidentity (.refl s)
  | none =>
    have hsame := sameKeys_shouldSkip table { key := k } s
    have hskipped := not_stored_of_skip { key := k } hidentity hstale
    have hresolve := resolve_of_miss hlookup { key := k } hidentity next
    generalize shouldSkipLookupForEmptyDomain table { key := k } s = skip at *
    obtain ⟨domainSkip, t⟩ := skip
    cases domainSkip with
    | true => exact putOutcome_allocate hsame hidentity (hskipped rfl) (by simpa using hresolve)
    | false =>
      unfold lookupAndAllocate at hresolve
      rw [hsame.stored] at hresolve
      match hmatched : lookupPrimaryKey table s.stored k with
      | [] =>
        rw [hmatched] at hresolve
        refine putOutcome_allocate hsame hidentity (fun c hc => ?_) hresolve
        have := mem_lookupPrimaryKey.mpr hc
        rw [hmatched] at this
        cases this
      | [c] =>
        simp only [hmatched] at hresolve
        simp only [putKey, hresolve]
        refine .found hidentity (fun c' => ?_)
          (hsame.trans (sameKeys_markNonEmpty table k t))
        rw [← mem_lookupPrimaryKey, hmatched, mem_singleton]
      | c :: c' :: rest =>
        simp only [hmatched] at hresolve
        simp only [putKey, hresolve]
        exact .failed hsame

/-- What the readers answer changes nothing but domain states. -/
theorem sameKeys_readBy (table : KeyTable K) (req : ResolveRequest K) (readers : KeyReaders)
    (s : KeyState K) : SameKeys s { s.readBy table req readers with stored := s.stored } := by
  have hsame := sameKeys_shouldSkip table req { s with stored := readers.probed }
  unfold KeyState.readBy
  dsimp only
  split_ifs
  · exact ⟨hsame.identity, hsame.staged, rfl⟩
  · exact .refl s

/-- A put whose readers find the key where it is stored does what it would do on the index. -/
theorem putKey_readBy_outcome (hlookup : table.shouldLookup = true) {next : Except String ℕ}
    {readers : KeyReaders} (hfound : FoundAsStored table s readers k)
    (hstale : ¬ StaleEmpty table
      { s.readBy table { key := k } readers with stored := s.stored } k) :
    PutOutcome table k next s (putKey table { key := k } next (s.readBy table { key := k } readers)).1
      { (putKey table { key := k } next (s.readBy table { key := k } readers)).2 with
        stored := s.stored } := by
  have hsame := sameKeys_readBy table { key := k } readers s
  have hsearched : (s.readBy table { key := k } readers).stored = readers.searched := rfl
  generalize s.readBy table { key := k } readers = s' at *
  have hidentity : s'.batchPrimaryKeyIdentity = s.batchPrimaryKeyIdentity := hsame.identity
  have hstaged : s'.staged = s.staged := hsame.staged
  have hstale' : ¬ StaleEmpty table s' k := by
    rintro ⟨hmiss, hempty, hauthority, c, hc⟩
    exact hstale ⟨hmiss, hempty, hauthority, c,
      (hfound (hidentity ▸ hmiss) c).mp (hsearched ▸ hc)⟩
  have houtcome : PutOutcome table k next s' _ _ := putKey_outcome hlookup hstale'
  generalize putKey table { key := k } next s' = out at houtcome ⊢
  obtain ⟨res, t⟩ := out
  have hback : SameKeys s' t → SameKeys s { t with stored := s.stored } := fun ht =>
    ⟨ht.identity.trans hidentity, ht.staged.trans hstaged, rfl⟩
  cases houtcome with
  | hit hc ht => exact .hit (hidentity ▸ hc) (hback ht)
  | found hmiss hc ht =>
    rw [hidentity] at hmiss
    exact .found hmiss (fun c' => (hfound hmiss c').symm.trans (hsearched ▸ hc c')) (hback ht)
  | new hmiss hc hnext hnew hput hstored =>
    rw [hidentity] at hmiss
    refine .new hmiss (fun c' hc' => hc c' ?_) hnext (hidentity ▸ hnew) (hstaged ▸ hput) rfl
    rw [hsearched]
    exact (hfound hmiss c').mpr hc'
  | failed ht => exact .failed (hback ht)

/-! ## The invariant -/

/-- A column holds a key: its value is staged or stored. -/
def Holds (table : KeyTable K) (s : KeyState K) (k : K) (c : ℕ) : Prop :=
  s.staged.lookup c = some (table.codec.entry k) ∨ s.stored.lookup c = some (table.codec.entry k)

/-- A later put of a key agrees with an earlier one: the same key has the same column and is
reported as existing, another key has another column. -/
def Agrees (first later : K × ResolveResult) : Prop :=
  (first.1 = later.1 → later.2.columnID = first.2.columnID ∧ later.2.existingRow = true) ∧
    (first.1 ≠ later.1 → later.2.columnID ≠ first.2.columnID)

/-- The invariant of the memories of a session and of the keys resolved so far. -/
structure KeysOk (table : KeyTable K) (h : KeyHistory K) : Prop where
  held : ∀ p ∈ h.resolved, Holds table h.keys p.1 p.2.columnID
  only : ∀ p ∈ h.resolved, ∀ c, Holds table h.keys p.1 c → c = p.2.columnID
  identity : ∀ k c, h.keys.batchPrimaryKeyIdentity.lookup k = some c →
    Holds table h.keys k c ∧ ∀ c', Holds table h.keys k c' → c' = c
  staged : ∀ c v, h.keys.staged.lookup c = some v → h.keys.stored.lookup c = none ∧
    ∃ k, v = table.codec.entry k ∧ h.keys.batchPrimaryKeyIdentity.lookup k = some c
  agrees : h.resolved.Pairwise Agrees

section

variable {table : KeyTable K} {h : KeyHistory K}

theorem keysOk_init (stored : KeyStore) : KeysOk table ⟨{ stored := stored }, []⟩ where
  held := nofun
  only := nofun
  identity := nofun
  staged := nofun
  agrees := List.Pairwise.nil

section

variable (hok : KeysOk table h)

include hok

/-- A column holds one key. -/
theorem KeysOk.key_eq {k k' : K} {c : ℕ} (hk : Holds table h.keys k c)
    (hk' : Holds table h.keys k' c) : k = k' := by
  refine table.codec.entry_injective ?_
  rcases hk with hk | hk <;> rcases hk' with hk' | hk'
  · exact some.inj (hk.symm.trans hk')
  · rw [(hok.staged c _ hk).1] at hk'
    cases hk'
  · rw [(hok.staged c _ hk').1] at hk
    cases hk
  · exact some.inj (hk.symm.trans hk')

theorem KeysOk.stored_of_miss {c : ℕ}
    (hmiss : h.keys.batchPrimaryKeyIdentity.lookup k = none) (hk : Holds table h.keys k c) :
    h.keys.stored.lookup c = some (table.codec.entry k) := by
  rcases hk with hk | hk
  · rcases (hok.staged c _ hk).2 with ⟨k', hentry, hidentity⟩
    rw [← table.codec.entry_injective hentry, hmiss] at hidentity
    cases hidentity
  · exact hk

theorem KeysOk.of_sameKeys {t : KeyState K} (ht : SameKeys h.keys t) :
    KeysOk table { h with keys := t } := by
  rcases ht with ⟨hidentity, hstaged, hstored⟩
  rcases hok with ⟨held, only, identity, staged, agrees⟩
  simp only [Holds, ← hidentity, ← hstaged, ← hstored] at held only identity staged
  exact ⟨held, only, identity, staged, agrees⟩

/-- A put finds its key. -/
theorem KeysOk.add_existing {c : ℕ} (hk : Holds table h.keys k c)
    (honly : ∀ c', Holds table h.keys k c' → c' = c) :
    KeysOk table { h with resolved := h.resolved ++ [(k, ⟨c, true⟩)] } := by
  refine ⟨forall_mem_append.mpr ⟨hok.held, forall_mem_singleton.mpr hk⟩,
    forall_mem_append.mpr ⟨hok.only, forall_mem_singleton.mpr honly⟩, hok.identity, hok.staged,
    pairwise_append.mpr ⟨hok.agrees, pairwise_singleton _ _, fun p hp =>
      forall_mem_singleton.mpr ⟨?_, fun hne heq => ?_⟩⟩⟩
  · rintro rfl
    exact ⟨hok.only p hp c hk, rfl⟩
  · have hc : c = p.2.columnID := heq
    exact hne (hok.key_eq (hok.held p hp) (hc ▸ hk))

/-- A put gives its key a fresh column. -/
theorem KeysOk.add_new {c : ℕ} {t : KeyState K}
    (hfresh : h.keys.stored.lookup c = none ∧ h.keys.staged.lookup c = none)
    (hmiss : h.keys.batchPrimaryKeyIdentity.lookup k = none)
    (hnew : ∀ c', h.keys.stored.lookup c' ≠ some (table.codec.entry k))
    (hidentity : t.batchPrimaryKeyIdentity = h.keys.batchPrimaryKeyIdentity.insert k c)
    (hstaged : ∀ c', t.staged.lookup c' =
      if c' = c then some (table.codec.entry k) else h.keys.staged.lookup c')
    (hstored : t.stored = h.keys.stored) : KeysOk table ⟨t, h.resolved ++ [(k, ⟨c, false⟩)]⟩ := by
  have hnone : ∀ c', ¬ Holds table h.keys k c' := fun c' hc' =>
    hnew c' (hok.stored_of_miss hmiss hc')
  have hunused : ∀ k', ¬ Holds table h.keys k' c := by simp [Holds, hfresh]
  have hholds : ∀ k' c', Holds table t k' c' ↔ (k' = k ∧ c' = c) ∨ Holds table h.keys k' c' := by
    intro k' c'
    unfold Holds
    rw [hstaged, hstored]
    by_cases hc : c' = c
    · subst hc
      simp only [hfresh, reduceCtorEq, or_false, if_true, and_true, some.injEq]
      exact ⟨fun heq => (table.codec.entry_injective heq).symm, fun heq => heq ▸ rfl⟩
    · simp [hc]
  have hother : ∀ p ∈ h.resolved, p.1 ≠ k := by
    rintro p hp rfl
    exact hnone _ (hok.held p hp)
  have hsole : Holds table t k c ∧ ∀ c', Holds table t k c' → c' = c :=
    ⟨(hholds k c).mpr (.inl ⟨rfl, rfl⟩), fun c' hc' =>
      ((hholds k c').mp hc').elim And.right fun hc' => absurd hc' (hnone c')⟩
  have hwas : ∀ k' c', k' ≠ k → Holds table t k' c' → Holds table h.keys k' c' :=
    fun k' c' hk' hc' => ((hholds k' c').mp hc').resolve_left fun heq => hk' heq.1
  refine ⟨forall_mem_append.mpr ⟨fun p hp => (hholds _ _).mpr (.inr (hok.held p hp)),
      forall_mem_singleton.mpr hsole.1⟩,
    forall_mem_append.mpr ⟨fun p hp c' hc' => hok.only p hp c' (hwas _ _ (hother p hp) hc'),
      forall_mem_singleton.mpr hsole.2⟩, fun k' c' hk' => ?_, fun c' v hv => ?_,
    pairwise_append.mpr ⟨hok.agrees, pairwise_singleton _ _, fun p hp =>
      forall_mem_singleton.mpr ⟨fun heq => absurd heq (hother p hp), fun _ heq => ?_⟩⟩⟩
  · rw [hidentity, lookup_insert] at hk'
    split_ifs at hk' with hk
    · subst hk
      obtain rfl := some.inj hk'
      exact hsole
    · rcases hok.identity k' c' hk' with ⟨hheld, honly⟩
      exact ⟨(hholds _ _).mpr (.inr hheld), fun c'' hc'' => honly c'' (hwas k' c'' hk hc'')⟩
  · rw [hstaged] at hv
    split_ifs at hv with hc
    · subst hc
      refine ⟨by rw [hstored]; exact hfresh.1, k, (some.inj hv).symm, ?_⟩
      rw [hidentity, lookup_insert, if_pos rfl]
    · rcases hok.staged c' v hv with ⟨hnone', k', hentry, hk'⟩
      refine ⟨by rw [hstored]; exact hnone', k', hentry, ?_⟩
      have hne : k' ≠ k := by
        rintro rfl
        cases hmiss.symm.trans hk'
      rw [hidentity, lookup_insert, if_neg hne, hk']
  · have hc : c = p.2.columnID := heq
    exact hunused p.1 (hc ▸ hok.held p hp)

theorem holds_sendStaged (k : K) (c : ℕ) :
    Holds table (sendStaged h.keys) k c ↔ Holds table h.keys k c := by
  unfold Holds sendStaged
  cases hc : h.keys.staged.lookup c with
  | none =>
    have hnot : c ∉ h.keys.staged := lookup_eq_none.mp hc
    simp [lookup_union_right hnot]
  | some v =>
    have hmem : c ∈ h.keys.staged := lookup_isSome.mp (by rw [hc]; rfl)
    simp [lookup_union_left hmem, hc, (hok.staged c v hc).1]

theorem KeysOk.sendStaged : KeysOk table { h with keys := sendStaged h.keys } := { hok with
  held p hp := (holds_sendStaged hok _ _).mpr (hok.held p hp)
  only p hp c hc := hok.only p hp c ((holds_sendStaged hok _ _).mp hc)
  identity k c hk := ⟨(holds_sendStaged hok k c).mpr (hok.identity k c hk).1, fun c' hc' =>
    (hok.identity k c hk).2 c' ((holds_sendStaged hok k c').mp hc')⟩
  staged := nofun }

theorem KeysOk.flushKeys : KeysOk table { h with keys := flushKeys h.keys } := { hok.sendStaged with
  identity := nofun
  staged := nofun
  agrees := hok.agrees }

end

/-- A parent lookup that does not take the domain to be empty changes no keys. -/
theorem sameKeys_lookup (hlookup : table.shouldLookup = true) (k : K)
    (next : Except String ℕ) (hskip : s.batchPrimaryKeyIdentity.lookup k = none →
      (shouldSkipLookupForEmptyDomain table { key := k, lookupOnly := true } s).1 = false) :
    SameKeys s (resolvePrimaryKeyColumnID table { key := k, lookupOnly := true } next s).2 := by
  cases hidentity : s.batchPrimaryKeyIdentity.lookup k with
  | some c => simpa [resolvePrimaryKeyColumnID, hlookup, hidentity] using SameKeys.refl s
  | none =>
    have hno := hskip hidentity
    have hsame := sameKeys_shouldSkip table { key := k, lookupOnly := true } s
    rw [resolve_of_miss hlookup _ hidentity, if_neg (by simp [hno])]
    generalize (shouldSkipLookupForEmptyDomain table { key := k, lookupOnly := true } s).2 = t
      at hsame
    unfold lookupAndAllocate
    cases lookupPrimaryKey table t.stored k with
    | nil => exact hsame
    | cons c rest =>
      cases rest with
      | nil => exact hsame.trans (sameKeys_markNonEmpty table k t)
      | cons c' rest => exact hsame

/-- Every step that meets its condition keeps the invariant. -/
theorem KeysOk.step (hlookup : table.shouldLookup = true) (hok : KeysOk table h)
    (e : KeyEvent K) (he : KeyStepOk table h e) : KeysOk table (keyStep table h e) := by
  cases e with
  | put k next readers =>
    rcases he with ⟨hfresh, hfound, hstale⟩
    have houtcome : PutOutcome table k next h.keys _ _ :=
      putKey_readBy_outcome hlookup hfound hstale
    dsimp only [keyStep]
    generalize putKey table { key := k } next (h.keys.readBy table { key := k } readers) = out
      at houtcome ⊢
    obtain ⟨res, t⟩ := out
    generalize ({ t with stored := h.keys.stored } : KeyState K) = t' at houtcome ⊢
    cases houtcome with
    | hit hc ht =>
      have hk := hok.identity k _ hc
      exact (hok.add_existing hk.1 hk.2).of_sameKeys ht
    | found hmiss hc ht =>
      have hk : Holds table h.keys k _ := .inr ((hc _).mpr rfl)
      refine (hok.add_existing hk fun c' hc' => ?_).of_sameKeys ht
      exact (hc c').mp (hok.stored_of_miss hmiss hc')
    | new hmiss hc hnext hidentity hstaged hstored =>
      exact hok.add_new (hfresh _ hnext) hmiss hc hidentity hstaged hstored
    | failed ht => exact hok.of_sameKeys ht
  | lookup k next readers =>
    have hread := sameKeys_readBy table { key := k, lookupOnly := true } readers h.keys
    have hsame := sameKeys_lookup hlookup k next
      (s := h.keys.readBy table { key := k, lookupOnly := true } readers)
      fun hmiss => he (hread.identity ▸ hmiss)
    exact hok.of_sameKeys ⟨hsame.identity.trans hread.identity, hsame.staged.trans hread.staged, rfl⟩
  | send => exact hok.sendStaged
  | flush => exact hok.flushKeys

end

/-- In every history that meets the condition, over any stored keys, all puts of one key resolve
to one column, those after the first report an existing row, and puts of different keys resolve
to different columns. -/
theorem resolved_once (table : KeyTable K) (hlookup : table.shouldLookup = true)
    (stored : KeyStore) (es : List (KeyEvent K))
    (hes : Meets (keyStep table) (KeyStepOk table) ⟨{ stored := stored }, []⟩ es) :
    (exec (keyStep table) ⟨{ stored := stored }, []⟩ es).resolved.Pairwise Agrees :=
  (exec_induction (keyStep table)
    (fun _ e hok he => hok.step hlookup e he) (keysOk_init stored) hes).agrees

/-! ## Instances -/

def ordersTable : KeyTable ℤ where
  codec :=
    { tableName := "orders"
      primaryKey := "order_id"
      render := toString
      shard _ := 0
      authority := id
      authority_injective _ h := h }

def oneOrder : KeyStore := (∅ : KeyStore).insert 1 (0, 5)

def threeOrders : KeyStore := insert 3 (0, 8) (insert 2 (0, 7) oneOrder)

/-- A put whose readers answer from one store. -/
def orderRead (stored : KeyStore) (n : ℤ) (c : ℕ) : KeyEvent ℤ :=
  .put n (.ok c) ⟨stored, stored⟩

/-- Two orders are put and flushed, and then a known and a new one are put; the index stored another
order before.  The readers keep nothing, so that they see the flushed orders. -/
def storedBefore : List (KeyEvent ℤ) :=
  [orderRead oneOrder 7 2, orderRead oneOrder 8 3, .flush, orderRead threeOrders 7 4,
    orderRead threeOrders 9 4]

/-- An order is put into an empty table, flushed, and put again. -/
def emptyBefore : List (KeyEvent ℤ) :=
  [orderRead ∅ 7 1, .flush, orderRead (insert 1 (0, 7) ∅) 7 2]

/-- Each order is resolved to one column. -/
theorem storedBefore_once :
    Meets (keyStep ordersTable) (KeyStepOk ordersTable) ⟨{ stored := oneOrder }, []⟩
        storedBefore ∧
      (exec (keyStep ordersTable) ⟨{ stored := oneOrder }, []⟩ storedBefore).resolved.Pairwise
        Agrees := by
  refine ⟨?meets, resolved_once ordersTable rfl oneOrder storedBefore ?meets⟩
  have hok : ∀ {h : KeyHistory ℤ} {n : ℤ} {c : ℕ} {readers : KeyReaders},
      (h.keys.stored.lookup c = none ∧ h.keys.staged.lookup c = none) ∧
        lookupPrimaryKey ordersTable readers.searched n =
          lookupPrimaryKey ordersTable h.keys.stored n ∧
        (h.keys.readBy ordersTable { key := n } readers).primaryKeyDomainStates.lookup (.shard 0) ≠
          some .empty → KeyStepOk ordersTable h (.put n (.ok c) readers) := by
    rintro h n c readers ⟨hfresh, heq, hseen⟩
    refine ⟨fun c' hc => Except.ok.inj hc ▸ hfresh, fun _ c' => ?_, fun hstale => hseen hstale.2.1⟩
    rw [← mem_lookupPrimaryKey, ← mem_lookupPrimaryKey, heq]
  exact ⟨hok (by decide), hok (by decide), trivial, hok (by decide), hok (by decide), trivial⟩

/-- The second put of the order skips the lookup and makes a second row for it. -/
theorem emptyBefore_twice :
    (exec (keyStep ordersTable) ⟨{}, []⟩ emptyBefore).resolved =
      [(7, ⟨1, false⟩), (7, ⟨2, false⟩)] := by
  decide

end QuantaStream.Core
