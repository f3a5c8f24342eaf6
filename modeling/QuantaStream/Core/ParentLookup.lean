import QuantaStream.Core.PrimaryKeyUniqueness

/-!
# Lookups of parent keys

A row of a child table looks up the key of its parent without creating it.  The resolver treats
such a request like a put until it has looked into the index.  A key whose domain it takes to be
empty is not looked up, and gets a column.
-/

namespace QuantaStream.Core

variable {K : Type} [DecidableEq K]

/-- A request asks for no new column and changes no keys, and it does not find a key that is
neither in the batch nor stored. -/
structure Inert (table : KeyTable K) (req : ResolveRequest K) (s : KeyState K) : Prop where
  unallocated : ∀ next next', resolvePrimaryKeyColumnID table req next s =
    resolvePrimaryKeyColumnID table req next' s
  keys : ∀ next, SameKeys s (resolvePrimaryKeyColumnID table req next s).2
  absent : s.batchPrimaryKeyIdentity.lookup req.key = none →
    lookupPrimaryKey table s.stored req.key = [] → ∀ next, ∃ r,
      (resolvePrimaryKeyColumnID table req next s).1 = .ok r ∧
        (r.existingRow = false ∨ r.columnID = 0)

/-- A request has no effect, and repeating it has none and gives the same answer. -/
def NoEffect (table : KeyTable K) (req : ResolveRequest K) (s : KeyState K) : Prop :=
  Inert table req s ∧ ∀ next,
    Inert table req (resolvePrimaryKeyColumnID table req next s).2 ∧
      (resolvePrimaryKeyColumnID table req next
        (resolvePrimaryKeyColumnID table req next s).2).1 =
      (resolvePrimaryKeyColumnID table req next s).1

/-- The key is in the batch, or it is looked up; without lookups the request names its column. -/
def NamedOrLookedUp (table : KeyTable K) (req : ResolveRequest K) (s : KeyState K) : Prop :=
  if table.shouldLookup then
    s.batchPrimaryKeyIdentity.lookup req.key ≠ none ∨
      req.primaryKeyMode ≠ .assumeNew ∧ ¬ TakenForEmpty table s req.key
  else req.directColumnID ≠ none ∨ req.providedColumnID ≠ 0

variable {table : KeyTable K} {req : ResolveRequest K} {s : KeyState K}

/-- What a lookup finds depends on the stored keys only.  It notes at most that the domain of its
key is not empty. -/
theorem lookupAndAllocate_of_lookupOnly (hreq : req.lookupOnly = true) (s : KeyState K) :
    ∃ v, (v = s ∨ v = markDomainState .authority .nonEmpty
        (markDomainState (.shard (table.codec.shard req.key)) .nonEmpty s)) ∧
      ∀ t, t.stored = s.stored → ∀ next,
        lookupAndAllocate table req next s = ((lookupAndAllocate table req (.ok 0) t).1, v) := by
  cases hmatched : lookupPrimaryKey table s.stored req.key with
  | nil => exact ⟨s, .inl rfl, fun t ht _ => by simp [lookupAndAllocate, ht, hmatched, hreq]⟩
  | cons c rest =>
    cases rest with
    | nil => exact ⟨_, .inr rfl, fun t ht _ => by simp [lookupAndAllocate, ht, hmatched]⟩
    | cons c' rest =>
      exact ⟨s, .inl rfl, fun t ht _ => by simp [lookupAndAllocate, ht, hmatched]⟩

/-- A key that is looked up now is looked up again. -/
theorem lookup_again (hlookup : table.shouldLookup = true) (hreq : req.lookupOnly = true)
    (hmiss : s.batchPrimaryKeyIdentity.lookup req.key = none)
    (h : req.primaryKeyMode ≠ .assumeNew ∧ ¬ TakenForEmpty table s req.key) :
    ∃ v, SameKeys s v ∧ ¬ TakenForEmpty table v req.key ∧
      ∀ t, t.stored = s.stored → ∀ next, resolvePrimaryKeyColumnID table req next s =
        ((lookupAndAllocate table req (.ok 0) t).1, v) := by
  have hnot : ¬ (shouldSkipLookupForEmptyDomain table req s).1 = true := fun hskip =>
    h.2 ((shouldSkip_cases table req s).1.mp hskip).2
  have hsame := sameKeys_shouldSkip table req s
  have hnoted : ∀ u, ¬ TakenForEmpty table (markDomainState .authority .nonEmpty
      (markDomainState (.shard (table.codec.shard req.key)) .nonEmpty u)) req.key :=
    fun u htaken => htaken.2.1 (by simp [markDomainState])
  have hstays : ¬ TakenForEmpty table (shouldSkipLookupForEmptyDomain table req s).2 req.key := by
    rcases (shouldSkip_cases table req s).2 with hstate | ⟨-, hstate⟩ | hstate
    · rw [hstate]
      exact h.2
    · rw [hstate] at hnot
      exact absurd rfl hnot
    · rw [hstate]
      exact hnoted s
  rcases lookupAndAllocate_of_lookupOnly hreq (shouldSkipLookupForEmptyDomain table req s).2 with
    ⟨v, hv, hrun⟩
  refine ⟨v, ?_, ?_, fun t ht next => ?_⟩
  · rcases hv with rfl | rfl
    · exact hsame
    · exact hsame.trans (sameKeys_markNonEmpty table req.key _)
  · rcases hv with rfl | rfl
    · exact hstays
    · exact hnoted _
  · rw [resolve_of_miss hlookup _ hmiss, if_neg (not_or.mpr ⟨h.1, hnot⟩),
      hrun t (ht.trans hsame.stored.symm)]

/-- Such requests on the same keys have one answer, and stay such requests. -/
theorem resolve_of_namedOrLookedUp (hreq : req.lookupOnly = true)
    (h : NamedOrLookedUp table req s) :
    ∃ r, (s.batchPrimaryKeyIdentity.lookup req.key = none →
        lookupPrimaryKey table s.stored req.key = [] →
          ∃ a, r = .ok a ∧ (a.existingRow = false ∨ a.columnID = 0)) ∧
      ∀ u, SameKeys s u → NamedOrLookedUp table req u → ∃ v, SameKeys u v ∧
        NamedOrLookedUp table req v ∧ ∀ next, resolvePrimaryKeyColumnID table req next u = (r, v) := by
  unfold NamedOrLookedUp at *
  cases hlookup : table.shouldLookup with
  | false =>
    simp only [hlookup, Bool.false_eq_true, if_false] at h ⊢
    have hdirect : ∃ c, ∀ next, resolveDirectColumnID req next = .ok ⟨c, false⟩ := by
      cases hc : req.directColumnID with
      | some c => exact ⟨c, fun next => by simp [resolveDirectColumnID, hc]⟩
      | none =>
        have hprovided := h.resolve_left (· hc)
        exact ⟨req.providedColumnID, fun next => by
          simp [resolveDirectColumnID, hc, allocatePrimaryKeyColumnID, hprovided, Except.map]⟩
    rcases hdirect with ⟨c, hc⟩
    exact ⟨.ok ⟨c, false⟩, fun _ _ => ⟨_, rfl, .inl rfl⟩, fun u _ _ => ⟨u, .refl u, h, fun next => by
      simp [resolvePrimaryKeyColumnID, hlookup, hc]⟩⟩
  | true =>
    cases hhit : s.batchPrimaryKeyIdentity.lookup req.key with
    | some c =>
      refine ⟨(resolvePrimaryKeyColumnID table req (.ok 0) s).1, (by rintro ⟨⟩), fun u hu hnamed =>
        ⟨u, .refl u, hnamed, fun next => ?_⟩⟩
      simp only [resolvePrimaryKeyColumnID, hlookup, hu.identity, hhit, Bool.not_true,
        Bool.false_eq_true, if_false]
      split_ifs <;> rfl
    | none =>
      refine ⟨(lookupAndAllocate table req (.ok 0) s).1, fun _ hnil => ?_, fun u hu hnamed => ?_⟩
      · exact ⟨⟨0, false⟩, by simp [lookupAndAllocate, hnil, hreq], .inl rfl⟩
      · rw [hu.identity, hhit] at hnamed
        have hnot := hnamed.resolve_left (· rfl)
        rcases lookup_again hlookup hreq (hu.identity ▸ hhit) hnot with ⟨v, hv, hstays, hrun⟩
        exact ⟨v, hv, .inr ⟨hnot.1, hstays⟩, hrun s hu.stored.symm⟩

/-- A lookup has no effect exactly if its key is in the batch or looked up in the index. -/
theorem lookupOnly_noEffect_iff (table : KeyTable K) (req : ResolveRequest K) (s : KeyState K)
    (hreq : req.lookupOnly = true) : NoEffect table req s ↔ NamedOrLookedUp table req s := by
  constructor
  · intro h
    unfold NamedOrLookedUp
    cases hlookup : table.shouldLookup with
    | false =>
      simp only [Bool.false_eq_true, if_false]
      by_contra hnot
      rw [not_or, not_not, not_not] at hnot
      have heq := h.1.unallocated (.ok 1) (.ok 2)
      simp [resolvePrimaryKeyColumnID, hlookup, resolveDirectColumnID, hnot.1,
        allocatePrimaryKeyColumnID, hnot.2, Except.map] at heq
    | true =>
      simp only [if_true]
      by_contra hnot
      rw [not_or, not_not] at hnot
      -- The key is new and gets a column, which the batch remembers.
      have hskip : req.primaryKeyMode = .assumeNew ∨
          (shouldSkipLookupForEmptyDomain table req s).1 = true := by
        by_cases hmode : req.primaryKeyMode = .assumeNew
        · exact .inl hmode
        · exact .inr ((shouldSkip_cases table req s).1.mpr
            ⟨hmode, by_contra fun htaken => hnot.2 ⟨hmode, htaken⟩⟩)
      have halloc : ∃ c, allocatePrimaryKeyColumnID req (.ok 1) = .ok c := by
        unfold allocatePrimaryKeyColumnID
        split_ifs <;> exact ⟨_, rfl⟩
      rcases halloc with ⟨c, halloc⟩
      have hkeys := (h.1.keys (.ok 1)).identity
      rw [resolve_of_miss hlookup _ hnot.1, if_pos hskip] at hkeys
      have hsame := (sameKeys_shouldSkip table req s).identity
      simp only [allocateAndStage, halloc, setPrimaryKeyIdentity, identity_stagePrimaryKey, hsame,
        hnot.1] at hkeys
      have hlookup := congrArg (AList.lookup req.key) hkeys
      rw [GoMap.lookup_insert, if_pos rfl, hnot.1] at hlookup
      cases hlookup
  · intro h
    rcases resolve_of_namedOrLookedUp hreq h with ⟨r, habsent, hrun⟩
    have hinert : ∀ u, SameKeys s u → NamedOrLookedUp table req u → Inert table req u := by
      intro u hu hnamed
      rcases hrun u hu hnamed with ⟨v, hv, -, hrun⟩
      refine ⟨fun next next' => by rw [hrun, hrun], fun next => by rw [hrun]; exact hv, ?_⟩
      rw [hu.identity, hu.stored]
      exact fun hmiss hnil next => by rw [hrun]; exact habsent hmiss hnil
    refine ⟨hinert s (.refl s) h, fun next => ?_⟩
    rcases hrun s (.refl s) h with ⟨v, hv, hnamed, hfirst⟩
    rcases hrun v hv hnamed with ⟨_, -, -, hsecond⟩
    rw [hfirst]
    exact ⟨hinert v hv hnamed, by rw [hsecond]⟩

theorem stored_order_lookup_noEffect :
    NamedOrLookedUp ordersTable { key := 5, lookupOnly := true } { stored := oneOrder } ∧
      NoEffect ordersTable { key := 5, lookupOnly := true } { stored := oneOrder } := by
  refine ⟨?named, (lookupOnly_noEffect_iff _ _ _ rfl).mpr ?named⟩
  exact .inr ⟨by decide, fun h => absurd h.2.2 (by decide)⟩

/-- A lookup in an empty table makes a column for the key, and the next one finds it. -/
theorem lookup_creates_parent :
    (resolvePrimaryKeyColumnID ordersTable { key := 7, lookupOnly := true } (.ok 1) {}).1 =
        .ok ⟨1, false⟩ ∧
      (resolvePrimaryKeyColumnID ordersTable { key := 7, lookupOnly := true } (.ok 2)
        (resolvePrimaryKeyColumnID ordersTable { key := 7, lookupOnly := true } (.ok 1) {}).2).1 =
        .ok ⟨1, true⟩ := by
  decide

end QuantaStream.Core
