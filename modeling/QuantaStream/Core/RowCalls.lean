import QuantaStream.Core.RowRefinement

/-!
# What a call does

A put or an update that meets its condition is accepted, and it writes some cells of one row.
Which cells it writes depends on the call and on the stored keys alone, so a later call with the
same arguments, from another session and with other memories, writes the same.
-/

namespace QuantaStream.Core

open List Function Option Session Overwrite GoMap

/-! ## Memories of domains -/

section

variable {K : Type} {table : KeyTable K} {s : KeyState K} {req : ResolveRequest K} {k : K} {c : ℕ}

/-- A column is found once. -/
theorem lookupPrimaryKey_nodup (table : KeyTable K) (stored : KeyStore) (k : K) :
    (lookupPrimaryKey table stored k).Nodup := by
  have heq : lookupPrimaryKey table stored k =
      ((stored.range .asKept).filter (fun e => e.2 = table.codec.entry k)).map Prod.fst := by
    unfold lookupPrimaryKey
    induction stored.range .asKept with
    | nil => rfl
    | cons e rest ih =>
      by_cases he : e.2 = table.codec.entry k <;> simp [he, ih]
  rw [heq]
  exact (filter_sublist.map Prod.fst).nodup (range_nodup stored .asKept)

/-- A key that at most one column stores. -/
theorem lookupPrimaryKey_cases {stored : KeyStore}
    (hunique : ∀ c c', stored.lookup c = some (table.codec.entry k) →
      stored.lookup c' = some (table.codec.entry k) → c = c') :
    lookupPrimaryKey table stored k = [] ∨ ∃ c, lookupPrimaryKey table stored k = [c] := by
  have hnodup := lookupPrimaryKey_nodup table stored k
  have hmem : ∀ c, c ∈ lookupPrimaryKey table stored k →
      stored.lookup c = some (table.codec.entry k) := fun c hc => mem_lookupPrimaryKey.mp hc
  cases hmatched : lookupPrimaryKey table stored k with
  | nil => exact .inl rfl
  | cons c rest =>
    cases rest with
    | nil => exact .inr ⟨c, rfl⟩
    | cons c' rest =>
      rw [hmatched] at hnodup hmem
      have heq := hunique c c' (hmem c (by simp)) (hmem c' (by simp))
      simp [heq] at hnodup

theorem seenEmpty_of_markNonEmpty {shard : ℤ}
    (h : (markDomainState .authority .nonEmpty (markDomainState (.shard (table.codec.shard k))
      .nonEmpty s)).primaryKeyDomainStates.lookup (.shard shard) = some .empty) :
    s.primaryKeyDomainStates.lookup (.shard shard) = some .empty := by
  simp only [markDomainState, lookup_insert, reduceCtorEq, if_false] at h
  split_ifs at h with hshard
  · cases h
  · exact h

/-- A domain with a stored key is not seen to be empty. -/
theorem seenEmpty_of_shouldSkip (req : ResolveRequest K)
    (hstored : s.stored.lookup c = some (table.codec.entry req.key)) {shard : ℤ}
    (h : (shouldSkipLookupForEmptyDomain table req s).2.primaryKeyDomainStates.lookup (.shard shard) =
      some .empty) : s.primaryKeyDomainStates.lookup (.shard shard) = some .empty := by
  rcases (shouldSkip_cases table req s).2 with hstate | ⟨hprobe, -⟩ | hstate
  · rwa [hstate] at h
  · exact absurd hstored (not_stored_of_probe_empty hprobe c)
  · rw [hstate] at h
    exact seenEmpty_of_markNonEmpty h

variable [DecidableEq K]

theorem not_staleEmpty_markNonEmpty (k' : K) (s : KeyState K) (k : K) :
    ¬ StaleEmpty table (markDomainState .authority .nonEmpty
      (markDomainState (.shard (table.codec.shard k')) .nonEmpty s)) k := by
  intro h
  exact absurd (by simp [markDomainState]) h.2.2.1

/-- Looking at a domain does not make a memory of it stale. -/
theorem staleEmpty_of_shouldSkip (req : ResolveRequest K)
    (h : StaleEmpty table (shouldSkipLookupForEmptyDomain table req s).2 k) :
    StaleEmpty table s k := by
  rcases (shouldSkip_cases table req s).2 with hstate | ⟨hprobe, hstate⟩ | hstate
  · rwa [hstate] at h
  · rw [hstate] at h
    rcases h with ⟨hmiss, hempty, hauthority, c, hc⟩
    by_cases hshard : table.codec.shard k = table.codec.shard req.key
    -- The domain was seen to be empty just now.
    · simp only [primaryKeyDomainState, ← hshard] at hprobe
      exact absurd hc (not_stored_of_probe_empty hprobe c)
    · refine ⟨hmiss, ?_, ?_, c, hc⟩
      · simpa [markDomainState, lookup_insert, hshard] using hempty
      · simpa [markDomainState, lookup_insert] using hauthority
  · rw [hstate] at h
    exact absurd h (not_staleEmpty_markNonEmpty req.key s k)

theorem staleEmpty_of_setPrimaryKeyIdentity {k' : K}
    (h : StaleEmpty table (setPrimaryKeyIdentity k' c s) k) : StaleEmpty table s k := by
  revert h
  fun_cases setPrimaryKeyIdentity k' c s with
  | case1 => exact id
  | case2 =>
    rintro ⟨hmiss, hrest⟩
    rw [lookup_insert] at hmiss
    split_ifs at hmiss
    exact ⟨hmiss, hrest⟩

variable {next : Except String ℕ}

theorem staleEmpty_of_allocateAndStage
    (h : StaleEmpty table (allocateAndStage table req next s).2 k) : StaleEmpty table s k := by
  revert h
  fun_cases allocateAndStage table req next s with
  | case1 => exact id
  | case2 c =>
    intro h
    have h := staleEmpty_of_setPrimaryKeyIdentity h
    unfold stagePrimaryKey at h
    split_ifs at h <;> exact h

theorem staleEmpty_of_lookupAndAllocate
    (h : StaleEmpty table (lookupAndAllocate table req next s).2 k) : StaleEmpty table s k := by
  revert h
  fun_cases lookupAndAllocate table req next s with
  | case1 => exact id
  | case2 => exact staleEmpty_of_allocateAndStage
  | case3 => exact fun h => absurd h (not_staleEmpty_markNonEmpty req.key s k)
  | case4 => exact id

variable {r : Except String ResolveResult} {t : KeyState K}

theorem staleEmpty_of_resolve (hrun : resolvePrimaryKeyColumnID table req next s = (r, t))
    (h : StaleEmpty table t k) : StaleEmpty table s k := by
  obtain rfl : (resolvePrimaryKeyColumnID table req next s).2 = t := congrArg Prod.snd hrun
  revert h
  fun_cases resolvePrimaryKeyColumnID table req next s with
  | case1 | case2 | case3 => exact id
  | case4 _ _ _ _ hskip | case5 _ _ _ _ hskip =>
    exact fun h => staleEmpty_of_shouldSkip req (hskip ▸ staleEmpty_of_allocateAndStage h)
  | case6 _ _ _ _ hskip =>
    exact fun h => staleEmpty_of_shouldSkip req (hskip ▸ staleEmpty_of_lookupAndAllocate h)

/-- A put makes no memory stale. -/
theorem staleEmpty_of_putKey (hrun : putKey table req next s = (r, t))
    (h : StaleEmpty table t k) : StaleEmpty table s k := by
  revert hrun
  fun_cases putKey table req next s with
  | case1 _ _ hresolve | case2 _ _ hresolve | case3 _ _ hresolve =>
    rintro ⟨⟩
    exact staleEmpty_of_resolve hresolve h

/-- A put does not fail if the key has at most one column and the allocator answers. -/
theorem putKey_ne_error (hlookup : table.shouldLookup = true)
    (hunique : ∀ c c', s.stored.lookup c = some (table.codec.entry k) →
      s.stored.lookup c' = some (table.codec.entry k) → c = c') (e : String) :
    (putKey table { key := k } (.ok c) s).1 ≠ .error e := by
  have hresolve : ∃ r t, resolvePrimaryKeyColumnID table { key := k } (.ok c) s = (.ok r, t) := by
    cases hknown : s.batchPrimaryKeyIdentity.lookup k with
    | some c' => exact ⟨⟨c', true⟩, s, by simp [resolvePrimaryKeyColumnID, hlookup, hknown]⟩
    | none =>
      have hsame := sameKeys_shouldSkip table { key := k } s
      simp only [resolvePrimaryKeyColumnID, hlookup, hknown, Bool.not_true,
        Bool.false_eq_true, if_false, reduceCtorEq]
      split_ifs
      · exact ⟨_, _, rfl⟩
      · rcases lookupPrimaryKey_cases hunique with hmatched | ⟨c', hmatched⟩
        all_goals
          simp only [lookupAndAllocate, hsame.stored, hmatched, Bool.false_eq_true, if_false]
          exact ⟨_, _, rfl⟩
  rcases hresolve with ⟨r, t, hresolve⟩
  simp only [putKey, hresolve]
  split_ifs <;> rintro ⟨⟩

/-- A stored key is found, in the batch or in the index. -/
theorem resolve_stored (hlookup : table.shouldLookup = true) (next : Except String ℕ)
    (hstored : lookupPrimaryKey table s.stored k = [c]) (hstale : ¬ StaleEmpty table s k)
    (hidentity : ∀ c', s.batchPrimaryKeyIdentity.lookup k = some c' → c' = c) :
    ∃ t, resolvePrimaryKeyColumnID table { key := k, lookupOnly := true } next s =
      (.ok ⟨c, true⟩, t) ∧ SameKeys s t ∧
      ∀ shard, t.primaryKeyDomainStates.lookup (.shard shard) = some .empty →
        s.primaryKeyDomainStates.lookup (.shard shard) = some .empty := by
  have hc : s.stored.lookup c = some (table.codec.entry k) :=
    mem_lookupPrimaryKey.mp (by simp [hstored])
  cases hknown : s.batchPrimaryKeyIdentity.lookup k with
  | some c' =>
    refine ⟨s, ?_, .refl s, fun _ h => h⟩
    simp [resolvePrimaryKeyColumnID, hlookup, hknown, hidentity c' hknown]
  | none =>
    have hskip : (shouldSkipLookupForEmptyDomain table
        { key := k, lookupOnly := true } s).1 = false := by
      by_contra hskip
      exact not_stored_of_skip { key := k, lookupOnly := true } hknown hstale
        (by simpa using hskip) c hc
    have hsame := sameKeys_shouldSkip table { key := k, lookupOnly := true } s
    refine ⟨_, ?_, hsame.trans (sameKeys_markNonEmpty table k _), fun shard h => ?_⟩
    · simp [resolvePrimaryKeyColumnID, hlookup, hknown, hskip, lookupAndAllocate, hsame.stored,
        hstored]
    · exact seenEmpty_of_shouldSkip { key := k, lookupOnly := true } hc
        (seenEmpty_of_markNonEmpty h)

end

/-! ## The write of a call -/

section

variable {S T K F V : Type}

variable (schema : Schema T K F V)

/-- The cells that a parent relation sets, by the stored keys; none if the parent is not found. -/
def parentCells (keys : T → KeyStore) (row : SourceRow)
    (rel : ParentRelation T K F) : Option (List (F × Option V)) :=
  match rel.source with
  | .direct read =>
    match read row with
    | .error _ => none
    | .ok none => some []
    | .ok (some c) => some [(rel.field, some (schema.columnValue c))]
  | .lookup read =>
    match read row with
    | .error _ => none
    | .ok none => some []
    | .ok (some k) =>
      match lookupPrimaryKey (schema.table rel.parent).keys (keys rel.parent) k with
      | [c] => if c = 0 then none else some [(rel.field, some (schema.columnValue c))]
      | _ => none

def attributeCells (row : SourceRow)
    (map : SourceRow → Bool → Except String (List (F × Option V))) : Option (List (F × Option V)) :=
  (map row false).toOption

/-- The cells that a put sets; none if a parent is not found or an attribute is not mapped. -/
def rowCells (keys : T → KeyStore) (t : T) (row : SourceRow) : Option (List (F × Option V)) :=
  ((schema.table t).parents.mapM (parentCells schema keys row)).bind fun parents =>
    ((schema.table t).attributes.mapM (attributeCells row)).map fun attributes =>
      (parents ++ attributes).flatten

/-- The cell that a field of an update sets. -/
def fieldCell (t : T) (e : F × Value) : Option (F × Option V) :=
  if (schema.table t).isPrimaryKey e.1 then none
  else ((schema.table t).mapField e.1 e.2).toOption.map (fun v => (e.1, v))

/-- The write of a call, by the stored keys. -/
inductive CallWrite (schema : Schema T K F V) (keys : T → KeyStore) :
    LoggedCall T F → Write (T × K) F V → Prop
  | put {req : PutRequest T} {k : K} {cells : List (F × Option V)}
      (hkey : (schema.table req.table).readKey req.row false = .ok (some k))
      (hcells : rowCells schema keys req.table req.row = some cells) :
      CallWrite schema keys (.put req) ⟨(req.table, k), cells⟩
  | update {req : UpdateRequest T F} {k : K} {cells : List (F × Option V)}
      (hkey : (keys req.table).lookup req.columnID =
        some ((schema.table req.table).keys.codec.entry k))
      (hcells : (req.values.range .asKept).mapM (fieldCell schema req.table) = some cells) :
      CallWrite schema keys (.update req) ⟨(req.table, k), cells⟩

variable {schema : Schema T K F V} {store : Storage T F V} {t : T} {c : ℕ}

theorem fieldCell_fst {e : F × Value} {cell : F × Option V}
    (h : fieldCell schema t e = some cell) : cell.1 = e.1 := by
  unfold fieldCell at h
  split_ifs at h
  rcases map_eq_some_iff.mp h with ⟨v, -, rfl⟩
  rfl

theorem forall₂_of_mapM {α β : Type} {f : α → Option β} {as : List α} {bs : List β}
    (h : as.mapM f = some bs) : Forall₂ (fun a b => a ∈ as ∧ f a = some b) as bs := by
  induction as generalizing bs with
  | nil =>
    simp only [mapM_nil, Option.pure_def, Option.some.injEq] at h
    subst h
    exact .nil
  | cons a as ih =>
    simp only [mapM_cons, Option.bind_eq_bind, Option.bind_eq_some_iff, Option.pure_def,
      Option.some.injEq] at h
    rcases h with ⟨b, hb, bs', hbs', rfl⟩
    refine .cons ⟨mem_cons_self, hb⟩ ((ih hbs').imp fun a' b' h' => ?_)
    exact ⟨mem_cons_of_mem _ h'.1, h'.2⟩

/-- The cells of an update in another order of its fields. -/
theorem exists_cells_perm {values : GoMap F Value} {cells : List (F × Option V)}
    (h : (values.range .asKept).mapM (fieldCell schema t) = some cells) (order : RangeOrder) :
    ∃ cells', Forall₂ (fun e cell => fieldCell schema t e = some cell) (values.range order)
      cells' ∧ cells'.Perm cells ∧ (cells'.map Prod.fst).Nodup := by
  have hperm : (values.range order).Perm (values.range .asKept) := order.perm _
  have hall := (forall₂_of_mapM h).imp fun _ _ hcell => hcell.2
  rcases perm_comp_forall₂ hperm hall with ⟨cells', hcells', hperm'⟩
  refine ⟨cells', hcells', hperm', ?_⟩
  have hfst : cells'.map Prod.fst = (values.range order).map Prod.fst := by
    clear hperm'
    generalize values.range order = fields at hcells'
    induction hcells' with
    | nil => rfl
    | cons hcell _ ih => rw [map_cons, map_cons, ih, fieldCell_fst hcell]
  rw [hfst]
  exact values.range_nodup order

/-! ## Stages that put cells into the buffer -/

variable [DecidableEq T] [DecidableEq F] {sess sess' : Session T K F V} {cells : List (F × Option V)}

theorem cells_stageCells_congr (h : sess'.cells = sess.cells)
    (cells : List (F × Option V)) :
    (sess'.stageCells t c cells).cells = (sess.stageCells t c cells).cells := by
  induction cells generalizing sess sess' with
  | nil => exact h
  | cons e cells ih =>
    refine ih ?_
    simp only [stageCell, h]

/-- Only the buffer changes. -/
theorem stageCells_eq (sess : Session T K F V) (cells : List (F × Option V)) :
    sess.stageCells t c cells =
      { sess with cells := (sess.stageCells t c cells).cells } := by
  induction cells generalizing sess with
  | nil => rfl
  | cons e cells ih =>
    have hcons : sess.stageCells t c (e :: cells) = (sess.stageCell t c e).stageCells t c cells :=
      rfl
    rw [hcons, ih]
    rfl

/-- What is staged was staged before or is one of the cells. -/
theorem staged_stageCells {t' : T} {c' : ℕ} {f : F} {v : Option V}
    (h : (sess.stageCells t c cells).staged t' c' f = some v) :
    sess.staged t' c' f = some v ∨ t' = t ∧ c' = c ∧ (f, v) ∈ cells := by
  induction cells generalizing sess with
  | nil => exact .inl h
  | cons e cells ih =>
    rcases ih h with hold | ⟨ht, hc, hv⟩
    · refine (CellBuffer.staged_set_cases hold).imp_right fun ⟨ht, hc, hcell⟩ => ⟨ht, hc, ?_⟩
      exact hcell ▸ mem_cons_self
    · exact .inr ⟨ht, hc, mem_cons_of_mem _ hv⟩

/-- The order in which cells of different fields are put into the buffer does not matter. -/
theorem stageCells_perm {cells cells' : List (F × Option V)}
    (h : cells.Perm cells') (hnodup : (cells.map Prod.fst).Nodup) :
    sess.stageCells t c cells = sess.stageCells t c cells' := by
  refine h.foldl_eq' (fun e he e' he' sess => ?_) sess
  by_cases heq : e = e'
  · rw [heq]
  have hne : e.1 ≠ e'.1 := fun hfst => heq (inj_on_of_nodup_map hnodup he he' hfst)
  simp only [stageCell, CellBuffer.set_comm sess.cells hne]

variable [DecidableEq K]

/-- What stages do that put cells of a column into the buffer. -/
structure Staged (schema : Schema T K F V) (store : Storage T F V) (t : T) (c : ℕ)
    (cells : List (F × Option V)) (sess sess' : Session T K F V) : Prop where
  identity : sess'.identity = sess.identity
  stagedKeys : sess'.stagedKeys = sess.stagedKeys
  buffer : sess'.cells = (sess.stageCells t c cells).cells
  current : sess'.current = sess.current
  tables : sess'.tables = sess.tables
  memories : ∀ p k, StaleEmpty (schema.table p).keys (sess'.keyState store p) k →
    StaleEmpty (schema.table p).keys (sess.keyState store p) k
  seenEmpty : ∀ p shard, (sess'.domains p).lookup (.shard shard) = some .empty →
    (sess.domains p).lookup (.shard shard) = some .empty

theorem Staged.of_stageCells (sess : Session T K F V) (cells : List (F × Option V)) :
    Staged schema store t c cells sess (sess.stageCells t c cells) := by
  rw [stageCells_eq]
  exact ⟨rfl, rfl, rfl, rfl, rfl, fun _ _ h => h, fun _ _ h => h⟩

/-- Stages after stages. -/
theorem Staged.trans {cells cells' : List (F × Option V)} {sess sess' sess'' : Session T K F V}
    (h : Staged schema store t c cells sess sess')
    (h' : Staged schema store t c cells' sess' sess'') :
    Staged schema store t c (cells ++ cells') sess sess'' where
  identity := h'.identity.trans h.identity
  stagedKeys := h'.stagedKeys.trans h.stagedKeys
  buffer := by
    have happend : sess.stageCells t c (cells ++ cells') =
        (sess.stageCells t c cells).stageCells t c cells' := foldl_append
    rw [h'.buffer, cells_stageCells_congr h.buffer, happend]
  current := h'.current.trans h.current
  tables := h'.tables.trans h.tables
  memories p k hstale := h.memories p k (h'.memories p k hstale)
  seenEmpty p shard hseen := h.seenEmpty p shard (h'.seenEmpty p shard hseen)

/-- After stages that put cells into the buffer of a session, the stage puts these cells. -/
def Puts (schema : Schema T K F V) (store : Storage T F V) (t : T) (c : ℕ)
    (base : Session T K F V) (stage : Stage T K F V) (cells : List (F × Option V)) : Prop :=
  ∀ acc sess, Staged schema store t c acc base sess →
    ∃ sess', stage sess = (.ok (), sess') ∧ Staged schema store t c cells sess sess'

/-- Stages that each put cells into the buffer. -/
theorem runStages_staged {base : Session T K F V} {stages : List (Stage T K F V)}
    {cells : List (List (F × Option V))}
    (h : Forall₂ (Puts schema store t c base) stages cells) {acc : List (F × Option V)}
    (hsess : Staged schema store t c acc base sess) :
    ∃ sess', runStages stages sess = (.ok (), sess') ∧
      Staged schema store t c (acc ++ cells.flatten) base sess' := by
  induction h generalizing acc sess with
  | nil => exact ⟨sess, rfl, by simpa using hsess⟩
  | cons hstage _ ih =>
    rcases hstage acc sess hsess with ⟨sess', hrun, hstaged⟩
    rcases ih (hsess.trans hstaged) with ⟨sess'', hrun', hstaged'⟩
    refine ⟨sess'', ?_, ?_⟩
    · rw [runStages, hrun]
      exact hrun'
    · simpa [append_assoc] using hstaged'

/-! ## The stages of a put -/

/-- A session can map a parent relation: the table of the parent is open, and a stored parent is
found. -/
structure ParentOk (schema : Schema T K F V) (store : Storage T F V) (row : SourceRow)
    (rel : ParentRelation T K F) (sess : Session T K F V) : Prop where
  isOpen : rel.parent ∈ sess.tables
  resolves : ∀ read, rel.source = .lookup read → ∀ k, read row = .ok (some k) →
    (schema.table rel.parent).keys.shouldLookup = true ∧
    ¬ StaleEmpty (schema.table rel.parent).keys (sess.keyState store rel.parent) k ∧
    ∀ c, (sess.identity rel.parent).lookup k = some c →
      ∀ c', (store.keys rel.parent).lookup c' =
        some ((schema.table rel.parent).keys.codec.entry k) → c' = c

variable {rel : ParentRelation T K F} {row : SourceRow}

theorem ParentOk.of_staged (h : ParentOk schema store row rel sess)
    (hstaged : Staged schema store t c cells sess sess') :
    ParentOk schema store row rel sess' where
  isOpen := hstaged.tables ▸ h.isOpen
  resolves read hsource k hk := by
    rcases h.resolves read hsource k hk with ⟨hlookup, hstale, hidentity⟩
    refine ⟨hlookup, fun hstale' => hstale (hstaged.memories _ _ hstale'), ?_⟩
    rw [hstaged.identity]
    exact hidentity

variable {keys : KeyState K}

section

variable {p : T}
  (hmemories : ∀ k, StaleEmpty (schema.table p).keys keys k →
    StaleEmpty (schema.table p).keys (sess.keyState store p) k)

include hmemories

omit [DecidableEq F] in
/-- A resolver that makes no memory of its table stale makes none stale. -/
theorem staleEmpty_of_setKeys (hstored : keys.stored = store.keys p) (p' : T) (k : K)
    (h : StaleEmpty (schema.table p').keys ((sess.setKeys p keys).keyState store p') k) :
    StaleEmpty (schema.table p').keys (sess.keyState store p') k := by
  by_cases hp : p' = p
  · subst hp
    exact hmemories k (by simpa [keyState, setKeys, ← hstored] using h)
  · simpa [keyState, setKeys, hp] using h

/-- A resolver that changes no keys puts no cells into the buffer. -/
theorem Staged.of_setKeys (hsame : SameKeys (sess.keyState store p) keys)
    (hseen : ∀ shard, keys.primaryKeyDomainStates.lookup (.shard shard) = some .empty →
      (sess.domains p).lookup (.shard shard) = some .empty) :
    Staged schema store t c [] sess (sess.setKeys p keys) := by
  have hbuffer := sameBuffer_setKeys hsame
  refine ⟨hbuffer.identity, hbuffer.stagedKeys, rfl, rfl, rfl,
    staleEmpty_of_setKeys hmemories hsame.stored, fun p' shard hempty => ?_⟩
  by_cases hp : p' = p
  · subst hp
    exact hseen shard (by simpa [setKeys] using hempty)
  · simpa [setKeys, hp] using hempty

end

variable {next : T → K → Except String ℕ}

theorem mapParentLookup_ok {k : K} {c' : ℕ}
    (h : ParentOk schema store row rel sess) {read : SourceRow → Except String (Option K)}
    (hsource : rel.source = .lookup read) (hread : read row = .ok (some k))
    (hcurrent : sess.current t = c)
    (hmatched : lookupPrimaryKey (schema.table rel.parent).keys (store.keys rel.parent) k = [c'])
    (hzero : c' ≠ 0) :
    ∃ sess', mapParentLookup schema store next t rel k sess = (.ok (), sess') ∧
      Staged schema store t c [(rel.field, some (schema.columnValue c'))] sess sess' := by
  rcases h.resolves read hsource k hread with ⟨hlookup, hstale, hidentity⟩
  have hstored : (store.keys rel.parent).lookup c' =
      some ((schema.table rel.parent).keys.codec.entry k) :=
    mem_lookupPrimaryKey.mp (by simp [hmatched])
  rcases resolve_stored hlookup (next rel.parent k) hmatched
    hstale (fun c'' hc'' => (hidentity c'' hc'' c' hstored).symm) with ⟨keys, hrun, hsame, hseen⟩
  refine ⟨(sess.setKeys rel.parent keys).stageCell t c (rel.field, some (schema.columnValue c')),
    ?_, ?_⟩
  · subst hcurrent
    simp [mapParentLookup, hrun, hzero, mapParentColumn, setKeys]
  · exact (Staged.of_setKeys (fun _ => staleEmpty_of_resolve hrun) hsame hseen).trans
      (.of_stageCells _ [_])

/-- A parent relation puts its cells. -/
theorem mapParentRelation_ok
    (h : ParentOk schema store row rel sess) (hcurrent : sess.current t = c)
    (hcells : parentCells schema store.keys row rel = some cells) :
    ∃ sess', mapParentRelation schema store next t row false rel sess = (.ok (), sess') ∧
      Staged schema store t c cells sess sess' := by
  simp only [mapParentRelation, h.isOpen, not_true_eq_false, if_false, Bool.false_eq_true]
  revert hcells
  fun_cases parentCells schema store.keys row rel <;> rintro ⟨⟩
  case case3 read hsource c' hread =>
    simp only [hsource, hread]
    exact ⟨_, rfl, hcurrent ▸ .of_stageCells sess [_]⟩
  case case7 read hsource k hread c' hmatched hzero =>
    simp only [hsource, hread]
    exact mapParentLookup_ok h hsource hread hcurrent hmatched hzero
  all_goals
    simp only [*]
    exact ⟨sess, rfl, .of_stageCells sess []⟩

/-- An attribute puts its cells. -/
theorem mapAttributeValue_ok
    {map : SourceRow → Bool → Except String (List (F × Option V))} (hcurrent : sess.current t = c)
    (hcells : attributeCells row map = some cells) :
    ∃ sess', mapAttributeValue t row false map sess = (.ok (), sess') ∧
      Staged schema store t c cells sess sess' := by
  unfold attributeCells at hcells
  unfold mapAttributeValue
  cases hmap : map row false with
  | error e => simp [hmap, Except.toOption] at hcells
  | ok cells' =>
    simp only [hmap, Except.toOption, some.injEq] at hcells ⊢
    subst hcells hcurrent
    exact ⟨_, rfl, .of_stageCells sess cells'⟩

/-! ## Puts -/

/-- The condition of a put, besides that its row has no rows of child tables: the key is read and
the parents are stored, so that the put has a write; the memories that it relies on are right; the
allocator answers with an unused column; and no other session has unsent data of the row. -/
structure PutOk (schema : Schema T K F V) (store : Storage T F V) (session : S → Session T K F V)
    (s : S) (req : PutRequest T) (next : T → K → Except String ℕ)
    (w : Write (T × K) F V) : Prop where
  provided : req.providedColumnID = 0
  mode : req.primaryKeyMode = .verifyExisting
  shouldLookup : (schema.table req.table).keys.shouldLookup = true
  children : (schema.table req.table).children req.row = .ok []
  write : CallWrite schema store.keys (.put req) w
  memory : ¬ StaleEmpty (schema.table req.table).keys ((session s).keyState store req.table) w.row.2
  parents : ∀ rel ∈ (schema.table req.table).parents, rel.parent ∈ (session s).tables ∧
    ∀ read, rel.source = .lookup read → ∀ k, read req.row = .ok (some k) →
      (schema.table rel.parent).keys.shouldLookup = true ∧
      ¬ StaleEmpty (schema.table rel.parent).keys ((session s).keyState store rel.parent) k
  column : ∃ c, next req.table w.row.2 = .ok c ∧ UnusedColumn store session req.table c
  others : ∀ s', s' ≠ s →
    (∀ c, ((session s').stagedKeys req.table).lookup c ≠
      some ((schema.table req.table).keys.codec.entry w.row.2)) ∧
    ∀ c, (store.keys req.table).lookup c =
      some ((schema.table req.table).keys.codec.entry w.row.2) →
        ∀ f, (session s').staged req.table c f = none

/-- The identity of a row of a lookup table does not depend on a column that the row names. -/
theorem putKey_directColumnID {table : KeyTable K} (hlookup : table.shouldLookup = true) (k : K)
    (direct : Option ℕ) (next : Except String ℕ) (s : KeyState K) :
    putKey table { key := k, directColumnID := direct } next s = putKey table { key := k } next s := by
  simp only [putKey, resolvePrimaryKeyColumnID, hlookup, Bool.not_true, Bool.false_eq_true, if_false]
  rfl

variable [DecidableEq S]

/-- A session that has the identity of a row: its key has a column, which no other session has
cells of in its buffer. -/
structure Identified (schema : Schema T K F V) (store : Storage T F V)
    (session : S → Session T K F V) (E : Effective T K F V) (s : S) (t : T) (k : K) (c : ℕ)
    (sess : Session T K F V) (E' : Effective T K F V) : Prop where
  refines : Refines schema store (update session s sess) E'
  column : E'.column t k = some c
  columns : ∀ t' k' c', E.column t' k' = some c' → E'.column t' k' = some c'
  rows : E'.rows = Write.apply ⟨(t, k), []⟩ E.rows
  current : sess.current t = c
  tables : sess.tables = (session s).tables
  cells : sess.cells = (session s).cells
  known : ∀ f v, (session s).staged t c f = some v → E.column t k = some c
  owner : (store.keys t).lookup c ≠ none ∨ (sess.stagedKeys t).lookup c ≠ none
  others : ∀ s', s' ≠ s → ∀ f, (session s').staged t c f = none
  memories : ∀ p k', StaleEmpty (schema.table p).keys (sess.keyState store p) k' →
    StaleEmpty (schema.table p).keys ((session s).keyState store p) k'
  otherTables : ∀ p, p ≠ t → sess.stagedKeys p = (session s).stagedKeys p ∧
    sess.domains p = (session s).domains p

section

variable {session : S → Session T K F V} {E : Effective T K F V} {s : S} {k : K}

section

variable {keys : KeyState K}
  (hothers : ∀ s', s' ≠ s →
    (∀ c, ((session s').stagedKeys t).lookup c ≠ some ((schema.table t).keys.codec.entry k)) ∧
    ∀ c, (store.keys t).lookup c = some ((schema.table t).keys.codec.entry k) →
      ∀ f, (session s').staged t c f = none)
  (hmemories : ∀ k', StaleEmpty (schema.table t).keys keys k' →
    StaleEmpty (schema.table t).keys ((session s).keyState store t) k')

include hothers hmemories

/-- A key that is held, and that no other session has unsent data of, is identified with its
column. -/
theorem Refines.identified (h : Refines schema store session E) (hk : E.column t k = some c)
    (hsame : SameKeys ((session s).keyState store t) keys) :
    Identified schema store session E s t k c (((session s).setKeys t keys).setCurrent t c) E := by
  have hbuffer := sameBuffer_setKeys hsame
  have hself : Refines schema store (update session s (session s)) E := by
    rwa [update_eq_self]
  have hheld := (h.held t k c).mp hk
  have hown : ∀ s', ((session s').stagedKeys t).lookup c =
      some ((schema.table t).keys.codec.entry k) → s' = s :=
    fun s' hs' => by_contra fun hne => (hothers s' hne).1 c hs'
  refine ⟨?_, hk, fun _ _ _ h => h, E.rows_of_column h.injective hk, ?_, rfl, rfl, fun _ _ _ => hk,
    ?_, ?_, ?_, ?_⟩
  · exact hself.sameBuffer { hbuffer with }
  · simp [setCurrent]
  · refine hheld.imp (fun hstored => Eq.trans_ne hstored (some_ne_none _)) fun ⟨s', hs'⟩ => ?_
    have hkeys : (((session s).setKeys t keys).setCurrent t c).stagedKeys =
        (session s).stagedKeys := hbuffer.stagedKeys
    rw [hkeys, ← hown s' hs', hs']
    exact some_ne_none _
  · intro s' hs f
    rcases hheld with hstored | ⟨s'', hs''⟩
    · exact (hothers s' hs).2 c hstored f
    -- The key is in the buffer of this session, so no other session can have its cells.
    · obtain rfl := hown s'' hs''
      cases hcell : (session s').staged t c f with
      | none => rfl
      | some v =>
        rcases h.stagedKeys s'' t c _ hs'' with ⟨hnone, hkeys, -⟩
        rcases h.owner s' t c f v hcell with hstored | hbuffered
        · exact absurd hnone hstored
        · exact absurd (hkeys s' hs) hbuffered
  · exact staleEmpty_of_setKeys hmemories hsame.stored
  · intro p hp
    simp [setKeys, setCurrent, hp]

/-- A new key is identified with the unused column that it gets. -/
theorem Refines.identified_new (h : Refines schema store session E)
    (hc : UnusedColumn store session t c) (hmiss : ((session s).identity t).lookup k = none)
    (hnone : ∀ c', (store.keys t).lookup c' ≠ some ((schema.table t).keys.codec.entry k))
    (hidentity : keys.batchPrimaryKeyIdentity = ((session s).identity t).insert k c)
    (hstaged : ∀ c', keys.staged.lookup c' =
      if c' = c then some ((schema.table t).keys.codec.entry k)
      else ((session s).stagedKeys t).lookup c') (hstored : keys.stored = store.keys t) :
    Identified schema store session E s t k c
      (((session s).setKeys t keys).setCurrent t c) (E.addKey t k c) := by
  have hnew : ∀ c', E.column t k ≠ some c' := by
    intro c' hcolumn
    rcases (h.held t k c').mp hcolumn with hheld | ⟨s', hheld⟩
    · exact hnone c' hheld
    by_cases hs : s' = s
    · subst hs
      rcases h.stagedKeys s' t c' _ hheld with ⟨-, -, k', hentry, hk'⟩
      rw [← KeyCodec.entry_injective hentry, hmiss] at hk'
      cases hk'
    · exact (hothers s' hs).1 c' hheld
  have hcolumn : E.column t k = none := eq_none_iff_forall_not_mem.mpr hnew
  have hrefines := h.newKey hnew hc hidentity hstaged
  have hkeys : (((session s).setKeys t keys).setCurrent t c).stagedKeys t = keys.staged := by
    simp [setKeys, setCurrent]
  refine ⟨hrefines.sameBuffer ⟨rfl, rfl, rfl⟩, ?_, ?_, E.rows_addKey hcolumn (h.unused hc).2, ?_,
    rfl, rfl, fun f v hv => ?_, ?_, fun s' _ f => hc.staged s' f, ?_, ?_⟩
  · simp [Effective.addKey]
  · intro t' k' c' hk'
    have hne : ¬ (t' = t ∧ k' = k) := by
      rintro ⟨rfl, rfl⟩
      exact hnew c' hk'
    simp [Effective.addKey, hne, hk']
  · simp [setCurrent]
  · cases (hc.staged s f).symm.trans hv
  · refine .inr ?_
    rw [hkeys, hstaged, if_pos rfl]
    exact some_ne_none _
  · exact staleEmpty_of_setKeys hmemories hstored
  · intro p hp
    simp [setKeys, setCurrent, hp]

end

/-- The identity of a row whose put meets its condition. -/
theorem establishRowIdentity_ok {req : PutRequest T}
    {w : Write (T × K) F V} (h : Refines schema store session E)
    (hok : PutOk schema store session s req next w)
    (hkey : (schema.table req.table).readKey req.row false = .ok (some w.row.2)) :
    ∃ sess c E', establishRowIdentity schema store next req req.table req.row false (session s) =
        (.ok (), sess) ∧
      Identified schema store session E s req.table w.row.2 c sess E' := by
  rcases hok.column with ⟨c, hnext, hc⟩
  have houtcome : PutOutcome (schema.table req.table).keys w.row.2 (.ok c)
      ((session s).keyState store req.table) _ _ := putKey_outcome hok.shouldLookup hok.memory
  have hne := putKey_ne_error (k := w.row.2) (c := c) (s := (session s).keyState store req.table)
    hok.shouldLookup fun _ _ hc hc' => h.heldOnce (.inl hc) (.inl hc')
  simp only [establishRowIdentity, hkey, hok.provided, hok.mode, hnext,
    putKey_directColumnID hok.shouldLookup]
  rcases hput : putKey (schema.table req.table).keys { key := w.row.2 } (.ok c)
    ((session s).keyState store req.table) with ⟨result, keys⟩
  rw [hput] at houtcome hne
  have hmemories := fun k' => staleEmpty_of_putKey (k := k') hput
  cases houtcome with
  | hit hknown hsame =>
    have hcolumn := h.identity s req.table w.row.2 _ hknown
    refine ⟨_, _, E, ?_, h.identified hok.others hmemories hcolumn hsame⟩
    simp [h.nonzero _ _ _ hcolumn]
  | @found c' _ hmiss hstored hsame =>
    have hcolumn := (h.held req.table w.row.2 c').mpr (.inl ((hstored c').mpr rfl))
    refine ⟨_, c', E, ?_, h.identified hok.others hmemories hcolumn hsame⟩
    simp [h.nonzero _ _ _ hcolumn]
  | @new c' _ hmiss hnone hnext' hidentity hstaged hstored =>
    obtain rfl := Except.ok.inj hnext'
    refine ⟨((session s).setKeys req.table keys).setCurrent req.table c, c,
      E.addKey req.table w.row.2 c, ?_, ?_⟩
    · simp [hc.nonzero]
    · exact h.identified_new hok.others hmemories hc hmiss hnone hidentity hstaged hstored
  | failed hsame => exact absurd rfl (hne _)

/-- What an accepted call of a session does: it writes a row. -/
structure CallEffect (schema : Schema T K F V) (store : Storage T F V)
    (session : S → Session T K F V) (E : Effective T K F V) (s : S)
    (w : Write (T × K) F V) (sess : Session T K F V) (E' : Effective T K F V) : Prop where
  refines : Refines schema store (update session s sess) E'
  rows : E'.rows = w.apply E.rows
  columns : ∀ t k c, E.column t k = some c → E'.column t k = some c
  written : ∀ t c f v, sess.staged t c f = some v → (session s).staged t c f = some v ∨
    t = w.row.1 ∧ E'.column t w.row.2 = some c ∧ (f, v) ∈ w.cells
  tables : sess.tables = (session s).tables
  memories : ∀ p k, StaleEmpty (schema.table p).keys (sess.keyState store p) k →
    StaleEmpty (schema.table p).keys ((session s).keyState store p) k
  otherTables : ∀ p, p ≠ w.row.1 → sess.stagedKeys p = (session s).stagedKeys p ∧
    ∀ shard, (sess.domains p).lookup (.shard shard) = some .empty →
      ((session s).domains p).lookup (.shard shard) = some .empty

/-- A write sets and clears no cell of its row that a session has staged the other way. -/
def StagedAlike (E : Effective T K F V) (sess : Session T K F V)
    (w : Write (T × K) F V) : Prop :=
  ∀ staged, (∀ f v, staged f = some v →
      ∃ c, E.column w.row.1 w.row.2 = some c ∧ sess.staged w.row.1 c f = some v) →
    SameKinds staged w.cells

/-- A session that has the identity of a row and puts cells into its buffer writes the row. -/
theorem Identified.callEffect {E' : Effective T K F V}
    (h : Identified schema store session E s t k c sess E')
    (hkinds : StagedAlike E (session s) ⟨(t, k), cells⟩)
    (hstaged : Staged schema store t c cells sess sess') :
    CallEffect schema store session E s ⟨(t, k), cells⟩ sess' (E'.setCells t c cells) := by
  have hold := staged_congr h.cells
  have hrefines := h.refines.stageCells h.others h.owner
    (hkinds (sess.staged t c) fun f v hv => ⟨c, h.known f v (hold ▸ hv), hold ▸ hv⟩)
  have heq := stageCells_eq (t := t) (c := c) sess cells
  have hbuffer : SameBuffer (sess.stageCells t c cells) sess' := by
    refine ⟨?_, ?_, hstaged.buffer⟩
    · rw [hstaged.identity, heq]
    · rw [hstaged.stagedKeys, heq]
  refine ⟨hrefines.sameBuffer hbuffer, ?_, h.columns, ?_, hstaged.tables.trans h.tables, ?_, ?_⟩
  · rw [E'.rows_setCells h.refines.injective h.column, h.rows, apply_apply, nil_append]
  · intro t' c' f v hv
    rw [staged_congr hstaged.buffer] at hv
    rcases staged_stageCells hv with hv | ⟨rfl, rfl, hcell⟩
    · exact .inl (hold ▸ hv)
    · exact .inr ⟨rfl, h.column, hcell⟩
  · intro p k' hstale
    exact h.memories p k' (hstaged.memories p k' hstale)
  · intro p hp
    rcases h.otherTables p hp with ⟨hkeys, hdomains⟩
    refine ⟨by rw [hstaged.stagedKeys, hkeys], fun shard hempty => ?_⟩
    rw [← hdomains]
    exact hstaged.seenEmpty p shard hempty

end

/-! ## Calls that meet their conditions -/

section

variable {session : S → Session T K F V} {E : Effective T K F V} {s : S}

variable {w : Write (T × K) F V} {req : PutRequest T}

/-- The parents of a put that meets its condition can be mapped once the row has its identity. -/
theorem parentOk (hok : PutOk schema store session s req next w) {k : K} {base : Session T K F V}
    {E' : Effective T K F V} (hbase : Identified schema store session E s req.table k c base E')
    {rel : ParentRelation T K F} (hrel : rel ∈ (schema.table req.table).parents) :
    ParentOk schema store req.row rel base where
  isOpen := hbase.tables ▸ (hok.parents rel hrel).1
  resolves read hsource k' hk' := by
    rcases (hok.parents rel hrel).2 read hsource k' hk' with ⟨hlookup, hstale⟩
    refine ⟨hlookup, fun hstale' => hstale (hbase.memories _ _ hstale'), fun c hc c' hc' => ?_⟩
    have hcolumn : E'.column rel.parent k' = some c :=
      hbase.refines.identity s rel.parent k' c (by rwa [update_self])
    have hcolumn' : E'.column rel.parent k' = some c' :=
      (hbase.refines.held rel.parent k' c').mpr (.inl hc')
    exact some.inj (hcolumn'.symm.trans hcolumn)

/-- A put that meets its condition is accepted and writes its row. -/
theorem putRow_ok
    (h : Refines schema store session E) (hok : PutOk schema store session s req next w)
    (hkinds : StagedAlike E (session s) w) :
    ∃ sess E', putRow schema store next req (session s) = (.ok (), sess) ∧
      CallEffect schema store session E s w sess E' := by
  cases hok.write with
  | @put _ k cells hkey hcells =>
    rcases establishRowIdentity_ok h hok hkey with ⟨base, c, E', hidentity, hbase⟩
    simp only [rowCells, bind_eq_some_iff, map_eq_some_iff] at hcells
    rcases hcells with ⟨parents, hparents, attributes, hattributes, rfl⟩
    -- After the identity, every stage puts cells of the column into the buffer.
    have hcurrent : ∀ acc sess, Staged schema store req.table c acc base sess →
        sess.current req.table = c := fun acc sess hsess => by
      rw [hsess.current, hbase.current]
    have hstages : Forall₂ (Puts schema store req.table c base)
        ((schema.table req.table).parents.map
            (mapParentRelation schema store next req.table req.row false) ++
          (schema.table req.table).attributes.map (mapAttributeValue req.table req.row false))
        (parents ++ attributes) := by
      refine rel_append ?_ ?_
      · rw [forall₂_map_left_iff]
        refine (forall₂_of_mapM hparents).imp fun rel cells' hrel acc sess hsess => ?_
        exact mapParentRelation_ok ((parentOk hok hbase hrel.1).of_staged hsess)
          (hcurrent acc sess hsess) hrel.2
      · rw [forall₂_map_left_iff]
        refine (forall₂_of_mapM hattributes).imp fun map cells' hmap acc sess hsess => ?_
        exact mapAttributeValue_ok (hcurrent acc sess hsess) hmap.2
    rcases runStages_staged hstages (Staged.of_stageCells base []) with ⟨sess, hrun, hstaged⟩
    refine ⟨sess, _, ?_, hbase.callEffect hkinds hstaged⟩
    simp only [putRow, putStages, hok.children, flatMap_nil, cons_append, runStages,
      hidentity]
    exact hrun

/-- The condition of an update: its column stores a key and its fields are mapped, so that it has
a write; and no other session has unsent cells of the column. -/
structure UpdateOk (schema : Schema T K F V) (store : Storage T F V)
    (session : S → Session T K F V) (s : S) (req : UpdateRequest T F)
    (w : Write (T × K) F V) : Prop where
  write : CallWrite schema store.keys (.update req) w
  others : ∀ s', s' ≠ s → ∀ f, (session s').staged req.table req.columnID f = none

/-- A field of an update puts its cell. -/
theorem updateField_ok {e : F × Value} {cell : F × Option V}
    (hcurrent : sess.current t = c) (hcell : fieldCell schema t e = some cell) :
    ∃ sess', updateField schema t e sess = (.ok (), sess') ∧
      Staged schema store t c [cell] sess sess' := by
  unfold fieldCell at hcell
  unfold updateField
  split_ifs at hcell ⊢ with hkey
  cases hmap : (schema.table t).mapField e.1 e.2 with
  | error err => simp [hmap, Except.toOption] at hcell
  | ok v =>
    simp only [hmap, Except.toOption, map_some, some.injEq] at hcell ⊢
    subst hcell hcurrent
    exact ⟨_, rfl, .of_stageCells sess [_]⟩

/-- An update that meets its condition is accepted and writes its row. -/
theorem updateFields_ok {req : UpdateRequest T F} (h : Refines schema store session E)
    (hok : UpdateOk schema store session s req w) (hkinds : StagedAlike E (session s) w)
    (order : RangeOrder) :
    ∃ sess E', updateFields schema req.table req.values order
        ((session s).setCurrent req.table req.columnID) = (.ok (), sess) ∧
      CallEffect schema store session E s w sess E' := by
  cases hok.write with
  | @update _ k cells hkey hcells =>
    have hcolumn : E.column req.table k = some req.columnID :=
      (h.held req.table k req.columnID).mpr (.inl hkey)
    have hbase := h.identified (s := s) ?others (fun _ h => h) hcolumn (.refl _)
    case others =>
      refine fun s' hs => ⟨fun c hc => ?_, fun c hc f => ?_⟩
      · obtain rfl := h.heldOnce (.inr ⟨s', hc⟩) (.inl hkey)
        rw [(h.stagedKeys s' req.table _ _ hc).1] at hkey
        cases hkey
      · obtain rfl := h.heldOnce (.inl hc) (.inl hkey)
        exact hok.others s' hs f
    have hself : (session s).setKeys req.table ((session s).keyState store req.table) =
        session s := by
      simp [setKeys, keyState]
    rw [hself] at hbase
    rcases exists_cells_perm hcells order with ⟨cells', hcells', hperm, hnodup⟩
    have hstages : Forall₂ (Puts schema store req.table req.columnID
        ((session s).setCurrent req.table req.columnID))
        ((req.values.range order).map (updateField schema req.table)) (cells'.map (fun e => [e])) := by
      rw [forall₂_map_left_iff, forall₂_map_right_iff]
      refine hcells'.imp fun e cell hcell acc sess hsess => ?_
      exact updateField_ok (by rw [hsess.current, hbase.current]) hcell
    rcases runStages_staged hstages (Staged.of_stageCells _ []) with ⟨sess, hrun, hstaged⟩
    have hflat : (cells'.map (fun e => [e])).flatten = cells' := flatMap_singleton' cells'
    rw [hflat, nil_append] at hstaged
    have hput : Staged schema store req.table req.columnID cells
        ((session s).setCurrent req.table req.columnID) sess :=
      { hstaged with buffer := by rw [hstaged.buffer, stageCells_perm hperm hnodup] }
    exact ⟨sess, _, hrun, hbase.callEffect hkinds hput⟩

end

end

end QuantaStream.Core
