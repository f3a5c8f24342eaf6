import QuantaStream.Server.Sequencer

/-!
# Row IDs of string enumerations

The labels of a StringEnum field get row IDs from whichever node a client selects first: the node
gives a new label the successor of the greatest row ID in its own store, and the client then copies
the entry to the other selected nodes.  A copy may be late or lost.  When a node is synchronized
with another one, each side is sent the entries it does not have.

A node keeps the entries of the field in a cache, which every write from outside drops after it has
changed the store.  Each of these steps may be interleaved with any other one.
-/

namespace QuantaStream.Server

open List GoMap

/-! ## One node -/

abbrev EnumStore := GoMap String ℕ

/-- `enumCacheEntry`. -/
structure EnumCache where
  values : EnumStore
  greatestRowID : ℕ

/-- A node: its store for the field and the cache of it. -/
structure EnumNode where
  db : EnumStore := ∅
  cache : Option EnumCache := none

def greatestRow (db : EnumStore) : ℕ := db.entries.foldl (fun greatest e => max greatest e.2) 0

variable (n : EnumNode)

/-- `getStringEnumCacheLocked`: the cache, loaded from the store if there is none. -/
def EnumNode.getStringEnumCacheLocked : EnumCache :=
  n.cache.getD ⟨n.db, greatestRow n.db⟩

/-- `PutStringEnum` of the node.  The write of a new entry may fail. -/
def EnumNode.putStringEnum (label : String) (written : Bool) :
    Option ℕ × EnumNode :=
  if label = "" then (none, n)
  else
    let cache := n.getStringEnumCacheLocked
    match cache.values.lookup label with
    | some row => (some row, { n with cache := some cache })
    | none =>
      if written then
        let row := (cache.greatestRowID + 1) % idSpace
        (some row,
          { db := n.db.insert label row, cache := some ⟨cache.values.insert label row, row⟩ })
      else (none, { n with cache := some cache })

def EnumNode.put (label : String) (row : ℕ) : EnumNode :=
  { n with db := n.db.insert label row }

/-- `invalidateStringEnumCache`. -/
def EnumNode.invalidate : EnumNode := { n with cache := none }

/-! ## The cluster -/

/-- What is under way: an entry to be written on a node, a cache to be dropped after a write, and a
synchronization that has read its own entries. -/
inductive EnumTask (Node : Type) where
  | put (node : Node) (label : String) (row : ℕ)
  | invalidate (node : Node)
  | compare (own peer : Node) (ownBatch : EnumStore)

structure EnumCluster (Node : Type) where
  node : Node → EnumNode := fun _ => {}
  tasks : List (EnumTask Node) := []

open EnumCluster

/-- What happens to the cluster. -/
inductive EnumEvent (Node : Type) where
  /-- A client calls `PutStringEnum` with the nodes it has selected. -/
  | putStringEnum (indices : List Node) (label : String) (written : Bool)
  /-- `syncEnumMetadata` starts; stores of equal size are left alone. -/
  | syncEnumMetadata (own peer : Node) (equalSize : Bool)
  /-- A task is carried out. -/
  | run (task : ℕ)
  /-- A task fails. -/
  | lose (task : ℕ)
  /-- A store is closed, or the node restarts. -/
  | closeStore (node : Node)

variable {Node : Type} [DecidableEq Node] (s : EnumCluster Node)

def EnumCluster.setNode (n : Node) (x : EnumNode) : EnumCluster Node :=
  { s with node := Function.update s.node n x }

/-- The entries of one store whose labels the other one does not have. -/
def missingEntries (store other : EnumStore) : List (String × ℕ) :=
  (store.entries.map fun e => (e.1, e.2)).filter fun e => (other.lookup e.1).isNone

/-- The writes that follow when a synchronization compares both sides.  Writes on the peer drop its
cache one by one; the own cache is dropped at the end. -/
def syncTasks (own peer : Node) (ownBatch peerBatch : EnumStore) : List (EnumTask Node) :=
  (missingEntries ownBatch peerBatch).map (fun e => .put peer e.1 e.2) ++
    (missingEntries peerBatch ownBatch).map (fun e => .put own e.1 e.2) ++ [.invalidate own]

def EnumCluster.runTask : EnumTask Node → EnumCluster Node
  | .put n label row =>
    { s.setNode n ((s.node n).put label row) with tasks := s.tasks ++ [.invalidate n] }
  | .invalidate n => s.setNode n (s.node n).invalidate
  | .compare own peer ownBatch =>
    { s with tasks := s.tasks ++ syncTasks own peer ownBatch (s.node peer).db }

def EnumCluster.step : EnumEvent Node → EnumCluster Node
  | .putStringEnum [] _ _ => s
  | .putStringEnum (first :: replicas) label written =>
    match (s.node first).putStringEnum label written with
    | (none, n) => s.setNode first n
    | (some row, n) =>
      { s.setNode first n with
        tasks := s.tasks ++ replicas.map fun replica => .put replica label row }
  | .syncEnumMetadata own peer equalSize =>
    { s with
      tasks := s.tasks ++
        if equalSize then [.invalidate own] else [.compare own peer (s.node own).db] }
  | .run i =>
    match s.tasks[i]? with
    | none => s
    | some task => runTask { s with tasks := s.tasks.eraseIdx i } task
  | .lose i => { s with tasks := s.tasks.eraseIdx i }
  | .closeStore n => s.setNode n (s.node n).invalidate

/-- No two labels have the same row ID on a node, and no label has different row IDs on two
nodes. -/
structure RowsAgree (s : EnumCluster Node) : Prop where
  distinct : ∀ n label label' row, (s.node n).db.lookup label = some row →
    (s.node n).db.lookup label' = some row → label = label'
  agree : ∀ n n' label row row', (s.node n).db.lookup label = some row →
    (s.node n').db.lookup label = some row' → row = row'

/-! ## What has been handed out -/

/-- A row ID has been handed out for a label: it is in a store or under way to one. -/
def Assigned (label : String) (row : ℕ) : Prop :=
  (∃ n, (s.node n).db.lookup label = some row) ∨ (∃ n, .put n label row ∈ s.tasks) ∨
    ∃ own peer batch, .compare own peer batch ∈ s.tasks ∧ batch.lookup label = some row

/-- Row IDs handed out correspond to labels, and caches hold nothing that their stores do not. -/
structure EnumInv (s : EnumCluster Node) : Prop where
  functional : ∀ label row row', Assigned s label row → Assigned s label row' → row = row'
  injective : ∀ label label' row, Assigned s label row → Assigned s label' row → label = label'
  cached : ∀ n cache, (s.node n).cache = some cache → ∀ label row,
    cache.values.lookup label = some row →
      (s.node n).db.lookup label = some row ∧ row ≤ cache.greatestRowID

variable {s : EnumCluster Node}

omit [DecidableEq Node] in
theorem EnumInv.rowsAgree (h : EnumInv s) : RowsAgree s where
  distinct n label label' row hl hl' := h.injective label label' row (.inl ⟨n, hl⟩) (.inl ⟨n, hl'⟩)
  agree n n' label row row' hl hl' := h.functional label row row' (.inl ⟨n, hl⟩) (.inl ⟨n', hl'⟩)

omit [DecidableEq Node] in
/-- A step that hands out nothing new. -/
theorem EnumInv.of_assigned {s s' : EnumCluster Node} (h : EnumInv s)
    (hassigned : ∀ label row, Assigned s' label row → Assigned s label row)
    (hcached : ∀ n cache, (s'.node n).cache = some cache → ∀ label row,
      cache.values.lookup label = some row →
        (s'.node n).db.lookup label = some row ∧ row ≤ cache.greatestRowID) : EnumInv s' where
  functional label row row' hl hl' :=
    h.functional label row row' (hassigned _ _ hl) (hassigned _ _ hl')
  injective label label' row hl hl' :=
    h.injective label label' row (hassigned _ _ hl) (hassigned _ _ hl')
  cached := hcached

variable {label : String} {row : ℕ}

theorem le_greatestRow {db : EnumStore} (h : db.lookup label = some row) :
    row ≤ greatestRow db := by
  have hfold : ∀ (l : List (Sigma fun _ : String => ℕ)) (start : ℕ),
      start ≤ l.foldl (fun greatest e => max greatest e.2) start ∧
        ∀ e ∈ l, e.2 ≤ l.foldl (fun greatest e => max greatest e.2) start := by
    intro l
    induction l with
    | nil => simp
    | cons a l ih =>
      intro start
      obtain ⟨hstart, hrest⟩ := ih (max start a.2)
      exact ⟨(le_max_left _ _).trans hstart,
        forall_mem_cons.mpr ⟨(le_max_right _ _).trans hstart, hrest⟩⟩
  exact (hfold db.entries 0).2 _ (AList.mem_lookup_iff.mp h)

omit [DecidableEq Node] in
/-- What a node takes for the entries of the field is in its store. -/
theorem EnumInv.locked (h : EnumInv s) (n : Node)
    (hlookup : (s.node n).getStringEnumCacheLocked.values.lookup label = some row) :
    (s.node n).db.lookup label = some row ∧
      row ≤ (s.node n).getStringEnumCacheLocked.greatestRowID := by
  unfold EnumNode.getStringEnumCacheLocked at hlookup ⊢
  cases hcache : (s.node n).cache <;> rw [hcache] at hlookup
  · exact ⟨hlookup, le_greatestRow hlookup⟩
  · exact h.cached n _ hcache label row hlookup

theorem mem_missingEntries {store other : EnumStore}
    (h : (label, row) ∈ missingEntries store other) : store.lookup label = some row := by
  obtain ⟨hmem, -⟩ := mem_filter.mp h
  obtain ⟨e, he, heq⟩ := mem_map.mp hmem
  cases heq
  exact AList.mem_lookup_iff.mpr he

omit [DecidableEq Node] in
/-- A synchronization sends only entries of the two sides. -/
theorem put_mem_syncTasks {own peer n : Node} {ownBatch peerBatch : EnumStore}
    (h : .put n label row ∈ syncTasks own peer ownBatch peerBatch) :
    ownBatch.lookup label = some row ∨ peerBatch.lookup label = some row := by
  simp only [syncTasks, mem_append, mem_map, mem_singleton, reduceCtorEq, or_false] at h
  rcases h with ⟨e, he, ⟨⟩⟩ | ⟨e, he, ⟨⟩⟩
  · exact .inl (mem_missingEntries he)
  · exact .inr (mem_missingEntries he)

/-! ## Steps -/

@[simp] theorem setNode_node_self (s : EnumCluster Node) (n : Node) (x : EnumNode) :
    (s.setNode n x).node n = x := Function.update_self ..

theorem setNode_node_of_ne (s : EnumCluster Node) {n m : Node} (h : m ≠ n) (x : EnumNode) :
    (s.setNode n x).node m = s.node m := Function.update_of_ne h ..

section

variable (h : EnumInv s)

include h

omit [DecidableEq Node] in
/-- Some tasks are gone, and the new ones carry only what has been handed out. -/
theorem EnumInv.with_tasks {kept tasks : List (EnumTask Node)} (hkept : ∀ t ∈ kept, t ∈ s.tasks)
    (hput : ∀ n label row, .put n label row ∈ tasks → Assigned s label row)
    (hcompare : ∀ own peer batch, .compare own peer batch ∈ tasks →
      ∀ label row, batch.lookup label = some row → Assigned s label row) :
    EnumInv { s with tasks := kept ++ tasks } := by
  refine h.of_assigned (fun label row hassigned => ?_) h.cached
  rcases hassigned with hn | ⟨n, hn⟩ | ⟨own, peer, batch, hbatch, hl⟩
  · exact .inl hn
  · rcases mem_append.mp hn with hn | hn
    · exact .inr (.inl ⟨n, hkept _ hn⟩)
    · exact hput n label row hn
  · rcases mem_append.mp hbatch with hbatch | hbatch
    · exact .inr (.inr ⟨own, peer, batch, hkept _ hbatch, hl⟩)
    · exact hcompare own peer batch hbatch label row hl

omit [DecidableEq Node] in
theorem EnumInv.erase_task (i : ℕ) : EnumInv { s with tasks := s.tasks.eraseIdx i } := by
  rw [← append_nil (s.tasks.eraseIdx i)]
  exact h.with_tasks (fun _ => mem_of_mem_eraseIdx) nofun nofun

/-- A node stores what has been handed out, and its cache has what it stores. -/
theorem EnumInv.setNode (n : Node) (x : EnumNode)
    (hdb : ∀ label row, x.db.lookup label = some row → Assigned s label row)
    (hcache : ∀ c, x.cache = some c → ∀ label row, c.values.lookup label = some row →
      x.db.lookup label = some row ∧ row ≤ c.greatestRowID) : EnumInv (s.setNode n x) := by
  refine h.of_assigned (fun label row hassigned => ?_) fun m c hc label row hlookup => ?_
  · rcases hassigned with ⟨m, hm⟩ | htask
    · by_cases hmn : m = n
      · rw [hmn, setNode_node_self] at hm
        exact hdb label row hm
      · rw [setNode_node_of_ne s hmn] at hm
        exact .inl ⟨m, hm⟩
    · exact .inr htask
  · by_cases hmn : m = n
    · rw [hmn, setNode_node_self] at hc ⊢
      exact hcache c hc label row hlookup
    · rw [setNode_node_of_ne s hmn] at hc ⊢
      exact h.cached m c hc label row hlookup

theorem EnumInv.invalidate (n : Node) : EnumInv (s.setNode n (s.node n).invalidate) :=
  h.setNode n _ (fun _ _ hdb => .inl ⟨n, hdb⟩) nofun

/-- What a node loads into its cache is in its store. -/
theorem EnumInv.load (n : Node) :
    EnumInv (s.setNode n { s.node n with cache := some (s.node n).getStringEnumCacheLocked }) := by
  refine h.setNode n _ (fun _ _ hdb => .inl ⟨n, hdb⟩) fun c hc label row hlookup => ?_
  cases hc
  exact h.locked n hlookup

theorem EnumInv.put (n : Node) (hassigned : Assigned s label row) :
    EnumInv (s.setNode n ((s.node n).put label row)) := by
  refine h.setNode n _ (fun l r hl => ?_) fun cache hcache l r hlookup => ?_
  · rw [EnumNode.put, lookup_insert] at hl
    split_ifs at hl with heq
    · cases hl
      exact heq ▸ hassigned
    · exact .inl ⟨n, hl⟩
  · obtain ⟨hdb, hle⟩ := h.cached n cache hcache l r hlookup
    refine ⟨?_, hle⟩
    rw [EnumNode.put, lookup_insert]
    split_ifs with heq
    · rw [heq] at hdb
      exact congrArg some (h.functional label row r hassigned (.inl ⟨n, hdb⟩))
    · exact hdb

theorem EnumInv.run (i : ℕ) : EnumInv (s.step (.run i)) := by
  rw [step]
  split
  · exact h
  rename_i task htask
  have hmem : task ∈ s.tasks := mem_of_getElem? htask
  have hsub : ∀ t ∈ s.tasks.eraseIdx i, t ∈ s.tasks := fun t ht => mem_of_mem_eraseIdx ht
  cases task with
  | invalidate n => exact (h.erase_task i).invalidate n
  | put n label row =>
    have hput := h.put n (.inr (.inl ⟨n, hmem⟩))
    refine hput.with_tasks hsub ?_ ?_
    all_goals simp
  | compare own peer batch =>
    refine h.with_tasks hsub (fun n label row hput => ?_) fun own' peer' batch' hcompare => ?_
    · rcases put_mem_syncTasks hput with hl | hl
      · exact .inr (.inr ⟨own, peer, batch, hmem, hl⟩)
      · exact .inl ⟨peer, hl⟩
    · simp [syncTasks] at hcompare

/-- A synchronization reads the entries of its own store. -/
theorem EnumInv.sync (own peer : Node) (equalSize : Bool) :
    EnumInv (s.step (.syncEnumMetadata own peer equalSize)) := by
  refine h.with_tasks (fun _ ht => ht) (fun n label row hput => ?_)
    fun own' peer' batch hcompare label row hl => ?_
  · cases equalSize <;> simp at hput
  · cases equalSize with
    | true => simp at hcompare
    | false =>
      obtain ⟨rfl, rfl, rfl⟩ : own' = own ∧ peer' = peer ∧ batch = (s.node own).db := by
        simpa using hcompare
      exact .inl ⟨own', hl⟩

end

/-- A node knows every row ID that has been handed out. -/
def Current (s : EnumCluster Node) (n : Node) : Prop :=
  ∀ label row, Assigned s label row →
    (s.node n).getStringEnumCacheLocked.values.lookup label = some row

/-- A label that a node does not find is allocated only if the node knows every row ID that has
been handed out, and has not run out of row IDs. -/
def AllocatedCurrent (s : EnumCluster Node) : EnumEvent Node → Prop
  | .putStringEnum (first :: _) label written =>
    label ≠ "" → written = true →
      (s.node first).getStringEnumCacheLocked.values.lookup label = none →
        Current s first ∧ (s.node first).getStringEnumCacheLocked.greatestRowID + 1 < idSpace
  | _ => True

theorem putStringEnum_cases {n : EnumNode} {cache : EnumCache}
    (hcache : n.getStringEnumCacheLocked = cache) (label : String) (written : Bool) :
    n.putStringEnum label written = (none, n) ∨
    n.putStringEnum label written = (none, { n with cache := some cache }) ∨
    (∃ row, cache.values.lookup label = some row ∧
      n.putStringEnum label written = (some row, { n with cache := some cache })) ∨
    (label ≠ "" ∧ written = true ∧ cache.values.lookup label = none ∧
      ∃ row, row = (cache.greatestRowID + 1) % idSpace ∧ n.putStringEnum label written = (some row,
        { db := n.db.insert label row, cache := some ⟨cache.values.insert label row, row⟩ })) := by
  subst hcache
  fun_cases n.putStringEnum label written
  case case1 => exact .inl rfl
  case case2 row hlookup => exact .inr (.inr (.inl ⟨row, hlookup, rfl⟩))
  case case3 hlabel _ hlookup hwritten _ =>
    exact .inr (.inr (.inr ⟨hlabel, hwritten, hlookup, _, rfl, rfl⟩))
  case case4 => exact .inr (.inl rfl)

/-- A new label gets a row ID that has not been handed out. -/
theorem EnumInv.allocate (h : EnumInv s) (first : Node) (hcurrent : Current s first)
    (hnone : (s.node first).getStringEnumCacheLocked.values.lookup label = none)
    (hrow : (s.node first).getStringEnumCacheLocked.greatestRowID < row) {replicas : List Node}
    {s' : EnumCluster Node} (hs' : s' = { s.setNode first
        { db := (s.node first).db.insert label row
          cache := some ⟨(s.node first).getStringEnumCacheLocked.values.insert label row, row⟩ } with
      tasks := s.tasks ++ replicas.map fun replica => .put replica label row }) : EnumInv s' := by
  set cache := (s.node first).getStringEnumCacheLocked with hcache
  -- nothing has been handed out for the label, and the row ID not for any label
  have hfresh : ∀ r, ¬ Assigned s label r := fun r hr =>
    nomatch hnone.symm.trans (hcurrent label r hr)
  have hunused : ∀ l, ¬ Assigned s l row := by
    intro l hl
    have hle : row ≤ cache.greatestRowID := (h.locked first (hcurrent l row hl)).2
    omega
  have hassigned : ∀ l r, Assigned s' l r → Assigned s l r ∨ l = label ∧ r = row := by
    subst hs'
    rintro l r (⟨m, hm⟩ | ⟨m, hm⟩ | ⟨own, peer, batch, hbatch, hl⟩)
    · by_cases hmf : m = first
      · subst hmf
        simp only [setNode_node_self, lookup_insert] at hm
        split_ifs at hm with heq
        · exact .inr ⟨heq, (Option.some.inj hm).symm⟩
        · exact .inl (.inl ⟨m, hm⟩)
      · simp only [setNode_node_of_ne s hmf] at hm
        exact .inl (.inl ⟨m, hm⟩)
    · rcases mem_append.mp hm with hm | hm
      · exact .inl (.inr (.inl ⟨m, hm⟩))
      · obtain ⟨_, -, heq⟩ := mem_map.mp hm
        cases heq
        exact .inr ⟨rfl, rfl⟩
    · rcases mem_append.mp hbatch with hbatch | hbatch
      · exact .inl (.inr (.inr ⟨own, peer, batch, hbatch, hl⟩))
      · simp at hbatch
  refine ⟨fun l r r' hr hr' => ?_, fun l l' r hl hl' => ?_, fun m c hc l r hlookup => ?_⟩
  · rcases hassigned l r hr with hold | ⟨rfl, rfl⟩ <;>
      rcases hassigned _ r' hr' with hold' | ⟨hl, rfl⟩
    · exact h.functional l r r' hold hold'
    · exact absurd (hl ▸ hold) (hfresh r)
    · exact absurd hold' (hfresh r')
    · rfl
  · rcases hassigned l r hl with hold | ⟨rfl, rfl⟩ <;>
      rcases hassigned l' _ hl' with hold' | ⟨rfl, hr⟩
    · exact h.injective l l' r hold hold'
    · exact absurd (hr ▸ hold) (hunused l)
    · exact absurd hold' (hunused l')
    · rfl
  · subst hs'
    by_cases hmf : m = first
    · subst hmf
      simp only [setNode_node_self] at hc ⊢
      cases hc
      simp only [lookup_insert] at hlookup ⊢
      split_ifs at hlookup ⊢ with heq
      · exact ⟨hlookup, (Option.some.inj hlookup).ge⟩
      · obtain ⟨hdb, hle⟩ := h.locked m hlookup
        exact ⟨hdb, hle.trans hrow.le⟩
    · simp only [setNode_node_of_ne s hmf] at hc ⊢
      exact h.cached m c hc l r hlookup

theorem EnumInv.step (h : EnumInv s) (e : EnumEvent Node) (he : AllocatedCurrent s e) :
    EnumInv (s.step e) := by
  cases e with
  | putStringEnum indices label written =>
    cases indices with
    | nil => exact h
    | cons first replicas =>
      rw [EnumCluster.step]
      obtain hput | hput | ⟨row, hrow, hput⟩ | ⟨hlabel, hwritten, hnone, row, rfl, hput⟩ :=
        putStringEnum_cases (n := s.node first) rfl label written
      · rw [hput]
        simpa [EnumCluster.setNode] using h
      · rw [hput]
        exact h.load first
      · rw [hput]
        refine (h.load first).with_tasks (fun _ ht => ht) (fun n l r hmem => ?_)
          fun _ _ _ hmem => ?_
        · obtain ⟨_, -, heq⟩ := mem_map.mp hmem
          cases heq
          refine .inl ⟨first, ?_⟩
          rw [setNode_node_self]
          exact (h.locked first hrow).1
        · simp at hmem
      · obtain ⟨hcurrent, hspace⟩ := he hlabel hwritten hnone
        rw [hput]
        refine h.allocate first hcurrent hnone ?_ rfl
        rw [Nat.mod_eq_of_lt hspace]
        omega
  | syncEnumMetadata own peer equalSize => exact h.sync own peer equalSize
  | run i => exact h.run i
  | lose i => exact h.erase_task i
  | closeStore n => exact h.invalidate n

omit [DecidableEq Node] in
theorem not_assigned_empty : ¬ Assigned ({} : EnumCluster Node) label row := by
  simp [Assigned]

omit [DecidableEq Node] in
theorem enumInv_empty : EnumInv ({} : EnumCluster Node) :=
  ⟨fun _ _ _ h => absurd h not_assigned_empty, fun _ _ _ h => absurd h not_assigned_empty,
    fun n c hc => by cases hc⟩

/-- If every new label is allocated on a node that knows all row IDs handed out so far, then no two
labels have one row ID on a node and no label has two row IDs. -/
theorem enum_rows_agree (es : List (EnumEvent Node))
    (hes : Run.Meets step AllocatedCurrent {} es) :
    RowsAgree (Run.exec step ({} : EnumCluster Node) es) :=
  (Run.exec_induction step (fun _ e h he => h.step e he) enumInv_empty hes).rowsAgree

/-- The copy of the first label is lost, the node that has it takes the second label, and the other
node gets both by a synchronization. -/
theorem enum_rows_agree_first :
    let s := Run.exec step ({} : EnumCluster Bool)
      [.putStringEnum [false, true] "open" true, .lose 0, .putStringEnum [false] "closed" true,
        .syncEnumMetadata true false false, .run 0, .run 0, .run 0]
    RowsAgree s ∧ (s.node true).db.lookup "open" = some 1 ∧
      (s.node true).db.lookup "closed" = some 2 := by
  refine ⟨enum_rows_agree _ ⟨fun _ _ _ => ⟨fun _ _ h => absurd h not_assigned_empty, by decide⟩,
    trivial, fun _ _ _ => ⟨fun label row h => ?_, by decide⟩, trivial, trivial, trivial, trivial,
    trivial⟩, by decide, by decide⟩
  rcases h with ⟨n, h⟩ | ⟨n, h⟩ | ⟨_, _, _, h, _⟩
  · cases n with
    | false => exact h
    | true => cases h
  · cases h
  · cases h

/-- The copy of the first label is lost, the next client selects the other node first, and the two
nodes are synchronized: both labels have row ID 1. -/
theorem lost_copy_repeats_row :
    ¬ RowsAgree (Run.exec step ({} : EnumCluster Bool)
      [.putStringEnum [false, true] "open" true, .lose 0, .putStringEnum [true] "closed" true,
        .syncEnumMetadata false true false, .run 0, .run 0]) := by
  intro h
  have heq := h.distinct true "open" "closed" 1 (by decide) (by decide)
  exact absurd heq (by decide)

end QuantaStream.Server
