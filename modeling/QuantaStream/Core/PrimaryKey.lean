import QuantaStream.Lib.GoMap

/-!
# Resolving primary keys

A row is put under a primary key, and the session resolves the key to a column before it maps the
row.  It remembers three things: the keys of the rows in its batch, which domains of the primary
key it has seen to be empty or not, and, through the backend, the values stored in the bit-sliced
index of the key.  This module models the resolver and the steps of a session that change these
memories.
-/

namespace QuantaStream.Core

/-! ## Keys and their storage -/

inductive PrimaryKeyDomainState where
  | unknown
  | empty
  | nonEmpty
  deriving DecidableEq, Repr

inductive PrimaryKeyMode where
  | verifyExisting
  | assumeNew
  deriving DecidableEq, Repr

/-- How the keys of a table are stored.  `K` is the type of typed primary-key values.  Each key
lies in one shard, and its authority value is the integer stored for its row; in one shard,
different keys have different authority values. -/
structure KeyCodec (K : Type) where
  tableName : String
  primaryKey : String
  render : K → String
  shard : K → ℤ
  authority : K → ℤ
  authority_injective : ∀ {k k' : K}, shard k = shard k' → authority k = authority k' → k = k'

/-- What the index of a primary key stores for each column: a shard and a value. -/
abbrev KeyStore := GoMap ℕ (ℤ × ℤ)

/-- What the index stores for a row with a key. -/
def KeyCodec.entry {K : Type} (codec : KeyCodec K) (k : K) : ℤ × ℤ :=
  (codec.shard k, codec.authority k)

theorem KeyCodec.entry_injective {K : Type} {codec : KeyCodec K} {k k' : K}
    (h : codec.entry k = codec.entry k') : k = k' :=
  codec.authority_injective (congrArg Prod.fst h) (congrArg Prod.snd h)

/-- The keys of the domain states: the shards of the primary key and the key as a whole. -/
inductive DomainKey where
  | shard (time : ℤ)
  | authority
  deriving DecidableEq

/-- What a session knows about the primary key of a table, and what is stored. -/
structure KeyState (K : Type) where
  batchPrimaryKeyIdentity : GoMap K ℕ := ∅
  primaryKeyDomainStates : GoMap DomainKey PrimaryKeyDomainState := ∅
  staged : KeyStore := ∅
  stored : KeyStore := ∅

/-- The table of a resolver: its codec, whether its keys are looked up at all, whether its
backend can probe a domain, and whether it is the backend of compound keys. -/
structure KeyTable (K : Type) where
  codec : KeyCodec K
  shouldLookup : Bool := true
  probes : Bool := true
  compound : Bool := false

/-! ## The backend -/

section

variable {K : Type} (table : KeyTable K)

/-- `LookupPrimaryKey`: the columns that store the authority value in the shard of the key. -/
def lookupPrimaryKey (stored : KeyStore) (k : K) : List ℕ :=
  (stored.range .asKept).filterMap
    (fun e => if e.2 = table.codec.entry k then some e.1 else none)

/-- `PrimaryKeyDomainState` of the backend. -/
def primaryKeyDomainState (stored : KeyStore) (k : K) : PrimaryKeyDomainState :=
  if (stored.range .asKept).any (fun e => e.2.1 = table.codec.shard k) then .nonEmpty else .empty

/-- `StagePrimaryKey`: the backend of a single column leaves staging to the mapping of the key
field. -/
def stagePrimaryKey (k : K) (columnID : ℕ) (s : KeyState K) : KeyState K :=
  if table.compound then { s with staged := s.staged.insert columnID (table.codec.entry k) } else s

/-! ## The resolver -/

/-- `PrimaryKeyResolveRequest`.  `directColumnID` is the column that a key field names itself. -/
structure ResolveRequest (K : Type) where
  key : K
  providedColumnID : ℕ := 0
  directColumnID : Option ℕ := none
  primaryKeyMode : PrimaryKeyMode := .verifyExisting
  lookupOnly : Bool := false

structure ResolveResult where
  columnID : ℕ
  existingRow : Bool
  deriving DecidableEq, Repr

/-- `markBSIPrimaryKeyDomainState`. -/
def markDomainState (key : DomainKey) (state : PrimaryKeyDomainState) (s : KeyState K) :
    KeyState K :=
  match state with
  | .unknown => s
  | state => { s with primaryKeyDomainStates := s.primaryKeyDomainStates.insert key state }

variable (req : ResolveRequest K)

def shouldSkipLookupForEmptyDomain (s : KeyState K) : Bool × KeyState K :=
  if req.primaryKeyMode = .assumeNew then (false, s)
  else
    let domainKey := DomainKey.shard (table.codec.shard req.key)
    let cached := s.primaryKeyDomainStates.lookup domainKey
    if cached = some .nonEmpty then (false, s)
    else if s.primaryKeyDomainStates.lookup .authority = some .nonEmpty then (false, s)
    else if cached = some .empty then (true, s)
    else if !table.probes then (false, s)
    else
      match primaryKeyDomainState table s.stored req.key with
      | .empty => (true, markDomainState domainKey .empty s)
      | .nonEmpty =>
        (false, markDomainState .authority .nonEmpty (markDomainState domainKey .nonEmpty s))
      | .unknown => (false, s)

/-- `allocatePrimaryKeyColumnID`.  `next` is what the allocator would return. -/
def allocatePrimaryKeyColumnID (next : Except String ℕ) : Except String ℕ :=
  if req.providedColumnID ≠ 0 then .ok req.providedColumnID else next

/-- `SetPrimaryKeyIdentity`: the first column of a key is kept. -/
def setPrimaryKeyIdentity [DecidableEq K] (k : K) (columnID : ℕ) (s : KeyState K) : KeyState K :=
  match s.batchPrimaryKeyIdentity.lookup k with
  | some _ => s
  | none => { s with batchPrimaryKeyIdentity := s.batchPrimaryKeyIdentity.insert k columnID }

variable [DecidableEq K]

/-- The end of `ResolvePrimaryKeyColumnID`: the key gets a new column. -/
def allocateAndStage (req : ResolveRequest K) (next : Except String ℕ) (s : KeyState K) :
    Except String ResolveResult × KeyState K :=
  match allocatePrimaryKeyColumnID req next with
  | .error e => (.error e, s)
  | .ok columnID =>
    (.ok ⟨columnID, false⟩,
      setPrimaryKeyIdentity req.key columnID (stagePrimaryKey table req.key columnID s))

/-- The middle of `ResolvePrimaryKeyColumnID`: the key is looked up in the index. -/
def lookupAndAllocate (req : ResolveRequest K) (next : Except String ℕ) (s : KeyState K) :
    Except String ResolveResult × KeyState K :=
  match lookupPrimaryKey table s.stored req.key with
  | [] => if req.lookupOnly then (.ok ⟨0, false⟩, s) else allocateAndStage table req next s
  | [columnID] =>
    (.ok ⟨columnID, true⟩,
      markDomainState .authority .nonEmpty
        (markDomainState (.shard (table.codec.shard req.key)) .nonEmpty s))
  | matched =>
    (.error s!"BSI primary key authority conflict for {table.codec.tableName}.{table.codec.primaryKey} value {table.codec.render req.key}: matched {matched.length} rownums", s)

def resolveDirectColumnID (next : Except String ℕ) : Except String ResolveResult :=
  match req.directColumnID with
  | some columnID => .ok ⟨columnID, false⟩
  | none => (allocatePrimaryKeyColumnID req next).map (fun columnID => ⟨columnID, false⟩)

def resolvePrimaryKeyColumnID (req : ResolveRequest K) (next : Except String ℕ)
    (s : KeyState K) : Except String ResolveResult × KeyState K :=
  if !table.shouldLookup then (resolveDirectColumnID req next, s)
  else
    match s.batchPrimaryKeyIdentity.lookup req.key with
    | some columnID =>
      if req.providedColumnID ≠ 0 ∧ req.providedColumnID ≠ columnID then
        (.error s!"BSI primary key local batch conflict for {table.codec.render req.key}: existing column ID {columnID}, provided column ID {req.providedColumnID}", s)
      else (.ok ⟨columnID, true⟩, s)
    | none =>
      let (domainSkip, s) := shouldSkipLookupForEmptyDomain table req s
      if req.primaryKeyMode = .assumeNew then allocateAndStage table req next s
      else if domainSkip then allocateAndStage table req next s
      else lookupAndAllocate table req next s

/-! ## Steps of a session -/

/-- The part of `processPrimaryKey` that resolves the key and maps the key field of a new row. -/
def putKey (req : ResolveRequest K) (next : Except String ℕ) (s : KeyState K) :
    Except String ResolveResult × KeyState K :=
  match resolvePrimaryKeyColumnID table req next s with
  | (.error e, s) => (.error e, s)
  | (.ok r, s) =>
    if r.existingRow then (.ok r, s)
    else (.ok r, { s with staged := s.staged.insert r.columnID (table.codec.entry req.key) })

/-- The batch buffer sends its values, when it is full or when it is flushed. -/
def sendStaged (s : KeyState K) : KeyState K :=
  { s with stored := s.staged ∪ s.stored, staged := ∅ }

/-- `Flush`: the values are sent and the keys of the batch are forgotten. -/
def flushKeys (s : KeyState K) : KeyState K :=
  { sendStaged s with batchPrimaryKeyIdentity := ∅ }

end

end QuantaStream.Core
