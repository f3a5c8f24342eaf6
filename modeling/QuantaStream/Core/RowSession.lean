import QuantaStream.Core.WALPayload

/-!
# Putting and updating rows

A session puts a row in stages: it resolves the primary key to a column, puts the rows of child
tables, looks up the rows of parent tables and maps the attributes.  Every stage may fail, and
what the stages before it have put into the buffer stays there.  The log has the record of the
call before the first stage.

A cell of a row is what a field holds for a column.  All fields are bit-sliced: the buffer has one
map of the values to set and another of the values to clear, and sends the first before the
second.  The readers and mappers of a table are functions of the row, and the keys of a table are
looked up in its index as it is stored.
-/

namespace QuantaStream.Core

open GoString

/-! ## Tables -/

/-- How a parent relation finds the parent of a row: the row names the column of the parent, or
its primary key. -/
inductive ParentSource (K : Type) where
  | direct (read : SourceRow → Except String (Option ℕ))
  | lookup (read : SourceRow → Except String (Option K))

/-- A `ParentRelation` attribute. -/
structure ParentRelation (T K F : Type) where
  field : F
  parent : T
  foreignKey : String
  source : ParentSource K

/-- What a session knows of a table.  `readKey` reads and maps the fields of the primary key; a
row of a child table may have none.  Each attribute gives the cells it sets. -/
structure RowTable (T K F V : Type) where
  keys : KeyTable K
  readKey : SourceRow → Bool → Except String (Option K)
  directColumnID : SourceRow → Option ℕ := fun _ => none
  children : SourceRow → Except String (List (T × SourceRow)) := fun _ => .ok []
  parents : List (ParentRelation T K F) := []
  attributes : List (SourceRow → Bool → Except String (List (F × Option V))) := []
  isPrimaryKey : F → Bool
  mapField : F → Value → Except String (Option V)

/-- The tables, with the names of the fields, how a column is stored as a value, and how deep
child tables nest. -/
structure Schema (T K F V : Type) where
  table : T → RowTable T K F V
  fieldName : F → String
  columnValue : ℕ → V
  depth : ℕ := 0

def Schema.tableName {T K F V : Type} (schema : Schema T K F V) (t : T) : String :=
  (schema.table t).keys.codec.tableName

/-! ## Sessions -/

/-- `batchValues` and `batchClearValues`: the values to set and to clear. -/
structure CellBuffer (T F V : Type) where
  values : T → ℕ → F → Option V := fun _ _ _ => none
  clearValues : T → ℕ → F → Bool := fun _ _ _ => false

/-- A session: the tables it has open, what it knows of their keys, its buffer and the current
column of each table. -/
structure Session (T K F V : Type) where
  tables : List T
  identity : T → GoMap K ℕ := fun _ => ∅
  domains : T → GoMap DomainKey PrimaryKeyDomainState := fun _ => ∅
  stagedKeys : T → KeyStore := fun _ => ∅
  cells : CellBuffer T F V := {}
  current : T → ℕ := fun _ => 0

/-- The storage: the indexes of the primary keys, and the cells of the columns. -/
structure Storage (T F V : Type) where
  keys : T → KeyStore := fun _ => ∅
  cells : T → ℕ → F → Option V := fun _ _ _ => none

section

variable {T F V : Type} [DecidableEq T] [DecidableEq F] (b : CellBuffer T F V)

/-- `SetValue` and `ClearValue`. -/
def CellBuffer.set (t : T) (c : ℕ) (e : F × Option V) : CellBuffer T F V :=
  match e.2 with
  | some v =>
    { b with values t' c' f := if t' = t ∧ c' = c ∧ f = e.1 then some v else b.values t' c' f }
  | none =>
    { b with clearValues t' c' f := decide (t' = t ∧ c' = c ∧ f = e.1) || b.clearValues t' c' f }

/-- What a cell holds once the whole buffer is sent, if the buffer has anything for it. -/
def CellBuffer.staged (t : T) (c : ℕ) (f : F) : Option (Option V) :=
  if b.clearValues t c f then some none else (b.values t c f).map some

end

section

variable {T K F V : Type} [DecidableEq T] [DecidableEq K] [DecidableEq F] (s : Session T K F V)

abbrev Session.staged : T → ℕ → F → Option (Option V) := s.cells.staged

/-- What the resolver of a table works on. -/
def Session.keyState (store : Storage T F V) (t : T) : KeyState K where
  batchPrimaryKeyIdentity := s.identity t
  primaryKeyDomainStates := s.domains t
  staged := s.stagedKeys t
  stored := store.keys t

/-- What the resolver of a table has changed. -/
def Session.setKeys (t : T) (keys : KeyState K) : Session T K F V :=
  { s with
    identity := Function.update s.identity t keys.batchPrimaryKeyIdentity
    domains := Function.update s.domains t keys.primaryKeyDomainStates
    stagedKeys := Function.update s.stagedKeys t keys.staged }

def Session.setCurrent (t : T) (c : ℕ) : Session T K F V :=
  { s with current := Function.update s.current t c }

def Session.stageCell (t : T) (c : ℕ) (e : F × Option V) : Session T K F V :=
  { s with cells := s.cells.set t c e }

def Session.stageCells (t : T) (c : ℕ) (cells : List (F × Option V)) : Session T K F V :=
  cells.foldl (fun s e => s.stageCell t c e) s

/-! ## Stages of a put -/

abbrev Stage (T K F V : Type) := Session T K F V → Except String Unit × Session T K F V

/-- `runPutRowPipeline`: the stages up to the first that fails. -/
def runStages : List (Stage T K F V) → Stage T K F V
  | [], s => (.ok (), s)
  | stage :: stages, s =>
    match stage s with
    | (.error e, s) => (.error e, s)
    | (.ok (), s) => runStages stages s

variable (schema : Schema T K F V) (store : Storage T F V) (next : T → K → Except String ℕ)

/-- `establishRowIdentity`.  `next` is what the allocator would return for a new row. -/
def establishRowIdentity (req : PutRequest T) (t : T) (row : SourceRow) (isChild : Bool) :
    Stage T K F V := fun s =>
  match (schema.table t).readKey row isChild with
  | .error e => (.error e, s)
  | .ok none => (.ok (), s)
  | .ok (some k) =>
    let resolve : ResolveRequest K :=
      { key := k
        providedColumnID := req.providedColumnID
        directColumnID := (schema.table t).directColumnID row
        primaryKeyMode := req.primaryKeyMode }
    match putKey (schema.table t).keys resolve (next t k) (s.keyState store t) with
    | (.error e, keys) => (.error e, s.setKeys t keys)
    | (.ok r, keys) =>
      if r.columnID = 0 then (.ok (), s.setKeys t keys)
      else (.ok (), (s.setKeys t keys).setCurrent t r.columnID)

/-- The end of `mapParentRelation`: the column of the parent is stored in the field. -/
def mapParentColumn (t : T) (rel : ParentRelation T K F) (c : ℕ) : Stage T K F V := fun s =>
  (.ok (), s.stageCell t (s.current t) (rel.field, some (schema.columnValue c)))

/-- The parent is looked up by its primary key. -/
def mapParentLookup (t : T) (rel : ParentRelation T K F) (k : K) : Stage T K F V := fun s =>
  let parent := (schema.table rel.parent).keys
  match resolvePrimaryKeyColumnID parent { key := k, lookupOnly := true }
      (next rel.parent k) (s.keyState store rel.parent) with
  | (.error e, keys) =>
    (.error s!"lookup parent primary key {parent.codec.render k}, {e}", s.setKeys rel.parent keys)
  | (.ok r, keys) =>
    if !r.existingRow || r.columnID = 0 then
      (.error s!"cannot find value '{parent.codec.render k}' in parent table '{rel.foreignKey}' for column {schema.tableName t}.{schema.fieldName rel.field}",
        s.setKeys rel.parent keys)
    else mapParentColumn schema t rel r.columnID (s.setKeys rel.parent keys)

def mapParentRelation (t : T) (row : SourceRow) (isChild : Bool) (rel : ParentRelation T K F) :
    Stage T K F V := fun s =>
  if rel.parent ∉ s.tables then
    (.error s!"Could not locate parent table buffer for [{schema.tableName rel.parent}]", s)
  else if isChild then mapParentColumn schema t rel (s.current rel.parent) s
  else
    match rel.source with
    | .direct read =>
      match read row with
      | .error e => (.error e, s)
      | .ok none => (.ok (), s)
      | .ok (some c) => mapParentColumn schema t rel c s
    | .lookup read =>
      match read row with
      | .error e => (.error s!"resolve parent relation lookup {e}", s)
      | .ok none => (.ok (), s)
      | .ok (some k) => mapParentLookup schema store next t rel k s

def mapAttributeValue (t : T) (row : SourceRow) (isChild : Bool)
    (map : SourceRow → Bool → Except String (List (F × Option V))) : Stage T K F V :=
  fun s =>
    match map row isChild with
    | .error e => (.error e, s)
    | .ok cells => (.ok (), s.stageCells t (s.current t) cells)

/-- The stages of `putRow`.  The rows of child tables come after the identity of their parent. -/
def putStages (req : PutRequest T) : ℕ → T → SourceRow → Bool → List (Stage T K F V)
  | 0, _, _, _ => [fun s => (.error "child tables nest too deep", s)]
  | depth + 1, t, row, isChild =>
    let childStages : List (Stage T K F V) :=
      match (schema.table t).children row with
      | .error e => [fun s => (.error e, s)]
      | .ok rows => rows.flatMap (fun child => putStages req depth child.1 child.2 true)
    establishRowIdentity schema store next req t row isChild ::
      childStages ++ (schema.table t).parents.map (mapParentRelation schema store next t row isChild) ++
      (schema.table t).attributes.map (mapAttributeValue t row isChild)

def putRow (req : PutRequest T) : Stage T K F V :=
  runStages (putStages schema store next req (schema.depth + 1) req.table req.row false)

/-! ## Updates -/

/-- The body of the loop of `UpdateRow`. -/
def updateField (t : T) (e : F × Value) : Stage T K F V := fun s =>
  if (schema.table t).isPrimaryKey e.1 then
    (.error s!"cannot update PK column {schema.tableName t}.{schema.fieldName e.1}", s)
  else
    match (schema.table t).mapField e.1 e.2 with
    | .error err => (.error err, s)
    | .ok v => (.ok (), s.stageCell t (s.current t) (e.1, v))

/-- The loop of `UpdateRow`. -/
def updateFields (t : T) (values : GoMap F Value) (order : RangeOrder) : Stage T K F V :=
  runStages ((values.range order).map (updateField schema t))

/-! ## Sessions on one storage and one log -/

/-- The storage, the sessions on it and their log. -/
structure RowSystem (S T K F V : Type) where
  store : Storage T F V
  session : S → Session T K F V
  log : List (LogEntry T F) := []
  nextLSN : ℕ := 1

variable {S : Type} [DecidableEq S]

def RowSystem.setSession (st : RowSystem S T K F V) (s : S) (session : Session T K F V) :
    RowSystem S T K F V :=
  { st with session := Function.update st.session s session }

def RowSystem.append (st : RowSystem S T K F V) (now : Timestamp) (call : LoggedCall T F) :
    RowSystem S T K F V :=
  { st with
    log := st.log ++ [⟨prepareRecord now st.nextLSN { kind := call.kind }, call⟩]
    nextLSN := st.nextLSN + 1 }

/-- `PutRowWithOptions` of a session: a table that is not open is refused before the log. -/
def callPut (s : S) (now : Timestamp) (req : PutRequest T) (st : RowSystem S T K F V) :
    Except String Unit × RowSystem S T K F V :=
  if req.table ∉ (st.session s).tables then
    (.error s!"cannot locate buffer for table {schema.tableName req.table}", st)
  else
    let result := putRow schema st.store next req (st.session s)
    (result.1, (st.append now (.put req)).setSession s result.2)

/-- `UpdateRow` of a session. -/
def callUpdate (s : S) (now : Timestamp) (req : UpdateRequest T F) (order : RangeOrder)
    (st : RowSystem S T K F V) : Except String Unit × RowSystem S T K F V :=
  if req.table ∉ (st.session s).tables then
    (.error s!"table {schema.tableName req.table} is not open for this session", st)
  else
    let result := updateFields schema req.table req.values order
      ((st.session s).setCurrent req.table req.columnID)
    (result.1, (st.append now (.update req)).setSession s result.2)

/-- What a buffer sends when one of its maps is full, or when a flush is interrupted: some of its
keys, of the values to set and of those to clear. -/
structure Sending (T F : Type) where
  keys : T → ℕ → Bool
  values : T → ℕ → F → Bool
  clearValues : T → ℕ → F → Bool

def Sending.all : Sending T F := ⟨fun _ _ => true, fun _ _ _ => true, fun _ _ _ => true⟩

def Sending.none : Sending T F := ⟨fun _ _ => false, fun _ _ _ => false, fun _ _ _ => false⟩

/-- The storage after a sending: `Flush` sends the values to set before those to clear. -/
def Storage.receive (store : Storage T F V) (sending : Sending T F) (s : Session T K F V) :
    Storage T F V where
  keys t := (s.stagedKeys t).restrict (sending.keys t) ∪ store.keys t
  cells t c f :=
    if sending.clearValues t c f && s.cells.clearValues t c f then none
    else if sending.values t c f then (s.cells.values t c f).or (store.cells t c f)
    else store.cells t c f

/-- What is left of the cells of a buffer. -/
def CellBuffer.sent (b : CellBuffer T F V) (sending : Sending T F) : CellBuffer T F V where
  values t c f := if sending.values t c f then none else b.values t c f
  clearValues t c f := !sending.clearValues t c f && b.clearValues t c f

def Session.sent (s : Session T K F V) (sending : Sending T F) : Session T K F V :=
  { s with
    stagedKeys t := (s.stagedKeys t).restrict (fun c => !sending.keys t c)
    cells := s.cells.sent sending }

def sendBuffer (s : S) (sending : Sending T F) (st : RowSystem S T K F V) : RowSystem S T K F V :=
  { st with store := st.store.receive sending (st.session s) }.setSession s
    ((st.session s).sent sending)

/-- `Flush`: the buffer is sent and the keys of the batch are forgotten. -/
def flushSession (s : S) (st : RowSystem S T K F V) : RowSystem S T K F V :=
  { st with store := st.store.receive .all (st.session s) }.setSession s
    { (st.session s).sent .all with identity := fun _ => ∅ }

end

end QuantaStream.Core
