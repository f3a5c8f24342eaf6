import Mathlib.Algebra.GroupWithZero.Nat
import Mathlib.Data.List.TakeWhile
import QuantaStream.Lib.Run
import QuantaStream.Shared.BatchBuffer

/-!
# Flushing a session

A session collects mutations in a batch buffer and strings for the search index next to it.  A
flush merges the buffer into a new one, gives the session an empty buffer, and then sends the
merged buffer map by map; a map is dropped when its call to the backend succeeds.  A call that
fails ends the flush, and the merged buffer is forgotten with it.

So a flush that fails loses what was in the map of the failing call and in the maps after it.
Only the strings for the search index survive a failure.
-/

namespace QuantaStream.Core

open Shared Server List

/-! ## Buffers -/

/-- What a backend receives: a call on the batch buffer, a string by its column, or a string for
the search index. -/
inductive Mutation where
  | batch (call : BatchCall)
  | partitionedString (path key value : String)
  | indexString (text : String)
  deriving DecidableEq

/-- The maps of a batch buffer, in the order in which `Flush` sends them. -/
inductive FlushPhase where
  | partitionStr
  | sets
  | clears
  | values
  | clearValues
  deriving DecidableEq

/-- The order of `Flush`. -/
def flushPhases : List FlushPhase := [.partitionStr, .sets, .clears, .values, .clearValues]

/-- A batch buffer with its strings. -/
structure SessionBuffer where
  batch : BatchBuffer
  batchPartitionStr : GoMap (String × String) String := ∅
  batchPartitionStrCount : ℕ := 0

open SessionBuffer

/-- `NewBatchBuffer`. -/
def newSessionBuffer (batchSize : ℕ) : SessionBuffer := { batch := newBatchBuffer batchSize }

def mutationsOf {κ β : Type} (order : RangeOrder) (m : GoMap κ β)
    (items : κ → β → List Mutation) : List Mutation :=
  (m.range order).flatMap (fun e => items e.1 e.2)

/-- A mutation for each of some columns. -/
def columnMutations (columns : Bitmap) (call : ℕ → BatchCall) : List Mutation :=
  (columns.sort (· ≤ ·)).map (fun c => .batch (call c))

variable (b : SessionBuffer)

def SessionBuffer.mutations (order : RangeOrder) : FlushPhase → List Mutation
  | .partitionStr =>
    mutationsOf order b.batchPartitionStr (fun k v => [.partitionedString k.1 k.2 v])
  | .sets =>
    mutationsOf order b.batch.batchSets (fun k p =>
      columnMutations p.bits (fun c => .setBit k c p.isUpdate))
  | .clears =>
    mutationsOf order b.batch.batchClears (fun k p =>
      columnMutations p.bits (fun c => .clearBit k c))
  | .values =>
    mutationsOf order b.batch.batchValues (fun k bsi =>
      columnMutations bsi.existence (fun c => .setValue k c (bsi.value c)))
  | .clearValues =>
    mutationsOf order b.batch.batchClearValues (fun k columns =>
      columnMutations columns (fun c => .clearValue k c))

def SessionBuffer.isNil : FlushPhase → Bool
  | .partitionStr => b.batchPartitionStr.entries.isEmpty
  | .sets => b.batch.batchSets.entries.isEmpty
  | .clears => b.batch.batchClears.entries.isEmpty
  | .values => b.batch.batchValues.entries.isEmpty
  | .clearValues => b.batch.batchClearValues.entries.isEmpty

def SessionBuffer.count : FlushPhase → ℕ
  | .partitionStr => b.batchPartitionStrCount
  | .sets => b.batch.batchSetCount
  | .clears => b.batch.batchClearCount
  | .values => b.batch.batchValueCount
  | .clearValues => b.batch.batchClearValueCount

/-- One of the maps becomes nil. -/
def SessionBuffer.drop : FlushPhase → SessionBuffer
  | .partitionStr => { b with batchPartitionStr := ∅, batchPartitionStrCount := 0 }
  | .sets => { b with batch := { b.batch with batchSets := ∅, batchSetCount := 0 } }
  | .clears => { b with batch := { b.batch with batchClears := ∅, batchClearCount := 0 } }
  | .values => { b with batch := { b.batch with batchValues := ∅, batchValueCount := 0 } }
  | .clearValues =>
    { b with batch := { b.batch with batchClearValues := ∅, batchClearValueCount := 0 } }

def SessionBuffer.isEmpty : Bool :=
  b.batch.batchSetCount = 0 && b.batch.batchClearCount = 0 && b.batch.batchValueCount = 0 &&
    b.batchPartitionStrCount = 0 && b.batch.batchClearValueCount = 0

/-! ## Merging -/

def mergeMap {κ β : Type} [DecidableEq κ] (order : RangeOrder) (merge : β → β → β)
    (m target : GoMap κ β) : GoMap κ β :=
  (m.range order).foldl (fun target e =>
    match target.lookup e.1 with
    | none => target.insert e.1 e.2
    | some v => target.insert e.1 (merge v e.2)) target

def totalOf {κ β : Type} (m : GoMap κ β) (size : β → ℕ) : ℕ :=
  ((m.range .asKept).map (fun e => size e.2)).sum

def PendingBitmap.merge (p p' : PendingBitmap) : PendingBitmap := { p with bits := p.bits ∪ p'.bits }

/-- `MergeInto`.  Columns whose values are cleared are not merged into columns that are there
already: the union is computed and not stored. -/
def mergeInto (order : RangeOrder) (b target : SessionBuffer) : SessionBuffer where
  batch :=
    { batchSize := target.batch.batchSize
      batchSets := mergeMap order PendingBitmap.merge b.batch.batchSets target.batch.batchSets
      batchSetCount := target.batch.batchSetCount + totalOf b.batch.batchSets (fun p => p.bits.card)
      batchClears := mergeMap order PendingBitmap.merge b.batch.batchClears target.batch.batchClears
      batchClearCount := target.batch.batchClearCount + totalOf b.batch.batchClears (fun p => p.bits.card)
      batchValues := mergeMap order Bsi.or b.batch.batchValues target.batch.batchValues
      batchValueCount := target.batch.batchValueCount +
        totalOf b.batch.batchValues (fun bsi => bsi.existence.card)
      batchClearValues :=
        mergeMap order (fun v _ => v) b.batch.batchClearValues target.batch.batchClearValues
      batchClearValueCount := target.batch.batchClearValueCount +
        totalOf b.batch.batchClearValues Finset.card }
  batchPartitionStr := mergeMap order (fun _ v => v) b.batchPartitionStr target.batchPartitionStr
  batchPartitionStrCount := target.batchPartitionStrCount + totalOf b.batchPartitionStr (fun _ => 1)

/-! ## Flushing -/

/-- What the calls to the backends of a flush return, and what calls that fail have delivered
before. -/
structure FlushEnv where
  order : RangeOrder := .asKept
  result : FlushPhase → Except String Unit := fun _ => .ok ()
  indexResult : Except String Unit := .ok ()
  delivered : Mutation → Bool := fun _ => false

def FlushEnv.fine : FlushEnv := {}

/-- The phases of `Flush` on a buffer.  Returns the buffer that is left and what was sent. -/
def flushMaps (env : FlushEnv) :
    List FlushPhase → SessionBuffer → Except String Unit × SessionBuffer × List Mutation
  | [], b => (.ok (), b, [])
  | p :: ps, b =>
    if b.isNil p then flushMaps env ps b
    else
      match env.result p with
      | .error e => (.error e, b, (b.mutations env.order p).filter env.delivered)
      | .ok () =>
        let rest := flushMaps env ps (b.drop p)
        (rest.1, rest.2.1, b.mutations env.order p ++ rest.2.2)

/-- A session: its buffer, the batch of strings for the search index, and what the backends have
received so far. -/
structure FlushSession where
  buffer : SessionBuffer
  indexBatch : Finset String := ∅
  sent : List Mutation := []

open FlushSession

def indexMutations (batch : Finset String) : List Mutation :=
  (sortStrings batch).map .indexString

variable (env : FlushEnv) (s : FlushSession)

/-- The first half of `flush`: the buffer is replaced and then sent. -/
def FlushSession.flushBuffer : Except String Unit × FlushSession :=
  if s.buffer.isEmpty then (.ok (), s)
  else
    let empty := newSessionBuffer s.buffer.batch.batchSize
    let out := flushMaps env flushPhases (mergeInto env.order s.buffer empty)
    (out.1, { s with buffer := empty, sent := s.sent ++ out.2.2 })

/-- `StringSearch.Flush`. -/
def FlushSession.flushIndex : Except String Unit × FlushSession :=
  if s.indexBatch = ∅ then (.ok (), s)
  else
    match env.indexResult with
    | .error e =>
      (.error e, { s with sent := s.sent ++ (indexMutations s.indexBatch).filter env.delivered })
    | .ok () => (.ok (), { s with indexBatch := ∅, sent := s.sent ++ indexMutations s.indexBatch })

def FlushSession.flush : Except String Unit × FlushSession :=
  match s.flushBuffer env with
  | (.error e, s) => (.error e, s)
  | (.ok (), s) => s.flushIndex env

/-! ## Calls -/

/-- The map that a call goes to. -/
def callPhase : BatchCall → FlushPhase
  | .setBit _ _ _ => .sets
  | .clearBit _ _ => .clears
  | .setValue _ _ _ => .values
  | .clearValue _ _ => .clearValues

/-- The end of a call on the buffer: a map with enough calls behind it is sent.  It stays if that
fails. -/
def FlushSession.sendFull (p : FlushPhase) (threshold : ℕ) (b : SessionBuffer)
    (s : FlushSession) : Except String Unit × FlushSession :=
  if b.count p ≥ threshold then
    match env.result p with
    | .error e =>
      (.error e,
        { s with buffer := b, sent := s.sent ++ (b.mutations env.order p).filter env.delivered })
    | .ok () =>
      (.ok (), { s with buffer := b.drop p, sent := s.sent ++ b.mutations env.order p })
  else (.ok (), { s with buffer := b })

/-- `SetBit`, `ClearBit`, `SetValue` and `ClearValue`. -/
def FlushSession.call (c : BatchCall) (s : FlushSession) : Except String Unit × FlushSession :=
  s.sendFull env (callPhase c) s.buffer.batch.batchSize
    { s.buffer with batch := record s.buffer.batch c }

/-- `SetPartitionedString`: the first string of a column is kept. -/
def FlushSession.setPartitionedString (path key value : String)
    (s : FlushSession) : Except String Unit × FlushSession :=
  let strings := s.buffer.batchPartitionStr
  s.sendFull env .partitionStr
    (if s.buffer.batch.batchSize = 0 then 1 else s.buffer.batch.batchSize)
    { s.buffer with
      batchPartitionStr :=
        if (strings.lookup (path, key)).isSome then strings else strings.insert (path, key) value
      batchPartitionStrCount := s.buffer.batchPartitionStrCount + 1 }

def indexBatchSize : ℕ := 1000

def FlushSession.index (text : String) (s : FlushSession) : Except String Unit × FlushSession :=
  let s := { s with indexBatch := insert text s.indexBatch }
  if s.indexBatch.card ≥ indexBatchSize then s.flushIndex env else (.ok (), s)

inductive FlushEvent where
  | call (env : FlushEnv) (c : BatchCall)
  | partitionedString (env : FlushEnv) (path key value : String)
  | index (env : FlushEnv) (text : String)
  | flush (env : FlushEnv)

def flushStep : FlushEvent → FlushSession
  | .call env c => (s.call env c).2
  | .partitionedString env path key value => (s.setPartitionedString env path key value).2
  | .index env text => (s.index env text).2
  | .flush env => (s.flush env).2

def newFlushSession (batchSize : ℕ) : FlushSession := { buffer := newSessionBuffer batchSize }

def FlushSession.pending : List Mutation :=
  flushPhases.flatMap (s.buffer.mutations .asKept) ++ indexMutations s.indexBatch

/-- A flush gets past a map: the map is nil, or its call succeeds. -/
def passes (env : FlushEnv) (b : SessionBuffer) (p : FlushPhase) : Bool :=
  b.isNil p || (env.result p).toOption.isSome

/-- The maps of a flush from the first whose call fails. -/
def stoppedAt (env : FlushEnv) (b : SessionBuffer) : List FlushPhase :=
  flushPhases.dropWhile (passes env b)

/-- The condition of a flush: if a call fails, the maps after it are empty, and the failing call
delivers all of its own map. -/
def RetryOk (env : FlushEnv) (s : FlushSession) : Prop :=
  ∀ p ∈ stoppedAt env s.buffer, ∀ m ∈ s.buffer.mutations .asKept p,
    (stoppedAt env s.buffer).head? = some p ∧ env.delivered m = true

/-- A session with the deliveries counted from now on. -/
def FlushSession.fromNow : FlushSession := { s with sent := [] }

/-! ## Maps -/

variable {order : RangeOrder} {β κ : Type} {items : κ → β → List Mutation}

theorem mem_mutationsOf [DecidableEq κ] {m : GoMap κ β} {x : Mutation} :
    x ∈ mutationsOf order m items ↔ ∃ k v, m.lookup k = some v ∧ x ∈ items k v := by
  simp [mutationsOf, GoMap.mem_range]

/-- Merging into a map without the keys. -/
theorem lookup_foldl_merge [DecidableEq κ] (merge : β → β → β) {entries : List (κ × β)}
    (hnodup : (entries.map Prod.fst).Nodup) {target : GoMap κ β}
    (hnew : ∀ e ∈ entries, target.lookup e.1 = none) (k : κ) (v : β) :
    (entries.foldl (fun target e =>
      match target.lookup e.1 with
      | none => target.insert e.1 e.2
      | some v => target.insert e.1 (merge v e.2)) target).lookup k = some v ↔
      (k, v) ∈ entries ∨ target.lookup k = some v := by
  induction entries generalizing target with
  | nil => simp
  | cons e rest ih =>
    rw [map_cons, nodup_cons] at hnodup
    have hhead : target.lookup e.1 = none := hnew e mem_cons_self
    rw [foldl_cons, hhead, ih hnodup.2 ?_, mem_cons, GoMap.lookup_insert]
    · by_cases hk : k = e.1
      · subst hk
        have hrest : (e.1, v) ∉ rest := fun hmem => hnodup.1 (mem_map.mpr ⟨_, hmem, rfl⟩)
        simp [hhead, hrest, Prod.ext_iff, eq_comm]
      · have hne : (k, v) ≠ e := fun heq => hk (congrArg Prod.fst heq)
        simp [hk, hne]
    · intro e' he'
      have hne : e'.1 ≠ e.1 := fun heq => hnodup.1 (heq ▸ mem_map_of_mem he')
      rw [GoMap.lookup_insert, if_neg hne]
      exact hnew e' (List.mem_cons_of_mem _ he')

theorem lookup_mergeMap_empty [DecidableEq κ] (order : RangeOrder) (merge : β → β → β)
    (m : GoMap κ β) (k : κ) : (mergeMap order merge m ∅).lookup k = m.lookup k := by
  refine Option.ext fun v => ?_
  rw [mergeMap, lookup_foldl_merge merge (m.range_nodup order) (fun _ _ => rfl), GoMap.mem_range]
  simp

variable {p : FlushPhase} {m : Mutation} {b : SessionBuffer}

/-- The buffer that a flush sends has what the session has buffered. -/
theorem mem_mutations_mergeInto {order' : RangeOrder} {size : ℕ} :
    m ∈ (mergeInto order' b (newSessionBuffer size)).mutations order p ↔
      m ∈ b.mutations .asKept p := by
  cases p <;>
    simp only [mutations, mergeInto, mem_mutationsOf, newSessionBuffer, newBatchBuffer,
      lookup_mergeMap_empty]

theorem isEmpty_entries_iff [DecidableEq κ] {m : GoMap κ β} :
    m.entries.isEmpty = true ↔ ∀ k, m.lookup k = none := by
  rw [List.isEmpty_iff]
  constructor
  · intro hnil k
    exact AList.lookup_eq_none.mpr fun hk => by
      simp [AList.mem_keys, AList.keys, hnil] at hk
  · intro hnone
    refine eq_nil_iff_forall_not_mem.mpr fun e he => ?_
    have hlookup := AList.mem_lookup_iff.mpr he
    rw [Option.mem_def, hnone] at hlookup
    cases hlookup

theorem isNil_mergeInto (order : RangeOrder) (b : SessionBuffer) (size : ℕ) (p : FlushPhase) :
    (mergeInto order b (newSessionBuffer size)).isNil p = b.isNil p := by
  rw [Bool.eq_iff_iff]
  cases p <;>
    simp only [isNil, mergeInto, newSessionBuffer, newBatchBuffer, isEmpty_entries_iff,
      lookup_mergeMap_empty]

theorem mutations_of_isNil (h : b.isNil p = true) (order : RangeOrder) :
    b.mutations order p = [] := by
  refine eq_nil_iff_forall_not_mem.mpr fun x hx => ?_
  cases p <;> simp only [mutations] at hx <;>
    · rcases mem_mutationsOf.mp hx with ⟨k, v, hlookup, -⟩
      rw [isEmpty_entries_iff.mp h] at hlookup
      cases hlookup

/-- The map of a mutation; strings for the search index are in none. -/
def Mutation.phase : Mutation → Option FlushPhase
  | .batch call => some (callPhase call)
  | .partitionedString _ _ _ => some .partitionStr
  | .indexString _ => none

theorem phase_of_mem_mutations (h : m ∈ b.mutations order p) : m.phase = some p := by
  cases p <;> simp only [mutations] at h <;>
    rcases mem_mutationsOf.mp h with ⟨k, v, -, hm⟩
  case partitionStr =>
    rw [mem_singleton.mp hm]
    rfl
  all_goals
    rcases mem_map.mp hm with ⟨c, -, rfl⟩
    rfl

theorem drop_of_ne {q : FlushPhase} (h : q ≠ p) (b : SessionBuffer) :
    (b.drop p).isNil q = b.isNil q ∧ ∀ order, (b.drop p).mutations order q = b.mutations order q := by
  cases p <;> cases q <;> first | exact absurd rfl h | exact ⟨rfl, fun _ => rfl⟩

/-! ## Sending the maps -/

variable {env : FlushEnv}

/-- The phases succeed if they get past every map.  They send the maps up to the first whose call
fails, and what that call has delivered. -/
theorem flushMaps_spec {b' : SessionBuffer} {ps : List FlushPhase} (hnodup : ps.Nodup)
    (hsame : ∀ p ∈ ps, b'.isNil p = b.isNil p ∧ b'.mutations env.order p = b.mutations env.order p) :
    ((flushMaps env ps b').1 = .ok () ↔ ps.dropWhile (passes env b) = []) ∧
    ∀ m, m ∈ (flushMaps env ps b').2.2 ↔
      (∃ p ∈ ps.takeWhile (passes env b), m ∈ b.mutations env.order p) ∨
        ∃ p, (ps.dropWhile (passes env b)).head? = some p ∧ m ∈ b.mutations env.order p ∧
          env.delivered m = true := by
  induction ps generalizing b' with
  | nil => simp [flushMaps]
  | cons p ps ih =>
    rw [nodup_cons] at hnodup
    have hhead := hsame p mem_cons_self
    have htail := fun q hq => hsame q (mem_cons_of_mem p hq)
    simp only [flushMaps, hhead.1]
    cases hnil : b.isNil p with
    | true =>
      have hpass : passes env b p = true := by simp [passes, hnil]
      rw [if_pos rfl, takeWhile_cons_of_pos hpass, dropWhile_cons_of_pos hpass]
      simpa [mutations_of_isNil hnil] using ih hnodup.2 htail
    | false =>
      cases hresult : env.result p with
      | error e =>
        have hpass : ¬ passes env b p = true := by
          simp [passes, hnil, hresult, Except.toOption]
        rw [takeWhile_cons_of_neg hpass, dropWhile_cons_of_neg hpass]
        simp [hhead.2]
      | ok u =>
        have hpass : passes env b p = true := by
          simp [passes, hresult, Except.toOption]
        have hspec := @ih (b'.drop p) hnodup.2 fun q hq => ?_
        · rw [takeWhile_cons_of_pos hpass, dropWhile_cons_of_pos hpass]
          refine ⟨hspec.1, fun m => ?_⟩
          simp [mem_append, hspec.2, hhead.2, mem_cons, or_assoc]
        · have hframe := drop_of_ne (ne_of_mem_of_not_mem hq hnodup.1) b'
          exact ⟨hframe.1.trans (htail q hq).1, (hframe.2 env.order).trans (htail q hq).2⟩

/-! ## The buffer of a session -/

/-- The counts of a buffer tell which maps are nil. -/
def Counted (b : SessionBuffer) : Prop := ∀ p, b.count p = 0 ↔ b.isNil p = true

theorem counted_new (batchSize : ℕ) : Counted (newSessionBuffer batchSize) := by
  intro p
  cases p <;> simp [SessionBuffer.count, SessionBuffer.isNil, newSessionBuffer, newBatchBuffer]

theorem counted_drop (h : Counted b) (p : FlushPhase) : Counted (b.drop p) := by
  intro q
  have hq := h q
  cases p <;> cases q <;>
    first
      | exact hq
      | simp [SessionBuffer.count, SessionBuffer.isNil, SessionBuffer.drop]

theorem isEmpty_entries_insert [DecidableEq κ] (m : GoMap κ β) (k : κ) (v : β) :
    (m.insert k v).entries.isEmpty = false := rfl

theorem counted_record (h : Counted b) (c : BatchCall) :
    Counted { b with batch := record b.batch c } := by
  have hpending : ∀ (m : GoMap BitmapKey PendingBitmap) (key : BitmapKey) (column : ℕ)
      (isUpdate : Bool), (addPending m key column isUpdate).entries.isEmpty = false := by
    intro m key column isUpdate
    unfold addPending
    split <;> exact isEmpty_entries_insert _ _ _
  intro q
  have hq := h q
  cases c <;> cases q <;>
    first
      | exact hq
      | simp only [SessionBuffer.count, SessionBuffer.isNil, record, hpending,
          isEmpty_entries_insert, Nat.succ_ne_zero, Bool.false_eq_true]

theorem isEmpty_iff : b.isEmpty = true ↔ ∀ p, b.count p = 0 := by
  simp only [SessionBuffer.isEmpty, Bool.and_eq_true, decide_eq_true_eq]
  constructor
  · rintro ⟨⟨⟨⟨hsets, hclears⟩, hvalues⟩, hstrings⟩, hclearValues⟩ p
    cases p <;> assumption
  · intro h
    exact ⟨⟨⟨⟨h .sets, h .clears⟩, h .values⟩, h .partitionStr⟩, h .clearValues⟩

theorem nodup_flushPhases : flushPhases.Nodup := by decide

theorem mem_flushPhases (p : FlushPhase) : p ∈ flushPhases := by
  cases p <;> decide

theorem passes_mergeInto (env : FlushEnv) (b : SessionBuffer) (size : ℕ) :
    passes env (mergeInto env.order b (newSessionBuffer size)) = passes env b := by
  funext p
  simp only [passes, isNil_mergeInto]

variable {s : FlushSession}

theorem flushBuffer_spec (h : Counted s.buffer) (env : FlushEnv) :
    ((s.flushBuffer env).1 = .ok () ↔ stoppedAt env s.buffer = []) ∧
    (∀ m, m ∈ (s.flushBuffer env).2.sent ↔ m ∈ s.sent ∨
      (∃ p ∈ flushPhases.takeWhile (passes env s.buffer), m ∈ s.buffer.mutations .asKept p) ∨
        ∃ p, (stoppedAt env s.buffer).head? = some p ∧ m ∈ s.buffer.mutations .asKept p ∧
          env.delivered m = true) ∧
    (s.flushBuffer env).2.indexBatch = s.indexBatch ∧
    Counted (s.flushBuffer env).2.buffer ∧
    ∀ order p, (s.flushBuffer env).2.buffer.mutations order p = [] := by
  unfold flushBuffer
  by_cases hempty : s.buffer.isEmpty = true
  · have hnil : ∀ p, s.buffer.isNil p = true := fun p => (h p).mp (isEmpty_iff.mp hempty p)
    have hstopped : stoppedAt env s.buffer = [] :=
      dropWhile_eq_nil_iff.mpr fun p _ => by simp [passes, hnil p]
    rw [if_pos hempty]
    refine ⟨by simp [hstopped], fun m => ?_, rfl, h, fun order p => mutations_of_isNil (hnil p) order⟩
    simp [hstopped, fun p => mutations_of_isNil (hnil p) .asKept]
  · rw [if_neg hempty]
    refine ⟨?_, fun m => ?_, rfl, counted_new _, fun order p =>
      mutations_of_isNil ((counted_new _ p).mp (by cases p <;> rfl)) order⟩
    · rw [(flushMaps_spec nodup_flushPhases fun _ _ => ⟨rfl, rfl⟩).1, passes_mergeInto]
      rfl
    · simp only [mem_append, (flushMaps_spec nodup_flushPhases fun _ _ => ⟨rfl, rfl⟩).2,
        passes_mergeInto, mem_mutations_mergeInto]
      rfl

/-! ## Runs -/

def KeptOrSent (text : String) (s : FlushSession) : Prop :=
  text ∈ s.indexBatch ∨ Mutation.indexString text ∈ s.sent

theorem mem_indexMutations {batch : Finset String} :
    m ∈ indexMutations batch ↔ ∃ text ∈ batch, m = .indexString text := by
  simp [indexMutations, sortStrings, eq_comm]

theorem flushIndex_spec (env : FlushEnv) (s : FlushSession) :
    (s.flushIndex env).2.buffer = s.buffer ∧
    (∀ m ∈ s.sent, m ∈ (s.flushIndex env).2.sent) ∧
    (∀ m, m.phase ≠ none → m ∈ (s.flushIndex env).2.sent → m ∈ s.sent) ∧
    (∀ text, KeptOrSent text s → KeptOrSent text (s.flushIndex env).2) ∧
    ((s.flushIndex env).1 = .ok () → ∀ text, KeptOrSent text s →
      .indexString text ∈ (s.flushIndex env).2.sent) := by
  have hphase : ∀ {m}, m.phase ≠ none → m ∉ indexMutations s.indexBatch := by
    intro m hm hmem
    rcases mem_indexMutations.mp hmem with ⟨text, -, rfl⟩
    exact hm rfl
  fun_cases flushIndex env s with
  | case1 hempty =>
    refine ⟨rfl, fun _ h => h, fun _ _ h => h, fun _ h => h, fun _ text h => ?_⟩
    exact h.resolve_left (by simp [hempty])
  | case2 =>
    refine ⟨rfl, fun m h => mem_append_left _ h, fun m hm h => ?_, fun text h => ?_, nofun⟩
    · exact (mem_append.mp h).resolve_right fun h => hphase hm (mem_of_mem_filter h)
    · exact h.imp id (mem_append_left _)
  | case3 =>
    have hsent : ∀ text, KeptOrSent text s →
        .indexString text ∈ s.sent ++ indexMutations s.indexBatch := by
      rintro text (h | h)
      · exact mem_append_right _ (mem_indexMutations.mpr ⟨text, h, rfl⟩)
      · exact mem_append_left _ h
    refine ⟨rfl, fun m h => mem_append_left _ h, fun m hm h => ?_,
      fun text h => .inr (hsent text h), fun _ text h => hsent text h⟩
    exact (mem_append.mp h).resolve_right (hphase hm)

/-- A flush is its first half, and its second half if the first succeeds. -/
theorem flush_cases (env : FlushEnv) (s : FlushSession) :
    (∃ e, (s.flushBuffer env).1 = .error e ∧ s.flush env = (.error e, (s.flushBuffer env).2)) ∨
      ((s.flushBuffer env).1 = .ok () ∧ s.flush env = (s.flushBuffer env).2.flushIndex env) := by
  unfold FlushSession.flush
  rcases s.flushBuffer env with ⟨_ | _, s'⟩
  · exact .inl ⟨_, rfl, rfl⟩
  · exact .inr ⟨rfl, rfl⟩

/-- What one step keeps of a session. -/
structure Keeps (s s' : FlushSession) : Prop where
  counted : Counted s.buffer → Counted s'.buffer
  sent : Counted s.buffer → ∀ m ∈ s.sent, m ∈ s'.sent
  strings : Counted s.buffer → ∀ text, KeptOrSent text s → KeptOrSent text s'

theorem keeps_flushBuffer (env : FlushEnv) (s : FlushSession) : Keeps s (s.flushBuffer env).2 where
  counted h := (flushBuffer_spec h env).2.2.2.1
  sent h m hm := ((flushBuffer_spec h env).2.1 m).mpr (.inl hm)
  strings h text := by
    rintro (hkept | hsent)
    · exact .inl ((flushBuffer_spec h env).2.2.1 ▸ hkept)
    · exact .inr (((flushBuffer_spec h env).2.1 _).mpr (.inl hsent))

theorem keeps_flushIndex (env : FlushEnv) (s : FlushSession) : Keeps s (s.flushIndex env).2 where
  counted h := (flushIndex_spec env s).1 ▸ h
  sent _ := (flushIndex_spec env s).2.1
  strings _ := (flushIndex_spec env s).2.2.2.1

theorem Keeps.trans {s₁ s₂ s₃ : FlushSession} (h₁ : Keeps s₁ s₂) (h₂ : Keeps s₂ s₃) :
    Keeps s₁ s₃ where
  counted h := h₂.counted (h₁.counted h)
  sent h m hm := h₂.sent (h₁.counted h) m (h₁.sent h m hm)
  strings h text ht := h₂.strings (h₁.counted h) text (h₁.strings h text ht)

theorem keeps_flush (env : FlushEnv) (s : FlushSession) : Keeps s (s.flush env).2 := by
  rcases flush_cases env s with ⟨e, -, hflush⟩ | ⟨-, hflush⟩ <;> rw [hflush]
  · exact keeps_flushBuffer env s
  · exact (keeps_flushBuffer env s).trans (keeps_flushIndex env _)

theorem keeps_sendFull (env : FlushEnv) (p : FlushPhase) (threshold : ℕ) (s : FlushSession)
    (hb : Counted s.buffer → Counted b) : Keeps s (s.sendFull env p threshold b).2 := by
  have hsent : ∀ {b' : SessionBuffer} (more : List Mutation),
      (Counted s.buffer → Counted b') →
        Keeps s { s with buffer := b', sent := s.sent ++ more } := by
    intro b' more hb'
    exact
      { counted := hb'
        sent _ m hm := mem_append_left _ hm
        strings _ text ht := ht.imp id (mem_append_left _) }
  unfold sendFull
  split
  · cases env.result p with
    | error e => exact hsent _ hb
    | ok _ => exact hsent _ fun h => counted_drop (hb h) p
  · exact { counted := hb, sent := fun _ _ hm => hm, strings := fun _ _ ht => ht }

theorem counted_insertString (h : Counted b) (path key value : String) :
    Counted { b with
      batchPartitionStr :=
        if (b.batchPartitionStr.lookup (path, key)).isSome then b.batchPartitionStr
        else b.batchPartitionStr.insert (path, key) value
      batchPartitionStrCount := b.batchPartitionStrCount + 1 } := by
  intro p
  have hp := h p
  cases p with
  | partitionStr =>
    simp only [SessionBuffer.count, SessionBuffer.isNil, Nat.succ_ne_zero, false_iff]
    split
    · rename_i hsome
      rw [isEmpty_entries_iff]
      intro hnone
      simp [hnone] at hsome
    · rw [isEmpty_entries_insert]
      exact Bool.false_ne_true
  | sets | clears | values | clearValues => exact hp

/-- Every event keeps what was sent and the texts for the search index. -/
theorem keeps_flushStep (s : FlushSession) (e : FlushEvent) : Keeps s (flushStep s e) := by
  cases e with
  | call env c => exact keeps_sendFull env _ _ s fun h => counted_record h c
  | partitionedString env path key value =>
    exact keeps_sendFull env _ _ s fun h => counted_insertString h path key value
  | index env text =>
    have hinsert : Keeps s { s with indexBatch := insert text s.indexBatch } :=
      { counted := id
        sent _ _ hm := hm
        strings _ _ ht := ht.imp (Finset.mem_insert_of_mem) id }
    simp only [flushStep, index]
    split
    · exact hinsert.trans (keeps_flushIndex env _)
    · exact hinsert
  | flush env => exact keeps_flush env s

theorem keeps_run (s : FlushSession) (es : List FlushEvent) :
    Keeps s (Run.exec flushStep s es) := by
  induction es generalizing s with
  | nil => exact ⟨id, fun _ _ h => h, fun _ _ h => h⟩
  | cons e es ih => exact (keeps_flushStep s e).trans (ih (flushStep s e))

/-! ## Retrying -/

/-- A flush that succeeds has sent every text for the search index. -/
theorem indexString_sent_of_flush_ok (h : Counted s.buffer) (hok : (s.flush env).1 = .ok ())
    {text : String} (ht : KeptOrSent text s) : .indexString text ∈ (s.flush env).2.sent := by
  rcases flush_cases env s with ⟨e, -, hflush⟩ | ⟨-, hflush⟩ <;> rw [hflush] at hok ⊢
  · cases hok
  · exact (flushIndex_spec env _).2.2.2.2 hok text ((keeps_flushBuffer env s).strings h text ht)

theorem mem_sent_flushBuffer (hphase : m.phase ≠ none) (hm : m ∈ (s.flush env).2.sent) :
    m ∈ (s.flushBuffer env).2.sent := by
  rcases flush_cases env s with ⟨e, -, hflush⟩ | ⟨-, hflush⟩ <;> rw [hflush] at hm
  · exact hm
  · exact (flushIndex_spec env _).2.2.1 m hphase hm

theorem flush_fine_ok (h : Counted s.buffer) : (s.flush .fine).1 = .ok () := by
  have hstopped : stoppedAt .fine s.buffer = [] :=
    dropWhile_eq_nil_iff.mpr fun p _ => by simp [passes, FlushEnv.fine, Except.toOption]
  have hbuffer : (s.flushBuffer .fine).1 = .ok () := (flushBuffer_spec h .fine).1.mpr hstopped
  rcases flush_cases .fine s with ⟨e, herror, -⟩ | ⟨-, hflush⟩
  · cases hbuffer.symm.trans herror
  · rw [hflush]
    unfold flushIndex
    split <;> rfl

/-- After a flush the buffer is empty, also when the flush failed. -/
theorem mutations_flush (h : Counted s.buffer) (env : FlushEnv) (order : RangeOrder)
    (p : FlushPhase) : (s.flush env).2.buffer.mutations order p = [] := by
  have hbuffer := (flushBuffer_spec h env).2.2.2.2 order p
  rcases flush_cases env s with ⟨e, -, hflush⟩ | ⟨-, hflush⟩
  · rw [hflush]
    exact hbuffer
  · rw [hflush, (flushIndex_spec env _).1]
    exact hbuffer

/-- Under the condition a flush delivers the mutations of the buffer, also when it fails. -/
theorem sent_of_retryOk (h : Counted s.buffer) (hok : RetryOk env s)
    (hm : m ∈ s.buffer.mutations .asKept p) : m ∈ (s.flushBuffer env).2.sent := by
  rw [(flushBuffer_spec h env).2.1]
  have hp : p ∈ flushPhases.takeWhile (passes env s.buffer) ++ stoppedAt env s.buffer := by
    rw [stoppedAt, takeWhile_append_dropWhile]
    exact mem_flushPhases p
  rcases mem_append.mp hp with hp | hp
  · exact .inr (.inl ⟨p, hp, hm⟩)
  · rcases hok p hp m hm with ⟨hhead, hdelivered⟩
    exact .inr (.inr ⟨p, hhead, hm, hdelivered⟩)

/-- What a failing flush delivers of the maps it stops at. -/
theorem retryOk_of_sent (h : Counted s.buffer) (hnew : s.sent = [])
    (hsent : ∀ p, ∀ m ∈ s.buffer.mutations .asKept p, m ∈ (s.flushBuffer env).2.sent) :
    RetryOk env s := by
  intro p hp m hm
  have hphase := phase_of_mem_mutations hm
  rcases ((flushBuffer_spec h env).2.1 m).mp (hsent p m hm) with hm' | ⟨q, hq, hm'⟩ | ⟨q, hq, hm'⟩
  · rw [hnew] at hm'
    cases hm'
  · -- A map is not both before and after the first failing call.
    have hqp : q = p := Option.some.inj ((phase_of_mem_mutations hm').symm.trans hphase)
    have hsplit : (flushPhases.takeWhile (passes env s.buffer) ++ stoppedAt env s.buffer).Nodup := by
      rw [stoppedAt, takeWhile_append_dropWhile]
      exact nodup_flushPhases
    exact absurd rfl ((nodup_append.mp hsplit).2.2 p (hqp ▸ hq) p hp)
  · have hqp : q = p := Option.some.inj ((phase_of_mem_mutations hm'.1).symm.trans hphase)
    exact ⟨hqp ▸ hq, hm'.2⟩

end QuantaStream.Core
