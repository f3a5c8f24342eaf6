import QuantaStream.Server.BitmapCache

/-!
# The batch buffer of a client

A client collects its mutations in a buffer before it sends them.  The buffer merges them into
four maps, one for each kind of call, and sends a map when it has taken a given number of calls
or when the buffer is flushed.  Each entry of a map becomes one fragment; the server merges the
fragments of one map in any order and is done with them before the next map is sent.
-/

namespace QuantaStream.Shared

open Server

/-! ## Fragments and the server -/

/-- A mutation as the server queues it. -/
inductive Fragment where
  | bitmap (f : BitmapFragment)
  | bsi (f : BSIFragment)

/-- The surroundings of the server: the fields with reverse artifacts, the ownership of shards,
and the times at which fragments are applied.  It is the only node. -/
structure Site where
  enabled : FieldKey → Bool
  ownership : FieldKey → Ownership
  start : Time
  now : BitmapKey → Time

variable (site : Site) (order : RangeOrder)

/-- What the calls of the server read. -/
def Site.env : CallEnv := ⟨fun _ => true, site.ownership, order⟩

/-- A worker applies a queued fragment. -/
def serve (s : CacheState) : Fragment → CacheState
  | .bitmap f => updateBitmapCache (site.env order) site.start site.now f s
  | .bsi f => updateBSICache site.enabled (site.env order) site.start f s

def serveAll (s : CacheState) (fs : List Fragment) : CacheState := fs.foldl (serve site order) s

/-! ## The buffer -/

structure PendingBitmap where
  bits : Bitmap
  isUpdate : Bool

abbrev BSIKey := FieldKey × ℤ

/-- `BatchBuffer`: the pending mutations and the number of calls behind each map. -/
structure BatchBuffer where
  batchSize : ℕ
  batchSets : GoMap BitmapKey PendingBitmap := ∅
  batchSetCount : ℕ := 0
  batchClears : GoMap BitmapKey PendingBitmap := ∅
  batchClearCount : ℕ := 0
  batchValues : GoMap BSIKey Bsi := ∅
  batchValueCount : ℕ := 0
  batchClearValues : GoMap BSIKey Bitmap := ∅
  batchClearValueCount : ℕ := 0

def newBatchBuffer (batchSize : ℕ) : BatchBuffer where
  batchSize := batchSize

variable (modTime : Time)

/-- `BatchMutate`: the fragments of a map of bitmaps. -/
def batchMutate (batch : GoMap BitmapKey PendingBitmap) (isClear : Bool) : List Fragment :=
  (batch.range order).map fun e =>
    .bitmap
      { key := e.1, bits := e.2.bits, modTime := modTime, isClear := isClear
        isUpdate := e.2.isUpdate }

/-- `BatchSetValue`: the fragments of a map of bit-sliced indexes; empty ones are left out. -/
def batchSetValue (batch : GoMap BSIKey Bsi) : List Fragment :=
  ((batch.range order).filter (fun e => e.2.existence ≠ ∅)).map fun e =>
    .bsi { key := e.1.1, time := e.1.2, data := .values e.2, modTime := modTime }

/-- `BatchClearValue`: the fragments of a map of columns whose values are cleared. -/
def batchClearValue (batch : GoMap BSIKey Bitmap) : List Fragment :=
  (batch.range order).map fun e =>
    .bsi { key := e.1.1, time := e.1.2, data := .clear e.2, modTime := modTime }

structure BatchState where
  buffer : BatchBuffer
  server : CacheState

/-- Add a column to a pending bitmap.  The update flag is that of the call that creates the
bitmap. -/
def addPending (m : GoMap BitmapKey PendingBitmap) (key : BitmapKey) (column : ℕ)
    (isUpdate : Bool) : GoMap BitmapKey PendingBitmap :=
  match m.lookup key with
  | none => m.insert key ⟨{column}, isUpdate⟩
  | some b => m.insert key { b with bits := insert column b.bits }

def setBit (key : BitmapKey) (column : ℕ) (isUpdate : Bool) (st : BatchState) : BatchState :=
  let sets := addPending st.buffer.batchSets key column isUpdate
  let count := st.buffer.batchSetCount + 1
  if count ≥ st.buffer.batchSize then
    { buffer := { st.buffer with batchSets := ∅, batchSetCount := 0 }
      server := serveAll site order st.server (batchMutate order site.start sets false) }
  else { st with buffer := { st.buffer with batchSets := sets, batchSetCount := count } }

/-- `ClearBit`: a pending clear always has the update flag. -/
def clearBit (key : BitmapKey) (column : ℕ) (st : BatchState) : BatchState :=
  let clears := addPending st.buffer.batchClears key column true
  let count := st.buffer.batchClearCount + 1
  if count ≥ st.buffer.batchSize then
    { buffer := { st.buffer with batchClears := ∅, batchClearCount := 0 }
      server := serveAll site order st.server (batchMutate order site.start clears true) }
  else { st with buffer := { st.buffer with batchClears := clears, batchClearCount := count } }

def setValue (key : BSIKey) (column : ℕ) (value : ℤ) (st : BatchState) : BatchState :=
  let values := st.buffer.batchValues.insert key
    (((st.buffer.batchValues.lookup key).getD .empty).setValue column value)
  let count := st.buffer.batchValueCount + 1
  if count ≥ st.buffer.batchSize then
    { buffer := { st.buffer with batchValues := ∅, batchValueCount := 0 }
      server := serveAll site order st.server (batchSetValue order site.start values) }
  else { st with buffer := { st.buffer with batchValues := values, batchValueCount := count } }

def clearValue (key : BSIKey) (column : ℕ) (st : BatchState) : BatchState :=
  let clears := st.buffer.batchClearValues.insert key
    (insert column ((st.buffer.batchClearValues.lookup key).getD ∅))
  let count := st.buffer.batchClearValueCount + 1
  if count ≥ st.buffer.batchSize then
    { buffer := { st.buffer with batchClearValues := ∅, batchClearValueCount := 0 }
      server := serveAll site order st.server (batchClearValue order site.start clears) }
  else
    { st with
      buffer := { st.buffer with batchClearValues := clears, batchClearValueCount := count } }

/-- The fragments of a flush, in the order of its phases. -/
def flushFragments (b : BatchBuffer) : List Fragment :=
  batchMutate order modTime b.batchSets false ++ batchMutate order modTime b.batchClears true ++
    batchSetValue order modTime b.batchValues ++ batchClearValue order modTime b.batchClearValues

def flush (st : BatchState) : BatchState where
  buffer := newBatchBuffer st.buffer.batchSize
  server := serveAll site order st.server (flushFragments order site.start st.buffer)

/-! ## Calls -/

inductive BatchCall where
  | setBit (key : BitmapKey) (column : ℕ) (isUpdate : Bool)
  | clearBit (key : BitmapKey) (column : ℕ)
  | setValue (key : BSIKey) (column : ℕ) (value : ℤ)
  | clearValue (key : BSIKey) (column : ℕ)
  deriving DecidableEq

open BatchCall

def batchCall (st : BatchState) : BatchCall → BatchState
  | .setBit key column isUpdate => setBit site order key column isUpdate st
  | .clearBit key column => clearBit site order key column st
  | .setValue key column value => setValue site order key column value st
  | .clearValue key column => clearValue site order key column st

def BatchCall.fragment : BatchCall → Fragment
  | .setBit key column isUpdate =>
    .bitmap { key := key, bits := {column}, modTime := modTime, isUpdate := isUpdate }
  | .clearBit key column =>
    .bitmap { key := key, bits := {column}, modTime := modTime, isClear := true, isUpdate := true }
  | .setValue key column value =>
    .bsi { key := key.1, time := key.2, data := .values (Bsi.empty.setValue column value)
           modTime := modTime }
  | .clearValue key column =>
    .bsi { key := key.1, time := key.2, data := .clear {column}, modTime := modTime }

/-- The server after calls on a new buffer and one flush. -/
def buffered (batchSize : ℕ) (calls : List BatchCall) (s : CacheState) : CacheState :=
  (flush site order
    (calls.foldl (batchCall site order) ⟨newBatchBuffer batchSize, s⟩)).server

/-- The server after each call has been sent alone, in call order. -/
def callwise (calls : List BatchCall) (s : CacheState) : CacheState :=
  serveAll site order s (calls.map (fragment site.start))

/-! ## Calls that send nothing -/

/-- The buffer after a call that sends nothing. -/
def record (b : BatchBuffer) : BatchCall → BatchBuffer
  | .setBit key column isUpdate =>
    { b with
      batchSets := addPending b.batchSets key column isUpdate
      batchSetCount := b.batchSetCount + 1 }
  | .clearBit key column =>
    { b with
      batchClears := addPending b.batchClears key column true
      batchClearCount := b.batchClearCount + 1 }
  | .setValue key column value =>
    let bsi := ((b.batchValues.lookup key).getD .empty).setValue column value
    { b with
      batchValues := b.batchValues.insert key bsi
      batchValueCount := b.batchValueCount + 1 }
  | .clearValue key column =>
    let columns := insert column ((b.batchClearValues.lookup key).getD ∅)
    { b with
      batchClearValues := b.batchClearValues.insert key columns
      batchClearValueCount := b.batchClearValueCount + 1 }

def BatchCall.isSetBit : BatchCall → Bool
  | .setBit .. => true
  | _ => false

def BatchCall.isClearBit : BatchCall → Bool
  | .clearBit .. => true
  | _ => false

def BatchCall.isSetValue : BatchCall → Bool
  | .setValue .. => true
  | _ => false

def BatchCall.isClearValue : BatchCall → Bool
  | .clearValue .. => true
  | _ => false

/-- The buffer has room for the calls, so that none of them sends a map. -/
structure HasRoom (b : BatchBuffer) (calls : List BatchCall) : Prop where
  sets : b.batchSetCount + calls.countP isSetBit < b.batchSize
  clears : b.batchClearCount + calls.countP isClearBit < b.batchSize
  values : b.batchValueCount + calls.countP isSetValue < b.batchSize
  clearValues : b.batchClearValueCount + calls.countP isClearValue < b.batchSize

variable {b : BatchBuffer} {calls : List BatchCall}

theorem HasRoom.record {call : BatchCall} (h : HasRoom b (call :: calls)) :
    HasRoom (record b call) calls := by
  rcases h with ⟨hsets, hclears, hvalues, hclearValues⟩
  cases call <;>
    simp only [List.countP_cons, isSetBit, isClearBit, isSetValue,
      isClearValue, if_true, Bool.false_eq_true, if_false]
      at hsets hclears hvalues hclearValues <;>
    constructor <;> simp only [Shared.record] <;> omega

theorem batchCall_of_hasRoom {call : BatchCall} (h : HasRoom b (call :: calls)) (s : CacheState) :
    batchCall site order ⟨b, s⟩ call = ⟨record b call, s⟩ := by
  rcases h.record with ⟨hsets, hclears, hvalues, hclearValues⟩
  cases call <;> simp only [record] at hsets hclears hvalues hclearValues <;>
    simp only [batchCall, setBit, clearBit, setValue, clearValue, record] <;>
    rw [if_neg (by omega)]

/-- Calls for which there is room are recorded, and nothing is sent. -/
theorem exec_of_hasRoom (h : HasRoom b calls) (s : CacheState) :
    calls.foldl (batchCall site order) ⟨b, s⟩ = ⟨calls.foldl record b, s⟩ := by
  induction calls generalizing b with
  | nil => rfl
  | cons call calls ih =>
    rw [List.foldl_cons, batchCall_of_hasRoom site order h, ih h.record, List.foldl_cons]

end QuantaStream.Shared
