import QuantaStream.Lib.Bsi
import QuantaStream.Shared.ClientQuery

/-!
# The server side of a query

This module models `server/bitmapquery.go`: how one node evaluates the fragments of a
query on the shards it holds.  The fragments are evaluated children first.  A plain intersect
fragment is evaluated inside the intersection of the plain intersects before it, the prior
intersect candidates.  Null checks are rewritten into set operations, and the existence bitmap
of the table is added when a null check needs it or no union is present.

Main results:

- `query_eq`: the error exits of a query do not depend on the shards.
-/

namespace QuantaStream.Server

open ParOr Shared List

/-! ## Table configuration -/

/-- `TimeQuantumType`: no partitioning, by day, or by hour. -/
inductive TimeQuantum where
  | none
  | ymd
  | ymdh
  deriving DecidableEq, Repr

/-- The part of `BasicAttribute` a query reads. -/
structure Attribute where
  timeQuantum : TimeQuantum
  isBSI : Bool

/-- The part of `BasicTable` a query reads. -/
structure Table where
  timeQuantum : TimeQuantum
  timeQuantumField : Option String
  primaryKey : List String
  getAttribute : String → Option Attribute

/-- The ways a node refuses a query; `panicked` is a recovered run-time panic. -/
inductive QueryError where
  | indexNotSpecified
  | fieldNotSpecified
  | nonExistentAttribute (field : String)
  | panicked
  deriving DecidableEq, Repr

/-- `getFieldConfig`: a field without a quantum takes the one of its table. -/
def getFieldConfig (t : Table) (field : String) : Except QueryError Attribute :=
  match t.getAttribute field with
  | .none => .error (.nonExistentAttribute field)
  | .some a =>
    .ok (if a.timeQuantum = .none then { a with timeQuantum := t.timeQuantum } else a)

/-- `GetPrimaryKeyInfo`, by field name: the time quantum field comes first. -/
def getPrimaryKeyInfo (t : Table) : Except QueryError (List String) :=
  let names := t.timeQuantumField.toList ++ t.primaryKey
  match names.find? (fun n => (t.getAttribute n).isNone) with
  | .none => .ok names
  | .some n => .error (.nonExistentAttribute n)

/-! ## Shards -/

/-- A time-partitioned piece of one row of a standard bitmap field. -/
structure BitmapShard where
  field : String
  rowID : ℕ
  time : ℤ
  bits : Bitmap

/-- A time-partitioned piece of a bit-sliced-index field. -/
structure BSIShard where
  field : String
  time : ℤ
  bsi : Bsi

/-- The keys by which shards are placed on nodes. -/
inductive HashKey where
  | bitmap (field : String) (rowID : ℕ) (time : ℤ)
  | bsi (field : String) (time : ℤ)
  deriving DecidableEq

/-- One node: its two caches for the queried table, and the keys it is a member for.  `blank` is what
a comparison of the bitmap library answers for a row of the found set that has no value; the source
leaves that to the library. -/
structure Node where
  bitmapCache : List BitmapShard
  bsiCache : List BSIShard
  member : HashKey → Bool
  blank : Bsi → QueryFragment → ℕ → Bool := fun _ _ _ => false

/-- The time window of a query, in nanoseconds. -/
structure Window where
  fromTime : ℤ
  toTime : ℤ

/-- `truncateTime`: down to the day, or to the hour. -/
def truncateTime (time : ℤ) (tq : TimeQuantum) : ℤ :=
  if tq = .ymd then time - time % 86400000000000 else time - time % 3600000000000

/-- The test on the shard time in the quantum branch of the time range functions. -/
def Window.contains (w : Window) (tq : TimeQuantum) (time : ℤ) : Bool :=
  !(truncateTime time tq < truncateTime w.fromTime tq ||
    truncateTime time tq > truncateTime w.toTime tq)

/-- Restrict a shard to a found set; an empty remainder is skipped. -/
def retain (foundSet : Option Bitmap) (b : Bitmap) : Option Bitmap :=
  match foundSet with
  | .none => some b
  | .some s => if b ∩ s = ∅ then .none else some (b ∩ s)

variable (m : Node)

/-- `timeRange`: the union of the shards of one row inside the window. -/
def timeRange (w : Window) (tq : TimeQuantum) (field : String) (rowID : ℕ)
    (foundSet : Option Bitmap) : Bitmap :=
  parOr ((m.bitmapCache.filter (fun s => s.field = field && s.rowID = rowID &&
    (tq = .none || w.contains tq s.time) && m.member (.bitmap field rowID s.time))).filterMap
      (fun s => retain foundSet s.bits))

def listAllRowIDs (field : String) : List ℕ :=
  ((m.bitmapCache.filter (fun s => s.field = field)).map BitmapShard.rowID).dedup

/-- `timeRangeBSI` without a found set: without a quantum only the shard at time zero is read,
otherwise the shards the node is a member for. -/
def timeRangeBSI (w : Window) (tq : TimeQuantum) (field : String) : Bsi :=
  if tq = .none then
    Bsi.orAll ((m.bsiCache.filter (fun s => s.field = field && s.time = 0)).map BSIShard.bsi)
  else
    Bsi.orAll ((m.bsiCache.filter (fun s => s.field = field && w.contains tq s.time &&
      m.member (.bsi field s.time) && s.bsi.existence ≠ ∅)).map BSIShard.bsi)

/-- `timeRangeExistence`: the union of the existence bitmaps of the shards in the window. -/
def timeRangeExistence (w : Window) (tq : TimeQuantum) (field : String) : Bitmap :=
  parOr ((m.bsiCache.filter (fun s => s.field = field &&
    (tq = .none || w.contains tq s.time))).map (fun s => s.bsi.existence))

/-! ## Evaluation of one fragment -/

/-- `big.Int.SetBytes`. -/
def natOfBytes (bytes : List UInt8) : ℕ :=
  bytes.foldl (fun acc b => acc * 256 + b.toNat) 0

/-- `BigIntFromWireBytes`: negative operands carry the prefix 0, 1. -/
def bigIntFromWireBytes : List UInt8 → ℤ
  | 0 :: 1 :: magnitude => -(natOfBytes magnitude : ℤ)
  | bytes => natOfBytes bytes

variable (v : QueryFragment)

/-- The values a bit-sliced-index comparison selects. -/
def bsiSelects (x : ℤ) : Bool :=
  match v.bsiOp with
  | .na => false
  | .lt => x < bigIntFromWireBytes v.value
  | .le => x ≤ bigIntFromWireBytes v.value
  | .eq => x = bigIntFromWireBytes v.value
  | .ge => x ≥ bigIntFromWireBytes v.value
  | .gt => x > bigIntFromWireBytes v.value
  | .range => bigIntFromWireBytes v.beginValue ≤ x && x ≤ bigIntFromWireBytes v.endValue
  | .batchEq => x ∈ v.values.map bigIntFromWireBytes

/-- `CompareBigValue`, `BatchEqualBig` and `batchEqualBigWithFoundSet`.  The last one skips the rows
without a value. -/
def compareBigValue (bsi : Bsi) : Option Bitmap → Bitmap
  | .none => bsi.compare (bsiSelects v)
  | .some s =>
    if v.bsiOp = .batchEq then bsi.compare (bsiSelects v) ∩ s
    else bsi.compareWithin (bsiSelects v) (m.blank bsi v) s

/-- The bitmap of one fragment, in the branches of the main loop.  `a` is the configuration of
its field; a sampled fragment leaves its rows in the sample list and keeps an empty bitmap. -/
def evalFragment (w : Window) (a : Attribute) (v : QueryFragment)
    (foundSet : Option Bitmap) : Bitmap :=
  if v.nullCheck && a.isBSI then timeRangeExistence m w a.timeQuantum v.field
  else if v.bsiOp ≠ .na then
    compareBigValue m v (timeRangeBSI m w a.timeQuantum v.field) foundSet
  else if v.values ≠ [] then
    parOr ((v.values.map (fun raw =>
      timeRange m w a.timeQuantum v.field (natOfBytes raw % 2 ^ 64) foundSet)).filter (· ≠ ∅))
  else if v.nullCheck then
    parOr (((listAllRowIDs m v.field).map (fun row =>
      timeRange m w a.timeQuantum v.field row .none)).filter (· ≠ ∅))
  else if v.sampled then ∅
  else timeRange m w a.timeQuantum v.field v.rowID foundSet

/-! ## Prior intersect candidates -/

/-- `queryPriorIntersectCandidates` of a query over one index. -/
structure PriorIntersect where
  rows : Option Bitmap
  seeded : Bool

def queryFragmentCanUsePriorIntersect : Bool :=
  v.operation = .intersect && !v.orContext && !v.negate && !v.nullCheck && v.samplePct = 0

def queryFragmentCanUseSeededFoundSet : Bool :=
  (v.operation = .intersect || v.operation = .union) && !v.negate && !v.nullCheck &&
    v.samplePct = 0

def isExistenceSeedFragment : Bool :=
  v.nullCheck && v.negate && v.operation = .union

/-- `FoundSetFor`: an empty candidate set is not used. -/
def PriorIntersect.foundSetFor (s : PriorIntersect) (v : QueryFragment) : Option Bitmap :=
  match s.rows with
  | .none => .none
  | .some rows =>
    if rows = ∅ then .none
    else if s.seeded then
      if queryFragmentCanUseSeededFoundSet v then some rows else .none
    else if queryFragmentCanUsePriorIntersect v then some rows else .none

def PriorIntersect.observe (s : PriorIntersect) (v : QueryFragment) (bitmap : Bitmap) :
    PriorIntersect :=
  if queryFragmentCanUsePriorIntersect v then
    match s.rows with
    | .none => { s with rows := some bitmap }
    | .some rows => { s with rows := some (rows ∩ bitmap) }
  else s

/-! ## The query API -/

section

variable {ι : Type} [DecidableEq ι]

/-- A null check becomes a set operation at the start of its turn of the main loop. -/
def rewriteNullCheck (v : QueryFragment) : QueryFragment :=
  if v.nullCheck then
    if isExistenceSeedFragment v then { v with operation := .union }
    else if v.negate then { v with operation := .intersect }
    else { v with operation := .difference }
  else v

/-- The query with its null checks rewritten. -/
def rewriteNullChecks (q : BitmapQuery ι) : BitmapQuery ι :=
  q.mapFragments (fun _ v => rewriteNullCheck v)
    (fun _ v => by unfold rewriteNullCheck; split_ifs <;> rfl)

/-- The first loop over the fragments: reject incomplete ones and load the existence of the
table once, if a null check that is no existence seed occurs or there is no union. -/
def existenceLoop {β : Type} (t : Table) (load : String → Attribute → β) (foundUnion : Bool) :
    List (Occurrence ι) → Option β → Except QueryError (Option β)
  | [], globalExistence => .ok globalExistence
  | o :: os, globalExistence =>
    if o.fragment.index = "" then .error .indexNotSpecified
    else if o.fragment.field = "" then .error .fieldNotSpecified
    else if (o.fragment.nullCheck && !isExistenceSeedFragment o.fragment) || !foundUnion then
      match globalExistence with
      | some ge => existenceLoop t load foundUnion os (some ge)
      | none =>
        match getPrimaryKeyInfo t with
        | .error e => .error e
        | .ok [] => .error .panicked
        | .ok (pk :: _) =>
          match getFieldConfig t pk with
          | .error e => .error e
          | .ok a => existenceLoop t load foundUnion os (some (load pk a))
    else existenceLoop t load foundUnion os globalExistence

/-- The main loop: evaluate the fragments in order and keep their bitmaps by identifier. -/
def queryLoop (t : Table) (eval : Attribute → QueryFragment → Option Bitmap → Bitmap) :
    List (Occurrence ι) → PriorIntersect → (ι → Bitmap) → Except QueryError (ι → Bitmap)
  | [], _, dataMap => .ok dataMap
  | o :: os, prior, dataMap => do
      let v := rewriteNullCheck o.fragment
      if v.nullCheck && (t.getAttribute v.field).isNone then throw .panicked
      let a ← getFieldConfig t v.field
      let bm := eval a v (prior.foundSetFor v)
      queryLoop t eval os (prior.observe v bm) (Function.update dataMap o.id bm)

/-- `queryWithPriorIntersect`: evaluate a query on the shards of one node. -/
def queryWithPriorIntersect (t : Table) (m : Node) (w : Window) (q : BitmapQuery ι)
    (prior : PriorIntersect) : Except QueryError QueryResult := do
  let fragments := q.root.occurrences
  let foundUnion := fragments.any (fun o => o.fragment.operation = .union)
  let globalExistence ← existenceLoop t
    (fun pk a => timeRangeExistence m w a.timeQuantum pk) foundUnion fragments none
  let dataMap ← queryLoop t (fun a v foundSet => evalFragment m w a v foundSet)
    fragments prior (fun _ => ∅)
  let ir := (rewriteNullChecks q).reduce dataMap
  let ir := match globalExistence with
    | some ge => ir.addExistence ge
    | none => ir
  return ir.marshalQueryResult

/-- `Query`: no candidates at the start. -/
def query (t : Table) (m : Node) (w : Window) (q : BitmapQuery ι) : Except QueryError QueryResult :=
  queryWithPriorIntersect t m w q ⟨none, false⟩

end

/-! ## Found sets only restrict -/

variable {row : ℕ}

section

variable {m : Node} {w : Window} {tq : TimeQuantum} {field : String} {rowID : ℕ}
  {foundSet : Option Bitmap}

theorem exists_mem_retain_iff {b : Bitmap} : (∃ c, retain foundSet b = some c ∧ row ∈ c) ↔
    row ∈ b ∧ ∀ fs ∈ foundSet, row ∈ fs := by
  unfold retain
  split
  · simp
  · split_ifs with hempty
    · simpa [hempty] using Finset.mem_inter.not.mp (hempty ▸ Finset.notMem_empty row)
    · simp

theorem mem_timeRange :
    row ∈ timeRange m w tq field rowID foundSet ↔
      (∃ s ∈ m.bitmapCache, (s.field = field ∧ s.rowID = rowID ∧
        (tq = .none ∨ w.contains tq s.time = true) ∧
        m.member (.bitmap field rowID s.time) = true) ∧ row ∈ s.bits) ∧
      ∀ fs ∈ foundSet, row ∈ fs := by
  simp only [timeRange, mem_parOr, mem_filterMap, mem_filter, Bool.and_eq_true,
    Bool.or_eq_true, decide_eq_true_eq]
  constructor
  · rintro ⟨b, ⟨s, ⟨hs, hsel⟩, hb⟩, hrow⟩
    obtain ⟨hbits, hfs⟩ := exists_mem_retain_iff.mp ⟨b, hb, hrow⟩
    exact ⟨⟨s, hs, by tauto, hbits⟩, hfs⟩
  · rintro ⟨⟨s, hs, hsel, hbits⟩, hfs⟩
    obtain ⟨b, hb, hrow⟩ := exists_mem_retain_iff.mpr ⟨hbits, hfs⟩
    exact ⟨b, ⟨s, ⟨hs, by tauto⟩, hb⟩, hrow⟩

theorem mem_listAllRowIDs_of_mem_timeRange
    (h : row ∈ timeRange m w tq field rowID foundSet) : rowID ∈ listAllRowIDs m field := by
  obtain ⟨⟨s, hs, ⟨hf, hr, _⟩, _⟩, _⟩ := mem_timeRange.mp h
  exact mem_dedup.mpr (mem_map.mpr
    ⟨s, mem_filter.mpr ⟨hs, by simpa using hf⟩, hr⟩)

end

theorem timeRange_some (m : Node) (w : Window) (tq : TimeQuantum) (field : String)
    (rowID : ℕ) (fs : Bitmap) :
    timeRange m w tq field rowID (some fs) = timeRange m w tq field rowID none ∩ fs := by
  ext row
  rw [Finset.mem_inter, mem_timeRange, mem_timeRange]
  simp

theorem mem_parOr_filter_ne_empty {xs : List Bitmap} :
    row ∈ parOr (xs.filter (· ≠ ∅)) ↔ ∃ x ∈ xs, row ∈ x := by
  simp only [mem_parOr, mem_filter, and_assoc]
  refine exists_congr fun x => and_congr_right fun _ => and_iff_right_of_imp fun hrow => ?_
  simpa using Finset.ne_empty_of_mem hrow

/-- The row has a value in the field that a fragment compares, if it compares one. -/
def HasValue (m : Node) (w : Window) (a : Attribute) (v : QueryFragment) (row : ℕ) : Prop :=
  v.bsiOp ≠ .na → row ∈ (timeRangeBSI m w a.timeQuantum v.field).existence

/-- On rows with a value, a found set restricts the bitmap of a fragment and does nothing else. -/
theorem mem_evalFragment_some (m : Node) (w : Window) (a : Attribute) {v : QueryFragment}
    (hnull : v.nullCheck = false) (fs : Bitmap) (row : ℕ) :
    row ∈ evalFragment m w a v (some fs) ∧ HasValue m w a v row ↔
      row ∈ evalFragment m w a v none ∧ row ∈ fs := by
  unfold evalFragment HasValue
  rw [hnull]
  simp only [Bool.false_and, Bool.false_eq_true, if_false]
  split_ifs with hop
  · simp only [hop, ne_eq, not_false_eq_true, forall_const, compareBigValue]
    split_ifs
    · rw [Finset.mem_inter]
      refine and_iff_left_of_imp fun h => ?_
      obtain ⟨x, hx, -⟩ := Bsi.mem_compare.mp h.1
      exact Bsi.mem_existence_iff.mpr ⟨x, hx⟩
    · exact Bsi.mem_compareWithin
  · simp only [hop, false_imp_iff, and_true, mem_parOr_filter_ne_empty, mem_map, timeRange_some,
      exists_exists_and_eq_and, Finset.mem_inter, ← and_assoc, exists_and_right]
  · simp
  · simp [hop, timeRange_some]

/-! ## The loops, with the error exits apart

No error exit looks at the shards, so the loops factor into a check of the configuration and
an evaluation that cannot fail. -/

section

variable {ι : Type}

theorem existenceLoop_map {β γ : Type} (t : Table) (load : String → Attribute → β) (f : β → γ)
    (foundUnion : Bool) (os : List (Occurrence ι)) (acc : Option β) :
    existenceLoop t (fun pk a => f (load pk a)) foundUnion os (acc.map f) =
      (existenceLoop t load foundUnion os acc).map (Option.map f) := by
  induction os generalizing acc with
  | nil => rfl
  | cons o os ih =>
    simp only [existenceLoop]
    split_ifs
    · rfl
    · rfl
    · cases acc with
      | some ge => exact ih (some ge)
      | none =>
        simp only [Option.map_none]
        split
        · rfl
        · rfl
        · split
          · rfl
          · rename_i pk _ _ _ a _
            exact ih (some (load pk a))
    · exact ih acc

variable [DecidableEq ι]

/-- The configuration of a field that is known to exist. -/
def fieldConfig (t : Table) (field : String) : Attribute :=
  match getFieldConfig t field with
  | .ok a => a
  | .error _ => ⟨.none, false⟩

/-- The error exits of the main loop. -/
def checkFields (t : Table) : List (Occurrence ι) → Except QueryError Unit
  | [] => .ok ()
  | o :: os => do
      let v := rewriteNullCheck o.fragment
      if v.nullCheck && (t.getAttribute v.field).isNone then throw .panicked
      let _ ← getFieldConfig t v.field
      checkFields t os

/-- The main loop on fields that are known to exist. -/
def evalLoop (eval : QueryFragment → Option Bitmap → Bitmap) :
    List (Occurrence ι) → PriorIntersect → (ι → Bitmap) → ι → Bitmap
  | [], _, dataMap => dataMap
  | o :: os, prior, dataMap =>
    let v := rewriteNullCheck o.fragment
    let bm := eval v (prior.foundSetFor v)
    evalLoop eval os (prior.observe v bm) (Function.update dataMap o.id bm)

theorem queryLoop_eq (t : Table) (eval : Attribute → QueryFragment → Option Bitmap → Bitmap)
    (os : List (Occurrence ι)) (prior : PriorIntersect) (dataMap : ι → Bitmap) :
    queryLoop t eval os prior dataMap = (checkFields t os).map (fun _ =>
      evalLoop (fun v foundSet => eval (fieldConfig t v.field) v foundSet) os prior dataMap) := by
  induction os generalizing prior dataMap with
  | nil => rfl
  | cons o os ih =>
    simp only [queryLoop, checkFields, evalLoop]
    split_ifs with hnull
    · rfl
    cases hcfg : getFieldConfig t (rewriteNullCheck o.fragment).field with
    | error e => rfl
    | ok a =>
      have hfc : fieldConfig t (rewriteNullCheck o.fragment).field = a := by
        simp [fieldConfig, hcfg]
      rw [hfc]
      exact ih _ _

theorem evalLoop_of_notMem (eval : QueryFragment → Option Bitmap → Bitmap)
    (os : List (Occurrence ι)) (prior : PriorIntersect) (dataMap : ι → Bitmap) {id : ι}
    (h : id ∉ os.map Occurrence.id) : evalLoop eval os prior dataMap id = dataMap id := by
  induction os generalizing prior dataMap with
  | nil => rfl
  | cons o os ih =>
    rw [map_cons, mem_cons, not_or] at h
    rw [evalLoop, ih _ _ h.2, Function.update_of_ne h.1]

end

/-! ## Candidates of the plain intersects -/

section

variable {ι : Type} (eval : QueryFragment → Option Bitmap → Bitmap)

/-- The bitmap of a fragment without a found set. -/
def rawBitmap (o : Occurrence ι) : Bitmap := eval (rewriteNullCheck o.fragment) none

/-- The fragment narrows the candidates and is narrowed by them. -/
def Plain (o : Occurrence ι) : Prop :=
  queryFragmentCanUsePriorIntersect (rewriteNullCheck o.fragment) = true

instance (o : Occurrence ι) : Decidable (Plain o) := by unfold Plain; infer_instance

variable {o : Occurrence ι}

theorem Plain.nullCheck (h : Plain o) : (rewriteNullCheck o.fragment).nullCheck = false := by
  unfold Plain queryFragmentCanUsePriorIntersect at h
  simp only [Bool.and_eq_true, Bool.not_eq_true'] at h
  exact h.1.2

/-- A row is in the bitmaps of all plain intersects of a list. -/
def InPlain (os : List (Occurrence ι)) (row : ℕ) : Prop :=
  ∀ p ∈ os, Plain p → row ∈ rawBitmap eval p

theorem inPlain_append_singleton {os : List (Occurrence ι)} {row : ℕ} :
    InPlain eval (os ++ [o]) row ↔
      InPlain eval os row ∧ (Plain o → row ∈ rawBitmap eval o) := by
  simp [InPlain, or_imp, forall_and]

/-- The candidates are the rows of the plain intersects evaluated so far. -/
structure CandidatesOf (pre : List (Occurrence ι)) (s : PriorIntersect) : Prop where
  unseeded : s.seeded = false
  none_plain : s.rows = none → ∀ p ∈ pre, ¬ Plain p
  mem_rows : ∀ rows, s.rows = some rows → ∀ row, row ∈ rows ↔ InPlain eval pre row

variable {eval}

/-- A row is not cut off by the candidates: it is one of them, or there are none. -/
def PassesPrior (eval : QueryFragment → Option Bitmap → Bitmap) (pre : List (Occurrence ι))
    (row : ℕ) : Prop :=
  InPlain eval pre row ∨ ¬ ∃ other, InPlain eval pre other

variable {pre : List (Occurrence ι)} {s : PriorIntersect} {valued : QueryFragment → ℕ → Prop}

section

variable (heval : ∀ v fs row, v.nullCheck = false →
  (row ∈ eval v (some fs) ∧ valued v row ↔ row ∈ eval v none ∧ row ∈ fs))

include heval

/-- The bitmap of a fragment in the turn after `pre`, if its rows have values. -/
theorem CandidatesOf.mem_eval (h : CandidatesOf eval pre s) (o : Occurrence ι)
    (hvalued : Plain o → ∀ row ∈ eval (rewriteNullCheck o.fragment)
      (s.foundSetFor (rewriteNullCheck o.fragment)), valued (rewriteNullCheck o.fragment) row)
    (row : ℕ) :
    row ∈ eval (rewriteNullCheck o.fragment) (s.foundSetFor (rewriteNullCheck o.fragment)) ↔
      row ∈ rawBitmap eval o ∧ (Plain o → PassesPrior eval pre row) := by
  unfold PriorIntersect.foundSetFor at hvalued ⊢
  unfold PassesPrior
  simp only [h.unseeded, Bool.false_eq_true, if_false] at hvalued ⊢
  split at hvalued
  next hrows =>
    have hin : InPlain eval pre row := fun p hp hplain => absurd hplain (h.none_plain hrows p hp)
    simp [rawBitmap, hin]
  next rows hrows =>
    have hmem := h.mem_rows rows hrows
    split_ifs at hvalued ⊢ with hempty hplain
    · have hno : ¬ ∃ other, InPlain eval pre other := by
        rintro ⟨other, hother⟩
        simpa [hempty] using (hmem other).mpr hother
      simp [rawBitmap, hno]
    · obtain ⟨other, hother⟩ := Finset.nonempty_iff_ne_empty.mpr hempty
      have hsome : ∃ other, InPlain eval pre other := ⟨other, (hmem other).mp hother⟩
      rw [← and_iff_left_of_imp (hvalued hplain row), heval _ _ _ (Plain.nullCheck hplain), hmem row]
      simp [rawBitmap, show Plain o from hplain, hsome]
    · simp [rawBitmap, show ¬ Plain o from hplain]

/-- One turn of the main loop keeps the candidates up to date. -/
theorem CandidatesOf.observe (h : CandidatesOf eval pre s) (o : Occurrence ι)
    (hvalued : Plain o → ∀ row ∈ eval (rewriteNullCheck o.fragment)
      (s.foundSetFor (rewriteNullCheck o.fragment)), valued (rewriteNullCheck o.fragment) row) :
    CandidatesOf eval (pre ++ [o]) (s.observe (rewriteNullCheck o.fragment)
      (eval (rewriteNullCheck o.fragment) (s.foundSetFor (rewriteNullCheck o.fragment)))) := by
  have hbm := h.mem_eval heval o hvalued
  clear hvalued
  generalize eval (rewriteNullCheck o.fragment)
    (s.foundSetFor (rewriteNullCheck o.fragment)) = bm at hbm
  unfold PriorIntersect.observe
  split_ifs with hplain
  · split
    next hrows =>
      refine ⟨h.unseeded, nofun, fun rows hsome row => ?_⟩
      cases hsome
      have hin : InPlain eval pre row := fun p hp hpp => absurd hpp (h.none_plain hrows p hp)
      rw [hbm row, inPlain_append_singleton]
      simp [show Plain o from hplain, PassesPrior, hin]
    next cur hrows =>
      refine ⟨h.unseeded, nofun, fun rows hsome row => ?_⟩
      cases hsome
      rw [Finset.mem_inter, h.mem_rows cur hrows, hbm row, inPlain_append_singleton]
      tauto
  · refine ⟨h.unseeded, fun hnone => forall_mem_append.mpr
      ⟨h.none_plain hnone, forall_mem_singleton.mpr hplain⟩, fun rows hsome row => ?_⟩
    rw [h.mem_rows rows hsome row, inPlain_append_singleton]
    exact (and_iff_left fun hp => absurd hp hplain).symm

/-- The bitmap of each fragment after the main loop, in terms of unrestricted evaluations. -/
theorem mem_evalLoop_iff [DecidableEq ι] (mid : List (Occurrence ι)) (o : Occurrence ι)
    (post : List (Occurrence ι)) (h : CandidatesOf eval pre s)
    (hnd : ((mid ++ o :: post).map Occurrence.id).Nodup) (dataMap : ι → Bitmap)
    (hvalued : ∀ p ∈ mid ++ o :: post, Plain p →
      ∀ row ∈ evalLoop eval (mid ++ o :: post) s dataMap p.id,
        valued (rewriteNullCheck p.fragment) row) (row : ℕ) :
    row ∈ evalLoop eval (mid ++ o :: post) s dataMap o.id ↔
      row ∈ rawBitmap eval o ∧ (Plain o → PassesPrior eval (pre ++ mid) row) := by
  induction mid generalizing pre s dataMap with
  | nil =>
    rw [nil_append, map_cons, nodup_cons] at hnd
    have hturn : evalLoop eval (o :: post) s dataMap o.id = eval (rewriteNullCheck o.fragment)
        (s.foundSetFor (rewriteNullCheck o.fragment)) := by
      rw [evalLoop, evalLoop_of_notMem _ _ _ _ hnd.1, Function.update_self]
    have hfirst := hvalued o mem_cons_self
    rw [nil_append, hturn] at hfirst
    rw [nil_append, hturn, append_nil]
    exact h.mem_eval heval o hfirst row
  | cons p mid ih =>
    rw [cons_append, map_cons, nodup_cons] at hnd
    have hfirst := hvalued p mem_cons_self
    rw [cons_append, evalLoop, evalLoop_of_notMem _ _ _ _ hnd.1, Function.update_self] at hfirst
    have hstep := ih (h.observe heval p hfirst) hnd.2
      (Function.update dataMap p.id (eval (rewriteNullCheck p.fragment)
        (s.foundSetFor (rewriteNullCheck p.fragment))))
      fun p' hp' => hvalued p' (mem_cons_of_mem _ hp')
    rwa [append_assoc, singleton_append] at hstep

end

end

/-! ## The result of a node -/

section

variable {ι : Type} [DecidableEq ι] (t : Table)

/-- The error exits of a query, and the field whose existence is loaded, if any. -/
def queryPlan (q : BitmapQuery ι) : Except QueryError (Option (String × Attribute)) := do
  let foundUnion := q.root.occurrences.any (fun o => o.fragment.operation = .union)
  let existenceField ← existenceLoop t (fun pk a => (pk, a)) foundUnion q.root.occurrences none
  checkFields t q.root.occurrences
  return existenceField

variable (m : Node) (w : Window)

/-- Evaluation of a fragment on a node, its field being known to exist. -/
def evalOn (v : QueryFragment) (foundSet : Option Bitmap) : Bitmap :=
  evalFragment m w (fieldConfig t v.field) v foundSet

/-- The bitmaps a node computes for the fragments of a query. -/
def nodeData (q : BitmapQuery ι) : ι → Bitmap :=
  evalLoop (evalOn t m w) q.root.occurrences ⟨none, false⟩ (fun _ => ∅)

/-- The existence bitmap a node adds to its result. -/
def nodeExistence (existenceField : Option (String × Attribute)) : Option Bitmap :=
  existenceField.map (fun pk => timeRangeExistence m w pk.2.timeQuantum pk.1)

/-- The result of a node for a query without error. -/
def nodeResult (q : BitmapQuery ι) (existenceField : Option (String × Attribute)) : QueryResult :=
  let ir := (rewriteNullChecks q).reduce (nodeData t m w q)
  (match nodeExistence m w existenceField with
    | some ge => ir.addExistence ge
    | none => ir).marshalQueryResult

/-- The result of a node, from the bitmaps of the fragments and the existence bitmap. -/
def resultOf (q : BitmapQuery ι) (data : ι → Bitmap) (existence : Option Bitmap) : QueryResult :=
  let ir := (rewriteNullChecks q).reduce data
  (match existence with
    | some ge => ir.addExistence ge
    | none => ir).marshalQueryResult

/-- A query fails or succeeds on all nodes and for all candidates alike. -/
theorem queryWithPriorIntersect_eq (q : BitmapQuery ι) (prior : PriorIntersect) :
    queryWithPriorIntersect t m w q prior = (queryPlan t q).map fun pk => resultOf q
      (evalLoop (evalOn t m w) q.root.occurrences prior fun _ => ∅) (nodeExistence m w pk) := by
  unfold queryWithPriorIntersect queryPlan
  dsimp only
  generalize q.root.occurrences.any (fun o => o.fragment.operation = .union) = foundUnion
  have hex := existenceLoop_map t (fun pk a => (pk, a))
    (fun pk => timeRangeExistence m w pk.2.timeQuantum pk.1) foundUnion q.root.occurrences none
  rw [Option.map_none] at hex
  rw [hex, queryLoop_eq]
  cases existenceLoop t (fun pk a => (pk, a)) foundUnion q.root.occurrences none with
  | error e => rfl
  | ok pk =>
    cases checkFields t q.root.occurrences with
    | error e | ok u => rfl

theorem query_eq (q : BitmapQuery ι) : query t m w q = (queryPlan t q).map (nodeResult t m w q) :=
  queryWithPriorIntersect_eq t m w q ⟨none, false⟩

/-- The row has a value in the field that a fragment compares on a node. -/
def ValuedOn (v : QueryFragment) (row : ℕ) : Prop := HasValue m w (fieldConfig t v.field) v row

/-- Every row that the node returns for a plain intersect has a value there. -/
def AnswersValued (q : BitmapQuery ι) : Prop :=
  ∀ o ∈ q.root.occurrences, Plain o → ∀ row ∈ nodeData t m w q o.id,
    ValuedOn t m w (rewriteNullCheck o.fragment) row

theorem mem_evalOn_some (v : QueryFragment) (fs : Bitmap) (row : ℕ) (hnull : v.nullCheck = false) :
    row ∈ evalOn t m w v (some fs) ∧ ValuedOn t m w v row ↔ row ∈ evalOn t m w v none ∧ row ∈ fs :=
  mem_evalFragment_some m w _ hnull fs row

/-- The bitmap of each fragment on a node, in terms of unrestricted evaluations. -/
theorem mem_nodeData_iff {q : BitmapQuery ι} (hvalued : AnswersValued t m w q)
    {pre post : List (Occurrence ι)} {o : Occurrence ι}
    (hsplit : q.root.occurrences = pre ++ o :: post) (row : ℕ) :
    row ∈ nodeData t m w q o.id ↔
      row ∈ rawBitmap (evalOn t m w) o ∧
        (Plain o → PassesPrior (evalOn t m w) pre row) := by
  have hnd : (q.root.occurrences.map Occurrence.id).Nodup := q.ids_nodup
  unfold AnswersValued nodeData at hvalued
  unfold nodeData
  rw [hsplit] at hnd hvalued ⊢
  exact mem_evalLoop_iff (mem_evalOn_some t m w) pre o post
    (show CandidatesOf (evalOn t m w) [] ⟨none, false⟩ from ⟨rfl, by simp, by simp⟩) hnd
    (fun _ => ∅) hvalued row

end

end QuantaStream.Server
