import QuantaStream.Query.WindowAgreement
import QuantaStream.Runtime.LegacyAdapter

/-!
# The shard window of a request

A table partitioned by a time field keeps its rows in shards, one for each day or hour.  Before a
flat list of fragments is sent, the bounds it puts on the time field are turned into a window, and
the nodes read only the shards in the window.  This module models
`legacyDirectExecutionWithShardWindow` of `qsruntime/legacy_direct_runtime.go` and
`applyTimeWindow` of `qsruntime/quanta_legacy_adapter.go`, and compares the answer
inside the window with the answer over all shards.  Names lose the prefix `legacyDirect`.
-/

namespace QuantaStream.Runtime

open Shared Server Bridge Query List

/-! ## From an encoded bound to a window -/

/-- `legacyDirectRelationshipFullTimeRangeBeginMillis`, the start of 1900. -/
def fullTimeRangeBeginMillis : ℤ := -2208988800000

/-- `legacyDirectRelationshipFullTimeRangeEndMillis`, the start of 2100. -/
def fullTimeRangeEndMillis : ℤ := 4102444800000

/-- The value of `big.Int.Int64` and of signed arithmetic that overflows. -/
def toInt64 (v : ℤ) : ℤ := (v + 2 ^ 63) % 2 ^ 64 - 2 ^ 63

/-- `legacyBitmapQueryEpochValueMillis`: the unit of an encoded bound is guessed from its
magnitude. -/
def epochValueMillis (epochValue : ℤ) : ℤ :=
  let abs := if epochValue < 0 then toInt64 (-epochValue) else epochValue
  if 10 ^ 17 ≤ abs then epochValue.tdiv 1000000
  else if 10 ^ 14 ≤ abs then epochValue.tdiv 1000
  else if 0 < abs ∧ abs < 10 ^ 11 then epochValue * 1000
  else epochValue

def hourNanos : ℤ := 3600000000000

/-- `legacyBitmapQueryTimeWindowValue` and its reading in `ToProto`: the bound is printed up to the
hour and parsed again, and a year that does not have four digits is not parsed. -/
def timeWindowValue (v : ℤ) : ℤ :=
  let millis := epochValueMillis (toInt64 v)
  if -62167219200000 ≤ millis ∧ millis < 253402300800000 then
    toInt64 (millis * 1000000 - millis * 1000000 % hourNanos)
  else 0

def timeMillisToEncoded (granularity : TimeGranularity) (millis : ℤ) : ℤ :=
  match granularity with
  | .unknown => millis
  | .millisecond => millis
  | .second => millis.tdiv 1000
  | .microsecond => millis * 1000
  | .nanosecond => millis * 1000000
  | .day => millis.tdiv 86400000

/-! ## Requests -/

/-- A table partitioned by a time field, which also stands for the existence of its rows. -/
structure PartitionedSource extends TableSource where
  granularity : TimeGranularity
  partitioned : table.timeQuantum ≠ .none

/-- The part of `QuantaIntermediateQuery` that the window is made of. -/
structure ShardRequest where
  seeds : List QuantaSeed
  fragments : List QuantaQueryFragment

section

variable (equalFold : String → String → Bool) (s : PartitionedSource)

/-- The name after the last dot of a qualified name. -/
def afterLastDot (name : String) : Option String :=
  if '.' ∈ name.toList then
    some (String.ofList (name.toList.reverse.takeWhile (· ≠ '.')).reverse)
  else none

/-- `legacyDirectFragmentFieldMatches`; `equalFold` is `strings.EqualFold`. -/
def fragmentFieldMatches (f : QuantaQueryFragment) (field : String) : Bool :=
  equalFold f.field field || (afterLastDot f.field).any (fun name => equalFold name field)

def shardTimePredicate (f : QuantaQueryFragment) : Bool :=
  fragmentFieldMatches equalFold f s.seedField &&
    (f.bsiOp = .range || f.bsiOp = .ge || f.bsiOp = .gt || f.bsiOp = .le || f.bsiOp = .lt)

def markShardTimePredicates (fs : List QuantaQueryFragment) : List QuantaQueryFragment :=
  fs.map (fun f => if shardTimePredicate equalFold s f then { f with shardWindow := true } else f)

/-- The seed of all rows between two encoded times. -/
def windowSeed (first last : ℤ) : QuantaSeed where
  index := s.index
  field := s.seedField
  beginValue := some first
  endValue := some last
  shardWindow := true

/-- `legacyDirectExecutionWithShardWindow` and `legacyDirectExecutionWithFullTableScanSeed`, for a
request without seeds, joins and candidates. -/
def executionWithShardWindow (fs : List QuantaQueryFragment) : ShardRequest :=
  if fs.any (shardTimePredicate equalFold s) then ⟨[], markShardTimePredicates equalFold s fs⟩
  else if fs = [] then
    ⟨[windowSeed s (timeMillisToEncoded s.granularity fullTimeRangeBeginMillis)
      (timeMillisToEncoded s.granularity fullTimeRangeEndMillis)], []⟩
  else ⟨[windowSeed s fullTimeRangeBeginMillis fullTimeRangeEndMillis], fs⟩

end

structure ShardBounds where
  lower : ℤ
  upper : ℤ
  found : Bool

/-- One turn of the loop of `legacyBitmapQueryTimeWindowFromShardBounds`. -/
def addShardBound (b : ShardBounds) (f : QuantaQueryFragment) : ShardBounds :=
  match f.shardWindow, f.value, f.bsiOp with
  | true, some v, .ge => ⟨if !b.found || v > b.lower then v else b.lower, b.upper, true⟩
  | true, some v, .gt => ⟨if !b.found || v > b.lower then v else b.lower, b.upper, true⟩
  | true, some v, .le => ⟨b.lower, if !b.found || v < b.upper then v else b.upper, true⟩
  | true, some v, .lt =>
    ⟨b.lower, if !b.found || v - 1 < b.upper then v - 1 else b.upper, true⟩
  | _, _, _ => b

def timeWindowFromShardBounds (fs : List QuantaQueryFragment) : ShardBounds :=
  fs.foldl addShardBound ⟨fullTimeRangeBeginMillis, fullTimeRangeEndMillis, false⟩

/-- The operands of a range fragment that is marked. -/
def shardRange (f : QuantaQueryFragment) : Option (ℤ × ℤ) :=
  match f.bsiOp, f.shardWindow, f.beginValue, f.endValue with
  | .range, true, some first, some last => some (first, last)
  | _, _, _, _ => none

/-- The operands of a seed that is marked. -/
def seedRange (seed : QuantaSeed) : Option (ℤ × ℤ) :=
  match seed.shardWindow, seed.beginValue, seed.endValue with
  | true, some first, some last => some (first, last)
  | _, _, _ => none

/-- `applyDefaultTimeWindow` and `applyTimeWindow`. -/
def applyTimeWindow (r : ShardRequest) : Window :=
  match r.seeds.findSome? seedRange with
  | some range => ⟨timeWindowValue range.1, timeWindowValue range.2⟩
  | none =>
    match r.fragments.findSome? shardRange with
    | some range => ⟨timeWindowValue range.1, timeWindowValue range.2⟩
    | none =>
      let b := timeWindowFromShardBounds r.fragments
      if b.found then ⟨timeWindowValue b.lower, timeWindowValue b.upper⟩ else ⟨0, 0⟩

/-- The fragments of a request as they are sent, with the seeds first. -/
def sentFragments (r : ShardRequest) : List QuantaQueryFragment :=
  r.seeds.map seedFragment ++ r.fragments

/-- The rows of a request inside a window. -/
def requestRows (s : PartitionedSource) (m : Node) (w : Window) (r : ShardRequest) :
    Except QueryError Bitmap :=
  match sentFragments r with
  | [] => .ok ∅
  | f :: fs => localQuery s.table m w (toBitmapQuery f fs)

/-- A flat list of fragments that passes the checks of the adapter, before any window is marked. -/
structure FlatRequest (s : PartitionedSource) where
  fragments : List QuantaQueryFragment
  valid : ∀ f ∈ fragments, s.Valid f

open FlatRequest

section

variable {equalFold : String → String → Bool} {s : PartitionedSource}

/-! ## The query that is sent -/

variable {g : QuantaQueryFragment}

theorem valid_of_mem_mark (r : FlatRequest s)
    (hg : g ∈ markShardTimePredicates equalFold s r.fragments) : s.Valid g := by
  rcases mem_map.mp hg with ⟨f, hf, rfl⟩
  split_ifs <;> exact { r.valid f hf with }

variable {fs : List QuantaQueryFragment}

theorem executionWithShardWindow_marked
    (hsome : ∃ f ∈ fs, shardTimePredicate equalFold s f = true) :
    executionWithShardWindow equalFold s fs = ⟨[], markShardTimePredicates equalFold s fs⟩ := by
  rw [executionWithShardWindow, if_pos (any_eq_true.mpr hsome)]

section

variable (equalFold) (r : FlatRequest s)

/-- The request that is made of the list. -/
abbrev FlatRequest.sent : ShardRequest := executionWithShardWindow equalFold s r.fragments

/-- Marking a fragment does not change how it is sent. -/
theorem map_toQueryFragment_sent
    (hsome : ∃ f ∈ r.fragments, shardTimePredicate equalFold s f = true) :
    (sentFragments (r.sent equalFold)).map toQueryFragment = r.fragments.map toQueryFragment := by
  rw [sent, executionWithShardWindow_marked hsome, sentFragments, map_nil, nil_append,
    markShardTimePredicates, map_map]
  refine map_congr_left fun f _ => ?_
  rw [Function.comp_apply]
  split_ifs <;> rfl

/-- Every fragment of the list is sent. -/
theorem mem_map_sent {f : QuantaQueryFragment} (hf : f ∈ r.fragments) :
    toQueryFragment f ∈ (sentFragments (r.sent equalFold)).map toQueryFragment := by
  by_cases hsome : ∃ f ∈ r.fragments, shardTimePredicate equalFold s f = true
  · rw [map_toQueryFragment_sent equalFold r hsome]
    exact mem_map_of_mem hf
  · rw [sent, executionWithShardWindow, if_neg (mt any_eq_true.mp hsome),
      if_neg (ne_nil_of_mem hf)]
    exact mem_map_of_mem (mem_cons_of_mem _ hf)

theorem sentFragments_ne_nil : sentFragments (r.sent equalFold) ≠ [] := by
  by_cases hsome : ∃ f ∈ r.fragments, shardTimePredicate equalFold s f = true
  · obtain ⟨f, hf, _⟩ := hsome
    intro hnil
    have hmem := mem_map_sent equalFold r hf
    rw [hnil] at hmem
    cases hmem
  · rw [sent, executionWithShardWindow, if_neg (mt any_eq_true.mp hsome)]
    split_ifs <;> exact cons_ne_nil _ _

theorem valid_of_mem_sent : ∀ x ∈ sentFragments (r.sent equalFold), s.Valid x := by
  have hseed : ∀ first last, s.Valid (seedFragment (windowSeed s first last)) :=
    fun _ _ => ⟨.inl rfl, rfl, s.seedField_ne, s.seedField_configured⟩
  unfold sent executionWithShardWindow
  split_ifs
  · exact fun x hx => valid_of_mem_mark r hx
  · exact forall_mem_singleton.mpr (hseed _ _)
  · exact forall_mem_cons.mpr ⟨hseed _ _, r.valid⟩

/-- The query that is sent. -/
def FlatRequest.query : ConfiguredQuery s.table ℕ :=
  have hvalid : ∀ g ∈ (sentFragments (r.sent equalFold)).head (sentFragments_ne_nil equalFold r) ::
      (sentFragments (r.sent equalFold)).tail, s.Valid g := by
    simpa only [cons_head_tail] using valid_of_mem_sent equalFold r
  configuredQuery hvalid

theorem fragments_query : (r.query equalFold).fragments =
    (sentFragments (r.sent equalFold)).map toQueryFragment := by
  rw [FlatRequest.query, fragments_configuredQuery, cons_head_tail]

theorem requestRows_eq (m : Node) (w : Window) : requestRows s m w (r.sent equalFold) =
    localQuery s.table m w (r.query equalFold).toBitmapQuery := by
  unfold requestRows FlatRequest.query
  rw [toBitmapQuery_configuredQuery]
  split
  · exact absurd ‹_› (sentFragments_ne_nil equalFold r)
  · simp only [*, head_cons, tail_cons]

/-- The window of the request. -/
abbrev FlatRequest.window : Window := applyTimeWindow (r.sent equalFold)

end

/-! ## The answer inside the window -/

variable (equalFold) in
/-- The request has the same answer inside its window as over all shards, and the window contains
every shard that holds a row of the answer. -/
def KeepsAnswer (m : Node) (r : FlatRequest s) (all : Window) : Prop :=
  ∃ rows, requestRows s m (r.window equalFold) (r.sent equalFold) = .ok rows ∧
    requestRows s m all (r.sent equalFold) = .ok rows ∧
    ∀ row ∈ rows, Sees s.table m (r.window equalFold) row

variable (equalFold) in
/-- No stored row with a shard outside the window meets the query, inside the window or over all
shards, and both agree on whether all unions are empty, if that decides about a row. -/
structure PrunesNoRow (m : Node) (r : FlatRequest s) (all : Window) : Prop where
  unseen : ∀ row, ¬ Sees s.table m (r.window equalFold) row →
    ¬ InAnswer s.table m (r.window equalFold) (r.query equalFold).toListQuery row ∧
      ¬ InAnswer s.table m all (r.query equalFold).toListQuery row
  fallback : FallbackAgrees s.table m (r.window equalFold) all (r.query equalFold).toListQuery

end

/-! ## A window that loses a row -/

def eventsSource : PartitionedSource where
  table :=
    { timeQuantum := .ymd
      timeQuantumField := some "ts"
      primaryKey := ["id"]
      getAttribute name :=
        if name ∈ ["ts", "id", "a"] then some ⟨.none, true⟩ else none }
  index := "events"
  seedField := "ts"
  index_ne := by decide
  seedField_ne := by decide
  seedField_configured := by decide
  primaryKey_ne := by decide
  primaryKey_configured := by decide
  granularity := .millisecond
  partitioned := by decide

/-- Row 1 is from the first day of 2020, row 2 is from the first day of 2021. -/
def eventsNode : Node where
  bitmapCache := []
  bsiCache := [⟨"ts", 1577836800000000000, Bsi.empty.setValue 1 1577836800000⟩,
    ⟨"ts", 1609459200000000000, Bsi.empty.setValue 2 1609459200000⟩,
    ⟨"a", 1577836800000000000, Bsi.empty.setValue 1 1⟩]
  member _ := true

/-- Names are equal up to the case of letters in ASCII. -/
def equalFoldASCII (a b : String) : Bool := a.toLower = b.toLower

/-- A comparison of a field of the events with a number. -/
def eventsFragment (operation : OpType) (field : String) (op : BSIOp) (v : ℤ) :
    QuantaQueryFragment where
  index := "events"
  role := "events"
  field := field
  operation := operation
  bsiOp := op
  value := some v

def allEvents : Window := ⟨0, 4102444800000000000⟩

/-- The events since 2021 that do not have 1 in the other field. -/
def eventsRequest : FlatRequest eventsSource where
  fragments := [eventsFragment .intersect "ts" .ge 1609459200000,
    eventsFragment .difference "a" .eq 1]
  valid f hf := by
    simp only [mem_cons, not_mem_nil, or_false] at hf
    rcases hf with rfl | rfl
    · exact ⟨.inr (.inl rfl), rfl, by decide, by decide⟩
    · exact ⟨.inr (.inr rfl), rfl, by decide, by decide⟩

end QuantaStream.Runtime
