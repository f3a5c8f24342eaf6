import Mathlib.Data.List.Sort
import QuantaStream.Lib.Outcome
import QuantaStream.Lib.Summary
import QuantaStream.Server.BitmapQuery

/-!
# Grouped aggregates on one node

A node computes grouped aggregates from the bitmaps of the group fields and the bit-sliced indexes
of the measured fields: it intersects the bitmaps of every combination of values, and summarizes
the values of the rows of each combination.  It declines the request when a group field has no
bitmaps or when there are too many combinations.
-/

namespace QuantaStream.Server

open ParOr Shared List Outcome Bsi Summary

/-! ## Groups -/

/-- A node with the fields its bitmap cache has an entry for, possibly without a shard. -/
structure GroupNode extends Node where
  bitmapFields : List String
  field_mem : ∀ s ∈ bitmapCache, s.field ∈ bitmapFields

/-- `bitmapGroupCountMaxValueCombinations`. -/
def maxValueCombinations : ℕ := 4096

/-- What a grouped request reads besides the shards. -/
structure GroupScope where
  table : Table
  window : Window
  foundSet : Option Bitmap

open GroupScope

variable (g : GroupScope)

/-- The rows with a value in a group field. -/
def GroupScope.rows (m : Node) (field : String) (rowID : ℕ) : Bitmap :=
  timeRange m g.window (fieldConfig g.table field).timeQuantum field rowID g.foundSet

/-- The values of a group field that some row has, with their rows. -/
def groupValues (m : GroupNode) (field : String) : Except QueryError (List (ℕ × Bitmap)) := do
  let values ← ((listAllRowIDs m.toNode field).insertionSort (· ≤ ·)).mapM fun rowID =>
    (getFieldConfig g.table field).map fun attr =>
      (rowID, timeRange m.toNode g.window attr.timeQuantum field rowID g.foundSet)
  return values.filter fun v => v.2 ≠ ∅

inductive GroupScan where
  | declined
  | noValues
  | values (fieldValues : List (List (ℕ × Bitmap)))

/-- Put the values of a field in front of those of the later ones. -/
def GroupScan.cons (values : List (ℕ × Bitmap)) : GroupScan → GroupScan
  | .values fieldValues => .values (values :: fieldValues)
  | scan => scan

def scanGroupFields (g : GroupScope) (m : GroupNode) : ℕ → List String → Except QueryError GroupScan
  | _, [] => .ok (.values [])
  | combinations, field :: fields =>
    if field = "" then .error .fieldNotSpecified
    else if field ∉ m.bitmapFields then .ok .declined
    else do
      let values ← groupValues g m field
      if values = [] then return .noValues
      else if combinations * values.length > maxValueCombinations then return .declined
      else return (← scanGroupFields g m (combinations * values.length) fields).cons values

/-- The rows of a value among those of the values before. -/
def narrow (current : Option Bitmap) (rows : Bitmap) : Bitmap := current.elim rows (rows ∩ ·)

def bitmapGroupBitmapWalk : List (List (ℕ × Bitmap)) → List ℕ → Option Bitmap →
    List (List ℕ × Bitmap)
  | [], _, none => []
  | [], values, some current => if current = ∅ then [] else [(values, current)]
  | field :: fields, values, current =>
    field.flatMap fun v =>
      if narrow current v.2 = ∅ then []
      else bitmapGroupBitmapWalk fields (values ++ [v.1]) (some (narrow current v.2))

/-- `bitmapGroupBitmaps`; `none` declines the request. -/
def bitmapGroupBitmaps (m : GroupNode) (fields : List String) :
    Except QueryError (Option (List (List ℕ × Bitmap))) :=
  if fields = [] then .ok none
  else
    (scanGroupFields g m 1 fields).map fun
      | .declined => none
      | .noValues => some []
      | .values fieldValues => some (bitmapGroupBitmapWalk fieldValues [] none)

/-! ## Aggregates -/

structure AggregateSpec where
  function : String
  field : String

inductive AggregateFunction where
  | sum
  | avg
  | min
  | max
  deriving DecidableEq, Repr

/-- What an aggregate computes: the number of rows, or a function of a measured field. -/
inductive AggregateSlot where
  | count
  | measure (function : AggregateFunction) (field : String)
  deriving DecidableEq, Repr

inductive GroupError where
  | query (err : QueryError)
  | requiresField (function : String)
  | groupFieldsNotSpecified
  | aggregatesNotSpecified
  | noActiveNodes
  deriving DecidableEq, Repr

variable (lower : String → String)

/-- The slot of an aggregate; `lower` is `strings.ToLower`. -/
def AggregateSpec.slot (a : AggregateSpec) : Option AggregateSlot :=
  if lower a.function = "count" ∧ a.field = "" then some .count
  else if lower a.function = "sum" then some (.measure .sum a.field)
  else if lower a.function = "avg" then some (.measure .avg a.field)
  else if lower a.function = "min" then some (.measure .min a.field)
  else if lower a.function = "max" then some (.measure .max a.field)
  else none

/-- `retainedProjectionBSI`: nothing, the source itself, or its values in the found set. -/
def retainedProjectionBSI (source : Bsi) (foundSet : Bitmap) : Option Bsi :=
  if source.existence ∩ foundSet = ∅ then none
  else if source.existence.card ≤ foundSet.card ∧
      (source.existence ∩ foundSet).card = source.existence.card then some source
  else if (source.retain foundSet).existence = ∅ then none
  else some (source.retain foundSet)

/-- What a projection takes of a shard. -/
def GroupScope.projected (field : String) (s : BSIShard) : Option Bsi :=
  match g.foundSet with
  | some foundSet => retainedProjectionBSI s.bsi foundSet
  | none =>
    if (fieldConfig g.table field).timeQuantum ≠ .none ∧ s.bsi.existence = ∅ then none
    else some s.bsi

/-- `projectBSIWithStats` without negation, for the shards of a node whether it owns them or
not. -/
def GroupScope.projectBSI (m : Node) (field : String) : Bsi :=
  let tq := (fieldConfig g.table field).timeQuantum
  orAll ((m.bsiCache.filter fun s => s.field = field &&
    if tq = .none then decide (s.time = 0) else g.window.contains tq s.time).filterMap
      (g.projected field))

/-- `bitmapGroupAggregateValue` of a slot: the rows of the group that have a value are counted, and
their values are added up or compared. -/
def aggregateValue (m : Node) (groupRows : Bitmap) : AggregateSlot → Summary ℤ
  | .count => { count := groupRows.card }
  | .measure function field =>
    let bsi := g.projectBSI m field
    let rows := groupRows ∩ bsi.existence
    if h : rows.Nonempty then
      match function with
      | .sum | .avg => { count := rows.card, sum := some (∑ r ∈ rows, bsi.value r) }
      | .min => { count := rows.card, min := some (rows.inf' h bsi.value) }
      | .max => { count := rows.card, max := some (rows.sup' h bsi.value) }
    else {}

/-- The checks of the aggregates: whether all of them are supported. -/
def checkAggregates (t : Table) (lower : String → String) :
    List AggregateSpec → Except GroupError Bool
  | [] => .ok true
  | a :: aggregates =>
    match a.slot lower with
    | none => .ok false
    | some .count => checkAggregates t lower aggregates
    | some (.measure _ field) =>
      if field = "" then .error (.requiresField a.function)
      else
        match getFieldConfig t field with
        | .error err => .error (.query err)
        | .ok attr => if attr.isBSI then checkAggregates t lower aggregates else .ok false

/-- The aggregates of a group, in the order of the request. -/
abbrev AggregateValues (aggregates : List AggregateSpec) := Fin aggregates.length → Summary ℤ

def aggregateValues (m : Node) (aggregates : List AggregateSpec) (groupRows : Bitmap) :
    AggregateValues aggregates :=
  fun i => ((aggregates.get i).slot lower).elim 0 (aggregateValue g m groupRows)

/-- `BitmapGroupAggregatesStorage`; `none` is an answer that is not ok. -/
def bitmapGroupAggregatesStorage (m : GroupNode) (fields : List String)
    (aggregates : List AggregateSpec) :
    Except GroupError (Option (List (List ℕ × AggregateValues aggregates))) :=
  match bitmapGroupBitmaps g m fields with
  | .error err => .error (.query err)
  | .ok none => .ok none
  | .ok (some groups) =>
    if aggregates = [] then .ok none
    else
      (checkAggregates g.table lower aggregates).map fun supported =>
        if supported then
          some ((groups.filter fun group => group.2 ≠ ∅).map fun group =>
            (group.1, aggregateValues g lower m.toNode aggregates group.2))
        else none

/-! ## The rows of a group -/

section

variable {g : GroupScope} {m : GroupNode}

/-- The rows of a set that have the given values in the fields. -/
def GroupScope.common (g : GroupScope) (m : Node) : List String → List ℕ → Bitmap → Bitmap
  | [], [], current => current
  | field :: fields, v :: vs, current => g.common m fields vs (g.rows m field v ∩ current)
  | _, _, _ => ∅

/-- The rows that have the given values in the group fields. -/
def GroupScope.groupRows (g : GroupScope) (m : Node) : List String → List ℕ → Bitmap
  | field :: fields, v :: vs => g.common m fields vs (g.rows m field v)
  | _, _ => ∅

variable {fields : List String}

theorem mem_common {m : Node} {vs : List ℕ} {current : Bitmap} {r : ℕ} :
    r ∈ g.common m fields vs current ↔
      r ∈ current ∧ Forall₂ (fun field v => r ∈ g.rows m field v) fields vs := by
  induction fields generalizing vs current with
  | nil => cases vs <;> simp [common]
  | cons field fields ih =>
    cases vs <;> simp [common, ih, and_assoc, and_left_comm]

theorem mem_groupRows {m : Node} {vs : List ℕ} {r : ℕ} :
    r ∈ g.groupRows m fields vs ↔
      fields ≠ [] ∧ Forall₂ (fun field v => r ∈ g.rows m field v) fields vs := by
  cases fields <;> cases vs <;> simp [groupRows, mem_common]

/-- A list of values of a field is complete: it has each value that some row has, with its rows. -/
structure GroupScope.Lists (g : GroupScope) (m : Node) (field : String)
    (values : List (ℕ × Bitmap)) : Prop where
  nodup : (values.map Prod.fst).Nodup
  mem_iff : ∀ v b, (v, b) ∈ values ↔ b = g.rows m field v ∧ b ≠ ∅

variable {field : String}

theorem lists_groupValues {values : List (ℕ × Bitmap)} (h : groupValues g m field = .ok values) :
    g.Lists m.toNode field values := by
  obtain ⟨all, hall, hvalues⟩ := bind_eq_ok.mp h
  cases hvalues
  have hrowIDs : ∀ v, g.rows m.toNode field v ≠ ∅ →
      v ∈ (listAllRowIDs m.toNode field).insertionSort (· ≤ ·) := by
    intro v hv
    obtain ⟨r, hr⟩ := Finset.nonempty_iff_ne_empty.mpr hv
    rw [(perm_insertionSort _ _).mem_iff]
    exact mem_listAllRowIDs_of_mem_timeRange hr
  have heq : all = ((listAllRowIDs m.toNode field).insertionSort (· ≤ ·)).map
      fun v => (v, g.rows m.toNode field v) := by
    by_cases hne : (listAllRowIDs m.toNode field).insertionSort (· ≤ ·) = []
    · rw [hne] at hall ⊢
      cases hall
      rfl
    · rw [mapM_map _ (fun v (attr : Attribute) =>
        (v, timeRange m.toNode g.window attr.timeQuantum field v g.foundSet)) hne] at hall
      obtain ⟨attr, hattr, rfl⟩ := map_eq_ok.mp hall
      simp only [rows, fieldConfig, hattr]
  subst heq
  constructor
  · have hnodup : ((listAllRowIDs m.toNode field).insertionSort (· ≤ ·)).Nodup :=
      (perm_insertionSort _ _).nodup_iff.mpr (nodup_dedup _)
    refine Nodup.sublist (filter_sublist.map Prod.fst) ?_
    rw [map_map]
    exact (map_id _).symm ▸ hnodup
  · intro v b
    rw [mem_filter, mem_map]
    constructor
    · rintro ⟨⟨x, -, heq⟩, hb⟩
      cases heq
      exact ⟨rfl, by simpa using hb⟩
    · rintro ⟨rfl, hb⟩
      exact ⟨⟨v, hrowIDs v hb, rfl⟩, by simpa using hb⟩

/-! ## The walk -/

variable {fieldValues : List (List (ℕ × Bitmap))} {values : List ℕ}

theorem mem_walk_cons {field : List (ℕ × Bitmap)} {current : Option Bitmap}
    {group : List ℕ × Bitmap} :
    group ∈ bitmapGroupBitmapWalk (field :: fieldValues) values current ↔
      ∃ v ∈ field, narrow current v.2 ≠ ∅ ∧
        group ∈ bitmapGroupBitmapWalk fieldValues (values ++ [v.1])
          (some (narrow current v.2)) := by
  rw [bitmapGroupBitmapWalk, mem_flatMap]
  refine exists_congr fun v => and_congr_right fun _ => ?_
  by_cases hempty : narrow current v.2 = ∅ <;> simp [hempty]

theorem isPrefix_of_mem_walk {current : Option Bitmap} {group : List ℕ × Bitmap}
    (h : group ∈ bitmapGroupBitmapWalk fieldValues values current) : values <+: group.1 := by
  induction fieldValues generalizing values current with
  | nil =>
    cases current <;> simp [bitmapGroupBitmapWalk] at h
    simp [h.2]
  | cons field fieldValues ih =>
    obtain ⟨v, -, -, h⟩ := mem_walk_cons.mp h
    exact (prefix_append values [v.1]).trans (ih h)

theorem nodup_walk (hlists : Forall₂ (g.Lists m.toNode) fields fieldValues) (values : List ℕ)
    (current : Option Bitmap) :
    ((bitmapGroupBitmapWalk fieldValues values current).map Prod.fst).Nodup := by
  induction hlists generalizing values current with
  | nil =>
    cases current with
    | none => exact nodup_nil
    | some current =>
      simp only [bitmapGroupBitmapWalk]
      split <;> simp
  | @cons field valuesOf fields fieldValues hfield hrest ih =>
    simp only [bitmapGroupBitmapWalk, map_flatMap]
    rw [nodup_flatMap]
    constructor
    · intro v _
      split
      · exact nodup_nil
      · exact ih _ _
    · refine (pairwise_map.mp hfield.nodup).imp ?_
      intro v v' hne ws hws hws'
      have hshorter : ∀ u : ℕ × Bitmap, ws ∈ map Prod.fst
          (if narrow current u.2 = ∅ then []
            else bitmapGroupBitmapWalk fieldValues (values ++ [u.1])
              (some (narrow current u.2))) → values ++ [u.1] <+: ws := by
        intro u hu
        split at hu
        · cases hu
        · obtain ⟨group, hgroup, rfl⟩ := mem_map.mp hu
          exact isPrefix_of_mem_walk hgroup
      have heq : values ++ [v.1] = values ++ [v'.1] :=
        prefix_of_prefix_length_le (hshorter v hws) (hshorter v' hws') (by simp)
          |>.eq_of_length (by simp)
      exact hne (singleton_inj.mp (append_cancel_left heq))

/-- The rows with the given values among those that the walk has reached. -/
def GroupScope.among (g : GroupScope) (m : Node) (fields : List String) (vs : List ℕ)
    (current : Option Bitmap) : Bitmap :=
  current.elim (g.groupRows m fields vs) (g.common m fields vs)

theorem among_cons {m : Node} {v : ℕ} {vs : List ℕ} (current : Option Bitmap) :
    g.among m (field :: fields) (v :: vs) current =
      g.common m fields vs (narrow current (g.rows m field v)) := by
  cases current <;> rfl

/-- The walk finds the combinations of values that some of the rows it has reached have. -/
theorem mem_groupWalk (hlists : Forall₂ (g.Lists m.toNode) fields fieldValues)
    {current : Option Bitmap} {ws : List ℕ} {b : Bitmap} :
    (ws, b) ∈ bitmapGroupBitmapWalk fieldValues values current ↔
      ∃ vs, ws = values ++ vs ∧ b = g.among m.toNode fields vs current ∧ b ≠ ∅ := by
  induction hlists generalizing values current with
  | nil =>
    cases current with
    | none => exact iff_of_false not_mem_nil fun ⟨_, _, hb, hne⟩ => hne hb
    | some current =>
      simp only [bitmapGroupBitmapWalk]
      constructor
      · intro h
        split at h
        · cases h
        next hne =>
          cases mem_singleton.mp h
          exact ⟨[], by simp, rfl, hne⟩
      · rintro ⟨vs, rfl, hb, hne⟩
        cases vs with
        | nil =>
          subst hb
          simpa [among, common] using hne
        | cons v vs => exact absurd hb hne
  | @cons field valuesOf fields fieldValues hfield hrest ih =>
    rw [mem_walk_cons]
    constructor
    · rintro ⟨v, hv, -, h⟩
      obtain ⟨vs, rfl, hb, hne⟩ := ih.mp h
      obtain ⟨hrows, -⟩ := (hfield.mem_iff v.1 v.2).mp hv
      refine ⟨v.1 :: vs, by simp, ?_, hne⟩
      rw [among_cons, ← hrows]
      exact hb
    · rintro ⟨vs, rfl, hb, hne⟩
      cases vs with
      | nil => cases current <;> exact absurd hb hne
      | cons v vs =>
        rw [among_cons] at hb
        obtain ⟨r, hr⟩ := Finset.nonempty_iff_ne_empty.mpr hne
        rw [hb, mem_common] at hr
        have hrows : r ∈ g.rows m.toNode field v := by
          cases current with
          | none => exact hr.1
          | some current => exact (Finset.mem_inter.mp hr.1).1
        exact ⟨(v, _), (hfield.mem_iff v _).mpr ⟨rfl, Finset.ne_empty_of_mem hrows⟩,
          Finset.ne_empty_of_mem hr.1, ih.mpr ⟨vs, by simp, hb, hne⟩⟩

/-- A scan lists the values of every field, or ends early at a field that none of the rows has a
value in. -/
theorem scanGroupFields_spec {combinations : ℕ} {scan : GroupScan}
    (h : scanGroupFields g m combinations fields = .ok scan) :
    (∀ fieldValues, scan = .values fieldValues →
      Forall₂ (g.Lists m.toNode) fields fieldValues) ∧
      (scan = .noValues → ∃ field ∈ fields, g.Lists m.toNode field []) := by
  induction fields generalizing combinations scan with
  | nil =>
    cases h
    exact ⟨by rintro _ ⟨⟩; exact .nil, nofun⟩
  | cons field fields ih =>
    unfold scanGroupFields at h
    split at h
    · cases h
    split at h
    · cases h
      exact ⟨nofun, nofun⟩
    obtain ⟨values, hvalues, h⟩ := bind_eq_ok.mp h
    split at h
    next hempty =>
      cases h
      subst hempty
      exact ⟨nofun, fun _ => ⟨field, mem_cons_self, lists_groupValues hvalues⟩⟩
    · split at h
      · cases h
        exact ⟨nofun, nofun⟩
      obtain ⟨rest, hrest, h⟩ := bind_eq_ok.mp h
      cases h
      cases rest with
      | declined => exact ⟨nofun, nofun⟩
      | noValues =>
        obtain ⟨other, hother, hlists⟩ := (ih hrest).2 rfl
        exact ⟨nofun, fun _ => ⟨other, mem_cons_of_mem _ hother, hlists⟩⟩
      | values rest =>
        refine ⟨?_, nofun⟩
        rintro _ ⟨⟩
        exact .cons (lists_groupValues hvalues) ((ih hrest).1 rest rfl)

theorem groupRows_eq_empty_of_lists_nil (hfield : field ∈ fields) (h : g.Lists m.toNode field [])
    (vs : List ℕ) : g.groupRows m.toNode fields vs = ∅ := by
  refine Finset.eq_empty_of_forall_notMem fun r hr => ?_
  obtain ⟨-, hvalues⟩ := mem_groupRows.mp hr
  obtain ⟨v, hv⟩ : ∃ v, r ∈ g.rows m.toNode field v := by
    induction hvalues with
    | nil => cases hfield
    | cons hhead htail ih =>
      rcases mem_cons.mp hfield with rfl | hfield
      · exact ⟨_, hhead⟩
      · exact ih hfield (mem_groupRows.mpr ⟨ne_nil_of_mem hfield, htail⟩)
  exact not_mem_nil ((h.mem_iff v _).mpr ⟨rfl, Finset.ne_empty_of_mem hv⟩)

/-- The groups of a node are the combinations of values with common rows, each of them once. -/
theorem mem_bitmapGroupBitmaps {groups : List (List ℕ × Bitmap)}
    (h : bitmapGroupBitmaps g m fields = .ok (some groups)) :
    (groups.map Prod.fst).Nodup ∧
      ∀ vs b, (vs, b) ∈ groups ↔ b = g.groupRows m.toNode fields vs ∧ b ≠ ∅ := by
  unfold bitmapGroupBitmaps at h
  split at h
  · cases h
  next hne =>
    obtain ⟨scan, hscan, hgroups⟩ := map_eq_ok.mp h
    cases scan with
    | declined => cases hgroups
    | noValues =>
      cases hgroups
      obtain ⟨field, hfield, hlists⟩ := (scanGroupFields_spec hscan).2 rfl
      refine ⟨nodup_nil, fun vs b => ⟨fun hb => absurd hb not_mem_nil, ?_⟩⟩
      rintro ⟨hb, hnonempty⟩
      exact absurd (hb.trans (groupRows_eq_empty_of_lists_nil hfield hlists vs)) hnonempty
    | values fieldValues =>
      cases hgroups
      have hlists := (scanGroupFields_spec hscan).1 _ rfl
      refine ⟨nodup_walk hlists [] none, fun vs b => ?_⟩
      rw [mem_groupWalk hlists]
      simp [among]

end

/-! ## The measured values -/

variable {r : ℕ} {x : ℤ}

theorem get?_retainedProjectionBSI {source : Bsi} {foundSet : Bitmap} :
    (∃ b, retainedProjectionBSI source foundSet = some b ∧ b.get? r = some x) ↔
      source.get? r = some x ∧ r ∈ foundSet := by
  have hmem : source.get? r = some x → r ∈ source.existence := fun h =>
    mem_existence_iff.mpr ⟨x, h⟩
  have hretain : (source.retain foundSet).get? r = some x ↔
      source.get? r = some x ∧ r ∈ foundSet := by
    rw [get?_retain]
    by_cases hr : r ∈ foundSet <;> simp [hr]
  fun_cases retainedProjectionBSI source foundSet with
  | case1 hempty =>
    refine iff_of_false nofun fun h => ?_
    exact Finset.ne_empty_of_mem (Finset.mem_inter.mpr ⟨hmem h.1, h.2⟩) hempty
  | case2 _ hall =>
    have hsub : source.existence ⊆ foundSet :=
      Finset.inter_eq_left.mp (Finset.eq_of_subset_of_card_le Finset.inter_subset_left hall.2.ge)
    simp only [Option.some.injEq, exists_eq_left']
    exact ⟨fun h => ⟨h, hsub (hmem h)⟩, And.left⟩
  | case3 _ _ hempty =>
    rw [← hretain]
    refine iff_of_false nofun fun h => ?_
    exact Finset.ne_empty_of_mem (mem_existence_iff.mpr ⟨x, h⟩) hempty
  | case4 =>
    simp only [Option.some.injEq, exists_eq_left']
    exact hretain

theorem get?_projected {g : GroupScope} {field : String} {s : BSIShard} :
    (∃ b, g.projected field s = some b ∧ b.get? r = some x) ↔
      s.bsi.get? r = some x ∧ ∀ fs ∈ g.foundSet, r ∈ fs := by
  unfold projected
  cases g.foundSet with
  | some foundSet => simpa using get?_retainedProjectionBSI
  | none =>
    dsimp only
    split
    next hempty =>
      have hnone : s.bsi.get? r = none := by simp [hempty.2]
      simp [hnone]
    · simp

/-- The shards of a field that a projection reads. -/
def GroupScope.Projects (field : String) (s : BSIShard) : Prop :=
  s.field = field ∧
    if (fieldConfig g.table field).timeQuantum = .none then s.time = 0
    else g.window.contains (fieldConfig g.table field).timeQuantum s.time = true

theorem projects_iff {g : GroupScope} {field : String} {s : BSIShard} :
    (s.field = field && if (fieldConfig g.table field).timeQuantum = .none then decide (s.time = 0)
      else g.window.contains (fieldConfig g.table field).timeQuantum s.time) = true ↔
        g.Projects field s := by
  unfold Projects
  by_cases htq : (fieldConfig g.table field).timeQuantum = .none <;> simp [htq]

/-- The values of a projection are those of the shards it reads, within the found set. -/
theorem get?_projectBSI {g : GroupScope} {m : Node} {field : String}
    (hagree : ∀ s ∈ m.bsiCache, ∀ s' ∈ m.bsiCache, s.field = field → s.field = s'.field →
      s.bsi.Agree s'.bsi) :
    (g.projectBSI m field).get? r = some x ↔
      ∃ s ∈ m.bsiCache, g.Projects field s ∧ s.bsi.get? r = some x ∧ ∀ fs ∈ g.foundSet, r ∈ fs := by
  have hmem : ∀ b, b ∈ (m.bsiCache.filter fun s => s.field = field &&
        if (fieldConfig g.table field).timeQuantum = .none then decide (s.time = 0)
        else g.window.contains (fieldConfig g.table field).timeQuantum s.time).filterMap
          (g.projected field) ↔
      ∃ s ∈ m.bsiCache, g.Projects field s ∧ g.projected field s = some b := by
    intro b
    rw [mem_filterMap]
    refine exists_congr fun s => ?_
    rw [mem_filter, projects_iff, and_assoc]
  unfold projectBSI
  rw [get?_orAll]
  · simp only [hmem]
    constructor
    · rintro ⟨b, ⟨s, hs, hproj, hb⟩, hget⟩
      exact ⟨s, hs, hproj, get?_projected.mp ⟨b, hb, hget⟩⟩
    · rintro ⟨s, hs, hproj, hget⟩
      obtain ⟨b, hb, hget⟩ : ∃ b, g.projected field s = some b ∧ b.get? r = some x :=
        get?_projected.mpr hget
      exact ⟨b, ⟨s, hs, hproj, hb⟩, hget⟩
  · intro a ha b hb
    obtain ⟨s, hs, hproj, ha⟩ := (hmem a).mp ha
    obtain ⟨s', hs', hproj', hb⟩ := (hmem b).mp hb
    rw [agree_iff_get?]
    intro c v w hv hw
    have hshards := hagree s hs s' hs' hproj.1 (hproj.1.trans hproj'.1.symm)
    exact agree_iff_get?.mp hshards c v w (get?_projected.mp ⟨a, ha, hv⟩).1
      (get?_projected.mp ⟨b, hb, hw⟩).1

/-! ## Comparing two fields -/

section

variable (op : ℤ → ℤ → Bool) (invert : Bool)

/-- `compareBSIShardPair`, and the end of `CompareBSIFieldsWithStats`: the rows of the found set with
both values whose comparison holds, or fails if it is inverted. -/
def compareBSIPair (foundSet : Option Bitmap) (left right : Bsi) : Bitmap :=
  (narrow foundSet left.existence ∩ right.existence).filter fun row =>
    op (left.value row) (right.value row) != invert

/-- `CompareBSIFieldsWithStats`: fields of one quantum are compared shard by shard, each left shard
in the window with the right shard of its time; others are merged first. -/
def compareBSIFields (m : Node) (leftField rightField : String) : Bitmap :=
  let tq := (fieldConfig g.table leftField).timeQuantum
  if tq = (fieldConfig g.table rightField).timeQuantum then
    parOr ((m.bsiCache.filter fun s => s.field = leftField &&
      if tq = .none then decide (s.time = 0) else g.window.contains tq s.time).flatMap fun s =>
        (m.bsiCache.filter fun s' => s'.field = rightField && s'.time = s.time).map fun s' =>
          compareBSIPair op invert g.foundSet s.bsi s'.bsi)
  else
    compareBSIPair op invert g.foundSet (g.projectBSI m leftField) (g.projectBSI m rightField)

variable {op invert g}

theorem mem_compareBSIPair {foundSet : Option Bitmap} {left right : Bsi} :
    r ∈ compareBSIPair op invert foundSet left right ↔ (∀ fs ∈ foundSet, r ∈ fs) ∧
      ∃ v w, left.get? r = some v ∧ right.get? r = some w ∧ op v w ≠ invert := by
  cases foundSet <;> by_cases hl : r ∈ left.existence <;> by_cases hr : r ∈ right.existence <;>
    simp [compareBSIPair, narrow, get?, hl, hr]

/-- Fields whose values of a row are in shards of one time: the comparison has the rows of the found
set with a value in both merged fields that it holds for. -/
theorem mem_compareBSIFields {m : Node} {leftField rightField : String}
    (hkeys : ∀ s ∈ m.bsiCache, ∀ s' ∈ m.bsiCache, s.field = s'.field → s.time = s'.time → s = s')
    (hshard : ∀ s ∈ m.bsiCache, ∀ s' ∈ m.bsiCache, s.field ∈ [leftField, rightField] →
      s'.field ∈ [leftField, rightField] → ∀ row ∈ s.bsi.existence, row ∈ s'.bsi.existence →
        s.time = s'.time) :
    r ∈ compareBSIFields g op invert m leftField rightField ↔ (∀ fs ∈ g.foundSet, r ∈ fs) ∧
      ∃ v w, (g.projectBSI m leftField).get? r = some v ∧
        (g.projectBSI m rightField).get? r = some w ∧ op v w ≠ invert := by
  have hproject (field) (hfield : field ∈ [leftField, rightField]) {x} :
      (g.projectBSI m field).get? r = some x ↔ ∃ s ∈ m.bsiCache, g.Projects field s ∧
        s.bsi.get? r = some x ∧ ∀ fs ∈ g.foundSet, r ∈ fs := by
    refine get?_projectBSI fun s hs s' hs' h h' row hrow hrow' => ?_
    rw [hkeys s hs s' hs' h' (hshard s hs s' hs' (h ▸ hfield) (h' ▸ h ▸ hfield) row hrow hrow')]
  unfold compareBSIFields
  dsimp only
  split
  next htq =>
    simp only [mem_parOr, mem_flatMap, mem_map, mem_filter, projects_iff,
      hproject leftField (by simp), hproject rightField (by simp)]
    constructor
    · rintro ⟨_, ⟨s, ⟨hs, hleft⟩, s', ⟨hs', hpair⟩, rfl⟩, hrow⟩
      obtain ⟨hfound, v, w, hv, hw, hop⟩ := mem_compareBSIPair.mp hrow
      obtain ⟨hfield, htime⟩ : s'.field = rightField ∧ s'.time = s.time := by simpa using hpair
      have hright : g.Projects rightField s' := ⟨hfield, by rw [htime, ← htq]; exact hleft.2⟩
      exact ⟨hfound, v, w, ⟨s, hs, hleft, hv, hfound⟩, ⟨s', hs', hright, hw, hfound⟩, hop⟩
    · rintro ⟨hfound, v, w, ⟨s, hs, hleft, hv, -⟩, ⟨s', hs', hright, hw, -⟩, hop⟩
      have htime : s'.time = s.time := hshard s' hs' s hs (by simp [hright.1]) (by simp [hleft.1])
        r (mem_existence_iff.mpr ⟨w, hw⟩) (mem_existence_iff.mpr ⟨v, hv⟩)
      exact ⟨_, ⟨s, ⟨hs, hleft⟩, s', ⟨hs', by simp [hright.1, htime]⟩, rfl⟩,
        mem_compareBSIPair.mpr ⟨hfound, v, w, hv, hw, hop⟩⟩
  next => exact mem_compareBSIPair

/-- Two rows from the shards of two days have a smaller value in the left field. -/
theorem compared_fields :
    let table : Table := ⟨.ymd, some "ts", ["id"], fun _ => some ⟨.ymd, true⟩⟩
    let shard := fun field day row value =>
      (⟨field, day * 86400000000000, empty.setValue row value⟩ : BSIShard)
    let rows := compareBSIFields ⟨table, ⟨0, 86400000000000⟩, none⟩ (fun v w => decide (v < w)) false
      { bitmapCache := [], bsiCache := [shard "a" 0 1 5, shard "a" 1 2 3, shard "b" 0 1 7,
        shard "b" 1 2 4], member _ := true } "a" "b"
    1 ∈ rows ∧ 2 ∈ rows :=
  ⟨(mem_compareBSIFields (by simp) (by simp)).mpr ⟨nofun, 5, 7, by decide, by decide, by decide⟩,
    (mem_compareBSIFields (by simp) (by simp)).mpr ⟨nofun, 3, 4, by decide, by decide, by decide⟩⟩

end

/-! ## The rows that feed an aggregate -/

/-- What an aggregate keeps besides the count. -/
def AggregateSlot.parts : AggregateSlot → Parts
  | .count => {}
  | .measure .sum _ => { sum := true }
  | .measure .avg _ => { sum := true }
  | .measure .min _ => { min := true }
  | .measure .max _ => { max := true }

/-- The rows of a group that an aggregate is about: all of them, or those with a value. -/
def GroupScope.feeding (m : Node) (groupRows : Bitmap) : AggregateSlot → Bitmap
  | .count => groupRows
  | .measure _ field => groupRows ∩ (g.projectBSI m field).existence

/-- The values that an aggregate is about. -/
def GroupScope.measured (m : Node) : AggregateSlot → ℕ → ℤ
  | .count => fun _ => 0
  | .measure _ field => (g.projectBSI m field).value

/-- Each aggregate summarizes the rows that feed it. -/
theorem aggregateValue_eq_over (m : Node) (groupRows : Bitmap) (slot : AggregateSlot) :
    aggregateValue g m groupRows slot =
      ofFamily slot.parts (g.feeding m groupRows slot) (g.measured m slot) := by
  cases slot with
  | count =>
    by_cases hrows : groupRows.Nonempty
    · rw [feeding, ofFamily_of_nonempty hrows]
      rfl
    · rw [Finset.not_nonempty_iff_eq_empty.mp hrows]
      exact (ofFamily_empty _ _).symm
  | measure function field =>
    by_cases hrows : (groupRows ∩ (g.projectBSI m field).existence).Nonempty
    · rw [feeding, ofFamily_of_nonempty hrows]
      cases function <;> exact dif_pos hrows
    · rw [feeding, Finset.not_nonempty_iff_eq_empty.mp hrows, ofFamily_empty]
      exact dif_neg hrows

end QuantaStream.Server
