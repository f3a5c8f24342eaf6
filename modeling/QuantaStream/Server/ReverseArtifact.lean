import Mathlib.Order.Lattice.Nat
import QuantaStream.Lib.Bsi
import QuantaStream.Lib.GoMap
import QuantaStream.Shared.ClientQuery

/-!
# Reverse relationship artifacts

A relation field stores for each row the column of its parent.  Its reverse artifact answers the
opposite question, which rows have a given parent: it keeps a bitmap and a row list for each
parent value, a row count, and the same once more for each shard and for the shards the node
owns.  This module models the artifact and its upkeep after a change to one shard.  Names lose the
`relationshipReverseArtifact` of the source.
-/

namespace QuantaStream.Server

open Shared List Option

/-! ## Artifact data -/

structure ArtifactData where
  byValue : GoMap ℤ Bitmap
  rowsByValue : GoMap ℤ (List ℕ)
  rows : ℕ

def ArtifactData.new : ArtifactData := ⟨∅, ∅, 0⟩

/-- The columns of a bitmap, in the order its iterator visits them. -/
def ascending (s : Bitmap) : List ℕ := (List.range (s.sup id + 1)).filter (· ∈ s)

theorem mem_ascending {s : Bitmap} {row : ℕ} : row ∈ ascending s ↔ row ∈ s := by
  rw [ascending, mem_filter, mem_range, decide_eq_true_eq, and_iff_right_iff_imp]
  intro h
  have hle : row ≤ s.sup id := Finset.le_sup (f := id) h
  omega

namespace ArtifactData

variable (d : ArtifactData)

/-- `relationshipReverseArtifactAppendRow`, and the other steps of the loop over added rows. -/
def addRow (value : ℤ) (row : ℕ) : ArtifactData :=
  let bitmap := (d.byValue.lookup value).getD ∅
  if row ∈ bitmap then d
  else
    { byValue := d.byValue.insert value (insert row bitmap)
      rowsByValue := d.rowsByValue.insert value
        ((d.rowsByValue.lookup value).getD [] ++ [row])
      rows := d.rows + 1 }

def addRows (addedBSI : Bsi) : ArtifactData :=
  (ascending addedBSI.existence).foldl (fun d row =>
    match addedBSI.get? row with
    | none => d
    | some value => d.addRow value row) d

/-- `relationshipReverseArtifactRemoveRow`: drop the first occurrence of the row. -/
def removeFromRows (rowsByValue : GoMap ℤ (List ℕ)) (value : ℤ) (row : ℕ) : GoMap ℤ (List ℕ) :=
  let rows := (rowsByValue.lookup value).getD []
  if row ∈ rows then
    if rows.erase row = [] then rowsByValue.erase value
    else rowsByValue.insert value (rows.erase row)
  else rowsByValue

/-- One step of the loop over removed rows. -/
def removeRow (value : ℤ) (row : ℕ) : ArtifactData :=
  match d.byValue.lookup value with
  | none => d
  | some bitmap =>
    if row ∉ bitmap then d
    else
      { byValue := if bitmap.erase row = ∅ then d.byValue.erase value
          else d.byValue.insert value (bitmap.erase row)
        rowsByValue := removeFromRows d.rowsByValue value row
        rows := d.rows - 1 }

def removeRows (oldBSI : Bsi) (removedRows : Bitmap) : ArtifactData :=
  (ascending removedRows).foldl (fun d row =>
    match oldBSI.get? row with
    | none => d
    | some value => d.removeRow value row) d

/-- `relationshipReverseArtifactRowsForValue`, without keeping the list it has to build. -/
def rowsForValue (value : ℤ) : List ℕ :=
  match d.rowsByValue.lookup value with
  | some rows => rows
  | none => ascending ((d.byValue.lookup value).getD ∅)

/-- The body of the loop in `relationshipReverseArtifactMergeInto`. -/
def mergeValue (target source : ArtifactData) (value : ℤ) (bitmap : Bitmap) : ArtifactData :=
  if bitmap = ∅ then target
  else
    match target.byValue.lookup value with
    | none =>
      { byValue := target.byValue.insert value bitmap
        rowsByValue := target.rowsByValue.insert value (source.rowsForValue value)
        rows := target.rows + bitmap.card }
    | some targetBitmap =>
      let merged := targetBitmap ∪ bitmap
      { byValue := target.byValue.insert value merged
        rowsByValue :=
          if targetBitmap.card < merged.card ∨ (target.rowsByValue.lookup value).isNone then
            target.rowsByValue.insert value (ascending merged)
          else target.rowsByValue
        rows := target.rows + (merged.card - targetBitmap.card) }

def mergeInto (target source : ArtifactData) (order : RangeOrder) : ArtifactData :=
  (source.byValue.range order).foldl (fun t e => t.mergeValue source e.1 e.2) target

end ArtifactData

/-! ## Artifacts -/

structure ReverseArtifact where
  data : ArtifactData
  byShard : GoMap ℤ ArtifactData
  owned : Option ArtifactData
  ownedShardKey : String

def ReverseArtifact.new : ReverseArtifact := ⟨.new, ∅, none, ""⟩

/-- The part of the cluster state the artifacts of a field read: whether the node filters shards
by ownership, and the shards of the field it is the first replica of. -/
structure Ownership where
  filterEnabled : Bool
  ownsShard : ℤ → Bool

namespace ReverseArtifact

variable (own : Ownership)

def readableShardKey (a : ReverseArtifact) : String :=
  ",".intercalate
    (((a.byShard.keys.filter own.ownsShard).insertionSort (· ≤ ·)).map toString)

variable (order : RangeOrder)

def buildOwned (a : ReverseArtifact) : ReverseArtifact :=
  if !own.filterEnabled || a.byShard.keys.isEmpty then a
  else
    let owned := (a.byShard.range order).foldl (fun target shard =>
      if own.ownsShard shard.1 then target.mergeInto shard.2 order else target) .new
    { a with
      ownedShardKey := a.readableShardKey own
      owned := if owned.rows = 0 then none else some owned }

/-- The owned data is discarded or rebuilt when it is not that of the readable shards. -/
def refreshOwned (a : ReverseArtifact) : ReverseArtifact :=
  if own.filterEnabled then
    if a.readableShardKey own = "" then { a with owned := none, ownedShardKey := "" }
    else if a.owned.isNone || a.ownedShardKey ≠ a.readableShardKey own then
      a.buildOwned own order
    else a
  else a

variable (shardTime : ℤ)

/-- The removal step of an update: a shard that loses its last row is dropped. -/
def removeFragment (oldBSI : Bsi) (removedRows : Bitmap) (a : ReverseArtifact) : ReverseArtifact :=
  { a with
    data := a.data.removeRows oldBSI removedRows
    byShard :=
      match a.byShard.lookup shardTime with
      | none => a.byShard
      | some shard =>
        let shard := shard.removeRows oldBSI removedRows
        if shard.rows = 0 then a.byShard.erase shardTime else a.byShard.insert shardTime shard
    owned :=
      if own.filterEnabled && own.ownsShard shardTime then
        a.owned.map (fun owned => owned.removeRows oldBSI removedRows)
      else a.owned }

/-- The addition step of an update: the shard is created if it is missing. -/
def addFragment (addedBSI : Bsi) (a : ReverseArtifact) : ReverseArtifact :=
  { a with
    data := a.data.addRows addedBSI
    byShard := a.byShard.insert shardTime
      (((a.byShard.lookup shardTime).getD .new).addRows addedBSI)
    owned :=
      if own.filterEnabled && own.ownsShard shardTime then
        some ((a.owned.getD .new).addRows addedBSI)
      else a.owned }

/-- The last step of an update: note the readable shards and drop owned data without rows. -/
def settleOwned (a : ReverseArtifact) : ReverseArtifact :=
  if own.filterEnabled then
    { a with
      ownedShardKey := a.readableShardKey own
      owned := a.owned.filter (fun owned => owned.rows ≠ 0) }
  else a

/-- `updateRelationshipReverseArtifactForBSIFragment`, for a field whose artifact is enabled. -/
def updateForBSIFragment (removed : Option (Bsi × Bitmap)) (addedBSI : Option Bsi)
    (a : ReverseArtifact) : ReverseArtifact :=
  let a := a.refreshOwned own order
  let a := match removed with
    | none => a
    | some (oldBSI, removedRows) => a.removeFragment own shardTime oldBSI removedRows
  let a := match addedBSI with
    | none => a
    | some addedBSI => a.addFragment own shardTime addedBSI
  a.settleOwned own

section

variable (own : Ownership) (order : RangeOrder) (a : ReverseArtifact)

@[simp]
theorem refreshOwned_parts : (a.refreshOwned own order).data = a.data ∧
    (a.refreshOwned own order).byShard = a.byShard := by
  unfold refreshOwned buildOwned
  split_ifs <;> exact ⟨rfl, rfl⟩

@[simp]
theorem buildOwned_parts : (a.buildOwned own order).data = a.data ∧
    (a.buildOwned own order).byShard = a.byShard := by
  unfold buildOwned
  split_ifs <;> exact ⟨rfl, rfl⟩

end

@[simp]
theorem settleOwned_parts (a : ReverseArtifact) : (a.settleOwned own).data = a.data ∧
    (a.settleOwned own).byShard = a.byShard := by
  unfold settleOwned
  split_ifs <;> exact ⟨rfl, rfl⟩

end ReverseArtifact

/-! ## The pairs an artifact stands for -/

variable (S : Finset (ℤ × ℕ))

/-- The rows of one value in a set of value-row pairs. -/
def valueRows (value : ℤ) : Bitmap :=
  (S.filter (fun p => p.1 = value)).image Prod.snd

@[simp]
theorem mem_valueRows {S : Finset (ℤ × ℕ)} {value : ℤ} {row : ℕ} :
    row ∈ valueRows S value ↔ (value, row) ∈ S := by
  simp [valueRows]

theorem valueRows_insert (value : ℤ) (row : ℕ) (x : ℤ) :
    valueRows (insert (value, row) S) x =
      if x = value then insert row (valueRows S value) else valueRows S x := by
  ext r
  split_ifs with hx <;> simp [hx]

theorem valueRows_erase (value : ℤ) (row : ℕ) (x : ℤ) :
    valueRows (S.erase (value, row)) x =
      if x = value then (valueRows S value).erase row else valueRows S x := by
  ext r
  split_ifs with hx <;> simp [hx]

/-- The entry of a map that has no empty entries. -/
def entry (s : Bitmap) : Option Bitmap := if s = ∅ then none else some s

theorem entry_getD (s : Bitmap) : (entry s).getD ∅ = s := by
  unfold entry
  split_ifs with h
  · exact h.symm
  · rfl

theorem entry_insert (s : Bitmap) (row : ℕ) : entry (insert row s) = some (insert row s) :=
  if_neg (Finset.insert_ne_empty row s)

/-- The data of a set of pairs: for each value with rows its bitmap and a list of these rows
without repetitions, and the number of pairs. -/
structure Represents (d : ArtifactData) (S : Finset (ℤ × ℕ)) : Prop where
  byValue : ∀ value, d.byValue.lookup value = entry (valueRows S value)
  rowsByValue : ∀ value, (d.rowsByValue.lookup value).map Multiset.ofList =
    (entry (valueRows S value)).map Finset.val
  rows : d.rows = S.card

namespace Represents

variable {d : ArtifactData} {S T : Finset (ℤ × ℕ)}

/-- A new artifact has no rows. -/
theorem new : Represents .new ∅ where
  byValue _ := rfl
  rowsByValue _ := rfl
  rows := rfl

/-- The rows of a value, each once. -/
theorem coe_rows (h : Represents d S) (value : ℤ) :
    (((d.rowsByValue.lookup value).getD [] : List ℕ) : Multiset ℕ) = (valueRows S value).val := by
  have hlist := h.rowsByValue value
  by_cases hempty : valueRows S value = ∅
  · rw [entry, if_pos hempty, map_none, map_eq_none_iff] at hlist
    simp [hlist, hempty]
  · rw [entry, if_neg hempty, map_some, map_eq_some_iff] at hlist
    rcases hlist with ⟨rows, hrows, hval⟩
    simp [hrows, hval]

theorem mem_rows (h : Represents d S) {value : ℤ} {row : ℕ} :
    row ∈ (d.rowsByValue.lookup value).getD [] ↔ (value, row) ∈ S := by
  rw [← Multiset.mem_coe, h.coe_rows, Finset.mem_val, mem_valueRows]

/-- Adding a row to a value. -/
theorem addRow (h : Represents d S) (value : ℤ) (row : ℕ) :
    Represents (d.addRow value row) (insert (value, row) S) := by
  unfold ArtifactData.addRow
  rw [h.byValue, entry_getD]
  by_cases hmem : (value, row) ∈ S
  · rw [if_pos (mem_valueRows.mpr hmem), Finset.insert_eq_of_mem hmem]
    exact h
  have hrow : row ∉ valueRows S value := fun hr => hmem (mem_valueRows.mp hr)
  rw [if_neg hrow]
  refine ⟨fun x => ?_, fun x => ?_, ?_⟩
  · rw [GoMap.lookup_insert, valueRows_insert]
    split_ifs with hx
    · rw [entry_insert]
    · exact h.byValue x
  · rw [GoMap.lookup_insert, valueRows_insert]
    split_ifs with hx
    · rw [entry_insert, map_some, map_some, Finset.insert_val_of_notMem hrow,
        ← h.coe_rows value, ← Multiset.coe_add, Multiset.add_comm]
      rfl
    · exact h.rowsByValue x
  · rw [h.rows, Finset.card_insert_of_notMem hmem]

/-- Removing a row from a value. -/
theorem removeRow (h : Represents d S) (value : ℤ) (row : ℕ) :
    Represents (d.removeRow value row) (S.erase (value, row)) := by
  by_cases hmem : (value, row) ∈ S
  · have hrow : row ∈ valueRows S value := mem_valueRows.mpr hmem
    have hbyValue : d.byValue.lookup value = some (valueRows S value) := by
      rw [h.byValue, entry, if_neg (Finset.ne_empty_of_mem hrow)]
    have hcoe : ((((d.rowsByValue.lookup value).getD []).erase row : List ℕ) : Multiset ℕ) =
        ((valueRows S value).erase row).val := by
      rw [← Multiset.coe_erase, h.coe_rows, Finset.erase_val]
    have hnil : ((d.rowsByValue.lookup value).getD []).erase row = [] ↔
        (valueRows S value).erase row = ∅ := by
      rw [← Multiset.coe_eq_zero, hcoe, Finset.val_eq_zero]
    unfold ArtifactData.removeRow
    rw [hbyValue]
    simp only [hrow, not_true_eq_false, if_false]
    refine ⟨fun x => ?_, fun x => ?_, ?_⟩
    · rw [valueRows_erase]
      by_cases hx : x = value
      · subst hx
        by_cases hempty : (valueRows S x).erase row = ∅ <;> simp [hempty, entry]
      · rw [if_neg hx, ← h.byValue x]
        split_ifs <;> simp [hx]
    · unfold ArtifactData.removeFromRows
      simp only [h.mem_rows, hmem, if_true, hnil]
      rw [valueRows_erase]
      by_cases hx : x = value
      · subst hx
        by_cases hempty : (valueRows S x).erase row = ∅
        · simp [hempty, entry]
        · rw [if_neg hempty, GoMap.lookup_insert, if_pos rfl, if_pos rfl, entry, if_neg hempty,
            map_some, map_some, hcoe]
      · rw [if_neg hx, ← h.rowsByValue x]
        split_ifs <;> simp [hx]
    · rw [h.rows, Finset.card_erase_of_mem hmem]
  · have hrow : row ∉ valueRows S value := fun hr => hmem (mem_valueRows.mp hr)
    rw [Finset.erase_eq_of_notMem hmem]
    unfold ArtifactData.removeRow
    rw [h.byValue, entry]
    split_ifs with hempty
    · exact h
    · simp only [hrow, not_false_eq_true, if_true]
      exact h

/-- A loop over rows of an index that adds or removes their pairs one by one. -/
theorem foldl_rows {change : ArtifactData → ℤ → ℕ → ArtifactData} {b : Prop}
    (hchange : ∀ {d S}, Represents d S → ∀ value row, ∃ S', Represents (change d value row) S' ∧
      ∀ q, q ∈ S' ↔ if q = (value, row) then b else q ∈ S)
    (h : Represents d S) (index : Bsi) (rows : List ℕ) (hT : ∀ value row, (value, row) ∈ T ↔
      if row ∈ rows ∧ index.get? row = some value then b else (value, row) ∈ S) :
    Represents (rows.foldl (fun d row =>
      match index.get? row with
      | none => d
      | some value => change d value row) d) T := by
  induction rows generalizing d S with
  | nil =>
    have hTS : T = S := by
      ext ⟨value, row⟩
      simpa using hT value row
    exact hTS ▸ h
  | cons r rows ih =>
    rw [foldl_cons]
    cases hget : index.get? r with
    | none =>
      refine ih h fun value row => (hT value row).trans ?_
      grind
    | some v =>
      obtain ⟨S', hS', hmem⟩ := hchange h v r
      refine ih hS' fun value row => (hT value row).trans ?_
      rw [hmem]
      grind

/-- Adding the rows of a change. -/
theorem addRows (h : Represents d S) (addedBSI : Bsi) (hT : ∀ value row, (value, row) ∈ T ↔
      (value, row) ∈ S ∨ addedBSI.get? row = some value) : Represents (d.addRows addedBSI) T := by
  refine foldl_rows (b := True) (fun h value row => ⟨_, h.addRow value row, fun q => ?_⟩) h
    addedBSI _ fun value row => ?_
  · simp [or_iff_not_imp_left]
  · have hrow : addedBSI.get? row = some value → row ∈ ascending addedBSI.existence :=
      fun hget => mem_ascending.mpr (Bsi.mem_existence_iff.mpr ⟨value, hget⟩)
    rw [hT]
    grind

/-- Removing the old values of the removed rows. -/
theorem removeRows (h : Represents d S) (oldBSI : Bsi) (removedRows : Bitmap)
    (hT : ∀ value row, (value, row) ∈ T ↔
      (value, row) ∈ S ∧ ¬ (row ∈ removedRows ∧ oldBSI.get? row = some value)) :
    Represents (d.removeRows oldBSI removedRows) T := by
  refine foldl_rows (b := False) (fun h value row => ⟨_, h.removeRow value row, fun q => ?_⟩) h
    oldBSI _ fun value row => ?_
  · simp
  · simp only [hT, mem_ascending]
    grind

end Represents

end QuantaStream.Server
