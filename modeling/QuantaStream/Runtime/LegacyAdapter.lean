import Mathlib.Data.Nat.Digits.Lemmas
import QuantaStream.Bridge.Lowering
import QuantaStream.Query.BooleanReading

/-!
# The adapter to bitmap queries

This module models the conversion in `qsruntime/quanta_legacy_adapter.go`: the fragments of a
lowered request become the fragments of a bitmap query, numbered in order, with their operands in
the form they have on the wire.

Main result:

- `toBitmapQuery_eq_addFragment`: the query is built by adding the fragments one by one.
-/

namespace QuantaStream.Runtime

open Shared Server Bridge Query List FragmentTree

/-! ## Operands on the wire -/

/-- `big.Int.Bytes`. -/
def natToBytes (n : ℕ) : List UInt8 := (Nat.digits 256 n).reverse.map Nat.toUInt8

def bigIntToWireBytes : Option ℤ → List UInt8
  | none => []
  | some (.ofNat n) => natToBytes n
  | some (.negSucc n) => 0 :: 1 :: natToBytes (n + 1)

theorem natOfBytes_append (xs : List UInt8) (b : UInt8) :
    natOfBytes (xs ++ [b]) = natOfBytes xs * 256 + b.toNat := by
  simp [natOfBytes]

theorem natOfBytes_reverse (digits : List ℕ) (h : ∀ d ∈ digits, d < 256) :
    natOfBytes (digits.reverse.map Nat.toUInt8) = Nat.ofDigits 256 digits := by
  induction digits with
  | nil => rfl
  | cons d digits ih =>
    have hd : d.toUInt8.toNat = d := by
      simpa using Nat.mod_eq_of_lt (h d mem_cons_self)
    rw [reverse_cons, map_append, map_singleton, natOfBytes_append, hd,
      ih (fun e he => h e (mem_cons_of_mem _ he)), Nat.ofDigits_cons]
    omega

theorem natOfBytes_natToBytes (n : ℕ) : natOfBytes (natToBytes n) = n := by
  rw [natToBytes, natOfBytes_reverse _ (fun d hd => Nat.digits_lt_base (by decide) hd),
    Nat.ofDigits_digits]

/-- The bytes of a number do not start with a zero. -/
theorem natToBytes_head (n : ℕ) (rest : List UInt8) : natToBytes n ≠ 0 :: rest := by
  intro h
  have hne : Nat.digits 256 n ≠ [] := by
    intro hnil
    simp [natToBytes, hnil] at h
  have hlast : ((Nat.digits 256 n).getLast hne).toUInt8 = 0 := by
    have hrev : (Nat.digits 256 n).reverse =
        (Nat.digits 256 n).getLast hne :: (Nat.digits 256 n).dropLast.reverse := by
      conv_lhs => rw [← dropLast_append_getLast hne]
      simp
    rw [natToBytes, hrev, map_cons, cons.injEq] at h
    exact h.1
  have hlt : (Nat.digits 256 n).getLast hne < 256 :=
    Nat.digits_lt_base (by decide) (getLast_mem hne)
  have hzero : (Nat.digits 256 n).getLast hne = 0 := by
    have hmod := congrArg UInt8.toNat hlast
    simpa [Nat.mod_eq_of_lt hlt] using hmod
  have hn : n ≠ 0 := by
    rintro rfl
    simp at hne
  exact Nat.getLast_digit_ne_zero 256 hn hzero

/-- Operands survive the wire. -/
theorem bigIntFromWireBytes_toWireBytes (v : ℤ) :
    bigIntFromWireBytes (bigIntToWireBytes (some v)) = v := by
  cases v with
  | ofNat n =>
    rw [bigIntToWireBytes]
    unfold bigIntFromWireBytes
    split
    · rename_i magnitude h
      exact absurd h (natToBytes_head n _)
    · rw [natOfBytes_natToBytes]
      rfl
  | negSucc n =>
    rw [bigIntToWireBytes, bigIntFromWireBytes, natOfBytes_natToBytes]
    rfl

/-! ## Fragments and queries -/

variable (f : QuantaQueryFragment)

/-- `toQueryFragment`: a single value without a comparison is the row of a standard bitmap. -/
def toQueryFragment : QueryFragment :=
  let row : Option ℤ :=
    if f.bsiOp = .na ∧ f.value = none ∧ f.beginValue = none ∧ f.endValue = none then
      match f.values with
      | [v] => some v
      | _ => none
    else none
  { index := f.index
    field := f.field
    rowID := (row.map (fun v => v.natAbs % 2 ^ 64)).getD 0
    operation := f.operation
    bsiOp := f.bsiOp
    value := bigIntToWireBytes f.value
    beginValue := bigIntToWireBytes f.beginValue
    endValue := bigIntToWireBytes f.endValue
    values := if row.isSome then [] else f.values.map (fun v => bigIntToWireBytes (some v))
    nullCheck := f.nullCheck
    negate := f.negate }

/-- The stored values a comparison with a bit-sliced index selects; a missing operand is zero. -/
def selectsValue (x : ℤ) : Prop :=
  match f.bsiOp with
  | .na => False
  | .lt => x < f.value.getD 0
  | .le => x ≤ f.value.getD 0
  | .eq => x = f.value.getD 0
  | .ge => f.value.getD 0 ≤ x
  | .gt => f.value.getD 0 < x
  | .range => f.beginValue.getD 0 ≤ x ∧ x ≤ f.endValue.getD 0
  | .batchEq => x ∈ f.values

theorem bigIntFromWireBytes_operand (v : Option ℤ) :
    bigIntFromWireBytes (bigIntToWireBytes v) = v.getD 0 := by
  cases v with
  | none => rfl
  | some v => exact bigIntFromWireBytes_toWireBytes v

/-- The nodes compare with the operands of the fragment. -/
theorem bsiSelects_toQueryFragment (x : ℤ) :
    bsiSelects (toQueryFragment f) x = true ↔ selectsValue f x := by
  have hwire : bigIntFromWireBytes ∘ (fun v : ℤ => bigIntToWireBytes (some v)) = id :=
    funext bigIntFromWireBytes_toWireBytes
  unfold bsiSelects selectsValue
  cases h : f.bsiOp <;> simp [toQueryFragment, bigIntFromWireBytes_operand, h, hwire]

/-- `QuantaSeed` with the kind `QuantaSeedTableExistence`. -/
structure QuantaSeed where
  index : String
  role : String := ""
  field : String
  beginValue : Option ℤ := none
  endValue : Option ℤ := none
  shardWindow : Bool := false
  deriving DecidableEq

def seedFragment (seed : QuantaSeed) : QuantaQueryFragment where
  index := seed.index
  role := seed.role
  field := seed.field
  operation := .union
  nullCheck := true
  negate := true
  beginValue := seed.beginValue
  endValue := seed.endValue
  shardWindow := seed.shardWindow

/-- The fragments after the first, numbered from one. -/
def numbered (fs : List QuantaQueryFragment) : List (ℕ × QueryFragment) :=
  (fs.map toQueryFragment).mapIdx (fun i f => (i + 1, f))

variable (fs : List QuantaQueryFragment)

theorem map_fst_numbered : (numbered fs).map Prod.fst = (range fs.length).map (· + 1) := by
  refine ext_getElem (by simp [numbered]) (fun i _ _ => ?_)
  simp [numbered]

theorem map_snd_numbered : (numbered fs).map Prod.snd = fs.map toQueryFragment := by
  refine ext_getElem (by simp [numbered]) (fun i _ _ => ?_)
  simp [numbered]

theorem nodup_numbered : ((numbered fs).map Prod.fst ++ [0]).Nodup := by
  rw [map_fst_numbered, nodup_append]
  refine ⟨nodup_range.map (fun a b h => by simpa using h), by simp, ?_⟩
  simp

/-- `ToBitmapQuery` on the fragments of one table. -/
def toBitmapQuery (f : QuantaQueryFragment) (fs : List QuantaQueryFragment) : BitmapQuery ℕ where
  root := .node 0 (toQueryFragment f) ((numbered fs).map leaf)
  ids_nodup := by
    have hids : ids (.node 0 (toQueryFragment f) ((numbered fs).map leaf)) =
        (numbered fs).map Prod.fst ++ [0] := by
      rw [ids, occurrences, ListQuery.occurrencesChildren_leaf]
      simp [Function.comp_def, Occurrence.under]
    rw [hids]
    exact nodup_numbered fs

/-- The query is the one that the adapter builds by adding the fragments one by one. -/
theorem toBitmapQuery_eq_addFragment (f : QuantaQueryFragment) (fs : List QuantaQueryFragment)
    (hindex : f.index ≠ "") :
    ((0, toQueryFragment f) :: numbered fs).foldl addFragment none =
      some (toBitmapQuery f fs).root := by
  rw [foldl_cons, addFragment, foldl_addFragment _ _ hindex]
  rfl

/-! ## The table of a statement -/

/-- The table a statement reads, with the field that stands for the existence of its rows. -/
structure TableSource where
  table : Table
  index : String
  seedField : String
  index_ne : index ≠ ""
  seedField_ne : seedField ≠ ""
  seedField_configured : (table.getAttribute seedField).isSome
  primaryKey_ne : table.timeQuantumField.toList ++ table.primaryKey ≠ []
  primaryKey_configured : ∀ n ∈ table.timeQuantumField.toList ++ table.primaryKey,
    (table.getAttribute n).isSome

namespace TableSource

variable (s : TableSource)

/-- The fragment is a set operation on a configured field of the table. -/
structure Valid (f : QuantaQueryFragment) : Prop where
  operation : f.operation = .union ∨ f.operation = .intersect ∨ f.operation = .difference
  index_eq : f.index = s.index
  field_ne : f.field ≠ ""
  configured : (s.table.getAttribute f.field).isSome

def seed : QuantaQueryFragment := seedFragment { index := s.index, field := s.seedField }

theorem seed_valid : s.Valid s.seed :=
  ⟨.inl rfl, rfl, s.seedField_ne, s.seedField_configured⟩

end TableSource

/-! ## The query of a list of fragments -/

section

variable {s : TableSource} {f : QuantaQueryFragment} {fs : List QuantaQueryFragment}

/-- The query of a list of valid fragments. -/
def configuredQuery (hvalid : ∀ g ∈ f :: fs, s.Valid g) : ConfiguredQuery s.table ℕ :=
  have hnumbered : ∀ g ∈ numbered fs, ∃ h ∈ fs, toQueryFragment h = g.2 := by
    intro g hg
    have hsnd := mem_map_of_mem (f := Prod.snd) hg
    rw [map_snd_numbered] at hsnd
    exact mem_map.mp hsnd
  have hmem : ∀ g ∈ (0, toQueryFragment f) :: numbered fs,
      ∃ h ∈ f :: fs, toQueryFragment h = g.2 := by
    intro g hg
    rcases mem_cons.mp hg with rfl | hg
    · exact ⟨f, mem_cons_self, rfl⟩
    · rcases hnumbered g hg with ⟨h, hh, heq⟩
      exact ⟨h, mem_cons_of_mem _ hh, heq⟩
  { first := (0, toQueryFragment f)
    rest := numbered fs
    index_ne := by
      have hindex : (toQueryFragment f).index = s.index := (hvalid f mem_cons_self).index_eq
      rw [hindex]
      exact s.index_ne
    index_eq g hg := by
      rcases hnumbered g hg with ⟨h, hh, heq⟩
      rw [← heq]
      exact (hvalid h (mem_cons_of_mem _ hh)).index_eq.trans
        (hvalid f mem_cons_self).index_eq.symm
    ids_nodup := nodup_numbered fs
    set_operation g hg := by
      rcases hmem g hg with ⟨h, hh, heq⟩
      rw [← heq]
      exact (hvalid h hh).operation
    unsampled g hg := by
      rcases hmem g hg with ⟨h, _, heq⟩
      rw [← heq]
      rfl
    field_ne g hg := by
      rcases hmem g hg with ⟨h, hh, heq⟩
      rw [← heq]
      exact (hvalid h hh).field_ne
    configured g hg := by
      rcases hmem g hg with ⟨h, hh, heq⟩
      rw [← heq]
      exact (hvalid h hh).configured
    primaryKey_ne := s.primaryKey_ne
    primaryKey_configured := s.primaryKey_configured }

variable (hvalid : ∀ g ∈ f :: fs, s.Valid g)

theorem fragments_configuredQuery :
    (configuredQuery hvalid).fragments = (f :: fs).map toQueryFragment := by
  rw [ListQuery.fragments, configuredQuery, map_cons, map_snd_numbered]
  rfl

theorem exists_fragments_iff (P : QueryFragment → Prop) :
    (∃ g ∈ (configuredQuery hvalid).fragments, P g) ↔
      ∃ g ∈ f :: fs, P (toQueryFragment g) := by
  rw [fragments_configuredQuery]
  simp

theorem forall_fragments_iff (P : QueryFragment → Prop) :
    (∀ g ∈ (configuredQuery hvalid).fragments, P g) ↔
      ∀ g ∈ f :: fs, P (toQueryFragment g) := by
  rw [fragments_configuredQuery]
  simp

theorem toBitmapQuery_configuredQuery :
    (configuredQuery hvalid).toBitmapQuery = toBitmapQuery f fs := rfl

end

end QuantaStream.Runtime
