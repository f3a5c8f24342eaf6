import QuantaStream.Lib.JsonText

/-!
# Integers of a bit-sliced field

The integer mapper turns a value of a record into the number that is stored for the current column.
With a session it hands the number to the batch buffer, and the outcome of that takes the place of an
error of the mapper itself.
-/

namespace QuantaStream.Core

open GoString Json Option

/-- The values the mapper tells apart; `other` has the name of a type it does not handle. -/
inductive MapperValue where
  | int64 (n : Int64)
  | int32 (n : Int32)
  | uint32 (n : UInt32)
  | uint64 (n : UInt64)
  | int (n : Int64)
  | uint (n : UInt64)
  | string (text : GoString)
  | other (type : String)

inductive MapperError where
  | parse (text : GoString)
  | message (text : String)
  deriving DecidableEq

/-- The calls of the batch buffer for the current column of the field. -/
inductive BufferCall where
  | setValue (n : ℤ)
  | clearValue
  deriving DecidableEq

/-- The part of `Session` the mapper reads: the table, and whether it has a buffer. -/
structure MapperSession where
  table : String
  opened : Bool

/-- What the mapper returns, and the calls it makes. -/
structure Mapped where
  result : Option ℤ
  err : Option MapperError
  calls : List BufferCall
  deriving DecidableEq

/-- The integer of a decimal text, of any size. -/
def decimalInteger : GoString → Option ℤ
  | 45 :: digits => (parseDigits digits).map fun n => -(n : ℤ)
  | 43 :: digits => (parseDigits digits).map Nat.cast
  | digits => (parseDigits digits).map Nat.cast

/-- `ParseInt` with base 10 and 64 bits. -/
def parseSigned (text : GoString) : Option ℤ :=
  (decimalInteger text).filter fun n => -2 ^ 63 ≤ n ∧ n < 2 ^ 63

variable (answer : BufferCall → Option MapperError)

/-- `MutateBitmap` of a bit-sliced field, without the update flag.  The inner `none` is a nil pointer,
for which nothing is done. -/
def mutateBitmap (c : MapperSession) (val : Option (Option ℤ)) :
    Option MapperError × List BufferCall :=
  if !c.opened then (some (.message s!"table {c.table} invalid or not opened"), [])
  else match val with
    | some (some n) => (answer (.setValue n), [.setValue n])
    | some none => (none, [])
    | none => (answer .clearValue, [.clearValue])

/-- The end of `MapValue`: with a session its error is overwritten. -/
def finishMapping (c : Option MapperSession) (result : Option ℤ) (err : Option MapperError) :
    Mapped :=
  match c with
  | none => ⟨result, err, []⟩
  | some c =>
    let r := mutateBitmap answer c (some result)
    ⟨result, r.1, r.2⟩

/-- `IntBSIMapper.MapValue`. -/
def mapInteger (c : Option MapperSession) : Option MapperValue → Mapped
  | some (.int64 n) | some (.int n) => finishMapping answer c (some n.toInt) none
  | some (.int32 n) => finishMapping answer c (some n.toInt) none
  | some (.uint32 n) => finishMapping answer c (some n.toNat) none
  | some (.uint64 n) | some (.uint n) => finishMapping answer c (some n.toInt64.toInt) none
  | some (.string text) =>
    let str := if trimSpace text = [] then ascii "0" else trimSpace text
    match parseSigned str with
    | none => ⟨some 0, some (.parse str), []⟩
    | some n => finishMapping answer c (some n) none
  | some (.other type) =>
    finishMapping answer c none (some (.message s!"IntBSI: No handling for type '{type}'"))
  | none =>
    match c with
    | none => ⟨none, none, []⟩
    | some c =>
      let r := mutateBitmap answer c none
      ⟨none, r.1, r.2⟩

/-! ## What is stored -/

/-- The integer a value stands for; a blank text stands for zero. -/
def MapperValue.integer : MapperValue → Option ℤ
  | .int64 n | .int n => some n.toInt
  | .int32 n => some n.toInt
  | .uint32 n => some n.toNat
  | .uint64 n | .uint n => some n.toNat
  | .string text => decimalInteger (if trimSpace text = [] then ascii "0" else trimSpace text)
  | .other _ => none

/-- No unsigned value above the largest signed one. -/
def MapperValue.fits : MapperValue → Prop
  | .uint64 n | .uint n => n.toNat < 2 ^ 63
  | _ => True

def MapperValue.handled : MapperValue → Prop
  | .other _ => False
  | _ => True

/-- The call stores the integer or fails, and no other number is stored. -/
@[mk_iff]
structure Mapped.Exact (m : Mapped) (c : Option MapperSession) (integer : Option ℤ) : Prop where
  stored : m.err = none →
    ∃ n ∈ integer, m.result = some n ∧ (c.isSome → .setValue n ∈ m.calls)
  only : ∀ n, .setValue n ∈ m.calls → n ∈ integer

variable {answer} {c : Option MapperSession} {result integer : Option ℤ} {err : Option MapperError}

/-- A number is handed to the buffer as it is, and an error comes through without a session only. -/
theorem exact_finishMapping_iff : (finishMapping answer c result err).Exact c integer ↔
    (∃ s ∈ c, s.opened = false) ∨ (∃ n ∈ integer, result = some n) ∨ (c = none ∧ err.isSome) := by
  cases c with
  | none => cases err <;> simp [Mapped.exact_iff, finishMapping]
  | some s =>
    cases hopened : s.opened with
    | false => simp [Mapped.exact_iff, finishMapping, mutateBitmap, hopened]
    | true =>
      cases result with
      | none => simp [Mapped.exact_iff, finishMapping, mutateBitmap, hopened]
      | some n =>
        simpa [Mapped.exact_iff, finishMapping, mutateBitmap, hopened] using fun h _ => h

theorem toInt_toInt64_eq_iff {n : UInt64} : n.toInt64.toInt = n.toNat ↔ n.toNat < 2 ^ 63 := by
  rw [Int64.toInt, UInt64.toBitVec_toInt64, BitVec.toInt_eq_toNat_bmod, UInt64.toNat_toBitVec,
    Int.bmod_def]
  split <;> omega

open MapperValue

/-- The mapper stores the integer of a value or fails, exactly for a value that fits and is handled
where there is a session, or where the table is not open. -/
theorem integer_stored_or_error_iff (answer : BufferCall → Option MapperError)
    (c : Option MapperSession) (val : MapperValue) :
    (mapInteger answer c (some val)).Exact c val.integer ↔
      (∃ s ∈ c, s.opened = false) ∨ (val.fits ∧ (c = none ∨ val.handled)) := by
  cases val with
  | int64 n | int32 n | uint32 n | int n =>
    rw [mapInteger, exact_finishMapping_iff]
    simp [integer, fits, handled]
  | uint64 n | uint n =>
    have hfits := @toInt_toInt64_eq_iff n
    rw [mapInteger, exact_finishMapping_iff]
    simp only [integer, fits, handled, mem_some_iff,
      exists_eq_left', some_inj, hfits, isSome_none]
    simp
  | string text =>
    rw [mapInteger]
    split
    next hparse => exact iff_of_true ⟨nofun, nofun⟩ (.inr ⟨trivial, .inr trivial⟩)
    next n hparse =>
      have hn : n ∈ (string text).integer := (filter_eq_some_iff.mp hparse).1
      rw [exact_finishMapping_iff]
      exact iff_of_true (.inr (.inl ⟨n, hn, rfl⟩)) (.inr ⟨trivial, .inr trivial⟩)
  | other type =>
    rw [mapInteger, exact_finishMapping_iff]
    simp [integer, fits, handled]

/-- The largest unsigned value is stored as minus one, and a value of another type is dropped. -/
theorem unsigned_stored_as_negative :
    let answer := fun _ => none
    mapInteger answer (some ⟨"orders", true⟩) (some (.uint64 18446744073709551615)) =
        ⟨some (-1), none, [.setValue (-1)]⟩ ∧
      mapInteger answer (some ⟨"orders", true⟩) (some (.other "int8")) = ⟨none, none, []⟩ := by
  decide +kernel

end QuantaStream.Core
