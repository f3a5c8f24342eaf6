import Mathlib.Data.Finset.Sort
import Mathlib.Order.Lattice.Nat
import Mathlib.Tactic.Ring
import QuantaStream.Lib.Bsi
import QuantaStream.Lib.GoString

/-!
# The bytes of a bit-sliced index

The marshaller of roaring writes the columns and the value slices of an index and drops its sign
slice.  `marshalBSI` puts the columns with negative values and a marker behind them, and
`unmarshalBSI` subtracts the weight of the sign bit, which it takes from the number of slices,
from the values of these columns.
-/

namespace QuantaStream.Shared

open List

/-- The serialisation of roaring bitmaps: it is exact and has no empty encoding. -/
structure BitmapCodec where
  encode : Finset ℕ → GoString
  decode : GoString → Option (Finset ℕ)
  encode_ne_nil : ∀ s, encode s ≠ []
  decode_encode : ∀ s, decode (encode s) = some s

/-- A codec with a flag for each column up to the highest, behind a first byte. -/
def flagCodec : BitmapCodec where
  encode s := 0 :: (List.range (s.sup id + 1)).map fun c => if c ∈ s then 1 else 0
  decode
    | [] => none
    | _ :: flags => some ((Finset.range flags.length).filter fun c => flags[c]? = some 1)
  encode_ne_nil s := by simp
  decode_encode s := by
    refine congrArg some (Finset.ext fun c => ?_)
    have hle : c ∈ s → c < s.sup id + 1 := fun h => Nat.lt_succ_of_le (Finset.le_sup (f := id) h)
    by_cases h : c ∈ s <;> simp +contextual [h, hle]

/-- `roaring64.BSI`: the columns, a slice for each bit of the values from the lowest on, and the
slice of the sign bit. -/
structure SlicedBSI where
  existence : Finset ℕ
  slices : List (Finset ℕ) := []
  sign : Finset ℕ := ∅

open SlicedBSI

def unsignedValue (slices : List (Finset ℕ)) (c : ℕ) : ℤ :=
  slices.foldr (fun slice v => (if c ∈ slice then 1 else 0) + 2 * v) 0

namespace SlicedBSI

variable (b : SlicedBSI)

/-- `GetBigValue`: the two's complement of the bits. -/
def value (c : ℕ) : ℤ :=
  unsignedValue (b.slices ++ [b.sign]) c - if c ∈ b.sign then 2 ^ (b.slices.length + 1) else 0

/-- What the users of the index see. -/
def contents : Bsi where
  existence := b.existence
  value c := if c ∈ b.existence then b.value c else 0
  value_eq_zero _ h := if_neg h

end SlicedBSI

variable (codec : BitmapCodec)

def bsiSignedBinaryMarker : GoString := GoString.ascii "QSBISIGN1"

def marshalBSI (b : SlicedBSI) : List GoString :=
  codec.encode b.existence :: b.slices.map codec.encode ++
    [codec.encode (b.existence ∩ b.sign), bsiSignedBinaryMarker]

/-- `unmarshalRoaringBSI` into a new index. -/
def unmarshalRoaringBSI : List GoString → Option SlicedBSI
  | [] => some { existence := ∅ }
  | data :: slices => do
    return { existence := ← codec.decode data, slices := ← slices.mapM codec.decode }

/-- `UnmarshalBitmap` into a new bitmap. -/
def unmarshalBitmap (data : GoString) : Option (Finset ℕ) :=
  if data = [] then some ∅ else codec.decode data

/-- The payload and the sign slice of data that end with the marker. -/
def signedParts (data : List GoString) : Option (List GoString × GoString) :=
  match data.reverse with
  | marker :: signData :: payload =>
    if marker = bsiSignedBinaryMarker then some (payload.reverse, signData) else none
  | _ => none

/-- `UnmarshalBSI` into a new index. -/
def unmarshalBSI (data : List GoString) : Option Bsi :=
  match signedParts data with
  | none => (unmarshalRoaringBSI codec data).map contents
  | some (payload, signData) => do
    let sign ← unmarshalBitmap codec signData
    let unsigned ← unmarshalRoaringBSI codec payload
    if sign = ∅ then return unsigned.contents
    let offset : ℤ := 2 ^ (payload.length - 1)
    return (unsigned.existence.sort (· ≤ ·)).foldl (fun rebuilt row => rebuilt.setValue row
      (unsigned.value row - if row ∈ sign then offset else 0)) .empty

theorem unsignedValue_concat (slices : List (Finset ℕ)) (sign : Finset ℕ) (c : ℕ) :
    unsignedValue (slices ++ [sign]) c =
      unsignedValue slices c + if c ∈ sign then 2 ^ slices.length else 0 := by
  induction slices with
  | nil => simp [unsignedValue]
  | cons slice slices ih =>
    simp only [unsignedValue, cons_append, foldr_cons, length_cons, pow_succ] at ih ⊢
    rw [ih]
    split_ifs <;> ring

/-- The sign bit weighs as much as the first bit above the values, with a minus. -/
theorem SlicedBSI.value_eq (b : SlicedBSI) (c : ℕ) :
    b.value c = unsignedValue b.slices c - if c ∈ b.sign then 2 ^ b.slices.length else 0 := by
  unfold value
  rw [unsignedValue_concat, pow_succ]
  split_ifs <;> ring

theorem unmarshalRoaringBSI_encode (existence : Finset ℕ) (slices : List (Finset ℕ)) :
    unmarshalRoaringBSI codec (codec.encode existence :: slices.map codec.encode) =
      some ⟨existence, slices, ∅⟩ := by
  have hslices : (slices.map codec.encode).mapM codec.decode = some slices := by
    induction slices with
    | nil => rfl
    | cons slice slices ih => simp [codec.decode_encode, ih]
  simp [unmarshalRoaringBSI, codec.decode_encode, hslices]

/-- An index comes back with its columns and their values. -/
theorem unmarshal_marshalBSI (b : SlicedBSI) :
    unmarshalBSI codec (marshalBSI codec b) = some b.contents := by
  have hparts : signedParts (marshalBSI codec b) =
      some (codec.encode b.existence :: b.slices.map codec.encode,
        codec.encode (b.existence ∩ b.sign)) := by
    simp [signedParts, marshalBSI]
  rw [unmarshalBSI, hparts]
  simp only [unmarshalBitmap, codec.encode_ne_nil, if_false, codec.decode_encode,
    unmarshalRoaringBSI_encode, Option.bind_eq_bind, Option.bind_some, length_cons, length_map,
    Nat.add_sub_cancel]
  split_ifs with hsign <;> refine congrArg some (Bsi.ext_get? fun c => ?_)
  · -- no column with a value is in the sign slice
    have hc : c ∈ b.existence → c ∉ b.sign := fun hc hs =>
      Finset.notMem_empty c (hsign ▸ Finset.mem_inter.mpr ⟨hc, hs⟩)
    by_cases h : c ∈ b.existence <;>
      simp [Bsi.get?, contents, value_eq, h, hc]
  · rw [Bsi.get?_foldl_setValue]
    by_cases h : c ∈ b.existence <;> simp [Bsi.get?, contents, value_eq, h]

/-- Column 1 holds 5 and column 2 holds -3. -/
def mixedSigns : SlicedBSI := { existence := {1, 2}, slices := [{1, 2}, ∅, {1, 2}], sign := {2} }

theorem unmarshal_marshal_mixedSigns :
    mixedSigns.contents.get? 1 = some 5 ∧ mixedSigns.contents.get? 2 = some (-3) ∧
      unmarshalBSI flagCodec (marshalBSI flagCodec mixedSigns) = some mixedSigns.contents :=
  ⟨by decide, by decide, unmarshal_marshalBSI flagCodec mixedSigns⟩

end QuantaStream.Shared
