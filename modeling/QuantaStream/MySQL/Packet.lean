import QuantaStream.Lib.GoString

/-!
# MySQL packets

A packet is a header of three bytes of length and one sequence number, and a payload that the
length fits.  This module models the packets, their encoding, and the stream that reads and writes
them one at a time.
-/

namespace QuantaStream.MySQL

open GoString

/-! ## Numbers in little endian -/

variable (out : GoString)

def appendUint16LE (value : UInt16) : GoString :=
  out ++ [value.toUInt8, (value >>> 8).toUInt8]

def appendUint32LE (value : UInt32) : GoString :=
  out ++ [value.toUInt8, (value >>> 8).toUInt8, (value >>> 16).toUInt8, (value >>> 24).toUInt8]

def appendUint64LE (value : UInt64) : GoString :=
  out ++ [value.toUInt8, (value >>> 8).toUInt8, (value >>> 16).toUInt8, (value >>> 24).toUInt8,
    (value >>> 32).toUInt8, (value >>> 40).toUInt8, (value >>> 48).toUInt8, (value >>> 56).toUInt8]

def appendLengthEncodedInteger (value : UInt64) : GoString :=
  if value < 251 then out ++ [value.toUInt8]
  else if value ≤ 0xffff then out ++ [0xfc, value.toUInt8, (value >>> 8).toUInt8]
  else if value ≤ 0xffffff then
    out ++ [0xfd, value.toUInt8, (value >>> 8).toUInt8, (value >>> 16).toUInt8]
  else appendUint64LE (out ++ [0xfe]) value

def appendLengthEncodedString (value : GoString) : GoString :=
  appendLengthEncodedInteger out value.length.toUInt64 ++ value

/-- `readUint16LE`, of data that is long enough. -/
def readUint16LE : GoString → UInt16
  | a :: b :: _ => a.toUInt16 ||| b.toUInt16 <<< 8
  | _ => 0

/-- `readUint32LE`, of data that is long enough. -/
def readUint32LE : GoString → UInt32
  | a :: b :: c :: d :: _ =>
    a.toUInt32 ||| b.toUInt32 <<< 8 ||| c.toUInt32 <<< 16 ||| d.toUInt32 <<< 24
  | _ => 0

/-! ## Packets -/

def maxPayloadLength : ℕ := 2 ^ 24 - 1

def packetHeaderLength : ℕ := 4

theorem maxPayloadLength_pos : 0 < maxPayloadLength := by decide

structure Packet where
  sequenceID : UInt8
  payload : GoString
  deriving DecidableEq, Repr

def packetHeader (sequenceID : UInt8) (length : ℕ) : GoString :=
  [length.toUInt8, (length >>> 8).toUInt8, (length >>> 16).toUInt8, sequenceID]

def headerLength (a b c : UInt8) : ℕ := a.toNat ||| b.toNat <<< 8 ||| c.toNat <<< 16

def encodePacket (packet : Packet) : Except GoString GoString :=
  if packet.payload.length > maxPayloadLength then
    .error (ascii s!"mysql packet payload length {packet.payload.length} exceeds max {maxPayloadLength}")
  else .ok (packetHeader packet.sequenceID packet.payload.length ++ packet.payload)

def decodePacket : GoString → Except GoString Packet
  | a :: b :: c :: sequenceID :: body =>
    let length := headerLength a b c
    if body.length ≠ length then
      .error (ascii
        s!"mysql packet payload length mismatch: header={length} actual={body.length}")
    else .ok ⟨sequenceID, body⟩
  | data => .error (ascii s!"mysql packet too short: {data.length} bytes")

/-- The three bytes of a length hold every length a packet may have. -/
theorem headerLength_packetHeader {n : ℕ} (h : n ≤ maxPayloadLength) :
    headerLength n.toUInt8 (n >>> 8).toUInt8 (n >>> 16).toUInt8 = n := by
  have hbound : n < 2 ^ 24 := by
    unfold maxPayloadLength at h
    omega
  have hlow : n % 256 < 2 ^ 8 := Nat.mod_lt n (by decide)
  have hmid : n / 256 % 256 * 2 ^ 8 + n % 256 < 2 ^ 16 := by omega
  simp only [headerLength, Nat.toUInt8, UInt8.toNat_ofNat', Nat.shiftRight_eq_div_pow]
  rw [Nat.or_comm (n % 2 ^ 8), ← Nat.shiftLeft_add_eq_or_of_lt hlow, Nat.or_comm,
    ← Nat.shiftLeft_add_eq_or_of_lt (by rw [Nat.shiftLeft_eq]; exact hmid), Nat.shiftLeft_eq,
    Nat.shiftLeft_eq]
  omega

variable {packet : Packet}

theorem packetHeader_headerLength (a b c sequenceID : UInt8) :
    packetHeader sequenceID (headerLength a b c) = [a, b, c, sequenceID] ∧
      headerLength a b c ≤ maxPayloadLength := by
  have ha := a.toNat_lt
  have hb := b.toNat_lt
  have hc := c.toNat_lt
  have hvalue : headerLength a b c = c.toNat * 65536 + (b.toNat * 256 + a.toNat) := by
    unfold headerLength
    rw [Nat.or_comm a.toNat, ← Nat.shiftLeft_add_eq_or_of_lt ha, Nat.or_comm,
      ← Nat.shiftLeft_add_eq_or_of_lt (by rw [Nat.shiftLeft_eq]; omega), Nat.shiftLeft_eq,
      Nat.shiftLeft_eq]
  rw [hvalue]
  refine ⟨?_, by unfold maxPayloadLength; omega⟩
  simp only [packetHeader, List.cons.injEq, ← UInt8.toNat_inj, Nat.toUInt8, UInt8.toNat_ofNat',
    Nat.shiftRight_eq_div_pow, and_true]
  omega

/-- The bytes that are decoded as a packet are those it is encoded as. -/
theorem decodePacket_eq_ok_iff {data : GoString} :
    decodePacket data = .ok packet ↔ encodePacket packet = .ok data := by
  constructor
  · intro h
    unfold decodePacket at h
    split at h
    next a b c sequenceID body =>
      rcases packetHeader_headerLength a b c sequenceID with ⟨hheader, hmax⟩
      dsimp only at h
      split_ifs at h with hlength
      rw [not_not] at hlength
      cases h
      have hfits : ¬ body.length > maxPayloadLength := by omega
      rw [encodePacket, if_neg hfits]
      simp only [hlength, hheader]
      rfl
    next => cases h
  · intro h
    unfold encodePacket at h
    split_ifs at h with hmax
    have hlength := headerLength_packetHeader (Nat.le_of_not_lt hmax)
    cases h
    simp [packetHeader, decodePacket, hlength]

/-! ## The stream -/

/-- The two directions of a connection: what the client has sent and the server has not read yet,
and what the server has written. -/
structure Wire where
  input : GoString
  output : GoString
  deriving DecidableEq, Repr

/-- `io.ReadFull`: a short input is used up. -/
def readFull (n : ℕ) (input : GoString) : Except GoString GoString × GoString :=
  if n ≤ input.length then (.ok (input.take n), input.drop n)
  else (.error (if input = [] then ascii "EOF" else ascii "unexpected EOF"), [])

def readPacket (w : Wire) : Except GoString Packet × Wire :=
  match readFull packetHeaderLength w.input with
  | (.error e, input) => (.error e, { w with input := input })
  | (.ok header, input) =>
    match header with
    | [a, b, c, sequenceID] =>
      match readFull (headerLength a b c) input with
      | (.error e, input) => (.error e, { w with input := input })
      | (.ok payload, input) => (.ok ⟨sequenceID, payload⟩, { w with input := input })
    | _ => (.error [], { w with input := input })

def writePacket (packet : Packet) (w : Wire) : Except GoString Unit × Wire :=
  match encodePacket packet with
  | .error e => (.error e, w)
  | .ok encoded => (.ok (), { w with output := w.output ++ encoded })

theorem readFull_append (a b : GoString) : readFull a.length (a ++ b) = (.ok a, b) := by
  simp [readFull]

/-- An encoded packet is read from a stream as it was, and what follows it stays. -/
theorem readPacket_encode (packet : Packet) (h : packet.payload.length ≤ maxPayloadLength)
    (rest output : GoString) :
    readPacket ⟨packetHeader packet.sequenceID packet.payload.length ++ packet.payload ++ rest,
      output⟩ = (.ok packet, ⟨rest, output⟩) := by
  have hheader := readFull_append (packetHeader packet.sequenceID packet.payload.length)
    (packet.payload ++ rest)
  rw [← List.append_assoc] at hheader
  have hlength : packetHeaderLength =
    (packetHeader packet.sequenceID packet.payload.length).length := rfl
  simp only [readPacket, hlength, hheader]
  simp only [packetHeader, headerLength_packetHeader h, readFull_append]

theorem writePacket_of_le (h : packet.payload.length ≤ maxPayloadLength) (w : Wire) :
    writePacket packet w = (.ok (), { w with
      output := w.output ++ (packetHeader packet.sequenceID packet.payload.length ++ packet.payload) }) := by
  rw [writePacket, encodePacket, if_neg (Nat.not_lt.mpr h)]

end QuantaStream.MySQL
