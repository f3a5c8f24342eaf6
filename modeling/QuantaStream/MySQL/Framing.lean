import QuantaStream.Lib.Frames
import QuantaStream.MySQL.Authorization

/-!
# Messages over packets

A MySQL client sends a message of any length as packets of `maxPayloadLength` bytes and a
shorter one, possibly empty, that ends it, and it expects messages in the same framing.  The
server's stream reads and writes one packet at a time and knows nothing of the framing: a message
reaches the handler as it was sent, and a response reaches the client as it was made, exactly if it
fits in one packet that is not full.
-/

namespace QuantaStream.MySQL

open GoString List Frames

/-! ## The client's framing -/

/-- A packet on the wire: its header and its payload. -/
def packetBytes (packet : Packet) : GoString :=
  packetHeader packet.sequenceID packet.payload.length ++ packet.payload

/-- The bytes of payloads in consecutive packets. -/
def packetsBytes (sequenceID : UInt8) : List GoString → GoString
  | [] => []
  | payload :: payloads => packetBytes ⟨sequenceID, payload⟩ ++ packetsBytes (sequenceID + 1) payloads

/-- The bytes of a message: full packets, and a shorter one that ends it. -/
def messageBytes (sequenceID : UInt8) (payload : GoString) : GoString :=
  packetsBytes sequenceID (split maxPayloadLength payload)

/-- What a client takes from the bytes of a server: the payload of a message, from at most so many
packets, and the bytes after it. -/
def readMessage : ℕ → GoString → Option (GoString × GoString)
  | 0, _ => none
  | n + 1, bytes =>
    match readPacket ⟨bytes, []⟩ with
    | (.error _, _) => none
    | (.ok packet, w) =>
      if packet.payload.length < maxPayloadLength then some (packet.payload, w.input)
      else (readMessage n w.input).map fun r => (packet.payload ++ r.1, r.2)

/-- A message is read back with the packets it was sent in. -/
theorem readMessage_message (payload rest : GoString) (sequenceID : UInt8) :
    readMessage (split maxPayloadLength payload).length
      (messageBytes sequenceID payload ++ rest) = some (payload, rest) := by
  revert sequenceID
  refine split_induction maxPayloadLength_pos
    (P := fun payload frames => ∀ sequenceID, readMessage frames.length
      (packetsBytes sequenceID frames ++ rest) = some (payload, rest)) ?_ ?_ payload
  · intro last hlast sequenceID
    have hread := readPacket_encode ⟨sequenceID, last⟩ (Nat.le_of_lt hlast) rest []
    simp only [length_singleton, packetsBytes, packetBytes, append_nil, readMessage, hread]
    rw [if_pos hlast]
  · intro frame l hframe ih sequenceID
    have hread := readPacket_encode ⟨sequenceID, frame⟩ (Nat.le_of_eq hframe)
      (packetsBytes (sequenceID + 1) (split maxPayloadLength l) ++ rest) []
    rw [← append_assoc] at hread
    simp only [length_cons, packetsBytes, packetBytes, readMessage, hread]
    rw [if_neg (by rw [hframe]; exact Nat.lt_irrefl _), ih (sequenceID + 1)]
    rfl

/-- Even an empty payload takes a header. -/
theorem packetsBytes_ne_nil (sequenceID : UInt8) {payloads : List GoString} (h : payloads ≠ []) :
    packetsBytes sequenceID payloads ≠ [] := by
  cases payloads with
  | nil => exact absurd rfl h
  | cons payload payloads => simp [packetsBytes, packetBytes, packetHeader]

/-! ## A session over the wire -/

variable {η : Type}

/-- `Stream`, next to the state of a handler. -/
def wireStream : PacketReadWriter (Wire × η) where
  readPacket w := ((readPacket w.1).1, (readPacket w.1).2, w.2)
  writePacket packet w := ((writePacket packet w.1).1, (writePacket packet w.1).2, w.2)

section

variable (handle : CommandHandler η)

/-- A handler with a state of its own, next to the wire. -/
def besideWire : CommandHandler (Wire × η) := fun command w =>
  ((handle command w.2).1, w.1, (handle command w.2).2)

/-- The runner of a connection over the wire. -/
def wireRunner (c : Connection) : SessionRunner (Wire × η) where
  connection := c
  handshake := {}
  stream := some wireStream
  handler := some (besideWire handle)
  authenticator := none

/-- Writing a response reads nothing. -/
theorem writeResponsePackets_input (packets : List Packet) (w : Wire × η) :
    (writeResponsePackets wireStream packets w).2.1.input = w.1.input := by
  induction packets generalizing w with
  | nil => rfl
  | cons packet packets ih =>
    have hwrite : (writePacket packet w.1).2.input = w.1.input := by
      unfold writePacket
      split <;> rfl
    simp only [writeResponsePackets, wireStream]
    generalize writePacket packet w.1 = written at hwrite ⊢
    rcases written with ⟨result, w'⟩
    cases result with
    | error e => exact hwrite
    | ok _ =>
      exact (ih (w', w.2)).trans hwrite

/-- Serving a command reads one packet and no more. -/
theorem serveNext_input (c : Connection) (w : Wire × η) :
    (serveNext wireStream (besideWire handle) c w).2.1.input = (readPacket w.1).2.input := by
  unfold serveNext
  have hread : wireStream.readPacket w = ((readPacket w.1).1, (readPacket w.1).2, w.2) := rfl
  simp only [hread]
  generalize readPacket w.1 = answer
  rcases answer with ⟨result, w'⟩
  cases result with
  | error e => rfl
  | ok packet =>
    dsimp only
    cases decodeCommand packet.payload with
    | error e =>
      have hinput := writeResponsePackets_input (errorResponseFromError e).packets (w', w.2)
      dsimp only
      generalize writeResponsePackets wireStream _ (w', w.2) = written at hinput ⊢
      rcases written with ⟨result, w''⟩
      cases result <;> exact hinput
    | ok command =>
      dsimp only
      generalize CommandResponse.withCapabilities _ _ = response
      have hinput := writeResponsePackets_input response.packets
        (besideWire handle (command.onConnection c) (w', w.2)).2
      generalize writeResponsePackets wireStream _ _ = written at hinput ⊢
      rcases written with ⟨result, w''⟩
      cases result <;> exact hinput

end

variable {c : Connection}

section

variable (handle : CommandHandler η) (hready : c.state = .ready) {packet : Packet}
  (hlen : packet.payload.length ≤ maxPayloadLength) {w : (Wire × η) × List Event} {rest : GoString}
  (hinput : w.1.1.input = packetBytes packet ++ rest)

include handle hready hlen hinput

omit handle hready in
/-- A packet at the front of the input is read back. -/
theorem readPacket_of_input : readPacket w.1.1 = (.ok packet, ⟨rest, w.1.1.output⟩) := by
  rw [← readPacket_encode packet hlen rest w.1.1.output, ← packetBytes, ← hinput]

/-- The next packet of a ready connection is taken for a whole command. -/
theorem serveNextCommand_packet :
    (serveNextCommand (wireRunner handle c).recorded w).world.1.1.input = rest ∧
      (serveNextCommand (wireRunner handle c).recorded w).world.2 =
        w.2 ++ commandEvents c packet.payload := by
  have hread := readPacket_of_input hlen hinput
  have hevents : servedEvents wireStream c w.1 = commandEvents c packet.payload := by
    simp only [servedEvents, wireStream, hread]
  have hrest : (serveNext wireStream (besideWire handle) c w.1).2.1.input = rest := by
    rw [serveNext_input, hread]
  simp only [serveNextCommand, SessionRunner.recorded, wireRunner, Option.map_some,
    Connection.canAcceptCommand, hready, decide_true, if_true, serveNext_recorded, hevents]
  generalize serveNext wireStream (besideWire handle) c w.1 = served at hrest ⊢
  rcases served with ⟨result, w'⟩
  cases result <;> exact ⟨hrest, rfl⟩

/-- A refused packet is answered with an error, and the connection stays ready. -/
theorem serveNextCommand_refused {e : GoString} (hrefused : decodeCommand packet.payload = .error e)
    (hanswer : ∀ answer ∈ (errorResponseFromError e).packets,
      answer.payload.length ≤ maxPayloadLength) :
    (serveNextCommand (wireRunner handle c).recorded w).result = .ok (errorResponseFromError e) ∧
      (serveNextCommand (wireRunner handle c).recorded w).connection = c := by
  have hread := readPacket_of_input hlen hinput
  have hwrite := writePacket_of_le (hanswer ⟨1, _⟩ (mem_singleton_self _))
  simp only [serveNextCommand, SessionRunner.recorded, wireRunner, Option.map_some,
    Connection.canAcceptCommand, hready, decide_true, if_true, serveNext_recorded]
  simp only [serveNext, wireStream, hread, hrefused, errorResponseFromError, errorResponse,
    writeResponsePackets, hwrite]
  exact ⟨trivial, rfl⟩

end

/-! ## What reaches the other side unchanged -/

variable (payload : GoString)

/-- A message reaches the handler as one command: on every ready connection the next command the
server serves is the whole message, and what follows it is left. -/
def Delivered : Prop :=
  ∀ (η : Type) (handle : CommandHandler η) (c : Connection), c.state = .ready →
    ∀ (sequenceID : UInt8) (rest : GoString) (w : (Wire × η) × List Event),
      w.1.1.input = messageBytes sequenceID payload ++ rest →
      (serveNextCommand (wireRunner handle c).recorded w).world.1.1.input = rest ∧
        (serveNextCommand (wireRunner handle c).recorded w).world.2 =
          w.2 ++ commandEvents c payload

/-- A response can be written, and a client reads it back whatever follows. -/
def Returned : Prop :=
  ∀ (sequenceID : UInt8) (w : Wire), ∃ bytes,
    writePacket ⟨sequenceID, payload⟩ w = (.ok (), { w with output := w.output ++ bytes }) ∧
      ∃ n, ∀ rest, readMessage n (bytes ++ rest) = some (payload, rest)

/-- A short message is one packet. -/
theorem messageBytes_of_lt {payload : GoString} (h : payload.length < maxPayloadLength)
    (sequenceID : UInt8) : messageBytes sequenceID payload = packetBytes ⟨sequenceID, payload⟩ := by
  rw [messageBytes, split_of_lt h]
  exact append_nil _

/-- A longer message starts with a full packet. -/
theorem messageBytes_of_le {payload : GoString} (h : maxPayloadLength ≤ payload.length)
    (sequenceID : UInt8) :
    messageBytes sequenceID payload =
      packetBytes ⟨sequenceID, payload.take maxPayloadLength⟩ ++
        messageBytes (sequenceID + 1) (payload.drop maxPayloadLength) := by
  rw [messageBytes, split_of_le maxPayloadLength_pos h]
  rfl

/-- A message is delivered exactly if it leaves room in one packet. -/
theorem delivered_iff : Delivered payload ↔ payload.length < maxPayloadLength := by
  constructor
  · intro h
    by_contra hlong
    have hlong := Nat.le_of_not_lt hlong
    -- the rest of the message is still unread after the next command
    let w : (Wire × Unit) × List Event := ((⟨messageBytes 0 payload, []⟩, ()), [])
    let c : Connection := { id := 1, state := .ready }
    let handle : CommandHandler Unit := fun _ s => (.error [], s)
    have hinput : w.1.1.input = packetBytes ⟨0, payload.take maxPayloadLength⟩ ++
      messageBytes (0 + 1) (payload.drop maxPayloadLength) := messageBytes_of_le hlong 0
    have hread := (serveNextCommand_packet handle (c := c) rfl (length_take_le _ _) hinput).1
    have hall := (h Unit handle c rfl 0 [] w (append_nil _).symm).1
    rw [hall] at hread
    exact packetsBytes_ne_nil _ (split_ne_nil _ _) hread.symm
  · intro h η handle c hready sequenceID rest w hinput
    rw [messageBytes_of_lt h] at hinput
    exact serveNextCommand_packet handle hready (Nat.le_of_lt h) hinput

/-- A client waits for a message on an empty wire. -/
theorem readMessage_nil (n : ℕ) : readMessage n [] = none := by
  cases n with
  | zero | succ n => rfl

/-- A response is returned exactly if it leaves room in one packet: a longer one cannot be written,
and after a full one the client waits for more. -/
theorem returned_iff : Returned payload ↔ payload.length < maxPayloadLength := by
  constructor
  · intro h
    by_contra hlong
    rcases h 0 ⟨[], []⟩ with ⟨bytes, hwrite, n, hread⟩
    rcases Nat.lt_or_eq_of_le (Nat.le_of_not_lt hlong) with hlt | heq
    · have hrefused : encodePacket ⟨0, payload⟩ = .error (ascii
          s!"mysql packet payload length {payload.length} exceeds max {maxPayloadLength}") := by
        rw [encodePacket, if_pos hlt]
      rw [writePacket, hrefused] at hwrite
      cases congrArg Prod.fst hwrite
    · have hfits : (⟨0, payload⟩ : Packet).payload.length ≤ maxPayloadLength := Nat.le_of_eq heq.symm
      rw [writePacket_of_le hfits] at hwrite
      have hbytes : packetBytes ⟨0, payload⟩ = bytes :=
        congrArg (fun p => Wire.output p.2) hwrite
      have hnone := hread []
      rw [← hbytes] at hnone
      cases n with
      | zero => cases hnone
      | succ n =>
        have hpacket := readPacket_encode ⟨0, payload⟩ hfits [] []
        simp only [readMessage, packetBytes, hpacket] at hnone
        rw [if_neg (by omega), readMessage_nil] at hnone
        cases hnone
  · intro h sequenceID w
    refine ⟨packetBytes ⟨sequenceID, payload⟩, writePacket_of_le (Nat.le_of_lt h) w,
      (split maxPayloadLength payload).length, fun rest => ?_⟩
    rw [← messageBytes_of_lt h]
    exact readMessage_message payload rest sequenceID

/-- A payload is delivered as one command when a client sends it and read back unchanged when the
server sends it exactly if it is shorter than a full packet. -/
theorem delivered_and_returned_iff :
    Delivered payload ∧ Returned payload ↔ payload.length < maxPayloadLength := by
  rw [delivered_iff, returned_iff, and_self]

/-- The end of a message whose first packet is refused is handled as a command of its own. -/
theorem tail_handled (handle : CommandHandler η) (hready : c.state = .ready)
    {front tail e : GoString} (hfront : front.length = maxPayloadLength)
    (htail : tail.length < maxPayloadLength) (hrefused : decodeCommand front = .error e)
    (hanswer : ∀ answer ∈ (errorResponseFromError e).packets,
      answer.payload.length ≤ maxPayloadLength) (s : η) :
    (serveCommands 2 (wireRunner handle c).recorded
      ((⟨messageBytes 0 (front ++ tail), []⟩, s), [])).world.2 = commandEvents c tail := by
  have hmessage : messageBytes 0 (front ++ tail) =
      packetBytes ⟨0, front⟩ ++ packetBytes ⟨1, tail⟩ := by
    rw [messageBytes_of_le (by rw [length_append]; omega), take_left' hfront,
      drop_left' hfront, messageBytes_of_lt htail]
    rfl
  rw [hmessage]
  generalize hw : (((⟨packetBytes ⟨0, front⟩ ++ packetBytes ⟨1, tail⟩, []⟩, s), []) :
    (Wire × η) × List Event) = w
  have hinput : w.1.1.input = packetBytes ⟨0, front⟩ ++ packetBytes ⟨1, tail⟩ := by rw [← hw]
  have hlog : w.2 = [] := by rw [← hw]
  have hfirst := serveNextCommand_packet handle hready (Nat.le_of_eq hfront) hinput
  have hstays := serveNextCommand_refused handle hready (Nat.le_of_eq hfront) hinput hrefused hanswer
  have hnext : (serveNextCommand (wireRunner handle c).recorded w).world.1.1.input =
      packetBytes ⟨1, tail⟩ ++ [] := by
    rw [hfirst.1, append_nil]
  have hsecond := serveNextCommand_packet handle hready (Nat.le_of_lt htail) hnext
  have hrunner : ({ (wireRunner handle c).recorded with connection := c } :
    SessionRunner ((Wire × η) × List Event)) = (wireRunner handle c).recorded := rfl
  have hopen : ¬ ((errorResponseFromError e).close = true ∨ c.state = .closing) := by
    simp [errorResponseFromError, errorResponse, hready]
  rw [hfirst.2, commandEvents, hrefused, hlog, nil_append] at hsecond
  simp only [serveCommands, hstays.1, hstays.2, hopen, if_false, hrunner]
  split
  · exact hsecond.2
  · split <;> exact hsecond.2

/-- A message of a full packet of zeros and a statement is no command, and the statement is
executed. -/
theorem tail_of_refused_message_handled :
    (decodeCommand (replicate maxPayloadLength 0 ++ 0x03 :: ascii "drop table orders")).isOk =
        false ∧
      (serveCommands 2 (wireRunner (fun _ s => (.ok (statementOKResponse {}), s))
          { id := 1, state := .ready, username := ascii "app" }).recorded
        ((⟨messageBytes 0
          (replicate maxPayloadLength 0 ++ 0x03 :: ascii "drop table orders"), []⟩, ()),
          [])).world.2 =
        [.handled
          { kind := .query, sql := ascii "drop table orders", connectionID := 1,
            username := ascii "app" }] := by
  have hzeros : ∃ rest, replicate maxPayloadLength (0 : UInt8) = 0 :: rest :=
    ⟨_, replicate_succ⟩
  rcases hzeros with ⟨rest, hzeros⟩
  have hrefused := decodeCommand_zero rest
  rw [← hzeros] at hrefused
  constructor
  · rw [hzeros, cons_append, decodeCommand_zero]
    rfl
  · rw [tail_handled _ rfl length_replicate (by decide) hrefused (by decide)]
    rfl

end QuantaStream.MySQL
