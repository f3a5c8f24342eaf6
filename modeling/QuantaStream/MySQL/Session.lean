import QuantaStream.Lib.Run
import QuantaStream.MySQL.Command

/-!
# The MySQL session runner

A session runner drives one connection: it sends the handshake, takes the client's response to an
authenticator, and then hands the client's commands to a handler.  The transport, the authenticator
and the handler are functions on a world of any type, so that they may answer anything, fail, and
remember; the calls of the runner may come in any order.
-/

namespace QuantaStream.MySQL

open GoString

/-! ## The connection -/

inductive ConnectionState where
  | new
  | handshakeSent
  | authPending
  | ready
  | closing
  deriving DecidableEq, Repr

def ConnectionState.text : ConnectionState → String
  | .new => "new"
  | .handshakeSent => "handshake_sent"
  | .authPending => "auth_pending"
  | .ready => "ready"
  | .closing => "closing"

structure Connection where
  id : UInt32
  state : ConnectionState := .new
  username : GoString := []
  database : GoString := []
  roles : List GoString := []
  authPluginName : GoString := []
  capabilityFlags : UInt32 := 0
  deriving DecidableEq, Repr

structure HandshakeResponse41 where
  capabilityFlags : UInt32
  maxPacketSize : UInt32
  characterSet : UInt8
  username : GoString := []
  authResponse : GoString := []
  database : GoString := []
  authPluginName : GoString := []
  deriving DecidableEq, Repr

variable (c : Connection)

def Connection.withHandshakeSent : Except GoString Connection :=
  if c.state ≠ .new then .error (ascii s!"cannot send handshake from state {c.state.text}")
  else .ok { c with state := .handshakeSent }

def Connection.acceptHandshakeResponse (response : HandshakeResponse41) :
    Except GoString Connection :=
  if c.state ≠ .handshakeSent then
    .error (ascii s!"cannot accept handshake response from state {c.state.text}")
  else
    .ok { c with
      username := response.username
      database := response.database
      authPluginName := response.authPluginName
      capabilityFlags := response.capabilityFlags
      state := .authPending }

def Connection.acceptPermissiveAuth : Except GoString (Connection × CommandResponse) :=
  if c.state ≠ .authPending then .error (ascii s!"cannot accept auth from state {c.state.text}")
  else .ok ({ c with state := .ready }, authSuccessResponse c.capabilityFlags)

def Connection.withClosing : Connection := { c with state := .closing }

def Connection.canAcceptCommand : Bool := c.state = .ready

/-! ## The client's handshake response -/

/-- `readNullTerminatedBytes`: the bytes up to the next zero, and the offset after it. -/
def readNullTerminatedBytes (data : GoString) (offset : ℕ) : Option (GoString × ℕ) :=
  ((data.drop offset).findIdx? (· = 0)).map fun i =>
    ((data.drop offset).take i, offset + i + 1)

section

variable (payload : GoString)

/-- The authentication response in a handshake response, and the offset after it. -/
def decodeAuthResponse (flags : UInt32) (offset : ℕ) : Except GoString (GoString × ℕ) :=
  if flags &&& capabilitySecureConnection ≠ 0 then
    match payload[offset]? with
    | none => .error (ascii "mysql handshake response missing auth response length")
    | some authLength =>
      if offset + 1 + authLength.toNat > payload.length then
        .error (ascii "mysql handshake response auth response truncated")
      else
        .ok ((payload.drop (offset + 1)).take authLength.toNat, offset + 1 + authLength.toNat)
  else
    match readNullTerminatedBytes payload offset with
    | none => .error (ascii "mysql handshake response missing auth response terminator")
    | some r => .ok r

/-- The database in a handshake response, and the offset after it. -/
def decodeDatabase (flags : UInt32) (offset : ℕ) : Except GoString (GoString × ℕ) :=
  if flags &&& capabilityConnectWithDB ≠ 0 then
    match readNullTerminatedBytes payload offset with
    | none => .error (ascii "mysql handshake response missing database terminator")
    | some r => .ok r
  else .ok ([], offset)

/-- The name of the authentication plugin in a handshake response. -/
def decodeAuthPlugin (flags : UInt32) (offset : ℕ) : Except GoString GoString :=
  if flags &&& capabilityPluginAuth ≠ 0 ∧ offset < payload.length then
    match readNullTerminatedBytes payload offset with
    | none => .error (ascii "mysql handshake response missing auth plugin terminator")
    | some r => .ok r.1
  else .ok []

def decodeHandshakeResponse41 : Except GoString HandshakeResponse41 :=
  if payload.length < 36 then
    .error (ascii s!"mysql handshake response too short: {payload.length} bytes")
  else
    let flags := readUint32LE (payload.take 4)
    if flags &&& capabilityProtocol41 = 0 then
      .error (ascii "mysql handshake response requires CLIENT_PROTOCOL_41")
    else
      match readNullTerminatedBytes payload 32 with
      | none => .error (ascii "mysql handshake response missing username terminator")
      | some (username, offset) => do
          let (authResponse, offset) ← decodeAuthResponse payload flags offset
          let (database, offset) ← decodeDatabase payload flags offset
          let authPluginName ← decodeAuthPlugin payload flags offset
          return {
            capabilityFlags := flags
            maxPacketSize := readUint32LE ((payload.drop 4).take 4)
            characterSet := (payload.drop 8).headD 0
            username := username
            authResponse := authResponse
            database := database
            authPluginName := authPluginName }

/-! ## The server's handshake -/

end

structure HandshakeV10 where
  serverVersion : GoString := []
  connectionID : UInt32 := 0
  authPluginData : GoString := []
  capabilityFlags : UInt32 := 0
  characterSet : UInt8 := 0
  statusFlags : UInt16 := 0
  authPluginName : GoString := []
  deriving DecidableEq, Repr

def defaultAuthPluginName : GoString := ascii "caching_sha2_password"

def defaultCapabilityFlags : UInt32 :=
  capabilityLongPassword ||| capabilityProtocol41 ||| capabilitySecureConnection |||
    capabilityPluginAuth ||| capabilitySessionTrack

def characterSetUTF8MB4GeneralCI : UInt8 := 45

/-- `NewDefaultHandshake`, of a server of this version. -/
def newDefaultHandshake (mySQLVersion : GoString) (connectionID : UInt32)
    (authPluginData : GoString) : HandshakeV10 where
  serverVersion := mySQLVersion
  connectionID := connectionID
  authPluginData := authPluginData
  capabilityFlags := defaultCapabilityFlags
  characterSet := characterSetUTF8MB4GeneralCI
  statusFlags := statusAutocommit
  authPluginName := defaultAuthPluginName

def authPart2 (data : GoString) (length : ℕ) : GoString :=
  data.take length ++ List.replicate (length - data.length) 0

def HandshakeV10.payload (h : HandshakeV10) : Except GoString GoString :=
  if h.serverVersion = [] then .error (ascii "mysql handshake requires server version")
  else if h.authPluginData.length < 8 then
    .error (ascii "mysql handshake auth plugin data must be at least 8 bytes")
  else
    let authPluginName := if h.authPluginName = [] then defaultAuthPluginName else h.authPluginName
    let capabilities := if h.capabilityFlags = 0 then defaultCapabilityFlags else h.capabilityFlags
    let charset := if h.characterSet = 0 then characterSetUTF8MB4GeneralCI else h.characterSet
    let status := if h.statusFlags = 0 then statusAutocommit else h.statusFlags
    if h.authPluginData.length + 1 > 255 then
      .error (ascii
        s!"mysql handshake auth plugin data length {h.authPluginData.length} exceeds max 254")
    else
      let authLength := h.authPluginData.length + 1
      let part2Length := if authLength - 8 < 13 then 13 else authLength - 8
      let payload := [0x0a] ++ h.serverVersion ++ [0x00]
      let payload := appendUint32LE payload h.connectionID ++ h.authPluginData.take 8 ++ [0x00]
      let payload := appendUint16LE payload capabilities.toUInt16 ++ [charset]
      let payload := appendUint16LE payload status
      let payload := appendUint16LE payload (capabilities >>> 16).toUInt16 ++ [authLength.toUInt8]
      .ok (payload ++ List.replicate 10 0 ++ authPart2 (h.authPluginData.drop 8) part2Length ++
        authPluginName ++ [0x00])

/-! ## Transport, authenticator and handler -/

structure AuthRequest where
  connectionID : UInt32
  username : GoString
  database : GoString
  authPluginName : GoString
  authPluginData : GoString
  authResponse : GoString
  capabilityFlags : UInt32
  characterSet : UInt8
  maxPacketSize : UInt32
  handshakeResponse : HandshakeResponse41
  deriving DecidableEq, Repr

structure AuthDecision where
  accepted : Bool
  username : GoString := []
  database : GoString := []
  roles : List GoString := []
  authPluginName : GoString := []
  failure : ProtocolError := {}
  deriving DecidableEq, Repr

/-- `PacketReadWriter`, on a world. -/
structure PacketReadWriter (ω : Type*) where
  readPacket : ω → Except GoString Packet × ω
  writePacket : Packet → ω → Except GoString Unit × ω

/-- `Authenticator`, on a world. -/
abbrev Authenticator (ω : Type*) := AuthRequest → ω → Except GoString AuthDecision × ω

/-- `CommandHandler`, on a world. -/
abbrev CommandHandler (ω : Type*) := Command → ω → Except GoString CommandResponse × ω

/-- `PermissiveAuthenticator` without a default database. -/
def permissiveAuthenticator {ω : Type*} : Authenticator ω := fun request w =>
  (.ok {
    accepted := true
    username := request.username
    database := trimSpace request.database
    authPluginName := request.authPluginName }, w)

def authRequestFromHandshake (connection : Connection) (response : HandshakeResponse41)
    (authPluginData : GoString) : AuthRequest where
  connectionID := connection.id
  username := response.username
  database := response.database
  authPluginName := response.authPluginName
  authPluginData := authPluginData
  authResponse := response.authResponse
  capabilityFlags := response.capabilityFlags
  characterSet := response.characterSet
  maxPacketSize := response.maxPacketSize
  handshakeResponse := response

/-! ## The runner -/

variable {ω : Type*}

/-- `SessionRunner`; a missing stream, handler or authenticator is nil. -/
structure SessionRunner (ω : Type*) where
  connection : Connection
  handshake : HandshakeV10
  stream : Option (PacketReadWriter ω)
  handler : Option (CommandHandler ω)
  authenticator : Option (Authenticator ω)

structure SessionRunnerConfig (ω : Type*) where
  connectionID : UInt32
  authPluginData : GoString
  handshake : HandshakeV10
  stream : Option (PacketReadWriter ω)
  handler : Option (CommandHandler ω)
  authenticator : Option (Authenticator ω)

/-- `NewSessionRunner`, of a server of this version. -/
def newSessionRunner (mySQLVersion : GoString) (config : SessionRunnerConfig ω) : SessionRunner ω :=
  let connectionID := if config.connectionID = 0 then 1 else config.connectionID
  let authPluginData :=
    if config.authPluginData = [] then ascii "quantastream-auth-v1" else config.authPluginData
  { connection := { id := connectionID }
    handshake :=
      if config.handshake.serverVersion = [] then
        newDefaultHandshake mySQLVersion connectionID authPluginData
      else config.handshake
    stream := config.stream
    handler := config.handler
    authenticator := some (config.authenticator.getD permissiveAuthenticator) }

/-- `writeResponsePackets`: the first packet that is not written ends it. -/
def writeResponsePackets (stream : PacketReadWriter ω) : List Packet → ω → Except GoString Unit × ω
  | [], w => (.ok (), w)
  | packet :: packets, w =>
    match stream.writePacket packet w with
    | (.error e, w) => (.error e, w)
    | (.ok _, w) => writeResponsePackets stream packets w

/-- What a call of the runner leaves: its result, the connection and the world. -/
structure Reply (ω α : Type*) where
  result : Except GoString α
  connection : Connection
  world : ω

variable (r : SessionRunner ω)

def sendHandshake (w : ω) : Reply ω Unit :=
  match r.stream with
  | none => ⟨.error (ascii "mysql session runner stream is nil"), r.connection, w⟩
  | some stream =>
    match r.handshake.payload with
    | .error e => ⟨.error e, r.connection, w⟩
    | .ok payload =>
      match r.connection.withHandshakeSent with
      | .error e => ⟨.error e, r.connection, w⟩
      | .ok connection =>
        match stream.writePacket ⟨0, payload⟩ w with
        | (.error e, w) => ⟨.error e, r.connection, w⟩
        | (.ok _, w) => ⟨.ok (), connection, w⟩

/-- The name of the plugin a response without one is taken to mean. -/
def defaultPluginOf (h : HandshakeV10) (response : HandshakeResponse41) : HandshakeResponse41 :=
  if response.authPluginName = [] then
    { response with
      authPluginName :=
        if h.authPluginName = [] then defaultAuthPluginName else h.authPluginName }
  else response

/-- The end of `AcceptHandshakeResponse` after the authenticator has decided: the answer goes to
the client first, and only then the connection is kept. -/
def concludeAuthentication (stream : PacketReadWriter ω) (current pending : Connection)
    (sequenceID : UInt8) (decision : AuthDecision) (w : ω) : Reply ω CommandResponse :=
  if decision.accepted then
    let connection := { pending with
      username := decision.username
      database := decision.database
      roles := decision.roles
      authPluginName := decision.authPluginName }
    match connection.acceptPermissiveAuth with
    | .error e => ⟨.error e, current, w⟩
    | .ok (connection, authOK) =>
      let packets := clonePacketsWithSequence authOK.packets (sequenceID + 1)
      match writeResponsePackets stream packets w with
      | (.error e, w) => ⟨.error e, current, w⟩
      | (.ok _, w) => ⟨.ok { authOK with packets := packets }, connection, w⟩
  else
    let failure := errorResponse decision.failure
    let packets := clonePacketsWithSequence failure.packets (sequenceID + 1)
    match writeResponsePackets stream packets w with
    | (.error e, w) => ⟨.error e, current, w⟩
    | (.ok _, w) => ⟨.ok { failure with packets := packets }, pending, w⟩

def acceptHandshakeResponse (w : ω) : Reply ω CommandResponse :=
  match r.stream with
  | none => ⟨.error (ascii "mysql session runner stream is nil"), r.connection, w⟩
  | some stream =>
    match stream.readPacket w with
    | (.error e, w) => ⟨.error e, r.connection, w⟩
    | (.ok packet, w) =>
      match decodeHandshakeResponse41 packet.payload with
      | .error e => ⟨.error e, r.connection, w⟩
      | .ok response =>
        let response := defaultPluginOf r.handshake response
        match r.connection.acceptHandshakeResponse response with
        | .error e => ⟨.error e, r.connection, w⟩
        | .ok connection =>
          let authenticate := r.authenticator.getD permissiveAuthenticator
          let request :=
            authRequestFromHandshake connection response r.handshake.authPluginData
          match authenticate request w with
          | (.error e, w) => ⟨.error e, r.connection, w⟩
          | (.ok decision, w) =>
            concludeAuthentication stream r.connection connection packet.sequenceID
              decision w

/-- The command as the handler sees it: with the identity of the connection. -/
def Command.onConnection (command : Command) (c : Connection) : Command :=
  { command with
    connectionID := c.id
    username := c.username
    database := c.database
    roles := c.roles }

/-- `CommandLoop.ServeNext`, on a connection. -/
def serveNext (stream : PacketReadWriter ω) (handle : CommandHandler ω) (c : Connection) (w : ω) :
    Except GoString CommandResponse × ω :=
  match stream.readPacket w with
  | (.error e, w) => (.error e, w)
  | (.ok packet, w) =>
    match decodeCommand packet.payload with
    | .error e =>
      let response := errorResponseFromError e
      match writeResponsePackets stream response.packets w with
      | (.error e, w) => (.error e, w)
      | (.ok _, w) => (.ok response, w)
    | .ok command =>
      let handled := handle (command.onConnection c) w
      let response :=
        match handled.1 with
        | .error e => errorResponseFromError e
        | .ok response => response
      let response := response.withCapabilities c.capabilityFlags
      match writeResponsePackets stream response.packets handled.2 with
      | (.error e, w) => (.error e, w)
      | (.ok _, w) => (.ok response, w)

def serveNextCommand (w : ω) : Reply ω CommandResponse :=
  match r.stream with
  | none => ⟨.error (ascii "mysql session runner stream is nil"), r.connection, w⟩
  | some stream =>
    match r.handler with
    | none => ⟨.error (ascii "mysql session runner handler is nil"), r.connection, w⟩
    | some handle =>
      if r.connection.canAcceptCommand then
        match serveNext stream handle r.connection w with
        | (.error e, w) => ⟨.error e, r.connection, w⟩
        | (.ok response, w) =>
          ⟨.ok response,
            if response.close then r.connection.withClosing else r.connection, w⟩
      else
        ⟨.error (ascii
          s!"mysql connection is not ready for commands: {r.connection.state.text}"),
          r.connection, w⟩

/-- The loop of `Serve` for at most so many commands. -/
def serveCommands : ℕ → SessionRunner ω → ω → Reply ω Unit
  | 0, r, w => ⟨.ok (), r.connection, w⟩
  | n + 1, r, w =>
    let reply := serveNextCommand r w
    match reply.result with
    | .error e => ⟨.error e, reply.connection, reply.world⟩
    | .ok response =>
      if response.close = true ∨ reply.connection.state = .closing then
        ⟨.ok (), reply.connection, reply.world⟩
      else serveCommands n { r with connection := reply.connection } reply.world

/-- `Serve`, up to so many commands. -/
def serve (n : ℕ) (r : SessionRunner ω) (w : ω) : Reply ω Unit :=
  let sent := sendHandshake r w
  match sent.result with
  | .error e => ⟨.error e, sent.connection, sent.world⟩
  | .ok _ =>
    let auth := acceptHandshakeResponse { r with connection := sent.connection } sent.world
    match auth.result with
    | .error e => ⟨.error e, auth.connection, auth.world⟩
    | .ok response =>
      if response.kind = .error then
        ⟨.ok (), auth.connection.withClosing, auth.world⟩
      else serveCommands n { r with connection := auth.connection } auth.world

inductive Call where
  | sendHandshake
  | acceptHandshakeResponse
  | serveNextCommand
  | serve (commands : ℕ)
  deriving DecidableEq, Repr

/-- A call changes the connection of the runner and the world. -/
def callStep (s : SessionRunner ω × ω) : Call → SessionRunner ω × ω
  | .sendHandshake =>
    let reply := sendHandshake s.1 s.2
    ({ s.1 with connection := reply.connection }, reply.world)
  | .acceptHandshakeResponse =>
    let reply := acceptHandshakeResponse s.1 s.2
    ({ s.1 with connection := reply.connection }, reply.world)
  | .serveNextCommand =>
    let reply := serveNextCommand s.1 s.2
    ({ s.1 with connection := reply.connection }, reply.world)
  | .serve n =>
    let reply := serve n s.1 s.2
    ({ s.1 with connection := reply.connection }, reply.world)

end QuantaStream.MySQL
