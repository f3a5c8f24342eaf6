import QuantaStream.MySQL.Packet

/-!
# MySQL commands and responses

The payload of a command packet starts with a byte that names the command.  This module models the
decoding of commands and the encoding of the responses that do not carry rows.
-/

namespace QuantaStream.MySQL

open GoString

/-! ## Commands -/

inductive CommandKind where
  | query
  | fieldList
  | stmtPrepare
  | stmtExecute
  | stmtSendLongData
  | stmtClose
  | stmtReset
  | ping
  | quit
  deriving DecidableEq, Repr

structure PreparedExecuteCommand where
  statementID : UInt32 := 0
  flags : UInt8 := 0
  iterationCount : UInt32 := 0
  parameterPayload : GoString := []
  deriving DecidableEq, Repr

structure PreparedLongDataCommand where
  statementID : UInt32 := 0
  parameterID : UInt16 := 0
  data : GoString := []
  deriving DecidableEq, Repr

structure Command where
  kind : CommandKind
  sql : GoString := []
  table : GoString := []
  fieldPattern : GoString := []
  statementID : UInt32 := 0
  execute : PreparedExecuteCommand := {}
  longData : PreparedLongDataCommand := {}
  connectionID : UInt32 := 0
  username : GoString := []
  database : GoString := []
  roles : List GoString := []
  deriving DecidableEq, Repr

def hexByte (b : UInt8) : GoString := [hexDigit (b.toNat / 16), hexDigit (b.toNat % 16)]

variable (payload : GoString)

/-- `DecodePreparedExecuteCommand`, of a payload with its command byte. -/
def decodePreparedExecuteCommand : Except GoString PreparedExecuteCommand :=
  if payload.length < 10 then
    .error (ascii s!"COM_STMT_EXECUTE payload too short: {payload.length} bytes")
  else
    .ok {
      statementID := readUint32LE ((payload.drop 1).take 4)
      flags := (payload.drop 5).headD 0
      iterationCount := readUint32LE ((payload.drop 6).take 4)
      parameterPayload := payload.drop 10 }

/-- `DecodePreparedLongDataCommand`, of a payload with its command byte. -/
def decodePreparedLongDataCommand : Except GoString PreparedLongDataCommand :=
  if payload.length < 7 then
    .error (ascii s!"COM_STMT_SEND_LONG_DATA payload too short: {payload.length} bytes")
  else
    .ok {
      statementID := readUint32LE ((payload.drop 1).take 4)
      parameterID := readUint16LE ((payload.drop 5).take 2)
      data := payload.drop 7 }

/-- `decodeFieldListCommand`: the table name and the pattern. -/
def decodeFieldListCommand : Except GoString (GoString × GoString) :=
  if payload.length < 3 then .error (ascii "COM_FIELD_LIST requires table name and terminator")
  else
    let body := payload.drop 1
    match body.findIdx? (· = 0) with
    | none => .error (ascii "COM_FIELD_LIST table name must be null-terminated")
    | some terminator =>
      let table := trimSpace (body.take terminator)
      if table = [] then .error (ascii "COM_FIELD_LIST requires table name")
      else .ok (table, body.drop (terminator + 1))

variable (commandName : String)

/-- `decodeStatementIDCommand`, for the command of this name. -/
def decodeStatementIDCommand (payload : GoString) : Except GoString UInt32 :=
  if payload.length ≠ 5 then .error (ascii s!"{commandName} payload must include only a statement id")
  else .ok (readUint32LE ((payload.drop 1).take 4))

/-- The text after the command byte of a query or a prepare. -/
def decodeSQLText (payload : GoString) : Except GoString GoString :=
  let sql := payload.drop 1
  if trimSpace sql = [] then .error (ascii s!"{commandName} requires SQL text") else .ok sql

def decodeBareCommand (kind : CommandKind) (payload : GoString) : Except GoString Command :=
  if payload.length ≠ 1 then .error (ascii s!"{commandName} payload must not include arguments")
  else .ok { kind := kind }

def decodeCommand : Except GoString Command :=
  match payload with
  | [] => .error (ascii "mysql command payload is empty")
  | command :: _ =>
    if command = 0x03 then
      (decodeSQLText "COM_QUERY" payload).map fun sql => { kind := .query, sql := sql }
    else if command = 0x04 then
      (decodeFieldListCommand payload).map fun r =>
        { kind := .fieldList, table := r.1, fieldPattern := r.2 }
    else if command = 0x16 then
      (decodeSQLText "COM_STMT_PREPARE" payload).map fun sql => { kind := .stmtPrepare, sql := sql }
    else if command = 0x17 then
      (decodePreparedExecuteCommand payload).map fun execute =>
        { kind := .stmtExecute, statementID := execute.statementID, execute := execute }
    else if command = 0x18 then
      (decodePreparedLongDataCommand payload).map fun longData =>
        { kind := .stmtSendLongData, statementID := longData.statementID, longData := longData }
    else if command = 0x19 then
      (decodeStatementIDCommand "COM_STMT_CLOSE" payload).map fun statementID =>
        { kind := .stmtClose, statementID := statementID }
    else if command = 0x1a then
      (decodeStatementIDCommand "COM_STMT_RESET" payload).map fun statementID =>
        { kind := .stmtReset, statementID := statementID }
    else if command = 0x0e then decodeBareCommand "COM_PING" .ping payload
    else if command = 0x01 then decodeBareCommand "COM_QUIT" .quit payload
    else .error (ascii "unsupported mysql command byte 0x" ++ hexByte command)

/-- A payload that starts with an unknown command byte is refused, whatever follows. -/
theorem decodeCommand_zero (rest : GoString) :
    decodeCommand (0 :: rest) = .error (ascii "unsupported mysql command byte 0x00") := by
  rfl

/-! ## Responses -/

/-- `ProtocolError`, as far as it is written to the client. -/
structure ProtocolError where
  sqlState : GoString := []
  vendorCode : Int := 0
  message : GoString := []
  deriving DecidableEq, Repr

/-- `StatementResult`, as far as it is written to the client. -/
structure StatementResult where
  affectedRows : UInt64 := 0
  lastInsertID : UInt64 := 0
  warnings : UInt16 := 0
  status : GoString := []
  deriving DecidableEq, Repr

inductive CommandResponseKind where
  | query
  | fieldList
  | prepared
  | ok
  | error
  | noResponse
  | close
  deriving DecidableEq, Repr

structure CommandResponse where
  kind : CommandResponseKind
  packets : List Packet := []
  close : Bool := false
  statement : Option StatementResult := none
  protocolError : Option ProtocolError := none
  deriving DecidableEq, Repr

def capabilityLongPassword : UInt32 := 0x00000001

def capabilityConnectWithDB : UInt32 := 0x00000008

def capabilityProtocol41 : UInt32 := 0x00000200

def capabilitySecureConnection : UInt32 := 0x00008000

def capabilityPluginAuth : UInt32 := 0x00080000

def capabilitySessionTrack : UInt32 := 0x00800000

def statusAutocommit : UInt16 := 0x0002

def sqlStateGeneralError : GoString := ascii "HY000"

def okPayloadWithCapabilities (statement : StatementResult) (capabilities : UInt32) : GoString :=
  let payload := appendLengthEncodedInteger [0x00] statement.affectedRows
  let payload := appendLengthEncodedInteger payload statement.lastInsertID
  let payload := appendUint16LE payload statusAutocommit
  let payload := appendUint16LE payload statement.warnings
  if statement.status ≠ [] ∨ capabilities &&& capabilitySessionTrack ≠ 0 then
    appendLengthEncodedString payload statement.status
  else payload

def normalizedSQLState (sqlState : GoString) : GoString :=
  let value := trimSpace sqlState
  if value.length ≠ 5 then sqlStateGeneralError else value

def errPayload (protocolError : ProtocolError) : GoString :=
  let vendorCode := if protocolError.vendorCode = 0 then 1105 else protocolError.vendorCode
  let message :=
    if protocolError.message = [] then ascii "unknown error" else protocolError.message
  appendUint16LE [0xff] (UInt16.ofInt vendorCode) ++ ascii "#" ++
    normalizedSQLState protocolError.sqlState ++ message

def statementOKResponse (statement : StatementResult) : CommandResponse :=
  { kind := .ok, packets := [⟨1, okPayloadWithCapabilities statement 0⟩], statement := some statement }

def CommandResponse.withCapabilities (r : CommandResponse) (capabilities : UInt32) :
    CommandResponse :=
  if r.kind ≠ .ok then r
  else
    match r.statement with
    | some statement =>
      let sequenceID := (r.packets.head?.map Packet.sequenceID).getD 1
      { r with packets := [⟨sequenceID, okPayloadWithCapabilities statement capabilities⟩] }
    | none =>
      if capabilities &&& capabilitySessionTrack = 0 then r
      else
        { r with packets := r.packets.map fun packet =>
            if packet.payload.length = 7 ∧ packet.payload.head? = some 0x00 then
              { packet with payload := packet.payload ++ [0] }
            else packet }

def authSuccessResponse (capabilities : UInt32) : CommandResponse :=
  (statementOKResponse {}).withCapabilities capabilities

def errorResponse (protocolError : ProtocolError) : CommandResponse :=
  { kind := .error, packets := [⟨1, errPayload protocolError⟩], protocolError := some protocolError }

def errorResponseFromError (message : GoString) : CommandResponse :=
  errorResponse { sqlState := sqlStateGeneralError, vendorCode := 1105, message := message }

def clonePacketsWithSequence (packets : List Packet) (sequenceID : UInt8) : List Packet :=
  packets.mapIdx fun i packet => ⟨sequenceID + i.toUInt8, packet.payload⟩

end QuantaStream.MySQL
