import QuantaStream.Core.LocalWAL
import QuantaStream.Core.PrimaryKey

/-!
# Payloads of the log

What the log keeps of a put or an update is its payload: the table, the row and the options, as
JSON.  Reading a payload does not give back every value as it was: JSON has one kind of numbers,
and only valid text.
-/

namespace QuantaStream.Core

open GoString

/-! ## Values -/

inductive Value where
  | null
  | bool (b : Bool)
  | int (n : ℤ)
  | float (x : Rat)
  | text (s : GoString)
  | array (items : List Value)
  | object (fields : List (GoString × Value))

/-- The float next to an integer beyond the range of `int64`, as 53 bits hold it. -/
def nearestFloat (n : ℤ) : Rat :=
  let q := n / 2048
  let r := n % 2048
  if r < 1024 ∨ (r = 1024 ∧ q % 2 = 0) then (q * 2048 : ℤ) else ((q + 1) * 2048 : ℤ)

/-- `normalizeLocalWALJSONValue` of a number that is written without a point or an exponent. -/
def readInteger (n : ℤ) : Value :=
  if -2 ^ 63 ≤ n ∧ n < 2 ^ 63 then .int n else .float (nearestFloat n)

/-- A float is written without a point or an exponent if it is a moderate integer. -/
def recodeFloat (x : Rat) : Value :=
  if x.den = 1 ∧ x.num.natAbs < 10 ^ 21 then
    if -2 ^ 63 ≤ x.num ∧ x.num < 2 ^ 63 then .int x.num else .float x
  else .float x

/-- Text is written as valid UTF-8: other bytes are replaced. -/
def recodeText (s : GoString) : GoString :=
  (runes s).flatMap fun r =>
    match r.1 with
    | some _ => r.2
    | none => [0xEF, 0xBF, 0xBD]

mutual

/-- A value that was written as JSON, read again and normalised by
`normalizeLocalWALJSONValue`. -/
def Value.recode : Value → Value
  | .null => .null
  | .bool b => .bool b
  | .int n => readInteger n
  | .float x => recodeFloat x
  | .text s => .text (recodeText s)
  | .array items => .array (recodeItems items)
  | .object fields => .object (recodeFields fields)

def recodeItems : List Value → List Value
  | [] => []
  | item :: items => item.recode :: recodeItems items

def recodeFields : List (GoString × Value) → List (GoString × Value)
  | [] => []
  | (key, value) :: fields => (recodeText key, value.recode) :: recodeFields fields

end

/-! ## Requests -/

/-- A row as it is given to be put, with the way its columns are found in it. -/
structure SourceRow where
  value : Value
  ignoreSourcePath : Bool := false
  useNerdCapitalization : Bool := false

/-- `putRowWALPayload`. -/
structure PutRequest (T : Type) where
  table : T
  row : SourceRow
  providedColumnID : ℕ := 0
  primaryKeyMode : PrimaryKeyMode := .verifyExisting

/-- `updateRowWALPayload`. -/
structure UpdateRequest (T F : Type) where
  table : T
  columnID : ℕ
  values : GoMap F Value

def PutRequest.recode {T : Type} (req : PutRequest T) : PutRequest T :=
  { req with row := { req.row with value := req.row.value.recode } }

def UpdateRequest.recode {T F : Type} [DecidableEq F] (req : UpdateRequest T F) :
    UpdateRequest T F :=
  { req with
    values := (req.values.range .asKept).foldl (fun m e => m.insert e.1 e.2.recode) ∅ }

/-- What a record of the log stands for. -/
inductive LoggedCall (T F : Type) where
  | put (req : PutRequest T)
  | update (req : UpdateRequest T F)
  | commit

def LoggedCall.recode {T F : Type} [DecidableEq F] : LoggedCall T F → LoggedCall T F
  | .put req => .put req.recode
  | .update req => .update req.recode
  | .commit => .commit

def LoggedCall.kind {T F : Type} : LoggedCall T F → GoString
  | .put _ => kindPutRow
  | .update _ => kindUpdateRow
  | .commit => kindCommit

/-- A record of the log, with the call whose payload it holds. -/
structure LogEntry (T F : Type) where
  record : LocalWALRecord
  call : LoggedCall T F

end QuantaStream.Core
