import QuantaStream.Lib.JsonText
import QuantaStream.Lib.Sha256

/-!
# Records and frames of the local write-ahead log

A record of the log is written as a frame: the record as JSON, with a format name before it and
the SHA-256 checksum of the record's own JSON after it.  Reading a frame checks all three.
-/

namespace QuantaStream.Core

open GoString Json List

/-! ## Times -/

structure Timestamp where
  year : ℕ
  month : ℕ
  day : ℕ
  hour : ℕ
  minute : ℕ
  second : ℕ
  nanosecond : ℕ
  deriving DecidableEq, Repr

def Timestamp.zero : Timestamp := ⟨1, 1, 1, 0, 0, 0, 0⟩

def padded (count n : ℕ) : GoString :=
  (List.range count).map (fun i => (48 + n / 10 ^ (count - 1 - i) % 10).toUInt8)

/-- The fraction of a second, without trailing zeros. -/
def fraction (nanosecond : ℕ) : GoString :=
  if nanosecond = 0 then []
  else 46 :: ((padded 9 nanosecond).reverse.dropWhile (· = 48)).reverse

/-- `Format` with `RFC3339Nano`. -/
def formatTime (t : Timestamp) : GoString :=
  padded 4 t.year ++ [45] ++ padded 2 t.month ++ [45] ++ padded 2 t.day ++ [84] ++
    padded 2 t.hour ++ [58] ++ padded 2 t.minute ++ [58] ++ padded 2 t.second ++
    fraction t.nanosecond ++ [90]

/-- `Time.MarshalJSON`. -/
def marshalTime (t : Timestamp) : Except String GoString :=
  if t.year ≤ 9999 then .ok (34 :: formatTime t ++ [34])
  else .error "Time.MarshalJSON: year outside of range [0,9999]"

def daysIn (month year : ℕ) : ℕ :=
  if month = 2 then
    if year % 4 = 0 ∧ (year % 100 ≠ 0 ∨ year % 400 = 0) then 29 else 28
  else if month = 4 ∨ month = 6 ∨ month = 9 ∨ month = 11 then 30
  else 31

/-- The fraction of a second up to the end of a time, in nanoseconds. -/
def parseFraction (s : GoString) : Option ℕ :=
  match s with
  | [90] => some 0
  | 46 :: rest =>
    if rest.getLast? = some 90 then
      (parseDigits rest.dropLast).bind fun _ =>
        parseDigits ((rest.dropLast ++ List.replicate 9 48).take 9)
    else none
  | _ => none

/-- `Time.UnmarshalJSON` on the text between the quotes, for times in UTC. -/
def parseTime (s : GoString) : Option Timestamp :=
  match s with
  | y₁ :: y₂ :: y₃ :: y₄ :: 45 :: m₁ :: m₂ :: 45 :: d₁ :: d₂ :: 84 :: h₁ :: h₂ :: 58 :: n₁ :: n₂ ::
      58 :: s₁ :: s₂ :: rest => do
      let year ← parseDigits [y₁, y₂, y₃, y₄]
      let month ← parseDigits [m₁, m₂]
      let day ← parseDigits [d₁, d₂]
      let hour ← parseDigits [h₁, h₂]
      let minute ← parseDigits [n₁, n₂]
      let second ← parseDigits [s₁, s₂]
      let nanosecond ← parseFraction rest
      if 1 ≤ month ∧ month ≤ 12 ∧ 1 ≤ day ∧ day ≤ daysIn month year ∧ hour < 24 ∧ minute < 60 ∧
          second < 60 then
        some ⟨year, month, day, hour, minute, second, nanosecond⟩
      else none
  | _ => none

/-! ## Records -/

def localWALFormat : GoString := ascii "quantastream-local-wal"

def localWALVersion : ℤ := 1

def kindPutRow : GoString := ascii "put_row"

def kindUpdateRow : GoString := ascii "update_row"

def kindCommit : GoString := ascii "commit"

structure LocalWALRecord where
  version : ℤ := 0
  lsn : ℕ := 0
  timestamp : Timestamp := .zero
  transaction : GoString := []
  statement : GoString := []
  operationID : GoString := []
  kind : GoString := []
  table : GoString := []
  payload : GoString := []
  deriving DecidableEq, Repr

structure LocalWALFrame where
  format : GoString := []
  record : LocalWALRecord := {}
  sha256 : GoString := []
  deriving DecidableEq, Repr

variable (r : LocalWALRecord)

def validateLocalWALRecord : Except String Unit :=
  if r.version ≠ localWALVersion then .error s!"unsupported WAL record version {r.version}"
  else if r.lsn = 0 then .error "WAL record LSN is required"
  else if trimSpace r.kind = [] then .error "WAL record kind is required"
  else if trimSpace r.operationID = [] then .error "WAL record operation_id is required"
  else if r.payload = [] then .error "WAL record payload is required"
  else if !valid r.payload then .error "WAL record payload is not valid JSON"
  else .ok ()

/-! ## Writing -/

def field (key : String) (value : GoString) : GoString :=
  34 :: ascii key ++ [34, 58] ++ value

/-- A field that is left out when its string is empty. -/
def optionalField (key : String) (value : GoString) : GoString :=
  if value = [] then [] else 44 :: field key (quote value)

/-- The JSON of a record, from that of its time and its payload. -/
def recordText (timestamp payload : GoString) : GoString :=
  123 :: field "version" (decimalInt r.version) ++ 44 :: field "lsn" (decimal r.lsn) ++
    44 :: field "timestamp" timestamp ++ optionalField "transaction" r.transaction ++
    optionalField "statement" r.statement ++ 44 :: field "operation_id" (quote r.operationID) ++
    44 :: field "kind" (quote r.kind) ++ optionalField "table" r.table ++
    44 :: field "payload" payload ++ [125]

/-- `Marshal` of a record. -/
def marshalRecord : Except String GoString :=
  match marshalTime r.timestamp with
  | .error e => .error e
  | .ok timestamp =>
    match compact r.payload with
    | none => .error "json: error calling MarshalJSON for type json.RawMessage"
    | some payload => .ok (recordText r timestamp payload)

variable (f : LocalWALFrame)

/-- The JSON of a frame, from that of its record. -/
def frameText (record : GoString) : GoString :=
  123 :: field "format" (quote f.format) ++ 44 :: field "record" record ++
    44 :: field "sha256" (quote f.sha256) ++ [125]

/-- `Marshal` of a frame. -/
def marshalFrame : Except String GoString :=
  (marshalRecord f.record).map (frameText f)

def localWALRecordChecksum : Except String GoString :=
  match marshalRecord r with
  | .error e => .error s!"marshal WAL record for checksum: {e}"
  | .ok data => .ok (Sha256.encodeToString (Sha256.sum256 data))

def newLocalWALFrame : Except String LocalWALFrame :=
  (localWALRecordChecksum r).map (fun checksum => ⟨localWALFormat, r, checksum⟩)

/-! ## Reading -/

/-- The text of `null`, which leaves most fields unchanged. -/
def null : GoString := ascii "null"

def readString (text old : GoString) : Except String GoString :=
  if text = null then .ok old
  else
    match unquote text with
    | some s => .ok s
    | none => .error "json: cannot unmarshal value of type string"

def readTime (text : GoString) (old : Timestamp) : Except String Timestamp :=
  if text = null then .ok old
  else
    match text with
    | 34 :: rest =>
      if rest.getLast? = some 34 then
        match parseTime rest.dropLast with
        | some t => .ok t
        | none => .error "parsing time"
      else .error "Time.UnmarshalJSON: input is not a JSON string"
    | _ => .error "Time.UnmarshalJSON: input is not a JSON string"

/-- A key of an object as struct fields are matched: without regard to case. -/
def foldKey (key : GoString) : GoString :=
  (runes key).flatMap fun r =>
    match r.1 with
    | some c =>
      if c.toNat = 0x17F then [83]
      else if c.toNat = 0x212A then [75]
      else String.utf8EncodeChar c.toUpper
    | none => r.2

/-- The name of a field that a key in an object stands for. -/
def matchKey (key : GoString) (name : String) : Bool :=
  foldKey key = foldKey (ascii name)

def readRecordField (r : LocalWALRecord) (f : GoString × GoString) : Except String LocalWALRecord :=
  match unquote f.1 with
  | none => .error "invalid character in string literal"
  | some key =>
    if matchKey key "version" then
      if f.2 = null then .ok r
      else
        match parseInt f.2 with
        | some version => .ok { r with version := version }
        | none => .error "json: cannot unmarshal value of type int"
    else if matchKey key "lsn" then
      if f.2 = null then .ok r
      else
        match parseUint f.2 with
        | some lsn => .ok { r with lsn := lsn }
        | none => .error "json: cannot unmarshal value of type uint64"
    else if matchKey key "timestamp" then
      (readTime f.2 r.timestamp).map (fun t => { r with timestamp := t })
    else if matchKey key "transaction" then
      (readString f.2 r.transaction).map (fun s => { r with transaction := s })
    else if matchKey key "statement" then
      (readString f.2 r.statement).map (fun s => { r with statement := s })
    else if matchKey key "operation_id" then
      (readString f.2 r.operationID).map (fun s => { r with operationID := s })
    else if matchKey key "kind" then
      (readString f.2 r.kind).map (fun s => { r with kind := s })
    else if matchKey key "table" then
      (readString f.2 r.table).map (fun s => { r with table := s })
    else if matchKey key "payload" then .ok { r with payload := f.2 }
    else .ok r

/-- Read an object into a structure, field by field. -/
def readObject {α : Type} (read : α → GoString × GoString → Except String α) (text : GoString)
    (old : α) : Except String α :=
  match objectFields text with
  | some fields => fields.foldlM read old
  | none =>
    if valid text ∧ trimSpace text = null then .ok old
    else .error "json: cannot unmarshal value of type struct"

def readFrameField (frame : LocalWALFrame) (f : GoString × GoString) :
    Except String LocalWALFrame :=
  match unquote f.1 with
  | none => .error "invalid character in string literal"
  | some key =>
    if matchKey key "format" then
      (readString f.2 frame.format).map (fun s => { frame with format := s })
    else if matchKey key "record" then
      (readObject readRecordField f.2 frame.record).map (fun r => { frame with record := r })
    else if matchKey key "sha256" then
      (readString f.2 frame.sha256).map (fun s => { frame with sha256 := s })
    else .ok frame

/-- `Unmarshal` of a frame. -/
def unmarshalFrame (text : GoString) : Except String LocalWALFrame :=
  readObject readFrameField text {}

def validateLocalWALFrame : Except String Unit :=
  if f.format ≠ localWALFormat then .error "unsupported WAL format"
  else
    match validateLocalWALRecord f.record with
    | .error e => .error e
    | .ok () =>
      match localWALRecordChecksum f.record with
      | .error e => .error e
      | .ok checksum =>
        if checksum ≠ f.sha256 then .error s!"checksum mismatch for lsn={f.record.lsn}"
        else .ok ()

/-! ## One line -/

theorem padded_no_newline (count n : ℕ) : 10 ∉ padded count n := by
  intro h
  rcases mem_map.mp h with ⟨i, -, heq⟩
  exact toUInt8_ne_newline (by omega) (by omega) heq.symm

theorem fraction_no_newline (n : ℕ) : 10 ∉ fraction n := by
  unfold fraction
  split_ifs
  · exact not_mem_nil
  · refine not_mem_cons_of_ne_of_not_mem (by decide) fun h => padded_no_newline 9 n ?_
    exact mem_reverse.mp ((dropWhile_sublist _).mem (mem_reverse.mp h))

variable {text : GoString}

theorem marshalTime_no_newline {t : Timestamp} (h : marshalTime t = .ok text) : 10 ∉ text := by
  unfold marshalTime at h
  split_ifs at h
  obtain rfl := Except.ok.inj h
  simp [formatTime, padded_no_newline, fraction_no_newline]

theorem decimalInt_no_newline (n : ℤ) : 10 ∉ decimalInt n := by
  unfold decimalInt
  split_ifs
  · exact not_mem_cons_of_ne_of_not_mem (by decide) (decimal_no_newline _)
  · exact decimal_no_newline _

theorem field_no_newline {key : String} (hkey : 10 ∉ ascii key) {value : GoString}
    (hvalue : 10 ∉ value) : 10 ∉ field key value := by
  simp [field, hkey, hvalue]

theorem optionalField_no_newline {key : String} (hkey : 10 ∉ ascii key) (value : GoString) :
    10 ∉ optionalField key value := by
  unfold optionalField
  split_ifs
  · exact not_mem_nil
  · exact not_mem_cons_of_ne_of_not_mem (by decide)
      (field_no_newline hkey (quote_no_newline value))

theorem marshalRecord_no_newline {r : LocalWALRecord} (h : marshalRecord r = .ok text) :
    10 ∉ text := by
  unfold marshalRecord at h
  cases htime : marshalTime r.timestamp with
  | error e => simp [htime] at h
  | ok timestamp =>
    cases hpayload : compact r.payload with
    | none => simp [htime, hpayload] at h
    | some payload =>
      simp only [htime, hpayload, Except.ok.injEq] at h
      subst h
      have hversion : 10 ∉ field "version" (decimalInt r.version) :=
        field_no_newline (by decide) (decimalInt_no_newline _)
      have hlsn : 10 ∉ field "lsn" (decimal r.lsn) :=
        field_no_newline (by decide) (decimal_no_newline _)
      have htimestamp : 10 ∉ field "timestamp" timestamp :=
        field_no_newline (by decide) (marshalTime_no_newline htime)
      have htransaction : 10 ∉ optionalField "transaction" r.transaction :=
        optionalField_no_newline (by decide) _
      have hstatement : 10 ∉ optionalField "statement" r.statement :=
        optionalField_no_newline (by decide) _
      have hoperation : 10 ∉ field "operation_id" (quote r.operationID) :=
        field_no_newline (by decide) (quote_no_newline _)
      have hkind : 10 ∉ field "kind" (quote r.kind) :=
        field_no_newline (by decide) (quote_no_newline _)
      have htable : 10 ∉ optionalField "table" r.table :=
        optionalField_no_newline (by decide) _
      have hcompact : 10 ∉ field "payload" payload :=
        field_no_newline (by decide) (compactFrom_no_newline hpayload)
      simp [recordText, hversion, hlsn, htimestamp, htransaction, hstatement, hoperation,
        hkind, htable, hcompact]

/-- The text of a frame is one line between braces. -/
theorem marshalFrame_line {f : LocalWALFrame} (h : marshalFrame f = .ok text) :
    10 ∉ text ∧ ∃ mid, text = 123 :: mid ++ [125] := by
  unfold marshalFrame at h
  cases hrecord : marshalRecord f.record with
  | error e => simp [hrecord, Except.map] at h
  | ok record =>
    simp only [hrecord, Except.map, Except.ok.injEq] at h
    subst h
    have hformat : 10 ∉ field "format" (quote f.format) :=
      field_no_newline (by decide) (quote_no_newline _)
    have hrecordField : 10 ∉ field "record" record :=
      field_no_newline (by decide) (marshalRecord_no_newline hrecord)
    have hsha : 10 ∉ field "sha256" (quote f.sha256) :=
      field_no_newline (by decide) (quote_no_newline _)
    exact ⟨by simp [frameText, hformat, hrecordField, hsha], _, rfl⟩

end QuantaStream.Core
