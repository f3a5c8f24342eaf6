import QuantaStream.Lib.GoString

/-!
# Scanning JSON

The standard library reads JSON with a state machine that takes one byte at a time and keeps a
stack of the objects and arrays it is in.  Validity, compaction and the fields of an object are
loops of this machine over a text.

Main results:

- `compact_no_newline`: a compact text has one line.
-/

namespace Json

open GoString (hexDigit)

/-! ## The machine -/

/-- The states of the machine: what it has read of the value it is in. -/
inductive ScanState where
  | beginValueOrEmpty | beginValue | beginStringOrEmpty | beginString | endValue | endTop
  | inString | inStringEsc | inStringEscU | inStringEscU1 | inStringEscU12 | inStringEscU123
  | neg | one | zero | dot | dot0 | e | eSign | e0
  | t | tr | tru | f | fa | fal | fals | n | nu | nul
  deriving DecidableEq, Repr

/-- What an open object or array waits for. -/
inductive ParseState where
  | objectKey | objectValue | arrayValue
  deriving DecidableEq, Repr

/-- What the machine says about a byte. -/
inductive ScanOp where
  | continue | beginLiteral | beginObject | objectKey | objectValue | endObject | beginArray
  | arrayValue | endArray | skipSpace | end
  deriving DecidableEq, Repr

structure Scanner where
  state : ScanState := .beginValue
  parseState : List ParseState := []
  deriving DecidableEq, Repr

open Scanner

/-- Objects and arrays may be nested this deep. -/
def maxNestingDepth : ℕ := 10000

def isSpace (c : UInt8) : Bool := c ∈ [32, 9, 13, 10]

def isDigit (c : UInt8) : Bool := 48 ≤ c && c ≤ 57

def isHexDigit (c : UInt8) : Bool :=
  isDigit c || (97 ≤ c && c ≤ 102) || (65 ≤ c && c ≤ 70)

namespace Scanner

variable (s : Scanner)

def go (state : ScanState) (op : ScanOp) : Option (Scanner × ScanOp) :=
  some ({ s with state := state }, op)

def push (state : ScanState) (p : ParseState) (op : ScanOp) : Option (Scanner × ScanOp) :=
  if s.parseState.length + 1 ≤ maxNestingDepth then some (⟨state, p :: s.parseState⟩, op) else none

/-- `popParseState`, on the rest of the stack. -/
def pop (rest : List ParseState) (op : ScanOp) : Option (Scanner × ScanOp) :=
  some (⟨if rest = [] then .endTop else .endValue, rest⟩, op)

variable (c : UInt8)

def endTop : Option (Scanner × ScanOp) :=
  if isSpace c then s.go .endTop .end else none

def endValue : Option (Scanner × ScanOp) :=
  match s.parseState with
  | [] => endTop s c
  | p :: rest =>
    if isSpace c then s.go .endValue .skipSpace
    else
      match p with
      | .objectKey =>
        if c = 58 then some (⟨.beginValue, .objectValue :: rest⟩, .objectKey) else none
      | .objectValue =>
        if c = 44 then some (⟨.beginString, .objectKey :: rest⟩, .objectValue)
        else if c = 125 then pop rest .endObject
        else none
      | .arrayValue =>
        if c = 44 then s.go .beginValue .arrayValue
        else if c = 93 then pop rest .endArray
        else none

def beginValue : Option (Scanner × ScanOp) :=
  if isSpace c then s.go s.state .skipSpace
  else if c = 123 then s.push .beginStringOrEmpty .objectKey .beginObject
  else if c = 91 then s.push .beginValueOrEmpty .arrayValue .beginArray
  else if c = 34 then s.go .inString .beginLiteral
  else if c = 45 then s.go .neg .beginLiteral
  else if c = 48 then s.go .zero .beginLiteral
  else if c = 116 then s.go .t .beginLiteral
  else if c = 102 then s.go .f .beginLiteral
  else if c = 110 then s.go .n .beginLiteral
  else if isDigit c then s.go .one .beginLiteral
  else none

def beginString : Option (Scanner × ScanOp) :=
  if isSpace c then s.go s.state .skipSpace
  else if c = 34 then s.go .inString .beginLiteral
  else none

def expect (ok : Bool) (state : ScanState) : Option (Scanner × ScanOp) :=
  if ok then s.go state .continue else none

/-- `state0`. -/
def zero : Option (Scanner × ScanOp) :=
  if c = 46 then s.go .dot .continue
  else if c = 101 ∨ c = 69 then s.go .e .continue
  else endValue s c

/-- One step of the machine: the scanner after a byte and what the byte is, or an error. -/
def step : Option (Scanner × ScanOp) :=
  match s.state with
  | .beginValueOrEmpty =>
    if isSpace c then s.go s.state .skipSpace
    else if c = 93 then endValue s c
    else beginValue s c
  | .beginValue => beginValue s c
  | .beginStringOrEmpty =>
    if isSpace c then s.go s.state .skipSpace
    else if c = 125 then endValue { s with parseState := .objectValue :: s.parseState.tail } c
    else beginString s c
  | .beginString => beginString s c
  | .endValue => endValue s c
  | .endTop => endTop s c
  | .inString =>
    if c = 34 then s.go .endValue .continue
    else if c = 92 then s.go .inStringEsc .continue
    else if c < 32 then none
    else s.go .inString .continue
  | .inStringEsc =>
    if c = 117 then s.go .inStringEscU .continue
    else expect s (c ∈ [98, 102, 110, 114, 116, 92, 47, 34]) .inString
  | .inStringEscU => expect s (isHexDigit c) .inStringEscU1
  | .inStringEscU1 => expect s (isHexDigit c) .inStringEscU12
  | .inStringEscU12 => expect s (isHexDigit c) .inStringEscU123
  | .inStringEscU123 => expect s (isHexDigit c) .inString
  | .neg => if c = 48 then s.go .zero .continue else expect s (isDigit c) .one
  | .one => if isDigit c then s.go .one .continue else zero s c
  | .zero => zero s c
  | .dot => expect s (isDigit c) .dot0
  | .dot0 =>
    if isDigit c then s.go .dot0 .continue
    else if c = 101 ∨ c = 69 then s.go .e .continue
    else endValue s c
  | .e =>
    if c = 43 ∨ c = 45 then s.go .eSign .continue
    else expect s (isDigit c) .e0
  | .eSign => expect s (isDigit c) .e0
  | .e0 => if isDigit c then s.go .e0 .continue else endValue s c
  | .t => expect s (c = 114) .tr
  | .tr => expect s (c = 117) .tru
  | .tru => expect s (c = 101) .endValue
  | .f => expect s (c = 97) .fa
  | .fa => expect s (c = 108) .fal
  | .fal => expect s (c = 115) .fals
  | .fals => expect s (c = 101) .endValue
  | .n => expect s (c = 117) .nu
  | .nu => expect s (c = 108) .nul
  | .nul => expect s (c = 108) .endValue

/-- `eof`: a space would end the text. -/
def eof : Bool :=
  match s.state with
  | .endTop => true
  | _ =>
    match s.step 32 with
    | some (s, _) => s.state = .endTop
    | none => false

end Scanner

/-! ## Loops over a text -/

def scan (s : Scanner) : GoString → Option Scanner
  | [] => some s
  | c :: rest => (s.step c).bind (fun r => scan r.1 rest)

variable (data : GoString)

def valid : Bool := (scan {} data).any eof

/-- The escape of a character as four hexadecimal digits. -/
def escapeU (n : ℕ) : GoString :=
  [92, 117, hexDigit (n / 4096 % 16), hexDigit (n / 256 % 16), hexDigit (n / 16 % 16),
    hexDigit (n % 16)]

/-- The loop of `appendCompact` with HTML escaping.  `skip` counts the bytes of an escaped
character that are still to come. -/
def compactFrom (skip : ℕ) (s : Scanner) : GoString → Option GoString
  | [] => if s.eof then some [] else none
  | c :: rest =>
    match s.step c with
    | none => none
    | some (s, op) =>
      if skip > 0 then compactFrom (skip - 1) s rest
      else if op = .skipSpace ∨ op = .end then compactFrom 0 s rest
      else if c = 60 ∨ c = 62 ∨ c = 38 then
        (compactFrom 0 s rest).map (escapeU c.toNat ++ ·)
      else if c = 0xE2 ∧ (rest.take 2 = [0x80, 0xA8] ∨ rest.take 2 = [0x80, 0xA9]) then
        let n := if rest.take 2 = [0x80, 0xA8] then 0x2028 else 0x2029
        (compactFrom 2 s rest).map (escapeU n ++ ·)
      else (compactFrom 0 s rest).map (c :: ·)

/-- `appendCompact` with HTML escaping, on a text of its own. -/
def compact : Option GoString := compactFrom 0 {} data

/-- The loop over the bytes of an object: the key being read, the bytes of the current key or
value, and the fields read so far. -/
structure FieldState where
  scanner : Scanner := {}
  key : Option GoString := none
  current : GoString := []
  fields : List (GoString × GoString) := []

def FieldState.endField (f : FieldState) : FieldState :=
  match f.key with
  | some key => { f with key := none, current := [], fields := f.fields ++ [(key, f.current)] }
  | none => f

/-- One byte of an object.  What is nested deeper belongs to the current value. -/
def FieldState.step (f : FieldState) (c : UInt8) : Option FieldState :=
  match f.scanner.step c with
  | none => none
  | some (s, op) =>
    let f := { f with scanner := s }
    match op with
    | .beginObject =>
      if s.parseState.length = 1 then some f else some { f with current := f.current ++ [c] }
    | .objectKey =>
      if s.parseState.length = 1 then some { f with key := some f.current, current := [] }
      else some { f with current := f.current ++ [c] }
    | .objectValue =>
      if s.parseState.length = 1 then some f.endField
      else some { f with current := f.current ++ [c] }
    | .endObject =>
      if s.parseState = [] then some f.endField else some { f with current := f.current ++ [c] }
    | .skipSpace =>
      if s.parseState.length ≤ 1 then some f else some { f with current := f.current ++ [c] }
    | .end => some f
    | _ => some { f with current := f.current ++ [c] }

/-- The fields of an object, as the literals of their keys and the texts of their values. -/
def objectFields : Option (List (GoString × GoString)) :=
  if valid data ∧ (data.dropWhile isSpace).head? = some 123 then
    (data.foldlM FieldState.step {}).map FieldState.fields
  else none

/-! ## One line -/

theorem step_newline {s s' : Scanner} {op : ScanOp} (h : s.step 10 = some (s', op)) :
    op = .skipSpace ∨ op = .end := by
  obtain ⟨state, stack⟩ := s
  cases state <;> cases stack <;>
    simp_all [step, beginValue, beginString, endValue,
      endTop, zero, expect, go, isSpace, isDigit, isHexDigit]

theorem hexDigit_ne_newline : ∀ n < 16, (10 : UInt8) ≠ hexDigit n := by decide

theorem escapeU_no_newline (n : ℕ) : 10 ∉ escapeU n := by
  have hdigit : ∀ m : ℕ, (10 : UInt8) ≠ hexDigit (m % 16) := fun m =>
    hexDigit_ne_newline _ (Nat.mod_lt m (by decide))
  simp [escapeU, hdigit]

/-- A compact text has one line. -/
theorem compactFrom_no_newline {skip : ℕ} {s : Scanner} {data out : GoString}
    (h : compactFrom skip s data = some out) : 10 ∉ out := by
  induction data generalizing skip s out with
  | nil =>
    unfold compactFrom at h
    split_ifs at h
    cases h
    exact List.not_mem_nil
  | cons c rest ih =>
    unfold compactFrom at h
    cases hstep : s.step c with
    | none => simp [hstep] at h
    | some r =>
      simp only [hstep] at h
      split_ifs at h with hskip hspace hhtml hline
      · exact ih h
      · exact ih h
      iterate 3
        · rcases Option.map_eq_some_iff.mp h with ⟨tail, htail, rfl⟩
          exact List.not_mem_append (escapeU_no_newline _) (ih htail)
      · rcases Option.map_eq_some_iff.mp h with ⟨tail, htail, rfl⟩
        refine List.not_mem_cons_of_ne_of_not_mem ?_ (ih htail)
        rintro rfl
        exact hspace (step_newline hstep)

end Json
