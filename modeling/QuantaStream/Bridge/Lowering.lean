import Mathlib.Data.Rat.Floor
import QuantaStream.Bridge.Expression
import QuantaStream.Shared.BitmapQuery

/-!
# Lowering predicates to bitmap fragments

This module models the lowerer of `qsbridge/quanta_intermediate.go` for the flat predicate
list of a statement.  Each pushed-down predicate becomes one fragment; a predicate left to the
residual filter gives at most a candidate fragment.  The combinator of the predicate is applied
last, by patching the operation of the fragment.

An attempt to lower a predicate has three outcomes: a fragment, a diagnostic, or nothing, in
which case the next form is tried.  Names lose the prefix `quantaIntermediate` of the source.
-/

namespace QuantaStream.Bridge

open Shared

abbrev Diagnostic := String

def quantaIntermediateDiagnostics (message : String) : Diagnostic :=
  "quanta intermediate lowerer: " ++ message

/-- `QuantaQueryFragment`.  A literal is present when the source sets `HasLiteral`, a literal
range when it sets `HasLiteralRange`. -/
structure QuantaQueryFragment where
  index : String
  role : String
  field : String
  operation : OpType
  bsiOp : BSIOp := .na
  value : Option ℤ := none
  values : List ℤ := []
  beginValue : Option ℤ := none
  endValue : Option ℤ := none
  literal : Option LiteralExpr := none
  literals : List LiteralExpr := []
  literalRange : Option (LiteralExpr × LiteralExpr) := none
  rangeCoalesceAllowed : Bool := false
  shardWindow : Bool := false
  negate : Bool := false
  nullCheck : Bool := false
  deriving DecidableEq

/-- The fields every fragment on a field is built with. -/
def FieldRef.fragment (f : FieldRef) (operation : OpType) : QuantaQueryFragment where
  index := f.table.table
  role := f.table.role
  field := f.fieldName
  operation := operation

/-- What a dictionary answers for an unknown label, and every other failure. -/
inductive LookupError where
  | labelNotFound
  | other (message : Diagnostic)

structure DictionaryResolver where
  lookupLabel : DictionaryRef → GoString → Except LookupError ℕ
  lookupPrefix : DictionaryRef → GoString → Except Diagnostic (List (ℕ × GoString))

/-- `QuantaIntermediateLowerer` with the clock and the calendar it reads: the point in time a
text stands for, and the midnight a text of the form year-month-day stands for. -/
structure QuantaIntermediateLowerer where
  dictionaries : Option DictionaryResolver
  parseTimeString : GoString → Option ℤ
  dateOnly : GoString → Option ℤ

abbrev ParameterBindingSet := List (ParameterRef × LiteralExpr)

/-! ## Encoded values -/

def encodeTimeValue (granularity : TimeGranularity) (nanos : ℤ) : ℤ :=
  match granularity with
  | .unknown => nanos / 1000000
  | .millisecond => nanos / 1000000
  | .second => nanos / 1000000000
  | .microsecond => nanos / 1000
  | .nanosecond => nanos
  | .day => nanos / 86400000000000

variable (text : GoString) (prefixLength : ℕ)

/-- The number that a prefix of the text, padded with zero bytes, stands for
(`quantaIntermediateStringLexBSIValue`). -/
def stringLexBSIValue : ℤ :=
  let bytes :=
    if prefixLength = 0 then text
    else text.take prefixLength ++ List.replicate (prefixLength - text.length) 0
  (bytes.foldl (fun acc b => acc * 256 + b.toNat) 0 : ℕ)

/-- `quantaIntermediateIncrementLexPrefix`: the next text of the same length, if there is one. -/
def incrementLexPrefix : Option GoString :=
  match text.reverse.dropWhile (· = 255) with
  | [] => none
  | b :: rest =>
    some (rest.reverse ++ [b + 1] ++ List.replicate (text.length - (rest.length + 1)) 0)

def stringLexBSIPrefixRange : Option (ℤ × ℤ) :=
  if text = [] || prefixLength = 0 || prefixLength < text.length then none
  else
    let first := stringLexBSIValue text prefixLength
    match incrementLexPrefix text with
    | some upper => some (first, stringLexBSIValue upper prefixLength - 1)
    | none => some (first, 2 ^ (prefixLength * 8) - 1)

def stringLexBSICandidatePrefix : Option GoString :=
  if text = [] || prefixLength = 0 then none else some (text.take prefixLength)

/-- The upper literal of a prefix range: the prefix and the bytes of U+FFFF. -/
def prefixUpperLiteral : GoString := text ++ [0xEF, 0xBF, 0xBF]

def normalizeBoolValue : LiteralExpr → Except Diagnostic LiteralExpr
  | .bool b => .ok (.int (if b then 1 else 0))
  | .int v =>
    if v = 0 ∨ v = 1 then .ok (.int v)
    else .error (quantaIntermediateDiagnostics
      "boolean bitmap predicates require boolean-compatible values")
  | _ => .error (quantaIntermediateDiagnostics
      "boolean bitmap predicates require boolean-compatible values")

/-- `math.Round`: to the nearest integer, halves away from zero. -/
def roundHalfAway (q : ℚ) : ℤ := if 0 ≤ q then ⌊q + 1 / 2⌋ else ⌈q - 1 / 2⌉

def normalizeScaledNumericValue (field : FieldRef) (value : LiteralExpr) :
    Except Diagnostic LiteralExpr :=
  let scaled : Option ℚ :=
    match value with
    | .int v => some (v * 10 ^ field.encoding.scale)
    | .float v => some (v * 10 ^ field.encoding.scale)
    | _ => none
  match scaled with
  | none => .error (quantaIntermediateDiagnostics "scaled BSI comparison values must be numeric")
  | some scaled =>
    let rounded := roundHalfAway scaled
    if 1 / 10 ^ 9 < |scaled - rounded| then
      .error (quantaIntermediateDiagnostics ("this would result in rounding error for field '" ++
        field.name ++ "', value should have " ++ toString field.encoding.scale ++
        " decimal places"))
    else .ok (.int rounded)

def normalizeDiscreteNumericComparison (op : BinaryOp) (value : LiteralExpr) :
    Except Diagnostic (BinaryOp × LiteralExpr) :=
  match value with
  | .float v =>
    if v.den = 1 then .ok (op, value)
    else
      match op with
      | .greater => .ok (.greater, .int ⌊v⌋)
      | .greaterEqual => .ok (.greaterEqual, .int ⌈v⌉)
      | .less => .ok (.less, .int ⌈v⌉)
      | .lessEqual => .ok (.lessEqual, .int ⌊v⌋)
      | _ => .error (quantaIntermediateDiagnostics
          "fractional values cannot be lowered for equality against integer BSI fields")
  | _ => .ok (op, value)

/-! ## Parts of a predicate -/

def supportedComparison : BinaryOp → Bool
  | .equal | .notEqual | .less | .lessEqual | .greater | .greaterEqual => true
  | _ => false

def reverseComparison : BinaryOp → Option BinaryOp
  | .equal => some .equal
  | .notEqual => some .notEqual
  | .less => some .greater
  | .lessEqual => some .greaterEqual
  | .greater => some .less
  | .greaterEqual => some .lessEqual
  | _ => none

def valueExpr : Expr → Bool
  | .literal _ | .parameter _ | .call _ _ => true
  | _ => false

variable (p : Predicate)

def comparisonParts : Option (BinaryOp × FieldRef × Expr) :=
  match p.expr with
  | .binary op left right =>
    if supportedComparison op then
      match left, right with
      | .field f, right =>
        if valueExpr right then some (op, f, right) else none
      | left, .field f =>
        if valueExpr left then (reverseComparison op).map (fun op => (op, f, left)) else none
      | _, _ => none
    else none
  | _ => none

/-- `quantaIntermediateInParts`, with `quantaIntermediateInNegated`. -/
def inParts : Option (FieldRef × List Expr × Bool) :=
  match p.expr with
  | .binary .isIn (.field f) (.list items) => some (f, items, false)
  | .binary .notIn (.field f) (.list items) => some (f, items, true)
  | _ => none

def betweenParts : Option (FieldRef × Expr × Expr × Bool) :=
  match p.expr with
  | .binary .between (.field f) (.list [lower, upper]) =>
    if valueExpr lower && valueExpr upper then some (f, lower, upper, false) else none
  | .binary .notBetween (.field f) (.list [lower, upper]) =>
    if valueExpr lower && valueExpr upper then some (f, lower, upper, true) else none
  | _ => none

/-- The parts of a LIKE predicate with a value on its right; the flag marks NOT LIKE. -/
def likeParts : Option (FieldRef × Expr × Bool) :=
  match p.expr with
  | .binary .like (.field f) right => if valueExpr right then some (f, right, false) else none
  | .binary .notLike (.field f) right => if valueExpr right then some (f, right, true) else none
  | _ => none

/-- `quantaIntermediateEqualityOperation`, by whether the predicate is negated. -/
def equalityOperation (negated : Bool) : OpType := if negated then .difference else .intersect

/-- `quantaIntermediateBSIOp`. -/
def bsiOpOf : BinaryOp → BSIOp
  | .equal => .eq
  | .less => .lt
  | .lessEqual => .le
  | .greater => .gt
  | .greaterEqual => .ge
  | _ => .na

variable (op : BinaryOp)

/-- The operators of the fragments that know equality only; the answer is whether the operator
negates. -/
def equalityOnly (message : String) : Except Diagnostic Bool :=
  match op with
  | .equal => .ok false
  | .notEqual => .ok true
  | _ => .error (quantaIntermediateDiagnostics message)

/-! ## The fragment of a predicate -/

def nullCheckFragment (field : FieldRef) : Except Diagnostic QuantaQueryFragment := do
  let negate ← equalityOnly op "only equality predicates are lowered for NULL checks"
  return { field.fragment .intersect with nullCheck := true, negate := negate }

def rownumField (field : FieldRef) : Bool :=
  [field.physicalName, field.name].any (fun name =>
    let normalized := name.trimAscii.toString.toLower
    normalized = "rownum" || normalized = "@rownum" || normalized.endsWith "@rownum")

def literalComparisonFragment (field : FieldRef) (value : LiteralExpr) :
    Except Diagnostic QuantaQueryFragment := do
  let negated ← equalityOnly op
    "only equality predicates are lowered for non-BSI fields in this slice"
  let fragment := { field.fragment (equalityOperation negated) with literal := some value }
  if rownumField field then
    match bigInt value with
    | none => throw (quantaIntermediateDiagnostics "rownum predicates require integer values")
    | some rownum => return { fragment with values := [rownum] }
  else return fragment

def boolDirectComparisonFragment (field : FieldRef) (value : LiteralExpr) :
    Except Diagnostic QuantaQueryFragment := do
  let negated ← equalityOnly op "only equality predicates are lowered for BoolDirect fields"
  let normalized ← normalizeBoolValue value
  match bigInt normalized with
  | none => throw (quantaIntermediateDiagnostics
      "BoolDirect predicates require boolean-compatible values")
  | some id => return { field.fragment (equalityOperation negated) with values := [id] }

def stringLexBSIComparisonFragment (field : FieldRef) (value : LiteralExpr) :
    Except Diagnostic QuantaQueryFragment := do
  let negated ← equalityOnly op "only equality predicates are lowered for StringLexBSI fields"
  if field.encoding.needsStringRemainderLookup then
    throw (quantaIntermediateDiagnostics
      "StringLexBSI predicates requiring remainder lookup are not lowered in this slice")
  match value with
  | .string text =>
    return { field.fragment (equalityOperation negated) with
      bsiOp := .eq
      value := some (stringLexBSIValue text field.encoding.prefixLength) }
  | _ => throw (quantaIntermediateDiagnostics "StringLexBSI predicates require string values")

/-- The range fragment of the texts that start with a prefix. -/
def prefixRangeFragment (field : FieldRef) (operation : OpType) (text : GoString) :
    Option QuantaQueryFragment :=
  (stringLexBSIPrefixRange text field.encoding.prefixLength).map (fun range =>
    { field.fragment operation with
      bsiOp := .range
      beginValue := some range.1
      endValue := some range.2
      literalRange := some (.string text, .string (prefixUpperLiteral text)) })

def impossibleStringEnumID : ℤ := 2 ^ 64 - 1

/-- `quantaIntermediateStringEnumFragment`, or `quantaIntermediateMissingStringEnumFragment` if no
label was found, under the operation of the predicate. -/
def stringEnumFragment (field : FieldRef) (negated : Bool) (values : List ℤ)
    (literals missing : List LiteralExpr) : QuantaQueryFragment :=
  if values = [] then
    { field.fragment (equalityOperation negated) with
      values := [impossibleStringEnumID], literals := missing }
  else { field.fragment (equalityOperation negated) with values := values, literals := literals }

/-- `quantaIntermediateApplyCombinator`: under OR an intersect becomes a union, and nothing else
changes. -/
def applyCombinator (f : QuantaQueryFragment) (p : Predicate) : QuantaQueryFragment :=
  if p.combinator = .or ∧ f.operation = .intersect then { f with operation := .union } else f

namespace QuantaIntermediateLowerer

variable (l : QuantaIntermediateLowerer) (parameters : ParameterBindingSet)

def parseTimeValue : LiteralExpr → Option ℤ
  | .time nanos => some nanos
  | .string text => l.parseTimeString text
  | _ => none

/-- `quantaIntermediateValue` and `quantaIntermediateCallValue`. -/
def value : Expr → Except Diagnostic LiteralExpr
  | .literal v => .ok v
  | .call name [arg] =>
    if name.toLower = "todate" then do
      let v ← value arg
      match l.parseTimeValue v with
      | some nanos => return .time nanos
      | none => throw (quantaIntermediateDiagnostics "datetime comparison value is not supported")
    else .error (quantaIntermediateDiagnostics
      ("comparison value function is not supported: " ++ name))
  | .call name _ =>
    if name.toLower = "todate" then
      .error (quantaIntermediateDiagnostics "todate expects exactly one argument")
    else .error (quantaIntermediateDiagnostics
      ("comparison value function is not supported: " ++ name))
  | .parameter ref =>
    match parameters.find? (fun b => b.1.key = ref.key) with
    | some b => .ok b.2
    | none => .error (quantaIntermediateDiagnostics
        ("prepared-statement parameter " ++ toString ref.index ++ " is not bound"))
  | _ => .error (quantaIntermediateDiagnostics "comparison value must be a literal or parameter")

variable (field : FieldRef) (v : LiteralExpr)

def normalizeTimeValue : Except Diagnostic LiteralExpr :=
  match v with
  | .int n => .ok (.int n)
  | v =>
    match l.parseTimeValue v with
    | some nanos => .ok (.int (encodeTimeValue field.encoding.granularity nanos))
    | none => .error (quantaIntermediateDiagnostics ("datetime comparison values must be " ++
        "strings, time values, or encoded epoch integers"))

/-- `quantaIntermediateNextEncodedTimeValue`: a date alone stands for the whole day. -/
def nextEncodedTimeValue (literal : LiteralExpr) (encoded : ℤ) : ℤ :=
  let date :=
    match literal with
    | .string text => l.dateOnly text
    | _ => none
  match date with
  | some nanos => encodeTimeValue field.encoding.granularity (nanos + 86400000000000)
  | none => encoded + 1

def normalizeDiscreteTimeComparison (op : BinaryOp) (field : FieldRef)
    (literal v : LiteralExpr) : BinaryOp × LiteralExpr :=
  match v, op with
  | .int encoded, .lessEqual => (.less, .int (l.nextEncodedTimeValue field literal encoded))
  | .int encoded, .greater => (.greaterEqual, .int (l.nextEncodedTimeValue field literal encoded))
  | _, _ => (op, v)

/-- `stringEnumID`: nothing without dictionaries. -/
def stringEnumID : Except LookupError (Option ℤ) :=
  match v with
  | .string label =>
    match l.dictionaries with
    | none => .ok none
    | some resolver => (resolver.lookupLabel field.dictionaryRef label).map (fun id => some id)
  | _ => .error (.other (quantaIntermediateDiagnostics "StringEnum predicates require string labels"))

/-- The ID of one label as a list: empty for a label that is not in the dictionary. -/
def stringEnumIDs : Except Diagnostic (Option (List ℤ)) :=
  match l.stringEnumID field v with
  | .ok none => .ok none
  | .ok (some id) => .ok (some [id])
  | .error .labelNotFound => .ok (some [])
  | .error (.other message) => .error message

variable (p : Predicate)

def lowerTextSearchPredicate : Except Diagnostic (Option QuantaQueryFragment) :=
  match p.expr with
  | .textSearch field hashes =>
    if hashes = [] then
      .error (quantaIntermediateDiagnostics
        "MATCH ... AGAINST must be materialized before lowering")
    else .ok (some { field.fragment .intersect with
      field := "__qs_search_hash__" ++ field.fieldName
      bsiOp := .batchEq
      values := hashes })
  | _ => .ok none

/-- Normalise the lower and then the upper bound. -/
def bothBounds (normalize : LiteralExpr → Except Diagnostic LiteralExpr)
    (bounds : LiteralExpr × LiteralExpr) : Except Diagnostic (LiteralExpr × LiteralExpr) := do
  let lower ← normalize bounds.1
  let upper ← normalize bounds.2
  return (lower, upper)

def normalizeStringLexBSIValue (field : FieldRef) (v : LiteralExpr) :
    Except Diagnostic LiteralExpr :=
  match v with
  | .string text => .ok (.int (stringLexBSIValue text field.encoding.prefixLength))
  | _ => .error (quantaIntermediateDiagnostics
      "StringLexBSI BETWEEN predicates require string values")

/-- The bounds of a BETWEEN predicate as the index stores them. -/
def betweenBounds (field : FieldRef) (bounds : LiteralExpr × LiteralExpr) :
    Except Diagnostic (ℤ × ℤ) := do
  let bounds ←
    if field.index = .dateTime then bothBounds (l.normalizeTimeValue field) bounds
    else pure bounds
  let bounds ←
    if 0 < field.encoding.scale then bothBounds (normalizeScaledNumericValue field) bounds
    else pure bounds
  let bounds ←
    if field.encoding.kind = .stringLexBSI then
      if field.encoding.needsStringRemainderLookup then
        throw (quantaIntermediateDiagnostics ("StringLexBSI BETWEEN predicates requiring " ++
          "remainder lookup are not lowered in this slice"))
      else bothBounds (normalizeStringLexBSIValue field) bounds
    else pure bounds
  match bigInt bounds.1, bigInt bounds.2 with
  | some lower, some upper => return (lower, upper)
  | _, _ => throw (quantaIntermediateDiagnostics
      "only integer BSI BETWEEN values are lowered in this slice")

def lowerBetweenPredicate : Except Diagnostic (Option QuantaQueryFragment) :=
  match betweenParts p with
  | none => .ok none
  | some (field, lowerExpr, upperExpr, negate) => do
      let lower ← l.value parameters lowerExpr
      let upper ← l.value parameters upperExpr
      if field.index ≠ .bsi ∧ field.index ≠ .dateTime then
        return some { field.fragment .intersect with
          literalRange := some (lower, upper), negate := negate }
      else
        let bounds ← l.betweenBounds field (lower, upper)
        return some { field.fragment (equalityOperation negate) with
          bsiOp := .range
          beginValue := some bounds.1
          endValue := some bounds.2
          literalRange := some (lower, upper) }

def lowerStringLexBSILikePredicate : Except Diagnostic (Option QuantaQueryFragment) :=
  match likeParts p with
  | none => .ok none
  | some (field, right, negated) =>
    if field.encoding.kind ≠ .stringLexBSI || field.encoding.needsStringRemainderLookup then
      .ok none
    else do
      match ← l.value parameters right with
      | .string text =>
        match simpleLikePattern text with
        | .exact =>
          let f ← stringLexBSIComparisonFragment (if negated then .notEqual else .equal)
            field (.string text)
          return some f
        | .leading =>
          return prefixRangeFragment field (equalityOperation negated) text.dropLast
        | _ => return none
      | _ => throw (quantaIntermediateDiagnostics
          "StringLexBSI LIKE predicates require string values")

/-- The loop of `lowerStringEnumInPredicate`: labels that are not in the dictionary are
skipped. -/
def stringEnumInItems (field : FieldRef) :
    List Expr → Except Diagnostic (Option (List (ℤ × LiteralExpr)))
  | [] => .ok (some [])
  | item :: items => do
      let v ← l.value parameters item
      match ← l.stringEnumIDs field v with
      | none => return none
      | some ids =>
        let rest ← stringEnumInItems field items
        return rest.map (fun rest => ids.map (fun id => (id, v)) ++ rest)

def lowerStringEnumInPredicate : Except Diagnostic (Option QuantaQueryFragment) :=
  match inParts p with
  | none => .ok none
  | some (field, items, negated) =>
    if field.index ≠ .stringEnum then .ok none
    else do
      let found ← l.stringEnumInItems parameters field items
      return found.map (fun found => stringEnumFragment field negated (found.map Prod.fst)
        (found.map Prod.snd) [])

def lowerStringEnumLikePredicate : Except Diagnostic (Option QuantaQueryFragment) :=
  match likeParts p with
  | none => .ok none
  | some (field, right, negated) =>
    if field.index ≠ .stringEnum then .ok none
    else do
      match ← l.value parameters right with
      | .string text =>
        match simpleLikePattern text with
        | .exact =>
          let ids ← l.stringEnumIDs field (.string text)
          return ids.map (fun ids =>
            stringEnumFragment field negated ids [.string text] [.string text])
        | .leading =>
          match l.dictionaries with
          | none => return none
          | some resolver =>
            let entries ← resolver.lookupPrefix field.dictionaryRef text.dropLast
            return some (stringEnumFragment field negated
              (entries.map (fun e => (e.1 : ℤ))) (entries.map (fun e => .string e.2))
              [.string text])
        | _ => return none
      | _ => throw (quantaIntermediateDiagnostics
          "StringEnum LIKE predicates require string labels")

/-- The comparison form of `lowerStringEnumPredicate`. -/
def lowerStringEnumComparison : Except Diagnostic (Option QuantaQueryFragment) :=
  match comparisonParts p with
  | none => .ok none
  | some (op, field, right) =>
    if field.index ≠ .stringEnum || !(op = .equal || op = .notEqual) then .ok none
    else do
      match ← l.value parameters right with
      | .null => return some (← nullCheckFragment op field)
      | v =>
        let ids ← l.stringEnumIDs field v
        return ids.map (fun ids =>
          stringEnumFragment field (decide (op = .notEqual)) ids [v] [v])

variable (field : FieldRef)

/-- An item of an IN list over a bit-sliced index, with its literal. -/
def inItem (item : Expr) : Except Diagnostic (ℤ × LiteralExpr) := do
  let literal ← l.value parameters item
  let v ← if field.index = .dateTime then l.normalizeTimeValue field literal else pure literal
  match bigInt v with
  | some n => return (n, literal)
  | none => throw (quantaIntermediateDiagnostics
      "only integer BSI IN values are lowered in this slice")

/-- An item of an IN list over a lexical index. -/
def stringLexBSIInItem (item : Expr) : Except Diagnostic ℤ := do
  match ← l.value parameters item with
  | .string text => return stringLexBSIValue text field.encoding.prefixLength
  | _ => throw (quantaIntermediateDiagnostics "StringLexBSI IN predicates require string values")

variable (items : List Expr)

def lowerStringLexBSIInPredicate (negated : Bool) : Except Diagnostic QuantaQueryFragment :=
  if field.encoding.needsStringRemainderLookup then
    .error (quantaIntermediateDiagnostics ("StringLexBSI IN predicates requiring remainder " ++
      "lookup are not lowered in this slice"))
  else do
    let values ← items.mapM (l.stringLexBSIInItem parameters field)
    return { field.fragment (equalityOperation negated) with bsiOp := .batchEq, values := values }

def lowerLiteralInPredicate (negated : Bool) : Except Diagnostic QuantaQueryFragment := do
  let literals ← items.mapM (l.value parameters)
  return { field.fragment .intersect with literals := literals, negate := negated }

/-- The IN list over a bit-sliced index. -/
def lowerBSIInPredicate (negated : Bool) : Except Diagnostic QuantaQueryFragment := do
  let found ← items.mapM (l.inItem parameters field)
  return { field.fragment .intersect with
    bsiOp := .batchEq
    values := found.map Prod.fst
    literals := found.map Prod.snd
    negate := negated }

variable (p : Predicate)

def lowerInPredicate : Except Diagnostic (Option QuantaQueryFragment) :=
  match inParts p with
  | none => .ok none
  | some (field, items, negated) =>
    if field.encoding.kind = .stringLexBSI then
      (l.lowerStringLexBSIInPredicate parameters field items negated).map some
    else if field.index ≠ .bsi ∧ field.index ≠ .dateTime then
      (l.lowerLiteralInPredicate parameters field items negated).map some
    else (l.lowerBSIInPredicate parameters field items negated).map some

/-- The operator and the stored value of a comparison with a bit-sliced index. -/
def bsiComparisonValue (op : BinaryOp) (field : FieldRef) (literal : LiteralExpr) :
    Except Diagnostic (BinaryOp × ℤ) := do
  let (op, v) ←
    if field.index = .dateTime then do
      let v ← l.normalizeTimeValue field literal
      pure (l.normalizeDiscreteTimeComparison op field literal v)
    else pure (op, literal)
  let v ← if 0 < field.encoding.scale then normalizeScaledNumericValue field v else pure v
  let (op, v) ←
    if field.type = .int then normalizeDiscreteNumericComparison op v else pure (op, v)
  let v ← if field.type = .bool then normalizeBoolValue v else pure v
  match bigInt v with
  | none => throw (quantaIntermediateDiagnostics
      "only integer BSI comparison values are lowered in this slice")
  | some n => return (op, n)

/-- The comparison with a bit-sliced index at the end of `lowerPredicate`. -/
def bsiComparisonFragment (op : BinaryOp) (field : FieldRef) (literal : LiteralExpr) :
    Except Diagnostic QuantaQueryFragment :=
  (l.bsiComparisonValue op field literal).map (fun x =>
    { field.fragment (equalityOperation (decide (x.1 = .notEqual))) with
      bsiOp := if x.1 = .notEqual then .eq else bsiOpOf x.1
      value := some x.2
      literal := some literal
      rangeCoalesceAllowed := true })

/-- The comparison forms of `lowerPredicate`. -/
def lowerComparison : Except Diagnostic QuantaQueryFragment :=
  match comparisonParts p with
  | none => .error (quantaIntermediateDiagnostics
      "only field-to-value comparison and IN predicates can be lowered")
  | some (op, field, right) => do
      let v ← l.value parameters right
      if v = .null then nullCheckFragment op field
      else if field.encoding.kind = .stringLexBSI then stringLexBSIComparisonFragment op field v
      else if field.type = .bool ∧ field.encoding.legacyName = "BoolDirect" then
        boolDirectComparisonFragment op field v
      else if field.index ≠ .bsi ∧ field.index ≠ .dateTime then
        literalComparisonFragment op field v
      else l.bsiComparisonFragment op field v

/-- The forms `lowerPredicate` tries before the comparisons, in order. -/
def attempts : List (Predicate → Except Diagnostic (Option QuantaQueryFragment)) :=
  [lowerTextSearchPredicate,
    l.lowerBetweenPredicate parameters,
    l.lowerStringLexBSILikePredicate parameters,
    l.lowerStringEnumInPredicate parameters,
    l.lowerStringEnumLikePredicate parameters,
    l.lowerStringEnumComparison parameters,
    l.lowerInPredicate parameters]

/-- The first form that applies. -/
def firstAttempt (p : Predicate) : List (Predicate → Except Diagnostic (Option QuantaQueryFragment)) →
    Except Diagnostic (Option QuantaQueryFragment)
  | [] => .ok none
  | attempt :: rest =>
    match attempt p with
    | .ok none => firstAttempt p rest
    | outcome => outcome

/-- `lowerPredicate` before the combinator is applied. -/
def lowerForm : Except Diagnostic QuantaQueryFragment := do
  match ← firstAttempt p (l.attempts parameters) with
  | some f => return f
  | none => l.lowerComparison parameters p

def lowerPredicate : Except Diagnostic QuantaQueryFragment :=
  (l.lowerForm parameters p).map (fun f => applyCombinator f p)

/-- `lowerStringLexBSIEqualityCandidate` and `lowerStringLexBSIPrefixLikeCandidate`. -/
def lowerStringLexBSICandidate : Except Diagnostic (Option QuantaQueryFragment) :=
  let candidate (field : FieldRef) (text : GoString) : Option QuantaQueryFragment :=
    (stringLexBSICandidatePrefix text field.encoding.prefixLength).bind
      (prefixRangeFragment field .intersect)
  match comparisonParts p, likeParts p with
  | some (.equal, field, right), _ =>
    if field.encoding.needsStringRemainderLookup then do
      match ← l.value parameters right with
      | .string text => return candidate field text
      | _ => throw (quantaIntermediateDiagnostics
          "StringLexBSI equality predicates require string values")
    else .ok none
  | _, some (field, right, false) =>
    if field.encoding.needsStringRemainderLookup then do
      match ← l.value parameters right with
      | .string text =>
        return if simpleLikePattern text = .leading then candidate field text.dropLast else none
      | _ => return none
    else .ok none
  | _, _ => .ok none

/-- `lowerResidualCandidatePredicate`: an OR predicate gives no candidates. -/
def lowerResidualCandidatePredicate : Except Diagnostic (Option QuantaQueryFragment) :=
  if p.combinator = .or ∨ p.scope = .having then .ok none
  else l.lowerStringLexBSICandidate parameters p

/-- The loop of `LowerQuery` over the predicates. -/
def lowerPredicates : List Predicate → Except Diagnostic (List QuantaQueryFragment)
  | [] => .ok []
  | p :: ps => do
      let fragments ←
        if p.placement = .residualScan then do
          let f ← l.lowerResidualCandidatePredicate parameters p
          pure f.toList
        else do
          let f ← l.lowerPredicate parameters p
          pure [f]
      let rest ← lowerPredicates ps
      return fragments ++ rest

end QuantaIntermediateLowerer

/-! ## Coalescing bounds -/

variable (op : BSIOp)

def lowerBoundOp : Bool := op = .ge || op = .gt

def upperBoundOp : Bool := op = .le || op = .lt

variable (left right : QuantaQueryFragment)

def sameRangeField : Bool :=
  left.index = right.index && left.role = right.role && left.field = right.field &&
    left.operation = .intersect && right.operation = .intersect &&
    !left.negate && !right.negate && !left.nullCheck && !right.nullCheck &&
    left.value.isSome && right.value.isSome &&
    left.rangeCoalesceAllowed && right.rangeCoalesceAllowed

def rangePair : Bool :=
  sameRangeField left right &&
    ((lowerBoundOp left.bsiOp && upperBoundOp right.bsiOp) ||
      (upperBoundOp left.bsiOp && lowerBoundOp right.bsiOp))

def inclusiveLowerBound (value : ℤ) : ℤ := if op = .gt then value + 1 else value

def inclusiveUpperBound (value : ℤ) : ℤ := if op = .lt then value - 1 else value

def rangeFragment : QuantaQueryFragment :=
  let (lower, upper) := if lowerBoundOp left.bsiOp then (left, right) else (right, left)
  { left with
    bsiOp := .range
    value := none
    beginValue := lower.value.map (inclusiveLowerBound lower.bsiOp)
    endValue := upper.value.map (inclusiveUpperBound upper.bsiOp) }

/-- `quantaIntermediateCoalesceRanges`: each fragment is paired with the first later one that is
its opposite bound, and a paired fragment is not used again.  The fuel is the length of the
list. -/
def coalesceRangesAux : ℕ → List QuantaQueryFragment → List QuantaQueryFragment
  | 0, fs => fs
  | _ + 1, [] => []
  | fuel + 1, f :: fs =>
    match fs.findIdx? (rangePair f) with
    | none => f :: coalesceRangesAux fuel fs
    | some i =>
      ((fs[i]?).map (rangeFragment f)).toList ++ coalesceRangesAux fuel (fs.eraseIdx i)

def coalesceRanges (fs : List QuantaQueryFragment) : List QuantaQueryFragment :=
  coalesceRangesAux fs.length fs

/-- `LowerQuery` for a statement without a grouped filter. -/
def QuantaIntermediateLowerer.lowerQuery (l : QuantaIntermediateLowerer)
    (parameters : ParameterBindingSet) (ps : List Predicate) :
    Except Diagnostic (List QuantaQueryFragment) :=
  (l.lowerPredicates parameters ps).map coalesceRanges

end QuantaStream.Bridge
