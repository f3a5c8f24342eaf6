import Mathlib.Data.Rat.Defs
import QuantaStream.Lib.GoString

/-!
# Bound predicates

This module models the part of `qsbridge/ir.go`, `qsbridge/expr.go` and
`qsbridge/encoding.go` that the planner reads when it turns predicates into bitmap
fragments: field references with their index and encoding, literals, expressions, and the
predicates of a statement.  Texts of SQL are byte strings; names of tables and fields are plain
texts.  Points in time are nanoseconds since the epoch, and floating-point literals are rational
numbers.  Names lose the prefix `quantaIntermediate` of the source.
-/

namespace QuantaStream.Bridge

inductive DataType where
  | unknown
  | bool
  | int
  | float
  | string
  | time
  deriving DecidableEq, Repr

inductive IndexKind where
  | unknown
  | bitmap
  | bsi
  | dateTime
  | stringEnum
  | backingString
  deriving DecidableEq, Repr

inductive EncodingKind where
  | unknown
  | bitmap
  | numericBSI
  | timeBSI
  | stringEnum
  | backingString
  | stringLexBSI
  | uuidBSI
  | textSearch
  | relation
  deriving DecidableEq, Repr

inductive TimeGranularity where
  | unknown
  | day
  | second
  | millisecond
  | microsecond
  | nanosecond
  deriving DecidableEq, Repr

/-- The part of `EncodingProfile` that lowering reads. -/
structure EncodingProfile where
  kind : EncodingKind := .unknown
  legacyName : String := ""
  granularity : TimeGranularity := .unknown
  scale : ℕ := 0
  prefixLength : ℕ := 0
  maxLength : ℕ := 0
  deriving DecidableEq

/-- `NeedsStringRemainderLookup`: the value may be longer than the prefix in the index. -/
def EncodingProfile.needsStringRemainderLookup (e : EncodingProfile) : Bool :=
  e.kind = .stringLexBSI && 0 < e.prefixLength &&
    (e.maxLength = 0 || e.prefixLength < e.maxLength)

structure TableInstance where
  id : String := ""
  schema : String := ""
  table : String
  tableAlias : String := ""
  deriving DecidableEq

structure DictionaryRef where
  schema : String
  table : String
  field : String
  deriving DecidableEq

def DictionaryRef.valid (r : DictionaryRef) : Bool := r.table ≠ "" && r.field ≠ ""

/-- The part of `FieldRef` that lowering reads. -/
structure FieldRef where
  table : TableInstance
  name : String
  physicalName : String := ""
  type : DataType := .unknown
  index : IndexKind := .unknown
  encoding : EncodingProfile := {}
  dictionary : DictionaryRef := ⟨"", "", ""⟩
  deriving DecidableEq

def FieldRef.fieldName (f : FieldRef) : String :=
  if f.physicalName ≠ "" then f.physicalName else f.name

/-- `quantaIntermediateTableRole`. -/
def TableInstance.role (t : TableInstance) : String :=
  if t.tableAlias ≠ "" then t.tableAlias else if t.id ≠ "" then t.id else t.table

def FieldRef.dictionaryRef (f : FieldRef) : DictionaryRef :=
  if f.dictionary.valid then f.dictionary
  else ⟨f.table.schema, f.table.table, f.fieldName⟩

/-- `LiteralExpr`, by the kind of its value. -/
inductive LiteralExpr where
  | null
  | bool (value : Bool)
  | int (value : ℤ)
  | float (value : ℚ)
  | string (value : GoString)
  | time (nanos : ℤ)
  deriving DecidableEq

/-- `BinaryOp`, without the arithmetic operators. -/
inductive BinaryOp where
  | equal
  | notEqual
  | less
  | lessEqual
  | greater
  | greaterEqual
  | and
  | or
  | like
  | notLike
  | regexp
  | notRegexp
  | isIn
  | notIn
  | between
  | notBetween
  deriving DecidableEq, Repr

structure ParameterRef where
  index : ℕ
  name : String := ""
  deriving DecidableEq

/-- `parameterRefKey`: a named parameter is found by its name. -/
def ParameterRef.key (r : ParameterRef) : String ⊕ ℕ :=
  if r.name ≠ "" then .inl r.name else .inr r.index

/-- The expressions of a predicate (`Expr`). -/
inductive Expr where
  | literal (value : LiteralExpr)
  | field (ref : FieldRef)
  | parameter (ref : ParameterRef)
  | call (name : String) (args : List Expr)
  | list (items : List Expr)
  | binary (op : BinaryOp) (left right : Expr)
  | textSearch (field : FieldRef) (hashes : List ℤ)

inductive PredicatePlacement where
  | pushdown
  | residualScan
  | residualJoin
  | membership
  | unsupported
  deriving DecidableEq, Repr

inductive PredicateScope where
  | unknown
  | where
  | on
  | having
  | projection
  deriving DecidableEq, Repr

/-- `PredicateCombinator`; an empty combinator is the conjunctive one. -/
inductive PredicateCombinator where
  | and
  | or
  deriving DecidableEq, Repr

/-- The part of `Predicate` that lowering and the residual filter read. -/
structure Predicate where
  expr : Expr
  placement : PredicatePlacement := .pushdown
  scope : PredicateScope := .where
  combinator : PredicateCombinator := .and

/-! ## Texts and numbers -/

/-- `likePatternClass`. -/
inductive LikePattern where
  | exact
  | leading
  | contains
  | unsupported
  deriving DecidableEq, Repr

/-- `simpleLikePattern`: `_` is 95 and `%` is 37. -/
def simpleLikePattern (pattern : GoString) : LikePattern :=
  if pattern = [] || 95 ∈ pattern then .unsupported
  else if 37 ∉ pattern then .exact
  else if pattern.getLast? = some 37 && 37 ∉ pattern.dropLast then .leading
  else if 2 ≤ pattern.length && pattern.head? = some 37 && pattern.getLast? = some 37 &&
      37 ∉ pattern.tail.dropLast then .contains
  else .unsupported

def decimalDigits (digits : GoString) : Option ℤ :=
  if digits ≠ [] && digits.all (fun b => 48 ≤ b && b ≤ 57) then
    some (digits.foldl (fun n b => n * 10 + (b.toNat - 48 : ℤ)) 0)
  else none

/-- `big.Int.SetString` in base ten: a sign may stand before the digits. -/
def setString : GoString → Option ℤ
  | 45 :: digits => (decimalDigits digits).map Neg.neg
  | 43 :: digits => decimalDigits digits
  | digits => decimalDigits digits

def bigInt : LiteralExpr → Option ℤ
  | .int v => some v
  | .float v => if v.den = 1 then some v.num else none
  | .string s => setString (GoString.trimSpace s)
  | .null => none
  | .bool _ => none
  | .time _ => none

end QuantaStream.Bridge
