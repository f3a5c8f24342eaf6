import QuantaStream.Lib.GoMap
import QuantaStream.Lib.GoString

/-!
# Catalog expressions

A default or a selector of a table is an expression over the values of a row.  The paths it refers to
are collected by a walk of its own, into a map by their dotted text, and not by the evaluation.  Rows
that agree on the collected paths give the expression the same value or the same error.

The text of an expression is parsed by one function on both sides, so the model starts at the tree.
-/

namespace QuantaStream.Bridge

open List

/-! ## Expressions -/

/-- `CatalogExpressionPath`, as `ParseCatalogExpressionPath` builds it: the parts between the dots. -/
structure CatalogExpressionPath where
  parts : List GoString
  parts_ne : parts ≠ []
  no_dot : ∀ part ∈ parts, 46 ∉ part

/-- The dotted form of a path. -/
def CatalogExpressionPath.string (path : CatalogExpressionPath) : GoString :=
  [46].intercalate path.parts

/-- `catalogValue`; a time by its nanoseconds. -/
inductive CatalogValue where
  | null
  | bool (value : Bool)
  | number (value : Float)
  | string (value : GoString)
  | time (value : ℤ)

/-- A value of a row, as `catalogValueFromAny` reads it: a value of the catalog, a value of another
type, or a map of values. -/
inductive AnyValue where
  | scalar (value : CatalogValue)
  | other (type : String)
  | map (entries : List (GoString × AnyValue))

inductive CatalogError where
  | unresolved (reference : GoString)
  | unsupportedType (reference : GoString) (type : String)
  | invalid (message : String)

inductive CatalogUnary where
  | not
  | negate

inductive CatalogArithmetic where
  | add
  | subtract
  | multiply
  | divide

inductive CatalogComparison where
  | eq
  | ne
  | gt
  | ge
  | lt
  | le

inductive CatalogBinary where
  | and
  | or
  | arithmetic (op : CatalogArithmetic)
  | compare (op : CatalogComparison)

inductive CatalogNode where
  | literal (value : CatalogValue)
  | identifier (path : CatalogExpressionPath)
  | call (name : GoString) (args : List CatalogNode)
  | unary (op : CatalogUnary) (child : CatalogNode)
  | binary (op : CatalogBinary) (left right : CatalogNode)

open CatalogNode

/-! ## Evaluation -/

def lookupCatalogExpressionPath : AnyValue → List GoString → Option AnyValue
  | current, [] => some current
  | .map entries, part :: parts =>
    (entries.lookup part).bind fun next => lookupCatalogExpressionPath next parts
  | _, _ :: _ => none

def evalUnary : CatalogUnary → CatalogValue → Except CatalogError CatalogValue
  | .not, .bool b => .ok (.bool !b)
  | .not, _ => .error (.invalid "logical not requires bool")
  | .negate, .number x => .ok (.number (-x))
  | .negate, _ => .error (.invalid "numeric negation requires number")

/-- The comparisons of two values that are ordered or not comparable. -/
def CatalogComparison.holds (eq lt gt : Bool) : CatalogComparison → Bool
  | .eq => eq
  | .ne => !eq
  | .gt => gt
  | .ge => gt || eq
  | .lt => lt
  | .le => lt || eq

def evalCatalogComparison (op : CatalogComparison) :
    CatalogValue → CatalogValue → Except CatalogError CatalogValue
  | .null, .null => .ok (.bool (match op with | .eq => true | _ => false))
  | .null, _ | _, .null => .ok (.bool (match op with | .ne => true | _ => false))
  | .number x, .number y => .ok (.bool (op.holds (x == y) (x < y) (y < x)))
  | .string x, .string y => .ok (.bool (op.holds (x = y) (x < y) (y < x)))
  | .time x, .time y => .ok (.bool (op.holds (x = y) (x < y) (y < x)))
  | .bool x, .bool y =>
    match op with
    | .eq => .ok (.bool (x == y))
    | .ne => .ok (.bool (x != y))
    | _ => .error (.invalid "bool operands only support equality comparison")
  | _, _ => .error (.invalid "comparison operands have incompatible types")

def evalCatalogArithmetic (op : CatalogArithmetic) :
    CatalogValue → CatalogValue → Except CatalogError CatalogValue
  | .number x, .number y =>
    match op with
    | .add => .ok (.number (x + y))
    | .subtract => .ok (.number (x - y))
    | .multiply => .ok (.number (x * y))
    | .divide => if y == 0 then .error (.invalid "division by zero") else .ok (.number (x / y))
  | _, _ => .error (.invalid "arithmetic requires numeric operands")

def requireBool : CatalogValue → Except CatalogError Bool
  | .bool b => .ok b
  | _ => .error (.invalid "logical operator requires bool")

/-- `evalCatalogFunction` at a time and for a purpose: it sees the name and the arguments. -/
abbrev CatalogFunctions := GoString → List CatalogValue → Except CatalogError CatalogValue

mutual

/-- The evaluation of a node; a logical operator may leave its right side alone. -/
def CatalogNode.eval (functions : CatalogFunctions) (values : AnyValue) :
    CatalogNode → Except CatalogError CatalogValue
  | .literal value => .ok value
  | .identifier path =>
    match lookupCatalogExpressionPath values path.parts with
    | none => .error (.unresolved path.string)
    | some (.scalar value) => .ok value
    | some (.other type) => .error (.unsupportedType path.string type)
    | some (.map _) => .error (.unsupportedType path.string "map[string]interface {}")
  | .call name args => do functions name (← evalArgs functions values args)
  | .unary op child => do evalUnary op (← child.eval functions values)
  | .binary .and left right => do
    if ← requireBool (← left.eval functions values) then
      return .bool (← requireBool (← right.eval functions values))
    else return .bool false
  | .binary .or left right => do
    if ← requireBool (← left.eval functions values) then return .bool true
    else return .bool (← requireBool (← right.eval functions values))
  | .binary (.arithmetic op) left right => do
    evalCatalogArithmetic op (← left.eval functions values) (← right.eval functions values)
  | .binary (.compare op) left right => do
    evalCatalogComparison op (← left.eval functions values) (← right.eval functions values)

/-- The loop over the arguments of a call. -/
def evalArgs (functions : CatalogFunctions) (values : AnyValue) :
    List CatalogNode → Except CatalogError (List CatalogValue)
  | [] => .ok []
  | arg :: args => do
    let value ← arg.eval functions values
    return value :: (← evalArgs functions values args)

end

/-! ## Dependencies -/

mutual

/-- The references in the order in which `collectDependencies` meets them. -/
def CatalogNode.references : CatalogNode → List CatalogExpressionPath
  | .literal _ => []
  | .identifier path => [path]
  | .call _ args => argReferences args
  | .unary _ child => child.references
  | .binary _ left right => left.references ++ right.references

def argReferences : List CatalogNode → List CatalogExpressionPath
  | [] => []
  | arg :: args => arg.references ++ argReferences args

end

/-- `collectDependencies`: the paths by their dotted forms. -/
def collectDependencies (seen : GoMap GoString CatalogExpressionPath)
    (paths : List CatalogExpressionPath) : GoMap GoString CatalogExpressionPath :=
  paths.foldl (fun seen path => seen.insert path.string path) seen

/-- `CatalogExpressionDependencies`: the collected paths in the order of their dotted forms. -/
def CatalogNode.dependencies (node : CatalogNode) : List CatalogExpressionPath :=
  (((collectDependencies ∅ node.references).range .asKept).insertionSort
    fun a b => a.1 ≤ b.1).map Prod.snd

theorem CatalogExpressionPath.string_inj {path path' : CatalogExpressionPath}
    (h : path.string = path'.string) : path = path' := by
  have hparts := congrArg (splitOn 46) h
  rw [string, string, splitOn_intercalate 46 path.no_dot path.parts_ne,
    splitOn_intercalate 46 path'.no_dot path'.parts_ne] at hparts
  cases path
  cases path'
  cases hparts
  rfl

theorem lookup_collectDependencies {path : CatalogExpressionPath}
    {seen : GoMap GoString CatalogExpressionPath} {paths : List CatalogExpressionPath}
    (h : seen.lookup path.string = some path ∨ path ∈ paths) :
    (collectDependencies seen paths).lookup path.string = some path := by
  induction paths generalizing seen with
  | nil => exact h.resolve_right not_mem_nil
  | cons path' paths ih =>
    refine ih ?_
    by_cases heq : path.string = path'.string
    · cases CatalogExpressionPath.string_inj heq
      exact .inl (AList.lookup_insert _)
    · rw [AList.lookup_insert_ne heq]
      refine h.imp_right fun hmem => (mem_cons.mp hmem).resolve_left ?_
      rintro rfl
      exact heq rfl

/-- The list of dependencies has every reference. -/
theorem mem_dependencies {node : CatalogNode} {path : CatalogExpressionPath}
    (h : path ∈ node.references) : path ∈ node.dependencies := by
  refine mem_map.mpr ⟨(path.string, path), (perm_insertionSort _ _).mem_iff.mpr ?_, rfl⟩
  exact GoMap.mem_range.mpr (lookup_collectDependencies (.inr h))

section

variable {functions : CatalogFunctions} {values values' : AnyValue}

/-- Two rows have the same value at a path, or none. -/
def AgreeAt (values values' : AnyValue) (path : CatalogExpressionPath) : Prop :=
  lookupCatalogExpressionPath values path.parts = lookupCatalogExpressionPath values' path.parts

mutual

theorem eval_congr_references : ∀ {node : CatalogNode},
    (∀ path ∈ node.references, AgreeAt values values' path) →
      node.eval functions values = node.eval functions values'
  | .literal _, _ => rfl
  | .identifier path, h => by
    have hpath := h path mem_cons_self
    unfold AgreeAt at hpath
    rw [eval, eval, hpath]
  | .call name args, h => by
    rw [eval, eval, evalArgs_congr_references h]
  | .unary op child, h => by
    have hchild : child.eval functions values = child.eval functions values' :=
      eval_congr_references h
    rw [eval, eval, hchild]
  | .binary op left right, h => by
    have hleft : left.eval functions values = left.eval functions values' :=
      eval_congr_references fun path hpath => h path (mem_append_left _ hpath)
    have hright : right.eval functions values = right.eval functions values' :=
      eval_congr_references fun path hpath => h path (mem_append_right _ hpath)
    cases op <;> simp only [eval, hleft, hright]

theorem evalArgs_congr_references : ∀ {args : List CatalogNode},
    (∀ path ∈ argReferences args, AgreeAt values values' path) →
      evalArgs functions values args = evalArgs functions values' args
  | [], _ => rfl
  | arg :: args, h => by
    rw [evalArgs, evalArgs,
      eval_congr_references fun path hpath => h path (mem_append_left _ hpath),
      evalArgs_congr_references fun path hpath => h path (mem_append_right _ hpath)]

end

/-- Rows that agree on the dependencies of an expression give it the same value or error. -/
theorem eval_eq_of_dependencies (functions : CatalogFunctions) (node : CatalogNode)
    (values values' : AnyValue) (h : ∀ path ∈ node.dependencies, AgreeAt values values' path) :
    node.eval functions values = node.eval functions values' :=
  eval_congr_references fun path hpath => h path (mem_dependencies hpath)

/-- The disjunction of `a` and a call on the negation of `b.c` reads neither `b.d` nor `d`. -/
theorem eval_eq_of_dependencies_other :
    let node : CatalogNode := .binary .or (.identifier ⟨[[97]], by decide, by decide⟩)
      (.call [102] [.unary .not (.identifier ⟨[[98], [99]], by decide, by decide⟩)])
    let value : AnyValue := .scalar (.bool false)
    node.eval (fun _ args => .ok (args.headD .null))
        (.map [([97], value), ([98], .map [([99], value), ([100], value)]), ([100], value)]) =
      node.eval (fun _ args => .ok (args.headD .null))
        (.map [([97], value), ([98], .map [([99], value)])]) := by
  refine eval_eq_of_dependencies _ _ _ _ fun path hpath => ?_
  rcases mem_cons.mp hpath with rfl | hpath
  · rfl
  · cases mem_singleton.mp hpath
    rfl

end

end QuantaStream.Bridge
