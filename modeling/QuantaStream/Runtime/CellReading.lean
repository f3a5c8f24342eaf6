import QuantaStream.Runtime.CoalescedRanges

/-!
# Fragments and the cells of a row

Whether a row passes a fragment depends on the cell of the row in the field of the fragment: the
number a bit-sliced index stores, or the ID of an enum.  Rows of a set-valued enum field, which have
several IDs, are left out.  An equality, an inequality and a list over a field are lowered by
different functions of `qsbridge/quanta_intermediate.go`; here they are read as conditions on the
cell.
-/

namespace QuantaStream.Runtime

open Shared Server Bridge Query Outcome QuantaIntermediateLowerer

/-! ## Cells -/

def CellSelected (f : QuantaQueryFragment) (cell : Option ℤ) : Prop :=
  ∃ x, cell = some x ∧ if f.bsiOp = .na then x ∈ f.values else selectsValue f x

/-- A row with this cell passes the fragment. -/
def CellPasses (f : QuantaQueryFragment) (cell : Option ℤ) : Prop :=
  if f.nullCheck = true then (cell = none ↔ f.negate = false)
  else if f.operation = .difference then ¬ CellSelected f cell else CellSelected f cell

section

variable {s : TableSource} {m : Node} {w : Window} {f : QuantaQueryFragment} {row : ℕ}

/-- Connects cells to stored rows: a comparison or a list over a bit-sliced index reads the cell of
a row as the nodes do. -/
theorem passes_iff_cellPasses (hop : f.bsiOp ≠ .na) (hnull : f.nullCheck = false) :
    Passes s m w f row ↔ CellPasses f ((fieldValues s m w f.field).get? row) := by
  have hrows : row ∈ fragmentRows s m w f ↔
      CellSelected f ((fieldValues s m w f.field).get? row) := by
    rw [mem_fragmentRows_iff hop hnull, CellSelected]
    simp [hop]
  simp [Passes, CellPasses, readOperation, rewriteNullCheck, toQueryFragment, hnull, hrows]

end

/-! ## Lists and comparisons -/

section

variable (field : FieldRef)

/-- The equality or inequality with a literal. -/
def literalPredicate (negated : Bool) (v : LiteralExpr) : Predicate where
  expr := .binary (if negated then .notEqual else .equal) (.field field) (.literal v)

/-- The IN or NOT IN list of literals. -/
def listPredicate (negated : Bool) (vs : List LiteralExpr) : Predicate where
  expr := .binary (if negated then .notIn else .isIn) (.field field) (.list (vs.map .literal))

variable {l : QuantaIntermediateLowerer} {parameters : ParameterBindingSet} {field : FieldRef}
  {negated : Bool} {v : LiteralExpr} {vs : List LiteralExpr}

/-- Before the comparisons only the comparison with an enum can apply. -/
theorem firstAttempt_literal :
    firstAttempt (literalPredicate field negated v) (l.attempts parameters) =
      l.lowerStringEnumComparison parameters (literalPredicate field negated v) := by
  generalize h : l.lowerStringEnumComparison parameters (literalPredicate field negated v) = x
  cases negated <;> rcases x with _ | _ | _ <;>
    simp [firstAttempt, attempts, lowerTextSearchPredicate, lowerBetweenPredicate,
      betweenParts, lowerStringLexBSILikePredicate, likeParts, lowerStringEnumInPredicate, inParts,
      lowerStringEnumLikePredicate, lowerInPredicate, literalPredicate] at h ⊢ <;> simp [h]

/-- A list is a list of an enum or one of numbers. -/
theorem firstAttempt_list :
    firstAttempt (listPredicate field negated vs) (l.attempts parameters) =
      match l.lowerStringEnumInPredicate parameters (listPredicate field negated vs) with
      | .ok none => l.lowerInPredicate parameters (listPredicate field negated vs)
      | outcome => outcome := by
  generalize h : l.lowerStringEnumInPredicate parameters (listPredicate field negated vs) = x
  generalize h' : l.lowerInPredicate parameters (listPredicate field negated vs) = y
  cases negated <;> rcases x with _ | _ | _ <;> rcases y with _ | _ | _ <;>
    simp [firstAttempt, attempts, lowerTextSearchPredicate, lowerBetweenPredicate,
      betweenParts, lowerStringLexBSILikePredicate, likeParts, lowerStringEnumComparison,
      comparisonParts, supportedComparison,
      lowerStringEnumLikePredicate, listPredicate] at h h' ⊢ <;> simp [h, h']

/-- The form that applies gives the fragment. -/
theorem lowerPredicate_of_attempt {p : Predicate} {x : Except Diagnostic QuantaQueryFragment}
    (hand : p.combinator = .and) (h : firstAttempt p (l.attempts parameters) = x.map some) :
    l.lowerPredicate parameters p = x := by
  rw [lowerPredicate, lowerForm, h]
  cases x <;> simp [applyCombinator, Except.map, bind, Except.bind, pure, Except.pure, hand]

/-- Without a dictionary a comparison is lowered as one. -/
theorem lowerPredicate_comparison (hindex : field.index ≠ .stringEnum) :
    l.lowerPredicate parameters (literalPredicate field negated v) =
      l.lowerComparison parameters (literalPredicate field negated v) := by
  have hnone : firstAttempt (literalPredicate field negated v) (l.attempts parameters) =
      .ok none := by
    rw [firstAttempt_literal]
    cases negated <;> simp [literalPredicate, lowerStringEnumComparison, comparisonParts,
      supportedComparison, valueExpr, hindex]
  have hand : (literalPredicate field negated v).combinator = .and := rfl
  simp [lowerPredicate, lowerForm, hnone, ok_bind, applyCombinator, map_self, hand]

theorem cellPasses_iff {f : QuantaQueryFragment} {cell : Option ℤ} (hnull : f.nullCheck = false)
    (hop : f.operation = equalityOperation negated) :
    CellPasses f cell ↔ (CellSelected f cell ↔ negated = false) := by
  cases negated <;> simp [CellPasses, hnull, hop, equalityOperation]

variable {text : GoString} {texts : List GoString}

section

variable (hindex : field.index ≠ .stringEnum) (hkind : field.encoding.kind = .stringLexBSI)

include hindex hkind

/-- An equality or inequality over lexical strings. -/
theorem lowerPredicate_text (hinline : field.encoding.needsStringRemainderLookup = false) :
    l.lowerPredicate parameters (literalPredicate field negated (.string text)) =
      .ok { field.fragment (equalityOperation negated) with
        bsiOp := .eq, value := some (stringLexBSIValue text field.encoding.prefixLength) } := by
  rw [lowerPredicate_comparison hindex]
  cases negated <;> simp [literalPredicate, lowerComparison, comparisonParts,
    supportedComparison, valueExpr, value, ok_bind, hkind, stringLexBSIComparisonFragment,
    equalityOnly, hinline] <;> rfl

theorem lowerPredicate_textList :
    l.lowerPredicate parameters (listPredicate field negated vs) =
      l.lowerStringLexBSIInPredicate parameters field (vs.map .literal) negated := by
  refine lowerPredicate_of_attempt rfl (firstAttempt_list.trans ?_)
  cases negated <;>
    simp [listPredicate, lowerStringEnumInPredicate, inParts, hindex, lowerInPredicate, hkind]

/-- A list over lexical strings. -/
theorem lowerPredicate_texts (hinline : field.encoding.needsStringRemainderLookup = false) :
    l.lowerPredicate parameters (listPredicate field negated (texts.map .string)) =
      .ok { field.fragment (equalityOperation negated) with
        bsiOp := .batchEq
        values := texts.map (stringLexBSIValue · field.encoding.prefixLength) } := by
  have hitems : ((texts.map LiteralExpr.string).map Expr.literal).mapM
      (l.stringLexBSIInItem parameters field) =
        .ok (texts.map (stringLexBSIValue · field.encoding.prefixLength)) := by
    simp only [mapM_eq_ok, List.forall₂_map_left_iff, List.forall₂_map_right_iff, List.forall₂_same]
    exact fun text _ => rfl
  rw [lowerPredicate_textList hindex hkind, lowerStringLexBSIInPredicate, hinline, hitems]
  rfl

end

end

def listField (type : DataType) (index : IndexKind) (encoding : EncodingProfile) : FieldRef where
  table := { table := "orders" }
  name := "total"
  type := type
  index := index
  encoding := encoding

def plainLowerer : QuantaIntermediateLowerer := ⟨none, fun _ => none, fun _ => none⟩

end QuantaStream.Runtime
