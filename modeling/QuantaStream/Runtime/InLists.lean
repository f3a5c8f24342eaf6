import QuantaStream.Runtime.CellReading

/-!
# IN lists

An IN list over a field should be the union of the equalities with its literals, and a NOT IN list
the intersection of the inequalities.  Lists of numbers are never negated, lists with NULL are
refused, and a list of scaled decimals looks for the values without their scale.  A cell has at
most one value here; rows of a set-valued enum field are left out.
-/

namespace QuantaStream.Runtime

open Shared Server Bridge Query Outcome QuantaIntermediateLowerer List FieldRef

section

variable (l : QuantaIntermediateLowerer) (parameters : ParameterBindingSet) (field : FieldRef)

/-- No row has the ID that stands for a label without an ID. -/
def PossibleCell (cell : Option ℤ) : Prop :=
  field.index = .stringEnum → cell ≠ some impossibleStringEnumID

/-- The IN list is the union of the equalities. -/
def InIsUnion (vs : List LiteralExpr) : Prop :=
  ∃ f, l.lowerPredicate parameters (listPredicate field false vs) = .ok f ∧
    ∀ cell, PossibleCell field cell → (CellPasses f cell ↔ ∃ v ∈ vs, ∃ g,
      l.lowerPredicate parameters (literalPredicate field false v) = .ok g ∧ CellPasses g cell)

/-- The NOT IN list is the intersection of the inequalities. -/
def NotInIsIntersection (vs : List LiteralExpr) : Prop :=
  ∃ f, l.lowerPredicate parameters (listPredicate field true vs) = .ok f ∧
    ∀ cell, PossibleCell field cell → (CellPasses f cell ↔ ∀ v ∈ vs, ∃ g,
      l.lowerPredicate parameters (literalPredicate field true v) = .ok g ∧ CellPasses g cell)

/-- The encodings with lists: integers, scaled decimals and times; enums with a dictionary; and
inline lexical strings. -/
inductive ListField : Prop
  | number (hindex : field.index = .bsi ∨ field.index = .dateTime)
      (hkind : field.encoding.kind ≠ .stringLexBSI) (htype : field.type ≠ .bool)
  | enum (hindex : field.index = .stringEnum) (hdictionary : l.dictionaries.isSome)
  | lexical (hindex : field.index ≠ .stringEnum) (hkind : field.encoding.kind = .stringLexBSI)
      (hinline : field.encoding.needsStringRemainderLookup = false)

variable {l parameters field} {negated : Bool} {v : LiteralExpr} {vs : List LiteralExpr}
  {f : QuantaQueryFragment}

/-- Only texts are compared with a lexical string. -/
theorem text_of_lowered (hindex : field.index ≠ .stringEnum)
    (hkind : field.encoding.kind = .stringLexBSI) (hv : v ≠ .null)
    (h : l.lowerPredicate parameters (literalPredicate field false v) = .ok f) :
    ∃ text, .string text = v := by
  rw [lowerPredicate_comparison hindex] at h
  cases v with
  | null => exact absurd rfl hv
  | string text => exact ⟨text, rfl⟩
  | _ =>
    simp [literalPredicate, lowerComparison, comparisonParts, supportedComparison, valueExpr,
      value, hkind, stringLexBSIComparisonFragment, equalityOnly, bind, Except.bind] at h
    split_ifs at h

/-- With a dictionary the lowering of a label is never left to another encoding. -/
theorem stringEnumIDs_ne_none (hdictionary : l.dictionaries.isSome) :
    l.stringEnumIDs field v ≠ .ok none := by
  obtain ⟨resolver, hresolver⟩ := Option.isSome_iff_exists.mp hdictionary
  cases v with
  | string label =>
    cases h : resolver.lookupLabel field.dictionaryRef label with
    | ok id => simp [stringEnumIDs, stringEnumID, hresolver, h, Except.map]
    | error e => cases e <;> simp [stringEnumIDs, stringEnumID, hresolver, h, Except.map]
  | _ => simp [stringEnumIDs, stringEnumID]

section

variable (hindex : field.index = .stringEnum)

include hindex

/-- An equality or inequality with a label. -/
theorem lowerPredicate_label {o : Except Diagnostic (List ℤ)} (hv : v ≠ .null)
    (hids : l.stringEnumIDs field v = o.map some) :
    l.lowerPredicate parameters (literalPredicate field negated v) =
      o.map (stringEnumFragment field negated · [v] [v]) := by
  refine lowerPredicate_of_attempt rfl (firstAttempt_literal.trans ?_)
  cases negated <;> cases o <;> simp [literalPredicate, lowerStringEnumComparison,
    comparisonParts, supportedComparison, valueExpr, value, ok_bind, hids, hindex] <;> rfl

/-- A list of labels. -/
theorem lowerPredicate_labels {o : Except Diagnostic (List (ℤ × LiteralExpr))}
    (hitems : l.stringEnumInItems parameters field (vs.map .literal) = o.map some) :
    l.lowerPredicate parameters (listPredicate field negated vs) = o.map fun items =>
      stringEnumFragment field negated (items.map Prod.fst) (items.map Prod.snd) [] := by
  refine lowerPredicate_of_attempt rfl (firstAttempt_list.trans ?_)
  cases negated <;> cases o <;>
    simp [listPredicate, lowerStringEnumInPredicate, inParts, hindex, hitems, Except.map]

omit hindex in
/-- A list of labels looks for the IDs of all its labels. -/
theorem stringEnumInItems_eq_ok {idss : List (List ℤ)}
    (h : List.Forall₂ (fun v ids => l.stringEnumIDs field v = .ok (some ids)) vs idss) :
    ∃ items, l.stringEnumInItems parameters field (vs.map .literal) = .ok (some items) ∧
      items.map Prod.fst = idss.flatten := by
  induction h with
  | nil => exact ⟨[], rfl, rfl⟩
  | @cons v ids vs idss hv _ ih =>
    obtain ⟨items, hitems, hfst⟩ := ih
    refine ⟨ids.map (·, v) ++ items, ?_, by simp [hfst, Function.comp_def]⟩
    simp [stringEnumInItems, value, ok_bind, hv, hitems]

/-- A label whose comparison is lowered has IDs. -/
theorem ids_of_lowered (hdictionary : l.dictionaries.isSome) (hv : v ≠ .null)
    (h : l.lowerPredicate parameters (literalPredicate field false v) = .ok f) :
    ∃ ids, l.stringEnumIDs field v = .ok (some ids) := by
  cases hids : l.stringEnumIDs field v with
  | error e => cases (lowerPredicate_label (o := .error e) hindex hv hids).symm.trans h
  | ok ids =>
    cases ids with
    | none => exact absurd hids (stringEnumIDs_ne_none hdictionary)
    | some ids => exact ⟨ids, rfl⟩

/-- A list of labels has no NULL. -/
theorem null_notMem_of_labels (hdictionary : l.dictionaries.isSome)
    (h : l.lowerPredicate parameters (listPredicate field negated vs) = .ok f) : .null ∉ vs := by
  intro hnull
  have hitems : ∃ e, l.stringEnumInItems parameters field (vs.map .literal) = .error e := by
    clear h
    induction vs with
    | nil => cases hnull
    | cons v vs ih =>
      cases hids : l.stringEnumIDs field v with
      | error e => exact ⟨e, by simp [stringEnumInItems, value, ok_bind, hids]; rfl⟩
      | ok ids =>
        cases ids with
        | none => exact absurd hids (stringEnumIDs_ne_none hdictionary)
        | some ids =>
          rcases mem_cons.mp hnull with rfl | hnull
          · cases hids
          · obtain ⟨e, he⟩ := ih hnull
            exact ⟨e, by simp [stringEnumInItems, value, ok_bind, hids, he]⟩
  obtain ⟨e, he⟩ := hitems
  cases (lowerPredicate_labels (o := .error e) hindex he).symm.trans h

end

/-- The fragment for labels passes the rows with one of the IDs, or all the others. -/
theorem cellPasses_stringEnumFragment {ids : List ℤ} {literals missing : List LiteralExpr}
    {cell : Option ℤ} (hcell : cell ≠ some impossibleStringEnumID) :
    CellPasses (stringEnumFragment field negated ids literals missing) cell ↔
      ((∃ x ∈ ids, cell = some x) ↔ negated = false) := by
  unfold stringEnumFragment
  split_ifs with hids
  · rw [cellPasses_iff rfl rfl]
    simp [CellSelected, fragment, hids, hcell]
  · rw [cellPasses_iff rfl rfl]
    simp [CellSelected, fragment, and_comm]

/-- The end of `bsiComparisonValue` keeps the operation. -/
theorem op_of_bigInt {op op' : BinaryOp} {w : LiteralExpr} {n : ℤ}
    (h : ((match bigInt w with
      | none => throw (quantaIntermediateDiagnostics
          "only integer BSI comparison values are lowered in this slice")
      | some n => return (op', n)) : Except Diagnostic (BinaryOp × ℤ)) = .ok (op, n)) :
    op = op' := by
  cases hw : bigInt w <;> (rw [hw] at h; cases h)
  rfl

section

variable (hindex : field.index = .bsi ∨ field.index = .dateTime)
  (hkind : field.encoding.kind ≠ .stringLexBSI)

include hindex hkind

/-- A list of numbers is never negated, and has no NULL. -/
theorem lowerPredicate_numbers
    (h : l.lowerPredicate parameters (listPredicate field negated vs) = .ok f) :
    .null ∉ vs ∧ ¬ CellPasses f none := by
  have hlower : l.lowerPredicate parameters (listPredicate field negated vs) =
      l.lowerBSIInPredicate parameters field (vs.map .literal) negated := by
    refine lowerPredicate_of_attempt rfl (firstAttempt_list.trans ?_)
    rcases hindex with hindex | hindex <;> cases negated <;>
      simp [listPredicate, lowerStringEnumInPredicate, inParts, hindex, lowerInPredicate, hkind]
  rw [hlower] at h
  obtain ⟨found, hfound, hf⟩ := bind_eq_ok.mp h
  cases hf
  refine ⟨fun hnull => ?_, by simp [CellPasses, CellSelected, fragment]⟩
  obtain ⟨y, -, hy⟩ := exists_result_of_mem hfound (mem_map_of_mem hnull)
  rcases hindex with hindex | hindex <;>
    simp [inItem, value, hindex, normalizeTimeValue, parseTimeValue, bigInt, bind,
      Except.bind, pure, Except.pure, throw, throwThe, MonadExceptOf.throw] at hy

/-- An inequality of numbers passes rows without a value. -/
theorem cellPasses_inequality (htype : field.type ≠ .bool) (hv : v ≠ .null)
    (h : l.lowerPredicate parameters (literalPredicate field true v) = .ok f) :
    CellPasses f none := by
  have hlower : l.lowerPredicate parameters (literalPredicate field true v) =
      l.bsiComparisonFragment .notEqual field v := by
    rw [lowerPredicate_comparison (by rcases hindex with h | h <;> simp [h])]
    rcases hindex with hindex | hindex <;> simp [literalPredicate, lowerComparison,
      comparisonParts, supportedComparison, valueExpr, value, ok_bind, hv, hkind, htype, hindex]
  rw [hlower] at h
  obtain ⟨⟨op, n⟩, hvalue, rfl⟩ := map_eq_ok.mp h
  have hop : op = .notEqual := by
    have htime : ∀ w, l.normalizeDiscreteTimeComparison .notEqual field v w = (.notEqual, w) :=
      fun w => by cases w <;> rfl
    have hnumeric : ∀ {w y}, normalizeDiscreteNumericComparison .notEqual w = .ok y →
        y.1 = .notEqual := by
      intro w y h
      unfold normalizeDiscreteNumericComparison at h
      split at h
      · split_ifs at h
        cases h
        rfl
      · cases h
        rfl
    rcases hindex with hindex | hindex <;> by_cases hscale : 0 < field.encoding.scale <;>
      by_cases hint : field.type = .int <;>
      simp only [bsiComparisonValue, hindex, hscale, hint, htype, htime, bind_eq_ok, pure_bind,
        reduceCtorEq, if_true, if_false] at hvalue
    all_goals
      repeat obtain ⟨y, hy, hvalue⟩ := hvalue
      first | exact op_of_bigInt hvalue | exact (op_of_bigInt hvalue).trans (hnumeric hy)
  simp [CellPasses, CellSelected, fragment, hop, equalityOperation]

end

/-- A list that looks for what its comparisons look for. -/
theorem exact_of_numbers {n : LiteralExpr → List ℤ} (hliteral : ∀ v ∈ vs, ∀ negated, ∃ g,
      l.lowerPredicate parameters (literalPredicate field negated v) = .ok g ∧
        ∀ cell, PossibleCell field cell →
          (CellPasses g cell ↔ ((∃ x ∈ n v, cell = some x) ↔ negated = false)))
    (hlist : ∀ negated, ∃ f, l.lowerPredicate parameters (listPredicate field negated vs) = .ok f ∧
      ∀ cell, PossibleCell field cell →
        (CellPasses f cell ↔ ((∃ v ∈ vs, ∃ x ∈ n v, cell = some x) ↔ negated = false))) :
    InIsUnion l parameters field vs ∧ NotInIsIntersection l parameters field vs := by
  constructor
  · obtain ⟨f, hf, hpasses⟩ := hlist false
    refine ⟨f, hf, fun cell hcell => (hpasses cell hcell).trans ?_⟩
    simp only [iff_true]
    refine exists_congr fun v => and_congr_right fun hv => ?_
    obtain ⟨g, hg, hpasses⟩ := hliteral v hv false
    simp [hg, hpasses cell hcell]
  · obtain ⟨f, hf, hpasses⟩ := hlist true
    refine ⟨f, hf, fun cell hcell => (hpasses cell hcell).trans ?_⟩
    simp only [Bool.true_eq_false, iff_false, not_exists, not_and]
    refine forall₂_congr fun v hv => ?_
    obtain ⟨g, hg, hpasses⟩ := hliteral v hv true
    simp [hg, hpasses cell hcell]

/-- The number of a text in a lexical index. -/
def textNumbers (field : FieldRef) : LiteralExpr → List ℤ
  | .string text => [stringLexBSIValue text field.encoding.prefixLength]
  | _ => []

/-- Lists are lowered like their comparisons exactly over lexical strings and enums, without
NULL. -/
theorem lists_exact_iff (hf : ListField l field) (hlowered : ∀ v ∈ vs, ∀ negated, ∃ g,
      l.lowerPredicate parameters (literalPredicate field negated v) = .ok g) :
    InIsUnion l parameters field vs ∧ NotInIsIntersection l parameters field vs ↔
      .null ∉ vs ∧ (field.index = .stringEnum ∨ field.encoding.kind = .stringLexBSI) := by
  cases hf with
  | number hindex hkind htype =>
    refine iff_of_false ?_ ?_
    · rintro ⟨-, f, hf, h⟩
      obtain ⟨hnull, hnone⟩ := lowerPredicate_numbers hindex hkind hf
      refine hnone ((h none fun _ => nofun).mpr fun v hv => ?_)
      obtain ⟨g, hg⟩ := hlowered v hv true
      exact ⟨g, hg, cellPasses_inequality hindex hkind htype (fun h => hnull (h ▸ hv)) hg⟩
    · rcases hindex with hindex | hindex <;> simp [hindex, hkind]
  | enum hindex hdictionary =>
    constructor
    · rintro ⟨⟨f, hf, -⟩, -⟩
      exact ⟨null_notMem_of_labels hindex hdictionary hf, .inl hindex⟩
    · rintro ⟨hnull, -⟩
      have hne : ∀ v ∈ vs, v ≠ .null := fun v hv h => hnull (h ▸ hv)
      have hids : ∀ v ∈ vs, ∃ ids, l.stringEnumIDs field v = .ok (some ids) := by
        intro v hv
        obtain ⟨g, hg⟩ := hlowered v hv false
        exact ids_of_lowered hindex hdictionary (hne v hv) hg
      choose! ids hids using hids
      refine exact_of_numbers (n := ids) (fun v hv negated => ?_) fun negated => ?_
      · exact ⟨_, lowerPredicate_label (o := .ok (ids v)) hindex (hne v hv) (hids v hv),
          fun cell hcell => cellPasses_stringEnumFragment (hcell hindex)⟩
      · obtain ⟨items, hitems, hfst⟩ := @stringEnumInItems_eq_ok l parameters field vs (vs.map ids)
          (by simpa [forall₂_same] using hids)
        refine ⟨_, lowerPredicate_labels (o := .ok items) hindex hitems, fun cell hcell => ?_⟩
        rw [cellPasses_stringEnumFragment (hcell hindex), hfst]
        grind
  | lexical hindex hkind hinline =>
    constructor
    · rintro ⟨⟨f, hf, -⟩, -⟩
      refine ⟨fun hnull => ?_, .inr hkind⟩
      rw [lowerPredicate_textList hindex hkind, lowerStringLexBSIInPredicate, hinline] at hf
      obtain ⟨found, hfound, -⟩ := bind_eq_ok.mp hf
      obtain ⟨y, -, hy⟩ := exists_result_of_mem hfound (mem_map_of_mem hnull)
      cases hy
    · rintro ⟨hnull, -⟩
      obtain ⟨texts, rfl⟩ : vs ∈ Set.range (map LiteralExpr.string) := by
        rw [Set.range_list_map]
        intro v hv
        obtain ⟨g, hg⟩ := hlowered v hv false
        exact text_of_lowered hindex hkind (fun h => hnull (h ▸ hv)) hg
      refine exact_of_numbers (n := textNumbers field) (fun v hv negated => ?_) (fun negated => ?_)
      · obtain ⟨text, -, rfl⟩ := mem_map.mp hv
        refine ⟨_, lowerPredicate_text hindex hkind hinline, fun cell _ => ?_⟩
        rw [cellPasses_iff rfl rfl]
        simp [CellSelected, selectsValue, textNumbers]
      · refine ⟨_, lowerPredicate_texts hindex hkind hinline, fun cell _ => ?_⟩
        rw [cellPasses_iff rfl rfl]
        simp [CellSelected, selectsValue, textNumbers, and_comm]

end

/-- A list of two texts. -/
theorem lexicalList_exact :
    let field := listField .string .bsi { kind := .stringLexBSI }
    InIsUnion plainLowerer [] field [.string [97], .string [98]] ∧
      NotInIsIntersection plainLowerer [] field [.string [97], .string [98]] := by
  refine (lists_exact_iff (.lexical (by decide) rfl rfl) fun v hv negated => ?_).mpr
    ⟨by decide, .inr rfl⟩
  rcases mem_pair.mp hv with rfl | rfl <;> exact ⟨_, lowerPredicate_text (by decide) rfl rfl⟩

/-- NOT IN over integers reads like IN, and passes no row without a value. -/
theorem integerList_not_intersection :
    ¬ NotInIsIntersection plainLowerer [] (listField .int .bsi {}) [.int 5] := by
  rintro ⟨f, hf, h⟩
  refine (lowerPredicate_numbers (.inl rfl) (by decide) hf).2
    ((h none fun _ => nofun).mpr fun v hv => ?_)
  obtain rfl := mem_singleton.mp hv
  obtain ⟨g, hg⟩ : ∃ g, plainLowerer.lowerPredicate []
      (literalPredicate (listField .int .bsi {}) true (.int 5)) = .ok g := ⟨_, rfl⟩
  exact ⟨g, hg, cellPasses_inequality (.inl rfl) (by decide) (by decide) (by decide) hg⟩

end QuantaStream.Runtime
