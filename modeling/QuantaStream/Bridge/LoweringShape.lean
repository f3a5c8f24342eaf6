import QuantaStream.Bridge.Lowering
import QuantaStream.Lib.Outcome

/-!
# The shape of lowered fragments

Every form of a predicate is lowered to a fragment that intersects or subtracts.  Under OR the
combinator turns the intersects into unions and leaves the differences, so an OR list is lowered
to unions and differences, one for each predicate that is not left to the residual filter.
-/

namespace QuantaStream.Bridge

open Shared Outcome List

/-! ## What lowered fragments have in common -/

/-- What every fragment has before the combinator is applied: it intersects or subtracts, a null
check intersects, and no window of shards is marked. -/
structure LoweredShape (f : QuantaQueryFragment) : Prop where
  operation : f.operation = .intersect ∨ f.operation = .difference
  nullCheck : f.nullCheck = true → f.operation = .intersect
  shardWindow : f.shardWindow = false

variable {f : QuantaQueryFragment}

/-- An intersect built on a field has the shape, whatever else is set in it. -/
theorem LoweredShape.of_intersect (hop : f.operation = .intersect)
    (hwindow : f.shardWindow = false) : LoweredShape f :=
  ⟨.inl hop, fun _ => hop, hwindow⟩

theorem LoweredShape.of_equality {negated : Bool} (hop : f.operation = equalityOperation negated)
    (hnull : f.nullCheck = false) (hwindow : f.shardWindow = false) : LoweredShape f := by
  refine ⟨?_, fun h => absurd h (by simp [hnull]), hwindow⟩
  rw [hop]
  cases negated
  · exact .inl rfl
  · exact .inr rfl

theorem LoweredShape.of_map {α : Type} {o : Option α} {g : α → QuantaQueryFragment}
    (hg : ∀ x, LoweredShape (g x))
    (h : (pure (o.map g) : Except Diagnostic (Option QuantaQueryFragment)) = .ok (some f)) :
    LoweredShape f := by
  rcases Option.map_eq_some_iff.mp (Except.ok.inj h) with ⟨x, _, rfl⟩
  exact hg x

variable {op : BinaryOp} {field : FieldRef}

theorem nullCheckFragment_shape (h : nullCheckFragment op field = .ok f) : LoweredShape f := by
  obtain ⟨negate, _, ⟨⟩⟩ := bind_eq_ok.mp h
  exact .of_intersect rfl rfl

variable {v : LiteralExpr}

theorem literalComparisonFragment_shape (h : literalComparisonFragment op field v = .ok f) :
    LoweredShape f := by
  rcases bind_eq_ok.mp h with ⟨negated, _, hf⟩
  split_ifs at hf
  · split at hf <;> cases hf
    exact .of_equality rfl rfl rfl
  · cases hf
    exact .of_equality rfl rfl rfl

theorem boolDirectComparisonFragment_shape (h : boolDirectComparisonFragment op field v = .ok f) :
    LoweredShape f := by
  rcases bind_eq_ok.mp h with ⟨negated, _, h⟩
  rcases bind_eq_ok.mp h with ⟨normalized, _, h⟩
  split at h <;> cases h
  exact .of_equality rfl rfl rfl

theorem stringLexBSIComparisonFragment_shape
    (h : stringLexBSIComparisonFragment op field v = .ok f) : LoweredShape f := by
  rcases bind_eq_ok.mp h with ⟨negated, _, h⟩
  split_ifs at h
  · cases h
  · cases v with
    | string text =>
      cases h
      exact .of_equality rfl rfl rfl
    | _ => cases h

theorem stringEnumFragment_shape (field : FieldRef) (negated : Bool) (values : List ℤ)
    (literals missing : List LiteralExpr) :
    LoweredShape (stringEnumFragment field negated values literals missing) := by
  unfold stringEnumFragment
  split_ifs <;> exact .of_equality rfl rfl rfl

namespace QuantaIntermediateLowerer

variable {l : QuantaIntermediateLowerer} {parameters : ParameterBindingSet} {p : Predicate}
  {f : QuantaQueryFragment}

theorem lowerBetweenPredicate_shape (h : l.lowerBetweenPredicate parameters p = .ok (some f)) :
    LoweredShape f := by
  unfold lowerBetweenPredicate at h
  split at h
  · cases h
  rcases bind_eq_ok.mp h with ⟨lower, _, h⟩
  rcases bind_eq_ok.mp h with ⟨upper, _, h⟩
  split_ifs at h
  · cases h
    exact .of_intersect rfl rfl
  · obtain ⟨bounds, _, ⟨⟩⟩ := bind_eq_ok.mp h
    exact .of_equality rfl rfl rfl

theorem lowerStringLexBSILikePredicate_shape
    (h : l.lowerStringLexBSILikePredicate parameters p = .ok (some f)) : LoweredShape f := by
  unfold lowerStringLexBSILikePredicate at h
  split at h
  · cases h
  split at h
  · cases h
  rcases bind_eq_ok.mp h with ⟨v, _, h⟩
  cases v with
  | string text =>
    dsimp only at h
    split at h
    · obtain ⟨g, hg, ⟨⟩⟩ := bind_eq_ok.mp h
      exact stringLexBSIComparisonFragment_shape hg
    · exact .of_map (fun _ => .of_equality rfl rfl rfl) h
    · cases h
  | _ => cases h

theorem lowerStringEnumInPredicate_shape
    (h : l.lowerStringEnumInPredicate parameters p = .ok (some f)) : LoweredShape f := by
  unfold lowerStringEnumInPredicate at h
  split at h
  · cases h
  split_ifs at h
  · cases h
  · rcases bind_eq_ok.mp h with ⟨found, _, h⟩
    exact .of_map (fun _ => stringEnumFragment_shape _ _ _ _ _) h

theorem lowerStringEnumLikePredicate_shape
    (h : l.lowerStringEnumLikePredicate parameters p = .ok (some f)) : LoweredShape f := by
  unfold lowerStringEnumLikePredicate at h
  split at h
  · cases h
  split_ifs at h
  · cases h
  rcases bind_eq_ok.mp h with ⟨v, _, h⟩
  cases v with
  | string text =>
    dsimp only at h
    split at h
    · rcases bind_eq_ok.mp h with ⟨ids, _, h⟩
      exact .of_map (fun _ => stringEnumFragment_shape _ _ _ _ _) h
    · split at h
      · cases h
      · obtain ⟨entries, _, ⟨⟩⟩ := bind_eq_ok.mp h
        exact stringEnumFragment_shape _ _ _ _ _
    · cases h
  | _ => cases h

theorem lowerStringEnumComparison_shape
    (h : l.lowerStringEnumComparison parameters p = .ok (some f)) : LoweredShape f := by
  unfold lowerStringEnumComparison at h
  split at h
  · cases h
  split_ifs at h
  · cases h
  rcases bind_eq_ok.mp h with ⟨v, _, h⟩
  split at h
  · obtain ⟨g, hg, ⟨⟩⟩ := bind_eq_ok.mp h
    exact nullCheckFragment_shape hg
  · rcases bind_eq_ok.mp h with ⟨ids, _, h⟩
    exact .of_map (fun _ => stringEnumFragment_shape _ _ _ _ _) h

theorem lowerInPredicate_shape (h : l.lowerInPredicate parameters p = .ok (some f)) :
    LoweredShape f := by
  unfold lowerInPredicate at h
  split at h
  · cases h
  split_ifs at h <;> obtain ⟨g, hg, ⟨⟩⟩ := map_eq_ok.mp h
  · unfold lowerStringLexBSIInPredicate at hg
    split_ifs at hg
    obtain ⟨values, _, ⟨⟩⟩ := bind_eq_ok.mp hg
    exact .of_equality rfl rfl rfl
  all_goals
    obtain ⟨_, _, ⟨⟩⟩ := bind_eq_ok.mp hg
    exact .of_intersect rfl rfl

theorem lowerComparison_shape (h : l.lowerComparison parameters p = .ok f) : LoweredShape f := by
  unfold lowerComparison at h
  split at h
  · cases h
  rcases bind_eq_ok.mp h with ⟨v, _, h⟩
  split_ifs at h
  · exact nullCheckFragment_shape h
  · exact stringLexBSIComparisonFragment_shape h
  · exact boolDirectComparisonFragment_shape h
  · exact literalComparisonFragment_shape h
  · rcases map_eq_ok.mp h with ⟨x, _, rfl⟩
    exact .of_equality rfl rfl rfl

theorem firstAttempt_shape
    {attempts : List (Predicate → Except Diagnostic (Option QuantaQueryFragment))}
    (hshape : ∀ attempt ∈ attempts, ∀ f, attempt p = .ok (some f) → LoweredShape f)
    (h : firstAttempt p attempts = .ok (some f)) : LoweredShape f := by
  induction attempts with
  | nil => cases h
  | cons attempt rest ih =>
    rw [firstAttempt] at h
    split at h
    · exact ih (forall_mem_cons.mp hshape).2 h
    · exact hshape attempt mem_cons_self f h

/-- What every lowered fragment has in common before the combinator is applied. -/
theorem lowerForm_shape (h : l.lowerForm parameters p = .ok f) : LoweredShape f := by
  rcases bind_eq_ok.mp h with ⟨first, hfirst, h⟩
  cases first with
  | none => exact lowerComparison_shape h
  | some g =>
    cases h
    refine firstAttempt_shape (fun attempt hattempt f hf => ?_) hfirst
    simp only [attempts, mem_cons, not_mem_nil, or_false] at hattempt
    rcases hattempt with rfl | rfl | rfl | rfl | rfl | rfl | rfl
    · unfold lowerTextSearchPredicate at hf
      split at hf
      · split_ifs at hf
        cases hf
        exact .of_intersect rfl rfl
      · cases hf
    · exact lowerBetweenPredicate_shape hf
    · exact lowerStringLexBSILikePredicate_shape hf
    · exact lowerStringEnumInPredicate_shape hf
    · exact lowerStringEnumLikePredicate_shape hf
    · exact lowerStringEnumComparison_shape hf
    · exact lowerInPredicate_shape hf

end QuantaIntermediateLowerer

/-! ## OR lists -/

/-- What a fragment of an OR predicate has: it adds or subtracts, a null check adds, and no window
of shards is marked. -/
structure OrShape (f : QuantaQueryFragment) : Prop where
  operation : f.operation = .union ∨ f.operation = .difference
  nullCheck : f.nullCheck = true → f.operation = .union
  shardWindow : f.shardWindow = false

theorem applyCombinator_orShape (hf : LoweredShape f) {p : Predicate} (hor : p.combinator = .or) :
    OrShape (applyCombinator f p) := by
  unfold applyCombinator
  rcases hf.operation with hop | hop
  · rw [if_pos ⟨hor, hop⟩]
    exact ⟨.inl rfl, fun _ => rfl, hf.shardWindow⟩
  · rw [if_neg (by simp [hop])]
    refine ⟨.inr hop, fun hnull => ?_, hf.shardWindow⟩
    rw [hf.nullCheck hnull] at hop
    cases hop

theorem coalesceRanges_of_not_intersect {fs : List QuantaQueryFragment}
    (hfs : ∀ f ∈ fs, f.operation ≠ .intersect) : coalesceRanges fs = fs := by
  have haux : ∀ fuel, coalesceRangesAux fuel fs = fs := by
    intro fuel
    induction fuel generalizing fs with
    | zero => rfl
    | succ fuel ih =>
      cases fs with
      | nil => rfl
      | cons f fs =>
        have hnone : fs.findIdx? (rangePair f) = none := by
          simp [rangePair, sameRangeField, hfs f mem_cons_self]
        rw [coalesceRangesAux, hnone]
        rw [ih (fun g hg => hfs g (mem_cons_of_mem _ hg))]
  exact haux fs.length

namespace QuantaIntermediateLowerer

variable {l : QuantaIntermediateLowerer} {parameters : ParameterBindingSet}

variable {ps : List Predicate}

/-- The lowered predicates of an OR list are those that are not left to the residual filter, one
fragment each. -/
theorem lowerPredicates_of_or (hor : ∀ p ∈ ps, p.combinator = .or) :
    l.lowerPredicates parameters ps =
      (ps.filter (fun p => p.placement ≠ .residualScan)).mapM (l.lowerPredicate parameters) := by
  induction ps with
  | nil => rfl
  | cons p ps ih =>
    have hp := hor p mem_cons_self
    have hps := ih (fun q hq => hor q (mem_cons_of_mem _ hq))
    rw [lowerPredicates, hps]
    by_cases hres : p.placement = .residualScan
    · rw [filter_cons_of_neg (by simp [hres])]
      have hnone : l.lowerResidualCandidatePredicate parameters p = .ok none := by
        simp [lowerResidualCandidatePredicate, hp]
      rw [if_pos hres, hnone]
      cases (ps.filter (fun p => p.placement ≠ .residualScan)).mapM (l.lowerPredicate parameters) <;>
        rfl
    · rw [filter_cons_of_pos (by simp [hres]), mapM_cons]
      simp only [hres, if_false]
      cases l.lowerPredicate parameters p <;> simp [bind, Except.bind, pure, Except.pure]

theorem orShape_of_mem_mapM {fs : List QuantaQueryFragment} (hor : ∀ p ∈ ps, p.combinator = .or)
    (h : ps.mapM (l.lowerPredicate parameters) = .ok fs) : ∀ f ∈ fs, OrShape f := by
  intro f hf
  obtain ⟨p, hp, hlower⟩ := Outcome.exists_of_mem_results h hf
  rcases map_eq_ok.mp hlower with ⟨g, hg, rfl⟩
  exact applyCombinator_orShape (lowerForm_shape hg) (hor p hp)

/-- An OR list is lowered predicate by predicate. -/
theorem lowerQuery_of_or (hor : ∀ p ∈ ps, p.combinator = .or) :
    l.lowerQuery parameters ps =
      (ps.filter (fun p => p.placement ≠ .residualScan)).mapM (l.lowerPredicate parameters) := by
  rw [lowerQuery, lowerPredicates_of_or hor]
  cases h : (ps.filter (fun p => p.placement ≠ .residualScan)).mapM
      (l.lowerPredicate parameters) with
  | error e => rfl
  | ok fs =>
    have hshape := orShape_of_mem_mapM (fun p hp => hor p (mem_of_mem_filter hp)) h
    rw [Except.map, coalesceRanges_of_not_intersect]
    intro f hf hop
    rcases (hshape f hf).operation with h | h <;> cases h.symm.trans hop

end QuantaIntermediateLowerer

end QuantaStream.Bridge
