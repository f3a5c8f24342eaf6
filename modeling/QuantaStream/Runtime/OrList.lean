import Mathlib.Data.Finset.Sort
import QuantaStream.Bridge.LoweringShape
import QuantaStream.Query.WindowAgreement
import QuantaStream.Runtime.LegacyAdapter

/-!
# Predicates joined by OR

A statement whose predicates are joined by OR is run in two steps.  The predicates that can be
pushed down become fragments of one bitmap query; the others are evaluated on the rows the query
selects.  This module models the two steps, `legacyDirectExecutionWithFullTableScanSeed` for
a query without fragments and the residual filter of `qsruntime/direct_bitmap_residual.go`,
and compares the rows that are kept with the rows of the single predicates.
-/

namespace QuantaStream.Runtime

open Shared Server Bridge Query Outcome List QuantaIntermediateLowerer

/-! ## Running a predicate list -/

/-- The ways a statement ends without rows. -/
inductive RunError where
  | lowering (message : Diagnostic)
  | query (error : QueryError)
  | residual (message : Diagnostic)
  deriving DecidableEq

variable (s : TableSource)

/-- The bitmap query of the lowered fragments; without fragments the existing rows are scanned.  For
a table with time partitions `legacyDirectExecutionWithShardWindow` puts a seed before fragments
that do not bound the time field, which is left out here. -/
def queryRows (m : Node) (w : Window) : List QuantaQueryFragment → Except QueryError Bitmap
  | [] => localQuery s.table m w (toBitmapQuery s.seed [])
  | f :: fs => localQuery s.table m w (toBitmapQuery f fs)

/-- The loop of `directBitmapEvaluateResidualPredicates` after the first predicate. -/
def evaluateResidualRest (evaluate : Expr → ℕ → Except Diagnostic Bool) (row : ℕ) :
    Bool → List Predicate → Except Diagnostic Bool
  | matched, [] => .ok matched
  | matched, p :: ps => do
      let current ← evaluate p.expr row
      match p.combinator with
      | .and => evaluateResidualRest evaluate row (matched && current) ps
      | .or => evaluateResidualRest evaluate row (matched || current) ps

variable (evaluate : Expr → ℕ → Except Diagnostic Bool)

/-- `directBitmapEvaluateResidualPredicates`: the first predicate counts as a conjunct. -/
def evaluateResidualPredicates (residuals : List Predicate) (row : ℕ) : Except Diagnostic Bool :=
  match residuals with
  | [] => .ok true
  | p :: ps => do
      let current ← evaluate p.expr row
      evaluateResidualRest evaluate row current ps

/-- `directBitmapResidualScanPredicates` of a statement without joins. -/
def residualScanPredicates (ps : List Predicate) : List Predicate :=
  ps.filter (fun p => p.placement = .residualScan)

/-- The loop of `directBitmapFilterResidualScanPredicates` over the rows. -/
def keepMatching (matchRow : ℕ → Except Diagnostic Bool) : List ℕ → Except Diagnostic (List ℕ)
  | [] => .ok []
  | row :: rows => do
      let matched ← matchRow row
      let rest ← keepMatching matchRow rows
      return if matched then row :: rest else rest

def filterResidualScanPredicates (residuals : List Predicate) (rows : Bitmap) :
    Except Diagnostic Bitmap :=
  (keepMatching (evaluateResidualPredicates evaluate residuals) (rows.sort (· ≤ ·))).map
    toFinset

/-- The lowerer, the values of the parameters, and the evaluation of an expression on the cells of
a row. -/
structure Planner where
  lowerer : QuantaIntermediateLowerer
  parameters : ParameterBindingSet
  evaluate : Expr → ℕ → Except Diagnostic Bool

/-- The rows a predicate list keeps. -/
def runPredicates (m : Node) (w : Window) (planner : Planner)
    (ps : List Predicate) : Except RunError Bitmap := do
  let fragments ← (planner.lowerer.lowerQuery planner.parameters ps).mapError .lowering
  let rows ← (queryRows s m w fragments).mapError .query
  (filterResidualScanPredicates planner.evaluate (residualScanPredicates ps) rows).mapError
    .residual

/-! ## Queries of unions and differences -/

/-- The fragment adds rows: it is a union, and no check that a field is null. -/
def adds (f : QuantaQueryFragment) : Bool :=
  f.operation = .union && (!f.nullCheck || f.negate)

def isNullPredicate (f : QuantaQueryFragment) : Bool := f.nullCheck && !f.negate

theorem TableSource.seed_orShape : OrShape s.seed :=
  ⟨.inl rfl, fun _ => rfl, rfl⟩

theorem readOperation_toQueryFragment {f : QuantaQueryFragment} (hf : OrShape f) :
    readOperation (toQueryFragment f) = if adds f then .union else .difference := by
  have hnull := hf.nullCheck
  rcases hf.operation with hop | hop
  · cases hn : f.nullCheck <;> cases hg : f.negate <;>
      simp [readOperation, rewriteNullCheck, isExistenceSeedFragment, toQueryFragment, adds, hop,
        hn, hg]
  · have hn : f.nullCheck = false := by
      by_contra h
      cases hop.symm.trans (hnull (by simpa using h))
    simp [readOperation, rewriteNullCheck, toQueryFragment, adds, hop, hn]

section

variable (s : TableSource) (m : Node) (w : Window)

/-- The stored rows a fragment denotes. -/
def fragmentRows (f : QuantaQueryFragment) : Bitmap := readBitmap s.table m w (toQueryFragment f)

/-- The rows the differences of a list are taken from: the rows of the unions, or all existing
rows if the unions are empty and the existence of the table was loaded. -/
def OrBase (fs : List QuantaQueryFragment) (row : ℕ) : Prop :=
  (∃ f ∈ fs, adds f = true ∧ row ∈ fragmentRows s m w f) ∨
    (∀ f ∈ fs, adds f = true → fragmentRows s m w f = ∅) ∧
      ((∀ f ∈ fs, adds f = false) ∨ ∃ f ∈ fs, isNullPredicate f = true) ∧
      row ∈ tableExistence s.table m w

/-- No difference of the list takes the row away. -/
def Spared (fs : List QuantaQueryFragment) (row : ℕ) : Prop :=
  ∀ f ∈ fs, adds f = false → row ∉ fragmentRows s m w f

variable {s} {f : QuantaQueryFragment} {fs : List QuantaQueryFragment}
  (hvalid : ∀ g ∈ f :: fs, s.Valid g)

theorem orContext_toQueryFragment (g : QuantaQueryFragment) :
    (toQueryFragment g).orContext = false := rfl

theorem readOperation_eq_union_iff {g : QuantaQueryFragment} (hg : OrShape g) :
    readOperation (toQueryFragment g) = .union ↔ adds g = true := by
  rw [readOperation_toQueryFragment hg]
  cases adds g <;> simp

section

variable (hshape : ∀ g ∈ f :: fs, OrShape g)

include hshape

theorem nullCheckLoads_iff :
    (configuredQuery hvalid).NullCheckLoads ↔
      ∃ g ∈ f :: fs, isNullPredicate g = true := by
  rw [ListQuery.NullCheckLoads, exists_fragments_iff]
  refine exists_congr fun g => and_congr_right fun hg => ?_
  have hop := (hshape g hg).nullCheck
  cases hn : g.nullCheck with
  | false => simp [toQueryFragment, isNullPredicate, hn]
  | true => simp [toQueryFragment, isNullPredicate, isExistenceSeedFragment, hn, hop hn]

theorem not_promoted : ¬ (configuredQuery hvalid).Promoted := by
  intro h
  rcases (exists_fragments_iff hvalid _).mp h.2 with ⟨g, hg, hop⟩
  rcases (hshape g hg).operation with h | h <;> cases h.symm.trans hop

/-- A query of unions and differences has no intersect. -/
theorem no_intersect : ∀ g ∈ (configuredQuery hvalid).fragments, readOperation g ≠ .intersect := by
  refine (forall_fragments_iff hvalid _).mpr fun g hg hop => ?_
  rw [readOperation_toQueryFragment (hshape g hg)] at hop
  split_ifs at hop

theorem answerBase_iff (row : ℕ) :
    AnswerBase s.table m w (configuredQuery hvalid).toListQuery row ↔
      OrBase s m w (f :: fs) row := by
  have hunion : ∀ P : Bitmap → Prop,
      (∃ g ∈ (configuredQuery hvalid).fragments,
        readOperation g = .union ∧ P (readBitmap s.table m w g)) ↔
        ∃ g ∈ f :: fs, adds g = true ∧ P (fragmentRows s m w g) := by
    intro P
    rw [exists_fragments_iff hvalid
      (fun g => readOperation g = .union ∧ P (readBitmap s.table m w g))]
    refine exists_congr fun g => and_congr_right fun hg => ?_
    rw [readOperation_eq_union_iff (hshape g hg)]
    rfl
  have hnone : (∀ g ∈ (configuredQuery hvalid).fragments, readOperation g ≠ .union) ↔
      ∀ g ∈ f :: fs, adds g = false := by
    rw [forall_fragments_iff hvalid (fun g => readOperation g ≠ .union)]
    refine forall_congr' fun g => forall_congr' fun hg => ?_
    rw [ne_eq, readOperation_eq_union_iff (hshape g hg), Bool.not_eq_true]
  have hempty : (¬ ∃ g ∈ f :: fs, adds g = true ∧ ∃ r, r ∈ fragmentRows s m w g) ↔
      ∀ g ∈ f :: fs, adds g = true → fragmentRows s m w g = ∅ := by
    simp [Finset.eq_empty_iff_forall_notMem]
  simp only [AnswerBase, UnionsEmpty, not_promoted hvalid hshape, false_or, not_false_eq_true,
    true_and, hunion (fun b => row ∈ b), hunion (fun b => ∃ r, r ∈ b), hnone,
    nullCheckLoads_iff hvalid hshape, OrBase, hempty]

theorem not_subtracted_iff_spared (row : ℕ) :
    ¬ Subtracted s.table m w (configuredQuery hvalid).toListQuery row ↔
      Spared s m w (f :: fs) row := by
  have hcontext : (configuredQuery hvalid).first.2.orContext = false := rfl
  rw [Subtracted, hcontext, if_neg (by decide),
    exists_fragments_iff hvalid (fun g => readOperation g = .difference ∧
      g.orContext = false ∧ row ∈ readBitmap s.table m w g)]
  simp only [not_exists, not_and, Spared]
  refine forall_congr' fun g => forall_congr' fun hg => ?_
  rw [readOperation_toQueryFragment (hshape g hg)]
  cases adds g <;> simp [fragmentRows, orContext_toQueryFragment]

theorem inIntersects_of_orShape (row : ℕ) :
    InIntersects s.table m w (configuredQuery hvalid).toListQuery row :=
  fun g hg hop => absurd hop (no_intersect hvalid hshape g hg)

end

theorem mem_localQuery_of_orShape (hvalid : ∀ g ∈ f :: fs, s.Valid g)
    (hshape : ∀ g ∈ f :: fs, OrShape g) :
    ∃ rows, localQuery s.table m w (toBitmapQuery f fs) = .ok rows ∧
      ∀ row, row ∈ rows ↔ OrBase s m w (f :: fs) row ∧ Spared s m w (f :: fs) row := by
  rcases exists_localQuery _ m w (configuredQuery hvalid) with ⟨rows, hrows, hin⟩
  refine ⟨rows, hrows, fun row => ?_⟩
  have hvalued := valued_of_no_intersect (t := s.table) (not_promoted hvalid hshape)
    (no_intersect hvalid hshape) m w row
  have hmem := hin row
  rw [and_iff_left hvalued] at hmem
  rw [hmem, ← answerBase_iff m w hvalid hshape, ← not_subtracted_iff_spared m w hvalid hshape]
  exact ⟨fun h => ⟨h.base, h.notSubtracted⟩,
    fun h => ⟨h.1, h.2, inIntersects_of_orShape m w hvalid hshape row⟩⟩

end

section

variable (s : TableSource) (m : Node) (w : Window)

/-- The lowered fragments, or the seed of a full table scan. -/
def withFullTableScanSeed : List QuantaQueryFragment → List QuantaQueryFragment
  | [] => [s.seed]
  | f :: fs => f :: fs

variable {s} in
theorem withFullTableScanSeed_of_ne {fs : List QuantaQueryFragment} (h : fs ≠ []) :
    withFullTableScanSeed s fs = fs := by
  cases fs with
  | nil => exact absurd rfl h
  | cons f fs => rfl

/-- The rows of a query of unions and differences, possibly seeded. -/
theorem mem_queryRows {fs : List QuantaQueryFragment} (hvalid : ∀ f ∈ fs, s.Valid f)
    (hshape : ∀ f ∈ fs, OrShape f) :
    ∃ rows, queryRows s m w fs = .ok rows ∧
      ∀ row, row ∈ rows ↔ OrBase s m w (withFullTableScanSeed s fs) row ∧
        Spared s m w (withFullTableScanSeed s fs) row := by
  cases fs with
  | nil =>
    exact mem_localQuery_of_orShape m w (by simpa using s.seed_valid)
      (by simpa using s.seed_orShape)
  | cons f fs => exact mem_localQuery_of_orShape m w hvalid hshape

/-- A query of one fragment adds its rows or takes them from the existing ones. -/
theorem mem_single_iff (f : QuantaQueryFragment) (row : ℕ) :
    OrBase s m w [f] row ∧ Spared s m w [f] row ↔
      if adds f then row ∈ fragmentRows s m w f
      else row ∈ tableExistence s.table m w ∧ row ∉ fragmentRows s m w f := by
  cases hadd : adds f with
  | true =>
    have hnull : isNullPredicate f = false := by
      simp only [adds, Bool.and_eq_true, Bool.or_eq_true] at hadd
      cases hn : f.nullCheck <;> simp_all [isNullPredicate]
    simp [OrBase, Spared, hadd, hnull]
  | false => simp [OrBase, Spared, hadd]

theorem mem_seed_iff (row : ℕ) :
    OrBase s m w [s.seed] row ∧ Spared s m w [s.seed] row ↔
      row ∈ fragmentRows s m w s.seed := by
  rw [mem_single_iff, if_pos (by rfl)]

end

/-! ## The residual filter -/

section

variable {evaluate : Expr → ℕ → Except Diagnostic Bool} {residuals : List Predicate}

/-- The predicate can be evaluated on every row. -/
def Evaluates (evaluate : Expr → ℕ → Except Diagnostic Bool) (p : Predicate) : Prop :=
  ∀ row, ∃ b, evaluate p.expr row = .ok b

section

variable (hor : ∀ p ∈ residuals, p.combinator = .or) (heval : ∀ p ∈ residuals, Evaluates evaluate p)
  (row : ℕ)

include hor heval

theorem evaluateResidualRest_of_or (matched : Bool) :
    ∃ b, evaluateResidualRest evaluate row matched residuals = .ok b ∧
      (b = true ↔ matched = true ∨ ∃ p ∈ residuals, evaluate p.expr row = .ok true) := by
  induction residuals generalizing matched with
  | nil => exact ⟨matched, rfl, by simp⟩
  | cons p ps ih =>
    rcases heval p mem_cons_self row with ⟨current, hcurrent⟩
    rcases ih (fun q hq => hor q (mem_cons_of_mem _ hq))
      (fun q hq => heval q (mem_cons_of_mem _ hq)) (matched || current) with ⟨b, hb, hiff⟩
    refine ⟨b, ?_, by simp [hiff, hcurrent, or_assoc]⟩
    simpa only [evaluateResidualRest, hcurrent, hor p mem_cons_self, bind, Except.bind] using hb

/-- On OR predicates the filter keeps a row that some predicate holds on. -/
theorem evaluateResidualPredicates_of_or :
    ∃ b, evaluateResidualPredicates evaluate residuals row = .ok b ∧
      (b = true ↔ residuals = [] ∨ ∃ p ∈ residuals, evaluate p.expr row = .ok true) := by
  cases residuals with
  | nil => exact ⟨true, rfl, by simp⟩
  | cons p ps =>
    have hsame : evaluateResidualPredicates evaluate (p :: ps) row =
        evaluateResidualRest evaluate row false (p :: ps) := by
      simp [evaluateResidualPredicates, evaluateResidualRest, hor p mem_cons_self]
    rw [hsame]
    simpa using evaluateResidualRest_of_or hor heval row false

end

theorem keepMatching_ok {matchRow : ℕ → Except Diagnostic Bool} {keep : ℕ → Bool}
    (h : ∀ row, matchRow row = .ok (keep row)) (rows : List ℕ) :
    keepMatching matchRow rows = .ok (rows.filter keep) := by
  induction rows with
  | nil => rfl
  | cons row rows ih =>
    rw [keepMatching, h row, ih]
    cases hk : keep row <;> simp [hk, bind, Except.bind, pure, Except.pure]

theorem mem_filterResidual_of_or (hor : ∀ p ∈ residuals, p.combinator = .or)
    (heval : ∀ p ∈ residuals, Evaluates evaluate p) (rows : Bitmap) :
    ∃ kept, filterResidualScanPredicates evaluate residuals rows = .ok kept ∧
      ∀ row, row ∈ kept ↔ row ∈ rows ∧
        (residuals = [] ∨ ∃ p ∈ residuals, evaluate p.expr row = .ok true) := by
  choose keep hkeep hiff using evaluateResidualPredicates_of_or hor heval
  refine ⟨((rows.sort (· ≤ ·)).filter keep).toFinset, ?_, fun row => ?_⟩
  · rw [filterResidualScanPredicates, keepMatching_ok hkeep]
    rfl
  · rw [mem_toFinset, mem_filter, hiff, Finset.mem_sort]

end

/-! ## OR lists -/

/-- Predicates joined by OR that can be run on a table without time partitions: each one is lowered
to a fragment on a configured field or can be evaluated on every row. -/
structure OrList (s : TableSource) where
  unpartitioned : s.table.timeQuantum = .none
  planner : Planner
  predicates : List Predicate
  fragments : List QuantaQueryFragment
  predicates_ne : predicates ≠ []
  combinator_or : ∀ p ∈ predicates, p.combinator = .or
  lowered : planner.lowerer.lowerQuery planner.parameters predicates = .ok fragments
  valid : ∀ f ∈ fragments, s.Valid f
  evaluates : ∀ p ∈ predicates, p.placement = .residualScan → Evaluates planner.evaluate p

/-- The rows of a predicate list of unions, differences and residual filters. -/
theorem mem_runPredicates {s : TableSource} (m : Node) (w : Window) {planner : Planner}
    {ps : List Predicate} {fs : List QuantaQueryFragment} (hor : ∀ p ∈ ps, p.combinator = .or)
    (hlowered : planner.lowerer.lowerQuery planner.parameters ps = .ok fs)
    (hvalid : ∀ f ∈ fs, s.Valid f)
    (heval : ∀ p ∈ residualScanPredicates ps, Evaluates planner.evaluate p) :
    ∃ kept, runPredicates s m w planner ps = .ok kept ∧
      ∀ row, row ∈ kept ↔ (OrBase s m w (withFullTableScanSeed s fs) row ∧
          Spared s m w (withFullTableScanSeed s fs) row) ∧
        (residualScanPredicates ps = [] ∨
          ∃ p ∈ residualScanPredicates ps, planner.evaluate p.expr row = .ok true) := by
  have hshape : ∀ f ∈ fs, OrShape f :=
    orShape_of_mem_mapM (fun p hp => hor p (mem_of_mem_filter hp))
      ((lowerQuery_of_or hor).symm.trans hlowered)
  have hresidual : ∀ p ∈ residualScanPredicates ps, p.combinator = .or :=
    fun p hp => hor p (mem_of_mem_filter hp)
  rcases mem_queryRows s m w hvalid hshape with ⟨rows, hrows, hmem⟩
  rcases mem_filterResidual_of_or hresidual heval rows with ⟨kept, hkept, hiff⟩
  refine ⟨kept, ?_, fun row => ?_⟩
  · simp only [runPredicates, hlowered, hrows, hkept, Except.mapError, bind, Except.bind]
  · rw [hiff, hmem]

namespace OrList

variable {s : TableSource} (o : OrList s) (m : Node) (w : Window)

def residuals : List Predicate := residualScanPredicates o.predicates

/-- The fragment of a predicate that is pushed down. -/
def Lowers (p : Predicate) (f : QuantaQueryFragment) : Prop :=
  p.placement ≠ .residualScan ∧ o.planner.lowerer.lowerPredicate o.planner.parameters p = .ok f

/-- The rows a predicate selects when it stands alone: those the filter keeps of the existing
rows, those of its union, or those its difference leaves. -/
def Selects (p : Predicate) (row : ℕ) : Prop :=
  (p.placement = .residualScan ∧ row ∈ fragmentRows s m w s.seed ∧
      o.planner.evaluate p.expr row = .ok true) ∨
    ∃ f, o.Lowers p f ∧
      if adds f then row ∈ fragmentRows s m w f
      else row ∈ tableExistence s.table m w ∧ row ∉ fragmentRows s m w f

theorem fragments_eq_mapM :
    (o.predicates.filter (fun p => p.placement ≠ .residualScan)).mapM
      (o.planner.lowerer.lowerPredicate o.planner.parameters) = .ok o.fragments :=
  (lowerQuery_of_or o.combinator_or).symm.trans o.lowered

theorem exists_predicate {f : QuantaQueryFragment} (hf : f ∈ o.fragments) :
    ∃ p ∈ o.predicates, o.Lowers p f := by
  rcases exists_of_mem_results o.fragments_eq_mapM hf with ⟨p, hp, hpf⟩
  have hfilter := mem_filter.mp hp
  exact ⟨p, hfilter.1, by simpa using hfilter.2, hpf⟩

variable {p : Predicate}

theorem exists_fragment (hp : p ∈ o.predicates) (hplace : p.placement ≠ .residualScan) :
    ∃ f ∈ o.fragments, o.Lowers p f := by
  rcases exists_result_of_mem o.fragments_eq_mapM
    (mem_filter.mpr ⟨hp, by simpa using hplace⟩) with ⟨f, hf, hpf⟩
  exact ⟨f, hf, hplace, hpf⟩

theorem placement_of_fragments_nil (h : o.fragments = []) (hp : p ∈ o.predicates) :
    p.placement = .residualScan := by
  by_contra hplace
  rcases o.exists_fragment hp hplace with ⟨f, hf, _⟩
  simp [h] at hf

/-- A row a fragment of the list adds or leaves is selected by the predicate of the fragment. -/
theorem exists_selects {f : QuantaQueryFragment} (hf : f ∈ o.fragments) {row : ℕ}
    (hrow : if adds f then row ∈ fragmentRows s m w f
      else row ∈ tableExistence s.table m w ∧ row ∉ fragmentRows s m w f) :
    ∃ p ∈ o.predicates, o.Selects m w p row := by
  rcases o.exists_predicate hf with ⟨p, hp, hpf⟩
  exact ⟨p, hp, .inr ⟨f, hpf, hrow⟩⟩

theorem mem_residuals : p ∈ o.residuals ↔ p ∈ o.predicates ∧ p.placement = .residualScan := by
  simp [residuals, residualScanPredicates]

theorem run_single (hp : p ∈ o.predicates) :
    ∃ single, runPredicates s m w o.planner [p] = .ok single ∧
      ∀ row, row ∈ single ↔ o.Selects m w p row := by
  have hor : ∀ q ∈ [p], q.combinator = .or := by simpa using o.combinator_or p hp
  have hlower : o.planner.lowerer.lowerQuery o.planner.parameters [p] =
      ([p].filter (fun q => q.placement ≠ .residualScan)).mapM
        (o.planner.lowerer.lowerPredicate o.planner.parameters) :=
    lowerQuery_of_or hor
  by_cases hplace : p.placement = .residualScan
  · have hres : residualScanPredicates [p] = [p] := by simp [residualScanPredicates, hplace]
    have hnone : o.planner.lowerer.lowerQuery o.planner.parameters [p] = .ok [] := by
      rw [hlower, filter_cons_of_neg (by simpa using hplace)]
      rfl
    rcases mem_runPredicates m w hor hnone (by simp)
      (by simpa [hres] using o.evaluates p hp hplace) with ⟨single, hsingle, hmem⟩
    refine ⟨single, hsingle, fun row => ?_⟩
    rw [hmem, withFullTableScanSeed, mem_seed_iff, hres]
    simp [Selects, Lowers, hplace]
  · have hres : residualScanPredicates [p] = [] := by simp [residualScanPredicates, hplace]
    rcases o.exists_fragment hp hplace with ⟨f, hf, hpf⟩
    have hone : o.planner.lowerer.lowerQuery o.planner.parameters [p] = .ok [f] := by
      rw [hlower, filter_cons_of_pos (by simpa using hplace)]
      simp [hpf.2, bind, Except.bind, pure, Except.pure]
    rcases mem_runPredicates m w hor hone (by simpa using o.valid f hf)
      (by simp [hres]) with ⟨single, hsingle, hmem⟩
    refine ⟨single, hsingle, fun row => ?_⟩
    rw [hmem, withFullTableScanSeed, mem_single_iff, hres]
    have huniq : ∀ g, o.Lowers p g ↔ g = f :=
      fun g => ⟨fun hg => Except.ok.inj (hg.2.symm.trans hpf.2), fun hg => hg ▸ hpf⟩
    simp [Selects, hplace, huniq]

/-- A row the list keeps is selected by one of its predicates. -/
theorem kept_subset {row : ℕ} (hbase : OrBase s m w (withFullTableScanSeed s o.fragments) row)
    (hspared : Spared s m w (withFullTableScanSeed s o.fragments) row)
    (hresidual : o.residuals = [] ∨
      ∃ p ∈ o.residuals, o.planner.evaluate p.expr row = .ok true) :
    ∃ p ∈ o.predicates, o.Selects m w p row := by
  by_cases hfs : o.fragments = []
  · -- Without fragments every predicate is left to the filter.
    rw [hfs] at hbase hspared
    have hseed := (mem_seed_iff s m w row).mp ⟨hbase, hspared⟩
    rcases hresidual with hnil | ⟨p, hp, htrue⟩
    · rcases exists_mem_of_ne_nil _ o.predicates_ne with ⟨p, hp⟩
      have hmem := o.mem_residuals.mpr ⟨hp, o.placement_of_fragments_nil hfs hp⟩
      simp [hnil] at hmem
    · have hp' := o.mem_residuals.mp hp
      exact ⟨p, hp'.1, .inl ⟨hp'.2, hseed, htrue⟩⟩
  · rw [withFullTableScanSeed_of_ne hfs] at hbase hspared
    have hdifference : ∀ f ∈ o.fragments, adds f = false → row ∈ tableExistence s.table m w →
        ∃ p ∈ o.predicates, o.Selects m w p row := fun f hf hadd hexist =>
      o.exists_selects m w hf (by simpa [hadd] using ⟨hexist, hspared f hf hadd⟩)
    rcases hbase with ⟨f, hf, hadd, hrow⟩ | ⟨_, hnone | ⟨f, hf, hnull⟩, hexist⟩
    · exact o.exists_selects m w hf (by simpa [hadd] using hrow)
    · rcases exists_mem_of_ne_nil _ hfs with ⟨f, hf⟩
      exact hdifference f hf (hnone f hf) hexist
    · have hadd : adds f = false := by
        simp only [isNullPredicate, Bool.and_eq_true, Bool.not_eq_true'] at hnull
        simp [adds, hnull]
      exact hdifference f hf hadd hexist

/-- The conditions under which an OR list keeps what its predicates select. -/
structure KeepsGuards : Prop where
  /-- No difference of the list takes a selected row away. -/
  spared : ∀ p ∈ o.predicates, ∀ row, o.Selects m w p row → Spared s m w o.fragments row
  /-- If there are fragments, a selected row is in a union, or it exists and the unions are
  empty. -/
  base : o.fragments ≠ [] → ∀ p ∈ o.predicates, ∀ row, o.Selects m w p row →
    OrBase s m w o.fragments row
  /-- If there are residual predicates, one of them holds on every selected row. -/
  residual : o.residuals ≠ [] → ∀ p ∈ o.predicates, ∀ row, o.Selects m w p row →
    ∃ r ∈ o.residuals, o.planner.evaluate r.expr row = .ok true

/-- An OR list keeps exactly the rows its predicates select alone if and only if no difference of
the list takes a selected row away, every selected row is in a union or the unions are empty, and
some residual predicate, if there is one, holds on every selected row. -/
theorem orList_keeps_union_iff :
    (∃ kept, runPredicates s m w o.planner o.predicates = .ok kept ∧
        ∀ row, row ∈ kept ↔ ∃ p ∈ o.predicates,
          ∃ single, runPredicates s m w o.planner [p] = .ok single ∧ row ∈ single) ↔
      o.KeepsGuards m w := by
  rcases mem_runPredicates m w o.combinator_or o.lowered o.valid fun p hp =>
    o.evaluates p (o.mem_residuals.mp hp).1 (o.mem_residuals.mp hp).2 with ⟨kept, hkept, hmem⟩
  have hselects : ∀ row, (∃ p ∈ o.predicates,
      ∃ single, runPredicates s m w o.planner [p] = .ok single ∧ row ∈ single) ↔
        ∃ p ∈ o.predicates, o.Selects m w p row := by
    intro row
    refine exists_congr fun p => and_congr_right fun hp => ?_
    rcases o.run_single m w hp with ⟨single, hsingle, hiff⟩
    simp [hsingle, hiff]
  simp only [hkept, Except.ok.injEq, exists_eq_left', hselects, hmem]
  constructor
  · intro h
    refine ⟨fun p hp row hsel => ?_, fun hfs p hp row hsel => ?_, fun hres p hp row hsel => ?_⟩
    · have hrow := (h row).mpr ⟨p, hp, hsel⟩
      by_cases hfs : o.fragments = []
      · simp [hfs, Spared]
      · rw [withFullTableScanSeed_of_ne hfs] at hrow
        exact hrow.1.2
    · have hrow := (h row).mpr ⟨p, hp, hsel⟩
      rw [withFullTableScanSeed_of_ne hfs] at hrow
      exact hrow.1.1
    · exact ((h row).mpr ⟨p, hp, hsel⟩).2.resolve_left hres
  · intro hguards row
    constructor
    · intro hrow
      exact o.kept_subset m w hrow.1.1 hrow.1.2 hrow.2
    · rintro ⟨p, hp, hsel⟩
      refine ⟨?_, ?_⟩
      · by_cases hfs : o.fragments = []
        · rw [hfs, withFullTableScanSeed, mem_seed_iff]
          rcases hsel with ⟨_, hseed, _⟩ | ⟨f, hpf, _⟩
          · exact hseed
          · exact absurd (o.placement_of_fragments_nil hfs hp) hpf.1
        · rw [withFullTableScanSeed_of_ne hfs]
          exact ⟨hguards.base hfs p hp row hsel, hguards.spared p hp row hsel⟩
      · by_cases hres : o.residuals = []
        · exact .inl hres
        · exact .inr (hguards.residual hres p hp row hsel)

end OrList

/-! ## A list that loses a row -/

theorem orders_ne_empty : "orders" ≠ "" := by decide

def ordersSource : TableSource where
  table :=
    { timeQuantum := .none
      timeQuantumField := none
      primaryKey := ["id"]
      getAttribute n := if n ∈ ["id", "a", "b"] then some ⟨.none, true⟩ else none }
  index := "orders"
  seedField := "id"
  index_ne := orders_ne_empty
  seedField_ne := by decide
  seedField_configured := by decide
  primaryKey_ne := by decide
  primaryKey_configured := by decide

def ordersField (name : String) : FieldRef where
  table := { table := "orders" }
  name := name
  type := .int
  index := .bsi

/-- Row 1 has 1 in the first field and 2 in the second, row 2 has 5 and 3. -/
def ordersNode : Node where
  bitmapCache := []
  bsiCache := [⟨"id", 0, (Bsi.empty.setValue 1 10).setValue 2 20⟩,
    ⟨"a", 0, (Bsi.empty.setValue 1 1).setValue 2 5⟩,
    ⟨"b", 0, (Bsi.empty.setValue 1 2).setValue 2 3⟩]
  member _ := true

/-- A planner without dictionaries, for statements without residual predicates. -/
def ordersPlanner : Planner where
  lowerer := ⟨none, fun _ => none, fun _ => none⟩
  parameters := []
  evaluate _ _ := .ok true

/-- A comparison of a field with a number, as part of an OR list. -/
def orComparison (op : BinaryOp) (field : String) (v : ℤ) : Predicate where
  expr := .binary op (.field (ordersField field)) (.literal (.int v))
  combinator := .or

/-- The first field differs from 1, or the second is 2. -/
def inequalityOrEquality : OrList ordersSource where
  unpartitioned := rfl
  planner := ordersPlanner
  predicates := [orComparison .notEqual "a" 1, orComparison .equal "b" 2]
  fragments :=
    [{ (ordersField "a").fragment .difference with
        bsiOp := .eq, value := some 1, literal := some (.int 1), rangeCoalesceAllowed := true },
      { (ordersField "b").fragment .union with
        bsiOp := .eq, value := some 2, literal := some (.int 2), rangeCoalesceAllowed := true }]
  predicates_ne := by simp
  combinator_or := by simp [orComparison]
  lowered := by decide +kernel
  valid f hf := by
    simp only [mem_cons, not_mem_nil, or_false] at hf
    rcases hf with rfl | rfl
    · exact ⟨.inr (.inr rfl), rfl, by decide, by decide⟩
    · exact ⟨.inl rfl, rfl, by decide, by decide⟩
  evaluates := by simp [orComparison]

/-- The first field differs from 1 on row 2 and the second is 2 on row 1, but the OR of the two
keeps neither row: the difference of the first predicate is taken from the union of the second. -/
theorem inequality_or_equality_loses_row :
    runPredicates ordersSource ordersNode ⟨0, 0⟩ ordersPlanner inequalityOrEquality.predicates =
        .ok ∅ ∧
      runPredicates ordersSource ordersNode ⟨0, 0⟩ ordersPlanner
        [orComparison .notEqual "a" 1] = .ok {2} ∧
      runPredicates ordersSource ordersNode ⟨0, 0⟩ ordersPlanner
        [orComparison .equal "b" 2] = .ok {1} := by
  decide +kernel

end QuantaStream.Runtime
