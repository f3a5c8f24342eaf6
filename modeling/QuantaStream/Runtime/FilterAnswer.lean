import QuantaStream.Runtime.FilterDomain

/-!
# The rows a translated filter selects

A filter over a child table and its parent should select the child rows on which it holds, where a
leaf on the parent is read on the parent row.  The translation of a subtree on the parent is
narrowed by the target conditions of the first intersection that contains the subtree.  Wherever
else the subtree is found, the translation has lost the rows that do not meet these conditions.

Main results:

- `GroupedFilter.mem_evaluate_apply_iff`: the rows the rewritten filter selects.
-/

namespace QuantaStream.Runtime

open Bridge Shared List BoolTree ForeignKeyTables RewriteResult LeafEvaluator FilterLeaf

/-! ## Subtrees on the source table -/

section

variable {source : String}

variable {children : List QuantaFilterExpression}

theorem childrenOnlySource_iff :
    childrenOnlySource source children = true ↔
      ∀ c ∈ children, expressionOnlySource source c = true := by
  induction children with
  | nil => simp [childrenOnlySource]
  | cons child children ih => simp [childrenOnlySource, ih]

variable {filter : QuantaFilterExpression}

theorem domain_of_onlySource (h : expressionOnlySource source filter = true) :
    ∀ a ∈ filter.leaves, a.domain = source := by
  induction filter using induction with
  | leaf a => simpa [expressionOnlySource] using h
  | all children ih | any children ih =>
    rw [expressionOnlySource, Bool.and_eq_true, childrenOnlySource_iff] at h
    simp only [mem_leaves_all, mem_leaves_any]
    rintro a ⟨c, hc, ha⟩
    exact ih c hc (h.2 c hc) a ha

/-- A proper part of a filter that lies on the source table. -/
structure SourcePart (source : String) (filter part : QuantaFilterExpression) : Prop where
  proper : part.Proper
  leaves : ∀ a ∈ part.leaves, a ∈ filter.leaves ∧ a.domain = source

theorem SourcePart.of_onlySource (hproper : filter.Proper)
    (h : expressionOnlySource source filter = true) : SourcePart source filter filter :=
  ⟨hproper, fun a ha => ⟨ha, domain_of_onlySource h a ha⟩⟩

variable {part : QuantaFilterExpression}

theorem SourcePart.mono {filter' : QuantaFilterExpression} (h : SourcePart source filter part)
    (hsub : ∀ a ∈ filter.leaves, a ∈ filter'.leaves) : SourcePart source filter' part :=
  ⟨h.proper, fun a ha => ⟨hsub a (h.leaves a ha).1, (h.leaves a ha).2⟩⟩

theorem sourcePart_of_mem_conjunctive (hproper : filter.Proper)
    (h : part ∈ conjunctiveSourceExpressions source filter) : SourcePart source filter part := by
  induction filter using induction with
  | leaf a | any children =>
    rw [conjunctiveSourceExpressions] at h
    split_ifs at h with honly
    · rw [mem_singleton.mp h]
      exact .of_onlySource hproper honly
    · cases h
  | all children ih =>
    rw [conjunctiveSourceExpressions] at h
    split_ifs at h with honly
    · rw [mem_singleton.mp h]
      exact .of_onlySource hproper honly
    · rcases (mem_collected rfl fun _ _ => rfl).mp h with ⟨c, hc, hpart⟩
      exact (ih c hc ((proper_all.mp hproper).2 c hc) hpart).mono
        fun a ha => mem_leaves_all.mpr ⟨c, hc, ha⟩

theorem sourcePart_of_intersectSourceBranch (hproper : filter.Proper)
    (h : intersectSourceBranch source filter = some part) : SourcePart source filter part := by
  cases filter with
  | leaf a | any children => cases h
  | all children =>
    unfold intersectSourceBranch at h
    dsimp only at h
    split_ifs at h
    have hpart : ∀ c ∈ conjunctiveSourceExpressions source (.all children),
        SourcePart source (.all children) c :=
      fun c hc => sourcePart_of_mem_conjunctive hproper hc
    refine ⟨proper_conjunctExpression h fun c hc => (hpart c hc).proper, fun a ha => ?_⟩
    rcases (mem_leaves_conjunctExpression h).mp ha with ⟨c, hc, ha⟩
    exact (hpart c hc).leaves a ha

/-- The subtrees that are translated as a whole lie on the source table. -/
theorem sourcePart_of_mem_branches (hproper : filter.Proper)
    (h : part ∈ branchesForSource source filter) : SourcePart source filter part := by
  induction filter using induction with
  | leaf a => simp [branchesForSource] at h
  | any children ih =>
    rw [branchesForSource] at h
    split_ifs at h with honly
    · rw [Bool.and_eq_true] at honly
      rw [mem_singleton.mp h]
      exact .of_onlySource hproper honly.1
    · rcases (mem_collected rfl fun _ _ => rfl).mp h with ⟨c, hc, hpart⟩
      exact (ih c hc (proper_any.mp hproper c hc) hpart).mono
        fun a ha => mem_leaves_any.mpr ⟨c, hc, ha⟩
  | all children ih =>
    rw [branchesForSource] at h
    split_ifs at h with honly
    · rw [Bool.and_eq_true] at honly
      rw [mem_singleton.mp h]
      exact .of_onlySource hproper honly.1
    · split at h
      · rename_i branch hbranch
        rw [mem_singleton.mp h]
        exact sourcePart_of_intersectSourceBranch hproper hbranch
      · rcases (mem_collected rfl fun _ _ => rfl).mp h with ⟨c, hc, hpart⟩
        exact (ih c hc ((proper_all.mp hproper).2 c hc) hpart).mono
          fun a ha => mem_leaves_all.mpr ⟨c, hc, ha⟩

variable {branches : List QuantaFilterExpression}

/-- The fragments that are translated one by one lie on the source table. -/
theorem index_of_mem_fragments {f : QuantaQueryFragment}
    (h : f ∈ fragmentsForSourceExcludingBranches source branches filter) : f.index = source := by
  induction filter using induction with
  | leaf a =>
    cases a with
    | fragment g =>
      rw [fragmentsForSourceExcludingBranches] at h
      split_ifs at h with _ hindex <;> simp_all
    | candidateSet c => simp [fragmentsForSourceExcludingBranches] at h
  | all children ih | any children ih =>
    rw [fragmentsForSourceExcludingBranches] at h
    split_ifs at h
    · cases h
    · rcases (mem_collected rfl fun _ _ => rfl).mp h with ⟨c, hc, hf⟩
      exact ih c hc hf

end

/-! ## Target conditions -/

variable {filter : QuantaFilterExpression} {target : String}

/-- The fragments of a conjunction lie on the target table and are leaves of it. -/
theorem mem_targetFilterFragmentsFromExpression {fs : List QuantaQueryFragment}
    (h : targetFilterFragmentsFromExpression target filter = some fs) :
    ∀ f ∈ fs, f.index = target ∧ .fragment f ∈ filter.leaves := by
  induction filter using induction generalizing fs with
  | leaf a =>
    cases a with
    | fragment g =>
      rw [targetFilterFragmentsFromExpression] at h
      split_ifs at h with hindex
      cases h
      simpa using hindex
    | candidateSet c => simp [targetFilterFragmentsFromExpression] at h
  | any children => simp [targetFilterFragmentsFromExpression] at h
  | all children ih =>
    rw [targetFilterFragmentsFromExpression] at h
    have hchildren : ∀ f ∈ fs, f.index = target ∧
        ∃ c ∈ children, fragment f ∈ c.leaves := by
      induction children generalizing fs with
      | nil =>
        cases h
        simp
      | cons child children ihc =>
        rw [childrenTargetFilterFragments] at h
        split at h
        · rename_i gs hs hgs hhs
          cases h
          intro f hf
          rcases mem_append.mp hf with hf | hf
          · have hchild := ih child mem_cons_self hgs f hf
            exact ⟨hchild.1, child, mem_cons_self, hchild.2⟩
          · rcases ihc (fun c hc => ih c (mem_cons_of_mem _ hc)) hhs f hf with
              ⟨hindex, c, hc, hleaf⟩
            exact ⟨hindex, c, mem_cons_of_mem _ hc, hleaf⟩
        · cases h
    intro f hf
    exact ⟨(hchildren f hf).1, mem_leaves_all.mpr (hchildren f hf).2⟩

variable {part : QuantaFilterExpression}

theorem mem_leaves_of_mem_targetExpressions
    (h : part ∈ conjunctiveTargetExpressions target filter) {a : FilterLeaf}
    (ha : a ∈ part.leaves) : a ∈ filter.leaves := by
  induction filter using induction with
  | leaf b =>
    rw [conjunctiveTargetExpressions] at h
    split_ifs at h
    · rwa [mem_singleton.mp h] at ha
    · cases h
  | any children => simp [conjunctiveTargetExpressions] at h
  | all children ih =>
    rcases (mem_collected rfl fun _ _ => rfl).mp h with ⟨c, hc, hpart⟩
    exact mem_leaves_all.mpr ⟨c, hc, ih c hc hpart⟩

variable {container : QuantaFilterExpression}

theorem exists_childrenContainingConjunctiveBranch
    {conjuncts children : List QuantaFilterExpression}
    (h : childrenContainingConjunctiveBranch conjuncts children = some container) :
    ∃ c ∈ children, containingConjunctiveBranch conjuncts c = some container := by
  induction children with
  | nil => cases h
  | cons child children ih =>
    rw [childrenContainingConjunctiveBranch, Option.orElse_eq_or, Option.or_eq_some_iff] at h
    rcases h with hchild | ⟨-, h⟩
    · exact ⟨child, mem_cons_self, hchild⟩
    · rcases ih h with ⟨c, hc, hfound⟩
      exact ⟨c, mem_cons_of_mem _ hc, hfound⟩

theorem mem_leaves_of_containing {conjuncts : List QuantaFilterExpression}
    (h : containingConjunctiveBranch conjuncts filter = some container) {a : FilterLeaf}
    (ha : a ∈ container.leaves) : a ∈ filter.leaves := by
  induction filter using induction with
  | leaf b => cases h
  | any children ih =>
    rcases exists_childrenContainingConjunctiveBranch h with ⟨c, hc, hfound⟩
    exact mem_leaves_any.mpr ⟨c, hc, ih c hc hfound⟩
  | all children ih =>
    rw [containingConjunctiveBranch] at h
    split_ifs at h
    · cases h
      exact ha
    · rcases exists_childrenContainingConjunctiveBranch h with ⟨c, hc, hfound⟩
      exact mem_leaves_all.mpr ⟨c, hc, ih c hc hfound⟩

/-- The conditions a translation is narrowed by are leaves of the filter on the target table. -/
theorem mem_targetFilterFragments {root branch : QuantaFilterExpression} :
    ∀ f ∈ targetFilterFragments target (targetFilterForSourceBranch root branch target),
      f.index = target ∧ .fragment f ∈ root.leaves := by
  intro f hf
  cases hfilter : targetFilterForSourceBranch root branch target with
  | none => simp [hfilter, targetFilterFragments] at hf
  | some filter =>
    rw [hfilter, targetFilterFragments] at hf
    cases hfs : targetFilterFragmentsFromExpression target filter with
    | none => simp [hfs] at hf
    | some fs =>
      rw [hfs] at hf
      rcases mem_targetFilterFragmentsFromExpression hfs f hf with ⟨hindex, hleaf⟩
      refine ⟨hindex, ?_⟩
      unfold targetFilterForSourceBranch at hfilter
      split_ifs at hfilter
      split at hfilter
      · rename_i container hcontainer
        rcases (mem_leaves_conjunctExpression hfilter).mp hleaf with ⟨c, hc, hleaf⟩
        exact mem_leaves_of_containing hcontainer
          (mem_leaves_of_mem_targetExpressions hc hleaf)
      · cases hfilter

/-! ## The children of a set of parents -/

namespace ForeignKeyTables

variable (d : ForeignKeyTables) (backend : VectorBackend)

/-- The children of the source rows, narrowed by the target conditions if they are read
directly. -/
theorem mem_readCandidates_iff {targetFilter : Option QuantaFilterExpression}
    (hfilter : ∀ f ∈ targetFilterFragments d.target targetFilter,
      f.index = d.target ∧ d.Admissible f) (rows : Finset ℕ) (row : ℕ) :
    row ∈ (d.readCandidates backend targetFilter rows).rownums ↔
      (∃ p ∈ rows, d.IsParent p row) ∧
        (backend.shouldReadDirect (d.sourceValues rows) = true →
          ∀ f ∈ targetFilterFragments d.target targetFilter,
            row ∈ d.leaves.evaluateFilterLeaf f) := by
  have hvalues : (∃ v ∈ d.sourceValues rows, d.foreignKey.get? row = some v) ↔
      ∃ p ∈ rows, d.IsParent p row := by
    simp only [sourceValues, Finset.mem_sort, Finset.mem_eraseNone, Finset.mem_image, IsParent]
    constructor
    · rintro ⟨v, ⟨p, hp, hkey⟩, hfk⟩
      exact ⟨p, hp, v, hkey, hfk⟩
    · rintro ⟨p, hp, v, hkey, hfk⟩
      exact ⟨v, ⟨p, hp, hkey⟩, hfk⟩
  rw [readCandidates]
  split_ifs with hdirect
  · rw [readDirect]
    split_ifs with hnil
    · rw [← hvalues, hnil]
      simp
    · rw [d.mem_queryBitmap _ _ _ hnil hfilter, hvalues]
      simp [hdirect]
  · rw [readProjected, Finset.mem_filter, hvalues, Bsi.mem_existence_iff]
    constructor
    · exact fun h => ⟨h.2, fun htrue => absurd htrue hdirect⟩
    · rintro ⟨⟨p, hp, v, hkey, hfk⟩, _⟩
      exact ⟨⟨v, hfk⟩, p, hp, v, hkey, hfk⟩

/-- The truth of a leaf on a child row and its parent. -/
def selectsOn (row : ℕ) : FilterLeaf → Prop
  | .fragment f =>
    if f.index = d.source then ∃ p, d.IsParent p row ∧ p ∈ d.leaves.evaluateFilterLeaf f
    else row ∈ d.leaves.evaluateFilterLeaf f
  | .candidateSet c => row ∈ c.rownums

theorem selects_congr (row : ℕ) (a b : FilterLeaf) (h : leafMatches a b = true) :
    d.leaves.selects row a ↔ d.leaves.selects row b := by
  cases a <;> cases b <;> simp only [leafMatches, Bool.false_eq_true, decide_eq_true_eq] at h
  · simp only [selects, d.leaves_congr _ _ h]
  · rw [h]

theorem selectsOn_congr (row : ℕ) (a b : FilterLeaf) (h : leafMatches a b = true) :
    d.selectsOn row a ↔ d.selectsOn row b := by
  cases a <;> cases b <;> simp only [leafMatches, Bool.false_eq_true, decide_eq_true_eq] at h
  · simp only [selectsOn, d.leaves_congr _ _ h, fragmentMatches_index h]
  · rw [h]

theorem isParent_unique {p q row : ℕ} (hp : d.IsParent p row) (hq : d.IsParent q row) : p = q := by
  rcases hp with ⟨v, hpv, hv⟩
  rcases hq with ⟨w, hqw, hw⟩
  cases hv.symm.trans hw
  exact d.sourceKey_inj p q v hpv hqw

/-- A filter on the source table holds on a child row if it holds on the parent. -/
theorem holds_on_parent_iff {filter : QuantaFilterExpression} (hproper : filter.Proper)
    (hleaves : ∀ a ∈ filter.leaves, ∃ f, a = .fragment f ∧ f.index = d.source) (row : ℕ) :
    (∃ p ∈ evaluateFilter d.leaves filter, d.IsParent p row) ↔ filter.holds (d.selectsOn row) := by
  simp only [mem_evaluateFilter hproper]
  by_cases hparent : ∃ p, d.IsParent p row
  · rcases hparent with ⟨p, hp⟩
    have hiff : filter.holds (d.leaves.selects p) ↔ filter.holds (d.selectsOn row) := by
      refine holds_congr_leaves fun a ha => ?_
      rcases hleaves a ha with ⟨f, rfl, hf⟩
      simp only [selects, selectsOn, hf, if_true]
      constructor
      · exact fun h => ⟨p, hp, h⟩
      · rintro ⟨q, hq, h⟩
        rwa [d.isParent_unique hp hq]
    constructor
    · rintro ⟨q, hholds, hq⟩
      rw [d.isParent_unique hq hp] at hholds
      exact hiff.mp hholds
    · exact fun h => ⟨p, hiff.mpr h, hp⟩
  · refine iff_of_false ?_ (not_holds_of_leaves hproper fun a ha => ?_)
    · rintro ⟨p, -, hp⟩
      exact hparent ⟨p, hp⟩
    rcases hleaves a ha with ⟨f, rfl, hf⟩
    simp only [selectsOn, hf, if_true]
    rintro ⟨p, hp, -⟩
    exact hparent ⟨p, hp⟩

end ForeignKeyTables

/-! ## Grouped filters -/

/-- A grouped filter on a child table and its parent. -/
structure GroupedFilter (d : ForeignKeyTables) where
  filter : QuantaFilterExpression
  proper : filter.Proper
  fragments : ∀ a ∈ filter.leaves, ∃ f, a = .fragment f ∧ d.Admissible f ∧
    (f.index = d.source ∨ f.index = d.target)
  onSource : ∃ a ∈ filter.leaves, a.domain = d.source
  onTarget : ∃ a ∈ filter.leaves, a.domain = d.target

/-! ## The tables of a filter -/

theorem mixed_of_leaves {s t : String} (hs : s ≠ "") (ht : t ≠ "") (hne : s ≠ t)
    (hsource : ∃ a ∈ filter.leaves, a.domain = s) (htarget : ∃ a ∈ filter.leaves, a.domain = t) :
    mixed (domainSummary filter) = true := by
  simp only [mixed, domainSummary, sortStrings, Finset.length_sort, decide_eq_true_eq, Finset.one_lt_card]
  refine ⟨s, ?_, t, ?_, hne⟩
  · simpa [hs] using hsource
  · simpa [ht] using htarget

theorem not_mixed_of_leaves {t : String} (h : ∀ a ∈ filter.leaves, a.domain = t) :
    mixed (domainSummary filter) = false := by
  simp only [mixed, domainSummary, sortStrings, Finset.length_sort, decide_eq_false_iff_not, not_lt]
  refine Finset.card_le_one.mpr fun a ha b hb => ?_
  simp only [Finset.mem_erase, mem_toFinset, mem_map] at ha hb
  rcases ha with ⟨_, x, hx, rfl⟩
  rcases hb with ⟨_, y, hy, rfl⟩
  rw [h x hx, h y hy]

/-- All translations are on the target table. -/
theorem targets_normalize (d : ForeignKeyTables) (backend : VectorBackend)
    (filter : QuantaFilterExpression) :
    Targets (d.normalizeFilterDomains backend filter) d.target where
  branches b hb := by
    rcases mem_map.mp hb with ⟨branch, _, rfl⟩
    simp [NormalizedBranch.leaf, candidateLeaf, normalizeFilterExpression,
      domain, readCandidates, d.target_ne]
  leaves l hl := by
    rcases mem_map.mp hl with ⟨f, _, rfl⟩
    simp [NormalizedLeaf.leaf, candidateLeaf, normalizeFilterLeaf,
      domain, readCandidates, d.target_ne]

namespace GroupedFilter

variable {d : ForeignKeyTables} (g : GroupedFilter d) (backend : VectorBackend)

/-- The translations of the subtrees and fragments on the source table. -/
def rewrite : RewriteResult := d.normalizeFilterDomains backend g.filter

/-- The target conditions the translation of a subtree is narrowed by. -/
def targetFragments (branch : QuantaFilterExpression) : List QuantaQueryFragment :=
  targetFilterFragments d.target (targetFilterForSourceBranch g.filter branch d.target)

/-- The subtree is translated by a direct read. -/
def ReadsDirect (branch : QuantaFilterExpression) : Prop :=
  backend.shouldReadDirect (d.sourceValues (evaluateFilter d.leaves branch)) = true

variable (row : ℕ)

/-- The row meets the target conditions the translation of a subtree is narrowed by. -/
def Guard (b : NormalizedBranch) : Prop :=
  ReadsDirect (d := d) backend b.originalFilter →
    ∀ f ∈ g.targetFragments b.originalFilter, row ∈ d.leaves.evaluateFilterLeaf f

def Holds : Prop := g.filter.holds (d.selectsOn row)

/-- The filter holds on the row when each translated subtree is read together with the target
conditions of the first intersection that contains it. -/
def HoldsGuarded : Prop :=
  (g.rewrite backend).Reads (d.selectsOn row) (g.Guard backend row) g.filter

def Complete : Prop := (g.rewrite backend).Covered d.source g.filter

theorem selects_branch_iff (b : NormalizedBranch) (hb : b ∈ (g.rewrite backend).branches) :
    d.leaves.selects row b.leaf ↔
      b.originalFilter.holds (d.selectsOn row) ∧ g.Guard backend row b := by
  rcases mem_map.mp hb with ⟨branch, hbranch, rfl⟩
  have hpart := sourcePart_of_mem_branches g.proper hbranch
  have hconditions : ∀ f ∈ g.targetFragments branch, f.index = d.target ∧ d.Admissible f := by
    intro f hf
    rcases mem_targetFilterFragments f hf with ⟨hindex, hmem⟩
    rcases g.fragments _ hmem with ⟨k, hk, hadmissible, _⟩
    cases hk
    exact ⟨hindex, hadmissible⟩
  refine (d.mem_readCandidates_iff backend hconditions _ row).trans (and_congr_left fun _ =>
    d.holds_on_parent_iff hpart.proper (fun a ha => ?_) row)
  rcases hpart.leaves a ha with ⟨hmem, hdomain⟩
  rcases g.fragments a hmem with ⟨f, rfl, _⟩
  exact ⟨f, rfl, hdomain⟩

/-- The translation of a fragment, and the leaves that are not translated. -/
theorem selects_rewriteLeaf_iff (a : FilterLeaf) (h : (g.rewrite backend).LeafCovered d.source a) :
    d.leaves.selects row ((g.rewrite backend).rewriteLeaf a) ↔ d.selectsOn row a := by
  rcases rewriteLeaf_cases (r := g.rewrite backend) a with
    ⟨l, hl, heq, f, rfl, hmatch⟩ | ⟨heq, hnone⟩
  · rcases mem_map.mp hl with ⟨k, hk, rfl⟩
    have hindex : k.index = d.source := index_of_mem_fragments hk
    rw [heq, d.selectsOn_congr row (.fragment f) (.fragment k) hmatch]
    have hleaf : d.leaves.selects row (d.normalizeFilterLeaf backend k).leaf ↔
        row ∈ (d.readCandidates backend none (d.leaves.evaluateFilterLeaf k)).rownums := Iff.rfl
    rw [hleaf, d.mem_readCandidates_iff backend (by simp [targetFilterFragments])]
    simp only [targetFilterFragments, not_mem_nil, false_implies, implies_true, and_true,
      selectsOn, hindex, if_true]
    exact exists_congr fun p => and_comm
  · rw [heq]
    cases a with
    | candidateSet c => rfl
    | fragment f =>
      have hne : f.index ≠ d.source := by
        refine h.resolve_right ?_
        rintro ⟨k, hk, l, hl, hmatch⟩
        cases hmatch.symm.trans (hnone k hk l hl)
      simp [selects, selectsOn, hne]

theorem mem_evaluate_apply_iff (hcomplete : g.Complete backend) (row : ℕ) :
    row ∈ evaluateFilter d.leaves ((g.rewrite backend).apply g.filter) ↔
      g.HoldsGuarded backend row := by
  rw [mem_evaluateFilter (proper_apply g.proper)]
  exact holds_apply_iff (d.selects_congr row) (g.selects_branch_iff backend row)
    (g.selects_rewriteLeaf_iff backend row) hcomplete

theorem mixed_filter : mixed (domainSummary g.filter) = true :=
  mixed_of_leaves d.source_ne d.target_ne d.source_ne_target g.onSource g.onTarget

variable (rootIndex : String)

theorem adapt_of_domain
    (h : ∀ a ∈ ((g.rewrite backend).apply g.filter).leaves, a.domain = d.target) :
    adaptFilterExpression d backend rootIndex g.filter =
      .ok (evaluateFilter d.leaves ((g.rewrite backend).apply g.filter)) := by
  have hsingle := not_mixed_of_leaves h
  rw [adaptFilterExpression, if_pos g.mixed_filter]
  exact if_neg (by rw [Bool.not_eq_true]; exact hsingle)

/-- The adapter translates the filter, and refuses it if a leaf on the source table is left. -/
theorem adapt_eq :
    (g.Complete backend ∧ adaptFilterExpression d backend rootIndex g.filter =
        .ok (evaluateFilter d.leaves ((g.rewrite backend).apply g.filter))) ∨
      ¬ g.Complete backend ∧
        ∃ message, adaptFilterExpression d backend rootIndex g.filter = .error message := by
  by_cases hcomplete : g.Complete backend
  · refine .inl ⟨hcomplete, g.adapt_of_domain backend rootIndex
      (domain_apply (targets_normalize d backend g.filter) (fun a ha => ?_) hcomplete)⟩
    rcases g.fragments a ha with ⟨f, rfl, _, hf⟩
    exact hf
  · refine .inr ⟨hcomplete, incompleteRewriteDiagnosticMessage
      (domainSummary ((g.rewrite backend).apply g.filter)) rootIndex, ?_⟩
    have hsource : ∃ a ∈ ((g.rewrite backend).apply g.filter).leaves, a.domain = d.source := by
      by_contra hnone
      push Not at hnone
      exact hcomplete (covered_of_domain_apply hnone)
    have htarget := exists_target_apply (targets_normalize d backend g.filter) g.onTarget
    have hstill := mixed_of_leaves d.source_ne d.target_ne d.source_ne_target hsource htarget
    rw [adaptFilterExpression, if_pos g.mixed_filter]
    exact if_pos hstill

end GroupedFilter

/-! ## A filter that loses a row -/

def orderLineKeys : Bsi := (Bsi.empty.setValue 1 7).setValue 2 7

/-- The order 7 is selected by every fragment on the orders.  Of its lines, row 1 has the value 1
and row 2 the value 2. -/
def orderLineRows (f : QuantaQueryFragment) : Finset ℕ :=
  if f.index = "orders" then {7}
  else if f.bsiOp = .batchEq then
    ({1, 2} : Finset ℕ).filter fun row => ∃ v ∈ f.values, orderLineKeys.get? row = some v
  else ({1, 2} : Finset ℕ).filter fun row => f.value = some (row : ℤ)

def orderLines : ForeignKeyTables where
  source := "orders"
  target := "lines"
  vectorField := "order_id"
  Admissible _ := True
  source_ne := by decide
  target_ne := by decide
  source_ne_target := by decide
  leaves :=
    { evaluateFilterLeaf := orderLineRows
      withinCandidateSet := none
      mem_within := by simp }
  leaves_congr f g h := by
    simp only [fragmentMatches, Bool.and_eq_true, decide_eq_true_eq] at h
    simp only [orderLineRows, h]
  sourceKey p := some p
  sourceKey_inj p q v hp hq := by
    have hpq := hp.trans hq.symm
    simpa using hpq
  foreignKey := orderLineKeys
  queryBitmap fs :=
    ({1, 2} : Finset ℕ).filter fun row => ∀ f ∈ fs, row ∈ orderLineRows f
  mem_queryBitmap fs values row _ hfs := by
    have hbatch : row ∈ orderLineRows (batchEqualFragment "lines" "order_id" values) ↔
        row ∈ ({1, 2} : Finset ℕ) ∧ ∃ v ∈ values, orderLineKeys.get? row = some v := by
      rw [orderLineRows, if_neg (by simp [batchEqualFragment]),
        if_pos (by simp [batchEqualFragment]), Finset.mem_filter]
      rfl
    have hkeys : ∀ v, orderLineKeys.get? row = some v → row ∈ ({1, 2} : Finset ℕ) := by
      intro v hv
      have hmem := Bsi.mem_existence_iff.mpr ⟨v, hv⟩
      simpa [orderLineKeys, or_comm] using hmem
    simp only [Finset.mem_filter, forall_mem_append, forall_mem_singleton, hbatch]
    constructor
    · rintro ⟨_, hall, _, hvalues⟩
      exact ⟨hvalues, hall⟩
    · rintro ⟨⟨v, hv, hkey⟩, hall⟩
      exact ⟨hkeys v hkey, hall, hkeys v hkey, v, hv, hkey⟩

def equalLeaf (index field : String) (value : ℤ) : FilterLeaf :=
  .fragment
    { index, role := "", field, operation := .intersect, bsiOp := .eq, value := some value }

/-- `(status = 1 AND region = 1 AND part = 1) OR (status = 1 AND region = 1 AND part = 2)`. -/
def repeatedBranch : GroupedFilter orderLines where
  filter := .any
    [.all [.leaf (equalLeaf "orders" "status" 1), .leaf (equalLeaf "orders" "region" 1),
      .leaf (equalLeaf "lines" "part" 1)],
     .all [.leaf (equalLeaf "orders" "status" 1), .leaf (equalLeaf "orders" "region" 1),
      .leaf (equalLeaf "lines" "part" 2)]]
  proper := by simp
  fragments a ha := by
    simp only [mem_leaves_any, mem_leaves_all, mem_cons,
      not_mem_nil, or_false, exists_eq_or_imp, exists_eq_left,
      mem_leaves_leaf] at ha
    rcases ha with (rfl | rfl | rfl) | rfl | rfl | rfl
    all_goals exact ⟨_, rfl, trivial, by decide⟩
  onSource := ⟨equalLeaf "orders" "status" 1, by simp, rfl⟩
  onTarget := ⟨equalLeaf "lines" "part" 1, by simp, rfl⟩

def directBackend : VectorBackend where
  hasSessions := true
  hasProjectionReader := false
  preferDirectParentToChildCandidate := false

/-- `(status = 1 AND region = 1 AND part = 1) OR (status = 1 AND part = 2)`. -/
def repeatedLeaf : QuantaFilterExpression :=
  .any [.all [.leaf (equalLeaf "orders" "status" 1), .leaf (equalLeaf "orders" "region" 1),
      .leaf (equalLeaf "lines" "part" 1)],
    .all [.leaf (equalLeaf "orders" "status" 1), .leaf (equalLeaf "lines" "part" 2)]]

end QuantaStream.Runtime
