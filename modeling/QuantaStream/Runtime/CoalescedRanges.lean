import QuantaStream.Bridge.RangeCoalescing
import QuantaStream.Runtime.OrList

/-!
# Coalesced ranges on the nodes

`Bridge/RangeCoalescing` joins two bounds of a field into one range.  This module reads the
fragments as the nodes do and shows that a row passes the range exactly if it passes both bounds,
for a flat conjunction and for a grouped filter.
-/

namespace QuantaStream.Runtime

open Shared Server Bridge Query

section

variable (s : TableSource) (m : Node) (w : Window)

/-- The row passes a fragment: it is among its rows, or not among those a difference takes away. -/
def Passes (f : QuantaQueryFragment) (row : ℕ) : Prop :=
  if readOperation (toQueryFragment f) = .difference then row ∉ fragmentRows s m w f
  else row ∈ fragmentRows s m w f

/-- The values of a field that the node shows in the window. -/
def fieldValues (field : String) : Bsi :=
  timeRangeBSI m w (fieldConfig s.table field).timeQuantum field

theorem mem_fragmentRows_iff {s : TableSource} {m : Node} {w : Window} {f : QuantaQueryFragment}
    {row : ℕ} (hop : f.bsiOp ≠ .na) (hnull : f.nullCheck = false) :
    row ∈ fragmentRows s m w f ↔
      ∃ x, (fieldValues s m w f.field).get? row = some x ∧ selectsValue f x := by
  have hnull' : (toQueryFragment f).nullCheck = false := hnull
  have hop' : (toQueryFragment f).bsiOp ≠ .na := hop
  have hrows : fragmentRows s m w f =
      (fieldValues s m w f.field).compare (bsiSelects (toQueryFragment f)) := by
    unfold fragmentRows readBitmap rewriteNullCheck evalOn evalFragment
    rw [hnull', if_neg Bool.false_ne_true, hnull', Bool.false_and, if_neg Bool.false_ne_true,
      if_pos hop']
    rfl
  rw [hrows, Bsi.mem_compare]
  exact exists_congr fun x => and_congr_right fun _ => bsiSelects_toQueryFragment f x

end

variable {f g : QuantaQueryFragment}

/-- The range of two opposite bounds selects the values within both. -/
theorem selectsValue_rangeFragment (h : Bounds f g) (x : ℤ) :
    selectsValue (rangeFragment f g) x ↔ selectsValue f x ∧ selectsValue g x := by
  rcases h.value with ⟨v, w, hv, hw⟩
  rcases h.ops with ⟨hf, hg⟩ | ⟨hf, hg⟩ <;>
    simp only [lowerBoundOp, upperBoundOp, Bool.or_eq_true, decide_eq_true_eq] at hf hg <;>
    rcases hf with hf | hf <;> rcases hg with hg | hg <;>
    simp [selectsValue, rangeFragment, lowerBoundOp, inclusiveLowerBound, inclusiveUpperBound,
      hf, hg, hv, hw] <;> omega

/-- A row of every table under every role it has in a statement, and the nodes, windows and
candidate sets it is read from. -/
structure RowReading where
  source : String → TableSource
  node : String → Node
  window : String → Window
  row : String → String → ℕ
  candidate : QuantaCandidateSet → Prop

/-- The leaf selects the row of its table. -/
def RowReading.selects (r : RowReading) : FilterLeaf → Prop
  | .fragment f =>
    Passes (r.source f.index) (r.node f.index) (r.window f.index) f (r.row f.index f.role)
  | .candidateSet c => r.candidate c

theorem RowReading.selects_rangeFragment (r : RowReading) (h : rangePair f g = true) :
    r.selects (.fragment (rangeFragment f g)) ↔
      r.selects (.fragment f) ∧ r.selects (.fragment g) := by
  have hbounds := bounds_of_rangePair h
  have hop : ∀ e : QuantaQueryFragment, e.operation = .intersect ∧ e.nullCheck = false →
      readOperation (toQueryFragment e) = .intersect := by
    rintro e ⟨hintersect, hnull⟩
    simp [readOperation, rewriteNullCheck, toQueryFragment, hintersect, hnull]
  have hbsi : f.bsiOp ≠ .na ∧ g.bsiOp ≠ .na := by
    rcases hbounds.ops with hops | hops <;>
      simp only [lowerBoundOp, upperBoundOp, Bool.or_eq_true, decide_eq_true_eq] at hops <;>
      rcases hops with ⟨hf | hf, hg | hg⟩ <;> simp [hf, hg]
  have hrange : readOperation (toQueryFragment (rangeFragment f g)) = .intersect :=
    hop (rangeFragment f g) hbounds.left_plain
  simp only [selects, Passes, hrange, hop f hbounds.left_plain, hop g hbounds.right_plain,
    reduceCtorEq, if_false]
  rw [mem_fragmentRows_iff hbsi.1 hbounds.left_plain.2,
    mem_fragmentRows_iff hbsi.2 hbounds.right_plain.2,
    mem_fragmentRows_iff (f := rangeFragment f g) (by simp [rangeFragment]) hbounds.left_plain.2,
    ← hbounds.index, ← hbounds.role, ← hbounds.field]
  have hfield : (rangeFragment f g).index = f.index ∧ (rangeFragment f g).role = f.role ∧
      (rangeFragment f g).field = f.field := ⟨rfl, rfl, rfl⟩
  simp only [hfield, selectsValue_rangeFragment hbounds]
  constructor
  · rintro ⟨x, hx, hf, hg⟩
    exact ⟨⟨x, hx, hf⟩, ⟨x, hx, hg⟩⟩
  · rintro ⟨⟨x, hx, hf⟩, ⟨y, hy, hg⟩⟩
    obtain rfl := Option.some.inj (hx.symm.trans hy)
    exact ⟨x, hx, hf, hg⟩

/-- Coalescing keeps the rows that a grouped filter and a flat conjunction select, and every
predicate of them once, alone or as a bound of one range. -/
theorem coalescing_keeps_rows_and_predicates (r : RowReading) :
    (∀ filter : QuantaFilterExpression,
      ((coalesceFilterRanges filter).holds r.selects ↔ filter.holds r.selects) ∧
        Pairing.Kept leafPair coalescedLeaf (filter.leaves : Multiset FilterLeaf)
          (coalesceFilterRanges filter).leaves) ∧
      ∀ fs : List QuantaQueryFragment,
        ((∀ f ∈ coalesceRanges fs, r.selects (.fragment f)) ↔
          ∀ f ∈ fs, r.selects (.fragment f)) ∧
          Pairing.Kept rangePair rangeFragment (fs : Multiset QuantaQueryFragment)
            (coalesceRanges fs) := by
  refine ⟨fun filter => ⟨?_, kept_coalesceFilterRanges filter⟩,
    fun fs => ⟨?_, kept_coalesceRanges fs⟩⟩
  · exact holds_coalesceFilterRanges (fun f g h => r.selects_rangeFragment h) filter
  · have hkept := (kept_coalesceRanges fs).forall_iff (v := fun f => r.selects (.fragment f))
      fun f g h => r.selects_rangeFragment h
    simpa using hkept

end QuantaStream.Runtime
