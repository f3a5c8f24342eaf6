import QuantaStream.Query.BooleanReading

/-!
# Answers inside two windows

The shards a node reads depend on the time window of the query.  A window sees a row if it
contains every shard that holds the row.  Two windows that both see a row agree on it: each
fragment selects it in one window exactly if it does in the other.  The answers of a query agree
if every row of either answer is seen, up to one thing that is not decided row by row: when all
unions are empty and a null check loads the existence of the table, the existing rows take the
place of the unions.
-/

namespace QuantaStream.Query

open ParOr Shared Server

variable {ι : Type} {t : Table} {m : Node} {w w' : Window} {row : ℕ}

/-- The window contains every shard that holds the row. -/
structure Sees (t : Table) (m : Node) (w : Window) (row : ℕ) : Prop where
  bitmap : ∀ s ∈ m.bitmapCache, row ∈ s.bits →
    w.contains (fieldConfig t s.field).timeQuantum s.time = true
  bsi : ∀ s ∈ m.bsiCache, row ∈ s.bsi.existence →
    w.contains (fieldConfig t s.field).timeQuantum s.time = true

namespace Sees

/-! ## Fragments -/

section

variable (h : Sees t m w row) (h' : Sees t m w' row) (field : String)

include h h'

theorem mem_timeRange_iff (rowID : ℕ) :
    row ∈ timeRange m w (fieldConfig t field).timeQuantum field rowID none ↔
      row ∈ timeRange m w' (fieldConfig t field).timeQuantum field rowID none := by
  rw [mem_timeRange, mem_timeRange]
  refine and_congr_left fun _ => exists_congr fun s => and_congr_right fun hs => ?_
  refine and_congr_left fun hrow => and_congr_right fun hfield => ?_
  have hw := h.bitmap s hs hrow
  have hw' := h'.bitmap s hs hrow
  rw [hfield] at hw hw'
  simp [hw, hw']

theorem mem_timeRangeExistence_iff :
    row ∈ timeRangeExistence m w (fieldConfig t field).timeQuantum field ↔
      row ∈ timeRangeExistence m w' (fieldConfig t field).timeQuantum field := by
  simp only [timeRangeExistence, mem_parOr, List.mem_map, List.mem_filter, exists_exists_and_eq_and,
    Bool.and_eq_true, decide_eq_true_eq]
  refine exists_congr fun s => and_congr_left fun hrow =>
    and_congr_right fun hs => and_congr_right fun hfield => ?_
  have hw := h.bsi s hs hrow
  have hw' := h'.bsi s hs hrow
  rw [hfield] at hw hw'
  simp [hw, hw']

theorem get?_timeRangeBSI :
    (timeRangeBSI m w (fieldConfig t field).timeQuantum field).get? row =
      (timeRangeBSI m w' (fieldConfig t field).timeQuantum field).get? row := by
  unfold timeRangeBSI
  split_ifs
  · rfl
  refine Bsi.get?_orAll_congr fun s hs hrow => ?_
  by_cases hfield : s.field = field
  · have hw := h.bsi s hs hrow
    have hw' := h'.bsi s hs hrow
    rw [hfield] at hw hw'
    simp [hw, hw']
  · simp [hfield]

end

theorem mem_parOr_map_iff {α : Type} {xs : List α} {g g' : α → Bitmap}
    (hxs : ∀ x ∈ xs, row ∈ g x ↔ row ∈ g' x) :
    row ∈ parOr ((xs.map g).filter (· ≠ ∅)) ↔ row ∈ parOr ((xs.map g').filter (· ≠ ∅)) := by
  have hmem : ∀ g : α → Bitmap, row ∈ parOr ((xs.map g).filter (· ≠ ∅)) ↔
      ∃ x ∈ xs, row ∈ g x := by
    intro g
    simp only [mem_parOr, List.mem_filter, List.mem_map, decide_eq_true_eq]
    constructor
    · rintro ⟨b, ⟨⟨x, hx, rfl⟩, _⟩, hrow⟩
      exact ⟨x, hx, hrow⟩
    · rintro ⟨x, hx, hrow⟩
      exact ⟨g x, ⟨⟨x, hx, rfl⟩, Finset.ne_empty_of_mem hrow⟩, hrow⟩
  rw [hmem, hmem]
  exact exists_congr fun x => and_congr_right fun hx => hxs x hx

/-- Two windows that see a row agree on every fragment. -/
theorem mem_readBitmap_iff (h : Sees t m w row) (h' : Sees t m w' row) (f : QueryFragment) :
    row ∈ readBitmap t m w f ↔ row ∈ readBitmap t m w' f := by
  unfold readBitmap evalOn evalFragment
  split_ifs
  · exact mem_timeRangeExistence_iff h h' _
  · rw [compareBigValue, compareBigValue, Bsi.mem_compare, Bsi.mem_compare, get?_timeRangeBSI h h']
  · exact mem_parOr_map_iff fun raw _ => mem_timeRange_iff h h' _ _
  · exact mem_parOr_map_iff fun rowID _ => mem_timeRange_iff h h' _ _
  · rfl
  · exact mem_timeRange_iff h h' _ _

theorem mem_tableExistence_iff (h : Sees t m w row) (h' : Sees t m w' row) :
    row ∈ tableExistence t m w ↔ row ∈ tableExistence t m w' := by
  unfold tableExistence
  split
  · exact mem_timeRangeExistence_iff h h' _
  · rfl

end Sees

/-! ## Answers -/

theorem unionsEmpty_of_no_union {q : ListQuery ι} (h : ∀ f ∈ q.fragments, readOperation f ≠ .union)
    (w : Window) : UnionsEmpty t m w q :=
  fun ⟨f, hf, hop, _⟩ => h f hf hop

/-- An existing row that the window sees passes the intersects and differences, but is in none of
the unions. -/
structure OutsideUnions (t : Table) (m : Node) (w : Window) (q : ListQuery ι) (row : ℕ) :
    Prop where
  seen : Sees t m w row
  existing : row ∈ tableExistence t m w
  notSubtracted : ¬ Subtracted t m w q row
  intersects : InIntersects t m w q row
  notInUnion : ¬ ∃ f ∈ q.fragments, readOperation f = .union ∧ row ∈ readBitmap t m w f

namespace Sees

variable {q : ListQuery ι}

section

variable (h : Sees t m w row) (h' : Sees t m w' row)

include h h'

theorem subtracted_iff : Subtracted t m w q row ↔ Subtracted t m w' q row := by
  unfold Subtracted
  simp only [mem_readBitmap_iff h h']

theorem inIntersects_iff : InIntersects t m w q row ↔ InIntersects t m w' q row := by
  unfold InIntersects
  simp only [mem_readBitmap_iff h h']

/-- Two windows that see a row, and agree on whether all unions are empty if that decides about the
row, agree on whether it is in the answer. -/
theorem inAnswer_iff
    (hempty : ¬ q.Promoted → q.NullCheckLoads → OutsideUnions t m w q row →
      (UnionsEmpty t m w q ↔ UnionsEmpty t m w' q)) :
    InAnswer t m w q row ↔ InAnswer t m w' q row := by
  rw [Query.inAnswer_iff, Query.inAnswer_iff, subtracted_iff h h', inIntersects_iff h h']
  refine and_congr_left fun ⟨hsub, hin⟩ => ?_
  unfold AnswerBase
  simp only [← mem_readBitmap_iff h h', ← mem_tableExistence_iff h h']
  refine or_congr_right (and_congr_right fun hq => ?_)
  by_cases hmem : ∃ f ∈ q.fragments, readOperation f = .union ∧ row ∈ readBitmap t m w f
  · simp [hmem]
  refine or_congr_right (and_congr_left fun hload => ?_)
  rcases hload with ⟨hno | hnull, hexists⟩
  · exact iff_of_true (unionsEmpty_of_no_union hno w) (unionsEmpty_of_no_union hno w')
  · exact hempty hq hnull
      ⟨h, hexists, mt (subtracted_iff h h').mp hsub, (inIntersects_iff h h').mpr hin, hmem⟩

/-- A row outside the unions in one window is outside them in the other one. -/
theorem outsideUnions (ho : OutsideUnions t m w q row) : OutsideUnions t m w' q row where
  seen := h'
  existing := (mem_tableExistence_iff h h').mp ho.existing
  notSubtracted := mt (subtracted_iff h h').mpr ho.notSubtracted
  intersects := (inIntersects_iff h h').mp ho.intersects
  notInUnion := by
    simp only [← mem_readBitmap_iff h h']
    exact ho.notInUnion

end

end Sees

/-- A row outside the unions is in the answer if they are empty. -/
theorem OutsideUnions.inAnswer_iff_unionsEmpty {q : ListQuery ι} (h : OutsideUnions t m w q row)
    (hq : ¬ q.Promoted) (hload : q.NullCheckLoads) :
    InAnswer t m w q row ↔ UnionsEmpty t m w q := by
  have hbase : AnswerBase t m w q row ↔ UnionsEmpty t m w q := by
    simp [AnswerBase, UnionsEmpty, hq, hload, h.existing, h.notInUnion]
  rw [inAnswer_iff, hbase]
  simp [h.notSubtracted, h.intersects]

/-- The windows agree on whether all unions are empty, if that decides about a row. -/
def FallbackAgrees (t : Table) (m : Node) (w w' : Window) (q : ListQuery ι) : Prop :=
  ¬ q.Promoted → q.NullCheckLoads → (∃ row, OutsideUnions t m w q row) →
    (UnionsEmpty t m w q ↔ UnionsEmpty t m w' q)

/-- A window has the answer of one that sees all rows, and sees the rows of the answer, exactly if
no row it does not see is in either answer and the windows agree on empty unions. -/
theorem answers_agree_iff {q : ListQuery ι} (hall : ∀ row, Sees t m w' row) :
    (∀ row, (InAnswer t m w q row ↔ InAnswer t m w' q row) ∧
        (InAnswer t m w' q row → Sees t m w row)) ↔
      (∀ row, ¬ Sees t m w row → ¬ InAnswer t m w q row ∧ ¬ InAnswer t m w' q row) ∧
        FallbackAgrees t m w w' q := by
  constructor
  · refine fun h => ⟨fun row hunseen => ?_, fun hq hload hrow => ?_⟩
    · exact ⟨fun hin => hunseen ((h row).2 ((h row).1.mp hin)), fun hin => hunseen ((h row).2 hin)⟩
    · rcases hrow with ⟨row, hrow⟩
      rw [← hrow.inAnswer_iff_unionsEmpty hq hload, (h row).1]
      exact (hrow.seen.outsideUnions (hall row) hrow).inAnswer_iff_unionsEmpty hq hload
  · rintro ⟨hunseen, hfallback⟩ row
    by_cases hrow : Sees t m w row
    · exact ⟨hrow.inAnswer_iff (hall row) fun hq hload ho => hfallback hq hload ⟨row, ho⟩,
        fun _ => hrow⟩
    · exact ⟨iff_of_false (hunseen row hrow).1 (hunseen row hrow).2,
        fun hin => absurd hin (hunseen row hrow).2⟩

/-- Without an intersect no comparison is narrowed by candidates. -/
theorem valued_of_no_intersect [DecidableEq ι] {q : ListQuery ι} (hq : ¬ q.Promoted)
    (h : ∀ f ∈ q.fragments, readOperation f ≠ .intersect) (m : Node) (w : Window) (row : ℕ) :
    Valued t w (ensureBitmapQueryHasUnion q.toBitmapQuery) m row := by
  rw [ListQuery.ensure_of_not_promoted hq]
  intro o ho hplain
  exact absurd (isIntersect_of_plain hplain).1
    ((q.forall_occurrence_iff (fun f => readOperation f ≠ .intersect)).mpr h o ho)

end QuantaStream.Query
