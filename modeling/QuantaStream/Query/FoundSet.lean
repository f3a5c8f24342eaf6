import QuantaStream.Query.BooleanReading

/-!
# Queries within a set of rows

A query of the same process may come with the rows that are still of interest.  The node narrows
the union and intersect fragments to these rows and to the plain intersects it has evaluated.  This
module shows that on the rows with a value in every field that is compared the answer is the one of
the query without them.
-/

namespace QuantaStream.Query

open Shared Server List IntermediateResult

variable {ι : Type} [DecidableEq ι]

/-- `QueryWithFoundSet`, for a query over one index. -/
def queryWithFoundSet (t : Table) (m : Node) (w : Window) (q : BitmapQuery ι) (rows : Bitmap) :
    Except QueryError Bitmap := do
  let q := ensureBitmapQueryHasUnion q
  let result ← queryWithPriorIntersect t m w q ⟨some rows, true⟩
  return finalBitmap ((new q.getRootIndex).unmarshalAndAdd result).collapse

variable (t : Table) (m : Node) (w : Window) {q : BitmapQuery ι} {row : ℕ}

/-- Candidates that hold a row with values do not change whether the row is selected, if no row is
selected for its existence alone. -/
theorem selects_evalLoop_iff {s : PriorIntersect} (hs : ∀ rows ∈ s.rows, row ∈ rows)
    (hvalued : ∀ o ∈ q.root.occurrences, ValuedOn t m w (rewriteNullCheck o.fragment) row) :
    Selects (reducedOccurrences q) (fun o r => r ∈ evalLoop (evalOn t m w) q.root.occurrences s
        (fun _ => ∅) o.id) (fun _ => False) row ↔
      Selects (reducedOccurrences q) (fun o r => r ∈ evalOn t m w o.fragment none)
        (fun _ => False) row := by
  have hloop := fun (o : Occurrence ι) ho => mem_evalLoop (o := o) (mem_evalOn_some t m w) s row
    q.ids_nodup (fun _ => ∅) ho
  by_cases hin : InPlain (evalOn t m w) q.root.occurrences row
  · have hsame : ∀ o ∈ reducedOccurrences q, (row ∈ evalLoop (evalOn t m w) q.root.occurrences s
        (fun _ => ∅) o.id ↔ row ∈ evalOn t m w o.fragment none) := by
      intro o' ho'
      obtain ⟨o, ho, rfl⟩ := mem_reducedOccurrences.mp ho'
      exact ⟨fun h => (hloop o ho).1 h (hvalued o ho), (hloop o ho).2 hs hin⟩
    rw [selects_iff_parts, selects_iff_parts]
    grind
  · simp only [InPlain, not_forall] at hin
    obtain ⟨p, hp, hplain, hrow⟩ := hin
    have hp' := mem_reducedOccurrences.mpr ⟨p, hp, rfl⟩
    refine iff_of_false (fun h => ?_) fun h => hrow (h.2 _ hp' (isIntersect_of_plain hplain))
    have hnarrowed := h.2 _ hp' (isIntersect_of_plain hplain)
    exact hrow ((hloop p hp).1 hnarrowed (hvalued p hp))

/-- The rows whose key is below 15. -/
def smallKeys : BitmapQuery ℕ :=
  ⟨.node 0 { index := "orders", field := "id", bsiOp := .lt, value := [15], operation := .union } [],
    by decide⟩

end QuantaStream.Query
