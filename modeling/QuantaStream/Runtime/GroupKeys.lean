import Mathlib.Tactic.FinCases
import QuantaStream.Lib.GoString

/-!
# Keys of groups

The direct path of a grouped query finds the group of a row by a text: the kinds and the printed
values of its cells, joined by a separator.  This module models the keys of
`qsruntime/direct_bitmap_grouped_aggregate.go`.  The separator is not escaped, so a row shares
its key with another one if one of its values goes on like the next cell.
-/

namespace QuantaStream.Runtime

open GoString List

inductive ValueKind where
  | unknown | null | bool | int | float | string | time
  deriving DecidableEq

def ValueKind.text : ValueKind → GoString
  | .unknown => []
  | .null => ascii "null"
  | .bool => ascii "bool"
  | .int => ascii "int"
  | .float => ascii "float"
  | .string => ascii "string"
  | .time => ascii "time"

/-- `ResultCell` with a value of any type. -/
structure ResultCell (V : Type) where
  kind : ValueKind
  value : V

section

variable {V : Type} (sprint : V → GoString)

/-- `directBitmapGroupKey`; the printing of values is a parameter. -/
def directBitmapGroupKey (cell : ResultCell V) : GoString :=
  cell.kind.text ++ [58] ++ sprint cell.value

def directBitmapGroupCellsKey (cells : List (ResultCell V)) : GoString :=
  [0x1f].intercalate (cells.map (directBitmapGroupKey sprint))

/-- `directBitmapGroupValuesKeyAt`, with the cells of a row in one column each. -/
def directBitmapGroupValuesKeyAt (groupValues : List (List (ResultCell V))) (row : ℕ) :
    Except String GoString := do
  let cells ← groupValues.mapM fun column =>
    match column[row]? with
    | some cell => .ok cell
    | none => .error "group value field has fewer values than grouped candidates"
  return directBitmapGroupCellsKey sprint cells

/-- No other value is printed like one of the row and, if there is more than one cell, no value
holds a separator with a kind and a colon behind it. -/
def Unambiguous (row : List (ResultCell V)) : Prop :=
  (∀ c ∈ row, ∀ v, sprint v = sprint c.value → v = c.value) ∧
    (row.length ≤ 1 ∨ ∀ c ∈ row, ∀ before kind after,
      sprint c.value ≠ before ++ 0x1f :: (ValueKind.text kind ++ [58] ++ after))

end

/-! ## Texts of cells -/

/-- The text begins like that of a cell. -/
def StartsCell (s : GoString) : Prop := ∃ kind after, s = ValueKind.text kind ++ [58] ++ after

variable {s t : GoString}

/-- A separator is behind the kind. -/
theorem split_at_separator {kind : ValueKind} {after : GoString}
    (h : kind.text ++ [58] ++ after = s ++ 0x1f :: t) :
    ∃ a, s = kind.text ++ [58] ++ a ∧ after = a ++ 0x1f :: t := by
  rcases append_eq_append_iff.mp h with ha | ⟨_ | ⟨b, a⟩, hkind, hrest⟩
  · exact ha
  · exact ⟨[], by simpa using hkind.symm, hrest.symm⟩
  · have hmem : 0x1f ∈ kind.text ++ [58] := by
      rw [hkind, (cons.inj hrest).1]
      exact mem_append_right s mem_cons_self
    cases kind <;> exact absurd hmem (by decide)

theorem StartsCell.of_append (h : StartsCell (s ++ 0x1f :: t)) : StartsCell s := by
  rcases h with ⟨kind, after, h⟩
  rcases split_at_separator h.symm with ⟨a, ha, -⟩
  exact ⟨kind, a, ha⟩

theorem startsCell_intercalate {ts : List GoString} (h : ∀ t ∈ ts, StartsCell t) (hne : ts ≠ []) :
    StartsCell ([0x1f].intercalate ts) := by
  rcases ts with _ | ⟨t, _ | ⟨t', ts⟩⟩
  · exact absurd rfl hne
  · simpa using h
  · rcases h t mem_cons_self with ⟨kind, after, rfl⟩
    exact ⟨kind, after ++ [0x1f] ++ [0x1f].intercalate (t' :: ts), by simp⟩

/-- Texts of cells that hold no beginning of a cell behind a separator are the longest list with
their joined text. -/
theorem eq_of_intercalate_eq {ts ts' : List GoString} (hts : ∀ t ∈ ts, StartsCell t)
    (hts' : ∀ t ∈ ts', StartsCell t)
    (hfree : ∀ t ∈ ts, ∀ before after, t = before ++ 0x1f :: after → ¬ StartsCell after)
    (h : [0x1f].intercalate ts' = [0x1f].intercalate ts) (hne : ts ≠ []) :
    ts'.length ≤ ts.length ∧ (ts'.length = ts.length → ts' = ts) := by
  induction ts generalizing ts' with
  | nil => exact absurd rfl hne
  | cons t ts ih =>
    rcases ts' with _ | ⟨t', _ | ⟨u', ts'⟩⟩
    · simp
    · rcases ts with _ | ⟨u, ts⟩
      · simpa using h
      · simp
    rw [forall_mem_cons] at hts hts' hfree
    have hrest' := startsCell_intercalate hts'.2 (cons_ne_nil u' ts')
    rcases ts with _ | ⟨u, ts⟩
    · rw [intercalate_cons_cons, append_assoc, intercalate_singleton] at h
      exact absurd hrest' (hfree.1 _ _ h.symm)
    have hrest := startsCell_intercalate hts.2 (cons_ne_nil u ts)
    have ih {ts'} hts' h := @ih ts' hts.2 hts' hfree.2 h (cons_ne_nil u ts)
    have hsame (ht : t' = t)
        (hjoin : [0x1f].intercalate (u' :: ts') = [0x1f].intercalate (u :: ts)) :
        (t' :: u' :: ts').length ≤ (t :: u :: ts).length ∧
          ((t' :: u' :: ts').length = (t :: u :: ts).length → t' :: u' :: ts' = t :: u :: ts) := by
      rcases ih hts'.2 hjoin with ⟨hle, heq⟩
      exact ⟨Nat.succ_le_succ hle, fun hlength => by rw [ht, heq (Nat.succ.inj hlength)]⟩
    simp only [intercalate_cons_cons, append_assoc, singleton_append] at h
    rcases append_eq_append_iff.mp h with ⟨_ | ⟨b, a⟩, ht, hjoin⟩ | ⟨_ | ⟨b, a⟩, ht, hjoin⟩
    · exact hsame (by rw [ht, append_nil]) (cons.inj hjoin).2
    · -- the text on the right would hold a cell behind a separator
      obtain ⟨rfl, hcell⟩ := cons.inj hjoin
      exact absurd (StartsCell.of_append (hcell ▸ hrest')) (hfree.1 _ _ ht)
    · exact hsame (by rw [ht, append_nil]) (cons.inj hjoin).2.symm
    · -- the text on the left reaches into the next cell, so that fewer are left
      obtain ⟨rfl, hcell⟩ := cons.inj hjoin
      have hcells := forall_mem_cons.mpr ⟨StartsCell.of_append (hcell ▸ hrest), hts'.2⟩
      have hle := (ih hcells (by simpa [intercalate_cons_cons] using hcell.symm)).1
      simp only [length_cons] at hle ⊢
      omega

/-! ## Rows -/

/-- Two texts next to each other count with the text of both. -/
theorem intercalate_pair (ts ts' : List GoString) :
    [0x1f].intercalate (ts ++ s :: t :: ts') =
      [0x1f].intercalate (ts ++ (s ++ 0x1f :: t) :: ts') := by
  induction ts with
  | nil => cases ts' <;> simp
  | cons u ts ih =>
    rw [cons_append, cons_append, intercalate_cons_of_ne_nil (by simp),
      intercalate_cons_of_ne_nil (by simp), ih]

section

variable {V : Type} {sprint : V → GoString} {row row' : List (ResultCell V)}
  {c d : ResultCell V}

theorem startsCell_key (c : ResultCell V) : StartsCell (directBitmapGroupKey sprint c) :=
  ⟨c.kind, sprint c.value, rfl⟩

theorem eq_of_key_eq (hc : ∀ v, sprint v = sprint c.value → v = c.value)
    (h : directBitmapGroupKey sprint d = directBitmapGroupKey sprint c) : d = c := by
  obtain ⟨kind, value⟩ := c
  obtain ⟨kind', value'⟩ := d
  have hparts : kind' = kind ∧ sprint value' = sprint value := by
    revert h
    cases kind <;> cases kind' <;> simp [directBitmapGroupKey, ValueKind.text, ascii]
  rw [hparts.1, hc value' hparts.2]

theorem eq_of_keys_eq (hvalues : ∀ c ∈ row, ∀ v, sprint v = sprint c.value → v = c.value)
    (h : row'.map (directBitmapGroupKey sprint) = row.map (directBitmapGroupKey sprint)) :
    row' = row := by
  induction row generalizing row' with
  | nil => exact map_eq_nil_iff.mp h
  | cons c row ih =>
    rcases map_eq_cons_iff.mp h with ⟨c', row', rfl, hc, hrow⟩
    rw [forall_mem_cons] at hvalues
    rw [eq_of_key_eq hvalues.1 hc, ih hvalues.2 hrow]

/-- Two cells next to each other whose text can be cut elsewhere. -/
theorem exists_same_key_of_pair (hprint : Function.Surjective sprint) (hs : StartsCell s)
    (ht : StartsCell t) (hne : s ≠ directBitmapGroupKey sprint c)
    (h : s ++ 0x1f :: t = directBitmapGroupKey sprint c ++ 0x1f :: directBitmapGroupKey sprint d)
    (before after : List (ResultCell V)) :
    ∃ row', row'.length = (before ++ c :: d :: after).length ∧
      directBitmapGroupCellsKey sprint row' =
        directBitmapGroupCellsKey sprint (before ++ c :: d :: after) ∧
      row' ≠ before ++ c :: d :: after := by
  have hcell : ∀ {s}, StartsCell s → ∃ c, directBitmapGroupKey sprint c = s := by
    rintro s ⟨kind, rest, rfl⟩
    rcases hprint rest with ⟨v, rfl⟩
    exact ⟨⟨kind, v⟩, rfl⟩
  rcases hcell hs with ⟨c', rfl⟩
  rcases hcell ht with ⟨d', rfl⟩
  refine ⟨before ++ c' :: d' :: after, by simp, ?_, fun heq => hne ?_⟩
  · simp [directBitmapGroupCellsKey, map_cons, intercalate_pair, h]
  · rw [append_cancel_left_eq] at heq
    rw [(cons.inj heq).1]

/-- A value with a cell behind a separator lets its cell and a neighbour be cut elsewhere. -/
theorem exists_same_key (hprint : Function.Surjective sprint) (hlength : 1 < row.length)
    (hc : c ∈ row) {first rest : GoString} {kind : ValueKind}
    (hvalue : sprint c.value = first ++ 0x1f :: (kind.text ++ [58] ++ rest)) :
    ∃ row', row'.length = row.length ∧
      directBitmapGroupCellsKey sprint row' = directBitmapGroupCellsKey sprint row ∧
      row' ≠ row := by
  rcases append_of_mem hc with ⟨before, _ | ⟨d, after⟩, rfl⟩
  · rcases eq_nil_or_concat' before with rfl | ⟨before, d, rfl⟩
    · simp at hlength
    rw [append_assoc]
    refine exists_same_key_of_pair hprint
      (s := directBitmapGroupKey sprint d ++ 0x1f :: (c.kind.text ++ [58] ++ first))
      ⟨d.kind, _, append_assoc ..⟩ ⟨kind, rest, rfl⟩ (by simp) ?_
      before []
    simp [directBitmapGroupKey, hvalue]
  · refine exists_same_key_of_pair hprint
      (t := kind.text ++ [58] ++ (rest ++ 0x1f :: directBitmapGroupKey sprint d))
      ⟨c.kind, first, rfl⟩ ⟨kind, _, rfl⟩ ?_ ?_ before after
    · simp [directBitmapGroupKey, hvalue]
    · simp [directBitmapGroupKey, hvalue]

/-- A row shares its key with no other row of as many cells exactly if it is unambiguous.  Every
text is printed by a value, since a string is printed as it is. -/
theorem group_key_exact_iff (sprint : V → GoString) (hprint : Function.Surjective sprint)
    (row : List (ResultCell V)) :
    (∀ row', row'.length = row.length →
      (directBitmapGroupCellsKey sprint row' = directBitmapGroupCellsKey sprint row ↔
        row' = row)) ↔ Unambiguous sprint row := by
  constructor
  · intro h
    refine ⟨fun c hc v hv => ?_, ?_⟩
    · rcases append_of_mem hc with ⟨before, after, rfl⟩
      have heq := (h (before ++ ⟨c.kind, v⟩ :: after) (by simp)).mp
        (by simp [directBitmapGroupCellsKey, directBitmapGroupKey, hv])
      rw [append_cancel_left_eq] at heq
      exact congrArg ResultCell.value (cons.inj heq).1
    · by_contra hcon
      push Not at hcon
      rcases hcon with ⟨hlength, c, hc, first, kind, rest, hvalue⟩
      rcases exists_same_key hprint hlength hc hvalue with ⟨row', hlength', hkey, hne⟩
      exact hne ((h row' hlength').mp hkey)
  · rintro ⟨hvalues, hfree⟩ row' hlength
    refine ⟨fun hkey => ?_, fun heq => by rw [heq]⟩
    refine eq_of_keys_eq hvalues ?_
    rcases row with _ | ⟨c, _ | ⟨d, row⟩⟩
    · rw [length_eq_zero_iff.mp hlength]
    · rcases length_eq_one_iff.mp hlength with ⟨c', rfl⟩
      simpa [directBitmapGroupCellsKey] using hkey
    · have hfree := hfree.resolve_left (by simp)
      refine (eq_of_intercalate_eq (by simp [startsCell_key]) (by simp [startsCell_key]) ?_ hkey
        (by simp)).2 (by simpa using hlength)
      rintro t ht first rest heq ⟨kind, after, rfl⟩
      rcases mem_map.mp ht with ⟨c, hc, rfl⟩
      rcases split_at_separator heq with ⟨a, -, hvalue⟩
      exact hfree c hc a kind after hvalue

end

def plainRow : List (ResultCell GoString) := [⟨.string, ascii "a"⟩, ⟨.int, ascii "7"⟩]

theorem plainRow_key_exact :
    Function.Surjective (id : GoString → GoString) ∧ ∀ row', row'.length = plainRow.length →
      (directBitmapGroupCellsKey id row' = directBitmapGroupCellsKey id plainRow ↔
        row' = plainRow) := by
  refine ⟨Function.surjective_id, (group_key_exact_iff id Function.surjective_id _).mpr
    ⟨fun c hc v hv => hv, .inr ?_⟩⟩
  intro c hc before kind after hvalue
  have hmem : 0x1f ∈ id c.value := hvalue ▸ mem_append_right before mem_cons_self
  rcases mem_pair.mp hc with rfl | rfl <;> exact absurd hmem (by decide)

/-- Two groups of two strings with one key. -/
theorem separator_merges_groups :
    directBitmapGroupCellsKey id
        [⟨.string, ascii "a\x1fstring:b"⟩, ⟨.string, ascii "c"⟩] =
      directBitmapGroupCellsKey id
        [⟨.string, ascii "a"⟩, ⟨.string, ascii "b\x1fstring:c"⟩] ∧
      ascii "a\x1fstring:b" ≠ ascii "a" := by
  decide

end QuantaStream.Runtime
