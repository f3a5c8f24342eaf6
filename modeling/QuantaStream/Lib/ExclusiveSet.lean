import Mathlib.Data.Set.Insert
import Mathlib.Tactic.Tauto

/-!
# Sets under additions, exclusive additions and clears

A set is changed by adding an element, by making it the set of one element (an exclusive
addition), or by clearing it.  What a list of changes leaves depends on its last clear or
exclusive addition and on what follows it.

Main results:

- `SetOp.run_of_noExclusive`: additions alone accumulate.
-/

inductive SetOp (α : Type*) where
  | add (a : α) (exclusive : Bool)
  | clear
  deriving DecidableEq

namespace SetOp

open List

variable {α : Type*} (R : Set α)

def apply : SetOp α → Set α
  | add a true => {a}
  | add a false => insert a R
  | clear => ∅

variable (ops : List (SetOp α))

def run : Set α := ops.foldl apply R

def adds : Set α := {a | ∃ x, add a x ∈ ops}

def HasExclusive : Prop := ∃ a, add a true ∈ ops

/-- The elements added from the last exclusive addition on. -/
def sinceExclusive : Set α :=
  {b | ∃ pre a post, ops = pre ++ add a true :: post ∧ ¬ HasExclusive post ∧
    b ∈ insert a (adds post)}

@[simp]
theorem run_nil : run R [] = R := rfl

@[simp]
theorem run_cons (op : SetOp α) (ops : List (SetOp α)) :
    run R (op :: ops) = run (apply R op) ops := rfl

theorem run_append (ops ops' : List (SetOp α)) :
    run R (ops ++ ops') = run (run R ops) ops' := foldl_append

@[simp]
theorem adds_nil : adds ([] : List (SetOp α)) = ∅ := by
  simp [adds]

variable {x : Bool} {ops : List (SetOp α)} {a : α}

theorem mem_adds_cons {b : α} : b ∈ adds (add a x :: ops) ↔ b = a ∨ b ∈ adds ops := by
  constructor
  · rintro ⟨y, hy⟩
    rcases mem_cons.mp hy with h | h
    · injection h with hab
      exact .inl hab
    · exact .inr ⟨y, h⟩
  · rintro (rfl | ⟨y, hy⟩)
    · exact ⟨x, mem_cons_self⟩
    · exact ⟨y, mem_cons_of_mem _ hy⟩

/-! ## What a list of changes leaves -/

variable {R : Set α}

theorem run_of_noExclusive (hclear : clear ∉ ops) (hexcl : ¬ HasExclusive ops) :
    run R ops = R ∪ adds ops := by
  induction ops generalizing R with
  | nil => simp
  | cons op ops ih =>
    have hclear' : clear ∉ ops := fun h => hclear (mem_cons_of_mem _ h)
    have hexcl' : ¬ HasExclusive ops := fun ⟨a, ha⟩ => hexcl ⟨a, mem_cons_of_mem _ ha⟩
    cases op with
    | clear => exact absurd mem_cons_self hclear
    | add a x =>
      cases x with
      | true => exact absurd ⟨a, mem_cons_self⟩ hexcl
      | false =>
        rw [run_cons, ih hclear' hexcl']
        ext b
        simp only [apply, Set.mem_union, Set.mem_insert_iff, mem_adds_cons]
        tauto

/-- What is left when the exclusive addition is the last one. -/
theorem run_split {pre post : List (SetOp α)} (hclear : clear ∉ post)
    (hexcl : ¬ HasExclusive post) : run R (pre ++ add a true :: post) = insert a (adds post) := by
  rw [run_append, run_cons, run_of_noExclusive hclear hexcl]
  simp [apply]

theorem exists_last_exclusive (h : HasExclusive ops) :
    ∃ pre a post, ops = pre ++ add a true :: post ∧ ¬ HasExclusive post := by
  induction ops with
  | nil =>
    rcases h with ⟨a, ha⟩
    exact absurd ha not_mem_nil
  | cons op ops ih =>
    by_cases hrest : HasExclusive ops
    · rcases ih hrest with ⟨pre, a, post, heq, hpost⟩
      exact ⟨op :: pre, a, post, by rw [heq, cons_append], hpost⟩
    · rcases h with ⟨a, ha⟩
      rcases mem_cons.mp ha with rfl | ha
      · exact ⟨[], a, ops, rfl, hrest⟩
      · exact absurd ⟨a, ha⟩ hrest

/-- An exclusive addition forgets what was before it. -/
theorem run_of_exclusive (hclear : clear ∉ ops) (hexcl : HasExclusive ops) :
    run R ops = sinceExclusive ops := by
  have hsplit : ∀ {pre a post}, ops = pre ++ add a true :: post → ¬ HasExclusive post →
      run R ops = insert a (adds post) := by
    intro pre a post heq hpost
    have hpostClear : clear ∉ post := fun h => hclear (by simp [heq, h])
    rw [heq, run_split hpostClear hpost]
  ext b
  constructor
  · intro hb
    rcases exists_last_exclusive hexcl with ⟨pre, a, post, heq, hpost⟩
    exact ⟨pre, a, post, heq, hpost, hsplit heq hpost ▸ hb⟩
  · rintro ⟨pre, a, post, heq, hpost, hb⟩
    exact (hsplit heq hpost).symm ▸ hb

theorem sinceExclusive_subset_adds (ops : List (SetOp α)) : sinceExclusive ops ⊆ adds ops := by
  rintro b ⟨pre, a, post, rfl, -, hb⟩
  rcases hb with rfl | ⟨x, hx⟩
  · exact ⟨true, by simp⟩
  · exact ⟨x, by simp [hx]⟩

/-- An exclusive addition and further additions of the same element leave that element. -/
theorem run_eq_singleton (hclear : clear ∉ ops) (hexcl : HasExclusive ops)
    (hadds : adds ops = {a}) : run R ops = {a} := by
  rw [run_of_exclusive hclear hexcl]
  refine (Set.subset_singleton_iff_eq.mp (hadds ▸ sinceExclusive_subset_adds ops)).resolve_left ?_
  rcases exists_last_exclusive hexcl with ⟨pre, u, post, heq, hpost⟩
  exact Set.Nonempty.ne_empty ⟨u, pre, u, post, heq, hpost, Set.mem_insert u _⟩

/-- Only a last clear leaves nothing. -/
theorem run_eq_empty_iff (hclear : clear ∈ ops) : run R ops = ∅ ↔ ops.getLast? = some clear := by
  rcases eq_nil_or_concat ops with rfl | ⟨pre, op, rfl⟩
  · exact absurd hclear not_mem_nil
  rw [concat_eq_append, run_append, List.getLast?_concat]
  cases op with
  | clear => simp [apply]
  | add a x =>
    have hne : apply (run R pre) (add a x) ≠ ∅ := by
      cases x
      · exact (Set.insert_nonempty a _).ne_empty
      · exact (Set.singleton_nonempty a).ne_empty
    simpa using hne

theorem run_of_clears (hclears : ∀ op ∈ ops, op = clear) (hne : ops ≠ []) : run R ops = ∅ := by
  have hlast := hclears _ (getLast_mem hne)
  refine (run_eq_empty_iff (hlast ▸ getLast_mem hne)).mpr ?_
  rw [List.getLast?_eq_some_getLast hne, hlast]

/-! ## Both directions -/

/-- What is added first is left only if no later addition is exclusive. -/
theorem noExclusive_of_mem_run_cons (hclear : clear ∉ ops) (ha : a ∉ adds ops)
    (hmem : a ∈ run R (add a x :: ops)) : ¬ HasExclusive ops := by
  intro hexcl
  rw [run_cons, run_of_exclusive hclear hexcl] at hmem
  exact ha (sinceExclusive_subset_adds ops hmem)

theorem mem_run_concat (R : Set α) (ops : List (SetOp α)) (a : α) (x : Bool) :
    a ∈ run R (ops ++ [add a x]) := by
  rw [run_append]
  cases x <;> simp [apply]

def Distinct (ops : List (SetOp α)) : Prop :=
  ops.Pairwise (fun op op' => ∀ a x y, op = add a x → op' ≠ add a y)

theorem Distinct.reverse (h : Distinct ops) : Distinct ops.reverse := by
  refine pairwise_reverse.mpr (h.imp ?_)
  intro op op' hne a x y hop hop'
  exact hne a y x hop' hop

theorem Distinct.notMem_adds (h : Distinct (add a x :: ops)) : a ∉ adds ops := by
  rintro ⟨y, hy⟩
  exact (pairwise_cons.mp h).1 _ hy a x y rfl rfl

/-- Additions of different elements, one of them exclusive, leave the same set in both directions
only if there is one of them. -/
theorem eq_singleton_of_run_reverse (hclear : clear ∉ ops) (hdistinct : Distinct ops)
    (hexcl : HasExclusive ops) (heq : run R ops = run R ops.reverse) : ∃ a, ops = [add a true] := by
  rcases hexcl with ⟨u, hu⟩
  cases ops with
  | nil => exact absurd hu not_mem_nil
  | cons first rest =>
    cases first with
    | clear => exact absurd mem_cons_self hclear
    | add a x =>
      rcases eq_nil_or_concat rest with rfl | ⟨mid, last, hrest⟩
      · rcases mem_singleton.mp hu with h
        exact ⟨a, by rw [← h]; injection h with hua hx; rw [hua]⟩
      exfalso
      rw [concat_eq_append] at hrest
      have hclearRest : clear ∉ rest := fun h => hclear (mem_cons_of_mem _ h)
      have hrev : (add a x :: rest).reverse = rest.reverse ++ [add a x] :=
        reverse_cons
      -- The first element is left by the reversed list, hence by the list itself.
      have hfirst : ¬ HasExclusive rest := by
        refine noExclusive_of_mem_run_cons (R := R) (x := x) hclearRest hdistinct.notMem_adds ?_
        rw [heq, hrev]
        exact mem_run_concat R rest.reverse a x
      cases last with
      | clear => exact hclearRest (by simp [hrest])
      | add z y =>
        have hrev' : (add a x :: rest).reverse = add z y :: (mid.reverse ++ [add a x]) := by
          simp [hrest]
        have hlast : ¬ HasExclusive (mid.reverse ++ [add a x]) := by
          refine noExclusive_of_mem_run_cons (R := R) (x := y) ?_
            (hrev' ▸ hdistinct.reverse).notMem_adds ?_
          · intro h
            exact hclear (mem_reverse.mp (hrev' ▸ mem_cons_of_mem _ h))
          · rw [← hrev', ← heq, hrest, ← cons_append]
            exact mem_run_concat R _ z y
        rcases mem_cons.mp hu with h | h
        · exact hlast ⟨u, by simp [h]⟩
        · exact hfirst ⟨u, h⟩

end SetOp
