import Mathlib.Tactic.SplitIfs

/-!
# Overwriting rows

Rows of cells that are written by whole lists of cells: a write makes its row exist and sets some
of its cells.  The last write of a cell wins.  So a list of writes leads to the same rows from any
two starts that differ only where it writes, in particular from a start in which some of it has
been done before.
-/

namespace Overwrite

open List

variable {A F V : Type} [DecidableEq A] [DecidableEq F]

/-- The rows that exist, with their cells. -/
abbrev Rows (A F V : Type) := A → Option (F → Option V)

structure Write (A F V : Type) where
  row : A
  cells : List (F × Option V)

open Write

def setCells (cells : List (F × Option V)) (row : F → Option V) : F → Option V :=
  cells.foldl (fun r e f => if f = e.1 then e.2 else r f) row

/-- The content of a cell; a row that does not exist has empty cells. -/
def cell (rows : Rows A F V) (a : A) (f : F) : Option V := (rows a).elim none (fun r => r f)

def Write.apply (w : Write A F V) (rows : Rows A F V) : Rows A F V :=
  fun a => if a = w.row then some (setCells w.cells (cell rows a)) else rows a

variable (ws : List (Write A F V))

def applyAll (rows : Rows A F V) : Rows A F V :=
  ws.foldl (fun rows w => w.apply rows) rows

def Touches (a : A) : Prop := ∃ w ∈ ws, w.row = a

def TouchesCell (a : A) (f : F) : Prop :=
  ∃ w ∈ ws, w.row = a ∧ ∃ v, (f, v) ∈ w.cells

/-- No cell is both set and cleared. -/
def Unmixed : Prop :=
  ∀ w ∈ ws, ∀ w' ∈ ws, w.row = w'.row → ∀ f v v', (f, v) ∈ w.cells → (f, v') ∈ w'.cells →
    (v = none ↔ v' = none)

omit [DecidableEq A] [DecidableEq F] in
variable {ws} in
theorem Unmixed.mono {ws' : List (Write A F V)} (h : Unmixed ws) (hsub : ws' ⊆ ws) : Unmixed ws' :=
  fun w hw w' hw' => h w (hsub hw) w' (hsub hw')

/-! ## Cells -/

theorem setCells_append (cells cells' : List (F × Option V)) (row : F → Option V) :
    setCells (cells ++ cells') row = setCells cells' (setCells cells row) :=
  foldl_append

variable {f : F}

theorem setCells_of_notMem {cells : List (F × Option V)} (h : ∀ v, (f, v) ∉ cells)
    (row : F → Option V) : setCells cells row f = row f := by
  induction cells generalizing row with
  | nil => rfl
  | cons e cells ih =>
    have hne : f ≠ e.1 := fun heq => h e.2 (heq ▸ mem_cons_self)
    have hrest : ∀ v, (f, v) ∉ cells := fun v hv => h v (mem_cons_of_mem _ hv)
    calc setCells (e :: cells) row f
        = setCells cells (fun f => if f = e.1 then e.2 else row f) f := rfl
      _ = row f := by rw [ih hrest, if_neg hne]

/-- What a cell holds after it was set does not depend on what it held before. -/
theorem setCells_congr {cells : List (F × Option V)} {row row' : F → Option V}
    (h : (∀ v, (f, v) ∉ cells) → row f = row' f) :
    setCells cells row f = setCells cells row' f := by
  induction cells generalizing row row' with
  | nil => exact h (by simp)
  | cons e cells ih =>
    refine ih fun hrest => ?_
    dsimp only
    split_ifs with heq
    · rfl
    · refine h fun v hv => ?_
      rcases mem_cons.mp hv with hv | hv
      · exact heq (congrArg Prod.fst hv)
      · exact hrest v hv

/-! ## Rows -/

theorem cell_apply_self (w : Write A F V) (rows : Rows A F V) (f : F) :
    cell (w.apply rows) w.row f = setCells w.cells (cell rows w.row) f := by
  simp [cell, apply]

variable {a : A}

theorem cell_apply_of_ne {w : Write A F V} (h : a ≠ w.row) (rows : Rows A F V) (f : F) :
    cell (w.apply rows) a f = cell rows a f := by
  simp [cell, apply, h]

/-- Two writes of a row in one. -/
theorem apply_apply (a : A) (cells cells' : List (F × Option V)) (rows : Rows A F V) :
    apply ⟨a, cells'⟩ (apply ⟨a, cells⟩ rows) =
      apply ⟨a, cells ++ cells'⟩ rows := by
  funext a'
  by_cases ha : a' = a
  · subst ha
    have hcell : cell (apply ⟨a', cells⟩ rows) a' = setCells cells (cell rows a') :=
      funext (cell_apply_self ⟨a', cells⟩ rows)
    simp only [apply, if_true, setCells_append]
    exact congrArg (fun r => some (setCells cells' r)) hcell
  · simp [apply, ha]

variable {ws : List (Write A F V)}

theorem applyAll_of_not_touches (h : ¬ Touches ws a) (rows : Rows A F V) :
    applyAll ws rows a = rows a := by
  induction ws generalizing rows with
  | nil => rfl
  | cons w ws ih =>
    have hne : a ≠ w.row := fun heq => h ⟨w, mem_cons_self, heq.symm⟩
    have hrest : ¬ Touches ws a := fun ⟨w', hw', heq⟩ =>
      h ⟨w', mem_cons_of_mem _ hw', heq⟩
    calc applyAll (w :: ws) rows a = applyAll ws (w.apply rows) a := rfl
      _ = rows a := by rw [ih hrest, apply, if_neg hne]

theorem cell_applyAll_of_not_touches (h : ¬ TouchesCell ws a f) (rows : Rows A F V) :
    cell (applyAll ws rows) a f = cell rows a f := by
  induction ws generalizing rows with
  | nil => rfl
  | cons w ws ih =>
    have hrest : ¬ TouchesCell ws a f := fun ⟨w', hw', hrow⟩ =>
      h ⟨w', mem_cons_of_mem _ hw', hrow⟩
    have hfirst : cell (w.apply rows) a f = cell rows a f := by
      by_cases ha : a = w.row
      · subst ha
        rw [cell_apply_self]
        exact setCells_of_notMem (fun v hv => h ⟨w, mem_cons_self, rfl, v, hv⟩) _
      · exact cell_apply_of_ne ha rows f
    exact (ih hrest _).trans hfirst

/-- Rows that differ only where the writes go. -/
structure AgreeOff (ws : List (Write A F V)) (rows rows' : Rows A F V) : Prop where
  row_eq : ∀ a, ¬ Touches ws a → rows a = rows' a
  cell_eq : ∀ a f, ¬ TouchesCell ws a f → cell rows a f = cell rows' a f

/-- After the first write, the rows differ only where the others go. -/
theorem AgreeOff.apply {w : Write A F V} {rows rows' : Rows A F V}
    (h : AgreeOff (w :: ws) rows rows') : AgreeOff ws (w.apply rows) (w.apply rows') := by
  have hcells : ∀ a f, ¬ TouchesCell ws a f →
      cell (w.apply rows) a f = cell (w.apply rows') a f := by
    intro a f hf
    by_cases ha : a = w.row
    · subst ha
      rw [cell_apply_self, cell_apply_self]
      refine setCells_congr fun hnot => h.cell_eq w.row f ?_
      rintro ⟨w', hw', hrow, v, hv⟩
      rcases mem_cons.mp hw' with rfl | hw'
      · exact hnot v hv
      · exact hf ⟨w', hw', hrow, v, hv⟩
    · rw [cell_apply_of_ne ha, cell_apply_of_ne ha]
      refine h.cell_eq a f ?_
      rintro ⟨w', hw', hrow, hv⟩
      rcases mem_cons.mp hw' with rfl | hw'
      · exact ha hrow.symm
      · exact hf ⟨w', hw', hrow, hv⟩
  refine ⟨fun a ha => ?_, hcells⟩
  by_cases hrow : a = w.row
  · subst hrow
    have hnot : ∀ f, ¬ TouchesCell ws w.row f := fun f ⟨w', hw', heq, _⟩ => ha ⟨w', hw', heq⟩
    have hall : setCells w.cells (cell rows w.row) = setCells w.cells (cell rows' w.row) := by
      funext f
      rw [← cell_apply_self, ← cell_apply_self]
      exact hcells w.row f (hnot f)
    simp [Write.apply, hall]
  · simp only [Write.apply, if_neg hrow]
    refine h.row_eq a ?_
    rintro ⟨w', hw', heq⟩
    rcases mem_cons.mp hw' with rfl | hw'
    · exact hrow heq.symm
    · exact ha ⟨w', hw', heq⟩

/-- Writes lead to the same rows from rows that differ only where they go. -/
theorem applyAll_eq_of_agreeOff {rows rows' : Rows A F V} (h : AgreeOff ws rows rows') :
    applyAll ws rows = applyAll ws rows' := by
  induction ws generalizing rows rows' with
  | nil => exact funext fun a => h.row_eq a (by simp [Touches])
  | cons w ws ih => exact ih h.apply

end Overwrite
