import Mathlib.Data.List.Forall2

/-!
# Conditions built from AND and OR

A condition is a tree whose inner nodes are conjunctions and disjunctions of any number of
conditions.  Whether it holds is determined by the truth of its leaves.

Main results:

- `BoolTree.forall_conjuncts_iff`: a condition holds if all its conjuncts do.
-/

inductive BoolTree (α : Type) where
  | leaf (a : α)
  | all (children : List (BoolTree α))
  | any (children : List (BoolTree α))

namespace BoolTree

open List

variable {α : Type}

/-! ## Induction -/

mutual

def size : BoolTree α → ℕ
  | leaf _ => 1
  | all cs => sizeChildren cs + 1
  | any cs => sizeChildren cs + 1

def sizeChildren : List (BoolTree α) → ℕ
  | [] => 0
  | c :: cs => c.size + sizeChildren cs

end

variable {c : BoolTree α} {cs : List (BoolTree α)}

theorem size_le_sizeChildren (h : c ∈ cs) : c.size ≤ sizeChildren cs := by
  induction cs with
  | nil => cases h
  | cons d ds ih =>
    rw [sizeChildren]
    rcases mem_cons.mp h with rfl | h
    · omega
    · have := ih h
      omega

theorem size_lt_all (h : c ∈ cs) : c.size < (all cs).size := by
  rw [size]
  exact Nat.lt_succ_of_le (size_le_sizeChildren h)

theorem size_lt_any (h : c ∈ cs) : c.size < (any cs).size := by
  rw [size]
  exact Nat.lt_succ_of_le (size_le_sizeChildren h)

/-- Induction over the children of every node. -/
@[elab_as_elim, induction_eliminator]
theorem induction {motive : BoolTree α → Prop} (leaf : ∀ a, motive (.leaf a))
    (all : ∀ cs, (∀ c ∈ cs, motive c) → motive (.all cs))
    (any : ∀ cs, (∀ c ∈ cs, motive c) → motive (.any cs)) (t : BoolTree α) : motive t :=
  match t with
  | .leaf a => leaf a
  | .all cs => all cs (fun c _ => induction leaf all any c)
  | .any cs => any cs (fun c _ => induction leaf all any c)
termination_by t.size
decreasing_by
  · exact size_lt_all ‹_›
  · exact size_lt_any ‹_›

/-! ## Truth -/

mutual

/-- The condition holds when the leaves have the given truth values. -/
def holds (v : α → Prop) : BoolTree α → Prop
  | leaf a => v a
  | all cs => holdsAll v cs
  | any cs => holdsAny v cs

def holdsAll (v : α → Prop) : List (BoolTree α) → Prop
  | [] => True
  | c :: cs => holds v c ∧ holdsAll v cs

def holdsAny (v : α → Prop) : List (BoolTree α) → Prop
  | [] => False
  | c :: cs => holds v c ∨ holdsAny v cs

end

section

variable {v w : α → Prop}

@[simp]
theorem holds_leaf (a : α) : (leaf a).holds v ↔ v a := by rw [holds]

@[simp]
theorem holds_all (cs : List (BoolTree α)) : (all cs).holds v ↔ ∀ c ∈ cs, c.holds v := by
  rw [holds]
  induction cs with
  | nil => simp [holdsAll]
  | cons c cs ih => simp [holdsAll, ih]

@[simp]
theorem holds_any (cs : List (BoolTree α)) : (any cs).holds v ↔ ∃ c ∈ cs, c.holds v := by
  rw [holds]
  induction cs with
  | nil => simp [holdsAny]
  | cons c cs ih => simp [holdsAny, ih]

end

/-! ## Leaves -/

mutual

def leaves : BoolTree α → List α
  | leaf a => [a]
  | all cs => leavesChildren cs
  | any cs => leavesChildren cs

def leavesChildren : List (BoolTree α) → List α
  | [] => []
  | c :: cs => leaves c ++ leavesChildren cs

end

variable {a : α}

/-- What is collected from a list of trees. -/
theorem mem_collected {β : Type} {f : BoolTree α → List β} {g : List (BoolTree α) → List β}
    (hnil : g [] = []) (hcons : ∀ c cs, g (c :: cs) = f c ++ g cs) {b : β} :
    b ∈ g cs ↔ ∃ c ∈ cs, b ∈ f c := by
  induction cs with
  | nil => simp [hnil]
  | cons c cs ih => simp [hcons, ih]

theorem mem_leavesChildren : a ∈ leavesChildren cs ↔ ∃ c ∈ cs, a ∈ c.leaves :=
  mem_collected rfl fun _ _ => rfl

@[simp]
theorem mem_leaves_leaf {b : α} : a ∈ (leaf b).leaves ↔ a = b := by simp [leaves]

@[simp]
theorem mem_leaves_all : a ∈ (all cs).leaves ↔ ∃ c ∈ cs, a ∈ c.leaves := by
  rw [leaves, mem_leavesChildren]

@[simp]
theorem mem_leaves_any : a ∈ (any cs).leaves ↔ ∃ c ∈ cs, a ∈ c.leaves := by
  rw [leaves, mem_leavesChildren]

variable {t : BoolTree α} {v : α → Prop}

theorem holds_congr_leaves {w : α → Prop} (h : ∀ a ∈ t.leaves, v a ↔ w a) :
    t.holds v ↔ t.holds w := by
  induction t with
  | leaf a => simpa using h a (by simp)
  | all cs ih =>
    rw [holds_all, holds_all]
    refine forall_congr' fun c => forall_congr' fun hc => ?_
    exact ih c hc fun a ha => h a (by simpa using ⟨c, hc, ha⟩)
  | any cs ih =>
    rw [holds_any, holds_any]
    refine exists_congr fun c => and_congr_right fun hc => ?_
    exact ih c hc fun a ha => h a (by simpa using ⟨c, hc, ha⟩)

/-! ## Trees without empty conjunctions -/

mutual

/-- Every conjunction has a child. -/
def Proper : BoolTree α → Prop
  | leaf _ => True
  | all cs => cs ≠ [] ∧ ProperChildren cs
  | any cs => ProperChildren cs

def ProperChildren : List (BoolTree α) → Prop
  | [] => True
  | c :: cs => Proper c ∧ ProperChildren cs

end

theorem properChildren_iff : ProperChildren cs ↔ ∀ c ∈ cs, c.Proper := by
  induction cs with
  | nil => simp [ProperChildren]
  | cons c cs ih => simp [ProperChildren, ih]

@[simp]
theorem proper_leaf (a : α) : (leaf a).Proper := by simp [Proper]

@[simp]
theorem proper_all : (all cs).Proper ↔ cs ≠ [] ∧ ∀ c ∈ cs, c.Proper := by
  rw [Proper, properChildren_iff]

@[simp]
theorem proper_any : (any cs).Proper ↔ ∀ c ∈ cs, c.Proper := by
  rw [Proper, properChildren_iff]

/-- A condition does not hold if no leaf does. -/
theorem not_holds_of_leaves (ht : t.Proper) (h : ∀ a ∈ t.leaves, ¬ v a) : ¬ t.holds v := by
  induction t with
  | leaf a => simpa using h a (by simp)
  | all cs ih =>
    rw [proper_all] at ht
    rcases exists_mem_of_ne_nil cs ht.1 with ⟨c, hc⟩
    rw [holds_all]
    intro hall
    exact ih c hc (ht.2 c hc) (fun a ha => h a (by simpa using ⟨c, hc, ha⟩)) (hall c hc)
  | any cs ih =>
    rw [proper_any] at ht
    rw [holds_any]
    rintro ⟨c, hc, hholds⟩
    exact ih c hc (ht c hc) (fun a ha => h a (by simpa using ⟨c, hc, ha⟩)) hholds

/-! ## Trees that match -/

mutual

/-- Two trees have the same shape and matching leaves. -/
def matchesBy (m : α → α → Bool) : BoolTree α → BoolTree α → Bool
  | leaf a, leaf b => m a b
  | all cs, all ds => matchesChildren m cs ds
  | any cs, any ds => matchesChildren m cs ds
  | _, _ => false

def matchesChildren (m : α → α → Bool) : List (BoolTree α) → List (BoolTree α) → Bool
  | [], [] => true
  | c :: cs, d :: ds => matchesBy m c d && matchesChildren m cs ds
  | _, _ => false

end

section

variable {m : α → α → Bool}

theorem matchesChildren_iff {cs ds : List (BoolTree α)} :
    matchesChildren m cs ds = true ↔ Forall₂ (fun c d => c.matchesBy m d = true) cs ds := by
  induction cs generalizing ds with
  | nil => cases ds <;> simp [matchesChildren]
  | cons c cs ih => cases ds <;> simp [matchesChildren, ih]

/-- Lists whose members hold together hold together. -/
theorem children_congr {R : BoolTree α → BoolTree α → Prop} {v : α → Prop}
    {cs ds : List (BoolTree α)} (h : Forall₂ R cs ds)
    (hR : ∀ c ∈ cs, ∀ d, R c d → (c.holds v ↔ d.holds v)) :
    ((all cs).holds v ↔ (all ds).holds v) ∧ ((any cs).holds v ↔ (any ds).holds v) := by
  induction h with
  | nil => simp
  | @cons c d cs ds hcd _ ih =>
    have hhead := hR c mem_cons_self d hcd
    have htail := ih fun c hc => hR c (mem_cons_of_mem _ hc)
    simp only [holds_all, holds_any] at htail
    simp [hhead, htail.1, htail.2]

/-- Trees that match leaf by leaf hold together. -/
theorem holds_congr_of_matchesBy {v : α → Prop} (hm : ∀ a b, m a b = true → (v a ↔ v b))
    {t s : BoolTree α} (h : t.matchesBy m s = true) : t.holds v ↔ s.holds v := by
  induction t generalizing s with
  | leaf a =>
    cases s <;> simp only [matchesBy, Bool.false_eq_true] at h
    simpa using hm _ _ h
  | all cs ih =>
    cases s <;> simp only [matchesBy, Bool.false_eq_true] at h
    exact (children_congr (matchesChildren_iff.mp h) fun c hc d => ih c hc).1
  | any cs ih =>
    cases s <;> simp only [matchesBy, Bool.false_eq_true] at h
    exact (children_congr (matchesChildren_iff.mp h) fun c hc d => ih c hc).2

/-- The leaves of trees that match do so one by one. -/
theorem forall₂_leaves_of_matchesBy {t s : BoolTree α} (h : t.matchesBy m s = true) :
    Forall₂ (fun a b => m a b = true) t.leaves s.leaves := by
  have hchildren : ∀ {cs ds : List (BoolTree α)}, matchesChildren m cs ds = true →
      (∀ c ∈ cs, ∀ d, c.matchesBy m d = true →
        Forall₂ (fun a b => m a b = true) c.leaves d.leaves) →
      Forall₂ (fun a b => m a b = true) (leavesChildren cs) (leavesChildren ds) := by
    intro cs ds h hcs
    rw [matchesChildren_iff] at h
    induction h with
    | nil => simp [leavesChildren]
    | @cons c d cs ds hcd _ ih =>
      exact rel_append (hcs c mem_cons_self d hcd)
        (ih fun c hc => hcs c (mem_cons_of_mem _ hc))
  induction t generalizing s with
  | leaf a =>
    cases s <;> simp only [matchesBy, Bool.false_eq_true] at h
    simpa [leaves] using h
  | all cs ih | any cs ih =>
    cases s <;> simp only [matchesBy, Bool.false_eq_true] at h
    exact hchildren h fun c hc d => ih c hc

end

/-! ## Conjuncts -/

mutual

/-- The conjuncts, with nested conjunctions flattened. -/
def conjuncts : BoolTree α → List (BoolTree α)
  | leaf a => [leaf a]
  | all cs => conjunctsChildren cs
  | any cs => [any cs]

def conjunctsChildren : List (BoolTree α) → List (BoolTree α)
  | [] => []
  | c :: cs => conjuncts c ++ conjunctsChildren cs

end

theorem mem_conjunctsChildren : t ∈ conjunctsChildren cs ↔ ∃ c ∈ cs, t ∈ c.conjuncts :=
  mem_collected rfl fun _ _ => rfl

theorem forall_conjuncts_iff (t : BoolTree α) : (∀ c ∈ t.conjuncts, c.holds v) ↔ t.holds v := by
  induction t with
  | leaf a => simp [conjuncts]
  | all cs ih =>
    simp only [conjuncts, mem_conjunctsChildren, holds_all]
    constructor
    · intro h c hc
      exact (ih c hc).mp fun d hd => h d ⟨c, hc, hd⟩
    · rintro h d ⟨c, hc, hd⟩
      exact (ih c hc).mpr (h c hc) d hd
  | any cs => simp [conjuncts]

theorem proper_of_mem_conjuncts (ht : t.Proper) (hc : c ∈ t.conjuncts) : c.Proper := by
  induction t with
  | leaf a => simpa [conjuncts] using (mem_singleton.mp hc) ▸ ht
  | all cs ih =>
    rw [conjuncts, mem_conjunctsChildren] at hc
    rcases hc with ⟨d, hd, hcd⟩
    exact ih d hd ((proper_all.mp ht).2 d hd) hcd
  | any cs => exact (mem_singleton.mp hc) ▸ ht

theorem conjuncts_ne_nil (ht : t.Proper) : t.conjuncts ≠ [] := by
  induction t with
  | leaf a => simp [conjuncts]
  | all cs ih =>
    rw [proper_all] at ht
    rcases exists_mem_of_ne_nil cs ht.1 with ⟨c, hc⟩
    rcases exists_mem_of_ne_nil _ (ih c hc (ht.2 c hc)) with ⟨d, hd⟩
    rw [conjuncts]
    exact ne_nil_of_mem (mem_conjunctsChildren.mpr ⟨c, hc, hd⟩)
  | any cs => simp [conjuncts]

theorem mem_leaves_iff_conjuncts : a ∈ t.leaves ↔ ∃ c ∈ t.conjuncts, a ∈ c.leaves := by
  induction t with
  | leaf b => simp [conjuncts]
  | all cs ih =>
    simp only [mem_leaves_all, conjuncts, mem_conjunctsChildren]
    constructor
    · rintro ⟨c, hc, ha⟩
      rcases (ih c hc).mp ha with ⟨d, hd, ha⟩
      exact ⟨d, ⟨c, hc, hd⟩, ha⟩
    · rintro ⟨d, ⟨c, hc, hd⟩, ha⟩
      exact ⟨c, hc, (ih c hc).mpr ⟨d, hd, ha⟩⟩
  | any cs => simp [conjuncts]

end BoolTree
