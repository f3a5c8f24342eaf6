import Mathlib.Logic.Basic

/-!
# Runs of a state machine

A state machine is a step function on a state and an event; an event that cannot happen in a
state leaves it unchanged, so every list of events is a run and every interleaving of concurrent
parties is one.
-/

namespace Run

open List

variable {σ ε : Type*} (step : σ → ε → σ)

def exec (s : σ) (es : List ε) : σ := es.foldl step s

/-- Every step of the run meets a condition on the state before it and the event. -/
def Meets (P : σ → ε → Prop) : σ → List ε → Prop
  | _, [] => True
  | s, e :: es => P s e ∧ Meets P (step s e) es

instance decidableMeets {P : σ → ε → Prop} [∀ s e, Decidable (P s e)] (s : σ) :
    (es : List ε) → Decidable (Meets step P s es)
  | [] => inferInstanceAs (Decidable True)
  | e :: es => @instDecidableAnd _ _ _ (decidableMeets (step s e) es)

variable {P : σ → ε → Prop}

/-- A run meets a condition if its first part does and the rest does from there. -/
theorem meets_append {s : σ} {es es' : List ε} :
    Meets step P s (es ++ es') ↔ Meets step P s es ∧ Meets step P (exec step s es) es' := by
  induction es generalizing s with
  | nil => exact (iff_of_eq (true_and _)).symm
  | cons e es ih =>
    rw [cons_append, Meets, Meets, ih, and_assoc]
    rfl

/-- An invariant of the steps that meet a condition holds after every run that meets it. -/
theorem exec_induction {I : σ → Prop} (hstep : ∀ s e, I s → P s e → I (step s e)) {s : σ}
    {es : List ε} (hs : I s) (hes : Meets step P s es) : I (exec step s es) := by
  induction es generalizing s with
  | nil => exact hs
  | cons e es ih => exact ih (hstep s e hs hes.1) hes.2

/-- If a condition says which steps from good states lead to good states, then the runs that are
good at every moment are those whose steps all meet it. -/
theorem forall_prefix_iff_meets {Inv Good : σ → Prop} (hinv : ∀ s e, Inv s → Inv (step s e))
    (hgood : ∀ s e, Inv s → Good s → (Good (step s e) ↔ P s e)) {s : σ} (hs : Inv s) (hgs : Good s)
    (es : List ε) : (∀ es', es' <+: es → Good (exec step s es')) ↔ Meets step P s es := by
  induction es generalizing s with
  | nil =>
    refine ⟨fun _ => trivial, fun _ es' hes' => ?_⟩
    rw [prefix_nil.mp hes']
    exact hgs
  | cons e es ih =>
    constructor
    · intro h
      have hfirst : Good (step s e) := h [e] (prefix_append [e] es)
      refine ⟨(hgood s e hs hgs).mp hfirst, (ih (hinv s e hs) hfirst).mp fun es' hes' => ?_⟩
      exact h (e :: es') (cons_prefix_cons.mpr ⟨rfl, hes'⟩)
    · rintro ⟨he, hes⟩ es' hes'
      have hfirst : Good (step s e) := (hgood s e hs hgs).mpr he
      cases es' with
      | nil => exact hgs
      | cons e' es' =>
        rcases cons_prefix_cons.mp hes' with ⟨rfl, hrest⟩
        exact (ih (hinv s e' hs) hfirst).mpr hes es' hrest

end Run
