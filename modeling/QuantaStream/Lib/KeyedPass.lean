import QuantaStream.Lib.Outcome

/-!
# Passes over keyed entries

A pass visits the entries of a list one after the other and stops at the first visit that fails.
When a visit changes nothing but what is stored under the key of its own entry, and no key is
visited twice, each key ends with what its own visit makes of the start.
-/

namespace KeyedPass

open List

variable {σ E K V ε : Type} {get : σ → K → V} {key : E → K} {visit : σ → E → Except ε σ}

/-- A successful visit changes only what is stored under its key. -/
def Framed (get : σ → K → V) (key : E → K) (visit : σ → E → Except ε σ) : Prop :=
  ∀ s e s', visit s e = .ok s' → ∀ k, k ≠ key e → get s' k = get s k

variable {es : List E} {s s' : σ}

theorem foldlM_cons_eq_ok {e : E} (h : (e :: es).foldlM visit s = .ok s') :
    ∃ s₁, visit s e = .ok s₁ ∧ es.foldlM visit s₁ = .ok s' := by
  exact Outcome.bind_eq_ok.mp h

/-- What no visit changes is not changed by a pass. -/
theorem foldlM_eq_of_visit_eq {α : Type} {f : σ → α}
    (hvisit : ∀ e ∈ es, ∀ s s', visit s e = .ok s' → f s' = f s)
    (h : es.foldlM visit s = .ok s') : f s' = f s := by
  induction es generalizing s with
  | nil =>
    cases h
    rfl
  | cons e es ih =>
    obtain ⟨s₁, hfirst, hrest⟩ := foldlM_cons_eq_ok h
    rw [ih (fun x hx => hvisit x (mem_cons_of_mem e hx)) hrest]
    exact hvisit e mem_cons_self s s₁ hfirst

/-- Keys that are not visited keep what they store. -/
theorem Framed.foldlM_of_forall_ne (hframe : Framed get key visit)
    (h : es.foldlM visit s = .ok s') {k : K} (hk : ∀ e ∈ es, k ≠ key e) : get s' k = get s k :=
  foldlM_eq_of_visit_eq
    (fun e he s s' hvisit => hframe s e s' hvisit k (hk e he)) h

/-- A visited key ends as its own visit leaves it, and that visit finds what was stored at the
start. -/
theorem Framed.exists_visit (hframe : Framed get key visit) (hnodup : (es.map key).Nodup)
    (h : es.foldlM visit s = .ok s') {e : E} (he : e ∈ es) :
    ∃ s₁ s₂, get s₁ (key e) = get s (key e) ∧ visit s₁ e = .ok s₂ ∧
      get s' (key e) = get s₂ (key e) := by
  induction es generalizing s with
  | nil => cases he
  | cons x es ih =>
    obtain ⟨s₁, hvisit, hrest⟩ := foldlM_cons_eq_ok h
    rw [map_cons, nodup_cons] at hnodup
    rcases mem_cons.mp he with rfl | he
    · have hlater : ∀ y ∈ es, key e ≠ key y := fun y hy heq =>
        hnodup.1 (heq ▸ mem_map_of_mem hy)
      exact ⟨s, s₁, rfl, hvisit, hframe.foldlM_of_forall_ne hrest hlater⟩
    · obtain ⟨t₁, t₂, hstart, hvisited, hfinal⟩ := ih hnodup.2 hrest he
      have hne : key e ≠ key x := fun heq => hnodup.1 (heq ▸ mem_map_of_mem he)
      exact ⟨t₁, t₂, hstart.trans (hframe s x s₁ hvisit _ hne), hvisited, hfinal⟩

/-! ## Keys that are visited several times -/

/-- What a visit does, and whether it succeeds, depends on what is stored under its key only. -/
structure Local (get : σ → K → V) (key : E → K) (visit : σ → E → Except ε σ)
    (act : V → E → Except ε V) : Prop where
  framed : Framed get key visit
  acts : ∀ s e s', visit s e = .ok s' → act (get s (key e)) e = .ok (get s' (key e))
  visits : ∀ s e v, act (get s (key e)) e = .ok v → ∃ s', visit s e = .ok s'

variable [DecidableEq K] {act : V → E → Except ε V}

/-- A key ends as its own visits leave it. -/
theorem Local.foldlM_act (h : Local get key visit act) (hfold : es.foldlM visit s = .ok s')
    (k : K) : (es.filter fun e => key e = k).foldlM act (get s k) = .ok (get s' k) := by
  induction es generalizing s with
  | nil =>
    cases hfold
    rfl
  | cons e es ih =>
    obtain ⟨s₁, hvisit, hrest⟩ := foldlM_cons_eq_ok hfold
    by_cases hk : key e = k
    · subst hk
      rw [filter_cons_of_pos (by simp), foldlM_cons, h.acts s e s₁ hvisit]
      exact ih hrest
    · rw [filter_cons_of_neg (by simpa using hk), ← h.framed s e s₁ hvisit k (Ne.symm hk)]
      exact ih hrest

/-- A pass succeeds if the visits of each key do. -/
theorem Local.exists_foldlM (h : Local get key visit act)
    (hkeys : ∀ k, ∃ v, (es.filter fun e => key e = k).foldlM act (get s k) = .ok v) :
    ∃ s', es.foldlM visit s = .ok s' := by
  induction es generalizing s with
  | nil => exact ⟨s, rfl⟩
  | cons e es ih =>
    obtain ⟨v, hv⟩ := hkeys (key e)
    rw [filter_cons_of_pos (by simp)] at hv
    obtain ⟨v₁, hact, -⟩ := foldlM_cons_eq_ok hv
    obtain ⟨s₁, hvisit⟩ := h.visits s e v₁ hact
    have hrest : ∀ k, ∃ v, (es.filter fun e => key e = k).foldlM act (get s₁ k) = .ok v := by
      intro k
      obtain ⟨w, hw⟩ := hkeys k
      by_cases hk : key e = k
      · subst hk
        rw [filter_cons_of_pos (by simp), foldlM_cons, h.acts s e s₁ hvisit] at hw
        exact ⟨w, hw⟩
      · rw [filter_cons_of_neg (by simpa using hk)] at hw
        rw [h.framed s e s₁ hvisit k (Ne.symm hk)]
        exact ⟨w, hw⟩
    obtain ⟨s', hs'⟩ := ih hrest
    exact ⟨s', by rw [foldlM_cons, hvisit]; exact hs'⟩

end KeyedPass
