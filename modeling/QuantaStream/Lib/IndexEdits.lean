import Mathlib.Data.Finset.Max

/-!
# Editing a list by index

A list is kept next to another one by inserting and removing elements at given positions.  This
module says which elements a sequence of removals takes out, and where a sequence of insertions
puts the new ones.
-/

namespace IndexEdits

open List

variable {α : Type*}

/-! ## Removals -/

/-- Remove at one position after another; a position behind the end removes nothing. -/
def eraseEach (ps : List ℕ) (l : List α) : List α := ps.foldl (fun l p => l.eraseIdx p) l

@[simp] theorem eraseEach_nil (l : List α) : eraseEach [] l = l := rfl

@[simp] theorem eraseEach_cons (p : ℕ) (ps : List ℕ) (l : List α) :
    eraseEach (p :: ps) l = eraseEach ps (l.eraseIdx p) := rfl

theorem eraseEach_sublist (ps : List ℕ) (l : List α) : (eraseEach ps l).Sublist l := by
  induction ps generalizing l with
  | nil => exact Sublist.refl l
  | cons p ps ih => exact (ih (l.eraseIdx p)).trans (eraseIdx_sublist l p)

theorem length_le_eraseEach (ps : List ℕ) (l : List α) :
    l.length ≤ (eraseEach ps l).length + ps.length := by
  induction ps generalizing l with
  | nil => simp
  | cons p ps ih =>
    have hrest := ih (l.eraseIdx p)
    have hone : l.length ≤ (l.eraseIdx p).length + 1 := by
      rw [length_eraseIdx]
      split <;> omega
    simp only [eraseEach_cons, length_cons]
    omega

variable {l : List α}

/-- An element that is removed is gone for good. -/
theorem getElem_notMem_eraseEach (hl : l.Nodup) {p : ℕ} (hp : p < l.length) (ps : List ℕ) :
    l[p] ∉ eraseEach (p :: ps) l := by
  classical
  intro hmem
  have hrest : l[p] ∈ l.eraseIdx p := (eraseEach_sublist ps _).mem hmem
  rw [← hl.erase_getElem p hp] at hrest
  exact hl.not_mem_erase hrest

/-- If the back of a list survives, a position in it was behind the end when its turn came. -/
theorem length_lt_of_back_survives {ps : List ℕ} {front back : List α}
    (hl : (front ++ back).Nodup) (hback : ∀ a ∈ back, a ∈ eraseEach ps (front ++ back))
    (hps : ∃ p ∈ ps, front.length ≤ p) :
    (front ++ back).length < (eraseEach ps (front ++ back)).length + ps.length := by
  induction ps generalizing front with
  | nil => simp at hps
  | cons p ps ih =>
    by_cases hp : p < front.length
    · -- the removal shortens the front, and the late position is still to come
      have herase : (front ++ back).eraseIdx p = front.eraseIdx p ++ back :=
        eraseIdx_append_of_lt_length hp back
      have hlen : (front.eraseIdx p).length + 1 = front.length :=
        length_eraseIdx_add_one hp
      rw [eraseEach_cons, herase] at hback ⊢
      obtain ⟨q, hq, hle⟩ := hps
      have hq' : q ∈ ps := (mem_cons.mp hq).resolve_left (by omega)
      have hlt := ih (herase ▸ hl.eraseIdx p) hback ⟨q, hq', by omega⟩
      simp only [length_append, length_cons] at hlt ⊢
      omega
    · by_cases hend : p < (front ++ back).length
      · exfalso
        have hmem : (front ++ back)[p] ∈ back := by
          rw [getElem_append_right (by omega)]
          exact getElem_mem _
        exact getElem_notMem_eraseEach hl hend ps (hback _ hmem)
      · rw [eraseEach_cons, eraseIdx_of_length_le (by omega)]
        have hle := length_le_eraseEach ps (front ++ back)
        simp only [length_cons]
        omega

/-- If the front of a list survives, no position is in it. -/
theorem length_le_of_front_survives {ps : List ℕ} {front back : List α}
    (hl : (front ++ back).Nodup) (hfront : ∀ a ∈ front, a ∈ eraseEach ps (front ++ back)) :
    ∀ p ∈ ps, front.length ≤ p := by
  induction ps generalizing back with
  | nil => simp
  | cons p ps ih =>
    have hp : front.length ≤ p := by
      by_contra hlt
      have hend : p < (front ++ back).length := by
        simp only [length_append]
        omega
      have hmem : (front ++ back)[p] ∈ front := by
        rw [getElem_append_left (by omega)]
        exact getElem_mem _
      exact getElem_notMem_eraseEach hl hend ps (hfront _ hmem)
    have herase : (front ++ back).eraseIdx p = front ++ back.eraseIdx (p - front.length) :=
      eraseIdx_append_of_length_le hp back
    rw [eraseEach_cons, herase] at hfront
    exact forall_mem_cons.mpr ⟨hp, ih (herase ▸ hl.eraseIdx p) hfront⟩

variable [DecidableEq α]

theorem eraseIdx_idxOf (hl : l.Nodup) (a : α) : l.eraseIdx (l.idxOf a) = l.filter (· ≠ a) := by
  rw [← erase_eq_eraseIdx_of_idxOf rfl, hl.erase_eq_filter]
  exact filter_congr fun b _ => by by_cases h : b = a <;> simp [h]

variable {a : α}

theorem idxOf_eraseIdx_of_lt {p : ℕ} (ha : l.idxOf a < p) : (l.eraseIdx p).idxOf a = l.idxOf a := by
  induction l generalizing p with
  | nil => simp
  | cons b l ih =>
    cases p with
    | zero => omega
    | succ p =>
      rw [eraseIdx_cons_succ]
      by_cases hb : b = a
      · simp [hb]
      · rw [idxOf_cons_ne _ hb] at ha ⊢
        rw [idxOf_cons_ne _ hb, ih (by omega)]

variable {vs : List α}

/-- A removal behind elements leaves their positions and the order of these. -/
theorem map_idxOf_eraseIdx {p : ℕ} (h : ∀ b ∈ vs, l.idxOf b < p) :
    vs.map (l.eraseIdx p).idxOf = vs.map l.idxOf ∧
      ((vs.Pairwise fun a b => (l.eraseIdx p).idxOf b < (l.eraseIdx p).idxOf a) ↔
        vs.Pairwise fun a b => l.idxOf b < l.idxOf a) := by
  have hmap : vs.map (l.eraseIdx p).idxOf = vs.map l.idxOf :=
    map_congr_left fun b hb => idxOf_eraseIdx_of_lt (h b hb)
  have hpairwise (l : List α) :
      (vs.map l.idxOf).Pairwise (· > ·) ↔ vs.Pairwise fun a b => l.idxOf b < l.idxOf a :=
    pairwise_map
  exact ⟨hmap, by rw [← hpairwise, ← hpairwise, hmap]⟩

/-- Removals at the positions of elements, from the back to the front, take out these elements. -/
theorem eraseEach_of_descending (hl : l.Nodup) (hvs : ∀ v ∈ vs, v ∈ l)
    (hdesc : vs.Pairwise fun a b => l.idxOf b < l.idxOf a) :
    eraseEach (vs.map l.idxOf) l = l.filter (· ∉ vs) := by
  induction vs generalizing l with
  | nil => simp
  | cons v vs ih =>
    obtain ⟨hfirst, hrest⟩ := pairwise_cons.mp hdesc
    obtain ⟨hmap, hpairwise⟩ := map_idxOf_eraseIdx hfirst
    have herase := eraseIdx_idxOf hl v
    have hmem : ∀ b ∈ vs, b ∈ l.eraseIdx (l.idxOf v) := by
      intro b hb
      have hne : b ≠ v := by
        rintro rfl
        exact Nat.lt_irrefl _ (hfirst b hb)
      rw [herase]
      exact mem_filter.mpr ⟨hvs b (mem_cons_of_mem v hb), by simpa using hne⟩
    rw [map_cons, eraseEach_cons, ← hmap, ih (hl.eraseIdx _) hmem (hpairwise.mpr hrest), herase,
      filter_filter]
    refine filter_congr fun a _ => ?_
    by_cases hav : a = v <;> simp [hav]

theorem idxOf_of_mem_drop (hl : l.Nodup) {n : ℕ} (ha : a ∈ l.drop n) : n ≤ l.idxOf a := by
  obtain ⟨i, hi, rfl⟩ := mem_iff_getElem.mp ha
  rw [getElem_drop, hl.idxOf_getElem]
  omega

/-- If the elements behind the last removed one survive, the last one is removed first. -/
theorem idxOf_lt_of_eraseEach (hl : l.Nodup) {v : α} (hv : v ∈ l) (hvs : ∀ b ∈ vs, b ∈ l)
    (hnodup : v ∉ vs) (hkeep : ∀ a ∈ l, a ∉ v :: vs → a ∈ eraseEach ((v :: vs).map l.idxOf) l)
    (hlen : (eraseEach ((v :: vs).map l.idxOf) l).length + (v :: vs).length = l.length) :
    ∀ b ∈ vs, l.idxOf b < l.idxOf v := by
  by_contra hnot
  push Not at hnot
  obtain ⟨c, hc, hvc⟩ := hnot
  obtain ⟨b, hb, hmax⟩ := vs.toFinset.exists_max_image l.idxOf ⟨c, mem_toFinset.mpr hc⟩
  rw [mem_toFinset] at hb
  have hbl : l.idxOf b < l.length := idxOf_lt_length_of_mem (hvs b hb)
  have hle : l.idxOf v ≤ l.idxOf b := hvc.trans (hmax c (mem_toFinset.mpr hc))
  have herase : l.eraseIdx (l.idxOf v) =
      (l.take (l.idxOf b + 1)).eraseIdx (l.idxOf v) ++ l.drop (l.idxOf b + 1) := by
    have hlt : l.idxOf v < (l.take (l.idxOf b + 1)).length := by
      rw [length_take]
      omega
    rw [← eraseIdx_append_of_lt_length hlt, take_append_drop]
  have hfront : ((l.take (l.idxOf b + 1)).eraseIdx (l.idxOf v)).length = l.idxOf b := by
    rw [length_eraseIdx_of_lt (by rw [length_take]; omega), length_take]
    omega
  have hback : ∀ a ∈ l.drop (l.idxOf b + 1),
      a ∈ eraseEach (vs.map l.idxOf) (l.eraseIdx (l.idxOf v)) := by
    intro a ha
    have hlate := idxOf_of_mem_drop hl ha
    refine hkeep a (mem_of_mem_drop ha) fun hmem => ?_
    rcases mem_cons.mp hmem with rfl | hmem
    · omega
    · have := hmax a (mem_toFinset.mpr hmem)
      omega
  have hlate : ∃ p ∈ vs.map l.idxOf,
      ((l.take (l.idxOf b + 1)).eraseIdx (l.idxOf v)).length ≤ p :=
    ⟨l.idxOf b, mem_map_of_mem hb, hfront.le⟩
  rw [herase] at hback
  have hlt := length_lt_of_back_survives (herase ▸ hl.eraseIdx _) hback hlate
  rw [← herase, length_eraseIdx_of_lt (by omega), length_map] at hlt
  rw [map_cons, eraseEach_cons, length_cons] at hlen
  omega

/-- If the removals take out the elements and nothing else, they went from the back to the
front. -/
theorem descending_of_eraseEach (hl : l.Nodup) (hvs : ∀ v ∈ vs, v ∈ l) (hnodup : vs.Nodup)
    (hkeep : ∀ a ∈ l, a ∉ vs → a ∈ eraseEach (vs.map l.idxOf) l)
    (hlen : (eraseEach (vs.map l.idxOf) l).length + vs.length = l.length) :
    vs.Pairwise fun a b => l.idxOf b < l.idxOf a := by
  induction vs generalizing l with
  | nil => exact Pairwise.nil
  | cons v vs ih =>
    obtain ⟨hv, hnodup'⟩ := nodup_cons.mp hnodup
    have hvl : v ∈ l := hvs v mem_cons_self
    have hvs' : ∀ b ∈ vs, b ∈ l := fun b hb => hvs b (mem_cons_of_mem v hb)
    have hfirst := idxOf_lt_of_eraseEach hl hvl hvs' hv hkeep hlen
    obtain ⟨hmap, hpairwise⟩ := map_idxOf_eraseIdx hfirst
    have herase := eraseIdx_idxOf hl v
    have hmem : ∀ a, a ∈ l.eraseIdx (l.idxOf v) ↔ a ∈ l ∧ a ≠ v := by
      intro a
      rw [herase, mem_filter]
      simp
    rw [map_cons, eraseEach_cons, ← hmap] at hkeep hlen
    have hlen' : (l.eraseIdx (l.idxOf v)).length + 1 = l.length :=
      length_eraseIdx_add_one (idxOf_lt_length_of_mem hvl)
    rw [length_cons] at hlen
    have hrest := ih (hl.eraseIdx _)
      (fun b hb => (hmem b).mpr ⟨hvs' b hb, fun heq => hv (heq ▸ hb)⟩) hnodup'
      (fun a ha hnot => hkeep a ((hmem a).mp ha).1 fun hin =>
        hnot ((mem_cons.mp hin).resolve_left ((hmem a).mp ha).2)) (by omega)
    exact pairwise_cons.mpr ⟨hfirst, hpairwise.mp hrest⟩

/-! ## Insertions -/

/-- Go through a list from position `k` on and insert its unknown elements at their
positions. -/
def insertNew (known : List α) : ℕ → List α → List α → List α
  | _, [], l => l
  | k, a :: as, l => insertNew known (k + 1) as (if a ∈ known then l else l.insertIdx k a)

omit [DecidableEq α] in
theorem filter_insertIdx_of_neg {q : α → Bool} (ha : q a = false) (l : List α) (k : ℕ) :
    (l.insertIdx k a).filter q = l.filter q := by
  induction l generalizing k with
  | nil => cases k <;> simp [ha]
  | cons b l ih =>
    cases k with
    | zero => simp [ha]
    | succ k => simp [filter_cons, ih]

omit [DecidableEq α] in
theorem insertIdx_length_append (done rest : List α) (a : α) :
    (done ++ rest).insertIdx done.length a = done ++ a :: rest := by
  induction done with
  | nil => simp
  | cons b done ih => simp [ih]

theorem filter_insertNew (known : List α) (k : ℕ) (as l : List α) :
    (insertNew known k as l).filter (· ∈ known) = l.filter (· ∈ known) := by
  induction as generalizing k l with
  | nil => rfl
  | cons a as ih =>
    rw [insertNew, ih]
    split
    · rfl
    · rename_i ha
      exact filter_insertIdx_of_neg (by simpa using ha) l k

variable {k : ℕ}

/-- Later insertions move nothing before them. -/
theorem getElem?_insertNew_of_lt (known : List α) {i : ℕ} (hi : i < k) (as l : List α) :
    (insertNew known k as l)[i]? = l[i]? := by
  induction as generalizing k l with
  | nil => rfl
  | cons a as ih =>
    rw [insertNew, ih (by omega)]
    split
    · rfl
    · rw [getElem?_insertIdx_of_lt hi]

/-- There is room for the insertions to come. -/
def Room (known : List α) (k : ℕ) (as l : List α) : Prop :=
  k + (as.filter (· ∈ known)).length ≤ l.length

variable {as known : List α}

theorem Room.le (h : Room known k as l) : k ≤ l.length := by
  unfold Room at h
  omega

theorem Room.tail (h : Room known k (a :: as) l) :
    Room known (k + 1) as (if a ∈ known then l else l.insertIdx k a) := by
  have hk := h.le
  unfold Room at h ⊢
  by_cases ha : a ∈ known
  · rw [filter_cons_of_pos (by simpa using ha), length_cons] at h
    rw [if_pos ha]
    omega
  · rw [filter_cons_of_neg (by simpa using ha)] at h
    rw [if_neg ha, length_insertIdx_of_le_length hk]
    omega

/-- Every unknown element ends up at its position. -/
theorem getElem?_insertNew (hroom : Room known k as l) {i : ℕ} (ha : as[i]? = some a)
    (hnew : a ∉ known) : (insertNew known k as l)[k + i]? = some a := by
  induction as generalizing k l i with
  | nil => simp at ha
  | cons b as ih =>
    rw [insertNew]
    cases i with
    | zero =>
      obtain rfl : b = a := by simpa using ha
      rw [getElem?_insertNew_of_lt known (by omega), if_neg hnew, Nat.add_zero,
        getElem?_insertIdx_self, if_pos hroom.le]
    | succ i =>
      have hrest := ih hroom.tail (by simpa using ha)
      rwa [Nat.add_assoc, Nat.add_comm 1 i] at hrest

theorem insertNew_perm (hroom : Room known k as l) :
    (insertNew known k as l).Perm (as.filter (· ∉ known) ++ l) := by
  induction as generalizing k l with
  | nil => simp [insertNew]
  | cons a as ih =>
    refine (ih hroom.tail).trans ?_
    by_cases ha : a ∈ known
    · rw [if_pos ha, filter_cons_of_neg (by simpa using ha)]
    · rw [if_neg ha, filter_cons_of_pos (by simpa using ha), cons_append]
      exact ((perm_insertIdx a l hroom.le).append_left _).trans perm_middle

/-- If the known elements are in order, the insertions give the list and what was behind it. -/
theorem insertNew_append (known as done rest : List α) :
    insertNew known done.length as (done ++ (as.filter (· ∈ known) ++ rest)) =
      done ++ (as ++ rest) := by
  induction as generalizing done with
  | nil => simp [insertNew]
  | cons a as ih =>
    have hstep := ih (done ++ [a])
    rw [length_append, length_singleton, append_assoc, append_assoc] at hstep
    rw [insertNew]
    by_cases ha : a ∈ known
    · rw [if_pos ha, filter_cons_of_pos (by simpa using ha)]
      exact hstep
    · rw [if_neg ha, filter_cons_of_neg (by simpa using ha), insertIdx_length_append]
      exact hstep

theorem insertNew_of_known (h : ∀ a ∈ as, a ∈ known) (k : ℕ) (l : List α) :
    insertNew known k as l = l := by
  induction as generalizing k with
  | nil => rfl
  | cons a as ih =>
    rw [insertNew, if_pos (h a mem_cons_self)]
    exact ih (fun b hb => h b (mem_cons_of_mem a hb)) (k + 1)

/-! ## Following another list -/

/-- Insert what is new at its new position, then remove what is gone at its old position, in the
given order. -/
def follow (old new order : List α) : List α :=
  eraseEach ((order.filter (· ∉ new)).map old.idxOf) (insertNew old 0 new old)

/-- The changes that insertions at new positions and removals at old positions can follow: only
insertions or only removals, no change of order, and removals from the back to the front. -/
structure Followable (old new order : List α) : Prop where
  oneSided : (∀ a ∈ new, a ∈ old) ∨ ∀ a ∈ old, a ∈ new
  ordered : new.filter (· ∈ old) = old.filter (· ∈ new)
  descending : (order.filter (· ∉ new)).Pairwise fun a b => old.idxOf b < old.idxOf a

section

variable {old new order : List α}

theorem room_of_nodup (hnew : new.Nodup) : Room old 0 new old := by
  have hsub : (new.filter (· ∈ old)).Subperm old :=
    (hnew.filter _).subperm fun a ha => by simpa using (mem_filter.mp ha).2
  simpa [Room] using hsub.length_le

variable {a : α}

theorem mem_leavers (horder : order.Perm old) : a ∈ order.filter (· ∉ new) ↔ a ∈ old ∧ a ∉ new := by
  simp [horder.mem_iff]

theorem leavers_eq_nil (horder : order.Perm old) (hgrow : ∀ a ∈ old, a ∈ new) :
    order.filter (· ∉ new) = [] :=
  filter_eq_nil_iff.mpr fun a ha => by simpa using hgrow a (horder.mem_iff.mp ha)

/-- If nothing is gone, the edits follow exactly when the order is kept. -/
theorem follow_of_grow (horder : order.Perm old) (hgrow : ∀ a ∈ old, a ∈ new) :
    follow old new order = new ↔ new.filter (· ∈ old) = old.filter (· ∈ new) := by
  have hkeep : old.filter (· ∈ new) = old := filter_eq_self.mpr (by simpa using hgrow)
  have hself : old.filter (· ∈ old) = old := filter_eq_self.mpr (by simp)
  rw [follow, leavers_eq_nil horder hgrow, map_nil, eraseEach_nil, hkeep]
  constructor
  · intro heq
    rw [← heq, filter_insertNew, hself]
  · intro heq
    have happend := insertNew_append old new [] []
    simpa [heq] using happend

theorem length_add_leavers (hold : old.Nodup) (hnew : new.Nodup) (horder : order.Perm old)
    (hshrink : ∀ a ∈ new, a ∈ old) : new.length + (order.filter (· ∉ new)).length = old.length := by
  have hstay : (order.filter (· ∈ new)).Perm new := by
    refine (perm_ext_iff_of_nodup ((horder.nodup_iff.mpr hold).filter _) hnew).mpr fun a => ?_
    simpa [horder.mem_iff] using hshrink a
  have hsplit := length_eq_length_filter_add (l := order) (fun a => decide (a ∈ new))
  have hnot : order.filter (fun a => !decide (a ∈ new)) = order.filter (· ∉ new) :=
    filter_congr fun a _ => by simp
  rw [hnot, hstay.length_eq] at hsplit
  rw [← horder.length_eq, hsplit]

/-- If nothing is new, the edits follow exactly when the order is kept and the removals go from
the back to the front. -/
theorem follow_of_shrink (hold : old.Nodup) (hnew : new.Nodup) (horder : order.Perm old)
    (hshrink : ∀ a ∈ new, a ∈ old) :
    follow old new order = new ↔ new.filter (· ∈ old) = old.filter (· ∈ new) ∧
      (order.filter (· ∉ new)).Pairwise fun a b => old.idxOf b < old.idxOf a := by
  have hself : new.filter (· ∈ old) = new := filter_eq_self.mpr (by simpa using hshrink)
  have hmem : ∀ v ∈ order.filter (· ∉ new), v ∈ old := fun v hv => ((mem_leavers horder).mp hv).1
  have hrest : old.filter (· ∉ order.filter (· ∉ new)) = old.filter (· ∈ new) := by
    refine filter_congr fun a ha => ?_
    refine decide_eq_decide.mpr ?_
    rw [mem_leavers horder]
    exact ⟨fun h => not_not.mp fun hgone => h ⟨ha, hgone⟩, fun h hgone => hgone.2 h⟩
  rw [follow, insertNew_of_known hshrink, hself]
  constructor
  · intro heq
    have hkeep : ∀ a ∈ old, a ∉ order.filter (· ∉ new) →
        a ∈ eraseEach ((order.filter (· ∉ new)).map old.idxOf) old := by
      intro a ha hnot
      rw [heq]
      by_contra hgone
      exact hnot ((mem_leavers horder).mpr ⟨ha, hgone⟩)
    have hlen := length_add_leavers hold hnew horder hshrink
    have hdesc := descending_of_eraseEach hold hmem ((horder.nodup_iff.mpr hold).filter _) hkeep
      (by rw [heq, hlen])
    exact ⟨heq.symm.trans ((eraseEach_of_descending hold hmem hdesc).trans hrest), hdesc⟩
  · rintro ⟨heq, hdesc⟩
    rw [eraseEach_of_descending hold hmem hdesc, hrest, ← heq]

variable {j : α}

/-- In a part of a list without repetitions no element is further back than in the list. -/
theorem idxOf_le_of_sublist {part whole : List α} (hsub : part.Sublist whole)
    (hwhole : whole.Nodup) (hj : j ∈ part) : part.idxOf j ≤ whole.idxOf j := by
  induction hsub with
  | slnil => simp at hj
  | cons a hsub ih =>
    obtain ⟨ha, hwhole⟩ := nodup_cons.mp hwhole
    have hne : a ≠ j := fun h => ha (h ▸ hsub.mem hj)
    rw [idxOf_cons_ne _ hne]
    exact (ih hwhole hj).trans (Nat.le_succ _)
  | cons_cons a hsub ih =>
    by_cases hne : a = j
    · simp [hne]
    · rw [idxOf_cons_ne _ hne, idxOf_cons_ne _ hne]
      have hj' : j ∈ _ := (mem_cons.mp hj).resolve_left (Ne.symm hne)
      exact Nat.succ_le_succ (ih (nodup_cons.mp hwhole).2 hj')

/-- If an element is as far back in a part of a list as in the list, nothing before it is
missing. -/
theorem mem_of_idxOf_eq {part whole : List α} (hsub : part.Sublist whole) (hwhole : whole.Nodup)
    (hj : j ∈ part) (hidx : part.idxOf j = whole.idxOf j) (ha : a ∈ whole)
    (hlt : whole.idxOf a < whole.idxOf j) : a ∈ part := by
  induction hsub with
  | slnil => simp at hj
  | @cons part whole b hsub ih =>
    obtain ⟨hb, hwhole⟩ := nodup_cons.mp hwhole
    have hne : b ≠ j := fun h => hb (h ▸ hsub.mem hj)
    have hle := idxOf_le_of_sublist hsub hwhole hj
    rw [idxOf_cons_ne _ hne] at hidx
    omega
  | @cons_cons part whole b hsub ih =>
    by_cases hbj : b = j
    · simp [hbj] at hlt
    by_cases hba : b = a
    · simp [hba]
    rw [idxOf_cons_ne _ hbj, idxOf_cons_ne _ hbj] at hidx
    rw [idxOf_cons_ne _ hbj, idxOf_cons_ne _ hba] at hlt
    have hj' : j ∈ part := (mem_cons.mp hj).resolve_left (Ne.symm hbj)
    have ha' : a ∈ whole := (mem_cons.mp ha).resolve_left (Ne.symm hba)
    exact mem_cons_of_mem b
      (ih (nodup_cons.mp hwhole).2 hj' (by omega) ha' (by omega))

/-- The known elements of the first positions are the first known ones. -/
theorem idxOf_lt_of_mem_take {known l : List α} (hl : l.filter (· ∈ known) = known) {n : ℕ}
    (ha : a ∈ l.take n) (hmem : a ∈ known) :
    known.idxOf a < ((l.take n).filter (· ∈ known)).length := by
  have hstart : (l.take n).filter (· ∈ known) <+: known := by
    have hsplit := congrArg (filter (· ∈ known)) (take_append_drop n l)
    rw [filter_append, hl] at hsplit
    exact ⟨_, hsplit⟩
  have hin : a ∈ (l.take n).filter (· ∈ known) := mem_filter.mpr ⟨ha, by simpa using hmem⟩
  obtain ⟨rest, hrest⟩ := hstart
  have hidx : ((l.take n).filter (· ∈ known) ++ rest).idxOf a =
      ((l.take n).filter (· ∈ known)).idxOf a := idxOf_append_of_mem hin
  rw [hrest] at hidx
  exact hidx ▸ idxOf_lt_length_of_mem hin

/-- Edits never follow if something is new and something is gone. -/
theorem follow_ne_of_mixed (hold : old.Nodup) (hnew : new.Nodup) (horder : order.Perm old) {v : α}
    (hj : j ∈ new) (hj' : j ∉ old) (hv : v ∈ old) (hv' : v ∉ new) : follow old new order ≠ new := by
  intro heq
  set l := insertNew old 0 new old with hl
  have hroom : Room old 0 new old := room_of_nodup hnew
  have hperm : l.Perm (new.filter (· ∉ old) ++ old) := insertNew_perm hroom
  have hknown : l.filter (· ∈ old) = old := by
    rw [hl, filter_insertNew, filter_eq_self]
    simp
  have hnodup : l.Nodup := by
    refine hperm.nodup_iff.mpr (nodup_append'.mpr ⟨hnew.filter _, hold, ?_⟩)
    intro a ha
    simpa using (mem_filter.mp ha).2
  have hsub : new.Sublist l := heq ▸ eraseEach_sublist _ _
  -- the new element is where it belongs, so nothing before it is gone
  have hjl : l.idxOf j = new.idxOf j := by
    have hget : l[0 + new.idxOf j]? = some j :=
      getElem?_insertNew hroom (getElem?_idxOf hj) hj'
    rw [Nat.zero_add] at hget
    obtain ⟨hlt, hget⟩ := List.getElem?_eq_some_iff.mp hget
    rw [← hget, hnodup.idxOf_getElem, hget]
  have hbefore : ∀ a ∈ l, l.idxOf a < l.idxOf j → a ∈ new := fun a ha hlt =>
    mem_of_idxOf_eq hsub hnodup hj hjl.symm ha hlt
  -- let the first element that is gone be at position `p` of the old list
  obtain ⟨w, hw, hmin⟩ := (order.filter (· ∉ new)).toFinset.exists_min_image old.idxOf
    ⟨v, mem_toFinset.mpr ((mem_leavers horder).mpr ⟨hv, hv'⟩)⟩
  have hw' := (mem_leavers horder).mp (mem_toFinset.mp hw)
  have hpl : old.idxOf w < l.length := by
    have hlen := hperm.length_eq
    have hlt := idxOf_lt_length_of_mem hw'.1
    rw [length_append] at hlen
    omega
  have hfront : ∀ a ∈ l.take (old.idxOf w + 1), a ∈ new := by
    intro a ha
    by_contra hgone
    have hal : a ∈ l := mem_of_mem_take ha
    have haold : a ∈ old :=
      (mem_append.mp (hperm.mem_iff.mp hal)).resolve_left fun h => hgone (mem_filter.mp h).1
    have hle : old.idxOf w ≤ old.idxOf a :=
      hmin a (mem_toFinset.mpr ((mem_leavers horder).mpr ⟨haold, hgone⟩))
    have hearly := idxOf_lt_of_mem_take hknown ha haold
    rcases Nat.lt_or_ge (old.idxOf w) (l.idxOf j) with hlate | hjw
    · have hlt : l.idxOf a < old.idxOf w + 1 := (mem_take_iff_idxOf_lt hal).mp ha
      exact hgone (hbefore a hal (by omega))
    have hjmem : j ∈ l.take (old.idxOf w + 1) :=
      (mem_take_iff_idxOf_lt (hsub.mem hj)).mpr (by omega)
    have hless : ((l.take (old.idxOf w + 1)).filter (· ∈ old)).length <
        (l.take (old.idxOf w + 1)).length :=
      length_filter_lt_length_iff_exists.mpr ⟨j, hjmem, by simpa using hj'⟩
    rw [length_take] at hless
    omega
  have hsplit : l.take (old.idxOf w + 1) ++ l.drop (old.idxOf w + 1) = l :=
    take_append_drop _ l
  have hsurvive : ∀ a ∈ l.take (old.idxOf w + 1),
      a ∈ eraseEach ((order.filter (· ∉ new)).map old.idxOf)
        (l.take (old.idxOf w + 1) ++ l.drop (old.idxOf w + 1)) := by
    intro a ha
    rw [hsplit]
    exact (congrArg (a ∈ ·) heq).mpr (hfront a ha)
  have hps := length_le_of_front_survives (hsplit.symm ▸ hnodup) hsurvive
  have hlast := hps (old.idxOf w) (mem_map_of_mem (mem_toFinset.mp hw))
  rw [length_take] at hlast
  omega

/-- The edits follow exactly the changes they can follow. -/
theorem follow_eq_iff (hold : old.Nodup) (hnew : new.Nodup) (horder : order.Perm old) :
    follow old new order = new ↔ Followable old new order := by
  by_cases hshrink : ∀ a ∈ new, a ∈ old
  · rw [follow_of_shrink hold hnew horder hshrink]
    exact ⟨fun h => ⟨.inl hshrink, h.1, h.2⟩, fun h => ⟨h.ordered, h.descending⟩⟩
  by_cases hgrow : ∀ a ∈ old, a ∈ new
  · rw [follow_of_grow horder hgrow]
    refine ⟨fun h => ⟨.inr hgrow, h, ?_⟩, fun h => h.ordered⟩
    rw [leavers_eq_nil horder hgrow]
    exact Pairwise.nil
  · push Not at hshrink hgrow
    obtain ⟨j, hj, hj'⟩ := hshrink
    obtain ⟨v, hv, hv'⟩ := hgrow
    refine ⟨fun h => absurd h (follow_ne_of_mixed hold hnew horder hj hj' hv hv'), fun h => ?_⟩
    rcases h.oneSided with h | h
    · exact absurd (h j hj) hj'
    · exact absurd (h v hv) hv'

end

end IndexEdits
