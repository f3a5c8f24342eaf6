import QuantaStream.Core.PrimaryKeyUniqueness
import QuantaStream.Core.RowSession
import QuantaStream.Lib.Overwrite

/-!
# Sessions as one storage

Sessions with buffers on a storage behave like one storage without buffers, as long as no two
sessions have unsent data of the same row: the effective storage has the column of every key and
the content of every cell, sent or not.  Calls change it as they would change rows by their keys;
sending and flushing do not change it at all.
-/

namespace QuantaStream.Core

open Function Session Overwrite Option Write GoMap List

/-! ## Buffers -/

section

variable {T F V : Type} {b : CellBuffer T F V} {t t' : T} {c c' : ℕ} {f : F} {v : Option V}

/-- No cell of the buffer is both to be set and to be cleared. -/
def CellBuffer.Unmixed (b : CellBuffer T F V) : Prop :=
  ∀ t c f, b.clearValues t c f = true → b.values t c f = none

/-- Neither cells of a column nor what is staged for it set and clear the same field. -/
def SameKinds (staged : F → Option (Option V)) (cells : List (F × Option V)) : Prop :=
  ∀ e ∈ cells, ∀ v, staged e.1 = some v ∨ (e.1, v) ∈ cells → (v = none ↔ e.2 = none)

namespace CellBuffer

theorem unmixed_of_staged (h : ∀ t c f, b.staged t c f = none) : b.Unmixed := by
  intro t c f hclear
  have hnone := h t c f
  simp [staged, hclear] at hnone

/-- Whether a sending has what is staged for a cell. -/
def sends (b : CellBuffer T F V) (sending : Sending T F) (t : T) (c : ℕ) (f : F) : Bool :=
  if b.clearValues t c f then sending.clearValues t c f else sending.values t c f

variable {sending : Sending T F}

/-- What is sent is no longer staged. -/
theorem staged_sent (h : b.Unmixed) (t : T) (c : ℕ) (f : F) :
    (b.sent sending).staged t c f = if b.sends sending t c f then none else b.staged t c f := by
  cases hclear : b.clearValues t c f with
  | false => cases hsent : sending.values t c f <;> simp [staged, sent, sends, hclear, hsent]
  | true =>
    cases hsent : sending.clearValues t c f <;>
      simp [staged, sent, sends, hclear, hsent, h t c f hclear]

theorem Unmixed.sent (h : b.Unmixed) : (b.sent sending).Unmixed := by
  intro t c f hclear
  simp only [CellBuffer.sent, Bool.and_eq_true] at hclear ⊢
  simp [h t c f hclear.2]

/-- The storage has what is sent of a cell. -/
theorem cells_receive {K : Type} {sess : Session T K F V} (h : sess.cells.Unmixed)
    (store : Storage T F V) (t : T) (c : ℕ) (f : F) :
    (store.receive sending sess).cells t c f =
      if sess.cells.sends sending t c f then (sess.staged t c f).getD (store.cells t c f)
      else store.cells t c f := by
  cases hclear : sess.cells.clearValues t c f with
  | false =>
    cases hsent : sending.values t c f <;>
      simp [Storage.receive, staged, sends, hclear, hsent]
    cases sess.cells.values t c f <;> rfl
  | true =>
    cases hsent : sending.clearValues t c f <;>
      simp [Storage.receive, staged, sends, hclear, hsent, h t c f hclear]

variable [DecidableEq T] [DecidableEq F]

/-- A cell that is set and not cleared, or cleared and not set, is staged as such. -/
theorem staged_set {e : F × Option V}
    (hkind : ∀ v, b.staged t c e.1 = some v → (v = none ↔ e.2 = none)) (t' : T) (c' : ℕ) (f : F) :
    (b.set t c e).staged t' c' f =
      if t' = t ∧ c' = c ∧ f = e.1 then some e.2 else b.staged t' c' f := by
  obtain ⟨g, _ | v⟩ := e
  · by_cases hcell : t' = t ∧ c' = c ∧ f = g <;> simp [set, staged, hcell]
  · by_cases hcell : t' = t ∧ c' = c ∧ f = g
    · obtain ⟨rfl, rfl, rfl⟩ := hcell
      cases hclear : b.clearValues t' c' f with
      | false => simp [set, staged, hclear]
      | true => simpa using hkind none (by simp [staged, hclear])
    · simp [set, staged, hcell]

theorem Unmixed.set (h : b.Unmixed) {e : F × Option V}
    (hkind : ∀ v, b.staged t c e.1 = some v → (v = none ↔ e.2 = none)) : (b.set t c e).Unmixed := by
  intro t' c' f hclear
  obtain ⟨g, _ | v⟩ := e
  · by_cases hcell : t' = t ∧ c' = c ∧ f = g
    · obtain ⟨rfl, rfl, rfl⟩ := hcell
      cases hold : b.clearValues t' c' f with
      | true => exact h t' c' f hold
      | false =>
        cases hv : b.values t' c' f with
        | none => exact hv
        | some v => simpa using hkind (some v) (by simp [staged, hold, hv])
    · exact h t' c' f (by simpa [CellBuffer.set, hcell] using hclear)
  · have hold : b.clearValues t' c' f = true := hclear
    by_cases hcell : t' = t ∧ c' = c ∧ f = g
    · obtain ⟨rfl, rfl, rfl⟩ := hcell
      simpa using hkind none (by simp [staged, hold])
    · simpa [CellBuffer.set, hcell] using h t' c' f hold

/-- What is staged after a cell is set or cleared was staged before, or it is that cell. -/
theorem staged_set_cases {e : F × Option V} (h : (b.set t c e).staged t' c' f = some v) :
    b.staged t' c' f = some v ∨ t' = t ∧ c' = c ∧ (f, v) = e := by
  obtain ⟨g, _ | v'⟩ := e <;> by_cases hcell : t' = t ∧ c' = c ∧ f = g
  · obtain ⟨rfl, rfl, rfl⟩ := hcell
    simp_all [set, staged]
  · exact .inl (by simpa [set, staged, hcell] using h)
  · obtain ⟨rfl, rfl, rfl⟩ := hcell
    cases hclear : b.clearValues t' c' f <;> simp_all [set, staged]
  · exact .inl (by simpa [set, staged, hcell] using h)

/-- Cells of different fields can be set or cleared in any order. -/
theorem set_comm (b : CellBuffer T F V) {e e' : F × Option V} (h : e.1 ≠ e'.1) :
    (b.set t c e).set t c e' = (b.set t c e').set t c e := by
  obtain ⟨g, _ | v⟩ := e <;> obtain ⟨g', _ | v'⟩ := e' <;> simp only [set, mk.injEq, true_and, and_true]
  · funext t' c' f
    rw [← Bool.or_assoc, ← Bool.or_assoc, Bool.or_comm (decide _)]
  · funext t' c' f
    by_cases hcell : t' = t ∧ c' = c ∧ f = g
    · simp [hcell, h]
    · simp [hcell]

end CellBuffer

end

/-- A storage without buffers: the column of each key, and the cells of each column. -/
structure Effective (T K F V : Type) where
  column : T → K → Option ℕ
  cells : T → ℕ → F → Option V

open Effective

/-! ## Rows by their keys -/

section

variable {T K F V : Type} (E : Effective T K F V)

def Effective.rows : Rows (T × K) F V :=
  fun a => (E.column a.1 a.2).map (E.cells a.1)

variable {E : Effective T K F V} {t : T} {c : ℕ} {k : K}

theorem Effective.cell_rows (hk : E.column t k = some c) : cell E.rows (t, k) = E.cells t c := by
  funext f
  simp [cell, rows, hk]

variable [DecidableEq T] [DecidableEq F] (E : Effective T K F V)

def Effective.setCells (t : T) (c : ℕ) (cells : List (F × Option V)) : Effective T K F V :=
  { E with
    cells t' c' :=
      if t' = t ∧ c' = c then Overwrite.setCells cells (E.cells t' c') else E.cells t' c' }

theorem Effective.setCells_nil (t : T) (c : ℕ) : E.setCells t c [] = E := by
  simp [setCells, Overwrite.setCells]

theorem Effective.cells_setCells (t t' : T) (c c' : ℕ) (e : F × Option V)
    (f : F) : (E.setCells t c [e]).cells t' c' f =
      if t' = t ∧ c' = c ∧ f = e.1 then e.2 else E.cells t' c' f := by
  by_cases hcolumn : t' = t ∧ c' = c
  · simp [setCells, Overwrite.setCells, hcolumn]
  · rw [if_neg fun hcell => hcolumn ⟨hcell.1, hcell.2.1⟩]
    simp [setCells, hcolumn]

theorem Effective.setCells_append (t : T) (c : ℕ)
    (cells cells' : List (F × Option V)) :
    (E.setCells t c cells).setCells t c cells' = E.setCells t c (cells ++ cells') := by
  unfold setCells
  congr 1
  funext t' c'
  by_cases hcolumn : t' = t ∧ c' = c
  · simp [hcolumn, Overwrite.setCells_append]
  · simp [hcolumn]

variable [DecidableEq K]

def Effective.addKey (t : T) (k : K) (c : ℕ) : Effective T K F V :=
  { E with column := fun t' k' => if t' = t ∧ k' = k then some c else E.column t' k' }

variable {E : Effective T K F V}

/-- Setting cells of a column writes its row. -/
theorem Effective.rows_setCells
    (hinjective : ∀ t k k' c, E.column t k = some c → E.column t k' = some c → k = k')
    (hk : E.column t k = some c) (cells : List (F × Option V)) :
    (E.setCells t c cells).rows = apply ⟨(t, k), cells⟩ E.rows := by
  funext a
  obtain ⟨t', k'⟩ := a
  by_cases ha : (t', k') = (t, k)
  · obtain ⟨rfl, rfl⟩ := Prod.mk.inj ha
    simp only [apply, if_true, E.cell_rows hk]
    simp [rows, setCells, hk]
  · simp only [rows, setCells, apply, ha, if_false]
    cases hk' : E.column t' k' with
    | none => rfl
    | some c' =>
      have hne : ¬ (t' = t ∧ c' = c) := by
        rintro ⟨rfl, rfl⟩
        exact ha (by rw [hinjective t' k k' c' hk hk'])
      simp [hne]

theorem Effective.rows_of_column
    (hinjective : ∀ t k k' c, E.column t k = some c → E.column t k' = some c → k = k')
    (hk : E.column t k = some c) : E.rows = apply ⟨(t, k), []⟩ E.rows := by
  rw [← E.rows_setCells hinjective hk, E.setCells_nil]

/-- A new key has an empty row. -/
theorem Effective.rows_addKey (hk : E.column t k = none) (hcells : ∀ f, E.cells t c f = none) :
    (E.addKey t k c).rows = apply ⟨(t, k), []⟩ E.rows := by
  funext a
  obtain ⟨t', k'⟩ := a
  by_cases ha : (t', k') = (t, k)
  · obtain ⟨rfl, rfl⟩ := Prod.mk.inj ha
    have hrow : E.cells t' c = fun _ => none := funext hcells
    have hcell : cell E.rows (t', k') = fun _ => none := by
      funext f
      simp [cell, rows, hk]
    simp [apply, hcell, rows, addKey, Overwrite.setCells, hrow]
  · have hne : ¬ (t' = t ∧ k' = k) := fun h => ha (by rw [h.1, h.2])
    simp [rows, addKey, apply, ha, hne]

end

/-! ## Sessions on a storage -/

section

variable {S T K F V : Type}

/-- Two sessions that know the same keys and have the same buffer. -/
structure SameBuffer (sess sess' : Session T K F V) : Prop where
  identity : sess'.identity = sess.identity
  stagedKeys : sess'.stagedKeys = sess.stagedKeys
  cells : sess'.cells = sess.cells

/-- A column that nothing is known of: it stores nothing, and no session has anything for it in
its buffer. -/
structure UnusedColumn (store : Storage T F V) (session : S → Session T K F V) (t : T) (c : ℕ) :
    Prop where
  nonzero : c ≠ 0
  key : (store.keys t).lookup c = none
  cells : ∀ f, store.cells t c f = none
  stagedKeys : ∀ s, ((session s).stagedKeys t).lookup c = none
  staged : ∀ s f, (session s).staged t c f = none

variable {schema : Schema T K F V} {store : Storage T F V} {session : S → Session T K F V}
  {E : Effective T K F V} {s : S} {sess : Session T K F V} {t : T} {c : ℕ} {k : K}

theorem staged_congr {sess sess' : Session T K F V} (h : sess'.cells = sess.cells) :
    sess'.staged = sess.staged := by
  rw [staged, h]

/-- What a new session has in common with the old one is unchanged. -/
theorem session_update [DecidableEq S] {α : Type} (g : Session T K F V → α) {sess' : Session T K F V}
    (hsess : g sess' = g sess) (s' : S) :
    g (update session s sess' s') = g (update session s sess s') := by
  rw [apply_update (fun _ => g), apply_update (fun _ => g), hsess]

/-- What the resolver changes when it changes no keys. -/
theorem sameBuffer_setKeys [DecidableEq T] {keys : KeyState K}
    (hsame : SameKeys (sess.keyState store t) keys) : SameBuffer sess (sess.setKeys t keys) := by
  have hidentity : keys.batchPrimaryKeyIdentity = sess.identity t := hsame.identity
  have hstaged : keys.staged = sess.stagedKeys t := hsame.staged
  exact ⟨by simp [setKeys, hidentity], by simp [setKeys, hstaged], rfl⟩

variable [DecidableEq K]

/-- A column holds a key: the key is stored, or a session has it in its buffer. -/
def KeyHeld (schema : Schema T K F V) (store : Storage T F V) (session : S → Session T K F V)
    (t : T) (k : K) (c : ℕ) : Prop :=
  (store.keys t).lookup c = some ((schema.table t).keys.codec.entry k) ∨
    ∃ s, ((session s).stagedKeys t).lookup c = some ((schema.table t).keys.codec.entry k)

/-- The sessions and their storage behave like an effective storage. -/
structure Refines (schema : Schema T K F V) (store : Storage T F V)
    (session : S → Session T K F V) (E : Effective T K F V) : Prop where
  held : ∀ t k c, E.column t k = some c ↔ KeyHeld schema store session t k c
  injective : ∀ t k k' c, E.column t k = some c → E.column t k' = some c → k = k'
  nonzero : ∀ t k c, E.column t k = some c → c ≠ 0
  identity : ∀ s t k c, ((session s).identity t).lookup k = some c → E.column t k = some c
  stagedKeys : ∀ s t c v, ((session s).stagedKeys t).lookup c = some v →
    (store.keys t).lookup c = none ∧ (∀ s', s' ≠ s → ((session s').stagedKeys t).lookup c = none) ∧
      ∃ k, v = (schema.table t).keys.codec.entry k ∧ ((session s).identity t).lookup k = some c
  owner : ∀ s t c f v, (session s).staged t c f = some v →
    (store.keys t).lookup c ≠ none ∨ ((session s).stagedKeys t).lookup c ≠ none
  staged : ∀ s t c f v, (session s).staged t c f = some v → E.cells t c f = v
  stored : ∀ t c f, (∀ s, (session s).staged t c f = none) → store.cells t c f = E.cells t c f
  unmixed : ∀ s, (session s).cells.Unmixed

/-- A key has one column. -/
theorem Refines.heldOnce (h : Refines schema store session E) {c' : ℕ}
    (hc : KeyHeld schema store session t k c) (hc' : KeyHeld schema store session t k c') :
    c = c' :=
  some.inj (((h.held t k c).mpr hc).symm.trans ((h.held t k c').mpr hc'))

/-- Sessions with the same buffers that know no other keys, and know those in their buffers. -/
theorem Refines.frame {session' : S → Session T K F V} (h : Refines schema store session E)
    (hkeys : ∀ s, (session' s).stagedKeys = (session s).stagedKeys)
    (hcells : ∀ s, (session' s).cells = (session s).cells)
    (hknown : ∀ s t k c, ((session' s).identity t).lookup k = some c →
      ((session s).identity t).lookup k = some c)
    (hkept : ∀ s t c v, ((session s).stagedKeys t).lookup c = some v →
      (session' s).identity t = (session s).identity t) : Refines schema store session' E := { h with
  held t k c := (h.held t k c).trans (by simp only [KeyHeld, hkeys])
  identity s t k c hk := h.identity s t k c (hknown s t k c hk)
  stagedKeys s t c v hv := by
    simp only [hkeys] at hv ⊢
    rw [hkept s t c v hv]
    exact h.stagedKeys s t c v hv
  owner s t c f v hv := by
    rw [hkeys]
    exact h.owner s t c f v (staged_congr (hcells s) ▸ hv)
  staged s t c f v hv := h.staged s t c f v (staged_congr (hcells s) ▸ hv)
  stored t c f hnone := h.stored t c f fun s => staged_congr (hcells s) ▸ hnone s
  unmixed s := hcells s ▸ h.unmixed s }

/-- Nothing is known of an unused column. -/
theorem Refines.unused (h : Refines schema store session E) (hc : UnusedColumn store session t c) :
    (∀ k, E.column t k ≠ some c) ∧ ∀ f, E.cells t c f = none := by
  constructor
  · intro k hk
    rcases (h.held t k c).mp hk with hheld | ⟨s', hheld⟩
    · cases hc.key.symm.trans hheld
    · cases (hc.stagedKeys s').symm.trans hheld
  · exact fun f => (h.stored t c f fun s' => hc.staged s' f).symm.trans (hc.cells f)

variable [DecidableEq S]

/-- The other parts of a session do not matter. -/
theorem Refines.sameBuffer (h : Refines schema store (update session s sess) E)
    {sess' : Session T K F V} (hsame : SameBuffer sess sess') :
    Refines schema store (update session s sess') E := by
  have hidentity : ∀ s', (update session s sess' s').identity =
      (update session s sess s').identity := session_update Session.identity hsame.identity
  exact h.frame (session_update Session.stagedKeys hsame.stagedKeys)
    (session_update cells hsame.cells) (fun s' t k c hk => hidentity s' ▸ hk)
    (fun s' t c v _ => by rw [hidentity])

/-! ## Sending and flushing -/

/-- What is sent moves to the storage. -/
theorem Refines.send (h : Refines schema store session E) (s : S) (sending : Sending T F) :
    Refines schema (store.receive sending (session s))
      (update session s ((session s).sent sending)) E := by
  set session' := update session s ((session s).sent sending)
  have hsent : ∀ s' t c, ((session' s').stagedKeys t).lookup c =
      if s' = s ∧ sending.keys t c = true then none
      else ((session s').stagedKeys t).lookup c := by
    intro s' t c
    by_cases hs : s' = s <;> cases hp : sending.keys t c <;>
      simp [session', sent, lookup_restrict, hs, hp]
  have hstore : ∀ t c, ((store.receive sending (session s)).keys t).lookup c =
      (if sending.keys t c then ((session s).stagedKeys t).lookup c else none).or
        ((store.keys t).lookup c) := fun t c => by
    simp only [Storage.receive, lookup_union, lookup_restrict]
  have hidentity : ∀ s', (session' s').identity = (session s').identity := fun s' => by
    by_cases hs : s' = s <;> simp [session', sent, hs]
  have hcells : ∀ s' t c f, (session' s').staged t c f =
      if s' = s ∧ (session s).cells.sends sending t c f = true then none
      else (session s').staged t c f := by
    intro s' t c f
    by_cases hs : s' = s
    · subst hs
      simpa [session', sent] using CellBuffer.staged_sent (h.unmixed s') t c f
    · simp [session', hs]
  have hheld : ∀ t k c, KeyHeld schema (store.receive sending (session s)) session' t k c ↔
      KeyHeld schema store session t k c := by
    intro t k c
    unfold KeyHeld
    rw [hstore]
    cases hp : sending.keys t c with
    | false => simp [hsent, hp]
    | true =>
      cases hstaged : ((session s).stagedKeys t).lookup c with
      | none =>
        simp only [hsent, hp, if_true, none_or, and_true]
        refine or_congr_right (exists_congr fun s' => ?_)
        by_cases hs : s' = s <;> simp [hs, hstaged]
      | some v =>
        rcases h.stagedKeys s t c v hstaged with ⟨hnone, hothers, -⟩
        have hlookup : ∀ s', ((session s').stagedKeys t).lookup c =
            if s' = s then some v else none := by
          intro s'
          split_ifs with hs
          · rw [hs, hstaged]
          · exact hothers s' hs
        simp [hsent, hp, hnone, hlookup]
  exact { h with
    held t k c := by rw [hheld, h.held]
    identity s' t k c hk := h.identity s' t k c (hidentity s' ▸ hk)
    stagedKeys s' t c v hv := by
      rw [hsent] at hv
      split_ifs at hv with hself
      rcases h.stagedKeys s' t c v hv with ⟨hnone, hothers, k, hentry, hk⟩
      refine ⟨?_, fun s'' hs'' => ?_, k, hentry, by rw [hidentity, hk]⟩
      · rw [hstore, hnone, or_none]
        split_ifs with hp
        · exact hothers s fun heq => hself ⟨heq.symm, hp⟩
        · rfl
      · rw [hsent]
        split_ifs
        · rfl
        · exact hothers s'' hs''
    owner s' t c f v hv := by
      rw [hcells] at hv
      split_ifs at hv with hself
      rw [hstore, hsent]
      rcases h.owner s' t c f v hv with hstored | hbuffer
      · exact .inl fun hnone => hstored (or_eq_none_iff.mp hnone).2
      -- A key that is sent is stored.
      · by_cases hkey : s' = s ∧ sending.keys t c = true
        · rcases hkey with ⟨rfl, hp⟩
          rw [hp, if_pos rfl]
          exact .inl fun hnone => hbuffer (or_eq_none_iff.mp hnone).1
        · rw [if_neg hkey]
          exact .inr hbuffer
    staged s' t c f v hv := by
      rw [hcells] at hv
      split_ifs at hv with hself
      exact h.staged s' t c f v hv
    unmixed s' := by
      by_cases hs : s' = s
      · subst hs
        simpa [session', sent] using (h.unmixed s').sent
      · simpa [session', hs] using h.unmixed s'
    stored t c f hnone := by
      rw [CellBuffer.cells_receive (h.unmixed s)]
      cases hp : (session s).cells.sends sending t c f with
      | false =>
        simp only [hcells, hp, Bool.false_eq_true, and_false, if_false] at hnone ⊢
        exact h.stored t c f hnone
      | true =>
        cases hstaged : (session s).staged t c f with
        | some v => exact (h.staged s t c f v hstaged).symm
        | none =>
          refine h.stored t c f fun s' => ?_
          by_cases hs : s' = s
          · rw [hs, hstaged]
          · have hs' := hnone s'
            rwa [hcells, if_neg fun hself => hs hself.1] at hs' }

/-- A session without keys in its buffer may forget the keys of its batch. -/
theorem Refines.forget (h : Refines schema store (update session s sess) E)
    (hempty : ∀ t c, (sess.stagedKeys t).lookup c = none) :
    Refines schema store (update session s { sess with identity := fun _ => ∅ }) E := by
  refine h.frame (session_update Session.stagedKeys rfl) (session_update Session.cells rfl)
    (fun s' t k c hk => ?_) (fun s' t c v hv => ?_)
  · by_cases hs : s' = s
    · subst hs
      simp at hk
    · rwa [update_of_ne hs] at hk ⊢
  · by_cases hs : s' = s
    · subst hs
      simp [hempty] at hv
    · simp [hs]

section

variable {st : RowSystem S T K F V} (h : Refines schema st.store st.session E) (s : S)

include h

/-- Sending does not change the effective storage. -/
theorem Refines.sendBuffer (sending : Sending T F) :
    Refines schema (sendBuffer s sending st).store (sendBuffer s sending st).session E :=
  h.send s sending

/-- Flushing does not change the effective storage. -/
theorem Refines.flushSession :
    Refines schema (flushSession s st).store (flushSession s st).session E := by
  refine (h.send s .all).forget fun t c => ?_
  simp [sent, lookup_restrict, Sending.all]

end

/-! ## Keys and cells -/

variable [DecidableEq T]

/-- A session gives a new key an unused column. -/
theorem Refines.newKey (h : Refines schema store session E)
    {keys : KeyState K} (hnew : ∀ c', E.column t k ≠ some c') (hc : UnusedColumn store session t c)
    (hidentity : keys.batchPrimaryKeyIdentity = ((session s).identity t).insert k c)
    (hstaged : ∀ c', keys.staged.lookup c' =
      if c' = c then some ((schema.table t).keys.codec.entry k)
      else ((session s).stagedKeys t).lookup c') :
    Refines schema store (update session s ((session s).setKeys t keys)) (E.addKey t k c) := by
  have hunused := (h.unused hc).1
  set session' := update session s ((session s).setKeys t keys)
  -- What the sessions have in their buffers and batches now.
  have hkeys : ∀ s' t' c', ((session' s').stagedKeys t').lookup c' =
      if s' = s ∧ t' = t ∧ c' = c then some ((schema.table t).keys.codec.entry k)
      else ((session s').stagedKeys t').lookup c' := by
    intro s' t' c'
    by_cases hs : s' = s <;> by_cases ht : t' = t <;> simp [session', setKeys, hs, ht, hstaged]
  have hbatch : ∀ s' t' k', ((session' s').identity t').lookup k' =
      if s' = s ∧ t' = t ∧ k' = k then some c else ((session s').identity t').lookup k' := by
    intro s' t' k'
    by_cases hs : s' = s <;> by_cases ht : t' = t <;>
      simp [session', setKeys, hs, ht, hidentity, lookup_insert]
  have hcells : ∀ s', (session' s').cells = (session s').cells := fun s' => by
    by_cases hs : s' = s <;> simp [session', setKeys, hs]
  have hstaged' := fun s' => staged_congr (hcells s')
  have hheld : ∀ t' k' c', KeyHeld schema store session' t' k' c' ↔
      (t' = t ∧ k' = k ∧ c' = c) ∨ KeyHeld schema store session t' k' c' := by
    intro t' k' c'
    constructor
    · rintro (hstored | ⟨s', hs'⟩)
      · exact .inr (.inl hstored)
      · rw [hkeys] at hs'
        split_ifs at hs' with hself
        · rcases hself with ⟨-, rfl, rfl⟩
          exact .inl ⟨rfl, KeyCodec.entry_injective (some.inj hs').symm, rfl⟩
        · exact .inr (.inr ⟨s', hs'⟩)
    · rintro (⟨rfl, rfl, rfl⟩ | hstored | ⟨s', hs'⟩)
      · exact .inr ⟨s, by rw [hkeys, if_pos ⟨rfl, rfl, rfl⟩]⟩
      · exact .inl hstored
      · refine .inr ⟨s', ?_⟩
        rw [hkeys, if_neg, hs']
        rintro ⟨-, rfl, rfl⟩
        cases (hc.stagedKeys s').symm.trans hs'
  have hcolumn : ∀ t' k' c', (E.addKey t k c).column t' k' = some c' ↔
      (t' = t ∧ k' = k ∧ c' = c) ∨ E.column t' k' = some c' := by
    intro t' k' c'
    by_cases hkey : t' = t ∧ k' = k
    · rcases hkey with ⟨rfl, rfl⟩
      simp [addKey, hnew, eq_comm]
    · simp [addKey, hkey, ← and_assoc, false_or]
  exact {
    held t' k' c' := by rw [hcolumn, hheld, h.held]
    injective t' k₁ k₂ c' h₁ h₂ := by
      rw [hcolumn] at h₁ h₂
      rcases h₁ with ⟨ht, hk, hc⟩ | h₁ <;> rcases h₂ with ⟨ht', hk', hc'⟩ | h₂
      · rw [hk, hk']
      · exact absurd (ht ▸ hc ▸ h₂) (hunused k₂)
      · exact absurd (ht' ▸ hc' ▸ h₁) (hunused k₁)
      · exact h.injective t' k₁ k₂ c' h₁ h₂
    nonzero t' k' c' hk := by
      rcases (hcolumn t' k' c').mp hk with ⟨-, -, rfl⟩ | hk
      · exact hc.nonzero
      · exact h.nonzero t' k' c' hk
    identity s' t' k' c' hk := by
      rw [hbatch] at hk
      rw [hcolumn]
      split_ifs at hk with hself
      · exact .inl ⟨hself.2.1, hself.2.2, (some.inj hk).symm⟩
      · exact .inr (h.identity s' t' k' c' hk)
    stagedKeys s' t' c' v hv := by
      rw [hkeys] at hv
      split_ifs at hv with hself
      · rcases hself with ⟨rfl, rfl, rfl⟩
        refine ⟨hc.key, fun s'' hs'' => ?_, k, (some.inj hv).symm, ?_⟩
        · rw [hkeys, if_neg fun hself => hs'' hself.1]
          exact hc.stagedKeys s''
        · rw [hbatch, if_pos ⟨rfl, rfl, rfl⟩]
      · rcases h.stagedKeys s' t' c' v hv with ⟨hnone, hothers, k', hentry, hk'⟩
        refine ⟨hnone, fun s'' hs'' => ?_, k', hentry, ?_⟩
        · rw [hkeys, if_neg, hothers s'' hs'']
          rintro ⟨-, rfl, rfl⟩
          cases (hc.stagedKeys s').symm.trans hv
        · rw [hbatch, if_neg, hk']
          rintro ⟨-, rfl, rfl⟩
          exact hnew c' (h.identity s' t' k' c' hk')
    owner s' t' c' f v hv := by
      refine (h.owner s' t' c' f v (hstaged' s' ▸ hv)).imp_right fun hbuffer => ?_
      rw [hkeys]
      split_ifs
      · exact some_ne_none _
      · exact hbuffer
    staged s' t' c' f v hv := h.staged s' t' c' f v (hstaged' s' ▸ hv)
    stored t' c' f hnone := h.stored t' c' f fun s' => hstaged' s' ▸ hnone s'
    unmixed s' := hcells s' ▸ h.unmixed s' }

variable [DecidableEq F]

/-- A session puts a cell into its buffer that no other session has in its own. -/
theorem Refines.stageCell (h : Refines schema store (update session s sess) E)
    (hfree : ∀ s', s' ≠ s → ∀ f, (session s').staged t c f = none)
    (howner : (store.keys t).lookup c ≠ none ∨ (sess.stagedKeys t).lookup c ≠ none)
    {e : F × Option V} (hkind : ∀ v, sess.staged t c e.1 = some v → (v = none ↔ e.2 = none)) :
    Refines schema store (update session s (sess.stageCell t c e)) (E.setCells t c [e]) := by
  have hself : sess.cells.Unmixed := by
    simpa using h.unmixed s
  have hkeys : ∀ s', ((update session s (sess.stageCell t c e)) s').stagedKeys =
      ((update session s sess) s').stagedKeys := session_update Session.stagedKeys rfl
  have hidentity : ∀ s', ((update session s (sess.stageCell t c e)) s').identity =
      ((update session s sess) s').identity := session_update Session.identity rfl
  have hstaged : ∀ s' t' c' f, ((update session s (sess.stageCell t c e)) s').staged t' c' f =
      if s' = s ∧ t' = t ∧ c' = c ∧ f = e.1 then some e.2
      else ((update session s sess) s').staged t' c' f := by
    intro s' t' c' f
    by_cases hs : s' = s
    · subst hs
      simpa [stageCell] using CellBuffer.staged_set hkind t' c' f
    · simp [hs]
  exact { h with
    unmixed s' := by
      by_cases hs : s' = s
      · subst hs
        simpa [stageCell] using hself.set hkind
      · simpa [hs] using h.unmixed s'
    held t' k c' := (h.held t' k c').trans (by simp only [KeyHeld, hkeys])
    identity s' t' k c' hk := h.identity s' t' k c' (hidentity s' ▸ hk)
    stagedKeys s' t' c' v hv := by
      simp only [hkeys, hidentity] at hv ⊢
      exact h.stagedKeys s' t' c' v hv
    owner s' t' c' f v hv := by
      rw [hkeys]
      rw [hstaged] at hv
      split_ifs at hv with hself
      · rcases hself with ⟨rfl, rfl, rfl, -⟩
        rwa [update_self]
      · exact h.owner s' t' c' f v hv
    staged s' t' c' f v hv := by
      rw [hstaged] at hv
      rw [cells_setCells]
      split_ifs at hv with hself
      · rw [if_pos hself.2]
        exact some.inj hv
      · rw [if_neg, h.staged s' t' c' f v hv]
        rintro ⟨rfl, rfl, rfl⟩
        have hs : s' ≠ s := fun hs => hself ⟨hs, rfl, rfl, rfl⟩
        rw [update_of_ne hs, hfree s' hs] at hv
        cases hv
    stored t' c' f hnone := by
      simp only [hstaged] at hnone
      have hcell : ¬ (t' = t ∧ c' = c ∧ f = e.1) := by
        rintro ⟨rfl, rfl, rfl⟩
        simpa using hnone s
      rw [cells_setCells, if_neg hcell]
      refine h.stored t' c' f fun s' => ?_
      simpa only [hcell, and_false, if_false] using hnone s' }

/-- A session puts cells of a column into its buffer. -/
theorem Refines.stageCells (h : Refines schema store (update session s sess) E)
    (hfree : ∀ s', s' ≠ s → ∀ f, (session s').staged t c f = none)
    (howner : (store.keys t).lookup c ≠ none ∨ (sess.stagedKeys t).lookup c ≠ none)
    {cells : List (F × Option V)} (hkinds : SameKinds (sess.staged t c) cells) :
    Refines schema store (update session s (sess.stageCells t c cells)) (E.setCells t c cells) := by
  induction cells generalizing sess E with
  | nil =>
    rwa [E.setCells_nil]
  | cons e cells ih =>
    rw [← singleton_append, ← E.setCells_append t c [e] cells]
    have hkind := fun v hv => hkinds e mem_cons_self v (.inl hv)
    refine ih (h.stageCell hfree howner hkind) howner fun e' he' v hv => ?_
    refine hkinds e' (mem_cons_of_mem _ he') v ?_
    rcases hv with hv | hv
    · rcases CellBuffer.staged_set_cases hv with hold | ⟨-, -, hcell⟩
      · exact .inl hold
      · exact .inr (hcell ▸ mem_cons_self)
    · exact .inr (mem_cons_of_mem _ hv)

end

end QuantaStream.Core
