import QuantaStream.Core.RouterRecords
import QuantaStream.Lib.Inevitable

/-!
# The calls of a router return

A worker whose put or idle flush failed has stopped, and nobody reads its channel any more.  A call
that waits for it waits for ever: a flush whose context is never cancelled, and an enqueue when the
channel is full.  And a send to a channel that is closed panics.

If a worker stops only while nobody waits for it, and later callers take care of the stopped worker,
every schedule of the goroutines lets every call return.  A close that returns no error has stored
every record that was accepted, unless a flush has reported that it lost it.
-/

namespace QuantaStream.Core
namespace Router

open GoString List Function Option RouterState Run

variable {cfg : RouterConfig}

/-! ## Calls that return -/

/-- A step of a goroutine of the router or of its callers; the others are calls that begin, and the
clock. -/
def RouterEvent.internal : RouterEvent cfg → Bool
  | .enqueue _ => false
  | .flush _ _ => false
  | .close => false
  | .tick _ => false
  | _ => true

variable (s : RouterState cfg)

def AllReturned : Prop :=
  s.panicked = false ∧ s.waiting = [] ∧ (∀ c ∈ s.flushes, c.result ≠ none) ∧ s.closing = 0

/-- Nothing fails when a record is put. -/
def PutEnv.fine (env : PutEnv) : Prop :=
  env.opens = true ∧ env.hashes = true ∧ env.puts = true ∧
    (env.active = none ∨ env.active = some .ok)

/-- Nothing fails in a turn that would stop the worker. -/
def Turn.fine : Turn → Prop
  | .take env _ _ => env.fine
  | .idle _ visit => ∀ table, (visit table).outcome = none ∨ (visit table).outcome = some .ok
  | .drain _ _ => True

/-- Nobody waits for a worker: no record waits for its channel, and every call of `Flush` that is
not cancelled has its reply. -/
def Unawaited (i : Fin cfg.shardCount) : Prop :=
  (∀ r ∈ s.waiting, cfg.shard r ≠ i) ∧
    ∀ c ∈ s.flushes, c.result = none → c.cancellable = false →
      i ∉ c.unsent ∧ (i ∈ c.awaited → c.replies i ≠ none)

/-- The steps that let no caller wait for a stopped worker: a worker stops only while nobody waits
for it; a record for a stopped worker is enqueued only if there is room for it and nobody else sends
to the worker; when a worker has stopped, the context of a flush will be cancelled and no record
waits for a stopped worker; and nothing is sent while or after the router is closed. -/
def Careful : RouterEvent cfg → Prop
  | .enqueue record =>
    s.closed = false ∧ ((s.workers (cfg.shard record)).status = .running ∨
      (s.workers (cfg.shard record)).queue.length < cfg.channelSize ∧
      (∀ r ∈ s.waiting, cfg.shard r ≠ cfg.shard record) ∧
      ∀ c ∈ s.flushes, c.result = none → cfg.shard record ∉ c.unsent)
  | .flush cancellable _ =>
    s.closed = false ∧ ((∀ i, (s.workers i).status = .running) ∨
      cancellable = true ∧ ∀ r ∈ s.waiting, (s.workers (cfg.shard r)).status = .running)
  | .close => s.waiting = [] ∧ ∀ c ∈ s.flushes, c.result = none → c.unsent = []
  | .work i turn => turn.fine ∨ Unawaited s i
  | _ => True

/-- A careful step of a goroutine. -/
noncomputable def carefulStep (e : RouterEvent cfg) : Option (RouterState cfg) :=
  open Classical in if e.internal = true ∧ Careful s e then routerStep? s e else none

/-! ## The turn of a worker -/

theorem putRecord_fine {env : PutEnv} (h : env.fine) (n : ℕ) (r : IngestRecord)
    (sessions : Sessions) : (putRecord env n r sessions).err = none := by
  rcases h with ⟨hopens, hhashes, hputs, hactive⟩
  unfold putRecord
  rw [if_neg (by simp [hopens]), if_neg (by simp [hhashes]), if_neg (by simp [hputs])]
  rcases hactive with hactive | hactive <;> rw [hactive]
  rfl

theorem visitSessions_fine {visit : GoString → Visit}
    (h : ∀ table, (visit table).outcome = none ∨ (visit table).outcome = some .ok)
    (tables : List GoString) {p : Pass} (hp : p.failed = false) :
    (visitSessions visit tables p).failed = false := by
  induction tables generalizing p with
  | nil => exact hp
  | cons table tables ih =>
    have hvisit : (visitSession (visit table) table p).failed = false := by
      rcases visitSession_spec (visit table) table p with
        ⟨hsame, _⟩ | ⟨outcome, buffered, houtcome, _, _, _, hfailed, _, _⟩
      · rwa [hsame]
      rcases h table with hnone | hok
      · cases hnone.symm.trans houtcome
      · cases hok.symm.trans houtcome
        exact hfailed
    simp only [visitSessions, hvisit]
    exact ih hvisit

/-- The steps a worker can still take without a new message. -/
def workerRank (w : Worker) : ℕ :=
  if w.status = .running then 2 * w.queue.length + (if w.ticked then 1 else 0) + 1 else 0

/-- What a turn does to the channel and the status of a worker. -/
structure TurnSpec (closed : Bool) (w : Worker) (turn : Turn) (work : Work) : Prop where
  was_running : w.status = .running
  suffix : work.worker.queue <:+ w.queue
  replies : ∀ f, .flush f ∈ w.queue →
    .flush f ∈ work.worker.queue ∨ ∃ reply, work.reply = some (f, reply)
  stops : work.worker.status = .running ∨ ¬ turn.fine ∨ closed = true ∧ w.queue = []
  rank_lt : workerRank work.worker < workerRank w

theorem workerRank_lt {w w' : Worker} (hrun : w.status = .running)
    (h : w'.status ≠ .running ∨ w'.queue.length < w.queue.length ∧ w'.ticked = w.ticked ∨
      w'.queue = w.queue ∧ w.ticked = true ∧ w'.ticked = false) : workerRank w' < workerRank w := by
  unfold workerRank
  rw [if_pos hrun]
  rcases h with hstop | ⟨hlen, htick⟩ | ⟨hqueue, htick, htick'⟩
  · rw [if_neg hstop]
    omega
  · rw [htick]
    split <;> omega
  · rw [hqueue, htick, htick']
    split <;> simp

theorem workerTurn_spec {closed : Bool} {w : Worker} {turn : Turn} {work : Work}
    (hturn : workerTurn closed w turn = some work) : TurnSpec closed w turn work := by
  revert hturn
  fun_cases workerTurn closed w turn <;> rintro ⟨⟩
  next env order outcome hrun n r queue hqueue _ =>
    refine ⟨hrun, hqueue ▸ suffix_cons _ _, fun f hf => ?_, ?_, ?_⟩
    · rw [hqueue] at hf
      exact .inl ((mem_cons.mp hf).resolve_left (by rintro ⟨⟩))
    · by_cases hfine : env.fine
      · left
        rw [putRecord_fine hfine]
        rfl
      · exact .inr (.inl hfine)
    · exact workerRank_lt hrun (.inr (.inl ⟨by simp [hqueue], rfl⟩))
  next env order outcome hrun f queue hqueue _ =>
    refine ⟨hrun, hqueue ▸ suffix_cons _ _, fun g hg => ?_, .inl hrun, ?_⟩
    · rcases mem_cons.mp (hqueue ▸ hg) with heq | hg
      · obtain rfl := Message.flush.inj heq
        exact .inr ⟨_, rfl⟩
      · exact .inl hg
    · exact workerRank_lt hrun (.inr (.inl ⟨by simp [hqueue], rfl⟩))
  next order visit hrun p =>
    refine ⟨hrun.1, suffix_rfl, fun f hf => .inl hf, ?_,
      workerRank_lt hrun.1 (.inr (.inr ⟨rfl, hrun.2, rfl⟩))⟩
    by_cases hfine : (Turn.idle order visit).fine
    · have hok : p.failed = false := visitSessions_fine hfine _ rfl
      exact .inl (by simp [Pass.err, hok, statusAfter])
    · exact .inr (.inl hfine)
  next order outcome hrun _ =>
    exact ⟨hrun.1, suffix_rfl, fun f hf => .inl hf, .inr (.inr hrun.2),
      workerRank_lt hrun.1 (.inl (by rintro ⟨⟩))⟩

/-! ## A calm router -/

/-- Between careful steps: the router has not panicked; when it is closed, nobody has still to send;
a stopped worker has replied to every flush that is not cancelled; a record that waits for a stopped
worker waits alone and has room; and a call that waits for a reply has its marker in the channel. -/
structure Calm (s : RouterState cfg) : Prop where
  alive : s.panicked = false
  closed : s.closed = true → s.waiting = [] ∧ ∀ c ∈ s.flushes, c.result = none → c.unsent = []
  closing : 0 < s.closing → s.closed = true
  flushes : ∀ i, (s.workers i).status ≠ .running → ∀ c ∈ s.flushes, c.result = none →
    c.cancellable = false → i ∉ c.unsent ∧ (i ∈ c.awaited → c.replies i ≠ none)
  sends : ∀ r ∈ s.waiting, (s.workers (cfg.shard r)).status ≠ .running →
    (s.workers (cfg.shard r)).queue.length < cfg.channelSize ∧
      ∀ c ∈ s.flushes, c.result = none → cfg.shard r ∉ c.unsent
  alone : s.waiting.Pairwise fun r r' =>
    cfg.shard r = cfg.shard r' → (s.workers (cfg.shard r)).status = .running
  marker : ∀ (f : ℕ) c i, s.flushes[f]? = some c → i ∈ c.awaited → c.replies i = none →
    .flush f ∈ (s.workers i).queue
  pending : ∀ c ∈ s.flushes, c.result = none → c.unsent ≠ [] ∨ c.awaited ≠ []

theorem calm_new (cfg : RouterConfig) : Calm (newRouter cfg) where
  alive := rfl
  closed := nofun
  closing h := absurd h (Nat.lt_irrefl 0)
  flushes _ _ _ := nofun
  sends := nofun
  alone := Pairwise.nil
  marker _ _ _ := nofun
  pending := nofun

variable {s : RouterState cfg} {i : Fin cfg.shardCount}

section

variable (h : Calm s)

include h

theorem Calm.open_of_waiting {r : IngestRecord} (hr : r ∈ s.waiting) : s.closed = false := by
  by_contra hclosed
  simp [(h.closed (by simpa using hclosed)).1] at hr

theorem Calm.open_of_unsent {c : FlushCall cfg.shardCount} (hc : c ∈ s.flushes)
    (hresult : c.result = none) (hi : i ∈ c.unsent) : s.closed = false := by
  by_contra hclosed
  simp [(h.closed (by simpa using hclosed)).2 c hc hresult] at hi

/-- A worker's turn keeps the router calm if the worker goes on, or nobody waits for it. -/
theorem Calm.work {turn : Turn} (hcareful : Careful s (.work i turn)) {work : Work}
    (hturn : workerTurn s.closed (s.workers i) turn = some work) : Calm (s.apply i work) := by
  have hspec := workerTurn_spec hturn
  -- a worker that stops is one that nobody waits for
  have hstop : work.worker.status ≠ .running → Unawaited s i := by
    intro hstatus
    rcases hspec.stops with hrun | hfails | ⟨hclosed, hqueue⟩
    · exact absurd hrun hstatus
    · exact hcareful.resolve_left hfails
    · refine ⟨fun r hr => ?_, fun c hc hresult _ => ⟨fun hi => ?_, fun hi hnone => ?_⟩⟩
      · cases hclosed.symm.trans (h.open_of_waiting hr)
      · cases hclosed.symm.trans (h.open_of_unsent hc hresult hi)
      · rcases mem_iff_getElem?.mp hc with ⟨f, hf⟩
        have hmem := h.marker f c i hf hi hnone
        simp [hqueue] at hmem
  have hcalls : ∀ c ∈ answerCall s.flushes i work.reply, ∃ c₀ ∈ s.flushes, ∃ replies,
      c = { c₀ with replies := replies } ∧ ∀ j, c₀.replies j ≠ none → replies j ≠ none := by
    intro c hc
    rcases mem_answerCall hc with hc | ⟨f, reply, c₀, _, hc₀, rfl⟩
    · exact ⟨c, hc, c.replies, rfl, fun _ hne => hne⟩
    · refine ⟨c₀, mem_of_getElem? hc₀, _, rfl, fun j hne => ?_⟩
      by_cases hj : j = i <;> simp [hj, hne]
  have hstatus : ∀ j, (update s.workers i work.worker j).status ≠ .running →
      (s.workers j).status ≠ .running ∨ j = i ∧ Unawaited s i := by
    intro j hj
    by_cases hji : j = i
    · subst hji
      exact .inr ⟨rfl, hstop (by simpa using hj)⟩
    · exact .inl (by simpa [hji] using hj)
  exact { h with
    closed hclosed := by
      refine ⟨(h.closed hclosed).1, fun c hc hresult => ?_⟩
      rcases hcalls c hc with ⟨c₀, hc₀, replies, rfl, _⟩
      exact (h.closed hclosed).2 c₀ hc₀ hresult
    flushes j hj c hc hresult hcancel := by
      rcases hcalls c hc with ⟨c₀, hc₀, replies, rfl, hreplies⟩
      have hold : j ∉ c₀.unsent ∧ (j ∈ c₀.awaited → c₀.replies j ≠ none) := by
        rcases hstatus j hj with hj | ⟨rfl, hun⟩
        · exact h.flushes j hj c₀ hc₀ hresult hcancel
        · exact hun.2 c₀ hc₀ hresult hcancel
      exact ⟨hold.1, fun hj => hreplies j (hold.2 hj)⟩
    sends r hr hj := by
      rcases hstatus _ hj with hj | ⟨hi, hun⟩
      · have hold := h.sends r hr hj
        have hne : cfg.shard r ≠ i := fun hi => hj (hi ▸ hspec.was_running)
        simp only [apply, update_of_ne hne]
        refine ⟨hold.1, fun c hc hresult => ?_⟩
        rcases hcalls c hc with ⟨c₀, hc₀, replies, rfl, _⟩
        exact hold.2 c₀ hc₀ hresult
      · exact absurd hi (hun.1 r hr)
    alone := by
      refine h.alone.imp_of_mem fun {r r'} hr hr' hrun heq => ?_
      by_contra hne
      rcases hstatus _ hne with hne | ⟨hi, hun⟩
      · exact hne (hrun heq)
      · exact hun.1 r hr hi
    marker f c j hc hj hnone := by
      rcases getElem?_of_answerCall hc with ⟨c₀, hc₀, ⟨hother, rfl⟩ | ⟨reply, hreply, rfl⟩⟩
      · have hmem := h.marker f c j hc₀ hj hnone
        by_cases hji : j = i
        · subst hji
          simp only [apply, update_self]
          rcases hspec.replies f hmem with hmem | ⟨reply, hreply⟩
          · exact hmem
          · exact absurd hreply (hother reply)
        · simpa only [apply, update_of_ne hji] using hmem
      · have hji : j ≠ i := by
          rintro rfl
          simp [FlushCall.answer] at hnone
        simp only [FlushCall.answer, update_of_ne hji] at hnone
        simpa only [apply, update_of_ne hji] using h.marker f c₀ j hc₀ hj hnone
    pending c hc hresult := by
      rcases hcalls c hc with ⟨c₀, hc₀, replies, rfl, _⟩
      exact h.pending c₀ hc₀ hresult }

/-- A message is sent to a worker that runs, or that no record waits for. -/
theorem Calm.push
    (hrun : ∀ r ∈ s.waiting, cfg.shard r = i → (s.workers i).status = .running) (m : Message) :
    Calm (s.setWorker i ((s.workers i).push m)) := by
  have hstatus := fun j => (push_status s.workers i j m).1
  exact { h with
    flushes j hj := h.flushes j (hstatus j ▸ hj)
    sends r hr hj := by
      simp only [setWorker, hstatus] at hj ⊢
      have hne : cfg.shard r ≠ i := fun heq => hj (heq ▸ hrun r hr heq)
      simpa only [update_of_ne hne] using h.sends r hr hj
    alone := h.alone.imp fun {r r'} hrun heq => by
      simpa only [setWorker, hstatus] using hrun heq
    marker f c j hc hj hnone := mem_queue_push.mpr (.inl (h.marker f c j hc hj hnone)) }

theorem Calm.send {caller : ℕ} {record : IngestRecord}
    (hrecord : s.waiting[caller]? = some record) :
    Calm { s.setWorker (cfg.shard record)
        ((s.workers (cfg.shard record)).push (.record s.accepted.length record)) with
      waiting := s.waiting.eraseIdx caller
      accepted := s.accepted ++ [record] } := by
  have hless : Calm { s with
      waiting := s.waiting.eraseIdx caller, accepted := s.accepted ++ [record] } := { h with
    closed hclosed := nomatch hclosed.symm.trans (h.open_of_waiting (mem_of_getElem? hrecord))
    sends r hr := h.sends r (mem_of_mem_eraseIdx hr)
    alone := h.alone.sublist (eraseIdx_sublist _ _) }
  refine hless.push (fun r hr heq => ?_) _
  -- no other record waits for the worker if it has stopped
  obtain ⟨hlt, rfl⟩ := List.getElem?_eq_some_iff.mp hrecord
  have hpairwise := ((getElem_cons_eraseIdx_perm hlt).pairwise_iff fun {a b} hab heq => by
    rw [heq]
    exact hab heq.symm).mpr h.alone
  exact (pairwise_cons.mp hpairwise).1 r hr heq.symm

/-- A call goes on: it has nothing more to send than before, and waits for a reply only behind its
marker. -/
theorem Calm.setFlush {f : ℕ} {c c' : FlushCall cfg.shardCount}
    (hc : s.flushes[f]? = some c) (hresult : c.result = none) (hunsent : c'.unsent ⊆ c.unsent)
    (hawaited : ∀ i ∈ c'.awaited, i ∈ c.awaited ∨ i ∈ c.unsent ∧ .flush f ∈ (s.workers i).queue)
    (hreplies : c'.replies = c.replies) (hcancel : c'.cancellable = c.cancellable)
    (hpending : c'.result = none → c'.unsent ≠ [] ∨ c'.awaited ≠ []) : Calm (s.setFlush f c') := by
  have hmemc := mem_of_getElem? hc
  exact { h with
    closed hclosed := by
      refine ⟨(h.closed hclosed).1, fun d hd hres => ?_⟩
      rcases mem_or_eq_of_mem_set hd with hd | rfl
      · exact (h.closed hclosed).2 d hd hres
      · rw [(h.closed hclosed).2 c hmemc hresult] at hunsent
        exact subset_nil.mp hunsent
    flushes j hj d hd hres hcan := by
      rcases mem_or_eq_of_mem_set hd with hd | rfl
      · exact h.flushes j hj d hd hres hcan
      have hold := h.flushes j hj c hmemc hresult (hcancel ▸ hcan)
      rw [hreplies]
      refine ⟨fun hmem => hold.1 (hunsent hmem), fun hmem => ?_⟩
      rcases hawaited j hmem with hmem | ⟨hmem, _⟩
      · exact hold.2 hmem
      · exact absurd hmem hold.1
    sends r hr hj := by
      have hold := h.sends r hr hj
      refine ⟨hold.1, fun d hd hres => ?_⟩
      rcases mem_or_eq_of_mem_set hd with hd | rfl
      · exact hold.2 d hd hres
      · exact fun hmem => hold.2 c hmemc hresult (hunsent hmem)
    marker g d j hd hj hnone := by
      by_cases hg : f = g
      · subst hg
        have hset := getElem?_set_self (number_lt hc) (a := c')
        obtain rfl := Option.some.inj (hset.symm.trans hd)
        rw [hreplies] at hnone
        rcases hawaited j hj with hj | ⟨_, hmarker⟩
        · exact h.marker f c j hc hj hnone
        · exact hmarker
      · rw [RouterState.setFlush, getElem?_set_ne hg] at hd
        exact h.marker g d j hd hj hnone
    pending d hd hres := by
      rcases mem_or_eq_of_mem_set hd with hd | rfl
      · exact h.pending d hd hres
      · exact hpending hres }

theorem Calm.mark {f : ℕ} {c : FlushCall cfg.shardCount} (hc : s.flushes[f]? = some c)
    (hresult : c.result = none) {unsent : List (Fin cfg.shardCount)}
    (hunsent : c.unsent = i :: unsent) :
    Calm ((s.setWorker i ((s.workers i).push (.flush f))).setFlush f
      { c with unsent := unsent, awaited := c.awaited ++ [i] }) := by
  have hi : i ∈ c.unsent := hunsent ▸ mem_cons_self
  have hpushed : Calm (s.setWorker i ((s.workers i).push (.flush f))) := by
    refine h.push (fun r hr heq => ?_) _
    by_contra hstopped
    rw [← heq] at hi hstopped
    exact (h.sends r hr hstopped).2 c (mem_of_getElem? hc) hresult hi
  refine hpushed.setFlush hc hresult (hunsent ▸ subset_cons_self _ _) (fun j hj => ?_) rfl rfl
    (fun _ => .inr (by simp))
  refine (mem_append.mp hj).imp_right fun hj => ?_
  obtain rfl := mem_singleton.mp hj
  exact ⟨hi, mem_queue_push.mpr (.inr ⟨rfl, rfl⟩)⟩

theorem Calm.enqueue {record : IngestRecord} (hcareful : Careful s (.enqueue record)) :
    Calm { s with waiting := s.waiting ++ [record] } := { h with
  closed hclosed := nomatch hcareful.1.symm.trans hclosed
  sends r hr hj := by
    rcases mem_append.mp hr with hr | hr
    · exact h.sends r hr hj
    · obtain rfl := mem_singleton.mp hr
      rcases hcareful.2 with hrun | ⟨hroom, _, hunsent⟩
      · exact absurd hrun hj
      · exact ⟨hroom, hunsent⟩
  alone := by
    refine pairwise_append.mpr ⟨h.alone, pairwise_singleton _ _, fun r hr r' hr' heq => ?_⟩
    obtain rfl := mem_singleton.mp hr'
    rcases hcareful.2 with hrun | ⟨_, hnone, _⟩
    · rwa [heq]
    · exact absurd heq (hnone r hr) }

theorem Calm.call {cancellable : Bool} {order : List (Fin cfg.shardCount)}
    (hcareful : Careful s (.flush cancellable order))
    (horder : order.Perm (finRange cfg.shardCount)) :
    Calm { s with
      flushes := s.flushes ++
        [{ before := s.accepted.length, cancellable := cancellable, unsent := order }] } := { h with
  closed hclosed := nomatch hcareful.1.symm.trans hclosed
  flushes j hj c hc hres hcancel := by
    rcases mem_append.mp hc with hc | hc
    · exact h.flushes j hj c hc hres hcancel
    obtain rfl := mem_singleton.mp hc
    rcases hcareful.2 with hrun | ⟨htrue, _⟩
    · exact absurd (hrun j) hj
    · cases htrue.symm.trans hcancel
  sends r hr hj := absurd (hcareful.2.elim (fun hrun => hrun _) fun hrun => hrun.2 r hr) hj
  marker f c i hc hi hnone := by
    by_cases hlt : f < s.flushes.length
    · rw [getElem?_append_left hlt] at hc
      exact h.marker f c i hc hi hnone
    · rw [getElem?_append_right (Nat.le_of_not_lt hlt)] at hc
      obtain rfl := mem_singleton.mp (mem_of_getElem? hc)
      cases hi
  pending c hc hres := by
    rcases mem_append.mp hc with hc | hc
    · exact h.pending c hc hres
    · obtain rfl := mem_singleton.mp hc
      have hmem : cfg.shardOf [] ∈ order := horder.mem_iff.mpr (mem_finRange _)
      exact .inl (ne_nil_of_mem hmem) }

theorem Calm.tick (i : Fin cfg.shardCount) :
    Calm (s.setWorker i { s.workers i with ticked := true }) := { h with
  flushes j hj := h.flushes j ((tick_worker s.workers i j).2.1 ▸ hj)
  sends r hr hj := by
    simp only [setWorker, tick_worker s.workers i] at hj ⊢
    exact h.sends r hr hj
  alone := h.alone.imp fun {r r'} hrun heq => by
    simpa only [setWorker, tick_worker s.workers i] using hrun heq
  marker f c j hc hj hnone := by
    simpa only [setWorker, tick_worker s.workers i] using h.marker f c j hc hj hnone }

/-- A careful step keeps the router calm. -/
theorem Calm.step {e : RouterEvent cfg} (hcareful : Careful s e) : Calm (routerStep s e) := by
  unfold routerStep
  cases hstep : routerStep? s e with
  | none => exact h
  | some s' =>
    cases steps_of_routerStep? hstep with
    | enqueue record hrecord => exact h.enqueue hcareful
    | sendClosed caller record hrecord hclosed =>
      cases hclosed.symm.trans (h.open_of_waiting (mem_of_getElem? hrecord))
    | send caller record hrecord hopen hroom => exact h.send hrecord
    | flush cancellable order horder => exact h.call hcareful horder
    | markClosed f c i unsent hc hresult hunsent hclosed =>
      cases hclosed.symm.trans
        (h.open_of_unsent (mem_of_getElem? hc) hresult (hunsent ▸ mem_cons_self))
    | mark f c i unsent hc hresult hunsent hopen hroom => exact h.mark hc hresult hunsent
    | receive f c i awaited reply hc hresult hunsent hawaited hreply =>
      refine h.setFlush hc hresult (fun _ hj => hj) (fun j hj => ?_) rfl rfl
        (fun hres => .inr fun hnil => ?_)
      · exact .inl (hawaited ▸ mem_cons_of_mem _ hj)
      · cases (if_pos hnil).symm.trans hres
    | cancel f c hc hresult hcancel =>
      exact h.setFlush hc hresult (fun _ hj => hj) (fun _ hj => .inl hj) rfl rfl nofun
    | close => exact { h with closed _ := hcareful, closing _ := rfl }
    | closeReturn hclosing hstopped => exact { h with closing _ := h.closing hclosing }
    | tick i hrun => exact h.tick i
    | work i turn work hturn => exact h.work hcareful hturn

end

/-! ## Every schedule ends -/

/-- The steps a call of `Flush` can still take, with those of its markers. -/
def flushRank {k : ℕ} (c : FlushCall k) : ℕ :=
  if c.result = none then 4 * c.unsent.length + c.awaited.length + 1 else 0

/-- A bound for the steps of all goroutines. -/
def rank (s : RouterState cfg) : ℕ :=
  ∑ i, workerRank (s.workers i) + 3 * s.waiting.length + (s.flushes.map flushRank).sum + s.closing

/-- A message in a channel is at most two steps. -/
theorem sum_workerRank_push_le {k : ℕ} (workers : Fin k → Worker) (i : Fin k) (m : Message) :
    ∑ j, workerRank (update workers i ((workers i).push m) j) ≤ ∑ j, workerRank (workers j) + 2 := by
  have hsum := Fintype.sum_update workerRank workers i ((workers i).push m)
  have hpush : workerRank ((workers i).push m) ≤ workerRank (workers i) + 2 := by
    unfold workerRank Worker.push
    dsimp only
    split
    · rw [length_append, length_singleton]
      omega
    · exact Nat.zero_le _
  omega

/-- A reply is no step of the call that gets it. -/
theorem flushRank_answerCall {k : ℕ} (flushes : List (FlushCall k)) (i : Fin k)
    (reply : Option (ℕ × Option RouterError)) :
    (answerCall flushes i reply).map flushRank = flushes.map flushRank := by
  refine ext_getElem? fun f => ?_
  cases reply with
  | none => rfl
  | some reply =>
    simp only [answerCall, getElem?_map, getElem?_modify]
    cases flushes[f]? <;> split <;> rfl

variable {e : RouterEvent cfg}

theorem rank_setFlush {s : RouterState cfg} {f : ℕ} {c c' : FlushCall cfg.shardCount}
    (hc : s.flushes[f]? = some c) (hlt : flushRank c' < flushRank c) :
    rank (s.setFlush f c') < rank s := by
  have hset := sum_map_set flushRank hc c'
  unfold rank
  simp only [setFlush]
  omega

theorem rank_lt {s s' : RouterState cfg} (h : Calm s)
    (he : e.internal = true) (hstep : routerStep? s e = some s') : rank s' < rank s := by
  cases steps_of_routerStep? hstep with
  | enqueue record hrecord => cases he
  | sendClosed caller record hrecord hclosed =>
    cases hclosed.symm.trans (h.open_of_waiting (mem_of_getElem? hrecord))
  | send caller record hrecord hopen hroom =>
    have hsum := sum_workerRank_push_le s.workers (cfg.shard record)
      (.record s.accepted.length record)
    have hlen := length_eraseIdx_add_one (number_lt hrecord)
    unfold rank
    simp only [setWorker]
    omega
  | flush cancellable order horder => cases he
  | markClosed f c i unsent hc hresult hunsent hclosed =>
    cases hclosed.symm.trans
      (h.open_of_unsent (mem_of_getElem? hc) hresult (hunsent ▸ mem_cons_self))
  | mark f c i unsent hc hresult hunsent hopen hroom =>
    have hsum := sum_workerRank_push_le s.workers i (.flush f)
    have hset := sum_map_set flushRank hc
      { c with unsent := unsent, awaited := c.awaited ++ [i] }
    have hold : flushRank c = 4 * (unsent.length + 1) + c.awaited.length + 1 := by
      rw [flushRank, if_pos hresult, hunsent, length_cons]
    have hnew : flushRank { c with unsent := unsent, awaited := c.awaited ++ [i] } =
        4 * unsent.length + (c.awaited.length + 1) + 1 := by
      rw [flushRank, if_pos hresult, length_append, length_singleton]
    unfold rank
    simp only [setWorker, setFlush]
    omega
  | receive f c i awaited reply hc hresult hunsent hawaited hreply =>
    refine rank_setFlush hc ?_
    have hold : flushRank c = 4 * c.unsent.length + (awaited.length + 1) + 1 := by
      rw [flushRank, if_pos hresult, hawaited, length_cons]
    rw [hold, flushRank]
    dsimp only
    split_ifs <;> omega
  | cancel f c hc hresult hcancel =>
    refine rank_setFlush hc ?_
    simp [flushRank, hresult]
  | close => cases he
  | closeReturn hclosing hstopped =>
    unfold rank
    dsimp only
    omega
  | tick i hrun => cases he
  | work i turn work hturn =>
    have hsum := Fintype.sum_update workerRank s.workers i work.worker
    have hlt := (workerTurn_spec hturn).rank_lt
    unfold rank
    simp only [apply, flushRank_answerCall]
    omega

/-- A step of a goroutine that is careful and not blocked. -/
theorem canStep (he : e.internal = true) (hcareful : Careful s e)
    (h : (routerStep? s e).isSome) : ∃ e s', carefulStep s e = some s' := by
  rcases isSome_iff_exists.mp h with ⟨s', hs'⟩
  exact ⟨e, s', by rw [carefulStep, if_pos ⟨he, hcareful⟩, hs']⟩

/-- A worker with a message takes it. -/
theorem Calm.take_progress (h : Calm s) (hrun : (s.workers i).status = .running)
    (hqueue : (s.workers i).queue ≠ []) : ∃ e s', carefulStep s e = some s' := by
  refine canStep (e := .work i (.take {} .asKept fun _ => .ok)) rfl
    (.inl ⟨rfl, rfl, rfl, .inl rfl⟩) ?_
  simp only [routerStep?, h.alive, workerTurn, hrun, if_true]
  cases hq : (s.workers i).queue with
  | nil => exact absurd hq hqueue
  | cons m queue =>
    cases m with
    | record n r | flush f => rfl

/-- A call of `Flush` that has not returned can go on, unless a worker can take a message. -/
theorem Calm.flush_progress (h : Calm s)
    (hidle : ∀ i, (s.workers i).status = .running → (s.workers i).queue = []) {f : ℕ}
    {c : FlushCall cfg.shardCount} (hc : s.flushes[f]? = some c) (hresult : c.result = none) :
    ∃ e s', carefulStep s e = some s' := by
  have hmem := mem_of_getElem? hc
  have hcancel : c.cancellable = true → ∃ e s', carefulStep s e = some s' := by
    intro hcancel
    refine canStep (e := .flushCancel f) rfl trivial ?_
    simp [routerStep?, h.alive, cancelFlush, hc, hresult, hcancel]
  -- a call that waits for a stopped worker will be cancelled
  have hstopped : ∀ i, (s.workers i).status ≠ .running →
      (i ∈ c.unsent ∨ i ∈ c.awaited ∧ c.replies i = none) → c.cancellable = true := by
    intro i hi hwaits
    by_contra hne
    have hold := h.flushes i hi c hmem hresult (Bool.eq_false_iff.mpr hne)
    exact hwaits.elim hold.1 fun hwaits => hold.2 hwaits.1 hwaits.2
  cases hunsent : c.unsent with
  | cons i unsent =>
    have hi : i ∈ c.unsent := hunsent ▸ mem_cons_self
    by_cases hrun : (s.workers i).status = .running
    · have hopen := h.open_of_unsent hmem hresult hi
      have hroom : (s.workers i).queue.length < cfg.channelSize := by
        rw [hidle i hrun]
        exact cfg.channelSize_pos
      refine canStep (e := .flushSend f) rfl trivial ?_
      simp [routerStep?, h.alive, sendMarker, hc, hresult, hunsent, hopen, hroom]
    · exact hcancel (hstopped i hrun (.inl hi))
  | nil =>
    cases hawaited : c.awaited with
    | nil => exact (h.pending c hmem hresult).elim (absurd hunsent) (absurd hawaited)
    | cons i awaited =>
      have hi : i ∈ c.awaited := hawaited ▸ mem_cons_self
      cases hreply : c.replies i with
      | some reply =>
        refine canStep (e := .flushReceive f) rfl trivial ?_
        simp [routerStep?, h.alive, receiveReply, hc, hresult, hunsent, hawaited, hreply]
      | none =>
        have hmarker := h.marker f c i hc hi hreply
        refine hcancel (hstopped i (fun hrun => ?_) (.inr ⟨hi, hreply⟩))
        simp [hidle i hrun] at hmarker

/-- While some call has not returned, some goroutine can take a careful step. -/
theorem Calm.progress (h : Calm s) (hcalls : ¬ AllReturned s) :
    ∃ e s', carefulStep s e = some s' := by
  by_cases hidle : ∀ i, (s.workers i).status = .running → (s.workers i).queue = []
  swap
  · push Not at hidle
    rcases hidle with ⟨i, hrun, hqueue⟩
    exact h.take_progress hrun hqueue
  cases hwaiting : s.waiting with
  | cons r rest =>
    have hr : r ∈ s.waiting := hwaiting ▸ mem_cons_self
    have hopen := h.open_of_waiting hr
    have hroom : (s.workers (cfg.shard r)).queue.length < cfg.channelSize := by
      by_cases hrun : (s.workers (cfg.shard r)).status = .running
      · rw [hidle _ hrun]
        exact cfg.channelSize_pos
      · exact (h.sends r hr hrun).1
    refine canStep (e := .send 0) rfl trivial ?_
    simp [routerStep?, h.alive, sendRecord, hwaiting, hopen, hroom]
  | nil =>
    by_cases hflush : ∃ c ∈ s.flushes, c.result = none
    · rcases hflush with ⟨c, hc, hresult⟩
      rcases mem_iff_getElem?.mp hc with ⟨f, hf⟩
      exact h.flush_progress hidle hf hresult
    have hclosing : 0 < s.closing := Nat.pos_of_ne_zero fun hzero =>
      hcalls ⟨h.alive, hwaiting, fun c hc hresult => hflush ⟨c, hc, hresult⟩, hzero⟩
    by_cases hrunning : ∃ i, (s.workers i).status = .running
    · rcases hrunning with ⟨i, hrun⟩
      refine canStep (e := .work i (.drain .asKept fun _ => .ok)) rfl (.inl trivial) ?_
      simp [routerStep?, h.alive, workerTurn, hrun, h.closing hclosing, hidle i hrun]
    · refine canStep (e := .closeReturn) rfl trivial ?_
      simp [routerStep?, h.alive, hclosing, not_exists.mp hrunning]

/-! ## No record is dropped in silence -/

/-- A worker that stopped without an error has read its channel and stored its buffers, and a
worker that stopped with an error makes `Close` report one. -/
structure Drained (s : RouterState cfg) : Prop where
  empty : ∀ i, (s.workers i).status = .stopped none →
    (s.workers i).queue = [] ∧ ∀ n, ¬ Buffered (s.workers i).sessions n
  closed : ∀ i, (s.workers i).status = .stopped none → s.closed = true
  group : ∀ i e, (s.workers i).status = .stopped (some e) → s.groupErr ≠ none
  results : none ∈ s.closeResults → ∀ i, (s.workers i).status = .stopped none

theorem drained_new (cfg : RouterConfig) : Drained (newRouter cfg) where
  empty _ := nofun
  closed _ := nofun
  group _ _ := nofun
  results := nofun

/-- A push to an open channel goes to a worker that has not stopped without an error. -/
theorem Drained.push (h : Drained s) (hopen : s.closed = false) (i : Fin cfg.shardCount)
    (m : Message) {s' : RouterState cfg}
    (hworkers : s'.workers = update s.workers i ((s.workers i).push m))
    (hgroup : s'.groupErr = s.groupErr) (hresults : s'.closeResults = s.closeResults) :
    Drained s' := by
  have hstatus : ∀ j, (s'.workers j).status = (s.workers j).status := fun j => by
    rw [hworkers, (push_status s.workers i j m).1]
  have hnot : ∀ j, (s'.workers j).status ≠ .stopped none := fun j hj => by
    cases hopen.symm.trans (h.closed j (hstatus j ▸ hj))
  refine ⟨fun j hj => absurd hj (hnot j), fun j hj => absurd hj (hnot j), fun j e hj => ?_,
    fun hnone j => ?_⟩
  · rw [hgroup]
    exact h.group j e (hstatus j ▸ hj)
  · rw [hstatus]
    exact h.results (hresults ▸ hnone) j

/-- What the status of a worker says after its turn. -/
theorem workerTurn_stopped {closed : Bool} {w : Worker} {turn : Turn} {work : Work}
    (hturn : workerTurn closed w turn = some work) :
    (work.worker.status = .stopped none → closed = true ∧ work.worker.queue = [] ∧
      ∀ n, ¬ Buffered work.worker.sessions n) ∧
      ∀ e, work.worker.status = .stopped (some e) → work.err ≠ none := by
  have hafter : ∀ err : Option RouterError, statusAfter err ≠ .stopped none := by
    intro err
    cases err <;> simp [statusAfter]
  have herr : ∀ (err : Option RouterError) e, statusAfter err = .stopped (some e) → err ≠ none := by
    intro err e he
    cases err <;> simp_all [statusAfter]
  revert hturn
  fun_cases workerTurn closed w turn <;> rintro ⟨⟩
  next => exact ⟨fun hstop => absurd hstop (hafter _), herr _⟩
  next env order outcome hrun f queue hqueue _ =>
    exact ⟨fun hstop => (by cases hrun.symm.trans hstop), fun e he => (by cases hrun.symm.trans he)⟩
  next => exact ⟨fun hstop => absurd hstop (hafter _), herr _⟩
  next order outcome hrun p =>
    refine ⟨fun hstop => ⟨hrun.2.1, hrun.2.2, ?_⟩, fun e he => ?_⟩
    · have hok : p.failed = false := by
        simpa [Pass.err] using WorkerStatus.stopped.inj hstop
      rintro n ⟨table, buffered, hlookup, hn⟩
      have hnil : buffered = [] := (visitSessions_lookup hlookup).elim id fun hold =>
        visitSessions_empties (by rintro _ ⟨⟩) hok (mem_map_of_mem (GoMap.mem_range.mpr hold)) hlookup
      simp [hnil] at hn
    · exact ne_of_eq_of_ne (WorkerStatus.stopped.inj he) (some_ne_none e)

theorem Drained.step (h : Drained s) (e : RouterEvent cfg) : Drained (routerStep s e) := by
  unfold routerStep
  cases hstep : routerStep? s e with
  | none => exact h
  | some s' =>
    rw [getD_some]
    cases steps_of_routerStep? hstep with
    | send caller record hrecord hopen hroom | mark f c i unsent hc hresult hunsent hopen hroom =>
      exact h.push hopen _ _ rfl rfl rfl
    | close => exact ⟨h.empty, fun _ _ => rfl, h.group, h.results⟩
    | closeReturn hclosing hstopped =>
      refine { h with results := fun hnone i => ?_ }
      rcases mem_append.mp hnone with hnone | hnone
      · exact h.results hnone i
      have hgroup : s.groupErr = none := (mem_singleton.mp hnone).symm
      cases hstatus : (s.workers i).status with
      | running => exact absurd hstatus (hstopped i)
      | stopped err =>
        cases err with
        | none => rfl
        | some e => exact absurd hgroup (h.group i e hstatus)
    | tick i hrun =>
      have hworker := tick_worker s.workers i
      refine ⟨fun j hj => ?_, fun j hj => ?_, fun j e hj => ?_, fun hnone j => ?_⟩ <;>
        simp only [setWorker, hworker] at *
      · exact h.empty j hj
      · exact h.closed j hj
      · exact h.group j e hj
      · exact h.results hnone j
    | work i turn work hturn =>
      have hstopped := workerTurn_stopped hturn
      have hrun := (workerTurn_spec hturn).was_running
      have hworker : ∀ j, (s.apply i work).workers j = work.worker ∨
          (s.apply i work).workers j = s.workers j := fun j => by
        by_cases hji : j = i <;> simp [apply, hji]
      refine ⟨fun j hj => ?_, fun j hj => ?_, fun j e hj => ?_, fun hnone j => ?_⟩
      · rcases hworker j with hj' | hj' <;> rw [hj'] at hj ⊢
        · exact (hstopped.1 hj).2
        · exact h.empty j hj
      · rcases hworker j with hj' | hj' <;> rw [hj'] at hj
        · exact (hstopped.1 hj).1
        · exact h.closed j hj
      · rcases hworker j with hj' | hj' <;> rw [hj'] at hj <;> intro hor
        · exact hstopped.2 e hj (or_eq_none_iff.mp hor).2
        · exact h.group j e hj (or_eq_none_iff.mp hor).1
      · cases hrun.symm.trans (h.results hnone i)
    | _ => exact { h with }

/-- If a call of `Close` returned no error, every record that was accepted is flushed, or a call of
`Flush` that lost it has returned an error. -/
def Honest (s : RouterState cfg) : Prop :=
  none ∈ s.closeResults → ∀ n < s.accepted.length, n ∈ s.flushed ∨
    ∃ f c e, (n, some f) ∈ s.lost ∧ s.flushes[f]? = some c ∧ c.result = some (some e)

/-- When every call has returned, no record is dropped in silence. -/
theorem honest_of_returned (h : Barrier s) (hdrained : Drained s) (hcalls : AllReturned s) :
    Honest s := by
  intro hnone n hn
  have hstopped := hdrained.results hnone (cfg.shard s.accepted[n])
  have hempty := hdrained.empty _ hstopped
  rcases h.kept n s.accepted[n] (getElem?_eq_getElem hn) with
    hmem | ⟨e, he⟩ | ⟨_, hflushed | hbuffered | ⟨f, hlost⟩⟩
  · simp [hempty.1] at hmem
  · cases hstopped.symm.trans he
  · exact .inl hflushed
  · exact absurd hbuffered (hempty.2 n)
  · rcases h.reported n f hlost with ⟨c, i, e, hc, hreply⟩
    have hmem := mem_of_getElem? hc
    right
    cases hresult : c.result with
    | none => exact absurd hresult (hcalls.2.2.1 c hmem)
    | some result =>
      cases result with
      | some e => exact ⟨f, c, e, hlost, hc, hresult⟩
      | none =>
        cases ((h.calls c hmem).replies_of_returned hresult i).symm.trans hreply

/-! ## Careful runs -/

/-- After every run of careful steps, in which workers may have stopped, every schedule of careful
steps of the goroutines reaches a state in which every call of `Enqueue`, `Flush` and `Close` has
returned and no record that was accepted is dropped without an error of some call. -/
theorem careful_run_returns (cfg : RouterConfig) (es : List (RouterEvent cfg))
    (hes : Meets routerStep Careful (newRouter cfg) es) :
    Inevitable carefulStep (fun s => AllReturned s ∧ Honest s)
      (exec routerStep (newRouter cfg) es) := by
  have hinv := exec_induction routerStep
    (I := fun s => Calm s ∧ Barrier s ∧ Drained s)
    (fun s e hs he => ⟨hs.1.step he, hs.2.1.step e, hs.2.2.step e⟩)
    ⟨calm_new cfg, barrier_new cfg, drained_new cfg⟩ hes
  refine Inevitable.of_rank (I := fun s => Calm s ∧ Barrier s ∧ Drained s) rank ?_ ?_ _ hinv
  · intro s hs hgoal
    have hcalls : ¬ AllReturned s := fun hcalls =>
      hgoal ⟨hcalls, honest_of_returned hs.2.1 hs.2.2 hcalls⟩
    exact hs.1.progress hcalls
  · intro s e s' hs hstep
    unfold carefulStep at hstep
    split at hstep
    next hcond =>
      have hnext : routerStep s e = s' := by rw [routerStep, hstep, getD_some]
      exact ⟨hnext ▸ ⟨hs.1.step hcond.2, hs.2.1.step e, hs.2.2.step e⟩, rank_lt hs.1 hcond.1 hstep⟩
    · cases hstep

/-- The only worker stops at a record it cannot put.  Then a flush is asked for with a context that
is cancelled, a further record is accepted, and the router is closed. -/
def stoppedWorkerRun : List (RouterEvent oneWorker) :=
  [.enqueue orderRecord, .send 0, .work onlyWorker (.take { puts := false } .asKept fun _ => .ok),
    .flush true [onlyWorker], .flushSend 0, .enqueue orderRecord, .send 0, .flushCancel 0, .close]

/-- The calls on a router whose only worker has stopped return. -/
theorem stopped_worker_run_returns :
    Meets routerStep Careful (newRouter oneWorker) stoppedWorkerRun ∧
      ((exec routerStep (newRouter oneWorker) stoppedWorkerRun).workers onlyWorker).status =
        .stopped (some .putRow) ∧
      Inevitable carefulStep (fun s => AllReturned s ∧ Honest s)
        (exec routerStep (newRouter oneWorker) stoppedWorkerRun) := by
  have hnobody : ∀ {s : RouterState oneWorker}, s.waiting = [] → s.flushes = [] →
      Unawaited s onlyWorker := fun hwaiting hflushes =>
    ⟨by simp [hwaiting], by simp [hflushes]⟩
  refine ⟨?meets, rfl, careful_run_returns oneWorker stoppedWorkerRun ?meets⟩
  refine ⟨⟨rfl, .inl rfl⟩, trivial, .inr (hnobody rfl rfl), ⟨rfl, .inr ⟨rfl, ?_⟩⟩, trivial,
    ⟨rfl, .inr ⟨by decide, ?_, ?_⟩⟩, trivial, trivial, ⟨rfl, ?_⟩, trivial⟩
  · nofun
  · nofun
  · intro c hc hresult hmem
    obtain rfl := mem_singleton.mp hc
    cases hmem
  · intro c hc hresult
    obtain rfl := mem_singleton.mp hc
    cases hresult

def internalStep (s : RouterState cfg) (e : RouterEvent cfg) : Option (RouterState cfg) :=
  if e.internal = true then routerStep? s e else none

/-- The only worker stops at a record it cannot put, and then a flush is asked for whose context is
never cancelled. -/
def waitingFlushRun : List (RouterEvent oneWorker) :=
  [.enqueue orderRecord, .send 0, .work onlyWorker (.take { puts := false } .asKept fun _ => .ok),
    .flush false [onlyWorker], .flushSend 0]

/-- The flush waits for a reply, and no goroutine can take a step. -/
theorem flush_waits_for_stopped_worker :
    ¬ Inevitable internalStep AllReturned
      (exec routerStep (newRouter oneWorker) waitingFlushRun) := by
  generalize hs : exec routerStep (newRouter oneWorker) waitingFlushRun = s
  have hwaiting : s.waiting = [] := by rw [← hs]; rfl
  have hclosing : s.closing = 0 := by rw [← hs]; rfl
  have hstatus : ∀ i, (s.workers i).status ≠ .running := by rw [← hs]; decide
  have hflushes : s.flushes =
      [{ before := 1, cancellable := false, unsent := [], awaited := [onlyWorker] }] := by
    rw [← hs]
    rfl
  have hcall (f : ℕ) (c) (hc : s.flushes[f]? = some c) := mem_singleton.mp
    (hflushes.subst (motive := (c ∈ ·)) (mem_of_getElem? hc))
  intro h
  cases h with
  | here hgoal =>
    have hreturned := hgoal.2.2.1
    rw [hflushes] at hreturned
    exact hreturned _ (mem_singleton_self _) rfl
  | next henabled _ =>
    rcases henabled with ⟨e, s', he⟩
    unfold internalStep at he
    split at he
    next hinternal =>
      cases steps_of_routerStep? he with
      | sendClosed caller record hrecord _ | send caller record hrecord _ _ =>
        rw [hwaiting] at hrecord
        cases hrecord
      | markClosed f c i unsent hc _ hunsent _ | mark f c i unsent hc _ hunsent _ _ =>
        obtain rfl := hcall f c hc
        cases hunsent
      | receive f c i awaited reply hc _ _ _ hreply =>
        obtain rfl := hcall f c hc
        cases hreply
      | cancel f c hc _ hcancel =>
        obtain rfl := hcall f c hc
        cases hcancel
      | closeReturn hpos _ =>
        rw [hclosing] at hpos
        exact absurd hpos (Nat.lt_irrefl 0)
      | work i turn work hturn => exact hstatus i (workerTurn_spec hturn).was_running
      | _ => cases hinternal
    · cases he

end Router
end QuantaStream.Core
