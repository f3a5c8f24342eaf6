import QuantaStream.Core.SessionRouter

/-!
# The records of a router

A marker stands behind every record that was accepted before its call, a channel is read in order,
and a call takes every reply before it returns without an error.  So a record that was accepted is
in its channel, or its worker has stopped with an error, or it is put; and a record that is put is
flushed, in the buffer of a session, or lost by a flush that was asked for and failed.

The first part says once what a step can do; the second keeps the account of the records.
-/

namespace QuantaStream.Core
namespace Router

open GoString List Function Option RouterState FlushCall Worker

variable {cfg : RouterConfig}

/-! ## What a step can do -/

/-- The steps that can happen. -/
inductive Steps (s : RouterState cfg) : RouterEvent cfg → RouterState cfg → Prop
  | enqueue (record : IngestRecord) (hrecord : enqueueError record = none) :
      Steps s (.enqueue record) { s with waiting := s.waiting ++ [record] }
  | sendClosed (caller : ℕ) (record : IngestRecord) (hrecord : s.waiting[caller]? = some record)
      (hclosed : s.closed = true) : Steps s (.send caller) { s with panicked := true }
  | send (caller : ℕ) (record : IngestRecord) (hrecord : s.waiting[caller]? = some record)
      (hopen : s.closed = false)
      (hroom : (s.workers (cfg.shard record)).queue.length < cfg.channelSize) :
      Steps s (.send caller) { s.setWorker (cfg.shard record)
          ((s.workers (cfg.shard record)).push (.record s.accepted.length record)) with
        waiting := s.waiting.eraseIdx caller
        accepted := s.accepted ++ [record] }
  | flush (cancellable : Bool) (order : List (Fin cfg.shardCount))
      (horder : order.Perm (finRange cfg.shardCount)) :
      Steps s (.flush cancellable order) { s with
        flushes := s.flushes ++
          [{ before := s.accepted.length, cancellable := cancellable, unsent := order }] }
  | markClosed (f : ℕ) (c : FlushCall cfg.shardCount) (i : Fin cfg.shardCount)
      (unsent : List (Fin cfg.shardCount)) (hc : s.flushes[f]? = some c) (hresult : c.result = none)
      (hunsent : c.unsent = i :: unsent) (hclosed : s.closed = true) :
      Steps s (.flushSend f) { s with panicked := true }
  | mark (f : ℕ) (c : FlushCall cfg.shardCount) (i : Fin cfg.shardCount)
      (unsent : List (Fin cfg.shardCount)) (hc : s.flushes[f]? = some c) (hresult : c.result = none)
      (hunsent : c.unsent = i :: unsent) (hopen : s.closed = false)
      (hroom : (s.workers i).queue.length < cfg.channelSize) :
      Steps s (.flushSend f) ((s.setWorker i ((s.workers i).push (.flush f))).setFlush f
        { c with unsent := unsent, awaited := c.awaited ++ [i] })
  | receive (f : ℕ) (c : FlushCall cfg.shardCount) (i : Fin cfg.shardCount)
      (awaited : List (Fin cfg.shardCount)) (reply : Option RouterError)
      (hc : s.flushes[f]? = some c) (hresult : c.result = none) (hunsent : c.unsent = [])
      (hawaited : c.awaited = i :: awaited) (hreply : c.replies i = some reply) :
      Steps s (.flushReceive f) (s.setFlush f { c with
        awaited := awaited
        firstErr := c.firstErr.or reply
        result := if awaited = [] then some (c.firstErr.or reply) else none })
  | cancel (f : ℕ) (c : FlushCall cfg.shardCount) (hc : s.flushes[f]? = some c)
      (hresult : c.result = none) (hcancel : c.cancellable = true) :
      Steps s (.flushCancel f) (s.setFlush f { c with result := some (some .context) })
  | close : Steps s .close { s with closed := true, closing := s.closing + 1 }
  | closeReturn (hclosing : 0 < s.closing) (hstopped : ∀ i, (s.workers i).status ≠ .running) :
      Steps s .closeReturn { s with
        closing := s.closing - 1
        closeResults := s.closeResults ++ [s.groupErr] }
  | tick (i : Fin cfg.shardCount) (hrun : (s.workers i).status = .running) :
      Steps s (.tick i) (s.setWorker i { s.workers i with ticked := true })
  | work (i : Fin cfg.shardCount) (turn : Turn) (work : Work)
      (hturn : workerTurn s.closed (s.workers i) turn = some work) :
      Steps s (.work i turn) (s.apply i work)

/-- What a step can do. -/
theorem steps_of_routerStep? {s s' : RouterState cfg} {e : RouterEvent cfg}
    (hstep : routerStep? s e = some s') : Steps s e s' := by
  revert hstep
  fun_cases routerStep? s e
  case case2 record hrecord =>
    rintro ⟨⟩
    exact .enqueue record hrecord
  case case4 caller =>
    fun_cases sendRecord s caller <;> rintro ⟨⟩
    next record hrecord hclosed => exact .sendClosed caller record hrecord hclosed
    next record hrecord _ hopen hroom =>
      exact .send caller record hrecord (Bool.eq_false_iff.mpr hopen) hroom
  case case5 cancellable order horder =>
    rintro ⟨⟩
    exact .flush cancellable order horder
  case case7 f =>
    fun_cases sendMarker s f <;> rintro ⟨⟩
    next c hc i unsent hunsent hresult hclosed =>
      exact .markClosed f c i unsent hc hresult hunsent hclosed
    next c hc i unsent hunsent hresult hopen hroom =>
      exact .mark f c i unsent hc hresult hunsent (Bool.eq_false_iff.mpr hopen) hroom
  case case8 f =>
    fun_cases receiveReply s f <;> rintro ⟨⟩
    next c hc i awaited hawaited hunsent hresult reply hreply _ =>
      exact .receive f c i awaited reply hc hresult hunsent hawaited hreply
  case case9 f =>
    fun_cases cancelFlush s f <;> rintro ⟨⟩
    next c hc hcancel => exact .cancel f c hc hcancel.1 hcancel.2
  case case10 =>
    rintro ⟨⟩
    exact .close
  case case11 hreturn =>
    rintro ⟨⟩
    exact .closeReturn hreturn.1 hreturn.2
  case case13 i hrun =>
    rintro ⟨⟩
    exact .tick i hrun
  case case15 i turn =>
    intro hstep
    rcases map_eq_some_iff.mp hstep with ⟨work, hturn, rfl⟩
    exact .work i turn work hturn
  all_goals nofun

/-! ## The account of the records -/

def acceptedBefore {k : ℕ} (flushes : List (FlushCall k)) (f : ℕ) : ℕ :=
  (flushes[f]?.map before).getD 0

/-- The order of two messages in a channel: records by their numbers, and a marker before the
records that were accepted after its call; a call has one marker. -/
def Follows (before : ℕ → ℕ) : Message → Message → Prop
  | .record m _, .record n _ => m < n
  | .flush f, .record n _ => before f ≤ n
  | .record _ _, .flush _ => True
  | .flush f, .flush g => f ≠ g

def LostByFlush (lost : List (ℕ × Option ℕ)) (n : ℕ) : Prop := ∃ f, (n, some f) ∈ lost

/-- A record that was put is flushed, or a flush that was asked for has lost it. -/
def Done (put flushed : List ℕ) (lost : List (ℕ × Option ℕ)) (n : ℕ) : Prop :=
  n ∈ put ∧ (n ∈ flushed ∨ LostByFlush lost n)

/-- What holds of a call of `Flush`: it has still to send to a shard, still to take its reply, or
the reply is taken and no error is forgotten. -/
structure CallOk {k : ℕ} (accepted : ℕ) (c : FlushCall k) : Prop where
  before_le : c.before ≤ accepted
  unsent_nodup : c.unsent.Nodup
  unanswered : ∀ i ∈ c.unsent, c.replies i = none
  received : ∀ i, i ∈ c.unsent ∨ i ∈ c.awaited ∨
    ∃ reply, c.replies i = some reply ∧ (reply = none ∨ c.firstErr ≠ none)
  returned : c.result = some none → c.unsent = [] ∧ c.awaited = [] ∧ c.firstErr = none

/-- A call that returned no error had a reply without an error from every worker. -/
theorem CallOk.replies_of_returned {k accepted : ℕ} {c : FlushCall k} (h : CallOk accepted c)
    (hresult : c.result = some none) (i : Fin k) : c.replies i = some none := by
  rcases h.returned hresult with ⟨hunsent, hawaited, herr⟩
  rcases h.received i with hi | hi | ⟨reply, hreply, hnone | hne⟩
  · simp [hunsent] at hi
  · simp [hawaited] at hi
  · rw [hreply, hnone]
  · exact absurd herr hne

/-- What holds of channels, calls and records between the steps of a router. -/
structure Barrier (s : RouterState cfg) : Prop where
  routed : ∀ i n r, .record n r ∈ (s.workers i).queue → s.accepted[n]? = some r ∧ cfg.shard r = i
  marked : ∀ i f, .flush f ∈ (s.workers i).queue →
    ∃ c, s.flushes[f]? = some c ∧ c.replies i = none ∧ i ∉ c.unsent
  ordered : ∀ i, (s.workers i).queue.Pairwise (Follows (acceptedBefore s.flushes))
  put_accepted : ∀ n ∈ s.put, ∃ r, s.accepted[n]? = some r ∧
    ∀ m r', .record m r' ∈ (s.workers (cfg.shard r)).queue → n < m
  put_ordered : s.put.Pairwise fun m n =>
    s.accepted[m]?.map cfg.shard = s.accepted[n]?.map cfg.shard → m < n
  kept : ∀ n r, s.accepted[n]? = some r → .record n r ∈ (s.workers (cfg.shard r)).queue ∨
    (∃ e, (s.workers (cfg.shard r)).status = .stopped (some e)) ∨
    n ∈ s.put ∧ (n ∈ s.flushed ∨ Buffered (s.workers (cfg.shard r)).sessions n ∨
      LostByFlush s.lost n)
  calls : ∀ c ∈ s.flushes, CallOk s.accepted.length c
  answered : ∀ c ∈ s.flushes, ∀ i, c.replies i = some none → ∀ n r, n < c.before →
    s.accepted[n]? = some r → cfg.shard r = i → Done s.put s.flushed s.lost n
  reported : ∀ n f, (n, some f) ∈ s.lost →
    ∃ c i e, s.flushes[f]? = some c ∧ c.replies i = some (some e)

theorem barrier_new (cfg : RouterConfig) : Barrier (newRouter cfg) where
  routed _ _ _ := nofun
  marked _ _ := nofun
  ordered _ := Pairwise.nil
  put_accepted := nofun
  put_ordered := Pairwise.nil
  kept := nofun
  calls := nofun
  answered := nofun
  reported := nofun

variable {n : ℕ}

theorem acceptedBefore_eq {k f : ℕ} {flushes : List (FlushCall k)} {c : FlushCall k}
    (hc : flushes[f]? = some c) : acceptedBefore flushes f = c.before := by
  simp [acceptedBefore, hc]

theorem LostByFlush.append {lost : List (ℕ × Option ℕ)} (h : LostByFlush lost n)
    (more : List (ℕ × Option ℕ)) : LostByFlush (lost ++ more) n :=
  h.imp fun _ => mem_append_left _

theorem Done.append {put flushed : List ℕ} {lost : List (ℕ × Option ℕ)}
    (h : Done put flushed lost n) (put' flushed' : List ℕ) (lost' : List (ℕ × Option ℕ)) :
    Done (put ++ put') (flushed ++ flushed') (lost ++ lost') n :=
  ⟨mem_append_left _ h.1, h.2.imp (mem_append_left _) (fun hlost => hlost.append lost')⟩

theorem CallOk.mono {k accepted accepted' : ℕ} {c : FlushCall k} (h : CallOk accepted c)
    (hle : accepted ≤ accepted') : CallOk accepted' c :=
  { h with before_le := h.before_le.trans hle }

/-! ## The turn of a worker -/

variable {s : RouterState cfg} {i : Fin cfg.shardCount} {f : ℕ} {c : FlushCall cfg.shardCount}

theorem before_answerCall (s : RouterState cfg) (i : Fin cfg.shardCount) (work : Work) :
    acceptedBefore (s.apply i work).flushes = acceptedBefore s.flushes := by
  funext f
  unfold acceptedBefore apply answerCall
  cases work.reply with
  | none => rfl
  | some reply =>
    simp only [getElem?_modify]
    cases s.flushes[f]? <;> split <;> rfl

section

variable {k : ℕ} {flushes : List (FlushCall k)} {i : Fin k}
  {reply : Option (ℕ × Option RouterError)}

/-- A call after a worker's turn is the call before it, or has the reply of the turn. -/
theorem getElem?_of_answerCall {f : ℕ} {c : FlushCall k}
    (h : (answerCall flushes i reply)[f]? = some c) :
    ∃ c₀, flushes[f]? = some c₀ ∧ ((∀ r, reply ≠ some (f, r)) ∧ c = c₀ ∨
      ∃ r, reply = some (f, r) ∧ c = c₀.answer i r) := by
  cases reply with
  | none => exact ⟨c, h, .inl ⟨fun r hr => (by cases hr), rfl⟩⟩
  | some reply =>
    simp only [answerCall, getElem?_modify] at h
    rcases map_eq_some_iff.mp h with ⟨c₀, hc₀, rfl⟩
    refine ⟨c₀, hc₀, ?_⟩
    split
    next heq => exact .inr ⟨reply.2, by rw [← heq], rfl⟩
    next hne => exact .inl ⟨fun r hr => hne (by rw [some.inj hr]), rfl⟩

theorem mem_answerCall {c : FlushCall k} (h : c ∈ answerCall flushes i reply) :
    c ∈ flushes ∨ ∃ f r c₀, reply = some (f, r) ∧ flushes[f]? = some c₀ ∧ c = c₀.answer i r := by
  rcases mem_iff_getElem?.mp h with ⟨f, hf⟩
  rcases getElem?_of_answerCall hf with ⟨c₀, hc₀, ⟨_, rfl⟩ | ⟨r, hr, rfl⟩⟩
  · exact .inl (mem_of_getElem? hc₀)
  · exact .inr ⟨f, r, c₀, hr, hc₀, rfl⟩

end

/-- A call after a worker's turn has the shards it had to send to, and the replies of the other
workers. -/
theorem getElem?_answerCall {k : ℕ} {flushes : List (FlushCall k)} {f : ℕ} {c : FlushCall k}
    (hc : flushes[f]? = some c) {i j : Fin k} {reply : Option (ℕ × Option RouterError)}
    (hj : ∀ r, reply = some (f, r) → j ≠ i) :
    ∃ c', (answerCall flushes i reply)[f]? = some c' ∧ c'.replies j = c.replies j ∧
      c'.unsent = c.unsent := by
  cases reply with
  | none => exact ⟨c, hc, rfl, rfl⟩
  | some reply =>
    simp only [answerCall, getElem?_modify, hc]
    split
    next heq => exact ⟨_, rfl, update_of_ne (hj reply.2 (by rw [← heq])) .., rfl⟩
    · exact ⟨c, rfl, rfl, rfl⟩

/-- What a worker lost in a turn is kept with the call whose marker it took. -/
theorem lost_apply (s : RouterState cfg) (i : Fin cfg.shardCount) (work : Work) :
    (s.apply i work).lost =
      s.lost ++ work.lost.map (fun number => (number, work.reply.map Prod.fst)) := rfl

/-- The channels after a turn, if the worker reads its own in order. -/
theorem queue_apply {work : Work} (hqueue : work.worker.queue <:+ (s.workers i).queue)
    (j : Fin cfg.shardCount) : ((s.apply i work).workers j).queue <:+ (s.workers j).queue := by
  by_cases hj : j = i
  · subst hj
    simpa [apply] using hqueue
  · simp [apply, hj]

/-- A turn of a worker keeps the account if the worker reads its channel in order, puts no other
record than the one it took, accounts for its records unless it stops with an error, and replies
truthfully to a marker it took. -/
theorem Barrier.apply (h : Barrier s) {work : Work}
    (hqueue : work.worker.queue <:+ (s.workers i).queue)
    (hput : work.put = [] ∨ ∃ n r, work.put = [n] ∧ .record n r ∈ (s.workers i).queue ∧
      ∀ m r', .record m r' ∈ work.worker.queue → n < m) (hrun : (s.workers i).status = .running)
    (hkept : (∃ e, work.worker.status = .stopped (some e)) ∨
      ∀ n r, s.accepted[n]? = some r → cfg.shard r = i →
        .record n r ∈ (s.workers i).queue ∨ n ∈ s.put ∧ Buffered (s.workers i).sessions n →
        .record n r ∈ work.worker.queue ∨ n ∈ s.put ++ work.put ∧
          (n ∈ work.flushed ∨ Buffered work.worker.sessions n ∨
            LostByFlush (s.apply i work).lost n))
    (hmarker : ∀ f reply, work.reply = some (f, reply) →
      .flush f ∈ (s.workers i).queue ∧ .flush f ∉ work.worker.queue)
    (hreply : ∀ f, work.reply = some (f, none) → ∀ n r, n < acceptedBefore s.flushes f →
      s.accepted[n]? = some r → cfg.shard r = i →
      Done (s.put ++ work.put) (s.flushed ++ work.flushed) (s.apply i work).lost n)
    (hlost : ∀ f reply n, work.reply = some (f, reply) → n ∈ work.lost → reply ≠ none) :
    Barrier (s.apply i work) where
  routed j n r hmem := h.routed j n r ((queue_apply hqueue j).subset hmem)
  marked j f hmem := by
    rcases h.marked j f ((queue_apply hqueue j).subset hmem) with ⟨c, hc, hnone, hsent⟩
    have hj : ∀ reply, work.reply = some (f, reply) → j ≠ i := by
      rintro reply hwork rfl
      simp only [apply, update_self] at hmem
      exact (hmarker f reply hwork).2 hmem
    rcases getElem?_answerCall hc hj with ⟨c', hc', hreplies, hunsent⟩
    exact ⟨c', hc', hreplies.trans hnone, hunsent ▸ hsent⟩
  ordered j := by
    rw [before_answerCall]
    exact (h.ordered j).sublist (queue_apply hqueue j).sublist
  put_accepted n hn := by
    rcases mem_append.mp hn with hn | hn
    · rcases h.put_accepted n hn with ⟨r, hr, hlt⟩
      exact ⟨r, hr, fun m r' hmem => hlt m r' ((queue_apply hqueue _).subset hmem)⟩
    rcases hput with hnil | ⟨n', r, hsingle, hmem, hlt⟩
    · simp [hnil] at hn
    · obtain rfl := mem_singleton.mp (hsingle ▸ hn)
      have hrouted := h.routed i n r hmem
      refine ⟨r, hrouted.1, fun m r' hm => hlt m r' ?_⟩
      simpa only [RouterState.apply, hrouted.2, update_self] using hm
  put_ordered := by
    rcases hput with hnil | ⟨n, r, hsingle, hmem, _⟩
    · simpa only [RouterState.apply, hnil, append_nil] using h.put_ordered
    simp only [RouterState.apply, hsingle]
    refine pairwise_append.mpr ⟨h.put_ordered, pairwise_singleton _ _, ?_⟩
    intro m hm n' hn heq
    obtain rfl := mem_singleton.mp hn
    rcases h.put_accepted m hm with ⟨rm, hrm, hlt⟩
    have hrouted := h.routed i n' r hmem
    rw [hrm, hrouted.1] at heq
    exact hlt n' r ((some.inj heq).trans hrouted.2 ▸ hmem)
  kept n r hr := by
    have hold := h.kept n r hr
    by_cases hj : cfg.shard r = i
    · simp only [RouterState.apply, hj, update_self] at hold ⊢
      rcases hkept with hstop | hkept
      · exact .inr (.inl hstop)
      have hcase := fun hwaits => (hkept n r hr hj hwaits).imp_right fun hdone =>
        And.intro hdone.1 (hdone.2.imp_left (mem_append_right s.flushed))
      rcases hold with hmem | ⟨e, he⟩ | ⟨hmem, hflushed | hbuffered | hlost⟩
      · exact (hcase (.inl hmem)).imp_right .inr
      · cases hrun.symm.trans he
      · exact .inr (.inr ⟨mem_append_left _ hmem, .inl (mem_append_left _ hflushed)⟩)
      · exact (hcase (.inr ⟨hmem, hbuffered⟩)).imp_right .inr
      · exact .inr (.inr ⟨mem_append_left _ hmem, .inr (.inr (hlost.append _))⟩)
    · simp only [RouterState.apply, update_of_ne hj]
      exact hold.imp_right (.imp_right fun hold => ⟨mem_append_left _ hold.1,
        hold.2.imp (mem_append_left _) (.imp_right fun hlost => hlost.append _)⟩)
  calls c hc := by
    rcases mem_answerCall hc with hc | ⟨f, reply, c₀, hwork, hc₀, rfl⟩
    · exact h.calls c hc
    have hok := h.calls c₀ (mem_of_getElem? hc₀)
    rcases h.marked i f (hmarker f reply hwork).1 with ⟨c₁, hc₁, hnone, hsent⟩
    obtain rfl : c₁ = c₀ := some.inj (hc₁.symm.trans hc₀)
    refine ⟨hok.before_le, hok.unsent_nodup, fun j hj => ?_, fun j => ?_, hok.returned⟩
    · have hji : j ≠ i := fun hji => hsent (hji ▸ hj)
      simpa only [answer, update_of_ne hji] using hok.unanswered j hj
    · refine (hok.received j).imp_right (.imp_right fun ⟨old, hold, herr⟩ => ⟨old, ?_, herr⟩)
      have hji : j ≠ i := by
        rintro rfl
        cases hnone.symm.trans hold
      simpa only [answer, update_of_ne hji] using hold
  answered c hc j hanswer n r hn hr hj := by
    rcases mem_answerCall hc with hc | ⟨f, reply, c₀, hwork, hc₀, rfl⟩
    · exact (h.answered c hc j hanswer n r hn hr hj).append _ _ _
    by_cases hji : j = i
    · simp only [answer, hji, update_self, some.injEq] at hanswer
      rw [hanswer] at hwork
      exact hreply f hwork n r ((acceptedBefore_eq hc₀).symm ▸ hn) hr (hj.trans hji)
    · simp only [answer, update_of_ne hji] at hanswer
      exact (h.answered c₀ (mem_of_getElem? hc₀) j hanswer n r hn hr hj).append _ _ _
  reported n f hmem := by
    rcases mem_append.mp (lost_apply s i work ▸ hmem) with hmem | hmem
    · -- a reply that was given stays, since its marker is gone
      rcases h.reported n f hmem with ⟨c, j, e, hc, hreply'⟩
      have hj : ∀ reply, work.reply = some (f, reply) → j ≠ i := by
        rintro reply hwork rfl
        rcases h.marked j f (hmarker f reply hwork).1 with ⟨c₁, hc₁, hnone, _⟩
        obtain rfl := some.inj (hc.symm.trans hc₁)
        cases hnone.symm.trans hreply'
      rcases getElem?_answerCall hc hj with ⟨c', hc', hreplies, _⟩
      exact ⟨c', j, e, hc', hreplies.trans hreply'⟩
    · -- a record that is lost in this turn is reported by the reply of the turn
      rcases mem_map.mp hmem with ⟨m, hm, heq⟩
      obtain ⟨rfl, hcall⟩ := Prod.mk.inj heq
      rcases map_eq_some_iff.mp hcall with ⟨⟨g, reply⟩, hwork, rfl⟩
      cases reply with
      | none => exact absurd rfl (hlost g none m hwork hm)
      | some e =>
        rcases h.marked i g (hmarker g (some e) hwork).1 with ⟨c, hc, _⟩
        refine ⟨c.answer i (some e), i, e, ?_, update_self ..⟩
        simp [RouterState.apply, answerCall, hwork, hc]

variable {r : IngestRecord}

section

variable (h : Barrier s) (hrun : (s.workers i).status = .running)

include h hrun

theorem Barrier.takeRecord {queue : List Message}
    (hqueue : (s.workers i).queue = .record n r :: queue) {env : PutEnv} {p : PutResult}
    (hp : putRecord env n r (s.workers i).sessions = p) :
    Barrier (s.apply i {
      worker := { s.workers i with
        queue := queue, sessions := p.sessions, status := statusAfter p.err }
      put := if p.put then [n] else []
      flushed := p.flushed
      lost := p.lost
      err := p.err }) := by
  have hordered := h.ordered i
  rw [hqueue, pairwise_cons] at hordered
  refine h.apply (hqueue ▸ suffix_cons _ _) ?_ hrun ?_ nofun nofun nofun
  · dsimp only
    split
    · exact .inr ⟨n, r, rfl, hqueue ▸ mem_cons_self, fun m r' hm => hordered.1 _ hm⟩
    · exact .inl rfl
  · dsimp only
    cases herr : p.err with
    | some e => exact .inl ⟨e, rfl⟩
    | none =>
      right
      subst hp
      have hput := putRecord_ok herr
      intro m rm hrm hshard hold
      rw [hput.1, if_pos rfl]
      rcases hold with hmem | ⟨hmem, hbuffered⟩
      · rcases mem_cons.mp (hqueue ▸ hmem) with heq | hmem
        · obtain ⟨rfl, rfl⟩ := Message.record.inj heq
          exact .inr ⟨mem_append_right _ (mem_singleton_self _),
            (hput.2 m (.inl rfl)).imp_right .inl⟩
        · exact .inl hmem
      · exact .inr ⟨mem_append_left _ hmem, (hput.2 m (.inr hbuffered)).imp_right .inl⟩

theorem Barrier.takeMarker {queue : List Message} (hqueue : (s.workers i).queue = .flush f :: queue)
    {order : RangeOrder} {outcome : GoString → FlushOutcome} {p : Pass}
    (hp : flushWorkerSessions order outcome (s.workers i).sessions = p) :
    Barrier (s.apply i {
      worker := { s.workers i with queue := queue, sessions := p.sessions }
      flushed := p.flushed
      lost := p.lost
      reply := some (f, p.err) }) := by
  have hordered := h.ordered i
  rw [hqueue, pairwise_cons] at hordered
  have hrecord : ∀ m r, .record m r ∈ (s.workers i).queue → .record m r ∈ queue := by simp [hqueue]
  refine h.apply (hqueue ▸ suffix_cons _ _) (.inl rfl) hrun (.inr ?_) ?_ ?_ ?_
  · rintro m rm hrm hshard (hmem | ⟨hmem, hbuffered⟩)
    · exact .inl (hrecord m rm hmem)
    · refine .inr ⟨mem_append_left _ hmem, ?_⟩
      have hcovers : p.Covers m := hp ▸ visitSessions_covers _ _ (.inl hbuffered)
      rcases hcovers with hbuffered | hflushed | hlost
      · exact .inr (.inl hbuffered)
      · exact .inl hflushed
      · exact .inr (.inr ⟨f, mem_append_right _ (mem_map.mpr ⟨m, hlost, rfl⟩)⟩)
  · intro g reply hreply
    obtain ⟨rfl, -⟩ := Prod.mk.inj (some.inj hreply)
    exact ⟨hqueue ▸ mem_cons_self, fun hmem => hordered.1 _ hmem rfl⟩
  · intro g hreply n r hn hr hshard
    obtain ⟨rfl, herr⟩ := Prod.mk.inj (some.inj hreply)
    have hok : p.failed = false := by simpa [Pass.err] using herr
    have hkept := h.kept n r hr
    rw [hshard] at hkept
    rcases hkept with hmem | ⟨e, he⟩ | ⟨hmem, hflushed | hbuffered | hlost⟩
    · -- the marker stands before the record, so the record was accepted after the call
      exact absurd (hordered.1 _ (hrecord n r hmem)) (Nat.not_le_of_lt hn)
    · cases hrun.symm.trans he
    · exact ⟨mem_append_left _ hmem, .inl (mem_append_left _ hflushed)⟩
    · exact ⟨mem_append_left _ hmem, .inl (mem_append_right _
        (flushed_of_not_failed (fun _ => by nofun) hp hok hbuffered))⟩
    · exact ⟨mem_append_left _ hmem, .inr (hlost.append _)⟩
  · intro g reply n hreply hn
    obtain ⟨rfl, rfl⟩ := Prod.mk.inj (some.inj hreply)
    subst hp
    rcases visitSessions_lost hn with hn | ⟨hfailed, _⟩
    · cases hn
    · exact ne_of_eq_of_ne (if_pos hfailed) (some_ne_none _)

theorem Barrier.pass {order : RangeOrder} {visit : GoString → Visit} {p : Pass}
    (hp : flushIdleSessions order visit (s.workers i).sessions = p) {work : Work}
    (hqueue : work.worker.queue = (s.workers i).queue) (hput : work.put = [])
    (hreply : work.reply = none) (hsessions : work.worker.sessions = p.sessions)
    (hflushed : work.flushed = p.flushed)
    (hstop : p.failed = true → ∃ e, work.worker.status = .stopped (some e)) :
    Barrier (s.apply i work) := by
  refine h.apply (hqueue ▸ suffix_rfl) (.inl hput) hrun ?_ (fun f reply hf => ?_)
    (fun f hf => ?_) (fun f reply n hf => ?_)
  · cases hfailed : p.failed with
    | true => exact .inl (hstop hfailed)
    | false =>
      right
      rintro m rm hrm hshard (hmem | ⟨hmem, hbuffered⟩)
      · exact .inl (hqueue ▸ hmem)
      · refine .inr ⟨mem_append_left _ hmem, ?_⟩
        have hcovers : p.Covers m := hp ▸ visitSessions_covers _ _ (.inl hbuffered)
        rcases hcovers with hbuffered | hmem | hlost
        · exact .inr (.inl (hsessions ▸ hbuffered))
        · exact .inl (hflushed ▸ hmem)
        · subst hp
          rcases visitSessions_lost hlost with hlost | ⟨htrue, _⟩
          · cases hlost
          · exact absurd (hfailed.symm.trans htrue) Bool.false_ne_true
  all_goals
    cases hreply.symm.trans hf

end

/-- A worker's turn keeps the account. -/
theorem Barrier.work (h : Barrier s) {turn : Turn} {work : Work}
    (hturn : workerTurn s.closed (s.workers i) turn = some work) : Barrier (s.apply i work) := by
  revert hturn
  fun_cases workerTurn s.closed (s.workers i) turn <;> rintro ⟨⟩
  next env order outcome hrun n r queue hqueue _ => exact h.takeRecord hrun hqueue rfl
  next env order outcome hrun f queue hqueue _ => exact h.takeMarker hrun hqueue rfl
  next order visit hrun p =>
    refine h.pass (p := p) hrun.1 rfl rfl rfl rfl rfl rfl fun hfailed => ⟨.flush, ?_⟩
    simp [Pass.err, hfailed, statusAfter]
  next order outcome hrun p =>
    refine h.pass (p := p) hrun.1 rfl rfl rfl rfl rfl rfl fun hfailed => ⟨.flush, ?_⟩
    simp [Pass.err, hfailed]

/-! ## The steps of the callers -/

theorem number_lt {α : Type} {l : List α} {a : α} (h : l[n]? = some a) : n < l.length :=
  (List.getElem?_eq_some_iff.mp h).1

/-- What is in a list stays in its place when something is added. -/
theorem getElem?_concat {α : Type} {l : List α} {a : α} (h : l[n]? = some a) (b : α) :
    (l ++ [b])[n]? = some a := by
  rwa [getElem?_append_left (number_lt h)]

variable {accepted : List IngestRecord} {workers : Fin cfg.shardCount → Worker}

theorem mem_queue_push {i j : Fin cfg.shardCount} {m m' : Message} :
    m ∈ (update workers i ((workers i).push m') j).queue ↔
      m ∈ (workers j).queue ∨ j = i ∧ m = m' := by
  by_cases hj : j = i <;> simp [hj, push]

/-- What a new worker has in common with the old one is unchanged. -/
theorem worker_update {α : Type} (g : Worker → α) {w : Worker} (hw : g w = g (workers i))
    (j : Fin cfg.shardCount) : g (update workers i w j) = g (workers j) := by
  rw [apply_update (fun _ => g), hw]
  exact congrFun (update_eq_self i _) j

theorem push_status (workers : Fin cfg.shardCount → Worker) (i j : Fin cfg.shardCount)
    (m : Message) :
    (update workers i ((workers i).push m) j).status = (workers j).status ∧
      (update workers i ((workers i).push m) j).sessions = (workers j).sessions :=
  ⟨worker_update status (by rfl) j, worker_update sessions (by rfl) j⟩

/-- A channel stays in order if the new message follows all that are in it. -/
theorem pairwise_push {before : ℕ → ℕ} (h : ∀ j, (workers j).queue.Pairwise (Follows before))
    {m : Message} (hm : ∀ m' ∈ (workers i).queue, Follows before m' m) (j : Fin cfg.shardCount) :
    (update workers i ((workers i).push m) j).queue.Pairwise (Follows before) := by
  by_cases hj : j = i
  · subst hj
    rw [update_self]
    refine pairwise_append.mpr ⟨h j, pairwise_singleton _ _, fun m' hm' x hx => ?_⟩
    exact mem_singleton.mp hx ▸ hm m' hm'
  · simpa [hj] using h j

theorem accepted_of_lt {record r : IngestRecord} (hr : (accepted ++ [record])[n]? = some r)
    (hn : n < accepted.length) : accepted[n]? = some r := by
  rwa [getElem?_append_left hn] at hr

theorem Barrier.accept (h : Barrier s) (record : IngestRecord) (waiting : List IngestRecord) :
    Barrier { s.setWorker (cfg.shard record)
        ((s.workers (cfg.shard record)).push (.record s.accepted.length record)) with
      waiting := waiting
      accepted := s.accepted ++ [record] } := { h with
  routed j n r hm := by
    rcases mem_queue_push.mp hm with hm | ⟨rfl, heq⟩
    · exact ⟨getElem?_concat (h.routed j n r hm).1 record, (h.routed j n r hm).2⟩
    · obtain ⟨rfl, rfl⟩ := Message.record.inj heq
      exact ⟨getElem?_concat_length, rfl⟩
  marked j f hm := by
    rcases mem_queue_push.mp hm with hm | ⟨_, heq⟩
    · exact h.marked j f hm
    · cases heq
  ordered := by
    refine pairwise_push h.ordered fun m hm => ?_
    cases m with
    | record n r => exact number_lt (h.routed _ n r hm).1
    | flush f =>
      rcases h.marked _ f hm with ⟨c, hc, _⟩
      exact (acceptedBefore_eq hc).trans_le (h.calls c (mem_of_getElem? hc)).before_le
  put_accepted n hn := by
    rcases h.put_accepted n hn with ⟨r, hr, hlt⟩
    refine ⟨r, getElem?_concat hr record, fun m r' hm => ?_⟩
    rcases mem_queue_push.mp hm with hm | ⟨_, heq⟩
    · exact hlt m r' hm
    · obtain ⟨rfl, -⟩ := Message.record.inj heq
      exact number_lt hr
  put_ordered := by
    refine h.put_ordered.imp_of_mem fun {m n} hm hn hlt heq => hlt ?_
    rcases h.put_accepted m hm with ⟨rm, hrm, _⟩
    rcases h.put_accepted n hn with ⟨rn, hrn, _⟩
    rwa [getElem?_concat hrm, getElem?_concat hrn, ← hrm, ← hrn] at heq
  kept n r hr := by
    have hsame := push_status s.workers (cfg.shard record) (cfg.shard r)
      (.record s.accepted.length record)
    simp only [setWorker, hsame.1, hsame.2, mem_queue_push]
    rcases Nat.lt_or_ge n s.accepted.length with hlt | hge
    · exact (h.kept n r (accepted_of_lt hr hlt)).imp_left .inl
    have hlen := number_lt hr
    rw [length_append, length_singleton] at hlen
    obtain rfl : n = s.accepted.length := by omega
    rw [getElem?_concat_length] at hr
    cases hr
    exact .inl (.inr ⟨rfl, rfl⟩)
  calls c hc := (h.calls c hc).mono (by rw [length_append]; exact Nat.le_add_right _ _)
  answered c hc i hreply n r hn hr hi :=
    h.answered c hc i hreply n r hn
      (accepted_of_lt hr (Nat.lt_of_lt_of_le hn (h.calls c hc).before_le)) hi }

theorem before_setFlush
    (c' : FlushCall cfg.shardCount) (hc : s.flushes[f]? = some c) (hbefore : c'.before = c.before) :
    acceptedBefore (s.setFlush f c').flushes = acceptedBefore s.flushes := by
  funext g
  unfold acceptedBefore setFlush
  by_cases hg : f = g
  · subst hg
    simp [getElem?_set_self (number_lt hc), hc, hbefore]
  · rw [getElem?_set_ne hg]

theorem getElem?_setFlush {f g : ℕ} {c d : FlushCall cfg.shardCount}
    (c' : FlushCall cfg.shardCount) (hc : s.flushes[f]? = some c) (hd : s.flushes[g]? = some d) :
    (s.setFlush f c').flushes[g]? = some d ∨
      g = f ∧ d = c ∧ (s.setFlush f c').flushes[g]? = some c' := by
  by_cases hg : f = g
  · subst hg
    exact .inr ⟨rfl, some.inj (hd.symm.trans hc),
      getElem?_set_self (number_lt hc)⟩
  · exact .inl (by rwa [setFlush, getElem?_set_ne hg])

section

variable (h : Barrier s)

include h

/-- A call goes on and has nothing more to send than before. -/
theorem Barrier.setFlush
    {c c' : FlushCall cfg.shardCount} (hc : s.flushes[f]? = some c) (hbefore : c'.before = c.before)
    (hunsent : c'.unsent ⊆ c.unsent) (hreplies : c'.replies = c.replies)
    (hok : CallOk s.accepted.length c') : Barrier (s.setFlush f c') := { h with
  marked j g hm := by
    rcases h.marked j g hm with ⟨d, hd, hnone, hsent⟩
    rcases getElem?_setFlush c' hc hd with hd | ⟨rfl, rfl, hd⟩
    · exact ⟨d, hd, hnone, hsent⟩
    · exact ⟨c', hd, hreplies ▸ hnone, fun hj => hsent (hunsent hj)⟩
  ordered j := by
    rw [before_setFlush c' hc hbefore]
    exact h.ordered j
  calls d hd := by
    rcases mem_or_eq_of_mem_set hd with hd | rfl
    · exact h.calls d hd
    · exact hok
  answered d hd i hreply n r hn hr hi := by
    rcases mem_or_eq_of_mem_set hd with hd | rfl
    · exact h.answered d hd i hreply n r hn hr hi
    · exact h.answered c (mem_of_getElem? hc) i (hreplies ▸ hreply) n r (hbefore ▸ hn) hr hi
  reported n g hlost := by
    rcases h.reported n g hlost with ⟨d, j, e, hd, hreply⟩
    rcases getElem?_setFlush c' hc hd with hd | ⟨rfl, rfl, hd⟩
    · exact ⟨d, j, e, hd, hreply⟩
    · exact ⟨c', j, e, hd, by rw [hreplies]; exact hreply⟩ }

/-- A marker is sent to a worker that has not had it. -/
theorem Barrier.pushMarker (hc : s.flushes[f]? = some c) (hnone : c.replies i = none)
    (hsent : i ∉ c.unsent) (hnew : .flush f ∉ (s.workers i).queue) :
    Barrier (s.setWorker i ((s.workers i).push (.flush f))) := by
  have hrecord : ∀ j n r,
      .record n r ∈ (update s.workers i ((s.workers i).push (.flush f)) j).queue ↔
        .record n r ∈ (s.workers j).queue := fun j n r => by simp [mem_queue_push]
  exact { h with
    routed j n r hm := h.routed j n r ((hrecord j n r).mp hm)
    marked j g hm := by
      rcases mem_queue_push.mp hm with hm | ⟨rfl, heq⟩
      · exact h.marked j g hm
      · obtain rfl := Message.flush.inj heq
        exact ⟨c, hc, hnone, hsent⟩
    ordered := by
      refine pairwise_push h.ordered fun m hm => ?_
      cases m with
      | record n r => trivial
      | flush g =>
        rintro rfl
        exact hnew hm
    put_accepted n hn := by
      rcases h.put_accepted n hn with ⟨r, hr, hlt⟩
      exact ⟨r, hr, fun m r' hm => hlt m r' ((hrecord _ m r').mp hm)⟩
    kept n r hr := by
      have hsame := push_status s.workers i (cfg.shard r) (.flush f)
      simp only [setWorker, hsame.1, hsame.2, hrecord]
      exact h.kept n r hr }

theorem Barrier.mark (hc : s.flushes[f]? = some c) (hresult : c.result = none)
    {unsent : List (Fin cfg.shardCount)} (hunsent : c.unsent = i :: unsent) :
    Barrier ((s.setWorker i ((s.workers i).push (.flush f))).setFlush f
      { c with unsent := unsent, awaited := c.awaited ++ [i] }) := by
  have hok := h.calls c (mem_of_getElem? hc)
  have hi : i ∈ c.unsent := hunsent ▸ mem_cons_self
  have hsub : unsent ⊆ c.unsent := hunsent ▸ subset_cons_self _ _
  have hnodup := hok.unsent_nodup
  rw [hunsent, nodup_cons] at hnodup
  have hset : Barrier (s.setFlush f { c with unsent := unsent, awaited := c.awaited ++ [i] }) := by
    refine h.setFlush hc rfl hsub rfl ⟨hok.before_le, hnodup.2, fun j hj => ?_, fun j => ?_, ?_⟩
    · exact hok.unanswered j (hsub hj)
    · rcases hok.received j with hj | hj | hj
      · rcases mem_cons.mp (hunsent ▸ hj) with rfl | hj
        · exact .inr (.inl (mem_append_right _ (mem_singleton_self _)))
        · exact .inl hj
      · exact .inr (.inl (mem_append_left _ hj))
      · exact .inr (.inr hj)
    · simp [hresult]
  refine hset.pushMarker (getElem?_set_self (number_lt hc))
    (hok.unanswered i hi) hnodup.1 fun hm => ?_
  rcases h.marked i f hm with ⟨d, hd, _, hsent⟩
  obtain rfl := some.inj (hc.symm.trans hd)
  exact hsent hi

theorem Barrier.call (cancellable : Bool)
    {order : List (Fin cfg.shardCount)} (horder : order.Perm (finRange cfg.shardCount)) :
    Barrier { s with
      flushes := s.flushes ++
        [{ before := s.accepted.length, cancellable := cancellable, unsent := order }] } := { h with
  marked j f hm := by
    rcases h.marked j f hm with ⟨c, hc, hrest⟩
    exact ⟨c, getElem?_concat hc _, hrest⟩
  ordered j := by
    refine (h.ordered j).imp_of_mem fun {m m'} hm hm' hfollows => ?_
    cases m with
    | record n r => cases m' <;> exact hfollows
    | flush f =>
      cases m' with
      | flush g => exact hfollows
      | record n r =>
        rcases h.marked j f hm with ⟨c, hc, _⟩
        exact (acceptedBefore_eq (getElem?_concat hc _)).trans_le
          ((acceptedBefore_eq hc).ge.trans hfollows)
  calls c hc := by
    rcases mem_append.mp hc with hc | hc
    · exact h.calls c hc
    obtain rfl := mem_singleton.mp hc
    exact {
      before_le := Nat.le_refl _
      unsent_nodup := horder.nodup_iff.mpr (nodup_finRange _)
      unanswered _ _ := rfl
      received i := .inl (horder.mem_iff.mpr (mem_finRange i))
      returned hresult := by cases hresult }
  answered c hc i hreply n r hn hr hi := by
    rcases mem_append.mp hc with hc | hc
    · exact h.answered c hc i hreply n r hn hr hi
    · obtain rfl := mem_singleton.mp hc
      cases hreply
  reported n f hlost := by
    rcases h.reported n f hlost with ⟨c, i, e, hc, hreply⟩
    exact ⟨c, i, e, getElem?_concat hc _, hreply⟩ }

theorem Barrier.receive (hc : s.flushes[f]? = some c)
    {awaited : List (Fin cfg.shardCount)} {reply : Option RouterError} (hunsent : c.unsent = [])
    (hawaited : c.awaited = i :: awaited) (hreply : c.replies i = some reply) :
    Barrier (s.setFlush f { c with
      awaited := awaited
      firstErr := c.firstErr.or reply
      result := if awaited = [] then some (c.firstErr.or reply) else none }) := by
  have hok := h.calls c (mem_of_getElem? hc)
  refine h.setFlush hc rfl (fun _ hj => hj) rfl ⟨hok.before_le, hok.unsent_nodup, hok.unanswered,
    fun j => ?_, fun hnil => ?_⟩
  · rcases hok.received j with hj | hj | ⟨old, hold, herr⟩
    · exact .inl hj
    · rcases mem_cons.mp (hawaited ▸ hj) with rfl | hj
      · refine .inr (.inr ⟨reply, hreply, ?_⟩)
        cases reply <;> simp
      · exact .inr (.inl hj)
    · exact .inr (.inr ⟨old, hold, herr.imp_right fun hne => by simp [hne]⟩)
  · dsimp only at hnil ⊢
    split at hnil
    next hlast => exact ⟨hunsent, hlast, some.inj hnil⟩
    · cases hnil

theorem Barrier.cancel (hc : s.flushes[f]? = some c) :
    Barrier (s.setFlush f { c with result := some (some .context) }) := by
  have hok := h.calls c (mem_of_getElem? hc)
  exact h.setFlush hc rfl (fun _ hj => hj) rfl { hok with returned := nofun }

end

theorem tick_worker (workers : Fin cfg.shardCount → Worker) (i j : Fin cfg.shardCount) :
    (update workers i { workers i with ticked := true } j).queue = (workers j).queue ∧
      (update workers i { workers i with ticked := true } j).status = (workers j).status ∧
      (update workers i { workers i with ticked := true } j).sessions =
        (workers j).sessions :=
  ⟨worker_update queue (by rfl) j, worker_update status (by rfl) j,
    worker_update sessions (by rfl) j⟩

theorem Barrier.tick (h : Barrier s) (i : Fin cfg.shardCount) :
    Barrier (s.setWorker i { s.workers i with ticked := true }) := { h with
  routed j n r hm := h.routed j n r ((tick_worker s.workers i j).1 ▸ hm)
  marked j f hm := h.marked j f ((tick_worker s.workers i j).1 ▸ hm)
  ordered j := by
    simp only [setWorker, (tick_worker s.workers i j).1]
    exact h.ordered j
  put_accepted n hn := by
    rcases h.put_accepted n hn with ⟨r, hr, hlt⟩
    exact ⟨r, hr, fun m r' hm => hlt m r' ((tick_worker s.workers i _).1 ▸ hm)⟩
  kept n r hr := by
    simp only [setWorker, tick_worker s.workers i]
    exact h.kept n r hr }

theorem Barrier.step (h : Barrier s) (e : RouterEvent cfg) : Barrier (routerStep s e) := by
  unfold routerStep
  cases hstep : routerStep? s e with
  | none => exact h
  | some s' =>
    cases steps_of_routerStep? hstep with
    | enqueue record hrecord | sendClosed caller record hrecord hclosed => exact { h with }
    | send caller record hrecord hopen hroom => exact h.accept record _
    | flush cancellable order horder => exact h.call cancellable horder
    | markClosed f c i unsent hc hresult hunsent hclosed => exact { h with }
    | mark f c i unsent hc hresult hunsent hopen hroom => exact h.mark hc hresult hunsent
    | receive f c i awaited reply hc hresult hunsent hawaited hreply =>
      exact h.receive hc hunsent hawaited hreply
    | cancel f c hc hresult hcancel => exact h.cancel hc
    | close | closeReturn hclosing hstopped => exact { h with }
    | tick i hrun => exact h.tick i
    | work i turn work hturn => exact h.work hturn

end Router
end QuantaStream.Core
