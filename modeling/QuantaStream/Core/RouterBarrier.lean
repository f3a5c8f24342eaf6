import QuantaStream.Core.RouterRecords

/-!
# A flush of the router is a barrier

A worker that replies to a marker without an error has put and flushed all records that were accepted
before the call, except those that an earlier flush has lost.  So a flush is a barrier as long as no
flush that was asked for loses a buffer.
-/

namespace QuantaStream.Core
namespace Router

open GoString Option Run

variable {cfg : RouterConfig}

/-- A flush that was asked for loses no buffer: at the marker of a call the backend takes the batch
buffer of every session that has records. -/
def KeepsBuffers (s : RouterState cfg) : RouterEvent cfg → Prop
  | .work i (.take _ _ outcome) =>
    ∀ f queue, (s.workers i).queue = .flush f :: queue → ∀ table buffered,
      (s.workers i).sessions.lookup table = some buffered → buffered ≠ [] →
      outcome table ≠ .batchFailed
  | _ => True

variable {s : RouterState cfg}

/-- A turn of a worker loses no record to a flush that was asked for. -/
theorem lost_of_keepsBuffers {i : Fin cfg.shardCount} {turn : Turn}
    (hkeep : KeepsBuffers s (.work i turn)) {work : Work}
    (hturn : workerTurn s.closed (s.workers i) turn = some work) {n f : ℕ}
    (hlost : (n, some f) ∈ (s.apply i work).lost) : (n, some f) ∈ s.lost := by
  rw [lost_apply, List.mem_append] at hlost
  rcases hlost with hlost | hlost
  · exact hlost
  exfalso
  rcases List.mem_map.mp hlost with ⟨m, hm, heq⟩
  rcases map_eq_some_iff.mp (Prod.mk.inj heq).2 with ⟨reply, hreply, _⟩
  revert hturn
  fun_cases workerTurn s.closed (s.workers i) turn <;> rintro ⟨⟩
  next => cases hreply
  next env order outcome _ g queue hqueue _ =>
    rcases visitSessions_lost hm with hm | ⟨_, table, buffered, hlookup, hmem, hfails⟩
    · cases hm
    · exact hkeep g queue hqueue table buffered hlookup (List.ne_nil_of_mem hmem)
        (some.inj hfails)
  all_goals cases hreply

theorem nothing_lost_step {e : RouterEvent cfg} (hkeep : KeepsBuffers s e)
    (h : ∀ n, ¬ LostByFlush s.lost n) (n : ℕ) : ¬ LostByFlush (routerStep s e).lost n := by
  unfold routerStep
  cases hstep : routerStep? s e with
  | none => exact h n
  | some s' =>
    rintro ⟨f, hlost⟩
    refine h n ⟨f, ?_⟩
    cases steps_of_routerStep? hstep with
    | work i turn work hturn => exact lost_of_keepsBuffers hkeep hturn hlost
    | _ => exact hlost

/-! ## The barrier -/

def RouterState.routeKey (s : RouterState cfg) (n : ℕ) : Option GoString :=
  s.accepted[n]?.map IngestRecord.routeShardKey

/-- Every record that was accepted before a call of `Flush` that returned no error is put, and
flushed or lost by a flush that was asked for. -/
theorem Barrier.done (h : Barrier s) {c : FlushCall cfg.shardCount} (hc : c ∈ s.flushes)
    (hresult : c.result = some none) {n : ℕ} (hn : n < c.before) :
    Done s.put s.flushed s.lost n := by
  have hok := h.calls c hc
  have hlt : n < s.accepted.length := Nat.lt_of_lt_of_le hn hok.before_le
  exact h.answered c hc _ (hok.replies_of_returned hresult _) n _ hn
    (List.getElem?_eq_getElem hlt) rfl

/-- Records with one route key are put in the order of their numbers. -/
theorem Barrier.in_order (h : Barrier s) :
    s.put.Pairwise fun m n => s.routeKey m = s.routeKey n → m < n := by
  refine h.put_ordered.imp_of_mem fun {m n} hm hn hlt heq => hlt ?_
  rcases h.put_accepted m hm with ⟨rm, hrm, _⟩
  rcases h.put_accepted n hn with ⟨rn, hrn, _⟩
  unfold RouterState.routeKey at heq
  rw [hrm, hrn, map_some, map_some] at heq
  rw [hrm, hrn, map_some, map_some]
  exact congrArg (some ∘ cfg.shardOf) (some.inj heq)

/-- In every run in which no flush that was asked for loses a buffer: when a call of `Flush` has
returned no error, every record accepted before the call is put and flushed, and records with one
route key are put in the order of their `Enqueue`. -/
theorem flush_is_barrier (cfg : RouterConfig) (es : List (RouterEvent cfg))
    (hes : Meets routerStep KeepsBuffers (newRouter cfg) es) :
    (∀ c ∈ (exec routerStep (newRouter cfg) es).flushes, c.result = some none →
      ∀ n < c.before, n ∈ (exec routerStep (newRouter cfg) es).put ∧
        n ∈ (exec routerStep (newRouter cfg) es).flushed) ∧
      (exec routerStep (newRouter cfg) es).put.Pairwise fun m n =>
        (exec routerStep (newRouter cfg) es).routeKey m =
          (exec routerStep (newRouter cfg) es).routeKey n → m < n := by
  have hinv := exec_induction routerStep
    (I := fun s => Barrier s ∧ ∀ n, ¬ LostByFlush s.lost n)
    (fun s e hs he => ⟨hs.1.step e, nothing_lost_step he hs.2⟩)
    ⟨barrier_new cfg, fun n hlost => by cases hlost.choose_spec⟩ hes
  refine ⟨fun c hc hresult n hn => ?_, hinv.1.in_order⟩
  have hdone := hinv.1.done hc hresult hn
  exact ⟨hdone.1, hdone.2.resolve_right (hinv.2 n)⟩

/-- A record is put, and a flush and a second one are asked for; the first ends this way. -/
def twoFlushes (first : FlushOutcome) : List (RouterEvent oneWorker) :=
  [.enqueue orderRecord, .send 0, .work onlyWorker (.take {} .asKept fun _ => .ok),
    .flush false [onlyWorker], .flushSend 0,
    .work onlyWorker (.take {} .asKept fun _ => first), .flushReceive 0,
    .flush false [onlyWorker], .flushSend 1,
    .work onlyWorker (.take {} .asKept fun _ => .ok), .flushReceive 1]

/-- Two flushes without a failure. -/
theorem two_flushes_deliver :
    Meets routerStep KeepsBuffers (newRouter oneWorker) (twoFlushes .indexFailed) ∧
      (0 ∈ (exec routerStep (newRouter oneWorker) (twoFlushes .indexFailed)).put ∧
        0 ∈ (exec routerStep (newRouter oneWorker) (twoFlushes .indexFailed)).flushed) := by
  have hreturned : ∃ c ∈ (exec routerStep (newRouter oneWorker)
      (twoFlushes .indexFailed)).flushes, c.result = some none ∧ 0 < c.before := by decide
  rcases hreturned with ⟨c, hc, hresult, hbefore⟩
  refine ⟨?meets, (flush_is_barrier oneWorker _ ?meets).1 c hc hresult 0 hbefore⟩
  refine ⟨trivial, trivial, ?_, trivial, trivial, ?_, trivial, trivial, trivial, ?_, trivial,
    trivial⟩ <;> exact fun _ _ _ _ _ _ _ => by simp

/-- The first flush fails at the backend and says so; the second returns no error, and the record is
flushed by neither. -/
theorem second_flush_hides_loss :
    ∃ c ∈ (exec routerStep (newRouter oneWorker) (twoFlushes .batchFailed)).flushes,
      c.result = some none ∧ 0 < c.before ∧
        0 ∉ (exec routerStep (newRouter oneWorker) (twoFlushes .batchFailed)).flushed := by
  decide

end Router
end QuantaStream.Core
