import LowLatencyKv.Concurrency.Isolation
import LowLatencyKv.Server.Drain
import LowLatencyKv.Store.Safety

/-! # Calls on their own, and the first panic

Calls do not notice each other. A lookup that panics ends the process, so a run is
one up to the first panic. That can only come from a store whose records do not all
lie in its file, and no call that stands in front of one counts as a request or an error.
-/

namespace LowLatencyKv

open Rust Concurrency

variable {Fn : Type} {ph : Ph Fn} {store : KvStore Fn} {S : ℕ → Bool}

theorem depends_store : (kvService ph).Depends KvServiceImpl.store where
  keeps _ _ _ _ he := Op.exec_store he
  exec op s t x s' hv he := by
    cases op with
    | load =>
      cases he
      refine ⟨t, ?_⟩
      change some (t.store, t) = some (s.store, t)
      rw [hv]
    | get store key => exact ⟨t, Op.exec_get (Op.get_of_exec he)⟩
    | _ => exact ⟨_, rfl⟩
  act _ _ _ _ := rfl

section Run

variable {tr : List (KvEvent Fn)}
  {p : Pool (Op Fn) Op.Ans (KvServiceImpl Fn) (Except Status Response)}
  (hr : Run (kvService ph).Step ⟨.new store .new, []⟩ tr p)

include hr

/-- Every run splits into a run in which only the chosen calls go on and one in which only the
others do: each call fares as before, and the counters are the sums. -/
theorem calls_independent (S : ℕ → Bool) : ∃ q q',
    Run (kvService ph).Step ⟨.new store .new, []⟩ (tr.filter (Event.runsIn S)) q ∧
      Run (kvService ph).Step ⟨.new store .new, []⟩
        (tr.filter (Event.runsIn fun id => !S id)) q' ∧
      (∀ id, p.calls[id]? = if S id then q.calls[id]? else q'.calls[id]?) ∧
      q.shared.store = p.shared.store ∧ q'.shared.store = p.shared.store ∧
      ∀ c, p.shared.metrics.read c = q.shared.metrics.read c + q'.shared.metrics.read c := by
  obtain ⟨q, hq, ha⟩ := Service.exists_run_runsIn depends_store hr S
  obtain ⟨q', hq', ha'⟩ := Service.exists_run_runsIn depends_store hr fun id => !S id
  refine ⟨q, q', hq, hq', fun id => ?_, ha.view_eq.symm, ha'.view_eq.symm, fun c => ?_⟩
  · split
    · next hS => exact ha.calls id hS
    · next hS => exact ha'.calls id (by simpa using hS)
  · rw [read_of_run hr, read_of_run hq, read_of_run hq', ← total_runsIn]

theorem read_of_settled {c : Counter} (hc : c ∈ [Counter.requests, .errors])
    (hp : ∀ t, .running t ∈ p.calls → ∃ s key next, t = Thread.ask (Op.get s key) next) :
    p.shared.metrics.read c = total (Event.retWeight c.ofResult) tr := by
  rw [read_eq_sum hr, Service.total_eq_sum hr fun _ => rfl]
  refine Finset.sum_congr rfl fun id hid => ?_
  have hlt := Finset.mem_range.mp hid
  have hcall := List.getElem?_eq_getElem hlt
  generalize p.calls[id] = call at hcall
  cases call with
  | running t =>
    obtain ⟨s, key, next, rfl⟩ := hp t (List.mem_of_getElem? hcall)
    obtain ⟨req, _, hpath⟩ := Service.exists_call_of_running hr hcall
    obtain ⟨hready, _⟩ := (KvServiceImpl.asks_handle req).path hpath
    obtain ⟨_, h₀⟩ := hready s key rfl
    rw [Service.total_ret_of_running hr hcall]
    exact h₀ c hc
  | returned r => exact ofResult_of_returned hr hc hcall

end Run

/-- One call is refused while another one is answered. -/
def twoCallsRun : List (KvEvent (List Key)) :=
  [.call 0 (.get (flatRecord 1).key.toList), .step 0 ⟨.load, flatStore 1⟩, .call 1 (.get []),
    .step 1 ⟨.incrementErrors, ()⟩,
    .step 0 ⟨.get (flatStore 1) (flatRecord 1).key, some (flatRecord 1).value⟩,
    .ret 1 (.error (.invalidArgument "Key must be exactly 64 bytes, got 0")),
    .step 0 ⟨.incrementHits, ()⟩, .step 0 ⟨.recordLatency, ()⟩, .step 0 ⟨.incrementRequests, ()⟩,
    .ret 0 (.ok (.get (.ofLookup (some (flatRecord 1).value))))]

set_option maxRecDepth 4000 in
theorem run_twoCallsRun : ∃ p,
    Run (kvService listIndex).Step ⟨.new (flatStore 1) .new, []⟩ twoCallsRun p ∧
      p.shared.metrics = ⟨1, 1, 0, 1, 1⟩ ∧
      p.calls[0]? = some (.returned (.ok (.get (.ofLookup (some (flatRecord 1).value))))) ∧
      p.calls[1]? = some (.returned
        (.error (.invalidArgument "Key must be exactly 64 bytes, got 0"))) := by
  have hget (s) := exec_get_flatStore 1 s
  exact ⟨_, (((((((((Run.nil.snoc (.call _)).snoc (.step rfl rfl)).snoc (.call _)).snoc
    (.step rfl rfl)).snoc (.step rfl (hget _))).snoc (.ret rfl)).snoc (.step rfl rfl)).snoc
    (.step rfl rfl)).snoc (.step rfl rfl)).snoc (.ret rfl), rfl, rfl, rfl⟩

theorem calls_independent_twoCallsRun : ∃ q q',
    Run (kvService listIndex).Step ⟨.new (flatStore 1) .new, []⟩
      (twoCallsRun.filter (Event.runsIn fun id => id = 0)) q ∧
    Run (kvService listIndex).Step ⟨.new (flatStore 1) .new, []⟩
      (twoCallsRun.filter (Event.runsIn fun id => !decide (id = 0))) q' ∧
    q.calls[0]? = some (.returned (.ok (.get (.ofLookup (some (flatRecord 1).value))))) ∧
    q'.calls[1]? = some (.returned
      (.error (.invalidArgument "Key must be exactly 64 bytes, got 0"))) ∧
    q.shared.store = flatStore 1 ∧ q'.shared.store = flatStore 1 ∧
    q.shared.metrics.read .requests + q'.shared.metrics.read .requests = 1 ∧
    q.shared.metrics.read .errors + q'.shared.metrics.read .errors = 1 := by
  obtain ⟨p, hp, hm, h₀, h₁⟩ := run_twoCallsRun
  have hstore : p.shared.store = flatStore 1 := by
    have h := store_of_run hp
    exact (Option.some.inj h).symm
  obtain ⟨q, q', hq, hq', hcalls, hs, hs', hsum⟩ := calls_independent hp fun id => id = 0
  refine ⟨q, q', hq, hq', ?_, ?_, hs.trans hstore, hs'.trans hstore, ?_, ?_⟩
  · rw [← h₀, hcalls 0]
    rfl
  · rw [← h₁, hcalls 1]
    rfl
  · rw [← hsum, hm]
    rfl
  · rw [← hsum, hm]
    rfl

section Server

variable {registry : Registry} {tr : List (ServerEvent Fn)} {p : ServerPool Fn}

/-- A call of the server stands at a lookup that panics. -/
def PanicsIn (ph : Ph Fn) (s : KvStore Fn) :
    Call (Op Fn ⊕ ProbeOp) (Sum.elim Op.Ans (ProbeOp.Ans Fn))
      (Except Status Response ⊕ ProbeResponse) → Prop
  | .running (.ask (.inl (.get store key)) _) => store = s ∧ store.get ph key = .panic
  | _ => False

theorem counters_of_settled (hr : Run (server ph registry).Step ⟨.new store .new, []⟩ tr p)
    (hp : (server ph registry).AllSettled p) :
    p.shared.metrics.requestsTotal = tr.countP Reply.answered ∧
      p.shared.metrics.errorsTotal = tr.countP Reply.refused := by
  obtain ⟨q, cs, hq, he⟩ := Service.exists_run_left (probeService_readsOnly registry) hr
  have hstop (t) (ht : .running t ∈ q.calls) : ∃ s key next,
      t = Thread.ask (Op.get s key) next := by
    rcases hp _ (he.mem_calls ht) with ⟨r, hret⟩ | ⟨op, next, hrun, hnone⟩
    · cases hret
    · obtain ⟨s, key, rfl, _⟩ := server_exec_eq_none_iff.mp hnone
      cases t with
      | done r => cases hrun
      | ask op' next' =>
        cases hrun
        exact ⟨s, key, next', rfl⟩
  have hreq := read_of_settled hq (c := .requests) (by decide) hstop
  have herr := read_of_settled hq (c := .errors) (by decide) hstop
  rw [total_ofResult_requests, Reply.countP_answered, he.shared] at hreq
  rw [total_ofResult_errors, Reply.countP_refused, he.shared] at herr
  exact ⟨hreq, herr⟩

theorem of_panicsIn (hr : Run (server ph registry).Step ⟨.new store .new, []⟩ tr p)
    {c : Call (Op Fn ⊕ ProbeOp) (Sum.elim Op.Ans (ProbeOp.Ans Fn))
      (Except Status Response ⊕ ProbeResponse)} {s : KvStore Fn} (hc : c ∈ p.calls)
    (h : PanicsIn ph s c) : (s = store ∨ .act s ∈ tr) ∧ ¬ s.InBounds := by
  unfold PanicsIn at h
  split at h
  · next s' key next =>
    obtain ⟨rfl, hpanic⟩ := h
    obtain ⟨id, hid⟩ := List.mem_iff_getElem?.mp hc
    refine ⟨?_, fun hb => ?_⟩
    · exact of_asked (P := fun s => s = store ∨ .act s ∈ tr) hr (Or.inl rfl)
        (fun x hx => Or.inr hx) hid
    · have hok := (KvStore.get_eq hb key).symm.trans hpanic
      cases hok
  · exact h.elim

/-- Over any stores, calls can only panic at an installed store that can not be read in bounds, and
without a panic they can go on until each has returned or is about to panic. By then the requests
and errors are those that returned. -/
theorem first_panic (hr : Run (server ph registry).Step ⟨.new store .new, []⟩ tr p) :
    (∀ c ∈ p.calls, ∀ s, PanicsIn ph s c → (s = store ∨ .act s ∈ tr) ∧ ¬ s.InBounds) ∧
      ∃ tr' p', Service.Continues (server ph registry) (.new store .new) tr p tr' p' ∧
        (∀ c ∈ p'.calls, (∃ r, c = .returned r) ∨ ∃ s, PanicsIn ph s c) ∧
        p'.shared.metrics.requestsTotal = (tr ++ tr').countP Reply.answered ∧
        p'.shared.metrics.errorsTotal = (tr ++ tr').countP Reply.refused := by
  refine ⟨fun c hc s h => of_panicsIn hr hc h, ?_⟩
  obtain ⟨tr', p', hc, hsettled⟩ := Service.exists_all_settled uniform_server hr
  refine ⟨tr', p', hc, fun c hm => ?_, counters_of_settled hc.run hsettled⟩
  rcases hsettled c hm with hret | ⟨op, next, rfl, hnone⟩
  · exact Or.inl hret
  · obtain ⟨s, key, rfl, hpanic⟩ := server_exec_eq_none_iff.mp hnone
    exact Or.inr ⟨s, rfl, hpanic⟩

end Server

/-- The second call is refused while the first one stands at its lookup. -/
def lookupRun (s : KvStore (List Key)) : List (ServerEvent (List Key)) :=
  [.call 0 (.inl (.get zeroKey.toList)), .step 0 ⟨.inl .load, s⟩, .call 1 (.inl (.get [])),
    .step 1 ⟨.inl .incrementErrors, ()⟩,
    .ret 1 (.inl (.error (.invalidArgument "Key must be exactly 64 bytes, got 0")))]

theorem run_lookupRun (s : KvStore (List Key)) : ∃ p c next,
    Run (server listIndex lineRegistry).Step ⟨.new s .new, []⟩ (lookupRun s) p ∧
      p.calls[0]? = some c ∧ c = .running (.ask (.inl (.get s zeroKey)) next) := by
  exact ⟨_, _, _, ((((Run.nil.snoc (.call _)).snoc (.step rfl rfl)).snoc (.call _)).snoc
    (.step rfl rfl)).snoc (.ret rfl), rfl, rfl⟩

theorem exists_get_panic : ∃ s : KvStore (List Key), s.get listIndex zeroKey = .panic := by
  obtain ⟨s, _, hc, hd, hg, hl⟩ := exists_wrapped_oneFile
  have hr : s.getRecord 0 = .panic := KvStore.getRecord_of_gt (by omega)
  exact ⟨s, KvStore.get_of_getRecord_panic hg (by omega) hr⟩

theorem first_panic_lookupRun : ∃ s p, s.get listIndex zeroKey = .panic ∧
    Run (server listIndex lineRegistry).Step ⟨.new s .new, []⟩ (lookupRun s) p ∧
    (∃ c ∈ p.calls, PanicsIn listIndex s c) ∧ ¬ s.InBounds ∧
    ∃ tr' p', Service.Continues (server listIndex lineRegistry) (.new s .new) (lookupRun s) p
        tr' p' ∧
      (∀ c ∈ p'.calls, (∃ r, c = .returned r) ∨ ∃ s, PanicsIn listIndex s c) ∧
      p'.shared.metrics.requestsTotal = (lookupRun s ++ tr').countP Reply.answered ∧
      p'.shared.metrics.errorsTotal = (lookupRun s ++ tr').countP Reply.refused := by
  obtain ⟨s, hs⟩ := exists_get_panic
  obtain ⟨p, c, next, hp, hc, rfl⟩ := run_lookupRun s
  have hmem := List.mem_of_getElem? hc
  obtain ⟨hdamaged, hcontinues⟩ := first_panic hp
  exact ⟨s, p, hs, hp, ⟨_, hmem, rfl, hs⟩, (hdamaged _ hmem s ⟨rfl, hs⟩).2, hcontinues⟩

end LowLatencyKv
