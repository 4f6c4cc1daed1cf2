import Mathlib.Algebra.Order.BigOperators.Group.Finset
import LowLatencyKv.Concurrency.Atomic
import LowLatencyKv.Server.Server

/-! # What a scrape shows

The metrics endpoint reads its counters one after the other while calls go on.
Each value is one that the counter had during the scrape. It covers every call
that ended before the scrape, and is never below what an earlier scrape showed.
-/

namespace LowLatencyKv

open Rust Concurrency

variable {Fn : Type} {ph : Ph Fn} {store : KvStore Fn}

section Call

variable {h h' : List (Sigma (@Op.Ans Fn))} {req : Request} {r : Except Status Response}

theorem KvServiceImpl.total_of_returns (hr : (handle req).Returns h r) :
    total (Op.weight .requests) h = Counter.ofResult .requests r ∧
      total (Op.weight .errors) h = Counter.ofResult .errors r ∧
      total (Op.weight .latency) h + total (Op.weight .errors) h = 1 := by
  rcases r with status | resp
  · rw [total_of_handle_err hr (c := .requests) (by decide) (by decide),
      total_of_handle_err hr (c := .errors) (by decide) (by decide),
      total_of_handle_err hr (c := .latency) (by decide) (by decide)]
    exact ⟨rfl, rfl, rfl⟩
  · rw [total_of_handle hr, total_of_handle hr, total_of_handle hr]
    exact ⟨rfl, rfl, rfl⟩

theorem KvServiceImpl.total_le_of_path {t : Handler Fn (Except Status Response)}
    (store : KvStore Fn) (hp : (handle req).Path h t) :
    total (Op.weight .latency) h + total (Op.weight .errors) h ≤ 1 := by
  obtain ⟨h', r, hr⟩ := hp.exists_returns (Op.nonempty_ans store)
  obtain ⟨_, _, hone⟩ := total_of_returns hr
  rw [total_append, total_append] at hone
  omega

end Call

def Reply.isStart : KvEvent Fn → Bool
  | .call _ _ => true
  | _ => false

section Lookups

variable {tr : List (KvEvent Fn)} {id : ℕ}
  {p : Pool (Op Fn) Op.Ans (KvServiceImpl Fn) (Except Status Response)}
  (hr : Run (kvService ph).Step ⟨.new store .new, []⟩ tr p)

include hr

theorem length_calls_of_run : p.calls.length = tr.countP Reply.isStart := by
  induction hr with
  | nil => rfl
  | snoc _ hs ih =>
    rw [List.countP_append, ← ih]
    cases hs with
    | call _ => exact List.length_append
    | step _ _ => exact List.length_set
    | ret _ => exact List.length_set
    | act _ => rfl

theorem ofResult_of_returned {c : Counter} {r : Except Status Response}
    (hc : c ∈ [Counter.requests, .errors]) (hret : p.calls[id]? = some (.returned r)) :
    total (Op.weight c) (stepsOf id tr) =
      total (Event.retWeight c.ofResult) (tr.filter (Event.isOf id)) := by
  obtain ⟨req, hreturns, _⟩ := Service.exists_returns hr hret
  obtain ⟨hreq, herr, _⟩ := KvServiceImpl.total_of_returns hreturns
  rw [Service.total_ret_of_returned hr hret]
  rcases List.mem_pair.mp hc with rfl | rfl
  · exact hreq
  · exact herr

theorem ofResult_le_of_run {c : Counter} (hc : c ∈ [Counter.requests, .errors])
    (hid : id < p.calls.length) : total (Event.retWeight c.ofResult) (tr.filter (Event.isOf id)) ≤
      total (Op.weight c) (stepsOf id tr) := by
  have hcall := List.getElem?_eq_getElem hid
  generalize p.calls[id] = call at hcall
  cases call with
  | running t =>
    rw [Service.total_ret_of_running hr hcall]
    exact Nat.zero_le _
  | returned r => exact (ofResult_of_returned hr hc hcall).ge

theorem countP_le_of_run {c : Counter} (hc : c ∈ [Counter.requests, .errors]) :
    total (Event.retWeight c.ofResult) tr ≤ p.shared.metrics.read c := by
  rw [read_eq_sum hr, Service.total_eq_sum hr fun _ => rfl]
  exact Finset.sum_le_sum fun id hid => ofResult_le_of_run hr hc (Finset.mem_range.mp hid)

omit hr in
theorem total_ofResult_requests (tr : List (KvEvent Fn)) :
    total (Event.retWeight (Counter.ofResult .requests)) tr = tr.countP Reply.isOk :=
  total_eq_countP (by rintro (_ | _ | ⟨_, _ | _⟩ | _) <;> rfl)

omit hr in
theorem total_ofResult_errors (tr : List (KvEvent Fn)) :
    total (Event.retWeight (Counter.ofResult .errors)) tr = tr.countP Reply.isErr :=
  total_eq_countP (by rintro (_ | _ | ⟨_, _ | _⟩ | _) <;> rfl)

theorem counters_of_run : tr.countP Reply.isOk ≤ p.shared.metrics.read .requests ∧
    tr.countP Reply.isErr ≤ p.shared.metrics.read .errors ∧
    p.shared.metrics.read .requests + p.shared.metrics.read .errors ≤
      tr.countP Reply.isStart := by
  rw [← total_ofResult_requests, ← total_ofResult_errors]
  refine ⟨countP_le_of_run hr (by decide), countP_le_of_run hr (by decide), ?_⟩
  have hlat : p.shared.metrics.read .requests ≤ p.shared.metrics.read .latency := by
    have := latency_of_run hr
    simp only [Metrics.read]
    omega
  have hsum : p.shared.metrics.read .latency + p.shared.metrics.read .errors ≤
      p.calls.length := by
    rw [read_eq_sum hr, read_eq_sum hr, ← Finset.sum_add_distrib]
    refine (Finset.sum_le_card_nsmul _ _ 1 fun id hid => ?_).trans (by simp)
    obtain ⟨req, t, hp⟩ := Service.exists_path hr (Finset.mem_range.mp hid)
    exact KvServiceImpl.total_le_of_path store hp
  rw [← length_calls_of_run hr]
  omega

end Lookups

namespace Probe

variable {h : List (Sigma (ProbeOp.Ans Fn))} {cs : List Counter} {c : Counter}
  {values v : Counter → ℕ} {registry : Registry} {resp : HttpResponse}

theorem returns_gather_cons (hr : (gather (c :: cs) values).Returns h v) :
    ∃ (n : ℕ) (h' : _), h = ⟨.read c, n⟩ :: h' ∧
      (gather cs (Function.update values c n)).Returns h' v := by
  obtain ⟨_, n, hn, h', hrest, rfl⟩ := Thread.returns_bind_iff.mp hr
  obtain rfl := Thread.returns_perform_iff.mp hn
  exact ⟨n, h', rfl, hrest⟩

theorem gather_of_not_mem (hr : (gather cs values).Returns h v) (hc : c ∉ cs) :
    v c = values c := by
  induction cs generalizing values h with
  | nil =>
    obtain ⟨_, rfl⟩ := Thread.returns_pure_iff.mp hr
    rfl
  | cons d cs ih =>
    obtain ⟨n, h', rfl, hrest⟩ := returns_gather_cons hr
    rw [ih hrest fun hm => hc (List.mem_cons_of_mem _ hm), Function.update_of_ne]
    rintro rfl
    exact hc List.mem_cons_self

theorem mem_of_gather (hr : (gather cs values).Returns h v) (hd : cs.Nodup) (hc : c ∈ cs) :
    ⟨.read c, v c⟩ ∈ h := by
  induction cs generalizing values h with
  | nil => cases hc
  | cons d cs ih =>
    obtain ⟨n, h', rfl, hrest⟩ := returns_gather_cons hr
    obtain ⟨hnot, hd⟩ := List.nodup_cons.mp hd
    rcases List.mem_cons.mp hc with rfl | hc
    · rw [gather_of_not_mem hrest hnot, Function.update_self]
      exact List.mem_cons_self
    · exact List.mem_cons_of_mem _ (ih hrest hd hc)

theorem history_of_metrics
    (hr : (handle registry (.http "/metrics") : Probe Fn _).Returns h (.http resp)) :
    ∃ v, resp = ⟨200, some "text/plain; version=0.0.4", registry.encode (registry.families v)⟩ ∧
      ∀ c, ⟨.read c, v c⟩ ∈ h := by
  obtain ⟨h₁, resp', hm, _, hend, rfl⟩ := Thread.returns_bind_iff.mp hr
  obtain ⟨rfl, hresp⟩ := Thread.returns_pure_iff.mp hend
  cases hresp
  rw [metricsService, if_pos rfl] at hm
  obtain ⟨h₂, body, he, _, hend, rfl⟩ := Thread.returns_bind_iff.mp hm
  obtain ⟨rfl, rfl⟩ := Thread.returns_pure_iff.mp hend
  obtain ⟨h₃, v, hg, _, hend, rfl⟩ := Thread.returns_bind_iff.mp he
  obtain ⟨rfl, rfl⟩ := Thread.returns_pure_iff.mp hend
  refine ⟨v, rfl, fun c => ?_⟩
  simp only [List.append_nil]
  exact mem_of_gather hg registry.nodup (registry.mem_order c)

end Probe

namespace Reply

def answered : ServerEvent Fn → Bool
  | .ret _ (.inl (.ok _)) => true
  | _ => false

def refused : ServerEvent Fn → Bool
  | .ret _ (.inl (.error _)) => true
  | _ => false

def started : ServerEvent Fn → Bool
  | .call _ (.inl _) => true
  | _ => false

variable (tr : List (ServerEvent Fn))

theorem countP_leftTrace {P : KvEvent Fn → Bool} {Q : ServerEvent Fn → Bool}
    (h : ∀ n e, ((e.left? n).map P).getD false = Q e) : (leftTrace tr).countP P = tr.countP Q := by
  unfold leftTrace
  rw [List.countP_filterMap]
  exact List.countP_congr fun e _ => by rw [h]

theorem countP_answered : (leftTrace tr).countP isOk = tr.countP answered := by
  refine countP_leftTrace tr fun n e => ?_
  rcases e with ⟨_, _ | _⟩ | ⟨_, _ | _, _⟩ | ⟨_, (_ | _) | _⟩ | _ <;> rfl

theorem countP_refused : (leftTrace tr).countP isErr = tr.countP refused := by
  refine countP_leftTrace tr fun n e => ?_
  rcases e with ⟨_, _ | _⟩ | ⟨_, _ | _, _⟩ | ⟨_, (_ | _) | _⟩ | _ <;> rfl

theorem countP_started : (leftTrace tr).countP isStart = tr.countP started := by
  refine countP_leftTrace tr fun n e => ?_
  rcases e with ⟨_, _ | _⟩ | ⟨_, _ | _, _⟩ | ⟨_, (_ | _) | _⟩ | _ <;> rfl

end Reply

def serverWeight (c : Counter) : Sigma (Sum.elim (@Op.Ans Fn) (ProbeOp.Ans Fn)) → ℕ
  | ⟨.inl op, x⟩ => Op.weight c ⟨op, x⟩
  | ⟨.inr _, _⟩ => 0

/-- The metrics are asked for at `i` and sent at `j`. -/
def IsScrape (tr : List (ServerEvent Fn)) (i j : ℕ) (resp : HttpResponse) : Prop :=
  ∃ id, tr[i]? = some (.call id (.inr (.http "/metrics"))) ∧
    tr[j]? = some (.ret id (.inr (.http resp)))

section Run

variable {registry : Registry} {tr : List (ServerEvent Fn)} {p : ServerPool Fn} {i j k id : ℕ}
  {c : Counter}

theorem read_of_server_run (hr : Run (server ph registry).Step ⟨.new store .new, []⟩ tr p) :
    p.shared.metrics.read c = total (Event.stepWeight (serverWeight c)) tr := by
  have h := Service.counter_of_run (c := fun s => s.metrics.read c) (w := serverWeight c) hr
    (fun op s x s' he => ?_) (fun _ _ => rfl)
  · have h0 : (KvServiceImpl.new store .new).metrics.read c = 0 := by cases c <;> rfl
    rw [h, h0, Nat.zero_add]
  · rcases op with op | op
    · exact Op.read_of_exec he c
    · obtain rfl := probeService_readsOnly registry op s x s' he
      rfl

theorem read_mono {q q' : ServerPool Fn} {k k' : ℕ}
    (hq : Run (server ph registry).Step ⟨.new store .new, []⟩ (tr.take k) q)
    (hq' : Run (server ph registry).Step ⟨.new store .new, []⟩ (tr.take k') q') (hk : k ≤ k') :
    q.shared.metrics.read c ≤ q'.shared.metrics.read c := by
  obtain ⟨t, ht⟩ : tr.take k <+: tr.take k' := List.take_prefix_take_left hk
  rw [read_of_server_run hq, read_of_server_run hq', ← ht, total_append]
  exact Nat.le_add_right _ _

theorem countP_take_le {Q : ServerEvent Fn → Bool} (hk : i ≤ k) :
    (tr.take i).countP Q ≤ (tr.take k).countP Q :=
  List.Sublist.countP_le (List.take_prefix_take_left hk).sublist

/-- In every state of the server the counters cover the lookups that ended, and no more than those
that started. -/
theorem counters_of_server_run
    (hr : Run (server ph registry).Step ⟨.new store .new, []⟩ tr p) :
    tr.countP Reply.answered ≤ p.shared.metrics.read .requests ∧
      tr.countP Reply.refused ≤ p.shared.metrics.read .errors ∧
      p.shared.metrics.read .requests + p.shared.metrics.read .errors ≤
        tr.countP Reply.started := by
  obtain ⟨q, hq, hs, _⟩ := exists_run_lookups hr
  have h := counters_of_run hq
  rwa [Reply.countP_answered, Reply.countP_refused, Reply.countP_started, hs] at h

variable (hr : Run (server ph registry).Step ⟨.new store .new, []⟩ tr p)

include hr

/-- Without its probes, a run of the server is a run of the lookups with the same store and
counters, and without open calls each lookup is counted once. -/
theorem probes_change_nothing :
    ∃ q, Run (kvService ph).Step ⟨.new store .new, []⟩ (leftTrace tr) q ∧ q.shared = p.shared ∧
      (Service.Quiet p → Service.Quiet q ∧
        p.shared.metrics.requestsTotal = tr.countP Reply.answered ∧
        p.shared.metrics.errorsTotal = tr.countP Reply.refused) := by
  obtain ⟨q, hq, hs, hquiet⟩ := exists_run_lookups hr
  refine ⟨q, hq, hs, fun hp => ⟨hquiet hp, ?_, ?_⟩⟩
  · have hreq := read_of_quiet hq (hquiet hp) (c := .requests) (by decide) (by decide)
    rwa [total_ofResult_requests, Reply.countP_answered, hs] at hreq
  · have herr := read_of_quiet hq (hquiet hp) (c := .errors) (by decide) (by decide)
    rwa [total_ofResult_errors, Reply.countP_refused, hs] at herr

theorem read_of_step {n : ℕ} (hk : tr[k]? = some (.step id ⟨.inr (.read c), n⟩)) :
    ∃ q, Run (server ph registry).Step ⟨.new store .new, []⟩ (tr.take k) q ∧
      n = q.shared.metrics.read c := by
  obtain ⟨q, q', hq, hs⟩ := hr.exists_step hk
  cases hs with
  | step _ he =>
    cases he
    exact ⟨q, hq, rfl⟩

/-- A scrape shows for each counter a value it had between the start and the end of the scrape. -/
theorem exists_values {resp : HttpResponse} (h : IsScrape tr i j resp) :
    ∃ v, resp = ⟨200, some "text/plain; version=0.0.4", registry.encode (registry.families v)⟩ ∧
      ∀ c, ∃ k q, i < k ∧ k < j ∧
        Run (server ph registry).Step ⟨.new store .new, []⟩ (tr.take k) q ∧
        v c = q.shared.metrics.read c := by
  obtain ⟨id, hi, hj⟩ := h
  obtain ⟨i', req, h, hi', _, hret, hsteps⟩ := exists_history_of_probe hr hj
  obtain rfl := Service.call_unique hr hi hi'
  cases hi.symm.trans hi'
  obtain ⟨v, hv, hmem⟩ := Probe.history_of_metrics hret
  refine ⟨v, hv, fun c => ?_⟩
  obtain ⟨k, hik, hkj, hk⟩ := hsteps _ (hmem c)
  obtain ⟨q, hq, hn⟩ := read_of_step hr hk
  exact ⟨k, q, hik, hkj, hq, hn⟩

theorem IsScrape.unique {i' : ℕ} {resp resp' : HttpResponse} (h : IsScrape tr i j resp)
    (h' : IsScrape tr i' j resp') : i = i' ∧ resp = resp' := by
  obtain ⟨id, hi, hj⟩ := h
  obtain ⟨id', hi', hj'⟩ := h'
  cases hj.symm.trans hj'
  exact ⟨Service.call_unique hr hi hi', rfl⟩

/-- Every scrape shows counters of states during it, covers the lookups that ended before it and no
more than those that started, and shows at least what an earlier scrape showed. -/
theorem scrapes_cover_calls : ∃ v : ℕ → Counter → ℕ,
    (∀ i j resp, IsScrape tr i j resp →
      resp = ⟨200, some "text/plain; version=0.0.4", registry.encode (registry.families (v j))⟩ ∧
      (∀ c, ∃ k q, i < k ∧ k < j ∧
        Run (server ph registry).Step ⟨.new store .new, []⟩ (tr.take k) q ∧
        v j c = q.shared.metrics.read c) ∧
      (tr.take i).countP Reply.answered ≤ v j .requests ∧
      (tr.take i).countP Reply.refused ≤ v j .errors ∧
      v j .requests + v j .errors ≤ (tr.take j).countP Reply.started) ∧
    ∀ i j resp i' j' resp', IsScrape tr i j resp → IsScrape tr i' j' resp' → j ≤ i' →
      ∀ c, v j c ≤ v j' c := by
  have hv : ∀ j, ∃ v : Counter → ℕ, ∀ i resp, IsScrape tr i j resp →
      resp = ⟨200, some "text/plain; version=0.0.4", registry.encode (registry.families v)⟩ ∧
        ∀ c, ∃ k q, i < k ∧ k < j ∧
          Run (server ph registry).Step ⟨.new store .new, []⟩ (tr.take k) q ∧
          v c = q.shared.metrics.read c := by
    intro j
    by_cases hj : ∃ i resp, IsScrape tr i j resp
    · obtain ⟨i, resp, hj⟩ := hj
      obtain ⟨v, hv⟩ := exists_values hr hj
      refine ⟨v, fun i' resp' hj' => ?_⟩
      obtain ⟨rfl, rfl⟩ := hj.unique hr hj'
      exact hv
    · exact ⟨fun _ => 0, fun i resp hj' => absurd ⟨i, resp, hj'⟩ hj⟩
  choose v hv using hv
  refine ⟨v, fun i j resp hs => ?_, fun i j resp i' j' resp' hs hs' hji c => ?_⟩
  · obtain ⟨hresp, hread⟩ := hv j i resp hs
    obtain ⟨k₁, q₁, hi₁, hj₁, hq₁, h₁⟩ := hread .requests
    obtain ⟨k₂, q₂, hi₂, hj₂, hq₂, h₂⟩ := hread .errors
    obtain ⟨_, _, hj⟩ := hs
    obtain ⟨q, _, hq, _⟩ := hr.exists_step hj
    have hreq := read_mono (c := .requests) hq₁ hq hj₁.le
    have herr := read_mono (c := .errors) hq₂ hq hj₂.le
    have hstart := (counters_of_server_run hq).2.2
    refine ⟨hresp, hread, ?_, ?_, ?_⟩
    · rw [h₁]
      exact (countP_take_le hi₁.le).trans (counters_of_server_run hq₁).1
    · rw [h₂]
      exact (countP_take_le hi₂.le).trans (counters_of_server_run hq₂).2.1
    · rw [h₁, h₂]
      exact (Nat.add_le_add hreq herr).trans hstart
  · obtain ⟨k, q, _, hkj, hq, hk⟩ := (hv j i resp hs).2 c
    obtain ⟨k', q', hik', _, hq', hk'⟩ := (hv j' i' resp' hs').2 c
    rw [hk, hk']
    exact read_mono hq hq' (by omega)

end Run

/-- A registry that collects in the order of registration, one line for each number, over calls
that take a millisecond each. -/
def lineRegistry : Registry where
  order := [.requests, .hits, .misses, .errors, .latency]
  nodup := by decide
  mem_order c := by cases c <;> decide
  observed n := ⟨List.replicate 4 0 ++ List.replicate 6 n, 0.001 * n.toFloat⟩
  encode fs := String.join (fs.map fun f =>
    s!"# HELP {f.name} {f.help}\n" ++
      match f.value with
      | .counter n => s!"{f.name} {n}\n"
      | .histogram n buckets sum =>
        String.join (buckets.map fun b => s!"{f.name}_bucket {b.1} {b.2}\n") ++
          s!"{f.name}_sum {sum}\n{f.name}_count {n}\n")

def scrapeRun : List (ServerEvent (List Key)) :=
  [.call 0 (.inl (.get [])), .call 1 (.inr (.http "/metrics")),
    .step 1 ⟨.inr (.read .requests), (0 : ℕ)⟩, .step 1 ⟨.inr (.read .hits), (0 : ℕ)⟩,
    .step 1 ⟨.inr (.read .misses), (0 : ℕ)⟩, .step 0 ⟨.inl .incrementErrors, ()⟩,
    .step 1 ⟨.inr (.read .errors), (1 : ℕ)⟩, .step 1 ⟨.inr (.read .latency), (0 : ℕ)⟩,
    .ret 1 (.inr (.http ⟨200, some "text/plain; version=0.0.4",
      lineRegistry.encode (lineRegistry.families fun c => if c = .errors then 1 else 0)⟩))]

set_option maxRecDepth 4000 in
theorem run_scrapeRun : ∃ p,
    Run (server listIndex lineRegistry).Step ⟨.new (flatStore 1) .new, []⟩ scrapeRun p ∧
      p.shared.metrics = ⟨0, 0, 0, 1, 0⟩ := by
  exact ⟨_, (((((((((Run.nil.snoc (.call _)).snoc (.call _)).snoc (.step rfl rfl)).snoc
    (.step rfl rfl)).snoc (.step rfl rfl)).snoc (.step rfl rfl)).snoc (.step rfl rfl)).snoc
    (.step rfl rfl)).snoc (.ret rfl)), rfl⟩

theorem probes_change_nothing_scrapeRun : ∃ q,
    Run (kvService listIndex).Step ⟨.new (flatStore 1) .new, []⟩ (leftTrace scrapeRun) q ∧
      q.shared.metrics = ⟨0, 0, 0, 1, 0⟩ := by
  obtain ⟨p, hp, hm⟩ := run_scrapeRun
  obtain ⟨q, hq, hs, _⟩ := probes_change_nothing hp
  exact ⟨q, hq, by rw [hs, hm]⟩

theorem scrapes_cover_calls_scrapeRun : ∃ v : Counter → ℕ,
    lineRegistry.encode (lineRegistry.families fun c => if c = .errors then 1 else 0) =
        lineRegistry.encode (lineRegistry.families v) ∧
      (scrapeRun.take 1).countP Reply.refused ≤ v .errors ∧
      v .requests + v .errors ≤ (scrapeRun.take 8).countP Reply.started := by
  obtain ⟨p, hp, _⟩ := run_scrapeRun
  obtain ⟨v, hv, _⟩ := scrapes_cover_calls hp
  obtain ⟨hresp, _, _, herr, hstart⟩ := hv 1 8 _ ⟨1, rfl, rfl⟩
  exact ⟨v 8, congrArg HttpResponse.body hresp, herr, hstart⟩

end LowLatencyKv
