import LowLatencyKv.Concurrency.Shared
import LowLatencyKv.Server.Counters

/-! # The whole server

Health checks and the metrics endpoint read the same store and counters as the
lookups, while these run. They change nothing, so erasing them from a run leaves
a run of the lookups alone.
-/

namespace LowLatencyKv

open Rust Concurrency

variable {Fn : Type}

structure HealthResponse where
  healthy : Bool
  version : String
  recordCount : UInt64
  buildTimestamp : UInt64
  deriving DecidableEq, Repr

structure HttpResponse where
  status : ℕ
  contentType : Option String
  body : String
  deriving DecidableEq, Repr

inductive ProbeRequest where
  | health
  | http (path : String)
  deriving DecidableEq, Repr

inductive ProbeResponse where
  | health (response : Except Status HealthResponse)
  | http (response : HttpResponse)

namespace Counter

/-- The name a metric is registered under. -/
def name : Counter → String
  | .requests => "kv_requests_total"
  | .hits => "kv_hits_total"
  | .misses => "kv_misses_total"
  | .errors => "kv_errors_total"
  | .latency => "kv_request_latency_seconds"

def help : Counter → String
  | .requests => "Total number of KV requests"
  | .hits => "Total number of cache hits"
  | .misses => "Total number of cache misses"
  | .errors => "Total number of errors"
  | .latency => "Request latency in seconds"

end Counter

/-- The bounds of the latency buckets in seconds: from 10μs to 100ms. -/
def latencyBuckets : List Float :=
  [0.00001, 0.00005, 0.0001, 0.0005, 0.001, 0.002, 0.005, 0.01, 0.05, 0.1]

/-- How many durations are at most each bound of the latency histogram, and the sum of all. -/
structure Observed where
  buckets : List ℕ
  sum : Float
  deriving Repr

/-- A counter, or the number of observations of a histogram with its buckets and sum. -/
inductive MetricValue where
  | counter (value : ℕ)
  | histogram (count : ℕ) (buckets : List (Float × ℕ)) (sum : Float)
  deriving Repr

structure MetricFamily where
  name : String
  help : String
  value : MetricValue
  deriving Repr

/-- A registry of the `prometheus` crate with the five metrics registered: the order in which it
collects them, what the histogram holds after so many of the durations that calls measure, and the
text of what it gathered. -/
structure Registry where
  order : List Counter
  nodup : order.Nodup
  mem_order : ∀ c, c ∈ order
  observed : ℕ → Observed
  encode : List MetricFamily → String

namespace Registry

variable (registry : Registry)

def valueOf : Counter → ℕ → MetricValue
  | .latency, n => .histogram n (latencyBuckets.zip (registry.observed n).buckets)
      (registry.observed n).sum
  | _, n => .counter n

def families (values : Counter → ℕ) : List MetricFamily :=
  [Counter.requests, .hits, .misses, .errors, .latency].map fun c =>
    ⟨c.name, c.help, registry.valueOf c (values c)⟩

end Registry

inductive ProbeOp where
  | load
  | read (c : Counter)

def ProbeOp.Ans (Fn : Type) : ProbeOp → Type
  | .load => KvStore Fn
  | .read _ => ℕ

def ProbeOp.exec : (op : ProbeOp) → KvServiceImpl Fn → Option (op.Ans Fn × KvServiceImpl Fn)
  | .load, s => some (s.store, s)
  | .read c, s => some (s.metrics.read c, s)

abbrev Probe (Fn : Type) : Type → Type := Thread ProbeOp (ProbeOp.Ans Fn)

namespace Probe

def load : Probe Fn (KvStore Fn) := .perform ProbeOp.load

def read (c : Counter) : Probe Fn ℕ := .perform (ProbeOp.read c)

def health : Probe Fn (Except Status HealthResponse) := do
  let store ← load
  let info := store.versionInfo
  return .ok
    { healthy := true
      version := s!"v{info.buildTimestamp}"
      recordCount := info.recordCount
      buildTimestamp := info.buildTimestamp }

/-- Collect the metrics one after the other. -/
def gather : List Counter → (Counter → ℕ) → Probe Fn (Counter → ℕ)
  | [], values => return values
  | c :: cs, values => do
    let n ← read c
    gather cs (Function.update values c n)

def encode (registry : Registry) : Probe Fn String := do
  let values ← gather registry.order fun _ => 0
  return registry.encode (registry.families values)

def metricsService (registry : Registry) (path : String) : Probe Fn HttpResponse :=
  if path = "/metrics" then do
    let body ← encode registry
    return ⟨200, some "text/plain; version=0.0.4", body⟩
  else if path = "/health" then return ⟨200, none, "OK"⟩
  else return ⟨404, none, "Not Found"⟩

def handle (registry : Registry) : ProbeRequest → Probe Fn ProbeResponse
  | .health => do return .health (← health)
  | .http path => do return .http (← metricsService registry path)

end Probe

def probeService (Fn : Type) (registry : Registry) : Service ProbeOp (ProbeOp.Ans Fn)
    (KvServiceImpl Fn) ProbeRequest ProbeResponse (KvStore Fn) where
  handle := Probe.handle registry
  exec := ProbeOp.exec
  act := KvServiceImpl.reload

/-- Lookups and probes over one store and one set of counters. -/
abbrev server (ph : Ph Fn) (registry : Registry) : Service (Op Fn ⊕ ProbeOp)
    (Sum.elim Op.Ans (ProbeOp.Ans Fn)) (KvServiceImpl Fn) (Request ⊕ ProbeRequest)
    (Except Status Response ⊕ ProbeResponse) (KvStore Fn) :=
  (kvService ph).both (probeService Fn registry)

abbrev ServerEvent (Fn : Type) : Type :=
  BothEvent (@Op.Ans Fn) (ProbeOp.Ans Fn) Request ProbeRequest (Except Status Response)
    ProbeResponse (KvStore Fn)

abbrev ServerPool (Fn : Type) : Type :=
  Pool (Op Fn ⊕ ProbeOp) (Sum.elim Op.Ans (ProbeOp.Ans Fn)) (KvServiceImpl Fn)
    (Except Status Response ⊕ ProbeResponse)

variable {ph : Ph Fn} {registry : Registry} {tr : List (ServerEvent Fn)}
  {p : ServerPool Fn}

theorem probeService_readsOnly (registry : Registry) : (probeService Fn registry).ReadsOnly := by
  rintro (_ | c) s x s' h
  · cases h
    rfl
  · cases h
    rfl

section Run

variable {s₀ : KvServiceImpl Fn} {j id : ℕ} (hr : Run (server ph registry).Step ⟨s₀, []⟩ tr p)

include hr

theorem exists_history_of_lookup {r : Except Status Response}
    (hj : tr[j]? = some (.ret id (.inl r))) :
    ∃ i req h, tr[i]? = some (.call id (.inl req)) ∧ i < j ∧
      (KvServiceImpl.handle req : Handler Fn _).Returns h r ∧
      ∀ x ∈ h, ∃ k, i < k ∧ k < j ∧ tr[k]? = some (.step id ⟨.inl x.1, x.2⟩) := by
  obtain ⟨i, req, h, hi, hij, hret, hsteps⟩ := Service.exists_history_of_ret hr hj
  rcases req with req | req
  · obtain ⟨h₀, r, hret₀, rfl, he⟩ := Thread.exists_returns_of_lift hret
    cases he
    exact ⟨i, req, h₀, hi, hij, hret₀, fun x hx => hsteps _ (List.mem_map_of_mem hx)⟩
  · obtain ⟨_, _, _, _, he⟩ := Thread.exists_returns_of_lift hret
    cases he

theorem exists_history_of_probe {resp : ProbeResponse}
    (hj : tr[j]? = some (.ret id (.inr resp))) :
    ∃ i req h, tr[i]? = some (.call id (.inr req)) ∧ i < j ∧
      (Probe.handle registry req : Probe Fn _).Returns h resp ∧
      ∀ x ∈ h, ∃ k, i < k ∧ k < j ∧ tr[k]? = some (.step id ⟨.inr x.1, x.2⟩) := by
  obtain ⟨i, req, h, hi, hij, hret, hsteps⟩ := Service.exists_history_of_ret hr hj
  rcases req with req | req
  · obtain ⟨_, _, _, _, he⟩ := Thread.exists_returns_of_lift hret
    cases he
  · obtain ⟨h₀, r, hret₀, rfl, he⟩ := Thread.exists_returns_of_lift hret
    cases he
    exact ⟨i, req, h₀, hi, hij, hret₀, fun x hx => hsteps _ (List.mem_map_of_mem hx)⟩

theorem store_of_server_run {P : KvStore Fn → Prop} (hs : P s₀.store)
    (hact : ∀ x, .act x ∈ tr → P x) : P p.shared.store := by
  induction hr with
  | nil => exact hs
  | @snoc tr q q' e _ hstep ih =>
    have hbefore := ih fun x hx => hact x (List.mem_append_left _ hx)
    cases hstep with
    | call _ => exact hbefore
    | @step _ op _ x _ _ he =>
      rcases op with op | op
      · rw [Op.exec_store he]
        exact hbefore
      · obtain rfl := probeService_readsOnly registry op _ x _ he
        exact hbefore
    | ret _ => exact hbefore
    | act x => exact hact x (by simp)

/-- The lookups of a run are a run of their own, with the same store and counters. -/
theorem exists_run_lookups : ∃ q, Run (kvService ph).Step ⟨s₀, []⟩ (leftTrace tr) q ∧
    q.shared = p.shared ∧ (Service.Quiet p → Service.Quiet q) := by
  obtain ⟨q, cs, hq, he⟩ := Service.exists_run_left (probeService_readsOnly registry) hr
  exact ⟨q, hq, he.shared, he.quiet⟩

end Run

end LowLatencyKv
