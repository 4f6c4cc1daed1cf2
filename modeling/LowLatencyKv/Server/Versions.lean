import LowLatencyKv.Builder.RoundTrip
import LowLatencyKv.Concurrency.Atomic
import LowLatencyKv.Server.Scrape
import LowLatencyKv.Tables.MapDiff

/-! # A server of versions

What the server is for: it holds one version of the records at a time, answers each
request from the current one and is switched to the next one at once. Stores opened
from built snapshots make the concurrent server linearizable to it, except for what a
scrape of the metrics shows.
-/

namespace LowLatencyKv

open Rust Concurrency Tables

/-- Records under distinct keys, and the time of their build. -/
structure Version where
  buildTimestamp : UInt64
  records : List (Key × Value)
  nodup : (records.map Prod.fst).Nodup

namespace Version

variable (v : Version)

def find (k : Key) : Option Value := v.records.lookup k

def get (key : List UInt8) : Except Status GetResponse :=
  match keyOf key with
  | some k => .ok (.ofLookup (v.find k))
  | none => .error (.invalidArgument s!"Key must be exactly {keySize} bytes, got {key.length}")

/-- All entries, unless one of the keys has the wrong size. -/
def batchGet (keys : List (List UInt8)) : Except Status BatchGetResponse :=
  match keys.mapM keyOf with
  | some ks => .ok ⟨ks.map fun k => .ofLookup (v.find k)⟩
  | none => .error (.invalidArgument s!"All keys must be exactly {keySize} bytes")

def answer : Request → Except Status Response
  | .get key => (v.get key).map .get
  | .batchGet keys => (v.batchGet keys).map .batchGet

def health : HealthResponse where
  healthy := true
  version := s!"v{v.buildTimestamp}"
  recordCount := UInt64.ofNat v.records.length
  buildTimestamp := v.buildTimestamp

end Version

variable {Fn : Type}

/-- The HTTP endpoint. Nothing is said of the numbers that a scrape shows. -/
def AnswersHttp (path : String) (resp : HttpResponse) : Prop :=
  if path = "/metrics" then
    resp.status = 200 ∧ resp.contentType = some "text/plain; version=0.0.4"
  else if path = "/health" then resp = ⟨200, none, "OK"⟩
  else resp = ⟨404, none, "Not Found"⟩

/-- The server of versions. Installing a store switches to the version it holds. -/
def versionServer (version : KvStore Fn → Version) : Spec Version (Request ⊕ ProbeRequest)
    (Except Status Response ⊕ ProbeResponse) (KvStore Fn) where
  returns v
    | .inl req, r => r = .inl (v.answer req)
    | .inr .health, r => r = .inr (.health (.ok v.health))
    | .inr (.http path), r => ∃ resp, r = .inr (.http resp) ∧ AnswersHttp path resp
  act store _ := version store

/-- The store was opened from a snapshot built of this version. -/
def KvStore.Serves (ph : Ph Fn) (s : KvStore Fn) (v : Version) : Prop :=
  ∃ sha256 fn image g, IsSnapshot ph sha256 v.buildTimestamp v.records fn image g ∧
    KvStore.open ph g = .ok s

variable {ph : Ph Fn} {s : KvStore Fn} {v : Version}

namespace KvStore.Serves

theorem get_eq (h : s.Serves ph v) (k : Key) : s.get ph k = .ok (v.find k) := by
  obtain ⟨sha256, fn, image, g, hg, ho⟩ := h
  obtain ⟨fn', ha, rfl⟩ := open_eq_ok_iff.mp ho
  have hn : v.records.length ≤ 10000000000 := by
    have hc := (Header.validate_eq_ok_iff.mp ha.valid).2.2
    rw [UInt64.le_iff_toNat_le, hg.recordCount_toNat] at hc
    exact hc
  obtain ⟨s', ho', hr⟩ := hg.represents hn v.nodup
  obtain rfl := Outcome.ok.inj (ho.symm.trans ho')
  obtain ⟨r, hget, hv⟩ := hr.get_iff k
  rw [hget]
  congr 1
  ext w
  rw [hv, Version.find, lookup_eq_some_iff v.nodup]

theorem versionInfo_eq (h : s.Serves ph v) : s.versionInfo.buildTimestamp = v.buildTimestamp ∧
    s.versionInfo.recordCount = UInt64.ofNat v.records.length := by
  obtain ⟨sha256, fn, image, g, hg, ho⟩ := h
  obtain ⟨fn', ha, rfl⟩ := open_eq_ok_iff.mp ho
  have hp := hg.parse_eq
  constructor
  · simp only [KvStore.ofFile, hp]
    rfl
  · rw [← hg.recordCount_toNat, UInt64.ofNat_toNat]
    rfl

theorem health_eq (h : s.Serves ph v) :
    (⟨true, s!"v{s.versionInfo.buildTimestamp}", s.versionInfo.recordCount,
      s.versionInfo.buildTimestamp⟩ : HealthResponse) = v.health := by
  obtain ⟨ht, hc⟩ := h.versionInfo_eq
  rw [ht, hc]
  rfl

end KvStore.Serves

section Call

variable {key : List UInt8} {keys : List (List UInt8)} {req : Request} {resp : Response}
  {status : Status} {r : GetResponse}

theorem keyOf_of_toList {k : Key} (h : k.toList = key) : keyOf key = some k := by
  subst h
  exact dif_pos k.length_toList

theorem keyOf_of_length_ne (h : key.length ≠ keySize) : keyOf key = none := dif_neg h

theorem mapM_keyOf_of_mem (h : key ∈ keys) (hne : key.length ≠ keySize) :
    keys.mapM keyOf = none := by
  induction keys with
  | nil => cases h
  | cons key' keys ih =>
    rw [List.mapM_cons]
    rcases List.mem_cons.mp h with rfl | h
    · rw [keyOf_of_length_ne hne]
      rfl
    · rw [ih h]
      cases keyOf key' <;> rfl

theorem KvStore.Entry.eq_ofLookup (h : s.Entry ph key r) (hs : s.Serves ph v) :
    ∃ k, keyOf key = some k ∧ r = .ofLookup (v.find k) := by
  obtain ⟨k, rfl, value, hget, rfl⟩ := h
  rw [hs.get_eq] at hget
  exact ⟨k, keyOf_of_toList rfl, by rw [Outcome.ok.inj hget]⟩

theorem entries_eq (hs : s.Serves ph v) {results : List GetResponse}
    (h : List.Forall₂ (s.Entry ph) keys results) :
    ∃ ks, keys.mapM keyOf = some ks ∧ results = ks.map fun k => .ofLookup (v.find k) := by
  induction h with
  | nil => exact ⟨[], rfl, rfl⟩
  | cons he _ ih =>
    obtain ⟨k, hk, rfl⟩ := he.eq_ofLookup hs
    obtain ⟨ks, hks, rfl⟩ := ih
    refine ⟨k :: ks, ?_, rfl⟩
    rw [List.mapM_cons, hk, hks]
    rfl

theorem KvStore.Answers.eq_answer (h : s.Answers ph req resp) (hs : s.Serves ph v) :
    v.answer req = .ok resp := by
  cases req with
  | get key =>
    cases resp with
    | get r =>
      obtain ⟨k, hk, rfl⟩ := KvStore.Entry.eq_ofLookup h hs
      rw [Version.answer, Version.get, hk]
      rfl
    | batchGet r => cases h
  | batchGet keys =>
    cases resp with
    | get r => cases h
    | batchGet r =>
      obtain ⟨results⟩ := r
      obtain ⟨ks, hks, rfl⟩ := entries_eq hs h
      rw [Version.answer, Version.batchGet, hks]
      rfl

theorem status_of_get {h : List (Sigma (@Op.Ans Fn))}
    (hr : (KvServiceImpl.get key).Returns h (.error status)) : v.get key = .error status := by
  rw [KvServiceImpl.get] at hr
  split at hr
  · next hlen =>
    simp only [Thread.returns_bind_iff, Handler.returns_incrementErrors_iff,
      Thread.returns_pure_iff] at hr
    obtain ⟨_, _, rfl, _, ⟨rfl, he⟩, rfl⟩ := hr
    rw [Version.get, keyOf_of_length_ne hlen, Except.error.inj he]
  · next hlen =>
    rw [keyOf, dif_pos (not_not.mp hlen)] at hr
    simp at hr

theorem status_of_batchLoop {h : List (Sigma (@Op.Ans Fn))} {results : List GetResponse}
    (hr : (KvServiceImpl.batchLoop s keys results).Returns h (.error status)) :
    keys.mapM keyOf = none ∧
      status = .invalidArgument s!"All keys must be exactly {keySize} bytes" := by
  induction keys generalizing results h with
  | nil => simp [KvServiceImpl.batchLoop] at hr
  | cons key keys ih =>
    rw [KvServiceImpl.batchLoop] at hr
    split at hr
    · next hlen =>
      simp only [Thread.returns_bind_iff, Handler.returns_incrementErrors_iff,
        Thread.returns_pure_iff] at hr
      obtain ⟨_, _, rfl, _, ⟨rfl, he⟩, rfl⟩ := hr
      exact ⟨mapM_keyOf_of_mem List.mem_cons_self hlen, Except.error.inj he⟩
    · next hlen =>
      rw [keyOf, dif_pos (not_not.mp hlen)] at hr
      obtain ⟨_, _, _, _, hrest, rfl⟩ := Thread.returns_bind_iff.mp hr
      obtain ⟨hkeys, rfl⟩ := ih hrest
      refine ⟨?_, rfl⟩
      rw [List.mapM_cons, hkeys]
      cases keyOf key <;> rfl

theorem status_of_batchGet {h : List (Sigma (@Op.Ans Fn))}
    (hr : (KvServiceImpl.batchGet keys).Returns h (.error status)) :
    v.batchGet keys = .error status := by
  obtain ⟨_, _, _, _, hrest, rfl⟩ := Thread.returns_bind_iff.mp hr
  obtain ⟨_, res, hloop, _, hend, rfl⟩ := Thread.returns_bind_iff.mp hrest
  rcases res with status' | rs
  · obtain ⟨_, he⟩ := Thread.returns_pure_iff.mp hend
    cases he
    obtain ⟨hkeys, rfl⟩ := status_of_batchLoop hloop
    rw [Version.batchGet, hkeys]
  · simp at hend

/-- A refused call is refused by every version. -/
theorem status_of_handle {h : List (Sigma (@Op.Ans Fn))}
    (hr : (KvServiceImpl.handle req).Returns h (.error status)) : v.answer req = .error status := by
  cases req with
  | get key => rw [Version.answer, status_of_get (Thread.returns_map_error_iff.mp hr), Except.map]
  | batchGet keys =>
    rw [Version.answer, status_of_batchGet (Thread.returns_map_error_iff.mp hr), Except.map]

namespace Probe

variable {registry : Registry} {h : List (Sigma (ProbeOp.Ans Fn))} {r : ProbeResponse}

theorem history_of_health (hr : (handle registry .health : Probe Fn _).Returns h r) :
    ∃ s : KvStore Fn, ⟨.load, s⟩ ∈ h ∧
      r = .health (.ok ⟨true, s!"v{s.versionInfo.buildTimestamp}", s.versionInfo.recordCount,
        s.versionInfo.buildTimestamp⟩) := by
  obtain ⟨h₁, resp, hm, _, hend, rfl⟩ := Thread.returns_bind_iff.mp hr
  obtain ⟨rfl, rfl⟩ := Thread.returns_pure_iff.mp hend
  obtain ⟨h₂, s, hl, _, hend, rfl⟩ := Thread.returns_bind_iff.mp hm
  obtain ⟨rfl, rfl⟩ := Thread.returns_pure_iff.mp hend
  obtain rfl := Thread.returns_perform_iff.mp hl
  exact ⟨s, List.mem_cons_self, rfl⟩

theorem answersHttp_of_http {path : String}
    (hr : (handle registry (.http path) : Probe Fn _).Returns h r) :
    ∃ resp, r = .http resp ∧ AnswersHttp path resp := by
  obtain ⟨h₁, resp, hm, _, hend, rfl⟩ := Thread.returns_bind_iff.mp hr
  obtain ⟨rfl, rfl⟩ := Thread.returns_pure_iff.mp hend
  refine ⟨resp, rfl, ?_⟩
  rw [metricsService] at hm
  unfold AnswersHttp
  split_ifs at hm ⊢ with hmetrics hhealth
  · obtain ⟨h₂, body, _, _, hend, rfl⟩ := Thread.returns_bind_iff.mp hm
    obtain ⟨rfl, rfl⟩ := Thread.returns_pure_iff.mp hend
    exact ⟨rfl, rfl⟩
  · exact (Thread.returns_pure_iff.mp hm).2
  · exact (Thread.returns_pure_iff.mp hm).2

end Probe

end Call

section Run

variable {registry : Registry} {store : KvStore Fn} {metrics : Metrics}
  {version : KvStore Fn → Version} {tr : List (ServerEvent Fn)} {p : ServerPool Fn} {i j k id : ℕ}

theorem after_of_run (hr : Run (server ph registry).Step ⟨.new store metrics, []⟩ tr p) :
    (versionServer version).after (version store) tr = version p.shared.store := by
  induction hr with
  | nil => rfl
  | snoc _ hs ih =>
    rw [Spec.after_concat]
    cases hs with
    | call _ => exact ih
    | @step _ op _ x _ _ he =>
      have hstore := ih
      rcases op with op | op
      · rw [← Op.exec_store he] at hstore
        exact hstore
      · obtain rfl := probeService_readsOnly registry op _ x _ he
        exact hstore
    | ret _ => exact ih
    | act x => rfl

variable (hr : Run (server ph registry).Step ⟨.new store metrics, []⟩ tr p)
  (hs : store.Serves ph (version store)) (hact : ∀ x, .act x ∈ tr → x.Serves ph (version x))

include hr hs hact

/-- A store that a call loads serves the version that the server holds at this moment. -/
theorem serves_of_load {s : KvStore Fn} (hk : tr[k]? = some (.step id ⟨.inl .load, s⟩) ∨
    tr[k]? = some (.step id ⟨.inr .load, s⟩)) :
    s.Serves ph (version s) ∧
      (versionServer version).after (version store) (tr.take k) = version s := by
  have hq {q : ServerPool Fn}
      (hq : Run (server ph registry).Step ⟨.new store metrics, []⟩ (tr.take k) q) :
      q.shared.store.Serves ph (version q.shared.store) ∧
        (versionServer version).after (version store) (tr.take k) = version q.shared.store :=
    ⟨store_of_server_run (P := fun s => s.Serves ph (version s)) hq hs fun x hx =>
      hact x (List.mem_of_mem_take hx), after_of_run hq⟩
  rcases hk with hk | hk
  · obtain ⟨q, q', hrun, hstep⟩ := hr.exists_step hk
    cases hstep with
    | step _ he =>
      cases he
      exact hq hrun
  · obtain ⟨q, q', hrun, hstep⟩ := hr.exists_step hk
    cases hstep with
    | step _ he =>
      cases he
      exact hq hrun

theorem exists_point_of_lookup {r : Except Status Response}
    (hj : tr[j]? = some (.ret id (.inl r))) :
    ∃ m, IsPoint (versionServer version) (version store) tr j id (.inl r) m := by
  obtain ⟨i, req, h, hi, hij, hret, hsteps⟩ := exists_history_of_lookup hr hj
  rcases r with status | resp
  · exact ⟨i, i, .inl req, _, hi, Nat.le_refl i, hij, hi, rfl,
      congrArg Sum.inl (status_of_handle hret).symm⟩
  · have ht : ∀ store key value, ⟨.get store key, value⟩ ∈ h → store.get ph key = .ok value := by
      intro store key value hm
      obtain ⟨k, _, _, hk⟩ := hsteps _ hm
      obtain ⟨q, q', _, hstep⟩ := hr.exists_step hk
      cases hstep with
      | step _ he => exact Op.get_of_exec he
    obtain ⟨s, hm, ha⟩ := KvServiceImpl.answers_of_handle hret ht
    obtain ⟨k, hik, hkj, hk⟩ := hsteps _ hm
    obtain ⟨hserves, hafter⟩ := serves_of_load hr hs hact (Or.inl hk)
    refine ⟨k, i, .inl req, _, hi, hik.le, hkj, hk, rfl, ?_⟩
    rw [hafter]
    exact congrArg Sum.inl (ha.eq_answer hserves).symm

theorem exists_point_of_probe {r : ProbeResponse} (hj : tr[j]? = some (.ret id (.inr r))) :
    ∃ m, IsPoint (versionServer version) (version store) tr j id (.inr r) m := by
  obtain ⟨i, req, h, hi, hij, hret, hsteps⟩ := exists_history_of_probe hr hj
  rcases req with _ | path
  · obtain ⟨s, hm, rfl⟩ := Probe.history_of_health hret
    obtain ⟨k, hik, hkj, hk⟩ := hsteps _ hm
    obtain ⟨hserves, hafter⟩ := serves_of_load hr hs hact (Or.inr hk)
    refine ⟨k, i, .inr .health, _, hi, hik.le, hkj, hk, rfl, ?_⟩
    rw [hafter]
    exact congrArg (fun r => Sum.inr (ProbeResponse.health (.ok r))) hserves.health_eq
  · obtain ⟨resp, rfl, ha⟩ := Probe.answersHttp_of_http hret
    exact ⟨i, i, .inr (.http path), _, hi, Nat.le_refl i, hij, hi, rfl, resp, rfl, ha⟩

/-- However lookups, probes and reloads interleave, the server behaves as if each call happened at
once, on the version current at that moment. -/
theorem server_linearizable :
    ∃ lin, Linearizes (versionServer version) (version store) tr lin := by
  refine Service.exists_linearizes hr fun j id r hj => ?_
  rcases r with r | r
  · exact exists_point_of_lookup hr hs hact hj
  · exact exists_point_of_probe hr hs hact hj

end Run

def stampedVersion (buildTimestamp : UInt64) : Version :=
  ⟨buildTimestamp, twoRecords, twoKeys_nodup⟩

/-- The version of a store that holds the two records. -/
def versionOf (s : KvStore (List Key)) : Version := stampedVersion s.versionInfo.buildTimestamp

theorem exists_serves (t : UInt64) : ∃ s : KvStore (List Key),
    s.versionInfo.buildTimestamp = t ∧ s.Serves listIndex (versionOf s) := by
  obtain ⟨g, log, _, hg, _⟩ :=
    build_faultless twoDigest t (by decide) twoRecords_indexes twoRecords_size none
  obtain ⟨s, ho, _⟩ := hg.represents (by decide) twoKeys_nodup
  have hs : s.Serves listIndex (stampedVersion t) := ⟨_, _, _, g, hg, ho⟩
  have ht : s.versionInfo.buildTimestamp = t := hs.versionInfo_eq.1
  exact ⟨s, ht, by rwa [versionOf, ht]⟩

def healthRun (s : KvStore (List Key)) : List (ServerEvent (List Key)) :=
  [.call 0 (.inr .health), .act s, .step 0 ⟨.inr .load, s⟩,
    .ret 0 (.inr (.health (.ok ⟨true, s!"v{s.versionInfo.buildTimestamp}",
      s.versionInfo.recordCount, s.versionInfo.buildTimestamp⟩)))]

theorem run_healthRun (s s' : KvStore (List Key)) :
    ∃ p, Run (server listIndex lineRegistry).Step ⟨.new s .new, []⟩ (healthRun s') p :=
  ⟨_, (((Run.nil.snoc (.call _)).snoc (.act s')).snoc (.step rfl rfl)).snoc (.ret rfl)⟩

theorem server_linearizable_healthRun : ∃ s s' : KvStore (List Key),
    s.versionInfo.buildTimestamp = 0 ∧ s'.versionInfo.buildTimestamp = 1 ∧
      ∃ lin, Linearizes (versionServer versionOf) (versionOf s) (healthRun s') lin := by
  obtain ⟨s, h0, hs⟩ := exists_serves 0
  obtain ⟨s', h1, hs'⟩ := exists_serves 1
  obtain ⟨p, hp⟩ := run_healthRun s s'
  refine ⟨s, s', h0, h1, server_linearizable hp hs fun x hx => ?_⟩
  simp only [healthRun, List.mem_cons, List.not_mem_nil, reduceCtorEq, Event.act.injEq,
    false_or, or_false] at hx
  rwa [hx]

end LowLatencyKv
