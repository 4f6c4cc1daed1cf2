import LowLatencyKv.Concurrency.Totals
import LowLatencyKv.Server.Reload

/-! # What the counters count

Every call that returned is counted once, as a request with a latency or as an
error, in whatever order the calls interleave. The counts a call contributes are
read off its history.
-/

namespace LowLatencyKv

open Rust Concurrency

variable {Fn : Type} {ph : Ph Fn} {store : KvStore Fn} {h : List (Sigma (@Op.Ans Fn))}

inductive Counter where
  | requests
  | hits
  | misses
  | errors
  | latency
  deriving DecidableEq, Repr

def Metrics.read (m : Metrics) : Counter → ℕ
  | .requests => m.requestsTotal
  | .hits => m.hitsTotal
  | .misses => m.missesTotal
  | .errors => m.errorsTotal
  | .latency => m.latency

/-- The counter an operation raises. -/
def Op.counter? : Op Fn → Option Counter
  | .load => none
  | .get _ _ => none
  | .incrementRequests => some .requests
  | .incrementHits => some .hits
  | .incrementMisses => some .misses
  | .incrementErrors => some .errors
  | .recordLatency => some .latency

def Op.weight (c : Counter) (x : Sigma (@Op.Ans Fn)) : ℕ := if x.1.counter? = some c then 1 else 0

theorem Op.read_of_exec {op : Op Fn} {x : op.Ans} {s s' : KvServiceImpl Fn}
    (he : op.exec ph s = some (x, s')) (c : Counter) :
    s'.metrics.read c = s.metrics.read c + Op.weight c ⟨op, x⟩ := by
  cases op with
  | get store key =>
    rw [Op.exec] at he
    split at he
    · cases he
      rfl
    · cases he
  | _ =>
    cases he
    cases c <;> rfl

def Request.keys : Request → List (List UInt8)
  | .get key => [key]
  | .batchGet keys => keys

def Response.entries : Response → List GetResponse
  | .get r => [r]
  | .batchGet r => r.results

/-- What entries add to a counter. -/
def Counter.ofEntries (rs : List GetResponse) : Counter → ℕ
  | .hits => rs.countP (·.found)
  | .misses => rs.countP (!·.found)
  | _ => 0

/-- The operations of a history that raise counters. -/
def counted (h : List (Sigma (@Op.Ans Fn))) : List (Sigma (@Op.Ans Fn)) :=
  h.filter fun x => x.1.counter?.isSome

@[simp] theorem counted_append (h h' : List (Sigma (@Op.Ans Fn))) :
    counted (h ++ h') = counted h ++ counted h' := List.filter_append ..

theorem total_counted (c : Counter) (h : List (Sigma (@Op.Ans Fn))) :
    total (Op.weight c) (counted h) = total (Op.weight c) h := by
  induction h with
  | nil => rfl
  | cons x h ih =>
    unfold counted
    rw [List.filter_cons, total_cons, ← ih]
    split
    · rw [total_cons]
      rfl
    · next hx =>
      have hw : Op.weight c x = 0 := by
        unfold Op.weight
        rw [if_neg]
        intro he
        exact hx (by rw [he]; rfl)
      rw [hw, Nat.zero_add]
      rfl

/-- The counts of lookups with these answers. -/
def lookupCounts (found : List (Key × Option Value)) : List (Sigma (@Op.Ans Fn)) :=
  found.map fun x => Op.countOf x.2

theorem counted_lookups (found : List (Key × Option Value)) :
    counted (found.flatMap fun x => [⟨.get store x.1, x.2⟩, Op.countOf x.2]) =
      lookupCounts found := by
  induction found with
  | nil => rfl
  | cons x found ih =>
    rw [List.flatMap_cons, counted_append, ih]
    obtain ⟨k, _ | v⟩ := x
    · rfl
    · rfl

theorem total_lookupCounts (c : Counter) (found : List (Key × Option Value)) :
    total (Op.weight c) (lookupCounts found : List (Sigma (@Op.Ans Fn))) =
      c.ofEntries (found.map fun x => .ofLookup x.2) := by
  induction found with
  | nil => cases c <;> rfl
  | cons x found ih =>
    unfold lookupCounts
    rw [List.map_cons, total_cons, ← lookupCounts, ih]
    obtain ⟨k, _ | v⟩ := x
    · cases c <;>
        simp [Op.weight, Op.counter?, Op.countOf, Counter.ofEntries, GetResponse.ofLookup,
          Nat.add_comm]
    · cases c <;>
        simp [Op.weight, Op.counter?, Op.countOf, Counter.ofEntries, GetResponse.ofLookup,
          Nat.add_comm]

namespace KvServiceImpl

theorem history_of_get_err {key : List UInt8} {status : Status}
    (hr : (get key).Returns h (.error status)) : key.length ≠ keySize ∧
      h = [⟨.incrementErrors, ()⟩] ∧ ∃ message, status = .invalidArgument message := by
  rw [get] at hr
  split at hr
  · next hlen =>
    simp only [Thread.returns_bind_iff, Handler.returns_incrementErrors_iff,
      Thread.returns_pure_iff] at hr
    obtain ⟨_, _, rfl, _, ⟨rfl, he⟩, rfl⟩ := hr
    cases he
    exact ⟨hlen, rfl, _, rfl⟩
  · next hlen =>
    rw [keyOf, dif_pos (not_not.mp hlen)] at hr
    simp at hr

theorem history_of_batchLoop_err {keys : List (List UInt8)} {results : List GetResponse}
    {status : Status} (hr : (batchLoop store keys results).Returns h (.error status)) :
    ∃ (found : List (Key × Option Value)) (bad : List UInt8) (rest : List (List UInt8)),
      keys = found.map (fun x => x.1.toList) ++ bad :: rest ∧ bad.length ≠ keySize ∧
      counted h = lookupCounts found ++ [⟨.incrementErrors, ()⟩] ∧
      ∃ message, status = .invalidArgument message := by
  induction keys generalizing results h with
  | nil => simp [batchLoop] at hr
  | cons key keys ih =>
    rw [batchLoop] at hr
    split at hr
    · next hlen =>
      simp only [Thread.returns_bind_iff, Handler.returns_incrementErrors_iff,
        Thread.returns_pure_iff] at hr
      obtain ⟨_, _, rfl, _, ⟨rfl, he⟩, rfl⟩ := hr
      cases he
      exact ⟨[], key, keys, rfl, hlen, rfl, _, rfl⟩
    · next hlen =>
      rw [keyOf, dif_pos (not_not.mp hlen)] at hr
      obtain ⟨_, _, hl, _, hrest, rfl⟩ := Thread.returns_bind_iff.mp hr
      obtain ⟨value, rfl, rfl⟩ := Handler.returns_lookup_iff.mp hl
      obtain ⟨found, bad, rest, rfl, hbad, hh, he⟩ := ih hrest
      refine ⟨(⟨key, not_not.mp hlen⟩, value) :: found, bad, rest, rfl, hbad, ?_, he⟩
      rw [counted_append, hh]
      rcases value with _ | v
      · rfl
      · rfl

theorem history_of_batchGet_err {keys : List (List UInt8)} {status : Status}
    (hr : (batchGet keys).Returns h (.error status)) :
    ∃ (found : List (Key × Option Value)) (bad : List UInt8) (rest : List (List UInt8)),
      keys = found.map (fun x => x.1.toList) ++ bad :: rest ∧ bad.length ≠ keySize ∧
      counted h = lookupCounts found ++ [⟨.incrementErrors, ()⟩] ∧
      ∃ message, status = .invalidArgument message := by
  obtain ⟨_, store, hl, _, hrest, rfl⟩ := Thread.returns_bind_iff.mp hr
  obtain rfl := Handler.returns_load_iff.mp hl
  obtain ⟨_, res, hloop, _, hend, rfl⟩ := Thread.returns_bind_iff.mp hrest
  rcases res with status' | rs
  · obtain ⟨rfl, he⟩ := Thread.returns_pure_iff.mp hend
    cases he
    obtain ⟨found, bad, rest, rfl, hbad, hh, he⟩ := history_of_batchLoop_err hloop
    refine ⟨found, bad, rest, rfl, hbad, ?_, he⟩
    rw [counted_append, counted_append, hh]
    exact List.append_nil _
  · simp at hend

/-- An answered call counts its lookups, its latency and then its request. -/
theorem counted_of_handle {req : Request} {resp : Response}
    (hr : (handle req).Returns h (.ok resp)) : ∃ found : List (Key × Option Value),
      req.keys = found.map (fun x => x.1.toList) ∧
      counted h = lookupCounts found ++ [⟨.recordLatency, ()⟩, ⟨.incrementRequests, ()⟩] ∧
      resp.entries = found.map (fun x => .ofLookup x.2) := by
  cases req with
  | get key =>
    obtain ⟨r, hg, rfl⟩ := Thread.returns_map_ok_iff.mp hr
    obtain ⟨k, store, value, rfl, rfl, rfl⟩ := history_of_get hg
    refine ⟨[(k, value)], rfl, ?_, rfl⟩
    rcases value with _ | v
    · rfl
    · rfl
  | batchGet keys =>
    obtain ⟨r, hg, rfl⟩ := Thread.returns_map_ok_iff.mp hr
    obtain ⟨store, found, rfl, rfl, hres⟩ := history_of_batchGet hg
    refine ⟨found, rfl, ?_, hres⟩
    rw [← List.singleton_append, List.append_assoc, counted_append, counted_append,
      counted_lookups]
    rfl

/-- A refused call counts the lookups of the keys before its first bad one, and then an error. -/
theorem counted_of_handle_err {req : Request} {status : Status}
    (hr : (handle req).Returns h (.error status)) :
    ∃ (found : List (Key × Option Value)) (bad : List UInt8) (rest : List (List UInt8)),
      req.keys = found.map (fun x => x.1.toList) ++ bad :: rest ∧ bad.length ≠ keySize ∧
      counted h = lookupCounts found ++ [⟨.incrementErrors, ()⟩] ∧
      ∃ message, status = .invalidArgument message := by
  cases req with
  | get key =>
    obtain ⟨hlen, rfl, he⟩ := history_of_get_err (Thread.returns_map_error_iff.mp hr)
    exact ⟨[], key, [], rfl, hlen, rfl, he⟩
  | batchGet keys => exact history_of_batchGet_err (Thread.returns_map_error_iff.mp hr)

end KvServiceImpl

/-- What an ended call adds to a counter. -/
def Counter.ofResult (c : Counter) : Except Status Response → ℕ
  | .ok resp =>
    match c with
    | .requests => 1
    | .latency => 1
    | c => c.ofEntries resp.entries
  | .error _ => if c = .errors then 1 else 0

namespace KvServiceImpl

theorem total_of_handle {req : Request} {resp : Response}
    (hr : (handle req).Returns h (.ok resp)) (c : Counter) :
    total (Op.weight c) h = c.ofResult (.ok resp) := by
  obtain ⟨found, _, hh, he⟩ := counted_of_handle hr
  rw [← total_counted, hh, total_append, total_lookupCounts, ← he]
  cases c <;> simp [Op.weight, Op.counter?, Counter.ofEntries, Counter.ofResult]

theorem total_of_handle_err {req : Request} {status : Status} {c : Counter}
    (hr : (handle req).Returns h (.error status)) (hh : c ≠ .hits) (hm : c ≠ .misses) :
    total (Op.weight c) h = c.ofResult (.error status) := by
  obtain ⟨found, _, _, _, _, hc, _⟩ := counted_of_handle_err hr
  rw [← total_counted, hc, total_append, total_lookupCounts]
  cases c with
  | hits => exact absurd rfl hh
  | misses => exact absurd rfl hm
  | _ => rfl

end KvServiceImpl

def performed (c : Counter) (h : List (Sigma (@Op.Ans Fn))) : Bool :=
  h.any fun x => x.1.counter? = some c

theorem performed_eq (c : Counter) (h : List (Sigma (@Op.Ans Fn))) :
    performed c h = decide (0 < total (Op.weight c) h) := by
  induction h with
  | nil => rfl
  | cons x h ih =>
    unfold performed
    rw [List.any_cons, ← performed, ih, total_cons, Op.weight]
    split
    · next hx => simp [hx]
    · next hx => simp [hx]

theorem Op.nonempty_ans (store : KvStore Fn) : ∀ op : Op Fn, Nonempty op.Ans
  | .load => ⟨store⟩
  | .get _ _ => ⟨(none : Option Value)⟩
  | .incrementRequests => ⟨()⟩
  | .incrementHits => ⟨()⟩
  | .incrementMisses => ⟨()⟩
  | .incrementErrors => ⟨()⟩
  | .recordLatency => ⟨()⟩

theorem total_le_of_prefix {c : Counter} {l l' : List (Sigma (@Op.Ans Fn))} (h : l <+: l') :
    total (Op.weight c) l ≤ total (Op.weight c) l' := by
  obtain ⟨t, rfl⟩ := h
  rw [total_append]
  exact Nat.le_add_right _ _

/-- A call records its latency right before it counts its request, and both at most once. -/
theorem KvServiceImpl.latency_of_path {req : Request} {t : Handler Fn (Except Status Response)}
    (store : KvStore Fn) (hp : (handle req).Path h t) :
    total (Op.weight .latency) h = total (Op.weight .requests) h +
      if performed .latency h && !performed .requests h then 1 else 0 := by
  obtain ⟨h', r, hr⟩ := hp.exists_returns (Op.nonempty_ans store)
  have hpre : counted h <+: counted (h ++ h') := ⟨counted h', (counted_append h h').symm⟩
  have hzero {c : Counter} (found : List (Key × Option Value)) (hc : c.ofEntries
      (found.map fun x => GetResponse.ofLookup x.2) = 0) {l : List (Sigma (@Op.Ans Fn))}
      (hl : l <+: lookupCounts found) : total (Op.weight c) l = 0 := by
    have := total_le_of_prefix (c := c) hl
    rw [total_lookupCounts, hc] at this
    exact Nat.le_zero.mp this
  simp only [performed_eq, ← total_counted (h := h)]
  rcases r with status | resp
  · obtain ⟨found, _, _, _, _, hc, _⟩ := counted_of_handle_err hr
    rw [hc] at hpre
    rcases List.prefix_concat_iff.mp hpre with hl | hl
    · rw [hl]
      simp [total_lookupCounts, Counter.ofEntries, Op.weight, Op.counter?]
    · rw [hzero found rfl hl, hzero found rfl hl]
      rfl
  · obtain ⟨found, _, hc, _⟩ := counted_of_handle hr
    have hsplit : lookupCounts found ++ [⟨.recordLatency, ()⟩, ⟨.incrementRequests, ()⟩] =
        lookupCounts found ++ [⟨.recordLatency, ()⟩] ++
          [(⟨.incrementRequests, ()⟩ : Sigma (@Op.Ans Fn))] := by simp
    rw [hc, hsplit] at hpre
    rcases List.prefix_concat_iff.mp hpre with hl | hl
    · rw [hl]
      simp [total_lookupCounts, Counter.ofEntries, Op.weight, Op.counter?]
    rcases List.prefix_concat_iff.mp hl with hl | hl
    · rw [hl]
      simp [total_lookupCounts, Counter.ofEntries, Op.weight, Op.counter?]
    · rw [hzero found rfl hl, hzero found rfl hl]
      rfl

def Reply.isOk : KvEvent Fn → Bool
  | .ret _ (.ok _) => true
  | _ => false

def Reply.isErr : KvEvent Fn → Bool
  | .ret _ (.error _) => true
  | _ => false

def Reply.isRet : KvEvent Fn → Bool
  | .ret _ _ => true
  | _ => false

/-- The entries of all successful responses. -/
def Reply.entries (tr : List (KvEvent Fn)) : List GetResponse :=
  tr.flatMap fun
    | .ret _ (.ok resp) => resp.entries
    | _ => []

theorem countP_isRet (tr : List (KvEvent Fn)) :
    tr.countP Reply.isRet = tr.countP Reply.isOk + tr.countP Reply.isErr := by
  induction tr with
  | nil => rfl
  | cons e tr ih =>
    simp only [List.countP_cons, ih]
    rcases e with _ | _ | ⟨_, _ | _⟩ | _ <;> simp [Reply.isRet, Reply.isOk, Reply.isErr] <;> omega

/-- The call has recorded its latency and not yet counted its request. -/
def inTransit (tr : List (KvEvent Fn)) (id : ℕ) : Bool :=
  performed .latency (stepsOf id tr) && !performed .requests (stepsOf id tr)

theorem total_entries {c : Counter} (hc : c = .hits ∨ c = .misses) (tr : List (KvEvent Fn)) :
    total (Event.retWeight c.ofResult) tr = c.ofEntries (Reply.entries tr) := by
  induction tr with
  | nil => rcases hc with rfl | rfl <;> rfl
  | cons e tr ih =>
    have he : c.ofEntries (Reply.entries (e :: tr)) =
        c.ofEntries (Reply.entries [e]) + c.ofEntries (Reply.entries tr) := by
      rcases hc with rfl | rfl <;> simp [Counter.ofEntries, Reply.entries]
    rw [total_cons, ih, he]
    congr 1
    rcases hc with rfl | rfl <;> rcases e with _ | _ | ⟨_, _ | _⟩ | _ <;>
      simp [Event.retWeight, Counter.ofResult, Counter.ofEntries, Reply.entries]

variable {metrics : Metrics} {tr : List (KvEvent Fn)} {id : ℕ}
  {p : Pool (Op Fn) Op.Ans (KvServiceImpl Fn) (Except Status Response)}

section Run

variable (hr : Run (kvService ph).Step ⟨.new store .new, []⟩ tr p)

include hr

theorem read_of_run (c : Counter) :
    p.shared.metrics.read c = total (Event.stepWeight (Op.weight c)) tr := by
  have h := Service.counter_of_run (c := fun s => s.metrics.read c) hr
    (fun _ _ _ _ he => Op.read_of_exec he c) (fun _ _ => rfl)
  have h0 : (KvServiceImpl.new store .new).metrics.read c = 0 := by cases c <;> rfl
  rw [h, h0, Nat.zero_add]

theorem read_eq_sum (c : Counter) : p.shared.metrics.read c =
    ∑ id ∈ Finset.range p.calls.length, total (Op.weight c) (stepsOf id tr) := by
  rw [read_of_run hr, Service.total_eq_sum hr fun _ => rfl]
  simp only [total_stepWeight, stepsOf]

theorem latency_of_run : p.shared.metrics.latency = p.shared.metrics.requestsTotal +
    ((Finset.range p.calls.length).filter fun id => inTransit tr id).card := by
  have hl := read_eq_sum hr .latency
  have hq := read_eq_sum hr .requests
  simp only [Metrics.read] at hl hq
  rw [hl, hq, Finset.card_filter, ← Finset.sum_add_distrib]
  refine Finset.sum_congr rfl fun id hid => ?_
  obtain ⟨req, t, hp⟩ := Service.exists_path hr (Finset.mem_range.mp hid)
  exact KvServiceImpl.latency_of_path store hp

theorem read_of_quiet (hq : Service.Quiet p) {c : Counter} (hh : c ≠ .hits) (hm : c ≠ .misses) :
    p.shared.metrics.read c = total (Event.retWeight c.ofResult) tr := by
  rw [read_of_run hr]
  refine Service.total_of_quiet hr hq fun id req r _ hret => ?_
  rcases r with status | resp
  · exact KvServiceImpl.total_of_handle_err hret hh hm
  · exact KvServiceImpl.total_of_handle hret c

/-- In every state of every run the latencies exceed the requests by the calls that have recorded
one and not yet counted themselves; when no call is in flight each one is counted once. -/
theorem every_call_counted_once :
    p.shared.metrics.latency = p.shared.metrics.requestsTotal +
        ((Finset.range p.calls.length).filter fun id => inTransit tr id).card ∧
      (Service.Quiet p → p.shared.metrics.requestsTotal = p.shared.metrics.latency ∧
        p.shared.metrics.latency = tr.countP Reply.isOk ∧
        p.shared.metrics.errorsTotal = tr.countP Reply.isErr ∧
        p.shared.metrics.requestsTotal + p.shared.metrics.errorsTotal = tr.countP Reply.isRet) := by
  refine ⟨latency_of_run hr, fun hq => ?_⟩
  have hreq := read_of_quiet hr hq (c := .requests) (by decide) (by decide)
  have hlat := read_of_quiet hr hq (c := .latency) (by decide) (by decide)
  have herr := read_of_quiet hr hq (c := .errors) (by decide) (by decide)
  have hok : total (Event.retWeight (Counter.ofResult .requests)) tr = tr.countP Reply.isOk :=
    total_eq_countP (by rintro (_ | _ | ⟨_, _ | _⟩ | _) <;> rfl)
  have hok' : total (Event.retWeight (Counter.ofResult .latency)) tr = tr.countP Reply.isOk :=
    total_eq_countP (by rintro (_ | _ | ⟨_, _ | _⟩ | _) <;> rfl)
  have hbad : total (Event.retWeight (Counter.ofResult .errors)) tr = tr.countP Reply.isErr :=
    total_eq_countP (by rintro (_ | _ | ⟨_, _ | _⟩ | _) <;> rfl)
  have hall : tr.countP Reply.isRet = tr.countP Reply.isOk + tr.countP Reply.isErr :=
    countP_isRet tr
  simp only [Metrics.read] at hreq hlat herr
  rw [hreq, hlat, herr, hok, hok', hbad, hall]
  exact ⟨rfl, rfl, rfl, rfl⟩

end Run

theorem every_call_counted_once_batchRun :
    ∃ p, Run (kvService listIndex).Step ⟨.new (flatStore 1) .new, []⟩ batchRun p ∧
      Service.Quiet p ∧
      p.shared.metrics.latency = p.shared.metrics.requestsTotal +
        ((Finset.range p.calls.length).filter fun id => inTransit batchRun id).card ∧
      p.shared.metrics.requestsTotal = p.shared.metrics.latency ∧
      p.shared.metrics.latency = batchRun.countP Reply.isOk ∧
      p.shared.metrics.errorsTotal = batchRun.countP Reply.isErr ∧
      p.shared.metrics.requestsTotal + p.shared.metrics.errorsTotal =
        batchRun.countP Reply.isRet := by
  obtain ⟨p, hp, hq⟩ := run_batchRun
  obtain ⟨hall, hquiet⟩ := every_call_counted_once hp
  exact ⟨p, hp, hq, hall, hquiet hq⟩

end LowLatencyKv
