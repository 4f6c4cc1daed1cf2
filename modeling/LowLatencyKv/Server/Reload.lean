import LowLatencyKv.Server.Service
import LowLatencyKv.Store.ListIndex

/-! # Hot reload

However lookups and reloads interleave, each successful response comes from one
store, which was the current one at the load step of its call. A later call is
never answered from an earlier store.
-/

namespace LowLatencyKv

open Rust Concurrency

variable {Fn : Type} {ph : Ph Fn} {store : KvStore Fn} {h : List (Sigma (@Op.Ans Fn))}

namespace KvServiceImpl

theorem history_of_get {key : List UInt8} {r : GetResponse} (hr : (get key).Returns h (.ok r)) :
    ∃ (k : Key) (store : KvStore Fn) (value : Option Value), k.toList = key ∧
      h = [⟨.load, store⟩, ⟨.get store k, value⟩, Op.countOf value, ⟨.recordLatency, ()⟩,
        ⟨.incrementRequests, ()⟩] ∧ r = .ofLookup value := by
  rw [get] at hr
  split at hr
  · simp at hr
  · next hlen =>
    rw [keyOf, dif_pos (not_not.mp hlen)] at hr
    simp only [Thread.returns_bind_iff, Handler.returns_load_iff, Handler.returns_lookup_iff,
      Handler.returns_recordLatency_iff, Handler.returns_incrementRequests_iff,
      Thread.returns_pure_iff] at hr
    obtain ⟨_, store, rfl, _, ⟨_, r', ⟨value, rfl, rfl⟩, _, ⟨_, _, rfl, _, ⟨_, _, rfl, _,
      ⟨rfl, hok⟩, rfl⟩, rfl⟩, rfl⟩, rfl⟩ := hr
    exact ⟨_, store, value, rfl, rfl, Except.ok.inj hok⟩

theorem history_of_batchLoop {keys : List (List UInt8)} {results rs : List GetResponse}
    (hr : (batchLoop store keys results).Returns h (.ok rs)) :
    ∃ found : List (Key × Option Value), keys = found.map (fun x => x.1.toList) ∧
      h = found.flatMap (fun x => [⟨.get store x.1, x.2⟩, Op.countOf x.2]) ∧
      rs = results ++ found.map (fun x => .ofLookup x.2) := by
  induction keys generalizing results h with
  | nil =>
    obtain ⟨rfl, hok⟩ := Thread.returns_pure_iff.mp hr
    exact ⟨[], rfl, rfl, by rw [List.map_nil, List.append_nil, Except.ok.inj hok]⟩
  | cons key keys ih =>
    rw [batchLoop] at hr
    split at hr
    · simp at hr
    · next hlen =>
      rw [keyOf, dif_pos (not_not.mp hlen)] at hr
      obtain ⟨_, _, hl, _, hrest, rfl⟩ := Thread.returns_bind_iff.mp hr
      obtain ⟨value, rfl, rfl⟩ := Handler.returns_lookup_iff.mp hl
      obtain ⟨found, rfl, rfl, rfl⟩ := ih hrest
      exact ⟨(_, value) :: found, rfl, rfl, by simp⟩

theorem history_of_batchGet {keys : List (List UInt8)} {r : BatchGetResponse}
    (hr : (batchGet keys).Returns h (.ok r)) :
    ∃ (store : KvStore Fn) (found : List (Key × Option Value)),
      keys = found.map (fun x => x.1.toList) ∧
      h = ⟨.load, store⟩ :: found.flatMap (fun x => [⟨.get store x.1, x.2⟩, Op.countOf x.2]) ++
        [⟨.recordLatency, ()⟩, ⟨.incrementRequests, ()⟩] ∧
      r.results = found.map (fun x => .ofLookup x.2) := by
  obtain ⟨_, store, hl, _, hrest, rfl⟩ := Thread.returns_bind_iff.mp hr
  obtain rfl := Handler.returns_load_iff.mp hl
  obtain ⟨_, res, hloop, _, hend, rfl⟩ := Thread.returns_bind_iff.mp hrest
  rcases res with _ | rs
  · simp at hend
  · obtain ⟨found, rfl, rfl, rfl⟩ := history_of_batchLoop hloop
    simp only [Thread.returns_bind_iff, Handler.returns_recordLatency_iff,
      Handler.returns_incrementRequests_iff, Thread.returns_pure_iff] at hend
    obtain ⟨_, _, rfl, _, ⟨_, _, rfl, _, ⟨rfl, hok⟩, rfl⟩, rfl⟩ := hend
    refine ⟨store, found, rfl, rfl, ?_⟩
    rw [Except.ok.inj hok, List.nil_append]

end KvServiceImpl

/-- The entry says what the store holds under the key. -/
def KvStore.Entry (ph : Ph Fn) (store : KvStore Fn) (key : List UInt8) (r : GetResponse) : Prop :=
  ∃ k : Key, k.toList = key ∧ ∃ value, store.get ph k = .ok value ∧ r = .ofLookup value

/-- Every entry of the response comes from this store. -/
def KvStore.Answers (ph : Ph Fn) (store : KvStore Fn) : Request → Response → Prop
  | .get key, .get r => store.Entry ph key r
  | .batchGet keys, .batchGet r => List.Forall₂ (store.Entry ph) keys r.results
  | _, _ => False

/-- If lookups answer what their store holds, a successful response comes from the loaded store. -/
theorem KvServiceImpl.answers_of_handle {req : Request} {resp : Response}
    (hr : (handle req).Returns h (.ok resp))
    (ht : ∀ store key value, ⟨.get store key, value⟩ ∈ h → store.get ph key = .ok value) :
    ∃ s : KvStore Fn, ⟨.load, s⟩ ∈ h ∧ s.Answers ph req resp := by
  cases req with
  | get key =>
    obtain ⟨r, hg, rfl⟩ := Thread.returns_map_ok_iff.mp hr
    obtain ⟨k, s, value, rfl, rfl, rfl⟩ := history_of_get hg
    exact ⟨s, by simp, k, rfl, value, ht s k value (by simp), rfl⟩
  | batchGet keys =>
    obtain ⟨r, hg, rfl⟩ := Thread.returns_map_ok_iff.mp hr
    obtain ⟨s, found, rfl, rfl, hres⟩ := history_of_batchGet hg
    refine ⟨s, by simp, ?_⟩
    rw [KvStore.Answers, hres, List.forall₂_map_left_iff, List.forall₂_map_right_iff,
      List.forall₂_same]
    intro x hx
    refine ⟨x.1, rfl, x.2, ht s x.1 x.2 ?_, rfl⟩
    simp only [List.cons_append, List.mem_cons, List.mem_append, List.mem_flatMap]
    exact Or.inr (Or.inl ⟨x, hx, Or.inl rfl⟩)

/-- The events of the service. An action of others is a reload with a new store. -/
abbrev KvEvent (Fn : Type) : Type :=
  Event (@Op.Ans Fn) Request (Except Status Response) (KvStore Fn)

/-- The stores installed so far, the last of which is current. -/
def installed (store : KvStore Fn) (tr : List (KvEvent Fn)) : List (KvStore Fn) :=
  store :: tr.filterMap Event.act?

variable {metrics : Metrics} {tr : List (KvEvent Fn)} {id k : ℕ}
  {p : Pool (Op Fn) Op.Ans (KvServiceImpl Fn) (Except Status Response)}

theorem installed_mono {a b : ℕ} (hab : a ≤ b) :
    (installed store (tr.take a)).length ≤ (installed store (tr.take b)).length := by
  have hp : tr.take a <+: tr.take b := List.take_prefix_take_left hab
  exact Nat.succ_le_succ (hp.filterMap _).length_le

section Run

variable (hr : Run (kvService ph).Step ⟨.new store metrics, []⟩ tr p)

include hr

theorem store_of_run : (installed store tr).getLast? = some p.shared.store := by
  induction hr with
  | nil => rfl
  | @snoc tr q _ e _ hs ih =>
    have hi : installed store (tr ++ [e]) = installed store tr ++ [e].filterMap Event.act? := by
      rw [installed, installed, List.filterMap_append, List.cons_append]
    rw [hi]
    cases hs with
    | call req => simpa [Event.act?] using ih
    | step _ he => simpa [Event.act?, Op.exec_store he] using ih
    | ret _ => simpa [Event.act?] using ih
    | act newStore => exact List.getLast?_concat

theorem installed_of_load {s : KvStore Fn} (hk : tr[k]? = some (.step id ⟨.load, s⟩)) :
    (installed store (tr.take k)).getLast? = some s := by
  obtain ⟨q, q', hq, hs⟩ := hr.exists_step hk
  rw [store_of_run hq]
  cases hs with
  | step _ he => exact congrArg some (Prod.ext_iff.mp (Option.some.inj he)).1

theorem get_of_step {s : KvStore Fn} {key : Key} {value : Option Value}
    (hk : tr[k]? = some (.step id ⟨.get s key, value⟩)) : s.get ph key = .ok value := by
  obtain ⟨q, q', _, hs⟩ := hr.exists_step hk
  cases hs with
  | step _ he => exact Op.get_of_exec he

/-- A successful call is answered by the store that was current at a load step between its start
and its end. -/
theorem exists_load {j : ℕ} {resp : Response} (hj : tr[j]? = some (.ret id (.ok resp))) :
    ∃ k i req s, tr[i]? = some (.call id req) ∧ i < k ∧ k < j ∧
      tr[k]? = some (.step id ⟨.load, s⟩) ∧ (installed store (tr.take k)).getLast? = some s ∧
      s.Answers ph req resp := by
  obtain ⟨i, req, h, hi, _, hret, hsteps⟩ := Service.exists_history_of_ret hr hj
  have ht : ∀ store key value, ⟨.get store key, value⟩ ∈ h → store.get ph key = .ok value := by
    intro store key value hm
    obtain ⟨k, _, _, hk⟩ := hsteps _ hm
    exact get_of_step hr hk
  obtain ⟨s, hm, ha⟩ := KvServiceImpl.answers_of_handle hret ht
  obtain ⟨k, hik, hkj, hk⟩ := hsteps _ hm
  exact ⟨k, i, req, s, hi, hik, hkj, hk, installed_of_load hr hk, ha⟩

end Run

/-- In every run each successful response is computed from the store current at one load step of
its call, and a call that starts after another returned is not answered from an older store. -/
theorem reload_isolation (hr : Run (kvService ph).Step ⟨.new store metrics, []⟩ tr p) :
    ∃ load : ℕ → ℕ,
      (∀ j id resp, tr[j]? = some (.ret id (.ok resp)) →
        ∃ i req s, tr[i]? = some (.call id req) ∧ i < load j ∧ load j < j ∧
          tr[load j]? = some (.step id ⟨.load, s⟩) ∧
          (installed store (tr.take (load j))).getLast? = some s ∧ s.Answers ph req resp) ∧
      ∀ j id resp i id' req' j' resp', tr[j]? = some (.ret id (.ok resp)) →
        tr[i]? = some (.call id' req') → tr[j']? = some (.ret id' (.ok resp')) → j < i →
        (installed store (tr.take (load j))).length ≤
          (installed store (tr.take (load j'))).length := by
  have hload : ∀ j, ∃ k, ∀ id resp, tr[j]? = some (.ret id (.ok resp)) →
      ∃ i req s, tr[i]? = some (.call id req) ∧ i < k ∧ k < j ∧
        tr[k]? = some (.step id ⟨.load, s⟩) ∧ (installed store (tr.take k)).getLast? = some s ∧
        s.Answers ph req resp := by
    intro j
    by_cases hj : ∃ id resp, tr[j]? = some (.ret id (.ok resp))
    · obtain ⟨id, resp, hj⟩ := hj
      obtain ⟨k, i, req, s, hk⟩ := exists_load hr hj
      refine ⟨k, fun id' resp' hj' => ?_⟩
      cases hj.symm.trans hj'
      exact ⟨i, req, s, hk⟩
    · exact ⟨0, fun id resp h => absurd ⟨id, resp, h⟩ hj⟩
  choose load hload using hload
  refine ⟨load, hload, fun j id resp i id' req' j' resp' hj hi hj' hji => ?_⟩
  obtain ⟨_, _, _, _, _, hlt, _⟩ := hload j id resp hj
  obtain ⟨_, _, _, _, _, _, hstep, _⟩ := hload j' id' resp' hj'
  have hlt' := Service.call_lt_step hr hi hstep
  exact installed_mono (by omega)

/-- Equal bytes under a key of zeros. -/
def flatRecord (v : UInt8) : Record := ⟨Arr.replicate keySize 0, Arr.replicate valueSize v⟩

/-- A store of one record. -/
def flatStore (v : UInt8) : KvStore (List Key) where
  mmap := ⟨(flatRecord v).asBytes, by rw [Record.length_asBytes]; decide⟩
  mphf := ⟨[(flatRecord v).key], 1⟩
  recordCount := 1
  dataOffset := 0
  versionInfo := ⟨0, 1, 320⟩

theorem get_flatStore (v : UInt8) :
    (flatStore v).get listIndex (flatRecord v).key = .ok (some (flatRecord v).value) := by
  have hs : (flatStore v).mphf.get listIndex (flatRecord v).key = some 0 := by
    rw [Mphf.get, listIndex_get, flatStore, ListIndex.get_of_mem (by simp), List.idxOf_cons_self]
    rfl
  have hr : (flatStore v).getRecord 0 = .ok (flatRecord v) := by
    have hl : (flatRecord v).asBytes.length = 320 := Record.length_asBytes _
    have hsl : slice (flatRecord v).asBytes 0 320 = .ok (flatRecord v).asBytes := by
      rw [slice_of_le (by decide) hl.ge, ← hl, sub_length]
    exact Outcome.bind_eq_ok_iff.mpr ⟨_, hsl, Record.fromBytes_asBytes _⟩
  have hk : (flatRecord v).keyEquals (flatRecord v).key = true := decide_eq_true rfl
  rw [KvStore.get, hs]
  simp only [hr, Outcome.ok_bind, Outcome.pure_eq_ok, hk]
  rfl

theorem exec_get_flatStore (v : UInt8) (s : KvServiceImpl (List Key)) :
    (Op.get (flatStore v) (flatRecord v).key).exec listIndex s =
      some (some (flatRecord v).value, s) :=
  Op.exec_get (get_flatStore v)

/-- A batch of two keys with a reload between them, and a lookup of the same key after it. -/
def batchRun : List (KvEvent (List Key)) :=
  [.call 0 (.batchGet [(flatRecord 1).key.toList, (flatRecord 1).key.toList]),
    .step 0 ⟨.load, flatStore 1⟩,
    .step 0 ⟨.get (flatStore 1) (flatRecord 1).key, some (flatRecord 1).value⟩,
    .step 0 ⟨.incrementHits, ()⟩, .act (flatStore 2),
    .step 0 ⟨.get (flatStore 1) (flatRecord 1).key, some (flatRecord 1).value⟩,
    .step 0 ⟨.incrementHits, ()⟩, .step 0 ⟨.recordLatency, ()⟩, .step 0 ⟨.incrementRequests, ()⟩,
    .ret 0 (.ok (.batchGet { results := .replicate 2 (.ofLookup (some (flatRecord 1).value)) })),
    .call 1 (.get (flatRecord 2).key.toList), .step 1 ⟨.load, flatStore 2⟩,
    .step 1 ⟨.get (flatStore 2) (flatRecord 2).key, some (flatRecord 2).value⟩,
    .step 1 ⟨.incrementHits, ()⟩, .step 1 ⟨.recordLatency, ()⟩, .step 1 ⟨.incrementRequests, ()⟩,
    .ret 1 (.ok (.get (.ofLookup (some (flatRecord 2).value))))]

set_option maxRecDepth 4000 in
theorem run_batchRun :
    ∃ p, Run (kvService listIndex).Step ⟨.new (flatStore 1) .new, []⟩ batchRun p ∧
      ∀ c ∈ p.calls, ∃ r, c = .returned r := by
  have hget (v s) := exec_get_flatStore v s
  refine ⟨_, ((((((((((((((((Run.nil.snoc (.call _)).snoc (.step rfl rfl)).snoc
    (.step rfl (hget 1 _))).snoc (.step rfl rfl)).snoc (.act _)).snoc (.step rfl (hget 1 _))).snoc
    (.step rfl rfl)).snoc (.step rfl rfl)).snoc (.step rfl rfl)).snoc (.ret rfl)).snoc
    (.call _)).snoc (.step rfl rfl)).snoc (.step rfl (hget 2 _))).snoc (.step rfl rfl)).snoc
    (.step rfl rfl)).snoc (.step rfl rfl)).snoc (.ret rfl), fun c hc => ?_⟩
  rcases List.mem_cons.mp hc with rfl | hc
  · exact ⟨_, rfl⟩
  · exact ⟨_, List.mem_singleton.mp hc⟩

theorem reload_isolation_batchRun :
    ∃ load : ℕ → ℕ,
      (∀ j id resp, batchRun[j]? = some (.ret id (.ok resp)) →
        ∃ i req s, batchRun[i]? = some (.call id req) ∧ i < load j ∧ load j < j ∧
          batchRun[load j]? = some (.step id ⟨.load, s⟩) ∧
          (installed (flatStore 1) (batchRun.take (load j))).getLast? = some s ∧
          s.Answers listIndex req resp) ∧
      ∀ j id resp i id' req' j' resp', batchRun[j]? = some (.ret id (.ok resp)) →
        batchRun[i]? = some (.call id' req') → batchRun[j']? = some (.ret id' (.ok resp')) →
        j < i → (installed (flatStore 1) (batchRun.take (load j))).length ≤
          (installed (flatStore 1) (batchRun.take (load j'))).length := by
  obtain ⟨p, hp, _⟩ := run_batchRun
  exact reload_isolation hp

end LowLatencyKv
