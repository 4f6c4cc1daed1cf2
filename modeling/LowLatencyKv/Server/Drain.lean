import LowLatencyKv.Concurrency.Progress
import LowLatencyKv.Server.Scrape
import LowLatencyKv.Store.Contents

/-! # Calls finish

No call waits for another one. It takes a number of steps that its request bounds,
the next of which is always possible if the records of all stores lie in their
files. So a server that gets no more calls comes to rest.
-/

namespace LowLatencyKv

open Rust Concurrency

variable {Fn : Type} {store : KvStore Fn} {key : List UInt8} {keys : List (List UInt8)} {k : Key}
  {results : List GetResponse} {h : List (Sigma (@Op.Ans Fn))}

def Request.budget : Request → ℕ
  | .get _ => 5
  | .batchGet keys => 2 * keys.length + 3

def ProbeRequest.budget (registry : Registry) : ProbeRequest → ℕ
  | .health => 1
  | .http _ => registry.order.length

def serverBudget (registry : Registry) : Request ⊕ ProbeRequest → ℕ
  | .inl req => req.budget
  | .inr req => req.budget registry

namespace Handler

theorem atMost_lookup : (lookup store k).AtMost 2 := by
  refine .bind (m := 1) (n := 1) (.perform _) fun value => ?_
  rcases value with _ | v
  · exact .bind (m := 1) (n := 0) (.perform _) fun _ => .pure _
  · exact .bind (m := 1) (n := 0) (.perform _) fun _ => .pure _

end Handler

namespace KvServiceImpl

theorem atMost_get : (get key : Handler Fn _).AtMost 5 := by
  unfold get
  split
  · exact Thread.AtMost.mono (.bind (m := 1) (n := 0) (.perform _) fun _ => .pure _) (by decide)
  · cases keyOf key with
    | none =>
      exact Thread.AtMost.mono (.bind (m := 1) (n := 0) (.perform _) fun _ => .pure _) (by decide)
    | some k =>
      refine .bind (m := 1) (n := 4) (.perform _) fun _ => ?_
      refine .bind (m := 2) (n := 2) Handler.atMost_lookup fun _ => ?_
      refine .bind (m := 1) (n := 1) (.perform _) fun _ => ?_
      exact .bind (m := 1) (n := 0) (.perform _) fun _ => .pure _

theorem atMost_batchLoop : (batchLoop store keys results).AtMost (2 * keys.length) := by
  induction keys generalizing results with
  | nil => exact .pure _
  | cons key keys ih =>
    have herr {status : Status} : (Handler.incrementErrors >>= fun _ =>
        pure (.error status) : Handler Fn (Except Status (List GetResponse))).AtMost
          (2 * (key :: keys).length) := by
      refine Thread.AtMost.mono (.bind (m := 1) (n := 0) (.perform _) fun _ => .pure _) ?_
      rw [List.length_cons]
      omega
    rw [batchLoop]
    split
    · exact herr
    · cases keyOf key with
      | none => exact herr
      | some k =>
        rw [List.length_cons, Nat.mul_succ]
        exact .bind Handler.atMost_lookup fun _ => ih

theorem atMost_batchGet : (batchGet keys : Handler Fn _).AtMost (2 * keys.length + 3) := by
  unfold batchGet
  rw [Nat.add_comm _ 3, Nat.add_comm 3]
  refine .bind (m := 1) (n := 2 * keys.length + 2) (.perform _) fun store => ?_
  rw [Nat.add_comm]
  refine .bind atMost_batchLoop fun r => ?_
  rcases r with status | rs
  · exact .pure _
  · refine .bind (m := 1) (n := 1) (.perform _) fun _ => ?_
    exact .bind (m := 1) (n := 0) (.perform _) fun _ => .pure _

theorem atMost_handle (req : Request) : (handle req : Handler Fn _).AtMost req.budget := by
  cases req with
  | get key => exact .bind (m := 5) (n := 0) atMost_get fun _ => .pure _
  | batchGet keys =>
    have h : (handle (.batchGet keys) : Handler Fn _).AtMost (0 + (2 * keys.length + 3)) :=
      .bind atMost_batchGet fun _ => .pure _
    rwa [Nat.zero_add] at h

end KvServiceImpl

namespace Probe

variable {registry : Registry}

theorem atMost_gather (cs : List Counter) (values : Counter → ℕ) :
    (gather cs values : Probe Fn _).AtMost cs.length := by
  induction cs generalizing values with
  | nil => exact .pure _
  | cons c cs ih => exact .bind (m := 1) (.perform _) fun _ => ih _

theorem atMost_handle (req : ProbeRequest) :
    (handle registry req : Probe Fn _).AtMost (req.budget registry) := by
  cases req with
  | health =>
    refine .bind (m := 1) (n := 0) ?_ fun _ => .pure _
    exact .bind (m := 1) (n := 0) (.perform _) fun _ => .pure _
  | http path =>
    refine Thread.AtMost.mono (.bind (m := registry.order.length) (n := 0) ?_ fun _ => .pure _)
      (Nat.zero_add _).le
    unfold metricsService
    split_ifs
    · refine Thread.AtMost.mono (.bind (m := registry.order.length) (n := 0) ?_ fun _ => .pure _)
        (Nat.zero_add _).le
      exact Thread.AtMost.mono (.bind (n := 0) (atMost_gather _ _) fun _ => .pure _)
        (Nat.zero_add _).le
    · exact .pure _
    · exact .pure _

end Probe

theorem atMost_server {ph : Ph Fn} {registry : Registry} (req : Request ⊕ ProbeRequest) :
    ((server ph registry).handle req).AtMost (serverBudget registry req) := by
  cases req with
  | inl req =>
    have h : (KvServiceImpl.handle req : Handler Fn _).AtMost req.budget :=
      KvServiceImpl.atMost_handle req
    exact h.lift (i := Sum.inl) (g := Sum.inl)
  | inr req =>
    have h : (Probe.handle registry req : Probe Fn _).AtMost (req.budget registry) :=
      Probe.atMost_handle req
    exact h.lift (i := Sum.inr) (g := Sum.inr)

/-- Neither a request nor an error has been counted. -/
def Uncounted (h : List (Sigma (@Op.Ans Fn))) : Prop :=
  ∀ c ∈ [Counter.requests, .errors], total (Op.weight c) h = 0

theorem Uncounted.append {h' : List (Sigma (@Op.Ans Fn))} (h₀ : Uncounted h)
    (h₁ : Uncounted h') : Uncounted (h ++ h') := by
  intro c hc
  rw [total_append, h₀ c hc, h₁ c hc]

theorem uncounted_load : Uncounted [⟨.load, store⟩] := by
  rintro c _
  cases c <;> rfl

theorem uncounted_lookup {value : Option Value} :
    Uncounted [⟨.get store k, value⟩, Op.countOf value] := by
  intro c hc
  rcases value with _ | v <;> cases c <;> first | rfl | simp at hc

/-- A lookup asks a store that was loaded before, and comes before the counts of its call. -/
def Op.Ready (h : List (Sigma (@Op.Ans Fn))) (op : Op Fn) : Prop :=
  ∀ store key, op = .get store key → ⟨.load, store⟩ ∈ h ∧ Uncounted h

theorem Op.ready_load : Op.Ready h (.load : Op Fn) := by
  rintro store key he
  cases he

theorem Op.ready_of_counter {op : Op Fn} (hc : op.counter?.isSome) : Op.Ready h op := by
  rintro store key rfl
  cases hc

theorem Handler.asks_lookup (hs : ⟨.load, store⟩ ∈ h) (h₀ : Uncounted h) :
    (lookup store k).Asks Op.Ready h := by
  have hget : Op.Ready h (Op.get store k) := by
    rintro s key he
    cases he
    exact ⟨hs, h₀⟩
  refine .bind (.perform hget) fun h' value _ => ?_
  rcases value with _ | v
  · exact .bind (.perform (Op.ready_of_counter rfl)) fun _ _ _ => .pure _
  · exact .bind (.perform (Op.ready_of_counter rfl)) fun _ _ _ => .pure _

namespace KvServiceImpl

theorem asks_get : (get key : Handler Fn _).Asks Op.Ready [] := by
  unfold get
  split
  · exact .bind (.perform (Op.ready_of_counter rfl)) fun _ _ _ => .pure _
  · cases keyOf key with
    | none => exact .bind (.perform (Op.ready_of_counter rfl)) fun _ _ _ => .pure _
    | some k =>
      refine .bind (.perform Op.ready_load) fun h' store hr => ?_
      obtain rfl := Handler.returns_load_iff.mp hr
      refine .bind (Handler.asks_lookup (by simp) uncounted_load) fun _ _ _ => ?_
      refine .bind (.perform (Op.ready_of_counter rfl)) fun _ _ _ => ?_
      exact .bind (.perform (Op.ready_of_counter rfl)) fun _ _ _ => .pure _

theorem asks_batchLoop (hs : ⟨.load, store⟩ ∈ h) (h₀ : Uncounted h) :
    (batchLoop store keys results).Asks Op.Ready h := by
  induction keys generalizing results h with
  | nil => exact .pure _
  | cons key keys ih =>
    rw [batchLoop]
    split
    · exact .bind (.perform (Op.ready_of_counter rfl)) fun _ _ _ => .pure _
    · cases keyOf key with
      | none => exact .bind (.perform (Op.ready_of_counter rfl)) fun _ _ _ => .pure _
      | some k =>
        refine .bind (Handler.asks_lookup hs h₀) fun h' r hr => ?_
        obtain ⟨value, rfl, rfl⟩ := Handler.returns_lookup_iff.mp hr
        exact ih (List.mem_append_left _ hs) (h₀.append uncounted_lookup)

theorem asks_batchGet : (batchGet keys : Handler Fn _).Asks Op.Ready [] := by
  unfold batchGet
  refine .bind (.perform Op.ready_load) fun h' store hr => ?_
  obtain rfl := Handler.returns_load_iff.mp hr
  refine .bind (asks_batchLoop (by simp) uncounted_load) fun _ r _ => ?_
  rcases r with status | rs
  · exact .pure _
  · refine .bind (.perform (Op.ready_of_counter rfl)) fun _ _ _ => ?_
    exact .bind (.perform (Op.ready_of_counter rfl)) fun _ _ _ => .pure _

theorem asks_handle (req : Request) : (handle req : Handler Fn _).Asks Op.Ready [] := by
  cases req with
  | get key => exact .bind asks_get fun _ _ _ => .pure _
  | batchGet keys => exact .bind asks_batchGet fun _ _ _ => .pure _

end KvServiceImpl

def ServerOp.Loaded (h : List (Sigma (Sum.elim (@Op.Ans Fn) (ProbeOp.Ans Fn)))) :
    Op Fn ⊕ ProbeOp → Prop
  | .inl (.get store _) => ⟨.inl .load, store⟩ ∈ h
  | _ => True

theorem asks_server (ph : Ph Fn) (registry : Registry) (req : Request ⊕ ProbeRequest) :
    ((server ph registry).handle req).Asks ServerOp.Loaded [] := by
  cases req with
  | inl req =>
    have h : (KvServiceImpl.handle req : Handler Fn _).Asks Op.Ready [] :=
      KvServiceImpl.asks_handle req
    refine h.lift_nil (i := Sum.inl) (g := Sum.inl) fun h op hop => ?_
    cases op with
    | get store key => exact List.mem_map_of_mem (hop store key rfl).1
    | _ => trivial
  | inr req =>
    have h : (Probe.handle registry req : Probe Fn _).Asks (fun _ _ => True) [] :=
      Thread.asks_true _ _
    exact h.lift_nil (i := Sum.inr) (g := Sum.inr) fun h op _ => trivial

/-- The only operation that does not return is a lookup that panics. -/
theorem server_exec_eq_none_iff {ph : Ph Fn} {registry : Registry} {op : Op Fn ⊕ ProbeOp}
    {s : KvServiceImpl Fn} : (server ph registry).exec op s = none ↔
      ∃ store key, op = .inl (.get store key) ∧ store.get ph key = .panic := by
  constructor
  · intro h
    rcases op with op | op
    · cases op with
      | get store key =>
        replace h : (Op.get store key).exec ph s = none := h
        rw [Op.exec] at h
        split at h
        · cases h
        · next hp => exact ⟨store, key, rfl, hp⟩
      | _ => cases h
    · cases op <;> cases h
  · rintro ⟨store, key, rfl, hp⟩
    exact Op.exec_get_panic hp

theorem uniform_server {ph : Ph Fn} {registry : Registry} : (server ph registry).Uniform := by
  intro op s s' h
  exact server_exec_eq_none_iff.mpr (server_exec_eq_none_iff.mp h)

section Run

variable {ph : Ph Fn} {registry : Registry} {metrics : Metrics} {tr : List (ServerEvent Fn)}
  {p : ServerPool Fn} {id : ℕ}
  (hr : Run (server ph registry).Step ⟨.new store metrics, []⟩ tr p)

include hr

theorem of_asked {P : KvStore Fn → Prop} {s : KvStore Fn} {k : Key}
    {next : Option Value → Thread (Op Fn ⊕ ProbeOp) (Sum.elim Op.Ans (ProbeOp.Ans Fn))
      (Except Status Response ⊕ ProbeResponse)} (hs : P store) (hact : ∀ x, .act x ∈ tr → P x)
    (hc : p.calls[id]? = some (.running (.ask (.inl (.get s k)) next))) : P s := by
  obtain ⟨req, _, hp⟩ := Service.exists_call_of_running hr hc
  obtain ⟨hloaded, _⟩ := (asks_server ph registry req).path hp
  obtain ⟨e, he, hstep⟩ := List.mem_filterMap.mp hloaded
  obtain ⟨i, hi⟩ := List.mem_iff_getElem?.mp (List.mem_of_mem_filter he)
  obtain ⟨q, q', hq, hs'⟩ := hr.exists_step hi
  have hb : P q.shared.store := store_of_server_run hq hs fun x hx =>
    hact x (List.mem_of_mem_take hx)
  cases hs' with
  | step _ hx =>
    cases hstep
    cases hx
    exact hb
  | _ => cases hstep

variable (hs : store.InBounds) (hact : ∀ x, .act x ∈ tr → x.InBounds)

include hs hact

theorem unblocked_of_run : (server ph registry).Unblocked p := by
  intro id op next hc
  by_contra hnone
  rw [Option.not_isSome_iff_eq_none, server_exec_eq_none_iff] at hnone
  obtain ⟨s, key, rfl, hpanic⟩ := hnone
  have hb : s.InBounds := of_asked hr hs hact hc
  exact nomatch (KvStore.get_eq hb key).symm.trans hpanic

/-- No call takes more steps than its request allows or waits for another one, and without new
calls and reloads all calls in flight can end. -/
theorem calls_finish :
    (∀ id req, .call id req ∈ tr → (stepsOf id tr).length ≤ serverBudget registry req) ∧
      (server ph registry).Unblocked p ∧
      ∃ tr' p', Service.Continues (server ph registry) (.new store metrics) tr p tr' p' ∧
        Service.Quiet p' := by
  refine ⟨fun id req hm => ?_, unblocked_of_run hr hs hact, ?_⟩
  · obtain ⟨t, hp⟩ := Service.exists_path_of_call hr hm
    exact (atMost_server req).length_le hp
  · obtain ⟨tr', p', hc, hsettled⟩ := Service.exists_all_settled uniform_server hr
    have hU : (server ph registry).Unblocked p' := unblocked_of_run hc.run hs fun x hx => by
      rcases List.mem_append.mp hx with hx | hx
      · exact hact x hx
      · obtain ⟨id, hid⟩ := hc.own _ hx
        cases hid
    exact ⟨tr', p', hc, hU.quiet hsettled⟩

end Run

theorem inBounds_flatStore (v : UInt8) : (flatStore v).InBounds := by
  rw [KvStore.inBounds_iff]
  have hl : (flatStore v).mmap.len = 320 := Record.length_asBytes _
  rw [hl]
  exact Or.inr (le_refl 320)

theorem calls_finish_scrapeRun : ∃ p,
    Run (server listIndex lineRegistry).Step ⟨.new (flatStore 1) .new, []⟩ scrapeRun p ∧
      (∀ id req, .call id req ∈ scrapeRun →
        (stepsOf id scrapeRun).length ≤ serverBudget lineRegistry req) ∧
      (server listIndex lineRegistry).Unblocked p ∧
      ∃ tr' p', Service.Continues (server listIndex lineRegistry) (.new (flatStore 1) .new)
        scrapeRun p tr' p' ∧ Service.Quiet p' := by
  obtain ⟨p, hp, _⟩ := run_scrapeRun
  have hact : ∀ x, .act x ∈ scrapeRun → x.InBounds := by simp [scrapeRun]
  exact ⟨p, hp, calls_finish hp (inBounds_flatStore 1) hact⟩

end LowLatencyKv
