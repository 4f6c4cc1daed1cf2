import Mathlib.Algebra.BigOperators.Group.Finset.Piecewise
import LowLatencyKv.Concurrency.Pool

/-! # Totals over the calls of a run

A counter that operations raise holds the total of their weights in the trace, and
a total over a trace is the sum of its totals over the calls. Two totals agree if
they agree call by call, where the histories of the threads decide.
-/

namespace Concurrency

variable {Op : Type} {Ans : Op → Type} {σ Req ρ Act : Type} {α : Type}

def total (w : α → ℕ) : List α → ℕ
  | [] => 0
  | e :: tr => w e + total w tr

section Total

variable {w : α → ℕ} {l l' : List α}

@[simp] theorem total_nil : total w [] = 0 := rfl

@[simp] theorem total_cons (e : α) : total w (e :: l) = w e + total w l := rfl

@[simp] theorem total_append : total w (l ++ l') = total w l + total w l' := by
  induction l with
  | nil => rw [List.nil_append, total_nil, Nat.zero_add]
  | cons e l ih => rw [List.cons_append, total_cons, total_cons, ih, Nat.add_assoc]

theorem total_eq_zero (h : ∀ e ∈ l, w e = 0) : total w l = 0 := by
  induction l with
  | nil => rfl
  | cons e l ih =>
    rw [total_cons, h e List.mem_cons_self, ih fun e he => h e (List.mem_cons_of_mem _ he)]

theorem total_eq_countP {q : α → Bool} (h : ∀ e, w e = if q e then 1 else 0) :
    total w l = l.countP q := by
  induction l with
  | nil => rfl
  | cons e l ih => rw [total_cons, List.countP_cons, ih, h, Nat.add_comm]

end Total

/-- The weight of an operation, at the steps that perform it. -/
def Event.stepWeight (w : Sigma Ans → ℕ) : Event Ans Req ρ Act → ℕ
  | .step _ x => w x
  | _ => 0

/-- The weight of a result, at the return of the call. -/
def Event.retWeight (g : ρ → ℕ) : Event Ans Req ρ Act → ℕ
  | .ret _ r => g r
  | _ => 0

/-- The call an event belongs to. -/
def Event.id? : Event Ans Req ρ Act → Option ℕ
  | .call id _ => some id
  | .step id _ => some id
  | .ret id _ => some id
  | .act _ => none

theorem Event.isOf_iff {id : ℕ} {e : Event Ans Req ρ Act} : e.isOf id ↔ e.id? = some id := by
  cases e <;> simp [Event.isOf, Event.id?]

def Event.step? : Event Ans Req ρ Act → Option (Sigma Ans)
  | .step _ x => some x
  | _ => none

/-- The operations of one call, with their answers. -/
def stepsOf (id : ℕ) (tr : List (Event Ans Req ρ Act)) : List (Sigma Ans) :=
  (tr.filter (Event.isOf id)).filterMap Event.step?

theorem total_stepWeight (w : Sigma Ans → ℕ) (tr : List (Event Ans Req ρ Act)) :
    total (Event.stepWeight w) tr = total w (tr.filterMap Event.step?) := by
  induction tr with
  | nil => rfl
  | cons e tr ih =>
    rw [total_cons, ih]
    cases e <;> simp [List.filterMap_cons, Event.step?, Event.stepWeight]

theorem filterMap_step? (id : ℕ) (h : List (Sigma Ans)) :
    (h.map fun x => (.step id x : Event Ans Req ρ Act)).filterMap Event.step? = h := by
  rw [List.filterMap_map]
  exact List.filterMap_some

theorem filterMap_returned (id : ℕ) (req : Req) (h : List (Sigma Ans)) (r : ρ) :
    (Event.call id req :: (h.map (.step id) ++ [.ret id r]) :
      List (Event Ans Req ρ Act)).filterMap Event.step? = h := by
  rw [List.filterMap_cons_none rfl, List.filterMap_append, filterMap_step?]
  simp [List.filterMap_cons, Event.step?]

variable {M : Service Op Ans σ Req ρ Act} {p : Pool Op Ans σ ρ} {s₀ : σ}
  {tr : List (Event Ans Req ρ Act)} {w w' : Event Ans Req ρ Act → ℕ} {id : ℕ}

namespace Service

theorem filter_isOf_of_length_le (hr : Run M.Step ⟨s₀, []⟩ tr p) (h : p.calls.length ≤ id) :
    tr.filter (Event.isOf id) = [] := by
  have hc := callHistory_of_run hr id
  rw [List.getElem?_eq_none h] at hc
  generalize tr.filter (Event.isOf id) = l at hc
  cases hc
  rfl

theorem total_filter_concat (e : Event Ans Req ρ Act) :
    total w ((tr ++ [e]).filter (Event.isOf id)) =
      total w (tr.filter (Event.isOf id)) + if e.id? = some id then w e else 0 := by
  rw [List.filter_append, total_append]
  congr 1
  by_cases h : e.id? = some id
  · rw [List.filter_cons_of_pos (Event.isOf_iff.mpr h), if_pos h]
    simp
  · rw [List.filter_cons_of_neg (fun hi => h (Event.isOf_iff.mp hi)), if_neg h]
    simp

theorem total_eq_sum (hr : Run M.Step ⟨s₀, []⟩ tr p) (hw : ∀ x, w (.act x) = 0) :
    total w tr = ∑ id ∈ Finset.range p.calls.length, total w (tr.filter (Event.isOf id)) := by
  induction hr with
  | nil => rfl
  | @snoc tr q q' e hr hs ih =>
    have hone {i n : ℕ} (hi : e.id? = some i) (hlt : i < n) :
        ∑ id ∈ Finset.range n, total w ((tr ++ [e]).filter (Event.isOf id)) =
          (∑ id ∈ Finset.range n, total w (tr.filter (Event.isOf id))) + w e := by
      simp only [total_filter_concat, hi, Option.some.injEq, Finset.sum_add_distrib,
        Finset.sum_ite_eq, Finset.mem_range, hlt, if_true]
    rw [total_append, ih, total_cons, total_nil, Nat.add_zero]
    cases hs with
    | call req =>
      have hnew : tr.filter (Event.isOf q.calls.length) = [] :=
        filter_isOf_of_length_le hr (Nat.le_refl _)
      have hl : (q.calls ++ [Call.running (M.handle req)]).length = q.calls.length + 1 := by simp
      rw [hl, hone rfl (Nat.lt_succ_self _), Finset.sum_range_succ, hnew, total_nil, Nat.add_zero]
    | step hrun _ =>
      rw [List.length_set, hone rfl (List.getElem?_eq_some_iff.mp hrun).1]
    | ret hrun =>
      rw [List.length_set, hone rfl (List.getElem?_eq_some_iff.mp hrun).1]
    | act x =>
      rw [hw x]
      simp only [total_filter_concat, Event.id?, reduceCtorEq, if_false, Nat.add_zero]

theorem total_congr (hr : Run M.Step ⟨s₀, []⟩ tr p) (hw : ∀ x, w (.act x) = 0)
    (hw' : ∀ x, w' (.act x) = 0)
    (h : ∀ id < p.calls.length, total w (tr.filter (Event.isOf id)) =
      total w' (tr.filter (Event.isOf id))) : total w tr = total w' tr := by
  rw [total_eq_sum hr hw, total_eq_sum hr hw']
  exact Finset.sum_congr rfl fun id hid => h id (Finset.mem_range.mp hid)

/-- A counter that operations raise by their weights holds the total of the weights. -/
theorem counter_of_run {c : σ → ℕ} {w : Sigma Ans → ℕ} (hr : Run M.Step ⟨s₀, []⟩ tr p)
    (hexec : ∀ op s x s', M.exec op s = some (x, s') → c s' = c s + w ⟨op, x⟩)
    (hact : ∀ x s, c (M.act x s) = c s) : c p.shared = c s₀ + total (Event.stepWeight w) tr := by
  induction hr with
  | nil => rfl
  | snoc _ hs ih =>
    rw [total_append, total_cons, total_nil, Nat.add_zero, ← Nat.add_assoc, ← ih]
    cases hs with
    | call _ => rfl
    | step _ he => exact hexec _ _ _ _ he
    | ret _ => rfl
    | act x => exact hact x _

theorem lt_length_of_mem (hr : Run M.Step ⟨s₀, []⟩ tr p) {e : Event Ans Req ρ Act} (he : e ∈ tr)
    (hid : e.isOf id) : id < p.calls.length := by
  by_contra h
  have hm : e ∈ tr.filter (Event.isOf id) := List.mem_filter.mpr ⟨he, hid⟩
  rw [filter_isOf_of_length_le hr (Nat.not_lt.mp h)] at hm
  cases hm

theorem exists_path (hr : Run M.Step ⟨s₀, []⟩ tr p) (h : id < p.calls.length) :
    ∃ req t, (M.handle req).Path (stepsOf id tr) t := by
  have hc := callHistory_of_run hr id
  rw [List.getElem?_eq_getElem h] at hc
  rw [stepsOf]
  generalize tr.filter (Event.isOf id) = l at hc
  generalize p.calls[id] = c at hc
  cases hc with
  | @running req hist t hp =>
    refine ⟨req, t, ?_⟩
    rwa [List.filterMap_cons_none rfl, filterMap_step?]
  | @returned req hist r hret =>
    refine ⟨req, .done r, ?_⟩
    rw [filterMap_returned]
    exact hret

theorem exists_returns {r : ρ} (hr : Run M.Step ⟨s₀, []⟩ tr p)
    (hc : p.calls[id]? = some (.returned r)) : ∃ req, (M.handle req).Returns (stepsOf id tr) r ∧
      tr.filter (Event.isOf id) =
        .call id req :: ((stepsOf id tr).map (.step id) ++ [.ret id r]) := by
  have hh := callHistory_of_run hr id
  rw [hc] at hh
  rw [stepsOf]
  generalize tr.filter (Event.isOf id) = l at hh
  cases hh with
  | @returned req hist r hret =>
    rw [filterMap_returned]
    exact ⟨req, hret, rfl⟩

theorem total_ret_of_running {g : ρ → ℕ} {t : Thread Op Ans ρ} (hr : Run M.Step ⟨s₀, []⟩ tr p)
    (hc : p.calls[id]? = some (.running t)) :
    total (Event.retWeight g) (tr.filter (Event.isOf id)) = 0 := by
  have hh := callHistory_of_run hr id
  rw [hc] at hh
  generalize tr.filter (Event.isOf id) = l at hh
  cases hh with
  | running =>
    refine total_eq_zero fun e he => ?_
    rcases List.mem_cons.mp he with rfl | he
    · rfl
    · obtain ⟨x, _, rfl⟩ := List.mem_map.mp he
      rfl

theorem total_ret_of_returned {g : ρ → ℕ} {r : ρ} (hr : Run M.Step ⟨s₀, []⟩ tr p)
    (hc : p.calls[id]? = some (.returned r)) :
    total (Event.retWeight g) (tr.filter (Event.isOf id)) = g r := by
  obtain ⟨req, _, hf⟩ := exists_returns hr hc
  have hsteps : total (Event.retWeight g) ((stepsOf id tr).map (.step id) :
      List (Event Ans Req ρ Act)) = 0 := by
    refine total_eq_zero fun e he => ?_
    obtain ⟨x, _, rfl⟩ := List.mem_map.mp he
    rfl
  rw [hf, total_cons, total_append, hsteps]
  simp [Event.retWeight]

theorem calls_of_ret_mem {r : ρ} (hr : Run M.Step ⟨s₀, []⟩ tr p) (h : .ret id r ∈ tr) :
    p.calls[id]? = some (.returned r) := by
  have hc := callHistory_of_run hr id
  have hm : .ret id r ∈ tr.filter (Event.isOf id) :=
    List.mem_filter.mpr ⟨h, decide_eq_true rfl⟩
  generalize tr.filter (Event.isOf id) = l at hc hm
  generalize p.calls[id]? = c at hc
  cases hc with
  | none => cases hm
  | running => simp at hm
  | @returned req hist r' hret =>
    obtain rfl : r = r' := by simpa using hm
    rfl

/-- No call is in flight. -/
def Quiet (p : Pool Op Ans σ ρ) : Prop := ∀ c ∈ p.calls, ∃ r, c = .returned r

theorem Quiet.getElem? (hq : Quiet p) (h : id < p.calls.length) :
    ∃ r, p.calls[id]? = some (.returned r) := by
  obtain ⟨r, hret⟩ := hq _ (List.getElem_mem h)
  exact ⟨r, by rw [List.getElem?_eq_getElem h, hret]⟩

theorem exists_returns_of_ret {r : ρ} (hr : Run M.Step ⟨s₀, []⟩ tr p) (h : .ret id r ∈ tr) :
    ∃ req, .call id req ∈ tr ∧ (M.handle req).Returns (stepsOf id tr) r := by
  obtain ⟨req, hret, hf⟩ := exists_returns hr (calls_of_ret_mem hr h)
  exact ⟨req, List.mem_of_mem_filter (p := Event.isOf id) (hf ▸ List.mem_cons_self), hret⟩

theorem exists_returns_of_call {req : Req} (hr : Run M.Step ⟨s₀, []⟩ tr p) (hq : Quiet p)
    (h : .call id req ∈ tr) : ∃ r, .ret id r ∈ tr ∧ (M.handle req).Returns (stepsOf id tr) r := by
  obtain ⟨r, hc⟩ := hq.getElem? (lt_length_of_mem hr h (decide_eq_true rfl))
  obtain ⟨req', hret, hf⟩ := exists_returns hr hc
  have hcall : .call id req ∈ tr.filter (Event.isOf id) :=
    List.mem_filter.mpr ⟨h, decide_eq_true rfl⟩
  have hrm : .ret id r ∈ tr.filter (Event.isOf id) := by
    rw [hf]
    simp
  rw [hf] at hcall
  obtain rfl : req = req' := by simpa using hcall
  exact ⟨r, List.mem_of_mem_filter hrm, hret⟩

/-- If every call that returned performed operations of the weight of its result, the operations
of a run without open calls weigh as much as its results. -/
theorem total_of_quiet {w : Sigma Ans → ℕ} {g : ρ → ℕ} (hr : Run M.Step ⟨s₀, []⟩ tr p)
    (hq : Quiet p) (h : ∀ id req r, .call id req ∈ tr → (M.handle req).Returns (stepsOf id tr) r →
      total w (stepsOf id tr) = g r) :
    total (Event.stepWeight w) tr = total (Event.retWeight g) tr := by
  refine total_congr hr (fun _ => rfl) (fun _ => rfl) fun id hid => ?_
  obtain ⟨r, hc⟩ := hq.getElem? hid
  obtain ⟨req, hret, hf⟩ := exists_returns hr hc
  have hm : Event.call id req ∈ tr :=
    List.mem_of_mem_filter (p := Event.isOf id) (hf ▸ List.mem_cons_self)
  have hw : total (Event.retWeight g) ((stepsOf id tr).map (Event.step id) :
      List (Event Ans Req ρ Act)) = 0 := by
    refine total_eq_zero fun e he => ?_
    obtain ⟨x, _, rfl⟩ := List.mem_map.mp he
    rfl
  rw [total_stepWeight, ← stepsOf, h id req r hm hret, hf, total_cons, total_append, hw]
  simp [Event.retWeight]

end Service

end Concurrency
