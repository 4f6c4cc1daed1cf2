import LowLatencyKv.Concurrency.Thread

/-! # Pools of calls

Any number of calls run as threads over one shared state, in any order of their
operations and of the actions of others. The events of one call in a run are its
start, a history of its thread, and its return, in this order.
-/

namespace Concurrency

section Runs

variable {S E : Type} {Step : S → E → S → Prop} {s t : S} {tr : List E} {e : E} {i : ℕ}

/-- A finite run of a labelled step relation. -/
inductive Run (Step : S → E → S → Prop) (s : S) : List E → S → Prop
  | nil : Run Step s [] s
  | snoc {tr : List E} {t u : S} {e : E} : Run Step s tr t → Step t e u → Run Step s (tr ++ [e]) u

theorem Run.exists_step (hr : Run Step s tr t) (hi : tr[i]? = some e) :
    ∃ q q', Run Step s (tr.take i) q ∧ Step q e q' := by
  induction hr with
  | nil => exact nomatch hi
  | @snoc tr q q' e' hr hs ih =>
    rcases Nat.lt_trichotomy i tr.length with hlt | rfl | hgt
    · rw [List.getElem?_append_left hlt] at hi
      rw [List.take_append_of_le_length (Nat.le_of_lt hlt)]
      exact ih hi
    · obtain rfl : e' = e := by simpa using hi
      exact ⟨q, q', by rwa [List.take_left'] ; rfl, hs⟩
    · rw [List.getElem?_eq_none (by rw [List.length_append]; exact hgt)] at hi
      exact nomatch hi

theorem lt_of_filter {p : E → Bool} {l₁ l₂ : List E} {d : E} {j : ℕ}
    (hf : tr.filter p = l₁ ++ l₂) (hi : tr[i]? = some e) (hj : tr[j]? = some d)
    (hpe : p e) (hpd : p d) (he : e ∉ l₂) (hd : d ∉ l₁) : i < j := by
  obtain ⟨tr₁, tr₂, rfl, h₁, h₂⟩ := List.filter_eq_append_iff.mp hf
  have hlt : i < tr₁.length := by
    by_contra hge
    rw [List.getElem?_append_right (Nat.not_lt.mp hge)] at hi
    exact he (h₂ ▸ List.mem_filter.mpr ⟨List.mem_of_getElem? hi, hpe⟩)
  have hge : tr₁.length ≤ j := by
    by_contra hlt
    rw [List.getElem?_append_left (Nat.not_le.mp hlt)] at hj
    exact hd (h₁ ▸ List.mem_filter.mpr ⟨List.mem_of_getElem? hj, hpd⟩)
  exact Nat.lt_of_lt_of_le hlt hge

end Runs

variable {Op : Type} {Ans : Op → Type} {σ Req ρ Act : Type}

/-- What is left of a call, or what it returned. -/
inductive Call (Op : Type) (Ans : Op → Type) (ρ : Type) where
  | running (t : Thread Op Ans ρ)
  | returned (r : ρ)

/-- The threads of a service, the operations they perform and the actions of others. -/
structure Service (Op : Type) (Ans : Op → Type) (σ Req ρ Act : Type) where
  handle : Req → Thread Op Ans ρ
  /-- `none` if the operation does not return. -/
  exec : (op : Op) → σ → Option (Ans op × σ)
  act : Act → σ → σ

/-- The shared state and the calls in the order of their starts. -/
structure Pool (Op : Type) (Ans : Op → Type) (σ ρ : Type) where
  shared : σ
  calls : List (Call Op Ans ρ)

inductive Event (Ans : Op → Type) (Req ρ Act : Type) where
  | call (id : ℕ) (req : Req)
  | step (id : ℕ) (x : Sigma Ans)
  | ret (id : ℕ) (r : ρ)
  | act (x : Act)

def Event.isOf (id : ℕ) : Event Ans Req ρ Act → Bool
  | .call id' _ => id' = id
  | .step id' _ => id' = id
  | .ret id' _ => id' = id
  | .act _ => false

def Event.act? : Event Ans Req ρ Act → Option Act
  | .act x => some x
  | _ => none

variable (M : Service Op Ans σ Req ρ Act)

/-- One step of one call, or an action of another party. -/
inductive Service.Step : Pool Op Ans σ ρ → Event Ans Req ρ Act → Pool Op Ans σ ρ → Prop
  | call {p : Pool Op Ans σ ρ} (req : Req) :
      Step p (.call p.calls.length req) { p with calls := p.calls ++ [.running (M.handle req)] }
  | step {p : Pool Op Ans σ ρ} {id : ℕ} {op : Op} {next : Ans op → Thread Op Ans ρ} {x : Ans op}
      {s : σ} : p.calls[id]? = some (.running (.ask op next)) → M.exec op p.shared = some (x, s) →
      Step p (.step id ⟨op, x⟩) ⟨s, p.calls.set id (.running (next x))⟩
  | ret {p : Pool Op Ans σ ρ} {id : ℕ} {r : ρ} : p.calls[id]? = some (.running (.done r)) →
      Step p (.ret id r) { p with calls := p.calls.set id (.returned r) }
  | act {p : Pool Op Ans σ ρ} (x : Act) : Step p (.act x) { p with shared := M.act x p.shared }

/-- The events of a call so far, and what is left of it. -/
inductive Service.CallHistory (id : ℕ) : Option (Call Op Ans ρ) → List (Event Ans Req ρ Act) → Prop
  | none : CallHistory id none []
  | running {req : Req} {h : List (Sigma Ans)} {t : Thread Op Ans ρ} : (M.handle req).Path h t →
      CallHistory id (some (.running t)) (.call id req :: h.map (.step id))
  | returned {req : Req} {h : List (Sigma Ans)} {r : ρ} : (M.handle req).Returns h r →
      CallHistory id (some (.returned r)) (.call id req :: (h.map (.step id) ++ [.ret id r]))

variable {M} {p p' : Pool Op Ans σ ρ} {s₀ : σ} {tr l : List (Event Ans Req ρ Act)}
  {e : Event Ans Req ρ Act} {id i j : ℕ} {c : Option (Call Op Ans ρ)}

namespace Service

theorem CallHistory.step (hs : M.Step p e p') (hc : M.CallHistory id p.calls[id]? l) :
    M.CallHistory id p'.calls[id]? (l ++ [e].filter (Event.isOf id)) := by
  cases hs with
  | call req =>
    rcases eq_or_ne p.calls.length id with rfl | hne
    · rw [List.getElem?_eq_none (Nat.le_refl _)] at hc
      cases hc
      rw [List.getElem?_concat_length]
      simpa [Event.isOf] using CallHistory.running (.refl (M.handle req))
    · have hsame : (p.calls ++ [Call.running (M.handle req)])[id]? = p.calls[id]? := by
        rcases Nat.lt_or_gt_of_ne hne with hlt | hgt
        · rw [List.getElem?_eq_none (Nat.le_of_lt hlt),
            List.getElem?_eq_none (by rw [List.length_append]; exact hlt)]
        · rw [List.getElem?_append_left hgt]
      simpa [Event.isOf, hne, hsame] using hc
  | @step id' op next x s' hrun _ =>
    rcases eq_or_ne id' id with rfl | hne
    · rw [hrun] at hc
      cases hc with
      | running hp =>
        have hn : M.CallHistory id' _ _ := .running (hp.snoc x)
        rw [List.getElem?_set_self (List.getElem?_eq_some_iff.mp hrun).1]
        simpa [Event.isOf] using hn
    · rw [List.getElem?_set_ne hne]
      simpa [Event.isOf, hne] using hc
  | @ret id' r hrun =>
    rcases eq_or_ne id' id with rfl | hne
    · rw [hrun] at hc
      cases hc with
      | running hp =>
        rw [List.getElem?_set_self (List.getElem?_eq_some_iff.mp hrun).1]
        simpa [Event.isOf] using CallHistory.returned hp
    · rw [List.getElem?_set_ne hne]
      simpa [Event.isOf, hne] using hc
  | act x => simpa [Event.isOf] using hc

/-- Along a run the events of each call form its history. -/
theorem callHistory_of_run (hr : Run M.Step ⟨s₀, []⟩ tr p) (id : ℕ) :
    M.CallHistory id p.calls[id]? (tr.filter (Event.isOf id)) := by
  induction hr with
  | nil => exact .none
  | snoc _ hs ih =>
    rw [List.filter_append]
    exact ih.step hs

section Order

variable (hr : Run M.Step ⟨s₀, []⟩ tr p)

include hr

theorem call_lt_step {req : Req} {x : Sigma Ans} (hi : tr[i]? = some (.call id req))
    (hj : tr[j]? = some (.step id x)) : i < j := by
  have hc := callHistory_of_run hr id
  generalize hl : tr.filter (Event.isOf id) = l at hc
  generalize p.calls[id]? = c at hc
  have hmem : Event.call id req ∈ l := by
    rw [← hl]
    exact List.mem_filter.mpr ⟨List.mem_of_getElem? hi, decide_eq_true rfl⟩
  cases hc with
  | none => exact nomatch hmem
  | @running req' h t _ =>
    have hl' : tr.filter (Event.isOf id) = [.call id req'] ++ h.map (.step id) := hl
    apply lt_of_filter hl' hi hj <;> simp [Event.isOf]
  | @returned req' h r _ =>
    have hl' : tr.filter (Event.isOf id) =
      [.call id req'] ++ (h.map (.step id) ++ [.ret id r]) := hl
    apply lt_of_filter hl' hi hj <;> simp [Event.isOf]

/-- A call that returned had started, and performed the operations of its history in between. -/
theorem exists_history_of_ret {r : ρ} (hj : tr[j]? = some (.ret id r)) :
    ∃ i req h, tr[i]? = some (.call id req) ∧ i < j ∧ (M.handle req).Returns h r ∧
      ∀ x ∈ h, ∃ k, i < k ∧ k < j ∧ tr[k]? = some (.step id x) := by
  have hc := callHistory_of_run hr id
  generalize hl : tr.filter (Event.isOf id) = l at hc
  generalize p.calls[id]? = c at hc
  have hmem : Event.ret id r ∈ l := by
    rw [← hl]
    exact List.mem_filter.mpr ⟨List.mem_of_getElem? hj, decide_eq_true rfl⟩
  cases hc with
  | none => exact nomatch hmem
  | running => simp at hmem
  | @returned req h r' hret =>
    obtain rfl : r = r' := by simpa using hmem
    have hcall : Event.call id req ∈ tr :=
      List.mem_of_mem_filter (hl ▸ List.mem_cons_self)
    obtain ⟨i, hi⟩ := List.mem_iff_getElem?.mp hcall
    refine ⟨i, req, h, hi, ?_, hret, fun x hx => ?_⟩
    · have hl' : tr.filter (Event.isOf id) =
        [.call id req] ++ (h.map (.step id) ++ [.ret id r]) := hl
      apply lt_of_filter hl' hi hj <;> simp [Event.isOf]
    · have hstep : Event.step id x ∈ tr := by
        refine List.mem_of_mem_filter (p := Event.isOf id) (hl ▸ ?_)
        exact List.mem_cons_of_mem _ (List.mem_append_left _ (List.mem_map_of_mem hx))
      obtain ⟨k, hk⟩ := List.mem_iff_getElem?.mp hstep
      refine ⟨k, call_lt_step hr hi hk, ?_, hk⟩
      have hl' : tr.filter (Event.isOf id) =
        (.call id req :: h.map (.step id)) ++ [.ret id r] := hl
      apply lt_of_filter hl' hk hj <;> simp [Event.isOf]

end Order

end Service

end Concurrency
