import LowLatencyKv.Concurrency.Totals

/-! # Calls on their own

If the answers of the operations depend on a part of the shared state that no operation
changes, a call notices nothing of the others. Stopping some calls at their start leaves
a run in which the rest is as it was.
-/

namespace Concurrency

variable {Op : Type} {Ans : Op → Type} {σ τ Req ρ Act : Type}

/-- Operations keep this part of the state, and their answers depend on nothing else. -/
structure Service.Depends (M : Service Op Ans σ Req ρ Act) (view : σ → τ) : Prop where
  keeps : ∀ op s x s', M.exec op s = some (x, s') → view s' = view s
  exec : ∀ op s t x s', view s = view t → M.exec op s = some (x, s') →
    ∃ t', M.exec op t = some (x, t')
  act : ∀ x s t, view s = view t → view (M.act x s) = view (M.act x t)

/-- The event happens if only these calls run after their start. -/
def Event.runsIn (S : ℕ → Bool) : Event Ans Req ρ Act → Bool
  | .step id _ => S id
  | .ret id _ => S id
  | _ => true

variable {S : ℕ → Bool} {tr : List (Event Ans Req ρ Act)}

theorem total_runsIn (w : Sigma Ans → ℕ) :
    total (Event.stepWeight w) tr = total (Event.stepWeight w) (tr.filter (Event.runsIn S)) +
      total (Event.stepWeight w) (tr.filter (Event.runsIn fun id => !S id)) := by
  induction tr with
  | nil => rfl
  | cons e tr ih =>
    rw [total_cons, ih, List.filter_cons, List.filter_cons]
    rcases e with ⟨id, req⟩ | ⟨id, x⟩ | ⟨id, r⟩ | x
    · simp [Event.runsIn, Event.stepWeight]
    · cases hS : S id <;> simp [Event.runsIn, hS] <;> omega
    · cases hS : S id <;> simp [Event.runsIn, Event.stepWeight, hS]
    · simp [Event.runsIn, Event.stepWeight]

variable {M : Service Op Ans σ Req ρ Act} {view : σ → τ} {p p' q : Pool Op Ans σ ρ} {s₀ : σ}
  {e : Event Ans Req ρ Act} {id : ℕ} {c : Call Op Ans ρ}

namespace Service

/-- The second pool has the same chosen calls over the same part of the state. -/
structure Agrees (view : σ → τ) (S : ℕ → Bool) (p q : Pool Op Ans σ ρ) : Prop where
  view_eq : view p.shared = view q.shared
  length_eq : p.calls.length = q.calls.length
  calls : ∀ id, S id → p.calls[id]? = q.calls[id]?

theorem Agrees.set (h : Agrees view S p q) {s t : σ} (hv : view s = view t) :
    Agrees view S ⟨s, p.calls.set id c⟩ ⟨t, q.calls.set id c⟩ := by
  refine ⟨hv, by simp [h.length_eq], fun i hi => ?_⟩
  rw [List.getElem?_set, List.getElem?_set, h.length_eq, h.calls i hi]

theorem Agrees.set_left (h : Agrees view S p q) (hid : ¬ S id) {s : σ}
    (hv : view s = view p.shared) : Agrees view S ⟨s, p.calls.set id c⟩ q := by
  refine ⟨hv.trans h.view_eq, by simp [h.length_eq], fun i hi => ?_⟩
  have hne : id ≠ i := by
    rintro rfl
    exact hid hi
  rw [List.getElem?_set_ne hne, h.calls i hi]

theorem Agrees.concat (h : Agrees view S p q) :
    Agrees view S ⟨p.shared, p.calls ++ [c]⟩ ⟨q.shared, q.calls ++ [c]⟩ := by
  refine ⟨h.view_eq, by simp [h.length_eq], fun i hi => ?_⟩
  rcases Nat.lt_or_ge i p.calls.length with hlt | hge
  · rw [List.getElem?_append_left hlt, List.getElem?_append_left (h.length_eq ▸ hlt), h.calls i hi]
  · rw [List.getElem?_append_right hge, List.getElem?_append_right (h.length_eq ▸ hge), h.length_eq]

/-- A step of a chosen call is possible in the second pool, and a step of another call changes
nothing there. -/
theorem Agrees.step (hM : M.Depends view) (h : Agrees view S p q) (hs : M.Step p e p') :
    ∃ q', Agrees view S p' q' ∧
      ((e.runsIn S ∧ M.Step q e q') ∨ (¬ e.runsIn S ∧ q' = q)) := by
  cases hs with
  | call req =>
    refine ⟨_, h.concat, Or.inl ⟨rfl, ?_⟩⟩
    rw [h.length_eq]
    exact .call req
  | @step id op next x s hrun he =>
    have hv := hM.keeps op _ x s he
    by_cases hid : S id
    · obtain ⟨t, ht⟩ := hM.exec op _ _ x s h.view_eq he
      have hvt := hM.keeps op _ x t ht
      have hq := h.calls id hid ▸ hrun
      exact ⟨_, h.set (hv.trans (h.view_eq.trans hvt.symm)), Or.inl ⟨hid, .step hq ht⟩⟩
    · exact ⟨q, h.set_left hid hv, Or.inr ⟨hid, rfl⟩⟩
  | @ret id r hrun =>
    by_cases hid : S id
    · have hq := h.calls id hid ▸ hrun
      exact ⟨_, h.set h.view_eq, Or.inl ⟨hid, .ret hq⟩⟩
    · exact ⟨q, h.set_left hid rfl, Or.inr ⟨hid, rfl⟩⟩
  | act x =>
    refine ⟨⟨M.act x q.shared, q.calls⟩, ⟨?_, h.length_eq, h.calls⟩, Or.inl ⟨rfl, .act x⟩⟩
    exact hM.act x _ _ h.view_eq

/-- If the other calls stop at their start, the chosen ones run as they did. -/
theorem exists_run_runsIn (hM : M.Depends view) (hr : Run M.Step ⟨s₀, []⟩ tr p) (S : ℕ → Bool) :
    ∃ q, Run M.Step ⟨s₀, []⟩ (tr.filter (Event.runsIn S)) q ∧ Agrees view S p q := by
  induction hr with
  | nil => exact ⟨_, .nil, rfl, rfl, fun _ _ => rfl⟩
  | @snoc tr p p' e _ hs ih =>
    obtain ⟨q, hq, ha⟩ := ih
    obtain ⟨q', ha', hstep⟩ := ha.step hM hs
    refine ⟨q', ?_, ha'⟩
    rw [List.filter_append]
    rcases hstep with ⟨hS, hstep⟩ | ⟨hS, rfl⟩
    · rw [List.filter_cons_of_pos hS]
      exact hq.snoc hstep
    · rw [List.filter_cons_of_neg hS, List.filter_nil, List.append_nil]
      exact hq

end Service

end Concurrency
