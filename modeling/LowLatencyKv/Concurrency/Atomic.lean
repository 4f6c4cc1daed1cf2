import LowLatencyKv.Concurrency.Totals

/-! # Linearizability

A specification of calls that take no time: what they may return in a state, and
what the actions of others make of that state. A run linearizes if every call that
returned has a moment between its start and its return, such that the calls and
the actions, one after the other in the order of their moments, are as specified.
-/

namespace Concurrency

variable {S Req ρ Act : Type}

/-- What calls may return in a state, which they leave as it is, and what actions make of it. -/
structure Spec (S Req ρ Act : Type) where
  returns : S → Req → ρ → Prop
  act : Act → S → S

/-- A whole call, or an action. -/
inductive Atomic (Req ρ Act : Type) where
  | call (id : ℕ) (req : Req) (r : ρ)
  | act (x : Act)

inductive Spec.Exec (A : Spec S Req ρ Act) : S → List (Atomic Req ρ Act) → S → Prop
  | nil (s : S) : Exec A s [] s
  | call {s t : S} {l : List (Atomic Req ρ Act)} {id : ℕ} {req : Req} {r : ρ} :
      Exec A s l t → A.returns t req r → Exec A s (l ++ [.call id req r]) t
  | act {s t : S} {l : List (Atomic Req ρ Act)} {x : Act} :
      Exec A s l t → Exec A s (l ++ [.act x]) (A.act x t)

variable {Op : Type} {Ans : Op → Type} {σ : Type}

/-- The state after the actions among some events. -/
def Spec.after (A : Spec S Req ρ Act) (s : S) (tr : List (Event Ans Req ρ Act)) : S :=
  (tr.filterMap Event.act?).foldl (fun s x => A.act x s) s

/-- Moments of the calls that returned, and of the actions, at which they execute as specified. -/
structure Linearizes (A : Spec S Req ρ Act) (s : S) (tr : List (Event Ans Req ρ Act))
    (lin : List (ℕ × Atomic Req ρ Act)) : Prop where
  ordered : lin.Pairwise fun a b => a.1 < b.1
  exec : ∃ t, A.Exec s (lin.map Prod.snd) t
  act_iff : ∀ m x, (m, .act x) ∈ lin ↔ tr[m]? = some (.act x)
  complete : ∀ j id r, tr[j]? = some (.ret id r) → ∃ i req m, tr[i]? = some (.call id req) ∧
    i ≤ m ∧ m < j ∧ (m, .call id req r) ∈ lin
  returned : ∀ m id req r, (m, .call id req r) ∈ lin → .ret id r ∈ tr
  once : ∀ m m' id req req' r r', (m, .call id req r) ∈ lin → (m', .call id req' r') ∈ lin → m = m'

variable {A : Spec S Req ρ Act} {s : S} {tr : List (Event Ans Req ρ Act)} {id i j m : ℕ}

theorem Event.act?_eq_some_iff {Req ρ Act : Type} {e : Event Ans Req ρ Act} {x : Act} :
    e.act? = some x ↔ e = .act x := by
  cases e <;> simp [Event.act?]

theorem Spec.after_concat (e : Event Ans Req ρ Act) :
    A.after s (tr ++ [e]) = match e.act? with
      | some x => A.act x (A.after s tr)
      | none => A.after s tr := by
  unfold after
  rw [List.filterMap_append, List.foldl_append]
  cases e <;> rfl

section Marked

variable {α : Type} {mark : ℕ → Option α} {n : ℕ} {a : α}

/-- The marks of the first positions, each with its position. -/
def marked (mark : ℕ → Option α) (n : ℕ) : List (ℕ × α) :=
  (List.range n).filterMap fun m => (mark m).map (m, ·)

theorem mem_marked_iff : (m, a) ∈ marked mark n ↔ m < n ∧ mark m = some a := by
  unfold marked
  rw [List.mem_filterMap]
  constructor
  · rintro ⟨k, hk, h⟩
    obtain ⟨b, hb, he⟩ := Option.map_eq_some_iff.mp h
    cases he
    exact ⟨List.mem_range.mp hk, hb⟩
  · rintro ⟨hm, ha⟩
    exact ⟨m, List.mem_range.mpr hm, by rw [ha]; rfl⟩

theorem pairwise_marked (mark : ℕ → Option α) (n : ℕ) :
    (marked mark n).Pairwise fun x y => x.1 < y.1 := by
  apply List.pairwise_lt_range.filterMap
  intro i j hij x hx y hy
  obtain ⟨a, _, rfl⟩ := Option.map_eq_some_iff.mp hx
  obtain ⟨b, _, rfl⟩ := Option.map_eq_some_iff.mp hy
  exact hij

theorem map_snd_marked (mark : ℕ → Option α) (n : ℕ) :
    (marked mark n).map Prod.snd = (List.range n).filterMap mark := by
  unfold marked
  rw [List.map_filterMap]
  apply List.filterMap_congr
  intro m _
  cases mark m <;> rfl

end Marked

/-- Atomic steps marked at the events of a trace execute in the order of the trace. -/
theorem exec_of_marks {mark : ℕ → Option (Atomic Req ρ Act)}
    (hact : ∀ m x, mark m = some (.act x) ↔ tr[m]? = some (.act x))
    (hcall : ∀ m id req r, mark m = some (.call id req r) → A.returns (A.after s (tr.take m)) req r)
    {n : ℕ} (hn : n ≤ tr.length) :
    A.Exec s ((List.range n).filterMap mark) (A.after s (tr.take n)) := by
  induction n with
  | zero => exact .nil s
  | succ n ih =>
    have hlt : n < tr.length := hn
    have he : tr[n]? = some tr[n] := List.getElem?_eq_getElem hlt
    have hone : [n].filterMap mark = (mark n).toList := by
      rw [List.filterMap_cons]
      cases mark n <;> rfl
    have hstay (h : ∀ x, mark n ≠ some (.act x)) : tr[n].act? = none := by
      rw [Option.eq_none_iff_forall_ne_some]
      intro x hx
      exact h x ((hact n x).mpr (he.trans (congrArg some (Event.act?_eq_some_iff.mp hx))))
    rw [List.range_succ, List.filterMap_append, hone, List.take_succ_eq_append_getElem hlt,
      Spec.after_concat]
    cases hm : mark n with
    | none =>
      rw [hstay (by simp [hm])]
      exact (List.append_nil _).symm ▸ ih hlt.le
    | some a =>
      cases a with
      | call id req r =>
        rw [hstay (by simp [hm])]
        exact .call (ih hlt.le) (hcall n id req r hm)
      | act x =>
        have hx : tr[n] = .act x := Option.some.inj (he.symm.trans ((hact n x).mp hm))
        rw [hx]
        exact .act (ih hlt.le)

section Run

variable {M : Service Op Ans σ Req ρ Act} {p : Pool Op Ans σ ρ} {s₀ : σ}

theorem Service.ret_unique {r r' : ρ} (hr : Run M.Step ⟨s₀, []⟩ tr p)
    (hi : tr[i]? = some (.ret id r)) (hj : tr[j]? = some (.ret id r')) : i = j := by
  have hle {i j : ℕ} {r r' : ρ} (hi : tr[i]? = some (.ret id r)) (hj : tr[j]? = some (.ret id r')) :
      j ≤ i := by
    by_contra hlt
    obtain ⟨q, q', hq, hs⟩ := hr.exists_step hj
    have hm : .ret id r ∈ tr.take j := by
      refine List.mem_of_getElem? (i := i) ?_
      rw [List.getElem?_take_of_lt (Nat.not_le.mp hlt), hi]
    have hc := calls_of_ret_mem hq hm
    cases hs with
    | ret hrun =>
      rw [hc] at hrun
      cases hrun
  exact Nat.le_antisymm (hle hj hi) (hle hi hj)

theorem Service.call_unique {req req' : Req} (hr : Run M.Step ⟨s₀, []⟩ tr p)
    (hi : tr[i]? = some (.call id req)) (hj : tr[j]? = some (.call id req')) : i = j := by
  have hle {i j : ℕ} {req req' : Req} (hi : tr[i]? = some (.call id req))
      (hj : tr[j]? = some (.call id req')) : j ≤ i := by
    by_contra hlt
    obtain ⟨q, q', hq, hs⟩ := hr.exists_step hj
    have hm : .call id req ∈ tr.take j := by
      refine List.mem_of_getElem? (i := i) ?_
      rw [List.getElem?_take_of_lt (Nat.not_le.mp hlt), hi]
    have hid := lt_length_of_mem hq hm (decide_eq_true rfl)
    cases hs with
    | call _ => exact Nat.lt_irrefl _ hid
  exact Nat.le_antisymm (hle hj hi) (hle hi hj)

end Run

/-- What happens at a moment: the action there, or the call that has its moment there. -/
inductive AtomicAt (tr : List (Event Ans Req ρ Act)) (point : ℕ → ℕ) : ℕ → Atomic Req ρ Act → Prop
  | act {m : ℕ} {x : Act} : tr[m]? = some (.act x) → AtomicAt tr point m (.act x)
  | call {i j id : ℕ} {req : Req} {r : ρ} : tr[i]? = some (.call id req) →
      tr[j]? = some (.ret id r) → AtomicAt tr point (point j) (.call id req r)

section AtomicAt

variable {point : ℕ → ℕ}

theorem AtomicAt.act_iff {m : ℕ} {x : Act} :
    AtomicAt tr point m (.act x) ↔ tr[m]? = some (.act x) := by
  refine ⟨fun h => ?_, .act⟩
  cases h with
  | act hx => exact hx

theorem AtomicAt.exists_ret {m : ℕ} {req : Req} {r : ρ}
    (h : AtomicAt tr point m (.call id req r)) : ∃ j, tr[j]? = some (.ret id r) ∧ m = point j := by
  cases h with
  | call hi hj => exact ⟨_, hj, rfl⟩

end AtomicAt

/-- Between the start and the return of a call, at an event of its own, its result is as
specified. -/
def IsPoint (A : Spec S Req ρ Act) (s : S) (tr : List (Event Ans Req ρ Act)) (j id : ℕ) (r : ρ)
    (m : ℕ) : Prop :=
  ∃ i req e, tr[i]? = some (.call id req) ∧ i ≤ m ∧ m < j ∧ tr[m]? = some e ∧ e.id? = some id ∧
    A.returns (A.after s (tr.take m)) req r

section Points

variable {M : Service Op Ans σ Req ρ Act} {p : Pool Op Ans σ ρ} {s₀ : σ} {point : ℕ → ℕ}
  (hr : Run M.Step ⟨s₀, []⟩ tr p)
  (hp : ∀ j id r, tr[j]? = some (.ret id r) → IsPoint A s tr j id r (point j))

include hr hp

theorem AtomicAt.inj_call {m : ℕ} {req : Req} {r : ρ} {a : Atomic Req ρ Act}
    (ha : AtomicAt tr point m a) (hc : AtomicAt tr point m (.call id req r)) :
    a = .call id req r := by
  generalize hb : Atomic.call id req r = b at hc
  cases hc with
  | act _ => cases hb
  | @call i j _ _ _ hi hj =>
    cases hb
    obtain ⟨_, _, e, _, _, _, he, hid, _⟩ := hp j id r hj
    generalize hm : point j = m at ha he
    cases ha with
    | act hx =>
      cases hx.symm.trans he
      cases hid
    | @call i' j' id' req' r' hi' hj' =>
      obtain ⟨_, _, e', _, _, _, he', hid', _⟩ := hp j' id' r' hj'
      cases he.symm.trans he'
      cases hid.symm.trans hid'
      obtain rfl := Service.ret_unique hr hj hj'
      obtain rfl := Service.call_unique hr hi hi'
      cases hj.symm.trans hj'
      cases hi.symm.trans hi'
      rfl

theorem AtomicAt.unique {m : ℕ} {a b : Atomic Req ρ Act} (ha : AtomicAt tr point m a)
    (hb : AtomicAt tr point m b) : a = b := by
  cases b with
  | call id req r => exact ha.inj_call hr hp hb
  | act x =>
    cases a with
    | call id req r => exact (hb.inj_call hr hp ha).symm
    | act y =>
      cases ha with
      | act hy =>
        cases hb with
        | act hx =>
          cases hx.symm.trans hy
          rfl

omit hr in
theorem AtomicAt.lt_length {m : ℕ} {a : Atomic Req ρ Act} (ha : AtomicAt tr point m a) :
    m < tr.length := by
  cases ha with
  | act hx => exact (List.getElem?_eq_some_iff.mp hx).1
  | call hi hj =>
    obtain ⟨_, _, e, _, _, _, he, _⟩ := hp _ _ _ hj
    exact (List.getElem?_eq_some_iff.mp he).1

theorem AtomicAt.returns {m : ℕ} {req : Req} {r : ρ} (h : AtomicAt tr point m (.call id req r)) :
    A.returns (A.after s (tr.take m)) req r := by
  cases h with
  | call hi hj =>
    obtain ⟨_, _, e, hi', _, _, _, _, hret⟩ := hp _ _ _ hj
    obtain rfl := Service.call_unique hr hi hi'
    cases hi.symm.trans hi'
    exact hret

theorem exists_mark : ∃ mark : ℕ → Option (Atomic Req ρ Act),
    ∀ m a, mark m = some a ↔ AtomicAt tr point m a := by
  have hone : ∀ m, ∃ o, ∀ a, o = some a ↔ AtomicAt tr point m a := by
    intro m
    by_cases ha : ∃ a, AtomicAt tr point m a
    · obtain ⟨a, ha⟩ := ha
      refine ⟨some a, fun b => ⟨?_, fun hb => congrArg some (ha.unique hr hp hb)⟩⟩
      rintro ⟨⟩
      exact ha
    · exact ⟨none, fun a => ⟨nofun, fun h => absurd ⟨a, h⟩ ha⟩⟩
  exact Classical.axiomOfChoice hone

end Points

theorem exists_point (h : ∀ j id r, tr[j]? = some (.ret id r) → ∃ m, IsPoint A s tr j id r m) :
    ∃ point : ℕ → ℕ, ∀ j id r, tr[j]? = some (.ret id r) → IsPoint A s tr j id r (point j) := by
  have hone : ∀ j, ∃ m, ∀ id r, tr[j]? = some (.ret id r) → IsPoint A s tr j id r m := by
    intro j
    by_cases hj : ∃ id r, tr[j]? = some (.ret id r)
    · obtain ⟨id, r, hj⟩ := hj
      obtain ⟨m, hm⟩ := h j id r hj
      refine ⟨m, fun id' r' hj' => ?_⟩
      cases hj.symm.trans hj'
      exact hm
    · exact ⟨0, fun id r hj' => absurd ⟨id, r, hj'⟩ hj⟩
  exact Classical.axiomOfChoice hone

/-- If every call that returned has a point, the run linearizes. -/
theorem Service.exists_linearizes {M : Service Op Ans σ Req ρ Act} {p : Pool Op Ans σ ρ} {s₀ : σ}
    (hr : Run M.Step ⟨s₀, []⟩ tr p)
    (h : ∀ j id r, tr[j]? = some (.ret id r) → ∃ m, IsPoint A s tr j id r m) :
    ∃ lin, Linearizes A s tr lin := by
  obtain ⟨point, hp⟩ := exists_point h
  obtain ⟨mark, hmark⟩ := exists_mark hr hp
  have hmem (m : ℕ) (a : Atomic Req ρ Act) :
      (m, a) ∈ marked mark tr.length ↔ AtomicAt tr point m a := by
    rw [mem_marked_iff, hmark]
    exact and_iff_right_of_imp fun ha => ha.lt_length hp
  refine ⟨marked mark tr.length, pairwise_marked mark tr.length, ?_, ?_, ?_, ?_, ?_⟩
  · rw [map_snd_marked]
    refine ⟨_, exec_of_marks (fun m x => ?_) (fun m id req r hm => ?_) (Nat.le_refl _)⟩
    · rw [hmark, AtomicAt.act_iff]
    · exact ((hmark _ _).mp hm).returns hr hp
  · intro m x
    rw [hmem, AtomicAt.act_iff]
  · intro j id r hj
    obtain ⟨i, req, e, hi, him, hmj, _⟩ := hp j id r hj
    exact ⟨i, req, point j, hi, him, hmj, (hmem _ _).mpr (.call hi hj)⟩
  · intro m id req r hm
    obtain ⟨j, hj, _⟩ := ((hmem _ _).mp hm).exists_ret
    exact List.mem_of_getElem? hj
  · intro m m' id req req' r r' hm hm'
    obtain ⟨j, hj, rfl⟩ := ((hmem _ _).mp hm).exists_ret
    obtain ⟨j', hj', rfl⟩ := ((hmem _ _).mp hm').exists_ret
    rw [ret_unique hr hj hj']

end Concurrency
