import LowLatencyKv.Concurrency.Shared

/-! # Calls that finish

A thread that performs a bounded number of operations, each of which returns when
it is asked, finishes whatever the others do. All calls in flight can be driven on
until each has returned or asks an operation that never does.
-/

namespace Concurrency

variable {Op : Type} {Ans : Op → Type} {α β : Type}

namespace Thread

/-- The thread performs at most this many operations. -/
inductive AtMost : ℕ → Thread Op Ans α → Prop
  | done (n : ℕ) (a : α) : AtMost n (.done a)
  | ask {n : ℕ} {op : Op} {next : Ans op → Thread Op Ans α} (h : ∀ x, AtMost n (next x)) :
      AtMost (n + 1) (.ask op next)

/-- After this history, the thread asks an operation only if its whole history allows it. -/
def Asks (ok : List (Sigma Ans) → Op → Prop) : List (Sigma Ans) → Thread Op Ans α → Prop
  | _, .done _ => True
  | h, .ask op next => ok h op ∧ ∀ x, (next x).Asks ok (h ++ [⟨op, x⟩])

variable {t u : Thread Op Ans α} {f : α → Thread Op Ans β} {h h' : List (Sigma Ans)} {m n : ℕ}
  {ok : List (Sigma Ans) → Op → Prop}

theorem AtMost.mono (ht : t.AtMost m) (hmn : m ≤ n) : t.AtMost n := by
  induction ht generalizing n with
  | done m a => exact .done n a
  | ask _ ih =>
    obtain ⟨n, rfl⟩ := Nat.exists_eq_add_of_le' hmn
    exact .ask fun x => ih x (Nat.le_add_left _ _)

theorem AtMost.pure (a : α) : (pure a : Thread Op Ans α).AtMost n := .done n a

theorem AtMost.perform (op : Op) : (perform op : Thread Op Ans (Ans op)).AtMost 1 :=
  .ask fun x => .done 0 x

theorem AtMost.bind (ht : t.AtMost m) (hf : ∀ a, (f a).AtMost n) : (t >>= f).AtMost (n + m) := by
  induction ht with
  | done m a => exact (hf a).mono (Nat.le_add_right n m)
  | ask _ ih => exact .ask ih

theorem AtMost.length_le (ht : t.AtMost n) (hp : t.Path h u) : h.length ≤ n := by
  induction hp generalizing n with
  | refl => exact Nat.zero_le n
  | ask _ ih =>
    cases ht with
    | ask hn => exact Nat.succ_le_succ (ih (hn _))

theorem Asks.path (ha : t.Asks ok h) (hp : t.Path h' u) : u.Asks ok (h ++ h') := by
  induction hp generalizing h with
  | refl => rwa [List.append_nil]
  | ask _ ih =>
    have hu := ih (ha.2 _)
    rwa [List.append_assoc] at hu

theorem asks_true (t : Thread Op Ans α) (h : List (Sigma Ans)) : t.Asks (fun _ _ => True) h := by
  induction t generalizing h with
  | done a => trivial
  | ask op next ih => exact ⟨trivial, fun x => ih x _⟩

theorem Asks.pure (a : α) : (pure a : Thread Op Ans α).Asks ok h := trivial

theorem Asks.perform {op : Op} (hop : ok h op) : (perform op : Thread Op Ans (Ans op)).Asks ok h :=
  ⟨hop, fun _ => trivial⟩

theorem Asks.bind (ht : t.Asks ok h) (hf : ∀ h' a, t.Returns h' a → (f a).Asks ok (h ++ h')) :
    (t >>= f).Asks ok h := by
  induction t generalizing h with
  | done a =>
    have ha := hf [] a (.refl _)
    rwa [List.append_nil] at ha
  | ask op next ih =>
    refine ⟨ht.1, fun x => ih x (ht.2 x) fun h' a hr => ?_⟩
    rw [List.append_assoc]
    exact hf _ a (.ask hr)

section Lift

variable {Op' : Type} {Ans' : Op' → Type} {i : Op → Op'} {g : α → β}
  {t : Thread Op (fun op => Ans' (i op)) α}

theorem AtMost.lift (ht : t.AtMost n) : (t.lift i g).AtMost n := by
  induction ht with
  | done n a => exact .done n (g a)
  | ask _ ih => exact .ask ih

section Asks

variable {ok : List (Sigma fun op => Ans' (i op)) → Op → Prop}
  {ok' : List (Sigma Ans') → Op' → Prop} {h : List (Sigma fun op => Ans' (i op))}

theorem Asks.lift (ha : t.Asks ok h) (hok : ∀ h op, ok h op → ok' (h.map (liftStep i)) (i op)) :
    (t.lift i g).Asks ok' (h.map (liftStep i)) := by
  induction t generalizing h with
  | done a => trivial
  | ask op next ih =>
    refine ⟨hok h op ha.1, fun x => ?_⟩
    have hx := ih x (ha.2 x)
    rwa [List.map_append] at hx

theorem Asks.lift_nil (ha : t.Asks ok [])
    (hok : ∀ h op, ok h op → ok' (h.map (liftStep i)) (i op)) : (t.lift i g).Asks ok' [] :=
  ha.lift hok

end Asks

end Lift

end Thread

variable {σ Req ρ Act : Type} {M : Service Op Ans σ Req ρ Act} {p : Pool Op Ans σ ρ} {s₀ : σ}
  {tr : List (Event Ans Req ρ Act)} {id : ℕ} {req : Req}

namespace Service

theorem exists_path_of_call (hr : Run M.Step ⟨s₀, []⟩ tr p) (h : .call id req ∈ tr) :
    ∃ t, (M.handle req).Path (stepsOf id tr) t := by
  have hc := callHistory_of_run hr id
  have hm : .call id req ∈ tr.filter (Event.isOf id) :=
    List.mem_filter.mpr ⟨h, decide_eq_true rfl⟩
  rw [stepsOf]
  generalize tr.filter (Event.isOf id) = l at hc hm
  generalize p.calls[id]? = c at hc
  cases hc with
  | none => cases hm
  | @running req' h t hp =>
    obtain rfl : req = req' := by simpa using hm
    refine ⟨t, ?_⟩
    rwa [List.filterMap_cons_none rfl, filterMap_step?]
  | @returned req' h r hret =>
    obtain rfl : req = req' := by simpa using hm
    refine ⟨.done r, ?_⟩
    rw [filterMap_returned]
    exact hret

theorem exists_call_of_running {t : Thread Op Ans ρ} (hr : Run M.Step ⟨s₀, []⟩ tr p)
    (hc : p.calls[id]? = some (.running t)) :
    ∃ req, .call id req ∈ tr ∧ (M.handle req).Path (stepsOf id tr) t := by
  have hh := callHistory_of_run hr id
  rw [hc] at hh
  rw [stepsOf]
  generalize hl : tr.filter (Event.isOf id) = l at hh
  cases hh with
  | @running req h t hp =>
    refine ⟨req, List.mem_of_mem_filter (p := Event.isOf id) (hl ▸ List.mem_cons_self), ?_⟩
    rwa [List.filterMap_cons_none rfl, filterMap_step?]

/-- Every operation that a call in flight asks next returns. -/
def Unblocked (M : Service Op Ans σ Req ρ Act) (p : Pool Op Ans σ ρ) : Prop :=
  ∀ (id : ℕ) (op : Op) (next : Ans op → Thread Op Ans ρ),
    p.calls[id]? = some (Call.running (.ask op next)) → (M.exec op p.shared).isSome

/-- An extension of a run by steps and returns of calls in flight. -/
structure Continues (M : Service Op Ans σ Req ρ Act) (s₀ : σ) (tr : List (Event Ans Req ρ Act))
    (p : Pool Op Ans σ ρ) (tr' : List (Event Ans Req ρ Act)) (p' : Pool Op Ans σ ρ) : Prop where
  run : Run M.Step ⟨s₀, []⟩ (tr ++ tr') p'
  own : ∀ e ∈ tr', ∃ id, e.id? = some id
  length_eq : p'.calls.length = p.calls.length

variable {p' p'' : Pool Op Ans σ ρ} {tr' tr'' : List (Event Ans Req ρ Act)}

theorem Continues.refl (hr : Run M.Step ⟨s₀, []⟩ tr p) : Continues M s₀ tr p [] p :=
  ⟨by rwa [List.append_nil], nofun, rfl⟩

theorem Continues.trans (h : Continues M s₀ tr p tr' p')
    (h' : Continues M s₀ (tr ++ tr') p' tr'' p'') : Continues M s₀ tr p (tr' ++ tr'') p'' := by
  refine ⟨by simpa using h'.run, fun e he => ?_, h'.length_eq.trans h.length_eq⟩
  rcases List.mem_append.mp he with he | he
  · exact h.own e he
  · exact h'.own e he

/-- Whether an operation returns does not depend on the shared state. -/
def Uniform (M : Service Op Ans σ Req ρ Act) : Prop :=
  ∀ op s s', M.exec op s = none → M.exec op s' = none

/-- The call returned, or asks an operation that does not return. -/
def Settled (M : Service Op Ans σ Req ρ Act) (s : σ) (c : Call Op Ans ρ) : Prop :=
  (∃ r, c = .returned r) ∨ ∃ op next, c = .running (.ask op next) ∧ M.exec op s = none

def AllSettled (M : Service Op Ans σ Req ρ Act) (p : Pool Op Ans σ ρ) : Prop :=
  ∀ c ∈ p.calls, M.Settled p.shared c

variable {c : Call Op Ans ρ} {s s' : σ}

theorem Settled.of_uniform (hM : M.Uniform) (h : M.Settled s c) : M.Settled s' c := by
  rcases h with h | ⟨op, next, hc, hnone⟩
  · exact Or.inl h
  · exact Or.inr ⟨op, next, hc, hM op s s' hnone⟩

theorem exists_settled {t : Thread Op Ans ρ} (hr : Run M.Step ⟨s₀, []⟩ tr p)
    (hc : p.calls[id]? = some (.running t)) : ∃ tr' p' c, Continues M s₀ tr p tr' p' ∧
      p'.calls = p.calls.set id c ∧ M.Settled p'.shared c := by
  obtain ⟨hid, hget⟩ := List.getElem?_eq_some_iff.mp hc
  induction t generalizing tr p with
  | done a =>
    refine ⟨[.ret id a], _, .returned a, ⟨hr.snoc (.ret hc), ?_, List.length_set⟩, rfl,
      Or.inl ⟨a, rfl⟩⟩
    intro e he
    obtain rfl := List.mem_singleton.mp he
    exact ⟨id, rfl⟩
  | ask op next ih =>
    cases he : M.exec op p.shared with
    | none =>
      refine ⟨[], p, .running (.ask op next), .refl hr, ?_, Or.inr ⟨op, next, rfl, he⟩⟩
      rw [← hget, List.set_getElem_self]
    | some r =>
      obtain ⟨x, s⟩ := r
      have hone : Continues M s₀ tr p [.step id ⟨op, x⟩]
          ⟨s, p.calls.set id (.running (next x))⟩ := by
        refine ⟨hr.snoc (.step hc he), ?_, List.length_set⟩
        intro e he
        obtain rfl := List.mem_singleton.mp he
        exact ⟨id, rfl⟩
      have hlt : id < (p.calls.set id (.running (next x))).length := by rwa [List.length_set]
      obtain ⟨tr', p', c, hcont, hset, hsettled⟩ := ih x hone.run
        (List.getElem?_set_self hid) hlt (List.getElem_set_self hlt)
      refine ⟨_, p', c, hone.trans hcont, ?_, hsettled⟩
      rw [hset, List.set_set]

/-- All calls in flight can be driven on until each has returned or is blocked for good. -/
theorem exists_all_settled (hM : M.Uniform) (hr : Run M.Step ⟨s₀, []⟩ tr p) :
    ∃ tr' p', Continues M s₀ tr p tr' p' ∧ M.AllSettled p' := by
  have hfirst (n : ℕ) : ∃ tr' p', Continues M s₀ tr p tr' p' ∧
      ∀ i < n, ∀ c, p'.calls[i]? = some c → M.Settled p'.shared c := by
    induction n with
    | zero => exact ⟨[], p, .refl hr, nofun⟩
    | succ n ih =>
      obtain ⟨tr', p', hcont, hold⟩ := ih
      by_cases hn : ∃ t, p'.calls[n]? = some (.running t)
      · obtain ⟨t, hc⟩ := hn
        obtain ⟨tr'', p'', c, hcont', hset, hsettled⟩ := exists_settled hcont.run hc
        refine ⟨_, p'', hcont.trans hcont', fun i hi c' hci => ?_⟩
        rw [hset] at hci
        rcases Nat.lt_succ_iff_lt_or_eq.mp hi with hi | rfl
        · rw [List.getElem?_set_ne (Nat.ne_of_gt hi)] at hci
          exact (hold i hi c' hci).of_uniform hM
        · rw [List.getElem?_set_self (List.getElem?_eq_some_iff.mp hc).1] at hci
          cases hci
          exact hsettled
      · refine ⟨tr', p', hcont, fun i hi c hci => ?_⟩
        rcases Nat.lt_succ_iff_lt_or_eq.mp hi with hi | rfl
        · exact hold i hi c hci
        · cases c with
          | running t => exact absurd ⟨t, hci⟩ hn
          | returned r => exact Or.inl ⟨r, rfl⟩
  obtain ⟨tr', p', hcont, hsettled⟩ := hfirst p.calls.length
  refine ⟨tr', p', hcont, fun c hc => ?_⟩
  obtain ⟨i, hi⟩ := List.mem_iff_getElem?.mp hc
  exact hsettled i (hcont.length_eq ▸ (List.getElem?_eq_some_iff.mp hi).1) c hi

theorem Unblocked.quiet (hU : Unblocked M p) (h : M.AllSettled p) : Quiet p := by
  intro c hc
  obtain ⟨id, hid⟩ := List.mem_iff_getElem?.mp hc
  rcases h c hc with hret | ⟨op, next, rfl, hnone⟩
  · exact hret
  · have hsome := hU id op next hid
    rw [hnone] at hsome
    cases hsome

end Service

end Concurrency
