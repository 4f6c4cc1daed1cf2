import LowLatencyKv.Concurrency.Totals

/-! # Two services over one state

The calls of two services run side by side over one shared state. If the second
service only reads, its calls can be erased: what is left of a run is a run of the
first service that reaches the same shared state.
-/

namespace Concurrency

variable {Op Op' : Type} {Ans' : Op' → Type} {α β ρ ρ' : Type}

namespace Thread

/-- The same thread among more operations, with its result converted. -/
def lift (i : Op → Op') (g : α → β) : Thread Op (fun op => Ans' (i op)) α → Thread Op' Ans' β
  | .done a => .done (g a)
  | .ask op next => .ask (i op) fun x => (next x).lift i g

variable {i : Op → Op'} {g : α → β}

def liftStep (i : Op → Op') : Sigma (fun op => Ans' (i op)) → Sigma Ans' := fun x => ⟨i x.1, x.2⟩

theorem exists_path_of_lift {t : Thread Op (fun op => Ans' (i op)) α} {h : List (Sigma Ans')}
    {u : Thread Op' Ans' β} (hp : (t.lift i g).Path h u) :
    ∃ h₀ u₀, t.Path h₀ u₀ ∧ h = h₀.map (liftStep i) ∧ u = u₀.lift i g := by
  induction t generalizing h with
  | done a =>
    cases hp
    exact ⟨[], _, .refl _, rfl, rfl⟩
  | ask op next ih =>
    cases hp with
    | refl => exact ⟨[], _, .refl _, rfl, rfl⟩
    | @ask _ _ x h _ hp =>
      obtain ⟨h₀, u₀, hp₀, rfl, rfl⟩ := ih x hp
      exact ⟨⟨op, x⟩ :: h₀, u₀, .ask hp₀, rfl, rfl⟩

theorem exists_returns_of_lift {t : Thread Op (fun op => Ans' (i op)) α} {h : List (Sigma Ans')}
    {b : β} (hr : (t.lift i g).Returns h b) :
    ∃ h₀ a, t.Returns h₀ a ∧ h = h₀.map (liftStep i) ∧ b = g a := by
  obtain ⟨h₀, u, hp, rfl, hu⟩ := exists_path_of_lift hr
  cases u with
  | done a =>
    cases hu
    exact ⟨h₀, a, hp, rfl, rfl⟩
  | ask op next => cases hu

end Thread

def Call.lift (i : Op → Op') (g : ρ → ρ') : Call Op (fun op => Ans' (i op)) ρ → Call Op' Ans' ρ'
  | .running t => .running (t.lift i g)
  | .returned r => .returned (g r)

variable {Op₁ Op₂ : Type} {Ans₁ : Op₁ → Type} {Ans₂ : Op₂ → Type} {σ Req₁ Req₂ ρ₁ ρ₂ Act : Type}

/-- The calls of two services over one state, with the actions of the first one. -/
def Service.both (M : Service Op₁ Ans₁ σ Req₁ ρ₁ Act) (N : Service Op₂ Ans₂ σ Req₂ ρ₂ Act) :
    Service (Op₁ ⊕ Op₂) (Sum.elim Ans₁ Ans₂) σ (Req₁ ⊕ Req₂) (ρ₁ ⊕ ρ₂) Act where
  handle
    | .inl req => (M.handle req).lift Sum.inl Sum.inl
    | .inr req => (N.handle req).lift Sum.inr Sum.inr
  exec
    | .inl op => M.exec op
    | .inr op => N.exec op
  act := M.act

/-- No operation of the service changes the shared state. -/
def Service.ReadsOnly (N : Service Op₂ Ans₂ σ Req₂ ρ₂ Act) : Prop :=
  ∀ op s x s', N.exec op s = some (x, s') → s' = s

/-- A call of either service. -/
def Call.both : Call Op₁ Ans₁ ρ₁ ⊕ Call Op₂ Ans₂ ρ₂ →
    Call (Op₁ ⊕ Op₂) (Sum.elim Ans₁ Ans₂) (ρ₁ ⊕ ρ₂)
  | .inl c => c.lift Sum.inl Sum.inl
  | .inr c => c.lift Sum.inr Sum.inr

abbrev BothEvent (Ans₁ : Op₁ → Type) (Ans₂ : Op₂ → Type) (Req₁ Req₂ ρ₁ ρ₂ Act : Type) : Type :=
  Event (Sum.elim Ans₁ Ans₂) (Req₁ ⊕ Req₂) (ρ₁ ⊕ ρ₂) Act

def Event.req? {Req : Type} {Ans : Op → Type} : Event Ans Req ρ Act → Option Req
  | .call _ req => some req
  | _ => none

/-- How many of the first calls are calls of the first service. -/
def leftsBefore (tr : List (BothEvent Ans₁ Ans₂ Req₁ Req₂ ρ₁ ρ₂ Act)) (id : ℕ) : ℕ :=
  ((tr.filterMap Event.req?).take id).countP Sum.isLeft

/-- An event of the first service, with its call renumbered. -/
def Event.left? (n : ℕ → ℕ) : BothEvent Ans₁ Ans₂ Req₁ Req₂ ρ₁ ρ₂ Act →
    Option (Event Ans₁ Req₁ ρ₁ Act)
  | .call id (.inl req) => some (.call (n id) req)
  | .step id ⟨.inl op, x⟩ => some (.step (n id) ⟨op, x⟩)
  | .ret id (.inl r) => some (.ret (n id) r)
  | .act x => some (.act x)
  | _ => none

/-- The events of the first service, its calls counted on their own. -/
def leftTrace (tr : List (BothEvent Ans₁ Ans₂ Req₁ Req₂ ρ₁ ρ₂ Act)) :
    List (Event Ans₁ Req₁ ρ₁ Act) :=
  tr.filterMap (Event.left? (leftsBefore tr))

section Lists

variable {A B : Type} {cs : List (A ⊕ B)} {id : ℕ} {a a' : A} {b b' : B}

theorem length_filterMap_getLeft? (cs : List (A ⊕ B)) :
    (cs.filterMap Sum.getLeft?).length = cs.countP Sum.isLeft := by
  induction cs with
  | nil => rfl
  | cons c cs ih =>
    cases c with
    | inl a =>
      have ha : Sum.getLeft? (.inl a : A ⊕ B) = some a := rfl
      rw [List.filterMap_cons_some ha, List.length_cons, ih, List.countP_cons_of_pos rfl]
    | inr b =>
      have hb : ¬ Sum.isLeft (.inr b : A ⊕ B) = true := Bool.false_ne_true
      rw [List.filterMap_cons_none rfl, ih, List.countP_cons_of_neg hb]

theorem exists_split_getLeft? {c : A ⊕ B} (h : cs[id]? = some c) :
    ∃ l r, cs = l ++ c :: r ∧ l.length = id := by
  obtain ⟨hlt, rfl⟩ := List.getElem?_eq_some_iff.mp h
  exact ⟨cs.take id, cs.drop (id + 1), by simp, by rw [List.length_take, Nat.min_eq_left hlt.le]⟩

theorem getElem?_filterMap_getLeft? (h : cs[id]? = some (.inl a)) :
    (cs.filterMap Sum.getLeft?)[(cs.take id).countP Sum.isLeft]? = some a := by
  obtain ⟨l, r, rfl, rfl⟩ := exists_split_getLeft? h
  rw [List.take_left, ← length_filterMap_getLeft?, List.filterMap_append]
  simp

theorem filterMap_getLeft?_set_inl (h : cs[id]? = some (.inl a)) :
    (cs.set id (.inl a')).filterMap Sum.getLeft? =
      (cs.filterMap Sum.getLeft?).set ((cs.take id).countP Sum.isLeft) a' := by
  obtain ⟨l, r, rfl, rfl⟩ := exists_split_getLeft? h
  rw [List.take_left, ← length_filterMap_getLeft?, List.filterMap_append]
  simp

theorem filterMap_getLeft?_set_inr (h : cs[id]? = some (.inr b)) :
    (cs.set id (.inr b')).filterMap Sum.getLeft? = cs.filterMap Sum.getLeft? := by
  obtain ⟨l, r, rfl, rfl⟩ := exists_split_getLeft? h
  rw [List.set_append_right _ _ (Nat.le_refl _), Nat.sub_self, List.set_cons_zero,
    List.filterMap_append, List.filterMap_append, List.filterMap_cons_none rfl,
    List.filterMap_cons_none rfl]

end Lists

variable {M : Service Op₁ Ans₁ σ Req₁ ρ₁ Act} {N : Service Op₂ Ans₂ σ Req₂ ρ₂ Act}
  {tr : List (BothEvent Ans₁ Ans₂ Req₁ Req₂ ρ₁ ρ₂ Act)}
  {e : BothEvent Ans₁ Ans₂ Req₁ Req₂ ρ₁ ρ₂ Act} {id : ℕ} {s₀ : σ}
  {p : Pool (Op₁ ⊕ Op₂) (Sum.elim Ans₁ Ans₂) σ (ρ₁ ⊕ ρ₂)}

theorem leftsBefore_concat (h : id ≤ (tr.filterMap Event.req?).length) :
    leftsBefore (tr ++ [e]) id = leftsBefore tr id := by
  rw [leftsBefore, leftsBefore, List.filterMap_append, List.take_append_of_le_length h]

theorem Event.left?_congr {n n' : ℕ → ℕ} (h : ∀ id, e.id? = some id → n id = n' id) :
    e.left? n = e.left? n' := by
  rcases e with ⟨id, req | req⟩ | ⟨id, op | op, x⟩ | ⟨id, r | r⟩ | x
  all_goals first | rfl | simp only [left?, h id rfl]

namespace Service

/-- The pools of a run and of what is left of it: the calls of the first service are the same, in
the same order. -/
structure Erases (tr : List (BothEvent Ans₁ Ans₂ Req₁ Req₂ ρ₁ ρ₂ Act))
    (p : Pool (Op₁ ⊕ Op₂) (Sum.elim Ans₁ Ans₂) σ (ρ₁ ⊕ ρ₂)) (q : Pool Op₁ Ans₁ σ ρ₁)
    (cs : List (Call Op₁ Ans₁ ρ₁ ⊕ Call Op₂ Ans₂ ρ₂)) : Prop where
  shared : q.shared = p.shared
  calls : p.calls = cs.map Call.both
  lefts : q.calls = cs.filterMap Sum.getLeft?
  kinds : (tr.filterMap Event.req?).map Sum.isLeft = cs.map Sum.isLeft

theorem Erases.length_eq {q : Pool Op₁ Ans₁ σ ρ₁} {cs : List (Call Op₁ Ans₁ ρ₁ ⊕ Call Op₂ Ans₂ ρ₂)}
    (h : Erases tr p q cs) : (tr.filterMap Event.req?).length = p.calls.length := by
  have hk := congrArg List.length h.kinds
  rw [List.length_map, List.length_map] at hk
  rw [hk, h.calls, List.length_map]

section Step

variable {p' : Pool (Op₁ ⊕ Op₂) (Sum.elim Ans₁ Ans₂) σ (ρ₁ ⊕ ρ₂)} {q : Pool Op₁ Ans₁ σ ρ₁}
  {cs : List (Call Op₁ Ans₁ ρ₁ ⊕ Call Op₂ Ans₂ ρ₂)}

theorem Erases.leftsBefore_eq (h : Erases tr p q cs) (id : ℕ) :
    leftsBefore tr id = (cs.take id).countP Sum.isLeft := by
  have hk := congrArg (List.take id) h.kinds
  rw [← List.map_take, ← List.map_take] at hk
  have hc := congrArg (List.countP fun b => b) hk
  rw [List.countP_map, List.countP_map] at hc
  exact hc

theorem Erases.leftsBefore_length (h : Erases tr p q cs) :
    leftsBefore tr p.calls.length = q.calls.length := by
  rw [h.leftsBefore_eq, h.calls, List.length_map, List.take_length, h.lefts,
    length_filterMap_getLeft?]

theorem Erases.exists_call {c : Call (Op₁ ⊕ Op₂) (Sum.elim Ans₁ Ans₂) (ρ₁ ⊕ ρ₂)}
    (h : Erases tr p q cs) (hc : p.calls[id]? = some c) :
    ∃ b, cs[id]? = some b ∧ Call.both b = c := by
  rw [h.calls, List.getElem?_map] at hc
  exact Option.map_eq_some_iff.mp hc

theorem Erases.getElem?_lefts {c : Call Op₁ Ans₁ ρ₁} (h : Erases tr p q cs)
    (hc : cs[id]? = some (.inl c)) : q.calls[leftsBefore tr id]? = some c := by
  rw [h.lefts, h.leftsBefore_eq]
  exact getElem?_filterMap_getLeft? hc

theorem Erases.kinds_set {c c' : Call Op₁ Ans₁ ρ₁ ⊕ Call Op₂ Ans₂ ρ₂} (h : Erases tr p q cs)
    (he : e.req? = none) (hc : cs[id]? = some c) (hk : c'.isLeft = c.isLeft) :
    ((tr ++ [e]).filterMap Event.req?).map Sum.isLeft = (cs.set id c').map Sum.isLeft := by
  rw [List.filterMap_append, List.filterMap_cons_none he, List.filterMap_nil, List.append_nil,
    h.kinds]
  obtain ⟨l, r, rfl, rfl⟩ := exists_split_getLeft? hc
  simp [hk]

theorem Erases.set_inl {b c : Call Op₁ Ans₁ ρ₁} (h : Erases tr p q cs) (he : e.req? = none)
    (hb : cs[id]? = some (.inl b)) (s : σ) :
    Erases (tr ++ [e]) ⟨s, p.calls.set id (Call.both (.inl c))⟩
      ⟨s, q.calls.set (leftsBefore tr id) c⟩ (cs.set id (.inl c)) := by
  refine ⟨rfl, ?_, ?_, h.kinds_set he hb rfl⟩
  · rw [List.map_set, ← h.calls]
  · rw [filterMap_getLeft?_set_inl hb, ← h.lefts, h.leftsBefore_eq]

theorem Erases.set_inr {b c : Call Op₂ Ans₂ ρ₂} (h : Erases tr p q cs) (he : e.req? = none)
    (hb : cs[id]? = some (.inr b)) :
    Erases (tr ++ [e]) ⟨p.shared, p.calls.set id (Call.both (.inr c))⟩ q
      (cs.set id (.inr c)) := by
  refine ⟨h.shared, ?_, ?_, h.kinds_set he hb rfl⟩
  · rw [List.map_set, ← h.calls]
  · rw [filterMap_getLeft?_set_inr hb, ← h.lefts]

theorem Erases.concat {c : Call Op₁ Ans₁ ρ₁ ⊕ Call Op₂ Ans₂ ρ₂} {req : Req₁ ⊕ Req₂}
    (h : Erases tr p q cs) (he : e.req? = some req) (hk : req.isLeft = c.isLeft) :
    Erases (tr ++ [e]) ⟨p.shared, p.calls ++ [Call.both c]⟩
      ⟨q.shared, q.calls ++ (Sum.getLeft? c).toList⟩ (cs ++ [c]) := by
  refine ⟨h.shared, ?_, ?_, ?_⟩
  · rw [List.map_append, ← h.calls]
    rfl
  · rw [List.filterMap_append, ← h.lefts]
    cases c <;> rfl
  · rw [List.filterMap_append, List.filterMap_cons_some he, List.map_append, h.kinds,
      List.map_append]
    exact congrArg (_ ++ [·]) hk

/-- A step of both services is a step of the first one, or leaves it as it is. -/
theorem Erases.step (h : Erases tr p q cs) (hN : N.ReadsOnly) (hs : (M.both N).Step p e p') :
    ∃ q' cs', Erases (tr ++ [e]) p' q' cs' ∧ ((e.left? (leftsBefore tr) = none ∧ q' = q) ∨
      ∃ e', e.left? (leftsBefore tr) = some e' ∧ M.Step q e' q') := by
  cases hs with
  | call req =>
    rcases req with req | req
    · refine ⟨_, _, h.concat (c := .inl (.running (M.handle req))) rfl rfl, Or.inr ⟨_, rfl, ?_⟩⟩
      rw [h.leftsBefore_length]
      exact .call req
    · exact ⟨_, _, h.concat (c := .inr (.running (N.handle req))) rfl rfl,
        Or.inl ⟨rfl, by simp⟩⟩
  | @step id op next x s hrun he =>
    obtain ⟨b, hb, hbc⟩ := h.exists_call hrun
    rcases b with (t | r) | (t | r)
    · cases t with
      | done a => cases hbc
      | ask op₁ next₁ =>
        cases hbc
        refine ⟨_, _, h.set_inl (c := .running (next₁ x)) rfl hb s, Or.inr ⟨_, rfl, ?_⟩⟩
        refine .step (h.getElem?_lefts hb) ?_
        rw [h.shared]
        exact he
    · cases hbc
    · cases t with
      | done a => cases hbc
      | ask op₂ next₂ =>
        cases hbc
        obtain rfl := hN op₂ p.shared x s he
        exact ⟨_, _, h.set_inr (c := .running (next₂ x)) rfl hb, Or.inl ⟨rfl, rfl⟩⟩
    · cases hbc
  | @ret id r hrun =>
    obtain ⟨b, hb, hbc⟩ := h.exists_call hrun
    rcases b with (t | r₁) | (t | r₂)
    · cases t with
      | done a =>
        cases hbc
        refine ⟨_, _, h.set_inl (c := .returned a) rfl hb p.shared, Or.inr ⟨_, rfl, ?_⟩⟩
        rw [← h.shared]
        exact .ret (h.getElem?_lefts hb)
      | ask op₁ next₁ => cases hbc
    · cases hbc
    · cases t with
      | done a =>
        cases hbc
        exact ⟨_, _, h.set_inr (c := .returned a) rfl hb, Or.inl ⟨rfl, rfl⟩⟩
      | ask op₂ next₂ => cases hbc
    · cases hbc
  | act x =>
    refine ⟨⟨M.act x q.shared, q.calls⟩, cs, ⟨?_, h.calls, h.lefts, ?_⟩, Or.inr ⟨_, rfl, .act x⟩⟩
    · rw [h.shared]
      rfl
    · rw [List.filterMap_append, ← h.kinds]
      exact congrArg _ (List.append_nil _)

end Step

theorem Step.id_le {p p' : Pool (Op₁ ⊕ Op₂) (Sum.elim Ans₁ Ans₂) σ (ρ₁ ⊕ ρ₂)}
    (hs : (M.both N).Step p e p') (he : e.id? = some id) : id ≤ p.calls.length := by
  cases hs with
  | call req =>
    cases he
    exact Nat.le_refl _
  | step hrun _ =>
    cases he
    exact (List.getElem?_eq_some_iff.mp hrun).1.le
  | ret hrun =>
    cases he
    exact (List.getElem?_eq_some_iff.mp hrun).1.le
  | act x => cases he

theorem leftTrace_concat {p' : Pool (Op₁ ⊕ Op₂) (Sum.elim Ans₁ Ans₂) σ (ρ₁ ⊕ ρ₂)}
    {q : Pool Op₁ Ans₁ σ ρ₁} {cs : List (Call Op₁ Ans₁ ρ₁ ⊕ Call Op₂ Ans₂ ρ₂)}
    (hr : Run (M.both N).Step ⟨s₀, []⟩ tr p) (h : Erases tr p q cs)
    (hs : (M.both N).Step p e p') :
    leftTrace (tr ++ [e]) = leftTrace tr ++ (e.left? (leftsBefore tr)).toList := by
  have hle {d : BothEvent Ans₁ Ans₂ Req₁ Req₂ ρ₁ ρ₂ Act}
      (hd : ∀ id, d.id? = some id → id ≤ p.calls.length) :
      d.left? (leftsBefore (tr ++ [e])) = d.left? (leftsBefore tr) :=
    Event.left?_congr fun id hid => leftsBefore_concat (h.length_eq ▸ hd id hid)
  unfold leftTrace
  rw [List.filterMap_append, List.filterMap_congr fun d hd => hle fun id hid =>
    (lt_length_of_mem hr hd (Event.isOf_iff.mpr hid)).le]
  congr 1
  rw [← hle fun id hid => hs.id_le hid]
  simp only [List.filterMap_cons, List.filterMap_nil]
  cases e.left? (leftsBefore (tr ++ [e])) <;> rfl

/-- If the second service only reads, erasing its calls leaves a run of the first one that reaches
the same shared state. -/
theorem exists_run_left (hN : N.ReadsOnly) (hr : Run (M.both N).Step ⟨s₀, []⟩ tr p) :
    ∃ q cs, Run M.Step ⟨s₀, []⟩ (leftTrace tr) q ∧ Erases tr p q cs := by
  induction hr with
  | nil => exact ⟨⟨s₀, []⟩, [], .nil, rfl, rfl, rfl, rfl⟩
  | @snoc tr p p' e hr hs ih =>
    obtain ⟨q, cs, hq, he⟩ := ih
    obtain ⟨q', cs', he', hstep⟩ := he.step hN hs
    refine ⟨q', cs', ?_, he'⟩
    rw [leftTrace_concat hr he hs]
    rcases hstep with ⟨hnone, rfl⟩ | ⟨e', hsome, hstep⟩
    · rw [hnone]
      exact (List.append_nil (leftTrace tr)).symm ▸ hq
    · rw [hsome]
      exact hq.snoc hstep

theorem Erases.mem_calls {q : Pool Op₁ Ans₁ σ ρ₁} {cs : List (Call Op₁ Ans₁ ρ₁ ⊕ Call Op₂ Ans₂ ρ₂)}
    {c : Call Op₁ Ans₁ ρ₁} (h : Erases tr p q cs) (hc : c ∈ q.calls) :
    Call.both (.inl c) ∈ p.calls := by
  rw [h.lefts] at hc
  obtain ⟨b, hb, hbc⟩ := List.mem_filterMap.mp hc
  obtain rfl := Sum.getLeft?_eq_some_iff.mp hbc
  exact h.calls ▸ List.mem_map_of_mem hb

theorem Erases.quiet {q : Pool Op₁ Ans₁ σ ρ₁} {cs : List (Call Op₁ Ans₁ ρ₁ ⊕ Call Op₂ Ans₂ ρ₂)}
    (h : Erases tr p q cs) (hq : Quiet p) : Quiet q := by
  intro c hc
  obtain ⟨r, hr⟩ := hq _ (h.mem_calls hc)
  cases c with
  | running t => cases hr
  | returned r => exact ⟨r, rfl⟩

end Service

end Concurrency
