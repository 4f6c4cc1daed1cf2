import Mathlib.Logic.Basic
import Mathlib.Data.List.Basic

/-! # Threads

A thread asks a shared state one question at a time. What a thread returns is read
off the history of its questions and their answers, one rule for each way to
build a thread.
-/

namespace Concurrency

/-- A computation that performs one operation after the other. -/
inductive Thread (Op : Type) (Ans : Op → Type) (α : Type) where
  | done (a : α)
  | ask (op : Op) (next : Ans op → Thread Op Ans α)

variable {Op : Type} {Ans : Op → Type} {α β : Type}

namespace Thread

protected def bind : Thread Op Ans α → (α → Thread Op Ans β) → Thread Op Ans β
  | .done a, f => f a
  | .ask op next, f => .ask op fun x => (next x).bind f

instance : Monad (Thread Op Ans) where
  pure := .done
  bind := .bind

/-- One operation. -/
def perform (op : Op) : Thread Op Ans (Ans op) := .ask op .done

/-- The first thread becomes the second by these answers. -/
inductive Path : Thread Op Ans α → List (Sigma Ans) → Thread Op Ans α → Prop
  | refl (t : Thread Op Ans α) : Path t [] t
  | ask {op : Op} {next : Ans op → Thread Op Ans α} {x : Ans op} {h : List (Sigma Ans)}
      {t : Thread Op Ans α} : Path (next x) h t → Path (.ask op next) (⟨op, x⟩ :: h) t

/-- The thread returns `a` after this history. -/
def Returns (t : Thread Op Ans α) (h : List (Sigma Ans)) (a : α) : Prop := t.Path h (.done a)

variable {t u : Thread Op Ans α} {f : α → Thread Op Ans β} {h : List (Sigma Ans)} {a : α} {b : β}
  {op : Op} {next : Ans op → Thread Op Ans α}

theorem Path.snoc (hp : t.Path h (.ask op next)) (x : Ans op) :
    t.Path (h ++ [⟨op, x⟩]) (next x) := by
  generalize hu : Thread.ask op next = u at hp
  induction hp with
  | refl =>
    subst hu
    exact .ask (.refl _)
  | ask _ ih => exact .ask (ih hu)

theorem Path.trans {v : Thread Op Ans α} {h' : List (Sigma Ans)} (hp : t.Path h u)
    (hq : u.Path h' v) : t.Path (h ++ h') v := by
  induction hp with
  | refl => exact hq
  | ask _ ih => exact .ask (ih hq)

theorem exists_returns (hne : ∀ op, Nonempty (Ans op)) (t : Thread Op Ans α) :
    ∃ h a, t.Returns h a := by
  induction t with
  | done a => exact ⟨[], a, .refl _⟩
  | ask op next ih =>
    obtain ⟨x⟩ := hne op
    obtain ⟨h, a, hr⟩ := ih x
    exact ⟨⟨op, x⟩ :: h, a, .ask hr⟩

/-- Where every question has an answer, an unfinished history can be finished. -/
theorem Path.exists_returns (hne : ∀ op, Nonempty (Ans op)) (hp : t.Path h u) :
    ∃ h' a, t.Returns (h ++ h') a := by
  obtain ⟨h', a, hr⟩ := Thread.exists_returns hne u
  exact ⟨h', a, hp.trans hr⟩

@[simp] theorem returns_pure_iff {c : α} :
    (pure c : Thread Op Ans α).Returns h a ↔ h = [] ∧ a = c := by
  constructor
  · intro hr
    cases hr
    exact ⟨rfl, rfl⟩
  · rintro ⟨rfl, rfl⟩
    exact .refl _

theorem returns_ask_iff :
    (Thread.ask op next).Returns h a ↔ ∃ x h', h = ⟨op, x⟩ :: h' ∧ (next x).Returns h' a := by
  constructor
  · intro hr
    cases hr with
    | ask hp => exact ⟨_, _, rfl, hp⟩
  · rintro ⟨x, h', rfl, hr⟩
    exact .ask hr

@[simp] theorem returns_perform_iff {x : Ans op} :
    (perform op : Thread Op Ans (Ans op)).Returns h x ↔ h = [⟨op, x⟩] := by
  constructor
  · intro hr
    obtain ⟨y, h', rfl, hr'⟩ := returns_ask_iff.mp hr
    obtain ⟨rfl, rfl⟩ := returns_pure_iff.mp hr'
    rfl
  · rintro rfl
    exact .ask (.refl _)

@[simp] theorem returns_bind_iff : (t >>= f).Returns h b ↔
    ∃ h₁ a, t.Returns h₁ a ∧ ∃ h₂, (f a).Returns h₂ b ∧ h = h₁ ++ h₂ := by
  induction t generalizing h with
  | done c =>
    constructor
    · intro hr
      exact ⟨[], c, .refl _, h, hr, rfl⟩
    · rintro ⟨h₁, a, ha, h₂, hr, rfl⟩
      obtain ⟨rfl, rfl⟩ := returns_pure_iff.mp ha
      exact hr
  | ask op next ih =>
    have hask : (Thread.ask op next >>= f).Returns h b ↔
        ∃ x h', h = ⟨op, x⟩ :: h' ∧ (next x >>= f).Returns h' b := returns_ask_iff
    rw [hask]
    constructor
    · rintro ⟨x, h', rfl, hr⟩
      obtain ⟨h₁, a, ha, h₂, hb, rfl⟩ := (ih x).mp hr
      exact ⟨_, a, .ask ha, h₂, hb, rfl⟩
    · rintro ⟨h₁, a, ha, h₂, hb, rfl⟩
      obtain ⟨x, h', rfl, ha'⟩ := returns_ask_iff.mp ha
      exact ⟨x, _, rfl, (ih x).mpr ⟨h', a, ha', h₂, hb, rfl⟩⟩

theorem returns_map_ok_iff {ε γ δ : Type} {x : Thread Op Ans (Except ε γ)} {g : γ → δ} {d : δ} :
    (x >>= fun r => pure (r.map g)).Returns h (.ok d) ↔ ∃ c, x.Returns h (.ok c) ∧ d = g c := by
  simp only [returns_bind_iff, returns_pure_iff]
  constructor
  · rintro ⟨h₁, r, hr, _, ⟨rfl, hd⟩, rfl⟩
    rw [List.append_nil]
    cases r with
    | error e => cases hd
    | ok c => exact ⟨c, hr, Except.ok.inj hd⟩
  · rintro ⟨c, hc, rfl⟩
    exact ⟨h, _, hc, [], ⟨rfl, rfl⟩, (List.append_nil h).symm⟩

theorem returns_map_error_iff {ε γ δ : Type} {x : Thread Op Ans (Except ε γ)} {g : γ → δ} {e : ε} :
    (x >>= fun r => pure (r.map g)).Returns h (.error e) ↔ x.Returns h (.error e) := by
  simp only [returns_bind_iff, returns_pure_iff]
  constructor
  · rintro ⟨h₁, r, hr, _, ⟨rfl, he⟩, rfl⟩
    rw [List.append_nil]
    cases r with
    | error e' => exact Except.error.inj he ▸ hr
    | ok c => cases he
  · intro hr
    exact ⟨h, _, hr, [], ⟨rfl, rfl⟩, (List.append_nil h).symm⟩

variable {σ : Type} {exec : (op : Op) → σ → Option (Ans op × σ)} {s s' : σ}

/-- Run a thread with no other one in between; `none` if an operation does not return. -/
def run (exec : (op : Op) → σ → Option (Ans op × σ)) : Thread Op Ans α → σ → Option (α × σ)
  | .done a, s => some (a, s)
  | .ask op next, s =>
    match exec op s with
    | some (x, s') => (next x).run exec s'
    | none => none

@[simp] theorem run_pure (a : α) : (pure a : Thread Op Ans α).run exec s = some (a, s) := rfl

theorem run_perform (op : Op) :
    (perform op : Thread Op Ans (Ans op)).run exec s = exec op s := by
  rw [perform, run]
  cases exec op s with
  | none => rfl
  | some r => rfl

theorem run_bind : (t >>= f).run exec s = (t.run exec s).bind fun r => (f r.1).run exec r.2 := by
  induction t generalizing s with
  | done a => rfl
  | ask op next ih =>
    have hask : (Thread.ask op next >>= f) = .ask op fun x => next x >>= f := rfl
    rw [hask, run, run]
    cases exec op s with
    | none => rfl
    | some r => exact ih r.1

theorem run_bind_of_some (h : t.run exec s = some (a, s')) :
    (t >>= f).run exec s = (f a).run exec s' := by
  rw [run_bind, h]
  rfl

theorem run_bind_of_none (h : t.run exec s = none) : (t >>= f).run exec s = none := by
  rw [run_bind, h]
  rfl

end Thread

end Concurrency
