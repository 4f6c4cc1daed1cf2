import Mathlib.Tactic.Ring

/-! # Outcomes and effects of Rust calls

A call whose type is `Result<α, ε>` returns a value, returns an error, or
panics. `Outcome` is the monad of such calls and `Exec` the case without an
error type. `Eff` adds a state that survives errors and panics, with rules that
run a sequence of calls forwards and take one apart.
-/

namespace Rust

/-- What a call of type `Result<α, ε>` does. -/
inductive Outcome (ε α : Type) where
  | ok (a : α)
  | err (e : ε)
  | panic
  deriving DecidableEq, Repr

/-- A call that returns a plain value or panics. -/
abbrev Exec (α : Type) := Outcome Empty α

variable {ε ε' α β σ : Type}

namespace Outcome

/-- Sequencing with `?`: the first error or panic ends the call. -/
protected def bind : Outcome ε α → (α → Outcome ε β) → Outcome ε β
  | ok a, f => f a
  | err e, _ => err e
  | panic, _ => panic

instance : Monad (Outcome ε) where
  pure := ok
  bind := Outcome.bind

@[simp] theorem pure_eq_ok (a : α) : (pure a : Outcome ε α) = ok a := rfl
@[simp] theorem ok_bind (a : α) (f : α → Outcome ε β) : ok a >>= f = f a := rfl
@[simp] theorem err_bind (e : ε) (f : α → Outcome ε β) : err e >>= f = err e := rfl
@[simp] theorem panic_bind (f : α → Outcome ε β) : panic >>= f = panic := rfl

instance : LawfulMonad (Outcome ε) :=
  LawfulMonad.mk' _ (fun x => by cases x <;> rfl) (fun _ _ => rfl)
    (fun x _ _ => by cases x <;> rfl)

theorem bind_eq_ok_iff {x : Outcome ε α} {f : α → Outcome ε β} {b : β} :
    x >>= f = ok b ↔ ∃ a, x = ok a ∧ f a = ok b := by
  cases x <;> simp

theorem bind_eq_panic_iff {x : Outcome ε α} {f : α → Outcome ε β} :
    x >>= f = panic ↔ x = panic ∨ ∃ a, x = ok a ∧ f a = panic := by
  cases x <;> simp

theorem mapM_ok {f : α → Outcome ε β} {g : α → β} {l : List α} (h : ∀ a ∈ l, f a = ok (g a)) :
    l.mapM f = ok (l.map g) := by
  induction l with
  | nil => rfl
  | cons a l ih =>
    rw [List.mapM_cons, h a (by simp), ih fun a ha => h a (List.mem_cons_of_mem _ ha)]
    rfl

theorem mapM_congr {f g : α → Outcome ε β} {l : List α} (h : ∀ a ∈ l, f a = g a) :
    l.mapM f = l.mapM g := by
  induction l with
  | nil => rfl
  | cons a l ih =>
    rw [List.mapM_cons, List.mapM_cons, h a (by simp),
      ih fun a ha => h a (List.mem_cons_of_mem _ ha)]

theorem mapM_panic {f : α → Outcome ε β} {l : List α} {a : α} (ha : a ∈ l) (h : f a = panic)
    (he : ∀ a ∈ l, ∀ e, f a ≠ err e) : l.mapM f = panic := by
  induction l with
  | nil => simp at ha
  | cons b l ih =>
    rw [List.mapM_cons]
    cases hb : f b with
    | err e => exact absurd hb (he b (by simp) e)
    | panic => rfl
    | ok c =>
      rcases List.mem_cons.mp ha with rfl | ha
      · rw [h] at hb; exact nomatch hb
      · rw [ih ha fun a ha => he a (List.mem_cons_of_mem _ ha)]; rfl

theorem foldlM_ok {f : β → α → Outcome ε β} {g : β → α → β} {l : List α}
    (h : ∀ a ∈ l, ∀ b, f b a = ok (g b a)) (b : β) : l.foldlM f b = ok (l.foldl g b) := by
  induction l generalizing b with
  | nil => rfl
  | cons a l ih =>
    rw [List.foldlM_cons, h a (by simp), ok_bind, ih fun a ha => h a (List.mem_cons_of_mem _ ha)]
    rfl

theorem foldlM_err {f : β → α → Outcome ε β} {l : List α} {a : α} (ha : a ∈ l)
    (h : ∀ b, ∃ e, f b a = err e) (hp : ∀ a b, f b a ≠ panic) (b : β) :
    ∃ e, l.foldlM f b = err e := by
  induction l generalizing b with
  | nil => cases ha
  | cons c l ih =>
    rw [List.foldlM_cons]
    cases hc : f b c with
    | err e => exact ⟨e, rfl⟩
    | panic => exact absurd hc (hp c b)
    | ok b' =>
      rcases List.mem_cons.mp ha with rfl | ha
      · obtain ⟨e, he⟩ := h b
        rw [hc] at he
        cases he
      · exact ih ha b'

/-- `Result::map_err` and `anyhow`'s `context`. -/
def mapErr (f : ε → ε') : Outcome ε α → Outcome ε' α
  | ok a => ok a
  | err e => err (f e)
  | panic => panic

@[simp] theorem mapErr_ok (f : ε → ε') (a : α) : (ok a : Outcome ε α).mapErr f = ok a := rfl
@[simp] theorem mapErr_err (f : ε → ε') (e : ε) : (err e : Outcome ε α).mapErr f = err (f e) := rfl
@[simp] theorem mapErr_panic (f : ε → ε') : (panic : Outcome ε α).mapErr f = panic := rfl

/-- A `Result` of code that does not panic. -/
def ofExcept : Except ε α → Outcome ε α
  | .ok a => ok a
  | .error e => err e

@[simp] theorem ofExcept_ok (a : α) : ofExcept (.ok a : Except ε α) = ok a := rfl
@[simp] theorem ofExcept_error (e : ε) : ofExcept (.error e : Except ε α) = err e := rfl

/-- A call without an error type inside one that has one. -/
def widen : Exec α → Outcome ε α
  | ok a => ok a
  | panic => panic

instance : MonadLift (Outcome Empty) (Outcome ε) := ⟨widen⟩

@[simp] theorem liftM_ok (a : α) : (liftM (ok a : Exec α) : Outcome ε α) = ok a := rfl
@[simp] theorem liftM_panic : (liftM (panic : Exec α) : Outcome ε α) = panic := rfl

theorem liftM_eq_ok_iff {x : Exec α} {a : α} : (liftM x : Outcome ε α) = ok a ↔ x = ok a := by
  rcases x with _ | e | _
  · simp
  · exact e.elim
  · simp

theorem liftM_eq_panic_iff {x : Exec α} : (liftM x : Outcome ε α) = panic ↔ x = panic := by
  rcases x with _ | e | _
  · simp
  · exact e.elim
  · simp

end Outcome

/-- `Option::expect` and `Option::unwrap`. -/
def expect : Option α → Exec α
  | some a => .ok a
  | none => .panic

@[simp] theorem expect_some (a : α) : expect (some a) = .ok a := rfl
@[simp] theorem expect_none : expect (none : Option α) = .panic := rfl

/-- `Result::unwrap`. -/
def unwrap : Outcome ε α → Exec α
  | .ok a => .ok a
  | .err _ => .panic
  | .panic => .panic

@[simp] theorem unwrap_ok (a : α) : unwrap (.ok a : Outcome ε α) = .ok a := rfl

/-- Addition of `usize` or `u64` without overflow checks. -/
def wrappingAdd (a b : ℕ) : ℕ := (a + b) % 2 ^ 64

/-- Multiplication of `usize` or `u64` without overflow checks. -/
def wrappingMul (a b : ℕ) : ℕ := (a * b) % 2 ^ 64

theorem wrappingAdd_of_lt {a b : ℕ} (h : a + b < 2 ^ 64) : wrappingAdd a b = a + b :=
  Nat.mod_eq_of_lt h

theorem wrappingMul_of_lt {a b : ℕ} (h : a * b < 2 ^ 64) : wrappingMul a b = a * b :=
  Nat.mod_eq_of_lt h

/-- A call that reads and changes a state; the state stays as it is when the call fails. -/
def Eff (σ ε α : Type) := σ → Outcome ε α × σ

namespace Eff

/-- Run the second call in the state the first one left, unless the first one failed. -/
protected def bind (m : Eff σ ε α) (f : α → Eff σ ε β) : Eff σ ε β := fun s =>
  match m s with
  | (.ok a, s') => f a s'
  | (.err e, s') => (.err e, s')
  | (.panic, s') => (.panic, s')

instance : Monad (Eff σ ε) where
  pure a := fun s => (.ok a, s)
  bind := Eff.bind

instance : MonadLift (Outcome ε) (Eff σ ε) := ⟨fun x s => (x, s)⟩

theorem bind_apply (m : Eff σ ε α) (f : α → Eff σ ε β) (s : σ) :
    (m >>= f) s = match m s with
      | (.ok a, s') => f a s'
      | (.err e, s') => (.err e, s')
      | (.panic, s') => (.panic, s') := rfl

theorem liftM_apply (x : Outcome ε α) (s : σ) : (liftM x : Eff σ ε α) s = (x, s) := rfl

theorem liftM_ok_bind (a : α) (f : α → Eff σ ε β) :
    (liftM (.ok a : Outcome ε α) : Eff σ ε α) >>= f = f a := rfl

theorem liftM_exec_bind {x : Exec α} {a : α} (h : x = .ok a) (f : α → Eff σ ε β) :
    (liftM x : Eff σ ε α) >>= f = f a := by
  rw [h]
  rfl

theorem bind_of_ok {m : Eff σ ε α} {f : α → Eff σ ε β} {s s' : σ} {a : α}
    (h : m s = (.ok a, s')) : (m >>= f) s = f a s' := by
  rw [bind_apply, h]

theorem bind_eq_ok_iff {m : Eff σ ε α} {f : α → Eff σ ε β} {s s' : σ} {b : β} :
    (m >>= f) s = (.ok b, s') ↔ ∃ a t, m s = (.ok a, t) ∧ f a t = (.ok b, s') := by
  rw [bind_apply]
  rcases m s with ⟨a | e | _, t⟩
  · exact ⟨fun h => ⟨a, t, rfl, h⟩, fun ⟨_, _, he, h⟩ => by cases he; exact h⟩
  · simp
  · simp

theorem bind_eq_err_iff {m : Eff σ ε α} {f : α → Eff σ ε β} {s s' : σ} {e : ε} :
    (m >>= f) s = (.err e, s') ↔
      m s = (.err e, s') ∨ ∃ a t, m s = (.ok a, t) ∧ f a t = (.err e, s') := by
  rw [bind_apply]
  rcases m s with ⟨a | e | _, t⟩
  · refine ⟨fun h => Or.inr ⟨a, t, rfl, h⟩, ?_⟩
    rintro (h | ⟨_, _, he, h⟩)
    · exact nomatch h
    · cases he
      exact h
  · simp
  · simp

theorem foldlM_congr {f g : β → α → Eff σ ε β} {l : List α} (h : ∀ a ∈ l, ∀ b, f b a = g b a)
    (b : β) : l.foldlM f b = l.foldlM g b := by
  induction l generalizing b with
  | nil => rfl
  | cons a l ih =>
    rw [List.foldlM_cons, List.foldlM_cons, h a (by simp)]
    exact congrArg _ (funext fun b' => ih (fun a ha => h a (List.mem_cons_of_mem _ ha)) b')

/-- The call returns or panics. -/
def NoError (m : Eff σ ε α) : Prop := ∀ s e s', m s ≠ (.err e, s')

theorem NoError.bind {m : Eff σ ε α} {f : α → Eff σ ε β} (hm : NoError m)
    (hf : ∀ a, NoError (f a)) : NoError (m >>= f) := by
  intro s e s' h
  rcases bind_eq_err_iff.mp h with h | ⟨a, t, _, h⟩
  · exact hm s e s' h
  · exact hf a t e s' h

theorem NoError.pure (a : α) : NoError (pure a : Eff σ ε α) := fun _ _ _ => nofun

theorem NoError.exec (x : Exec α) : NoError (liftM x : Eff σ ε α) := by
  intro s e s' h
  rcases x with _ | e | _
  · exact nomatch h
  · exact e.elim
  · exact nomatch h

end Eff

/-- The lines a program has printed. -/
abbrev Console := List String

def println (line : String) : Eff Console ε Unit := fun out => (.ok (), out ++ [line])

theorem println_apply (line : String) (out : Console) :
    println line out = ((.ok () : Outcome ε Unit), out ++ [line]) := rfl

theorem println_bind (line : String) (f : Unit → Eff Console ε α) (out : Console) :
    (println line >>= f) out = f () (out ++ [line]) := rfl

end Rust
