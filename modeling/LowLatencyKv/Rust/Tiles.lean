import Mathlib.Data.List.Perm.Basic
import LowLatencyKv.Rust.File

/-! # Writes that tile a file

A list of writes tiles a range when each one starts where the one before it
ends. In whatever order they are then made, the writes stay in the range, keep
apart from each other and leave no byte of it out.
-/

namespace Rust

/-- Bytes to be written from a position on. -/
structure Write where
  start : ℕ
  src : List UInt8
  deriving DecidableEq, Repr

namespace Write

/-- The position behind the last byte written. -/
def stop (w : Write) : ℕ := w.start + w.src.length

/-- The ranges of two writes share no position. -/
def Apart (w w' : Write) : Prop := w.stop ≤ w'.start ∨ w'.stop ≤ w.start

theorem Apart.symm {w w' : Write} (h : w.Apart w') : w'.Apart w := Or.symm h

/-- `mmap[start..stop].copy_from_slice(src)`. -/
def copy (w : Write) (f : File) : Exec File := f.copyFromSlice w.start w.stop w.src

end Write

/-- The writes make `f` into each content of the second list in turn. -/
inductive Performs : File → List Write → List File → Prop where
  | nil (f : File) : Performs f [] []
  | cons {f g : File} {w : Write} {ws : List Write} {gs : List File} (hw : w.copy f = .ok g)
      (hws : Performs g ws gs) : Performs f (w :: ws) (g :: gs)

/-- Writes that start at `a`, follow on each other and end at `b`. -/
def Tiles : List Write → ℕ → ℕ → Prop
  | [], a, b => a = b
  | w :: ws, a, b => w.start = a ∧ Tiles ws w.stop b

/-- Writes inside the first `n` positions, pairwise apart, that reach all of these. -/
structure Partition (ws : List Write) (n : ℕ) : Prop where
  inside : ∀ w ∈ ws, w.stop ≤ n
  apart : ws.Pairwise Write.Apart
  covers : ∀ p < n, ∃ w ∈ ws, w.start ≤ p ∧ p < w.stop

variable {ws ws' : List Write} {a b c n : ℕ}

theorem Tiles.append (h : Tiles ws a b) (h' : Tiles ws' b c) : Tiles (ws ++ ws') a c := by
  induction ws generalizing a with
  | nil =>
    obtain rfl : a = b := h
    exact h'
  | cons w ws ih => exact ⟨h.1, ih h.2⟩

theorem Tiles.stop_le (h : Tiles ws a b) : a ≤ b ∧ ∀ w ∈ ws, a ≤ w.start ∧ w.stop ≤ b := by
  induction ws generalizing a with
  | nil => exact ⟨Nat.le_of_eq h, nofun⟩
  | cons w ws ih =>
    obtain ⟨rfl, hws⟩ := h
    obtain ⟨hle, hin⟩ := ih hws
    have hw : w.start ≤ w.stop := Nat.le_add_right _ _
    refine ⟨Nat.le_trans hw hle, ?_⟩
    rintro w' (_ | ⟨_, hw'⟩)
    · exact ⟨Nat.le_refl _, hle⟩
    · exact ⟨Nat.le_trans hw (hin w' hw').1, (hin w' hw').2⟩

theorem Tiles.apart (h : Tiles ws a b) : ws.Pairwise Write.Apart := by
  induction ws generalizing a with
  | nil => exact List.Pairwise.nil
  | cons w ws ih =>
    apply List.Pairwise.cons
    · intro w' hw'
      exact Or.inl (h.2.stop_le.2 w' hw').1
    · exact ih h.2

theorem Tiles.covers {p : ℕ} (h : Tiles ws a b) (ha : a ≤ p) (hb : p < b) :
    ∃ w ∈ ws, w.start ≤ p ∧ p < w.stop := by
  induction ws generalizing a with
  | nil =>
    obtain rfl : a = b := h
    omega
  | cons w ws ih =>
    obtain ⟨rfl, hws⟩ := h
    by_cases hp : p < w.stop
    · exact ⟨w, by simp, ha, hp⟩
    · obtain ⟨w', hw', hin⟩ := ih hws (by omega)
      exact ⟨w', List.mem_cons_of_mem _ hw', hin⟩

/-- In any order, writes that tile the first positions partition them. -/
theorem Tiles.partition (h : Tiles ws 0 n) (hp : ws'.Perm ws) : Partition ws' n where
  inside := fun w hw => (h.stop_le.2 w (hp.mem_iff.mp hw)).2
  apart := (hp.pairwise_iff fun h => Write.Apart.symm h).mpr h.apart
  covers := fun p hlt => by
    obtain ⟨w, hw, hin⟩ := h.covers (Nat.zero_le p) hlt
    exact ⟨w, hp.mem_iff.mpr hw, hin⟩

end Rust
