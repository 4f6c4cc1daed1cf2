import Mathlib.Data.List.Basic
import Mathlib.Tactic.Ring

/-! # Counters of 32 bits

An `i32` that is incremented without overflow checks is the number of its
increments modulo `2 ^ 32`, read as a signed integer.
-/

namespace Rust

variable {α : Type} {n : ℕ}

theorem foldl_count (p : α → Bool) (l : List α) (c : Int32) :
    l.foldl (fun c a => if p a then c + 1 else c) c = c + Int32.ofNat (l.countP p) := by
  induction l generalizing c with
  | nil => simp
  | cons a l ih =>
    rw [List.foldl_cons, ih]
    by_cases ha : p a
    · rw [if_pos ha, List.countP_cons_of_pos ha, Int32.ofNat_add, Int32.add_comm (Int32.ofNat _),
        ← Int32.add_assoc]
      rfl
    · rw [if_neg ha, List.countP_cons_of_neg ha]

/-- A count is positive if its low 32 bits are not zero and the sign among them is clear. -/
theorem ofNat_pos_iff_mod :
    Int32.ofNat n > 0 ↔ 0 < n % 2 ^ 32 ∧ n % 2 ^ 32 < 2 ^ 31 := by
  have hsize : Int32.size = 2 ^ 32 := rfl
  have hzero : (0 : Int32).toInt = 0 := rfl
  rw [gt_iff_lt, Int32.lt_iff_toInt_lt, hzero, Int32.toInt_ofNat', hsize, Int.bmod_def]
  split_ifs with h
  · omega
  · omega

theorem ofNat_pos_iff (h : n < 2 ^ 31) : Int32.ofNat n > 0 ↔ 0 < n := by
  rw [ofNat_pos_iff_mod, Nat.mod_eq_of_lt (by omega)]
  omega

end Rust
