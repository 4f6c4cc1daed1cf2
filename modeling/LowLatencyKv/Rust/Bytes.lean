import Mathlib.Data.List.Basic
import Mathlib.Tactic.Ring
import LowLatencyKv.Rust.Outcome

/-! # Slices of a buffer

`sub` reads the elements of a range and `splice` overwrites them; `slice` is the
Rust operation, which panics outside the buffer. Writes to disjoint ranges do not
disturb each other, and a buffer of equally long blocks behaves as a list of blocks.
-/

namespace Rust

variable {α : Type}

/-- `[α; n]`. -/
@[ext] structure Arr (α : Type) (n : ℕ) where
  toList : List α
  length_toList : toList.length = n
  deriving DecidableEq, Repr

attribute [simp] Arr.length_toList

/-- `[x; n]`. -/
def Arr.replicate (n : ℕ) (x : α) : Arr α n := ⟨List.replicate n x, List.length_replicate⟩

@[simp] theorem Arr.toList_replicate (n : ℕ) (x : α) :
    (Arr.replicate n x).toList = List.replicate n x := rfl

/-- A list cut or filled up with `x` to length `n`. -/
def Arr.ofList (n : ℕ) (x : α) (l : List α) : Arr α n :=
  ⟨(l ++ List.replicate n x).take n, by simp⟩

theorem Arr.ofList_of_length {n : ℕ} (x : α) {l : List α} (h : l.length = n) :
    Arr.ofList n x l = ⟨l, h⟩ := by
  apply Arr.ext
  simp [Arr.ofList, ← h]

@[simp] theorem Arr.ofList_toList {n : ℕ} (x : α) (v : Arr α n) : Arr.ofList n x v.toList = v :=
  Arr.ofList_of_length x v.length_toList

/-- The elements of `bs[a..b]`. -/
def sub (bs : List α) (a b : ℕ) : List α := (bs.drop a).take (b - a)

/-- The buffer with `src` written from position `a` on. -/
def splice (bs : List α) (a : ℕ) (src : List α) : List α :=
  bs.take a ++ src ++ bs.drop (a + src.length)

/-- `&bs[a..b]`. -/
def slice (bs : List α) (a b : ℕ) : Exec (List α) :=
  if a ≤ b ∧ b ≤ bs.length then .ok (sub bs a b) else .panic

/-- `<[α; n]>::try_from(bs).unwrap()`. -/
def toArray (n : ℕ) (bs : List α) : Exec (Arr α n) :=
  if h : bs.length = n then .ok ⟨bs, h⟩ else .panic

variable {bs src : List α} {a b c : ℕ}

theorem slice_of_le (hab : a ≤ b) (hb : b ≤ bs.length) : slice bs a b = .ok (sub bs a b) :=
  if_pos ⟨hab, hb⟩

theorem slice_eq_ok_iff {l : List α} :
    slice bs a b = .ok l ↔ a ≤ b ∧ b ≤ bs.length ∧ sub bs a b = l := by
  unfold slice
  split
  case isTrue h => simp [h]
  case isFalse h => exact ⟨fun hs => (nomatch hs), fun hs => absurd ⟨hs.1, hs.2.1⟩ h⟩

theorem slice_eq_panic_iff : slice bs a b = .panic ↔ ¬ (a ≤ b ∧ b ≤ bs.length) := by
  unfold slice
  split
  case isTrue h => simp [h]
  case isFalse h => simp [h]

theorem slice_congr {bs' : List α} (hl : bs'.length = bs.length) (h : sub bs' a b = sub bs a b) :
    slice bs' a b = slice bs a b := by
  unfold slice
  rw [hl, h]

theorem toArray_of_length {n : ℕ} (h : bs.length = n) : toArray n bs = .ok ⟨bs, h⟩ :=
  dif_pos h

theorem toArray_toList {n : ℕ} (v : Arr α n) : toArray n v.toList = .ok v :=
  dif_pos v.length_toList

theorem length_sub (hab : a ≤ b) (hb : b ≤ bs.length) : (sub bs a b).length = b - a := by
  simp only [sub, List.length_take, List.length_drop]
  omega

theorem getElem?_sub (i : ℕ) : (sub bs a b)[i]? = if i < b - a then bs[a + i]? else none := by
  simp only [sub, List.getElem?_take, List.getElem?_drop]

theorem mem_sub {x : α} {i : ℕ} (h : bs[i]? = some x) (ha : a ≤ i) (hb : i < b) :
    x ∈ sub bs a b := by
  have hs : (sub bs a b)[i - a]? = some x := by
    rw [getElem?_sub, if_pos (by omega), Nat.add_sub_cancel' ha, h]
  exact List.mem_of_getElem? hs

@[simp] theorem sub_length (bs : List α) : sub bs 0 bs.length = bs := by simp [sub]

theorem sub_append_left (l : List α) (h : b ≤ bs.length) : sub (bs ++ l) a b = sub bs a b := by
  apply List.ext_getElem?
  intro i
  rw [getElem?_sub, getElem?_sub]
  split
  · rw [List.getElem?_append_left (by omega)]
  · rfl

theorem sub_append_right (l : List α) (h : l.length ≤ a) :
    sub (l ++ bs) a b = sub bs (a - l.length) (b - l.length) := by
  apply List.ext_getElem?
  intro i
  rw [getElem?_sub, getElem?_sub]
  by_cases hi : i < b - a
  · rw [if_pos hi, if_pos (by omega), List.getElem?_append_right (by omega)]
    congr 1
    omega
  · rw [if_neg hi, if_neg (by omega)]

theorem sub_middle (l m r : List α) (ha : l.length = a) (hb : a + m.length = b) :
    sub (l ++ m ++ r) a b = m := by
  subst ha hb
  rw [sub_append_left _ (by simp), sub_append_right _ (Nat.le_refl _)]
  simp

theorem append_sub (hab : a ≤ b) (hbc : b ≤ c) : sub bs a b ++ sub bs b c = sub bs a c := by
  obtain ⟨m, rfl⟩ := Nat.exists_eq_add_of_le hab
  obtain ⟨n, rfl⟩ := Nat.exists_eq_add_of_le hbc
  rw [sub, sub, sub, Nat.add_sub_cancel_left, Nat.add_sub_cancel_left,
    show a + m + n - a = m + n by omega, ← List.drop_drop, List.take_add]

theorem drop_sub (d : ℕ) : (sub bs a b).drop d = sub bs (a + d) b := by
  rw [sub, List.drop_take, List.drop_drop, sub, Nat.sub_sub]

theorem sub_of_sub {d e : ℕ} (h : a + e ≤ b) : sub (sub bs a b) d e = sub bs (a + d) (a + e) := by
  apply List.ext_getElem?
  intro i
  simp only [getElem?_sub, Nat.add_sub_add_left, Nat.add_assoc]
  by_cases hi : i < e - d
  · rw [if_pos hi, if_pos (by omega), if_pos hi]
  · rw [if_neg hi, if_neg hi]

theorem sub_take (h : b ≤ c) : sub (bs.take c) a b = sub bs a b := by
  rw [sub, sub, List.drop_take, List.take_take, Nat.min_eq_left (by omega)]

theorem drop_eq_sub : bs.drop a = sub bs a bs.length := by
  rw [sub, List.take_of_length_le (by simp)]

@[simp] theorem length_splice (h : a + src.length ≤ bs.length) :
    (splice bs a src).length = bs.length := by
  simp only [splice, List.length_append, List.length_take, List.length_drop]
  omega

theorem getElem?_splice (h : a + src.length ≤ bs.length) (i : ℕ) :
    (splice bs a src)[i]? =
      if a ≤ i ∧ i < a + src.length then src[i - a]? else bs[i]? := by
  have hl : (bs.take a).length = a := by rw [List.length_take]; omega
  rw [splice, List.append_assoc, List.getElem?_append, hl]
  by_cases hi : i < a
  · rw [if_pos hi, if_neg (by omega), List.getElem?_take_of_lt hi]
  rw [if_neg hi, List.getElem?_append]
  by_cases hs : i - a < src.length
  · rw [if_pos hs, if_pos (by omega)]
  · rw [if_neg hs, if_neg (by omega), List.getElem?_drop]
    congr 1
    omega

theorem splice_middle (l m r : List α) (ha : l.length = a) (h : m.length = src.length) :
    splice (l ++ m ++ r) a src = l ++ src ++ r := by
  simp [splice, ← ha, ← h]

theorem splice_front (m r : List α) (h : m.length = src.length) :
    splice (m ++ r) 0 src = src ++ r := by
  simp [splice, ← h]

theorem splice_replicate_tail (l : List α) (n : ℕ) (x : α) (ha : l.length = a) :
    splice (l ++ List.replicate (src.length + n) x) a src = l ++ src ++ List.replicate n x := by
  rw [List.replicate_add, ← List.append_assoc, splice_middle _ _ _ ha List.length_replicate]

theorem sub_splice_of_disjoint (h : a + src.length ≤ bs.length)
    (hd : c ≤ a ∨ a + src.length ≤ b) : sub (splice bs a src) b c = sub bs b c := by
  apply List.ext_getElem?
  intro i
  rw [getElem?_sub, getElem?_sub]
  split
  · rw [getElem?_splice h, if_neg (by omega)]
  · rfl

theorem sub_splice_self (h : a + src.length ≤ bs.length) :
    sub (splice bs a src) a (a + src.length) = src := by
  apply List.ext_getElem?
  intro i
  rw [getElem?_sub, Nat.add_sub_cancel_left]
  split
  · rw [getElem?_splice h, if_pos (by omega), Nat.add_sub_cancel_left]
  · rw [List.getElem?_eq_none (by omega)]

theorem take_splice (h : a + src.length ≤ bs.length) (hc : c ≤ a) :
    (splice bs a src).take c = bs.take c := by
  have hd : c ≤ a ∨ a + src.length ≤ 0 := Or.inl hc
  simpa [sub] using sub_splice_of_disjoint h hd

theorem splice_splice_adjacent (x y : List α) (h : a + x.length + y.length ≤ bs.length) :
    splice (splice bs a x) (a + x.length) y = splice bs a (x ++ y) := by
  apply List.ext_getElem?
  intro i
  have hx : a + x.length ≤ bs.length := by omega
  rw [getElem?_splice (by rw [length_splice hx]; exact h), getElem?_splice hx,
    getElem?_splice (by simp only [List.length_append]; omega)]
  simp only [List.length_append]
  by_cases hi : a ≤ i ∧ i < a + x.length
  · rw [if_neg (by omega), if_pos hi, if_pos (by omega), List.getElem?_append_left (by omega)]
  by_cases hj : a + x.length ≤ i ∧ i < a + x.length + y.length
  · rw [if_pos hj, if_pos (by omega), List.getElem?_append_right (by omega)]
    congr 1
    omega
  · rw [if_neg hj, if_neg hi, if_neg (by omega)]

section Blocks

variable {w : ℕ} {cells : List (List α)}

theorem length_flatten_blocks (hw : ∀ c ∈ cells, c.length = w) :
    cells.flatten.length = w * cells.length := by
  induction cells with
  | nil => simp
  | cons c cells ih =>
    rw [List.flatten_cons, List.length_append, hw c (by simp),
      ih fun c hc => hw c (List.mem_cons_of_mem _ hc), List.length_cons, Nat.mul_succ, Nat.add_comm]

theorem sub_flatten (hw : ∀ c ∈ cells, c.length = w) (i : ℕ) (hi : i < cells.length) :
    sub cells.flatten (w * i) (w * i + w) = cells[i] := by
  induction cells generalizing i with
  | nil => simp at hi
  | cons c cells ih =>
    have hc : c.length = w := hw c (by simp)
    cases i with
    | zero =>
      rw [List.flatten_cons, sub_append_left _ (by omega)]
      simp [← hc]
    | succ i =>
      rw [List.flatten_cons, sub_append_right _ (by rw [hc, Nat.mul_succ]; omega),
        show w * (i + 1) - c.length = w * i by rw [hc, Nat.mul_succ]; omega,
        show w * (i + 1) + w - c.length = w * i + w by rw [hc, Nat.mul_succ]; omega,
        ih (fun c hc => hw c (List.mem_cons_of_mem _ hc)) i (by simpa using hi)]
      rfl

theorem splice_flatten (hw : ∀ c ∈ cells, c.length = w) (i : ℕ) (hi : i < cells.length)
    (hs : src.length = w) : splice cells.flatten (w * i) src = (cells.set i src).flatten := by
  induction cells generalizing i with
  | nil => simp at hi
  | cons c cells ih =>
    have hc : c.length = w := hw c (by simp)
    cases i with
    | zero =>
      simpa using splice_middle [] c cells.flatten rfl (hc.trans hs.symm)
    | succ i =>
      have h := ih (fun c hc => hw c (List.mem_cons_of_mem _ hc)) i (by simpa using hi)
      rw [List.set_cons_succ, List.flatten_cons, List.flatten_cons, ← h, splice, splice,
        show w * (i + 1) = c.length + w * i by rw [hc, Nat.mul_succ, Nat.add_comm],
        List.take_length_add_append, Nat.add_assoc, List.drop_length_add_append]
      simp only [List.append_assoc]

end Blocks

end Rust
