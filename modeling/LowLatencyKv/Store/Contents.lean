import LowLatencyKv.Store.KvStore

/-! # What a store contains

A store whose record ranges lie in the file is a slot table over the records in
the file: lookups and iteration are those of the table and never panic. A range
that leaves the file, or wraps around, makes reading its slot panic.
-/

namespace LowLatencyKv

open Rust Tables

def pairAt (bytes : List UInt8) (a : ℕ) : Key × Value :=
  (Arr.ofList keySize 0 (sub bytes a (a + keySize)),
    Arr.ofList valueSize 0 (sub bytes (a + keySize) (a + recordSize)))

def pairBytes (r : Key × Value) : List UInt8 := r.1.toList ++ r.2.toList

/-- The pairs of `n` consecutive records that start at a position. -/
def pairs (bytes : List UInt8) (a n : ℕ) : List (Key × Value) :=
  (List.range n).map fun i => pairAt bytes (a + recordSize * i)

variable {Fn : Type} {ph : Ph Fn} {f : File} {g : Fn} {s : KvStore Fn} {a i n : ℕ}
  {bytes : List UInt8}

@[simp] theorem length_pairBytes (r : Key × Value) : (pairBytes r).length = recordSize := by
  simp [pairBytes]

@[simp] theorem length_pairs : (pairs bytes a n).length = n := by
  simp [pairs]

theorem pairBytes_injective : Function.Injective pairBytes := by
  rintro ⟨k, v⟩ ⟨k', v'⟩ h
  obtain ⟨hk, hv⟩ := List.append_inj h (by simp)
  exact Prod.ext (Arr.ext hk) (Arr.ext hv)

theorem getElem?_pairs (hi : i < n) :
    (pairs bytes a n)[i]? = some (pairAt bytes (a + 320 * i)) := by
  rw [pairs, List.getElem?_map, List.getElem?_range hi]
  rfl

theorem length_sub_key (h : a + 320 ≤ bytes.length) :
    (sub bytes a (a + keySize)).length = keySize := by
  have hb : a + keySize ≤ bytes.length := by simp only [keySize]; omega
  rw [length_sub (by omega) hb, Nat.add_sub_cancel_left]

theorem length_sub_value (h : a + 320 ≤ bytes.length) :
    (sub bytes (a + keySize) (a + recordSize)).length = valueSize := by
  have hkr : a + keySize ≤ a + recordSize := Nat.add_le_add_left (by decide) a
  exact (length_sub hkr h).trans (Nat.add_sub_add_left a 320 64)

theorem pairBytes_pairAt (h : a + 320 ≤ bytes.length) :
    pairBytes (pairAt bytes a) = sub bytes a (a + 320) := by
  have hkr : a + keySize ≤ a + recordSize := Nat.add_le_add_left (by decide) a
  rw [pairBytes, pairAt, Arr.ofList_of_length 0 (length_sub_key h),
    Arr.ofList_of_length 0 (length_sub_value h)]
  exact append_sub (by omega) hkr

theorem flatten_pairs (h : a + 320 * n ≤ bytes.length) :
    ((pairs bytes a n).map pairBytes).flatten = sub bytes a (a + 320 * n) := by
  induction n with
  | zero => simp [pairs, sub]
  | succ n ih =>
    have hs : pairs bytes a (n + 1) = pairs bytes a n ++ [pairAt bytes (a + 320 * n)] := by
      rw [pairs, List.range_succ, List.map_append]
      rfl
    have hle := h
    rw [Nat.mul_succ, ← Nat.add_assoc] at hle
    rw [hs, List.map_append, List.flatten_append, ih (by omega), List.map_singleton,
      List.flatten_singleton, pairBytes_pairAt hle, Nat.mul_succ, ← Nat.add_assoc]
    exact append_sub (Nat.le_add_right _ _) (Nat.le_add_right _ _)

theorem pairs_eq_iff {bytes' : List UInt8} {a' : ℕ} (h : a + 320 * n ≤ bytes.length)
    (h' : a' + 320 * n ≤ bytes'.length) :
    pairs bytes a n = pairs bytes' a' n ↔
      sub bytes a (a + 320 * n) = sub bytes' a' (a' + 320 * n) := by
  constructor
  · intro he
    rw [← flatten_pairs h, ← flatten_pairs h', he]
  · intro he
    apply List.map_congr_left
    intro i hi
    have hi' := List.mem_range.mp hi
    have hle : 320 * i + 320 ≤ 320 * n := by omega
    have hs (bs : List UInt8) (c : ℕ) : sub bs (c + 320 * i) (c + 320 * i + 320) =
        sub (sub bs c (c + 320 * n)) (320 * i) (320 * i + 320) := by
      rw [sub_of_sub (Nat.add_le_add_left hle c), Nat.add_assoc]
    apply pairBytes_injective
    have hb := pairBytes_pairAt (show a + 320 * i + 320 ≤ bytes.length by omega)
    have hb' := pairBytes_pairAt (show a' + 320 * i + 320 ≤ bytes'.length by omega)
    exact hb.trans ((hs bytes a).trans (he ▸ (hb'.trans (hs bytes' a')).symm))

theorem fromBytes_sub (h : a + 320 ≤ bytes.length) :
    Record.fromBytes (sub bytes a (a + 320)) =
      .ok ⟨(pairAt bytes a).1, (pairAt bytes a).2⟩ := by
  rw [← pairBytes_pairAt h]
  exact Record.fromBytes_asBytes ⟨(pairAt bytes a).1, (pairAt bytes a).2⟩

namespace KvStore

/-- Every record range lies in the file, without wrapping. -/
def InBounds (s : KvStore Fn) : Prop :=
  ∀ i < s.recordCount, s.dataOffset + recordSize * i + recordSize ≤ s.mmap.len

def cells (s : KvStore Fn) : List (Key × Value) :=
  pairs s.mmap.bytes s.dataOffset s.recordCount

def table (ph : Ph Fn) (s : KvStore Fn) : SlotTable Key Value := ⟨s.mphf.get ph, s.cells⟩

theorem offset_eq (d i : ℕ) :
    wrappingAdd d (wrappingMul i recordSize) = (d + 320 * i) % 2 ^ 64 := by
  simp only [wrappingAdd, wrappingMul, recordSize, keySize, valueSize]
  omega

theorem getRecord_of_mod_le (h : (s.dataOffset + 320 * i) % 2 ^ 64 + 320 ≤ s.mmap.len) :
    s.getRecord i = .ok ⟨(pairAt s.mmap.bytes ((s.dataOffset + 320 * i) % 2 ^ 64)).1,
      (pairAt s.mmap.bytes ((s.dataOffset + 320 * i) % 2 ^ 64)).2⟩ := by
  have hl := s.mmap.len_lt
  rw [getRecord, offset_eq]
  generalize (s.dataOffset + 320 * i) % 2 ^ 64 = o at h
  have he : wrappingAdd o recordSize = o + recordSize :=
    wrappingAdd_of_lt (by simp only [recordSize, keySize, valueSize]; omega)
  have hb : o + recordSize ≤ s.mmap.bytes.length := h
  rw [he, slice_of_le (by omega) hb, Outcome.ok_bind]
  exact fromBytes_sub h

theorem getRecord_of_le (h : s.dataOffset + 320 * i + 320 ≤ s.mmap.len) :
    s.getRecord i = .ok ⟨(pairAt s.mmap.bytes (s.dataOffset + 320 * i)).1,
      (pairAt s.mmap.bytes (s.dataOffset + 320 * i)).2⟩ := by
  have hl := s.mmap.len_lt
  have ho : (s.dataOffset + 320 * i) % 2 ^ 64 = s.dataOffset + 320 * i :=
    Nat.mod_eq_of_lt (by omega)
  have h' : (s.dataOffset + 320 * i) % 2 ^ 64 + 320 ≤ s.mmap.len := by rwa [ho]
  rw [getRecord_of_mod_le h', ho]

/-- A slot whose range leaves the file or wraps cannot be read. -/
theorem getRecord_of_gt (h : s.mmap.len < (s.dataOffset + 320 * i) % 2 ^ 64 + 320) :
    s.getRecord i = .panic := by
  have hl := s.mmap.len_lt
  rw [getRecord, offset_eq, slice_eq_panic_iff.mpr, Outcome.panic_bind]
  simp only [File.len] at h hl
  simp only [wrappingAdd, recordSize, keySize, valueSize]
  omega

theorem get_eq (hb : s.InBounds) (k : Key) : s.get ph k = .ok ((s.table ph).get k) := by
  rw [get, SlotTable.get]
  cases hk : s.mphf.get ph k with
  | none => simp [table, hk]
  | some i =>
    simp only [table, cells, hk, Option.bind_some]
    by_cases hi : i < s.recordCount
    · rw [if_neg (Nat.not_le.mpr hi), getRecord_of_le (hb i hi), Outcome.ok_bind,
        getElem?_pairs hi]
      simp [Record.keyEquals]
    · rw [if_pos (Nat.not_lt.mp hi), List.getElem?_eq_none (by simpa using hi)]
      rfl

theorem iter_eq (hb : s.InBounds) : s.iter = .ok s.cells := by
  apply Outcome.mapM_ok
  intro i hi
  rw [getRecord_of_le (hb i (List.mem_range.mp hi))]
  rfl

/-- If the records do not end in the file, some slot cannot be read. -/
theorem exists_getRecord_panic (hd : s.dataOffset < 2 ^ 64) (h0 : 0 < s.recordCount)
    (h : s.mmap.len < s.dataOffset + 320 * s.recordCount) :
    ∃ i < s.recordCount, s.getRecord i = .panic := by
  have hl := s.mmap.len_lt
  rcases Nat.lt_or_ge (s.dataOffset + 320 * s.recordCount) (2 ^ 64) with hw | hw
  · exact ⟨s.recordCount - 1, by omega, getRecord_of_gt (by omega)⟩
  · -- The slot whose range crosses the end of the address space.
    exact ⟨(2 ^ 64 - 1 - s.dataOffset) / 320, by omega, getRecord_of_gt (by omega)⟩

theorem get_of_getRecord_panic {k : Key} (hk : s.mphf.get ph k = some i)
    (hi : i < s.recordCount) (h : s.getRecord i = .panic) : s.get ph k = .panic := by
  rw [get, hk]
  simp only [if_neg (Nat.not_le.mpr hi), h, Outcome.panic_bind]

/-- The record that the index selects for the key can be read, if it selects one. -/
def Readable (ph : Ph Fn) (s : KvStore Fn) (key : Key) : Prop :=
  ∀ i, s.mphf.get ph key = some i → i < s.recordCount →
    (s.dataOffset + 320 * i) % 2 ^ 64 + 320 ≤ s.mmap.len

theorem Readable.exists_get {key : Key} (h : s.Readable ph key) :
    ∃ value, s.get ph key = .ok value := by
  cases hk : s.mphf.get ph key with
  | none => exact ⟨none, by rw [get, hk]; rfl⟩
  | some i =>
    rw [get, hk]
    by_cases hi : i < s.recordCount
    · simp only [if_neg (Nat.not_le.mpr hi), getRecord_of_mod_le (h i hk hi), Outcome.ok_bind]
      exact ⟨_, rfl⟩
    · simp only [if_pos (Nat.not_lt.mp hi)]
      exact ⟨none, rfl⟩

theorem get_of_not_readable {key : Key} (h : ¬ s.Readable ph key) : s.get ph key = .panic := by
  simp only [Readable, not_forall, Nat.not_le] at h
  obtain ⟨i, hk, hi, hlt⟩ := h
  exact get_of_getRecord_panic hk hi (getRecord_of_gt hlt)

theorem iter_of_getRecord_panic (hi : i < s.recordCount) (h : s.getRecord i = .panic) :
    s.iter = .panic := by
  apply Outcome.mapM_panic (List.mem_range.mpr hi)
  · rw [h]
    rfl
  · exact fun _ _ e => e.elim

/-- The ranges are in bounds exactly when the last one ends in the file. -/
theorem inBounds_iff :
    s.InBounds ↔ s.recordCount = 0 ∨ s.dataOffset + 320 * s.recordCount ≤ s.mmap.len := by
  simp only [InBounds, recordSize, keySize, valueSize]
  constructor
  · intro h
    rcases Nat.eq_zero_or_pos s.recordCount with h0 | h0
    · exact Or.inl h0
    · have := h (s.recordCount - 1) (by omega)
      exact Or.inr (by omega)
  · intro h i hi
    omega

end KvStore

end LowLatencyKv
