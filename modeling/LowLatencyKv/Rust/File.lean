import LowLatencyKv.Rust.Bytes

/-! # Files

The content of a file, whose length is a `u64`, and writes through a mapping of
it: they keep the length, and panic outside the mapping.
-/

namespace Rust

/-- An error of the operating system. -/
abbrev IoError := String

/-- The content of a file. -/
@[ext] structure File where
  bytes : List UInt8
  length_lt : bytes.length < 2 ^ 64
  deriving DecidableEq, Repr

namespace File

/-- The length of a file. -/
def len (f : File) : ℕ := f.bytes.length

theorem len_lt (f : File) : f.len < 2 ^ 64 := f.length_lt

def empty : File := ⟨[], Nat.two_pow_pos 64⟩

/-- `File::set_len`: cuts the file or extends it with zero bytes. -/
def setLen (f : File) (n : UInt64) : File where
  bytes := (f.bytes ++ List.replicate n.toNat 0).take n.toNat
  length_lt := by
    have := n.toNat_lt
    rw [List.length_take]
    omega

/-- `mmap[a..b].copy_from_slice(src)`. -/
def copyFromSlice (f : File) (a b : ℕ) (src : List UInt8) : Exec File :=
  if h : a ≤ b ∧ b ≤ f.len ∧ src.length = b - a then
    .ok ⟨splice f.bytes a src, by
      rw [length_splice (by have := h.2.1; simp only [len] at this; omega)]
      exact f.length_lt⟩
  else .panic

/-- `mmap[a..b].fill(x)`. -/
def fillSlice (f : File) (a b : ℕ) (x : UInt8) : Exec File :=
  if a ≤ b then f.copyFromSlice a b (List.replicate (b - a) x) else .panic

variable {f g : File} {a b : ℕ} {src : List UInt8}

@[simp] theorem bytes_empty : empty.bytes = [] := rfl

theorem bytes_setLen_empty (n : UInt64) : (empty.setLen n).bytes = List.replicate n.toNat 0 := by
  simp [setLen]

theorem copyFromSlice_eq_ok_iff :
    f.copyFromSlice a b src = .ok g ↔
      a ≤ b ∧ b ≤ f.len ∧ src.length = b - a ∧ g.bytes = splice f.bytes a src := by
  unfold copyFromSlice
  split
  case isTrue h => simp [h, File.ext_iff, eq_comm]
  case isFalse h => exact ⟨fun hs => (nomatch hs), fun hs => absurd ⟨hs.1, hs.2.1, hs.2.2.1⟩ h⟩

theorem copyFromSlice_of_le (f : File) (src : List UInt8) (hab : b = a + src.length)
    (hb : b ≤ f.len) :
    ∃ g, f.copyFromSlice a b src = .ok g ∧ g.bytes = splice f.bytes a src := by
  have hl : a + src.length ≤ f.bytes.length := hab ▸ hb
  refine ⟨⟨splice f.bytes a src, by rw [length_splice hl]; exact f.length_lt⟩, ?_, rfl⟩
  exact copyFromSlice_eq_ok_iff.mpr ⟨by omega, hb, by omega, rfl⟩

theorem fillSlice_of_le (f : File) (x : UInt8) (hab : a ≤ b) (hb : b ≤ f.len) :
    ∃ g, f.fillSlice a b x = .ok g ∧ g.bytes = splice f.bytes a (List.replicate (b - a) x) := by
  rw [fillSlice, if_pos hab]
  exact copyFromSlice_of_le f _ (by rw [List.length_replicate]; omega) hb

theorem len_of_copyFromSlice (h : f.copyFromSlice a b src = .ok g) : g.len = f.len := by
  obtain ⟨hab, hb, hl, hg⟩ := copyFromSlice_eq_ok_iff.mp h
  have hle : a + src.length ≤ f.bytes.length := by simp only [len] at hb; omega
  rw [len, hg, length_splice hle, len]

end File

/-- An open file with the position at which it is written next. -/
structure Cursor where
  file : File
  pos : ℕ

namespace Cursor

/-- `write_all(src).unwrap()`: overwrites the file from the cursor on, or extends it. -/
def writeAll (c : Cursor) (src : List UInt8) : Exec Cursor :=
  let old := c.file.bytes ++ List.replicate (c.pos - c.file.len) 0
  if h : (splice old c.pos src).length < 2 ^ 64 then
    .ok ⟨⟨splice old c.pos src, h⟩, c.pos + src.length⟩
  else .panic

variable {c : Cursor} {pre old rest src : List UInt8} {srcs : List (List UInt8)}

theorem writeAll_run (hf : c.file.bytes = pre ++ old ++ rest) (hp : c.pos = pre.length)
    (ho : old.length = src.length) :
    ∃ c', c.writeAll src = .ok c' ∧ c'.file.bytes = pre ++ src ++ rest ∧
      c'.pos = (pre ++ src).length := by
  have hlen : c.file.len = (pre ++ old ++ rest).length := congrArg List.length hf
  have hle : c.pos - c.file.len = 0 := by
    rw [hlen, hp]
    simp only [List.length_append]
    omega
  have hs : splice (c.file.bytes ++ List.replicate (c.pos - c.file.len) 0) c.pos src =
      pre ++ src ++ rest := by
    rw [hle, List.replicate_zero, List.append_nil, hf]
    exact splice_middle pre old rest hp.symm ho
  have hlt : (splice (c.file.bytes ++ List.replicate (c.pos - c.file.len) 0) c.pos
      src).length < 2 ^ 64 := by
    have hl := c.file.len_lt
    rw [hs]
    rw [hlen] at hl
    simp only [List.length_append, ho] at hl ⊢
    exact hl
  refine ⟨_, dif_pos hlt, hs, ?_⟩
  simp only [hp, List.length_append]

/-- Writes one after another replace as many bytes as they have together by their concatenation. -/
theorem foldlM_writeAll (hf : c.file.bytes = pre ++ old ++ rest) (hp : c.pos = pre.length)
    (ho : old.length = srcs.flatten.length) :
    ∃ c', srcs.foldlM writeAll c = .ok c' ∧ c'.file.bytes = pre ++ srcs.flatten ++ rest := by
  induction srcs generalizing c pre old with
  | nil =>
    obtain rfl : old = [] := List.eq_nil_of_length_eq_zero ho
    exact ⟨c, rfl, hf⟩
  | cons src srcs ih =>
    rw [List.flatten_cons, List.length_append] at ho
    have hsplit : old = old.take src.length ++ old.drop src.length :=
      (List.take_append_drop _ _).symm
    have hold : (old.take src.length).length = src.length := by rw [List.length_take]; omega
    rw [hsplit, ← List.append_assoc, List.append_assoc _ _ rest] at hf
    obtain ⟨c₁, h₁, hb₁, hp₁⟩ := writeAll_run hf hp hold
    rw [← List.append_assoc] at hb₁
    obtain ⟨c₂, h₂, hb₂⟩ := ih hb₁ hp₁ (by rw [List.length_drop]; omega)
    refine ⟨c₂, ?_, ?_⟩
    · rw [List.foldlM_cons, h₁, Outcome.ok_bind, h₂]
    · rw [hb₂, List.flatten_cons]
      simp only [List.append_assoc]

end Cursor

end Rust
