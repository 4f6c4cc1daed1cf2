import LowLatencyKv.Rust.Bytes

/-! # Little-endian words

The bytes of a 64-bit word, least significant first. Encoding and decoding are
inverse to each other on eight bytes.
-/

namespace Rust

/-- The `w` low bytes of a number, least significant first. -/
def leDigits : ℕ → ℕ → List UInt8
  | 0, _ => []
  | w + 1, n => UInt8.ofNat n :: leDigits w (n / 256)

/-- The number with the given bytes, least significant first. -/
def leValue : List UInt8 → ℕ
  | [] => 0
  | b :: bs => b.toNat + 256 * leValue bs

@[simp] theorem length_leDigits (w n : ℕ) : (leDigits w n).length = w := by
  induction w generalizing n with
  | zero => rfl
  | succ w ih => simp [leDigits, ih]

theorem leValue_leDigits {w n : ℕ} (h : n < 256 ^ w) : leValue (leDigits w n) = n := by
  induction w generalizing n with
  | zero => simp only [pow_zero, Nat.lt_one_iff] at h; simp [leDigits, leValue, h]
  | succ w ih =>
    rw [leDigits, leValue, ih (by rw [pow_succ] at h; omega), UInt8.toNat_ofNat']
    omega

theorem leValue_lt (bs : List UInt8) : leValue bs < 256 ^ bs.length := by
  induction bs with
  | nil => simp [leValue]
  | cons b bs ih =>
    have := b.toNat_lt
    rw [leValue, List.length_cons, pow_succ]
    omega

theorem leDigits_leValue (bs : List UInt8) : leDigits bs.length (leValue bs) = bs := by
  induction bs with
  | nil => rfl
  | cons b bs ih =>
    have hb := b.toNat_lt
    have hq : (b.toNat + 256 * leValue bs) / 256 = leValue bs := by omega
    rw [List.length_cons, leValue, leDigits, hq, ih]
    congr 1
    apply UInt8.toNat_inj.mp
    rw [UInt8.toNat_ofNat']
    omega

/-- `u64::to_le_bytes`. -/
def toLeBytes (x : UInt64) : List UInt8 := leDigits 8 x.toNat

/-- `u64::from_le_bytes`. -/
def fromLeBytes (v : Arr UInt8 8) : UInt64 := UInt64.ofNat (leValue v.toList)

/-- The word stored at position `a`. -/
def wordAt (bs : List UInt8) (a : ℕ) : UInt64 := UInt64.ofNat (leValue (sub bs a (a + 8)))

/-- `u64::from_le_bytes(bs[a..b].try_into().unwrap())`. -/
def readU64 (bs : List UInt8) (a b : ℕ) : Exec UInt64 := do
  let word ← slice bs a b
  let word ← toArray 8 word
  pure (fromLeBytes word)

@[simp] theorem length_toLeBytes (x : UInt64) : (toLeBytes x).length = 8 := length_leDigits 8 _

@[simp] theorem fromLeBytes_toLeBytes (x : UInt64) (h : (toLeBytes x).length = 8) :
    fromLeBytes ⟨toLeBytes x, h⟩ = x := by
  change UInt64.ofNat (leValue (leDigits 8 x.toNat)) = x
  rw [leValue_leDigits (by simpa using x.toNat_lt), UInt64.ofNat_toNat]

theorem toLeBytes_fromLeBytes (v : Arr UInt8 8) : toLeBytes (fromLeBytes v) = v.toList := by
  have h := leValue_lt v.toList
  have hd := leDigits_leValue v.toList
  rw [v.length_toList] at h hd
  rw [toLeBytes, fromLeBytes, UInt64.toNat_ofNat', Nat.mod_eq_of_lt (by simpa using h), hd]

theorem readU64_eq {bs : List UInt8} (a : ℕ) (h : a + 8 ≤ bs.length) :
    readU64 bs a (a + 8) = .ok (wordAt bs a) := by
  have hl : (sub bs a (a + 8)).length = 8 := by rw [length_sub (by omega) h]; omega
  rw [readU64, slice_of_le (by omega) h, Outcome.ok_bind, toArray_of_length hl,
    Outcome.ok_bind, Outcome.pure_eq_ok, fromLeBytes, wordAt]

theorem toLeBytes_wordAt {bs : List UInt8} {a : ℕ} (h : a + 8 ≤ bs.length) :
    toLeBytes (wordAt bs a) = sub bs a (a + 8) := by
  have hl : (sub bs a (a + 8)).length = 8 := by rw [length_sub (by omega) h]; omega
  exact toLeBytes_fromLeBytes ⟨sub bs a (a + 8), hl⟩

theorem wordAt_of_sub {bs : List UInt8} {a : ℕ} {x : UInt64}
    (h : sub bs a (a + 8) = toLeBytes x) : wordAt bs a = x := by
  rw [wordAt, h]
  exact fromLeBytes_toLeBytes x (length_toLeBytes x)

theorem wordAt_append_left {bs : List UInt8} {a : ℕ} (l : List UInt8) (h : a + 8 ≤ bs.length) :
    wordAt (bs ++ l) a = wordAt bs a := by
  rw [wordAt, wordAt, sub_append_left l h]

theorem wordAt_sub {bs : List UInt8} {a b c : ℕ} (h : a + (c + 8) ≤ b) :
    wordAt (sub bs a b) c = wordAt bs (a + c) := by
  rw [wordAt, sub_of_sub h, wordAt, Nat.add_assoc]

theorem wordAt_take {bs : List UInt8} {a c : ℕ} (h : a + 8 ≤ c) :
    wordAt (bs.take c) a = wordAt bs a := by
  rw [wordAt, sub_take h, wordAt]

theorem wordAt_cons_zero (x : UInt64) (bs : List UInt8) : wordAt (toLeBytes x ++ bs) 0 = x := by
  apply wordAt_of_sub
  rw [sub_append_left bs (by simp)]
  simpa using sub_length (toLeBytes x)

theorem wordAt_cons_add (x : UInt64) (bs : List UInt8) (a : ℕ) :
    wordAt (toLeBytes x ++ bs) (a + 8) = wordAt bs a := by
  rw [wordAt, wordAt, sub_append_right _ (by simp), length_toLeBytes]
  congr 3

end Rust
