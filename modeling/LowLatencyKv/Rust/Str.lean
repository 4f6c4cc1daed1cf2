import LowLatencyKv.Rust.Bytes

/-! # String slices

A `&str` is given by its UTF-8 bytes. Slicing it panics inside a character, and
`fromStrRadix16` parses a slice as a hexadecimal `u8`.
-/

namespace Rust

/-- `is_char_boundary`: the byte does not continue a character. -/
def isCharBoundary (bytes : List UInt8) (i : ℕ) : Bool :=
  i = 0 || match bytes[i]? with
    | some b => b < 128 || 192 ≤ b
    | none => i = bytes.length

/-- `&s[a..b]`. -/
def strSlice (bytes : List UInt8) (a b : ℕ) : Exec (List UInt8) :=
  if a ≤ b ∧ isCharBoundary bytes a ∧ isCharBoundary bytes b then .ok (sub bytes a b) else .panic

/-- The reasons of a `ParseIntError`. -/
inductive IntErrorKind where
  | empty
  | invalidDigit
  | posOverflow
  deriving DecidableEq, Repr

def IntErrorKind.text : IntErrorKind → String
  | empty => "cannot parse integer from empty string"
  | invalidDigit => "invalid digit found in string"
  | posOverflow => "number too large to fit in target type"

/-- `(b as char).to_digit(16)`. -/
def toDigit16 (b : UInt8) : Option ℕ :=
  if 48 ≤ b ∧ b ≤ 57 then some (b.toNat - 48)
  else if 97 ≤ b ∧ b ≤ 102 then some (b.toNat - 87)
  else if 65 ≤ b ∧ b ≤ 70 then some (b.toNat - 55)
  else none

def pushDigit16 (acc b : UInt8) : Outcome IntErrorKind UInt8 :=
  match toDigit16 b with
  | none => .err .invalidDigit
  | some d =>
    if acc.toNat * 16 + d < 256 then .ok (UInt8.ofNat (acc.toNat * 16 + d)) else .err .posOverflow

/-- `u8::from_str_radix(src, 16)`: digits of either case, behind at most one plus sign. -/
def fromStrRadix16 : List UInt8 → Outcome IntErrorKind UInt8
  | [] => .err .empty
  | [b] => if b = 43 ∨ b = 45 then .err .invalidDigit else pushDigit16 0 b
  | b :: digits =>
    if b = 43 then digits.foldlM pushDigit16 0 else (b :: digits).foldlM pushDigit16 0

variable {bytes : List UInt8} {a b : ℕ} {x y : UInt8}

theorem toDigit16_lt {b : UInt8} {d : ℕ} (h : toDigit16 b = some d) : d < 16 := by
  simp only [toDigit16, UInt8.le_iff_toNat_le, UInt8.reduceToNat] at h
  split_ifs at h
  all_goals
    obtain rfl := Option.some.inj h
    omega

theorem pushDigit16_zero {d : ℕ} (h : toDigit16 x = some d) :
    pushDigit16 0 x = .ok (UInt8.ofNat d) := by
  have hd := toDigit16_lt h
  unfold pushDigit16
  rw [h]
  simp only [UInt8.toNat_zero, Nat.zero_mul, Nat.zero_add]
  exact if_pos (by omega)

theorem pushDigit16_of_none (acc : UInt8) (h : toDigit16 x = none) :
    pushDigit16 acc x = .err .invalidDigit := by
  unfold pushDigit16
  rw [h]

theorem fromStrRadix16_two (x y : UInt8) : fromStrRadix16 [x, y] =
    if x = 43 then pushDigit16 0 y else pushDigit16 0 x >>= fun acc => pushDigit16 acc y := by
  have hlast (z : UInt8) : [y].foldlM pushDigit16 z = pushDigit16 z y := by
    rw [List.foldlM_cons]
    cases pushDigit16 z y <;> rfl
  rw [fromStrRadix16]
  · simp only [List.foldlM_cons (a := x), hlast]
  · exact nofun

theorem fromStrRadix16_pair {d e : ℕ} (hx : toDigit16 x = some d) (hy : toDigit16 y = some e) :
    fromStrRadix16 [x, y] = .ok (UInt8.ofNat (16 * d + e)) := by
  have hd := toDigit16_lt hx
  have he := toDigit16_lt hy
  have hplus : x ≠ 43 := by
    rintro rfl
    exact nomatch hx
  have hn : (UInt8.ofNat d).toNat = d := UInt8.toNat_ofNat_of_lt' (by omega : _ < 2 ^ 8)
  rw [fromStrRadix16_two, if_neg hplus, pushDigit16_zero hx, Outcome.ok_bind]
  unfold pushDigit16
  rw [hy, hn, Nat.mul_comm d 16]
  exact if_pos (by omega)

theorem toDigit16_of_ge (h : 128 ≤ x) : toDigit16 x = none := by
  simp only [UInt8.le_iff_toNat_le, UInt8.reduceToNat] at h
  simp only [toDigit16, UInt8.le_iff_toNat_le, UInt8.reduceToNat]
  rw [if_neg (by omega), if_neg (by omega), if_neg (by omega)]

theorem fromStrRadix16_of_accepted (hx : x = 43 ∨ toDigit16 x ≠ none) (hy : toDigit16 y ≠ none) :
    ∃ z, fromStrRadix16 [x, y] = .ok z := by
  obtain ⟨e, he⟩ := Option.ne_none_iff_exists'.mp hy
  rcases hx with rfl | hx
  · exact ⟨_, (fromStrRadix16_two 43 y).trans (pushDigit16_zero he)⟩
  · obtain ⟨d, hd⟩ := Option.ne_none_iff_exists'.mp hx
    exact ⟨_, fromStrRadix16_pair hd he⟩

theorem fromStrRadix16_of_refused (h : ¬ ((x = 43 ∨ toDigit16 x ≠ none) ∧ toDigit16 y ≠ none)) :
    ∃ e, fromStrRadix16 [x, y] = .err e := by
  rw [fromStrRadix16_two]
  by_cases hp : x = 43
  · have hy : toDigit16 y = none := by
      by_contra hy
      exact h ⟨Or.inl hp, hy⟩
    rw [if_pos hp, pushDigit16_of_none 0 hy]
    exact ⟨_, rfl⟩
  rw [if_neg hp]
  cases hx : toDigit16 x with
  | none =>
    rw [pushDigit16_of_none 0 hx]
    exact ⟨_, rfl⟩
  | some d =>
    have hy : toDigit16 y = none := by
      by_contra hy
      exact h ⟨Or.inr (hx ▸ Option.some_ne_none d), hy⟩
    rw [pushDigit16_zero hx, Outcome.ok_bind, pushDigit16_of_none _ hy]
    exact ⟨_, rfl⟩

section Utf8

variable {pre rest : List UInt8} {i : ℕ} {c : Char} {cs : List Char}

theorem le_or_byte (x m : UInt8) : m ≤ x ||| m := by
  rw [UInt8.le_iff_toNat_le, UInt8.toNat_or]
  exact Nat.right_le_or

theorem continuation_byte (x : UInt8) :
    ¬ (x &&& 0x3f ||| 0x80) < 128 ∧ ¬ 192 ≤ (x &&& 0x3f ||| 0x80) := by
  have hle : (x &&& 0x3f).toNat ≤ 63 := by
    rw [UInt8.toNat_and]
    exact Nat.and_le_right
  have hor : (x &&& 0x3f ||| 0x80).toNat = 128 + (x &&& 0x3f).toNat := by
    rw [UInt8.toNat_or, Nat.or_comm]
    exact (Nat.two_pow_add_eq_or_of_lt (by omega : _ < 2 ^ 7) 1).symm
  simp only [UInt8.lt_iff_toNat_lt, UInt8.le_iff_toNat_le, hor, UInt8.reduceToNat]
  omega

/-- A byte of a character continues it, unless it is its first. -/
theorem lead_byte_iff (h : (String.utf8EncodeChar c)[i]? = some x) :
    (x < 128 ∨ 192 ≤ x) ↔ i = 0 := by
  have hlead {m : UInt8} (hm : 192 ≤ m) (z : UInt8) (hx : z ||| m = x) : x < 128 ∨ 192 ≤ x :=
    Or.inr (hx ▸ UInt8.le_trans hm (le_or_byte z m))
  have hcont {z : UInt8} (hx : z &&& 0x3f ||| 0x80 = x) : ¬ (x < 128 ∨ 192 ≤ x) := by
    rw [← hx, not_or]
    exact continuation_byte z
  rcases Char.utf8Size_eq c with hc | hc | hc | hc
  · rw [String.utf8EncodeChar_eq_singleton hc] at h
    obtain ⟨hi, hx⟩ := List.getElem?_eq_some_iff.mp h
    obtain rfl : i = 0 := Nat.lt_one_iff.mp hi
    refine iff_of_true (Or.inl ?_) rfl
    have hle := UInt32.le_iff_toNat_le.mp (Char.utf8Size_eq_one_iff.mp hc)
    rw [← hx, UInt8.lt_iff_toNat_lt]
    simp only [List.getElem_cons_zero, UInt32.toNat_toUInt8, UInt32.reduceToNat,
      UInt8.reduceToNat] at hle ⊢
    omega
  · rw [String.utf8EncodeChar_eq_cons_cons hc] at h
    rcases i with _ | _ | i
    · exact iff_of_true (hlead (by decide) _ (Option.some.inj h)) rfl
    · exact iff_of_false (hcont (Option.some.inj h)) (Nat.succ_ne_zero _)
    · cases h
  · rw [String.utf8EncodeChar_eq_cons_cons_cons hc] at h
    rcases i with _ | _ | _ | i
    · exact iff_of_true (hlead (by decide) _ (Option.some.inj h)) rfl
    · exact iff_of_false (hcont (Option.some.inj h)) (Nat.succ_ne_zero _)
    · exact iff_of_false (hcont (Option.some.inj h)) (Nat.succ_ne_zero _)
    · cases h
  · rw [String.utf8EncodeChar_eq_cons_cons_cons_cons hc] at h
    rcases i with _ | _ | _ | _ | i
    · exact iff_of_true (hlead (by decide) _ (Option.some.inj h)) rfl
    · exact iff_of_false (hcont (Option.some.inj h)) (Nat.succ_ne_zero _)
    · exact iff_of_false (hcont (Option.some.inj h)) (Nat.succ_ne_zero _)
    · exact iff_of_false (hcont (Option.some.inj h)) (Nat.succ_ne_zero _)
    · cases h

theorem isCharBoundary_in_char (hi : i < c.utf8Size) :
    isCharBoundary (pre ++ (String.utf8EncodeChar c ++ rest)) (pre.length + i) = true ↔ i = 0 := by
  have hl : i < (String.utf8EncodeChar c).length := by rwa [String.length_utf8EncodeChar]
  obtain ⟨x, hx⟩ : ∃ x, (String.utf8EncodeChar c)[i]? = some x := ⟨_, List.getElem?_eq_getElem hl⟩
  have hb : (pre ++ (String.utf8EncodeChar c ++ rest))[pre.length + i]? = some x := by
    rw [List.getElem?_append_right (Nat.le_add_right _ _), Nat.add_sub_cancel_left,
      List.getElem?_append_left hl, hx]
  unfold isCharBoundary
  rw [hb]
  simp only [Bool.or_eq_true, decide_eq_true_eq, lead_byte_iff hx]
  omega

theorem isCharBoundary_append (cs : List Char) :
    isCharBoundary (pre ++ cs.flatMap String.utf8EncodeChar) pre.length = true := by
  cases cs with
  | nil => simp [isCharBoundary]
  | cons c cs => exact (isCharBoundary_in_char c.utf8Size_pos).mpr rfl

/-- The first two bytes are whole characters. -/
def WholePair : List Char → Prop
  | c :: d :: _ => c.utf8Size = 2 ∨ c.utf8Size = 1 ∧ d.utf8Size = 1
  | [c] => c.utf8Size = 2
  | [] => False

theorem wholePair_of_ascii {d : Char} (hc : c.utf8Size = 1) (hd : d.utf8Size = 1) :
    WholePair (c :: d :: cs) :=
  Or.inr ⟨hc, hd⟩

theorem wholePair_of_wide (h : c.utf8Size = 2) : WholePair (c :: cs) := by
  cases cs with
  | nil => exact h
  | cons d cs => exact Or.inl h

theorem isCharBoundary_add_two (hne : cs ≠ []) :
    isCharBoundary (pre ++ cs.flatMap String.utf8EncodeChar) (pre.length + 2) = true ↔
      WholePair cs := by
  obtain ⟨c, cs, rfl⟩ := List.exists_cons_of_ne_nil hne
  have hl : (pre ++ String.utf8EncodeChar c).length = pre.length + c.utf8Size := by
    rw [List.length_append, String.length_utf8EncodeChar]
  by_cases h3 : 2 < c.utf8Size
  · rw [List.flatMap_cons, isCharBoundary_in_char h3]
    refine iff_of_false (by decide) fun h => ?_
    cases cs <;> simp only [WholePair] at h <;> omega
  rw [List.flatMap_cons, ← List.append_assoc]
  have hpos := c.utf8Size_pos
  by_cases h2 : c.utf8Size = 2
  · rw [← h2, ← hl]
    exact iff_of_true (isCharBoundary_append cs) (wholePair_of_wide h2)
  have h1 : c.utf8Size = 1 := by omega
  rw [show pre.length + 2 = (pre ++ String.utf8EncodeChar c).length + 1 by rw [hl, h1]]
  cases cs with
  | nil => simp [isCharBoundary, WholePair, h1]
  | cons d cs =>
    by_cases hd : 1 < d.utf8Size
    · rw [List.flatMap_cons, isCharBoundary_in_char hd]
      refine iff_of_false (by decide) fun h => ?_
      simp only [WholePair] at h
      omega
    · have hd1 : d.utf8Size = 1 := by
        have := d.utf8Size_pos
        omega
      have hl' : (pre ++ String.utf8EncodeChar c ++ String.utf8EncodeChar d).length =
          (pre ++ String.utf8EncodeChar c).length + 1 := by
        rw [List.length_append, String.length_utf8EncodeChar, hd1]
      rw [List.flatMap_cons, ← List.append_assoc, ← hl']
      exact iff_of_true (isCharBoundary_append cs) (wholePair_of_ascii h1 hd1)

/-- Slicing the next two bytes panics unless they are whole characters. -/
theorem strSlice_two_of_wholePair (h : WholePair cs) :
    strSlice (pre ++ cs.flatMap String.utf8EncodeChar) pre.length (pre.length + 2) =
      .ok ((cs.flatMap String.utf8EncodeChar).take 2) := by
  have hne : cs ≠ [] := by
    rintro rfl
    exact h
  have hb : isCharBoundary (pre ++ cs.flatMap String.utf8EncodeChar) (pre.length + 2) = true :=
    (isCharBoundary_add_two hne).mpr h
  unfold strSlice
  rw [if_pos ⟨by omega, isCharBoundary_append cs, hb⟩, sub, List.drop_left, Nat.add_sub_cancel_left]

theorem strSlice_two_of_not_wholePair (hne : cs ≠ []) (h : ¬ WholePair cs) :
    strSlice (pre ++ cs.flatMap String.utf8EncodeChar) pre.length (pre.length + 2) = .panic :=
  if_neg fun hs => h ((isCharBoundary_add_two hne).mp hs.2.2)

end Utf8

end Rust
