import LowLatencyKv.Validator.Hex

/-! # What the hex decoder accepts

The decoder also reads a plus sign in front of a digit as a byte, and slices
behind the end of a string or inside a character panic. So it refuses a malformed
string only if, behind pairs that it reads, the next two bytes are characters.
-/

namespace LowLatencyKv

open Rust

namespace Validator

/-- Two characters that are read as one byte. -/
def AcceptedPair (c d : Char) : Prop := (c = '+' ∨ c ∈ hexDigits) ∧ d ∈ hexDigits

instance (c d : Char) : Decidable (AcceptedPair c d) :=
  inferInstanceAs (Decidable ((c = '+' ∨ c ∈ hexDigits) ∧ d ∈ hexDigits))

/-- What follows the pairs that are read as bytes. -/
def afterPairs : List Char → List Char
  | c :: d :: cs => if AcceptedPair c d then afterPairs cs else c :: d :: cs
  | cs => cs

variable {c d : Char} {cs : List Char} {s : String} {pre : List UInt8}

theorem ascii_byte (hc : c.utf8Size = 1) :
    ∃ x, String.utf8EncodeChar c = [x] ∧ (toDigit16 x ≠ none ↔ c ∈ hexDigits) ∧
      (x = 43 ↔ c = '+') := by
  have hall : (List.range 128).all fun n =>
      (toDigit16 (UInt8.ofNat n) ≠ none ↔ Char.ofNat n ∈ hexDigits) ∧
        (UInt8.ofNat n = 43 ↔ Char.ofNat n = '+') := by decide +kernel
  have hlt : c.toNat < 128 := by
    have hle := UInt32.le_iff_toNat_le.mp (Char.utf8Size_eq_one_iff.mp hc)
    exact Nat.lt_succ_of_le hle
  have hn := forall_of_all hall _ (List.mem_range.mpr hlt)
  rw [Char.ofNat_toNat] at hn
  exact ⟨_, String.utf8EncodeChar_eq_singleton hc, hn⟩

theorem AcceptedPair.utf8Size (h : AcceptedPair c d) : c.utf8Size = 1 ∧ d.utf8Size = 1 := by
  obtain ⟨rfl | hc, hd⟩ := h
  · exact ⟨rfl, digit_utf8Size hd⟩
  · exact ⟨digit_utf8Size hc, digit_utf8Size hd⟩

theorem hexByteAt_of_not_wholePair (hne : cs ≠ []) (h : ¬ WholePair cs) :
    hexByteAt (pre ++ cs.flatMap String.utf8EncodeChar) pre.length = .panic := by
  unfold hexByteAt
  rw [strSlice_two_of_not_wholePair hne h]
  rfl

theorem hexByteAt_of_accepted (pre : List UInt8) (cs : List Char) (h : AcceptedPair c d) :
    ∃ b, hexByteAt (pre ++ (c :: d :: cs).flatMap String.utf8EncodeChar) pre.length = .ok b := by
  obtain ⟨x, hx, hxd, hxp⟩ := ascii_byte h.utf8Size.1
  obtain ⟨y, hy, hyd, _⟩ := ascii_byte h.utf8Size.2
  rw [hexByteAt_of_wholePair (wholePair_of_ascii h.utf8Size.1 h.utf8Size.2), List.flatMap_cons,
    List.flatMap_cons, hx, hy]
  exact fromStrRadix16_of_accepted (h.1.imp hxp.mpr hxd.mpr) (hyd.mpr h.2)

theorem hexByteAt_of_wide (h : c.utf8Size = 2) :
    ∃ e, hexByteAt (pre ++ (c :: cs).flatMap String.utf8EncodeChar) pre.length = .err e := by
  obtain ⟨x, y, hx, hxy⟩ : ∃ x y : UInt8, 192 ≤ x ∧ String.utf8EncodeChar c = [x, y] :=
    ⟨_, _, le_or_byte _ 0xc0, String.utf8EncodeChar_eq_cons_cons h⟩
  rw [hexByteAt_of_wholePair (wholePair_of_wide h), List.flatMap_cons, hxy]
  apply fromStrRadix16_of_refused
  rintro ⟨hp | hd, _⟩
  · rw [hp] at hx
    exact absurd hx (by decide)
  · exact hd (toDigit16_of_ge (UInt8.le_trans (by decide) hx))

theorem hexByteAt_of_refused (hw : WholePair (c :: d :: cs)) (h : ¬ AcceptedPair c d) :
    ∃ e, hexByteAt (pre ++ (c :: d :: cs).flatMap String.utf8EncodeChar) pre.length = .err e := by
  rcases hw with hc | ⟨hc, hd⟩
  · exact hexByteAt_of_wide hc
  obtain ⟨x, hx, hxd, hxp⟩ := ascii_byte hc
  obtain ⟨y, hy, hyd, _⟩ := ascii_byte hd
  rw [hexByteAt_of_wholePair (wholePair_of_ascii hc hd), List.flatMap_cons, List.flatMap_cons, hx,
    hy]
  apply fromStrRadix16_of_refused
  rintro ⟨hfirst, hsecond⟩
  exact h ⟨hfirst.imp hxp.mp hxd.mp, hyd.mp hsecond⟩

/-- Where the first pair is not read, whole characters are refused and others panic. -/
theorem hexBytesFrom_of_stuck (h : WholePair (c :: cs) →
    ∃ e, hexByteAt (pre ++ (c :: cs).flatMap String.utf8EncodeChar) pre.length = .err e) :
    (WholePair (c :: cs) ∧
      ∃ e, hexBytesFrom (pre ++ (c :: cs).flatMap String.utf8EncodeChar) pre.length = .err e) ∨
    (c :: cs ≠ [] ∧ ¬ WholePair (c :: cs) ∧
      hexBytesFrom (pre ++ (c :: cs).flatMap String.utf8EncodeChar) pre.length = .panic) := by
  have hne : c :: cs ≠ [] := List.cons_ne_nil c cs
  rw [hexBytesFrom_of_lt (lt_length_encode pre c cs)]
  by_cases hw : WholePair (c :: cs)
  · obtain ⟨e, he⟩ := h hw
    rw [he]
    exact Or.inl ⟨hw, e, rfl⟩
  · rw [hexByteAt_of_not_wholePair hne hw]
    exact Or.inr ⟨hne, hw, rfl⟩

/-- Behind the pairs that are read, the string ends, or goes on with whole characters, which are
refused, or makes the next slice panic. -/
theorem hexBytesFrom_cases : ∀ (pre : List UInt8) (cs : List Char),
    (afterPairs cs = [] ∧
      ∃ bs, hexBytesFrom (pre ++ cs.flatMap String.utf8EncodeChar) pre.length = .ok bs) ∨
    (WholePair (afterPairs cs) ∧
      ∃ e, hexBytesFrom (pre ++ cs.flatMap String.utf8EncodeChar) pre.length = .err e) ∨
    (afterPairs cs ≠ [] ∧ ¬ WholePair (afterPairs cs) ∧
      hexBytesFrom (pre ++ cs.flatMap String.utf8EncodeChar) pre.length = .panic)
  | pre, [] => by
      rw [List.flatMap_nil, List.append_nil]
      exact Or.inl ⟨rfl, _, hexBytesFrom_length pre⟩
  | pre, [c] => Or.inr (hexBytesFrom_of_stuck hexByteAt_of_wide)
  | pre, c :: d :: cs => by
      by_cases ha : AcceptedPair c d
      · obtain ⟨b, hb⟩ := hexByteAt_of_accepted pre cs ha
        obtain ⟨pre', hstep⟩ := hexBytesFrom_cons_cons ha.utf8Size.1 ha.utf8Size.2 hb
        have ih := hexBytesFrom_cases pre' cs
        rw [afterPairs, if_pos ha, hstep]
        rcases ih with ⟨he, bs, hr⟩ | ⟨hw, e, hr⟩ | ⟨hne, hw, hr⟩
        · rw [hr]
          exact Or.inl ⟨he, _, rfl⟩
        · rw [hr]
          exact Or.inr (Or.inl ⟨hw, e, rfl⟩)
        · rw [hr]
          exact Or.inr (Or.inr ⟨hne, hw, rfl⟩)
      · rw [afterPairs, if_neg ha]
        exact Or.inr (hexBytesFrom_of_stuck fun hw => hexByteAt_of_refused hw ha)

theorem hexDecode_cases (s : String) :
    (afterPairs s.toList = [] ∧ ∃ bytes, hexDecode s = .ok bytes) ∨
    (WholePair (afterPairs s.toList) ∧ ∃ e, hexDecode s = .err e) ∨
    (afterPairs s.toList ≠ [] ∧ ¬ WholePair (afterPairs s.toList) ∧ hexDecode s = .panic) := by
  rw [hexDecode_eq]
  rcases hexBytesFrom_cases [] s.toList with ⟨he, bs, hr⟩ | ⟨hw, e, hr⟩ | ⟨hne, hw, hr⟩
  all_goals rw [List.length_nil] at hr
  · rw [hr]
    exact Or.inl ⟨he, bs, rfl⟩
  · rw [hr]
    exact Or.inr (Or.inl ⟨hw, _, rfl⟩)
  · rw [hr]
    exact Or.inr (Or.inr ⟨hne, hw, rfl⟩)

theorem hexDecode_err_iff : (∃ e, hexDecode s = .err e) ↔ WholePair (afterPairs s.toList) := by
  rcases hexDecode_cases s with ⟨he, bytes, hr⟩ | ⟨hw, hr⟩ | ⟨_, hw, hr⟩
  · rw [hr, he]
    exact iff_of_false (by rintro ⟨e, he⟩; cases he) not_false
  · exact iff_of_true hr hw
  · rw [hr]
    exact iff_of_false (by rintro ⟨e, he⟩; cases he) hw

/-- A malformed string is refused exactly if, behind leading pairs of a digit or a plus sign and a
digit, it goes on with a character of two bytes or with two of one byte. -/
theorem hex_decode_rejects_iff (s : String) : (¬ IsHex s → ∃ e, hexDecode s = .err e) ↔
    IsHex s ∨ WholePair (afterPairs s.toList) := by
  rw [← hexDecode_err_iff]
  exact imp_iff_not_or.trans (or_congr_left not_not)

/-- An odd digit panics, and a plus sign is read. -/
theorem hex_decode_accepts_plus :
    (¬ IsHex "0" ∧ hexDecode "0" = .panic) ∧ ¬ IsHex "+0" ∧ hexDecode "+0" = .ok [0] := by
  refine ⟨⟨fun h => absurd h.1 (by decide), ?_⟩, fun h => absurd (h.2 '+' ?_) ?_, ?_⟩
  · rw [hexDecode_eq]
    rfl
  · decide
  · decide
  · rw [hexDecode_eq]
    rfl

end Validator

end LowLatencyKv
