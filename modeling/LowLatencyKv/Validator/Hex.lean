import LowLatencyKv.Builder.Csv
import LowLatencyKv.Rust.Str

/-! # Hexadecimal text

The validator reads two characters of a string at a time as one byte. On an even
number of hexadecimal digits this neither panics nor fails.
-/

namespace LowLatencyKv

open Rust

namespace Validator

def hexEncode (bytes : List UInt8) : String := LowLatencyKv.hexEncode bytes

/-- The byte that two characters of a string stand for. -/
def hexByteAt (bytes : List UInt8) (i : ℕ) : Outcome IntErrorKind UInt8 := do
  let digits ← strSlice bytes i (i + 2)
  fromStrRadix16 digits

def hexDecode (s : String) : Outcome AnyError (List UInt8) :=
  let bytes := asBytes s
  ((List.range' 0 ((bytes.length + 1) / 2) 2).mapM (hexByteAt bytes)).mapErr fun e =>
    .context "Invalid hex string" (.message e.text)

def hexDigits : List Char := "0123456789abcdefABCDEF".toList

/-- An even number of digits and of letters up to `f`, in either case. -/
def IsHex (s : String) : Prop := Even s.length ∧ ∀ c ∈ s.toList, c ∈ hexDigits

/-- The number that a digit stands for. -/
def digitValue (c : Char) : ℕ := "0123456789abcdef".toList.idxOf c.toLower

/-- The bytes that the digits stand for, two for each byte. -/
def hexValue : List Char → List UInt8
  | c :: d :: cs => UInt8.ofNat (16 * digitValue c + digitValue d) :: hexValue cs
  | _ => []

theorem asBytes_eq (s : String) : asBytes s = s.toList.flatMap String.utf8EncodeChar := by
  unfold asBytes
  rw [String.toUTF8_eq_toByteArray, ← String.utf8Encode_toList, List.utf8Encode]
  simp

theorem forall_of_all {α : Type} {p : α → Prop} [DecidablePred p] {l : List α}
    (h : l.all fun a => p a) : ∀ a ∈ l, p a :=
  fun a ha => of_decide_eq_true (List.all_eq_true.mp h a ha)

variable {c d : Char} {cs : List Char} {pre : List UInt8}

theorem digit_bytes (hc : c ∈ hexDigits) :
    ∃ b, String.utf8EncodeChar c = [b] ∧ toDigit16 b = some (digitValue c) := by
  have h : hexDigits.all fun c => String.utf8EncodeChar c = [UInt8.ofNat c.toNat] ∧
      toDigit16 (UInt8.ofNat c.toNat) = some (digitValue c) := by decide
  exact ⟨_, forall_of_all h c hc⟩

theorem digit_utf8Size (hc : c ∈ hexDigits) : c.utf8Size = 1 := by
  obtain ⟨b, hb, _⟩ := digit_bytes hc
  rw [← String.length_utf8EncodeChar, hb]
  rfl

theorem hexByteAt_of_wholePair (h : WholePair cs) :
    hexByteAt (pre ++ cs.flatMap String.utf8EncodeChar) pre.length =
      fromStrRadix16 ((cs.flatMap String.utf8EncodeChar).take 2) := by
  unfold hexByteAt
  rw [strSlice_two_of_wholePair h]
  rfl

theorem hexByteAt_of_digits (pre : List UInt8) (cs : List Char) (hc : c ∈ hexDigits)
    (hd : d ∈ hexDigits) :
    hexByteAt (pre ++ (c :: d :: cs).flatMap String.utf8EncodeChar) pre.length =
      .ok (UInt8.ofNat (16 * digitValue c + digitValue d)) := by
  obtain ⟨x, hx, hcx⟩ := digit_bytes hc
  obtain ⟨y, hy, hdy⟩ := digit_bytes hd
  rw [hexByteAt_of_wholePair (wholePair_of_ascii (digit_utf8Size hc) (digit_utf8Size hd)),
    List.flatMap_cons, List.flatMap_cons, hx, hy]
  exact fromStrRadix16_pair hcx hdy

/-- Decoding from a position on. -/
def hexBytesFrom (bytes : List UInt8) (i : ℕ) : Outcome IntErrorKind (List UInt8) :=
  (List.range' i ((bytes.length - i + 1) / 2) 2).mapM (hexByteAt bytes)

theorem hexDecode_eq (s : String) : hexDecode s =
    (hexBytesFrom ([] ++ s.toList.flatMap String.utf8EncodeChar) 0).mapErr fun e =>
      .context "Invalid hex string" (.message e.text) := by
  rw [List.nil_append, ← asBytes_eq]
  rfl

theorem hexBytesFrom_of_lt {bytes : List UInt8} {i : ℕ} (h : i < bytes.length) :
    hexBytesFrom bytes i = hexByteAt bytes i >>= fun b =>
      hexBytesFrom bytes (i + 2) >>= fun bs => pure (b :: bs) := by
  unfold hexBytesFrom
  rw [show (bytes.length - i + 1) / 2 = (bytes.length - (i + 2) + 1) / 2 + 1 by omega,
    List.range'_succ, List.mapM_cons]

theorem hexBytesFrom_length (bytes : List UInt8) : hexBytesFrom bytes bytes.length = .ok [] := by
  unfold hexBytesFrom
  rw [Nat.sub_self]
  rfl

theorem lt_length_encode (pre : List UInt8) (c : Char) (cs : List Char) :
    pre.length < (pre ++ (c :: cs).flatMap String.utf8EncodeChar).length := by
  have hc := c.utf8Size_pos
  rw [List.length_append, List.flatMap_cons, List.length_append, String.length_utf8EncodeChar]
  omega

theorem hexBytesFrom_cons_cons {b : UInt8} (hc : c.utf8Size = 1) (hd : d.utf8Size = 1)
    (hb : hexByteAt (pre ++ (c :: d :: cs).flatMap String.utf8EncodeChar) pre.length = .ok b) :
    ∃ pre', hexBytesFrom (pre ++ (c :: d :: cs).flatMap String.utf8EncodeChar) pre.length =
      hexBytesFrom (pre' ++ cs.flatMap String.utf8EncodeChar) pre'.length >>= fun bs =>
        pure (b :: bs) := by
  have hsplit : pre ++ (c :: d :: cs).flatMap String.utf8EncodeChar =
      pre ++ (String.utf8EncodeChar c ++ String.utf8EncodeChar d) ++
        cs.flatMap String.utf8EncodeChar := by
    simp only [List.flatMap_cons, List.append_assoc]
  have hl : (pre ++ (String.utf8EncodeChar c ++ String.utf8EncodeChar d)).length =
      pre.length + 2 := by
    simp only [List.length_append, String.length_utf8EncodeChar, hc, hd]
  refine ⟨pre ++ (String.utf8EncodeChar c ++ String.utf8EncodeChar d), ?_⟩
  rw [hexBytesFrom_of_lt (lt_length_encode pre c (d :: cs)), hb, Outcome.ok_bind, hl, hsplit]

theorem hexBytesFrom_digits : ∀ (pre : List UInt8) {cs : List Char}, Even cs.length →
    (∀ c ∈ cs, c ∈ hexDigits) →
    hexBytesFrom (pre ++ cs.flatMap String.utf8EncodeChar) pre.length = .ok (hexValue cs)
  | pre, [], _, _ => by
      rw [List.flatMap_nil, List.append_nil]
      exact hexBytesFrom_length pre
  | _, [_], he, _ => absurd he (by simp)
  | pre, c :: d :: cs, he, h => by
      have hc : c ∈ hexDigits := h c (by simp)
      have hd : d ∈ hexDigits := h d (by simp)
      obtain ⟨pre', hstep⟩ := hexBytesFrom_cons_cons (digit_utf8Size hc) (digit_utf8Size hd)
        (hexByteAt_of_digits pre cs hc hd)
      have ih := hexBytesFrom_digits pre' (by simpa [Nat.even_add_one] using he)
        fun c hc => h c (by simp [hc])
      rw [hstep, ih]
      rfl

theorem IsHex.even_toList {s : String} (h : IsHex s) : Even s.toList.length := by
  rw [String.length_toList]
  exact h.1

theorem hexDecode_of_isHex {s : String} (h : IsHex s) : hexDecode s = .ok (hexValue s.toList) := by
  have hd := hexBytesFrom_digits [] h.even_toList h.2
  rw [List.length_nil] at hd
  rw [hexDecode_eq, hd]
  rfl

/-- The two digits of each byte, in lower case. -/
def hexChars (bytes : List UInt8) : List Char :=
  bytes.flatMap fun b => [Nat.digitChar (b.toNat / 16), Nat.digitChar (b.toNat % 16)]

theorem toList_hexEncode (bytes : List UInt8) : (hexEncode bytes).toList = hexChars bytes := by
  simp only [hexEncode, LowLatencyKv.hexEncode, hexChars, String.toList_join, List.flatMap_map,
    String.toList_ofList]

theorem digitChar_digit {n : ℕ} (h : n < 16) :
    Nat.digitChar n ∈ hexDigits ∧ digitValue (Nat.digitChar n) = n := by
  have hall : (List.range 16).all fun n =>
      Nat.digitChar n ∈ hexDigits ∧ digitValue (Nat.digitChar n) = n := by decide
  exact forall_of_all hall n (List.mem_range.mpr h)

theorem digit_digitChar (hc : c ∈ hexDigits) :
    digitValue c < 16 ∧ Nat.digitChar (digitValue c) = c.toLower := by
  have hall : hexDigits.all fun c =>
      digitValue c < 16 ∧ Nat.digitChar (digitValue c) = c.toLower := by decide
  exact forall_of_all hall c hc

theorem isHex_hexEncode (bytes : List UInt8) : IsHex (hexEncode bytes) := by
  unfold IsHex
  rw [← String.length_toList, toList_hexEncode]
  constructor
  · induction bytes with
    | nil => exact Even.zero
    | cons b bytes ih =>
      rw [hexChars, List.flatMap_cons, List.length_append]
      exact even_two.add ih
  · intro c hc
    obtain ⟨b, _, hb⟩ := List.mem_flatMap.mp hc
    have hlt := b.toNat_lt
    rcases List.mem_pair.mp hb with rfl | rfl
    · exact (digitChar_digit (by omega)).1
    · exact (digitChar_digit (by omega)).1

theorem hexValue_hexChars (bytes : List UInt8) : hexValue (hexChars bytes) = bytes := by
  induction bytes with
  | nil => rfl
  | cons b bytes ih =>
    have hlt := b.toNat_lt
    have hb : UInt8.ofNat (16 * (b.toNat / 16) + b.toNat % 16) = b := by
      rw [Nat.div_add_mod, UInt8.ofNat_toNat]
    change hexValue (Nat.digitChar (b.toNat / 16) :: Nat.digitChar (b.toNat % 16) ::
      hexChars bytes) = b :: bytes
    rw [hexValue, (digitChar_digit (by omega)).2, (digitChar_digit (by omega)).2, hb, ih]

theorem hexChars_hexValue : ∀ {cs : List Char}, Even cs.length → (∀ c ∈ cs, c ∈ hexDigits) →
    hexChars (hexValue cs) = cs.map Char.toLower
  | [], _, _ => rfl
  | [_], he, _ => absurd he (by simp)
  | c :: d :: cs, he, h => by
      obtain ⟨hc, hc'⟩ := digit_digitChar (h c (by simp))
      obtain ⟨hd, hd'⟩ := digit_digitChar (h d (by simp))
      have hn : (UInt8.ofNat (16 * digitValue c + digitValue d)).toNat =
          16 * digitValue c + digitValue d := UInt8.toNat_ofNat_of_lt' (by omega : _ < 2 ^ 8)
      have ih : hexChars (hexValue cs) = cs.map Char.toLower :=
        hexChars_hexValue (by simpa [Nat.even_add_one] using he) fun c hc => h c (by simp [hc])
      rw [hexValue, hexChars, List.flatMap_cons, ← hexChars, ih, hn,
        show (16 * digitValue c + digitValue d) / 16 = digitValue c by omega,
        show (16 * digitValue c + digitValue d) % 16 = digitValue d by omega, hc', hd']
      rfl

theorem hexValue_map_toLower : ∀ {cs : List Char}, (∀ c ∈ cs, c ∈ hexDigits) →
    hexValue (cs.map Char.toLower) = hexValue cs
  | [], _ => rfl
  | [_], _ => rfl
  | c :: d :: cs, h => by
      have hall : hexDigits.all fun c => digitValue c.toLower = digitValue c := by decide
      have hd := forall_of_all hall
      have ih : hexValue (cs.map Char.toLower) = hexValue cs :=
        hexValue_map_toLower fun c hc => h c (by simp [hc])
      rw [List.map_cons, List.map_cons, hexValue, hd c (h c (by simp)), hd d (h d (by simp)), ih,
        ← hexValue]

theorem digit_of_toLower (h : c.toLower ∈ hexDigits) : c ∈ hexDigits := by
  by_cases hu : c.val ≥ 'A'.val ∧ c.val ≤ 'Z'.val
  · have hall : (List.range' 65 26).all fun n =>
        (Char.ofNat n).toLower ∈ hexDigits → Char.ofNat n ∈ hexDigits := by decide
    simp only [ge_iff_le, UInt32.le_iff_toNat_le] at hu
    change 65 ≤ c.toNat ∧ c.toNat ≤ 90 at hu
    have hr : c.toNat ∈ List.range' 65 26 := List.mem_range'_1.mpr (by omega)
    have hc := forall_of_all hall _ hr
    rw [Char.ofNat_toNat] at hc
    exact hc h
  · have he : c.toLower = c := dif_neg hu
    rwa [he] at h

theorem toList_toLower (s : String) : s.toLower.toList = s.toList.map Char.toLower :=
  String.toList_map

theorem map_toLower_of_toLower {s t : String} (h : s.toLower = t.toLower) :
    s.toList.map Char.toLower = t.toList.map Char.toLower := by
  have hl := congrArg String.toList h
  rwa [toList_toLower, toList_toLower] at hl

theorem IsHex.of_toLower {s t : String} (h : s.toLower = t.toLower) (ht : IsHex t) : IsHex s := by
  have hcs := map_toLower_of_toLower h
  constructor
  · have hl := congrArg List.length hcs
    simp only [List.length_map, String.length_toList] at hl
    rw [hl]
    exact ht.1
  · intro c hc
    have hm := List.mem_map_of_mem (f := Char.toLower) hc
    rw [hcs] at hm
    obtain ⟨d, hd, he⟩ := List.mem_map.mp hm
    have hall : hexDigits.all fun c => c.toLower ∈ hexDigits := by decide
    apply digit_of_toLower
    rw [← he]
    exact forall_of_all hall d (ht.2 d hd)

/-- A string that is equal up to case to an encoding is decoded to the encoded bytes. -/
theorem hexDecode_of_toLower {s : String} {bytes : List UInt8}
    (h : s.toLower = (hexEncode bytes).toLower) : hexDecode s = .ok bytes := by
  have ht := isHex_hexEncode bytes
  have hs := ht.of_toLower h
  rw [hexDecode_of_isHex hs, ← hexValue_map_toLower hs.2, map_toLower_of_toLower h,
    hexValue_map_toLower ht.2, toList_hexEncode, hexValue_hexChars]

/-- Decoding inverts encoding, also with letters in the other case, and encoding inverts decoding up
to the case of letters. -/
theorem hex_round_trip :
    (∀ bytes, hexDecode (hexEncode bytes) = .ok bytes) ∧
    (∀ (bytes : List UInt8) (s : String), s.toLower = (hexEncode bytes).toLower →
      hexDecode s = .ok bytes) ∧
    Function.Injective hexEncode ∧
    ∀ s, IsHex s → ∃ bytes, hexDecode s = .ok bytes ∧ hexEncode bytes = s.toLower := by
  have hback (bytes : List UInt8) : hexDecode (hexEncode bytes) = .ok bytes :=
    hexDecode_of_toLower rfl
  refine ⟨hback, fun _ _ => hexDecode_of_toLower, fun a b h => ?_, fun s hs => ?_⟩
  · have ha := hback a
    rw [h, hback b] at ha
    exact (Outcome.ok.inj ha).symm
  · refine ⟨_, hexDecode_of_isHex hs, ?_⟩
    rw [← String.toList_inj, toList_hexEncode, hexChars_hexValue hs.even_toList hs.2,
      toList_toLower]

theorem hex_round_trip_letters :
    hexDecode (hexEncode [10, 255]) = .ok [10, 255] ∧ hexDecode "0aFf" = .ok [10, 255] ∧
      ∃ bytes, hexDecode "0aFf" = .ok bytes ∧ hexEncode bytes = "0aFf".toLower := by
  have hlower : "0aFf".toLower = (hexEncode [10, 255]).toLower := by
    rw [← String.toList_inj, toList_toLower, toList_toLower, toList_hexEncode]
    decide
  have hdigits : "0aFf".toList.all fun c => c ∈ hexDigits := by decide
  have hx : IsHex "0aFf" := ⟨by decide, forall_of_all hdigits⟩
  exact ⟨hex_round_trip.1 _, hex_round_trip.2.1 _ _ hlower, hex_round_trip.2.2.2 _ hx⟩

end Validator

end LowLatencyKv
