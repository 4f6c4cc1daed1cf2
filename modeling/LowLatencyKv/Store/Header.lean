import LowLatencyKv.Store.Record

/-! # The snapshot header

The first page of a snapshot: magic number, format version, record count, index
size, data offset, build timestamp and the checksum of the data section. Decoding
inverts encoding, whatever follows the header in the file.
-/

namespace LowLatencyKv

open Rust

abbrev headerSize : ℕ := 4096

abbrev checksumOffset : ℕ := 64

abbrev checksumSize : ℕ := 32

def formatVersion : UInt64 := 1

/-- Magic number of snapshot files: "KVSS1000" in ASCII. -/
def magicNumber : UInt64 := 0x4B56535331303030

/-- The record count above which a header is refused. -/
def maxRecords : UInt64 := 10000000000

abbrev Checksum := Arr UInt8 checksumSize

/-- The digest function of the `sha2` crate. -/
abbrev Sha256 := List UInt8 → Checksum

@[ext] structure Header where
  magic : UInt64
  version : UInt64
  recordCount : UInt64
  mphfSize : UInt64
  dataOffset : UInt64
  buildTimestamp : UInt64
  checksum : Checksum
  deriving DecidableEq, Repr

def alignTo4k (value : UInt64) : UInt64 := (value + 4095) &&& ~~~4095

def hexEncode (bytes : List UInt8) : String :=
  String.join (bytes.map fun b =>
    String.ofList [Nat.digitChar (b.toNat / 16), Nat.digitChar (b.toNat % 16)])

namespace Header

/-- Creates a new header; the data section starts at the first page after the index. -/
def new (recordCount mphfSize buildTimestamp : UInt64) : Header where
  magic := magicNumber
  version := formatVersion
  recordCount := recordCount
  mphfSize := mphfSize
  dataOffset := alignTo4k (UInt64.ofNat headerSize + mphfSize)
  buildTimestamp := buildTimestamp
  checksum := Arr.replicate checksumSize 0

def validate (h : Header) : Outcome Error Unit :=
  if h.magic ≠ magicNumber then .err (.invalidMagic magicNumber h.magic)
  else if h.version ≠ formatVersion then .err (.unsupportedVersion h.version)
  else if h.recordCount > maxRecords then .err (.tooManyRecords h.recordCount maxRecords)
  else .ok ()

def fromBytes (bytes : List UInt8) : Outcome Error Header :=
  if bytes.length < headerSize then
    .err (.fileTooSmall (UInt64.ofNat bytes.length) (UInt64.ofNat headerSize))
  else do
    let magic ← readU64 bytes 0 8
    let version ← readU64 bytes 8 16
    let recordCount ← readU64 bytes 16 24
    let mphfSize ← readU64 bytes 24 32
    let dataOffset ← readU64 bytes 32 40
    let buildTimestamp ← readU64 bytes 40 48
    let checksum ← slice bytes checksumOffset (checksumOffset + checksumSize)
    let checksum ← toArray checksumSize checksum
    let header : Header :=
      { magic, version, recordCount, mphfSize, dataOffset, buildTimestamp, checksum }
    header.validate
    pure header

/-- Serializes the header into a zeroed page. -/
def toBytes (h : Header) : List UInt8 :=
  let bytes := List.replicate headerSize 0
  let bytes := splice bytes 0 (toLeBytes h.magic)
  let bytes := splice bytes 8 (toLeBytes h.version)
  let bytes := splice bytes 16 (toLeBytes h.recordCount)
  let bytes := splice bytes 24 (toLeBytes h.mphfSize)
  let bytes := splice bytes 32 (toLeBytes h.dataOffset)
  let bytes := splice bytes 40 (toLeBytes h.buildTimestamp)
  splice bytes checksumOffset h.checksum.toList

def computeChecksum (sha256 : Sha256) (data : List UInt8) : Checksum := sha256 data

def verifyChecksum (sha256 : Sha256) (h : Header) (data : List UInt8) : Outcome Error Unit :=
  let computed := computeChecksum sha256 data
  if computed ≠ h.checksum then
    .err (.checksumMismatch (hexEncode h.checksum.toList) (hexEncode computed.toList))
  else .ok ()

/-- The fields stored in the first page of a file, before any check. -/
def parse (bytes : List UInt8) : Header where
  magic := wordAt bytes 0
  version := wordAt bytes 8
  recordCount := wordAt bytes 16
  mphfSize := wordAt bytes 24
  dataOffset := wordAt bytes 32
  buildTimestamp := wordAt bytes 40
  checksum := Arr.ofList checksumSize 0 (sub bytes checksumOffset (checksumOffset + checksumSize))

theorem validate_eq_ok_iff {h : Header} :
    h.validate = .ok () ↔
      h.magic = magicNumber ∧ h.version = formatVersion ∧ h.recordCount ≤ maxRecords := by
  unfold validate
  split_ifs with hm hv hc
  · simp [hm]
  · simp [hv]
  · simp [hc]
  · simp only [ne_eq, Decidable.not_not, gt_iff_lt, UInt64.not_lt] at hm hv hc
    simp [hm, hv, hc]

theorem validate_ne_panic (h : Header) : h.validate ≠ .panic := by
  unfold validate
  split_ifs <;> simp

theorem verifyChecksum_eq_ok_iff {sha256 : Sha256} {h : Header} {data : List UInt8} :
    h.verifyChecksum sha256 data = .ok () ↔ sha256 data = h.checksum := by
  rw [verifyChecksum, computeChecksum]
  split_ifs with hc
  · exact iff_of_false nofun hc
  · exact iff_of_true rfl (not_not.mp hc)

theorem fromBytes_of_lt {bytes : List UInt8} (h : bytes.length < 4096) :
    fromBytes bytes =
      .err (.fileTooSmall (UInt64.ofNat bytes.length) (UInt64.ofNat headerSize)) :=
  if_pos h

theorem fromBytes_of_le {bytes : List UInt8} (h : 4096 ≤ bytes.length) :
    fromBytes bytes = (parse bytes).validate >>= fun _ => .ok (parse bytes) := by
  have hb : checksumOffset + checksumSize ≤ bytes.length := by
    simp only [checksumOffset, checksumSize]; omega
  have hc : (sub bytes checksumOffset (checksumOffset + checksumSize)).length = checksumSize := by
    rw [length_sub (by decide) hb, Nat.add_sub_cancel_left]
  rw [fromBytes, if_neg (Nat.not_lt.mpr h), readU64_eq 0 (by omega), readU64_eq 8 (by omega),
    readU64_eq 16 (by omega), readU64_eq 24 (by omega), readU64_eq 32 (by omega),
    readU64_eq 40 (by omega), slice_of_le (by decide) hb]
  simp only [Outcome.liftM_ok, Outcome.ok_bind, toArray_of_length hc]
  rw [parse, Arr.ofList_of_length 0 hc]
  rfl

theorem fromBytes_ne_panic (bytes : List UInt8) : fromBytes bytes ≠ .panic := by
  by_cases h : bytes.length < 4096
  · simp [fromBytes_of_lt h]
  · rw [fromBytes_of_le (by omega), ne_eq, Outcome.bind_eq_panic_iff]
    rintro (hv | ⟨_, _, he⟩)
    · exact validate_ne_panic _ hv
    · exact nomatch he

theorem fromBytes_eq_ok_iff {bytes : List UInt8} {h : Header} :
    fromBytes bytes = .ok h ↔
      4096 ≤ bytes.length ∧ (parse bytes).validate = .ok () ∧ h = parse bytes := by
  by_cases hl : bytes.length < 4096
  · rw [fromBytes_of_lt hl]
    exact ⟨fun he => (nomatch he), fun he => absurd he.1 (by omega)⟩
  · rw [fromBytes_of_le (by omega), Outcome.bind_eq_ok_iff]
    constructor
    · rintro ⟨_, hv, he⟩
      exact ⟨by omega, hv, (Outcome.ok.inj he).symm⟩
    · rintro ⟨_, hv, rfl⟩
      exact ⟨(), hv, rfl⟩

theorem toBytes_eq (h : Header) :
    h.toBytes = toLeBytes h.magic ++ toLeBytes h.version ++ toLeBytes h.recordCount ++
      toLeBytes h.mphfSize ++ toLeBytes h.dataOffset ++ toLeBytes h.buildTimestamp ++
      List.replicate 16 0 ++ h.checksum.toList ++ List.replicate 4000 0 := by
  have hw (l : List UInt8) (x : UInt64) (a n : ℕ) (ha : l.length = a) :
      splice (l ++ List.replicate (8 + n) 0) a (toLeBytes x) =
        l ++ toLeBytes x ++ List.replicate n 0 := by
    rw [← length_toLeBytes x, splice_replicate_tail l n 0 ha]
  simp only [toBytes]
  rw [← List.nil_append (List.replicate headerSize 0), hw [] _ 0 4088 rfl,
    hw _ _ 8 4080 (by simp), hw _ _ 16 4072 (by simp), hw _ _ 24 4064 (by simp),
    hw _ _ 32 4056 (by simp), hw _ _ 40 4048 (by simp), List.nil_append,
    show (4048 : ℕ) = 16 + (32 + 4000) from rfl, List.replicate_add, ← List.append_assoc,
    List.replicate_add, ← List.append_assoc, splice_middle _ _ _ (by simp) (by simp)]

@[simp] theorem length_toBytes (h : Header) : h.toBytes.length = headerSize := by
  rw [toBytes_eq]
  simp only [List.length_append, length_toLeBytes, List.length_replicate, Arr.length_toList,
    headerSize, checksumSize]

theorem parse_toBytes (h : Header) (l : List UInt8) : parse (h.toBytes ++ l) = h := by
  rw [toBytes_eq]
  ext1
  case checksum =>
    rw [parse, List.append_assoc _ (List.replicate 4000 0), sub_middle _ h.checksum.toList _
      (by simp) (by rw [h.checksum.length_toList]), Arr.ofList_toList]
  all_goals simp only [parse, List.append_assoc, wordAt_cons_zero, wordAt_cons_add]

theorem parse_take {c : ℕ} (bytes : List UInt8) (h : 96 ≤ c) :
    parse (bytes.take c) = parse bytes := by
  ext1
  case checksum =>
    have hc : checksumOffset + checksumSize ≤ c := h
    rw [parse, parse, sub_take hc]
  all_goals exact wordAt_take (by omega)

/-- The parsed header depends on the first 96 bytes only. -/
theorem parse_congr {bytes bytes' : List UInt8} {c : ℕ} (h : 96 ≤ c)
    (ht : bytes.take c = bytes'.take c) : parse bytes = parse bytes' := by
  rw [← parse_take bytes h, ht, parse_take bytes' h]

theorem fromBytes_toBytes (h : Header) (l : List UInt8) :
    fromBytes (h.toBytes ++ l) = h.validate >>= fun _ => .ok h := by
  rw [fromBytes_of_le (by rw [List.length_append, length_toBytes]; simp), parse_toBytes]

theorem toBytes_parse {bytes : List UInt8} (h : 96 ≤ bytes.length) :
    (parse bytes).toBytes = sub bytes 0 48 ++ List.replicate 16 0 ++ sub bytes 64 96 ++
      List.replicate 4000 0 := by
  have hc : (sub bytes checksumOffset (checksumOffset + checksumSize)).length = checksumSize :=
    length_sub (by decide) h
  have hw : sub bytes 0 48 = sub bytes 0 8 ++ sub bytes 8 16 ++ sub bytes 16 24 ++
      sub bytes 24 32 ++ sub bytes 32 40 ++ sub bytes 40 48 := by
    simp only [append_sub, Nat.reduceLeDiff]
  rw [toBytes_eq, hw]
  unfold parse
  rw [Arr.ofList_of_length 0 hc, toLeBytes_wordAt (by omega), toLeBytes_wordAt (by omega),
    toLeBytes_wordAt (by omega), toLeBytes_wordAt (by omega), toLeBytes_wordAt (by omega),
    toLeBytes_wordAt (by omega)]
  rfl

section Recode

variable {bytes : List UInt8} (h : 96 ≤ bytes.length)

include h

theorem length_fields : (sub bytes 0 48).length = 48 ∧
    (sub bytes 0 48 ++ List.replicate 16 (0 : UInt8)).length = 64 ∧
    (sub bytes 0 48 ++ List.replicate 16 0 ++ sub bytes 64 96).length = 96 := by
  have h₁ : (sub bytes 0 48).length = 48 := length_sub (by decide) (by omega)
  have h₂ : (sub bytes 64 96).length = 32 := length_sub (by decide) (by omega)
  refine ⟨h₁, ?_, ?_⟩
  · rw [List.length_append, h₁, List.length_replicate]
  · rw [List.length_append, List.length_append, h₁, h₂, List.length_replicate]

theorem sub_toBytes_parse : sub (parse bytes).toBytes 0 48 = sub bytes 0 48 ∧
    sub (parse bytes).toBytes 64 96 = sub bytes 64 96 := by
  obtain ⟨h₁, h₂, h₃⟩ := length_fields h
  rw [toBytes_parse h]
  constructor
  · rw [List.append_assoc, List.append_assoc]
    exact sub_middle [] _ _ rfl ((Nat.zero_add _).trans h₁)
  · rw [List.length_append] at h₃
    exact sub_middle _ _ _ h₂ (by omega)

theorem toBytes_parse_eq_zero {i : ℕ} {b : UInt8} (hb : (parse bytes).toBytes[i]? = some b)
    (hi : 48 ≤ i ∧ i < 64 ∨ 96 ≤ i) : b = 0 := by
  obtain ⟨h₁, _, h₃⟩ := length_fields h
  have hlen : (parse bytes).toBytes.length = 4096 := length_toBytes _
  have hlt : i < 4096 := hlen ▸ (List.getElem?_eq_some_iff.mp hb).1
  rw [toBytes_parse h] at hb
  rcases hi with ⟨hl, hr⟩ | hl
  · have hm := mem_sub hb hl hr
    rw [List.append_assoc _ (sub bytes 64 96),
      sub_middle _ _ _ h₁ (by rw [List.length_replicate])] at hm
    exact List.eq_of_mem_replicate hm
  · have hm := mem_sub hb hl hlt
    rw [← List.append_nil (_ ++ List.replicate 4000 0),
      sub_middle _ _ _ h₃ (by rw [List.length_replicate])] at hm
    exact List.eq_of_mem_replicate hm

end Recode

/-- Decoding returns an encoded header or its validation error, whatever follows it; encoding what
was decoded keeps the bytes of the fields and clears the others. -/
theorem header_codec :
    (∀ (h : Header) (l : List UInt8),
      (h.validate = .ok () → fromBytes (h.toBytes ++ l) = .ok h) ∧
        ∀ e, h.validate = .err e → fromBytes (h.toBytes ++ l) = .err e) ∧
    ∀ (bytes : List UInt8) (h : Header), fromBytes bytes = .ok h →
      h.toBytes.length = 4096 ∧ sub h.toBytes 0 48 = sub bytes 0 48 ∧
        sub h.toBytes 64 96 = sub bytes 64 96 ∧
        ∀ i b, h.toBytes[i]? = some b → 48 ≤ i ∧ i < 64 ∨ 96 ≤ i → b = 0 := by
  constructor
  · intro h l
    rw [fromBytes_toBytes]
    constructor
    · intro hv
      rw [hv]
      rfl
    · intro e he
      rw [he]
      rfl
  · intro bytes h hb
    obtain ⟨hl, _, rfl⟩ := fromBytes_eq_ok_iff.mp hb
    have hl : 96 ≤ bytes.length := by omega
    obtain ⟨hfields, hsum⟩ := sub_toBytes_parse hl
    exact ⟨length_toBytes _, hfields, hsum, fun _ _ => toBytes_parse_eq_zero hl⟩

theorem header_codec_new :
    fromBytes ((new 1 8 0).toBytes ++ [7]) = .ok (new 1 8 0) ∧
      fromBytes ({ new 1 8 0 with version := 2 }.toBytes ++ []) = .err (.unsupportedVersion 2) ∧
      sub (new 1 8 0).toBytes 0 48 = sub ((new 1 8 0).toBytes ++ [7]) 0 48 ∧
      ∀ b, (new 1 8 0).toBytes[50]? = some b → b = 0 := by
  have hok := (header_codec.1 (new 1 8 0) [7]).1 (by decide)
  obtain ⟨_, hfields, _, hzero⟩ := header_codec.2 _ _ hok
  exact ⟨hok, (header_codec.1 _ []).2 _ (by decide), hfields,
    fun b hb => hzero 50 b hb (Or.inl (by decide))⟩

end Header

theorem land_page_mask {n : ℕ} (h : n < 2 ^ 64) : n &&& (2 ^ 64 - 4096) = n / 4096 * 4096 := by
  apply Nat.eq_of_testBit_eq
  intro i
  rw [Nat.testBit_and, show (2 ^ 64 - 4096 : ℕ) = (2 ^ 52 - 1) * 2 ^ 12 from rfl,
    show (4096 : ℕ) = 2 ^ 12 from rfl, Nat.testBit_mul_two_pow, Nat.testBit_mul_two_pow,
    Nat.testBit_two_pow_sub_one, Nat.testBit_div_two_pow]
  rcases Nat.lt_or_ge i 12 with hi | hi
  · simp [Nat.not_le.mpr hi]
  rcases Nat.lt_or_ge i 64 with hi' | hi'
  · simp [hi, show i - 12 < 52 by omega]
  · have hn : n.testBit i = false :=
      Nat.testBit_lt_two_pow (lt_of_lt_of_le h (Nat.pow_le_pow_right (by omega) hi'))
    simp [hi, hn]

/-- Alignment rounds the wrapped sum down to a multiple of the page size. -/
theorem toNat_alignTo4k_mod (value : UInt64) :
    (alignTo4k value).toNat = (value.toNat + 4095) % 2 ^ 64 / 4096 * 4096 := by
  rw [alignTo4k, UInt64.toNat_and, UInt64.toNat_add, UInt64.toNat_not,
    show UInt64.toNat 4095 = 4095 from rfl]
  exact land_page_mask (Nat.mod_lt _ (Nat.two_pow_pos 64))

theorem toNat_alignTo4k {value : UInt64} (h : value.toNat + 4095 < 2 ^ 64) :
    (alignTo4k value).toNat = (value.toNat + 4095) / 4096 * 4096 := by
  rw [toNat_alignTo4k_mod, Nat.mod_eq_of_lt h]

theorem Header.toNat_dataOffset_new {n m t : UInt64} (h : 4096 + m.toNat + 4095 < 2 ^ 64) :
    (Header.new n m t).dataOffset.toNat = (4096 + m.toNat + 4095) / 4096 * 4096 := by
  have hm : (UInt64.ofNat headerSize + m).toNat = 4096 + m.toNat := by
    rw [UInt64.toNat_add, show (UInt64.ofNat headerSize).toNat = 4096 from rfl]
    omega
  rw [Header.new, toNat_alignTo4k (by rw [hm]; exact h), hm]

end LowLatencyKv
