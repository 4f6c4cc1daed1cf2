import LowLatencyKv.Store.Header
import LowLatencyKv.Store.Mphf

/-! # The store

Opening a snapshot, lookups and iteration, with 64-bit wrapping arithmetic and
panicking slices. `Accepts` lists what `KvStore.open` demands of the bytes of a
file, and decides both when it succeeds and which store it returns.
-/

namespace LowLatencyKv

open Rust

structure VersionInfo where
  buildTimestamp : UInt64
  recordCount : UInt64
  fileSize : UInt64
  deriving DecidableEq, Repr

/-- An opened snapshot: the mapped file, its index and its layout. -/
structure KvStore (Fn : Type) where
  mmap : File
  mphf : Mphf Fn
  recordCount : ℕ
  dataOffset : ℕ
  versionInfo : VersionInfo

variable {Fn : Type} (ph : Ph Fn)

/-- Opens a snapshot file. The argument is the file, or why it cannot be mapped. -/
def KvStore.open (file : Except IoError File) : Outcome Error (KvStore Fn) := do
  let mmap ← (Outcome.ofExcept file).mapErr .io
  let fileSize := mmap.len
  let header ← Header.fromBytes mmap.bytes
  let mphfStart := headerSize
  let mphfEnd := wrappingAdd mphfStart header.mphfSize.toNat
  let index ← slice mmap.bytes mphfStart mphfEnd
  let mphf ← Mphf.deserialize ph index
  if mphf.keyCount ≠ header.recordCount.toNat then
    .err (.invalidMphf
      s!"MPHF key count {mphf.keyCount} doesn't match header record count {header.recordCount}")
  else
    let dataOffset := header.dataOffset.toNat
    let recordCount := header.recordCount.toNat
    let expectedSize := wrappingAdd dataOffset (wrappingMul recordCount recordSize)
    if fileSize < expectedSize then
      .err (.fileTooSmall (UInt64.ofNat fileSize) (UInt64.ofNat expectedSize))
    else
      let versionInfo : VersionInfo :=
        { buildTimestamp := header.buildTimestamp
          recordCount := header.recordCount
          fileSize := UInt64.ofNat fileSize }
      pure { mmap, mphf, recordCount, dataOffset, versionInfo }

namespace KvStore

def getRecord (s : KvStore Fn) (slot : ℕ) : Exec Record := do
  let offset := wrappingAdd s.dataOffset (wrappingMul slot recordSize)
  let bytes ← slice s.mmap.bytes offset (wrappingAdd offset recordSize)
  Record.fromBytes bytes

/-- Looks up a value by key; the stored key is compared with the one asked for. -/
def get (s : KvStore Fn) (key : Key) : Exec (Option Value) :=
  match s.mphf.get ph key with
  | none => pure none
  | some slot =>
    if slot ≥ s.recordCount then pure none
    else do
      let record ← s.getRecord slot
      pure (if record.keyEquals key then some record.value else none)

def contains (s : KvStore Fn) (key : Key) : Exec Bool := do
  let value ← s.get ph key
  pure value.isSome

def len (s : KvStore Fn) : ℕ := s.recordCount

def isEmpty (s : KvStore Fn) : Bool := s.recordCount = 0

def iter (s : KvStore Fn) : Exec (List (Key × Value)) :=
  (List.range s.recordCount).mapM fun slot => do
    let record ← s.getRecord slot
    pure (record.key, record.value)

end KvStore

/-- The bytes of a file pass every check of `open`, and its index decodes to `g`. -/
structure Accepts (f : File) (g : Fn) : Prop where
  page_le : 4096 ≤ f.len
  valid : (Header.parse f.bytes).validate = .ok ()
  index_le : 4096 + (Header.parse f.bytes).mphfSize.toNat ≤ f.len
  prefix_le : 8 ≤ (Header.parse f.bytes).mphfSize.toNat
  read : ph.read (sub f.bytes 4104 (4096 + (Header.parse f.bytes).mphfSize.toNat)) = .ok g
  count : wordAt f.bytes 4096 = (Header.parse f.bytes).recordCount
  size_le : wrappingAdd (Header.parse f.bytes).dataOffset.toNat
    (wrappingMul (Header.parse f.bytes).recordCount.toNat recordSize) ≤ f.len

def KvStore.ofFile (f : File) (g : Fn) : KvStore Fn where
  mmap := f
  mphf := ⟨g, (Header.parse f.bytes).recordCount.toNat⟩
  recordCount := (Header.parse f.bytes).recordCount.toNat
  dataOffset := (Header.parse f.bytes).dataOffset.toNat
  versionInfo :=
    { buildTimestamp := (Header.parse f.bytes).buildTimestamp
      recordCount := (Header.parse f.bytes).recordCount
      fileSize := UInt64.ofNat f.len }

instance : Coe File (Except IoError File) := ⟨.ok⟩

variable {ph} {f : File} {g : Fn} {s : KvStore Fn}

theorem index_range_iff {m : UInt64} :
    (4096 ≤ wrappingAdd 4096 m.toNat ∧ wrappingAdd 4096 m.toNat ≤ f.bytes.length) ↔
      4096 + m.toNat ≤ f.len := by
  have hf := f.length_lt
  have hm := m.toNat_lt
  simp only [wrappingAdd, File.len]
  omega

theorem open_of_invalid {e : Error} (hl : 4096 ≤ f.len)
    (he : (Header.parse f.bytes).validate = .err e) : KvStore.open ph f = .err e := by
  rw [KvStore.open, Outcome.ofExcept_ok, Outcome.mapErr_ok, Outcome.ok_bind,
    Header.fromBytes_of_le hl, he, Outcome.err_bind, Outcome.err_bind]

theorem deserialize_index_iff {bytes : List UInt8} {m : ℕ} (h : 4096 + m ≤ bytes.length)
    {mphf : Mphf Fn} :
    Mphf.deserialize ph (sub bytes 4096 (4096 + m)) = .ok mphf ↔
      8 ≤ m ∧ ph.read (sub bytes 4104 (4096 + m)) = .ok mphf.function ∧
        mphf.keyCount = (wordAt bytes 4096).toNat := by
  have hl : (sub bytes 4096 (4096 + m)).length = m := by rw [length_sub (by omega) h]; omega
  rw [Mphf.deserialize_eq_ok_iff, hl, drop_sub]
  refine and_congr_right fun h8 => ?_
  rw [wordAt_sub (by omega)]

theorem accepts_of_layout {h : Header} {image rest : List UInt8}
    (hf : f.bytes = h.toBytes ++ (toLeBytes h.recordCount ++ image) ++ rest)
    (hv : h.validate = .ok ()) (hm : h.mphfSize.toNat = 8 + image.length)
    (hr : ph.read image = .ok g)
    (hs : wrappingAdd h.dataOffset.toNat (wrappingMul h.recordCount.toNat recordSize) ≤ f.len) :
    Accepts ph f g := by
  have hp : Header.parse f.bytes = h := by rw [hf, List.append_assoc, Header.parse_toBytes]
  have hl : h.toBytes.length = 4096 := Header.length_toBytes h
  have hlen : f.len = 4096 + (8 + image.length) + rest.length := by
    simp only [File.len, hf, List.length_append, hl, length_toLeBytes]
  have hf' : f.bytes = h.toBytes ++ toLeBytes h.recordCount ++ (image ++ rest) := by
    simp only [hf, List.append_assoc]
  have hpre : (h.toBytes ++ toLeBytes h.recordCount).length = 4104 := by
    rw [List.length_append, hl, length_toLeBytes]
  constructor
  case page_le => omega
  case valid => rw [hp, hv]
  case index_le => rw [hp, hm]; omega
  case prefix_le => rw [hp, hm]; omega
  case read =>
    rw [hp, hm, hf', ← List.append_assoc, sub_middle _ image rest hpre (by omega), hr]
  case count =>
    rw [hp, hf']
    exact wordAt_of_sub (sub_middle _ _ _ hl rfl)
  case size_le => rwa [hp]

/-- Acceptance depends on the length of the file and on the bytes up to the end of the index. -/
theorem Accepts.congr {f' : File} {d : ℕ} (h : Accepts ph f g) (hl : f'.len = f.len)
    (ht : f'.bytes.take d = f.bytes.take d)
    (hd : 4096 + (Header.parse f.bytes).mphfSize.toNat ≤ d) : Accepts ph f' g := by
  have hp : Header.parse f'.bytes = Header.parse f.bytes := Header.parse_congr (by omega) ht
  have hpre := h.prefix_le
  constructor
  case page_le => rw [hl]; exact h.page_le
  case valid => rw [hp]; exact h.valid
  case index_le => rw [hp, hl]; exact h.index_le
  case prefix_le => rw [hp]; exact hpre
  case read => rw [hp, ← sub_take hd, ht, sub_take hd]; exact h.read
  case count =>
    rw [hp, ← wordAt_take (by omega : 4096 + 8 ≤ d), ht, wordAt_take (by omega)]
    exact h.count
  case size_le => rw [hp, hl]; exact h.size_le

/-- `open` succeeds exactly on the accepted files, with the store read from their bytes. -/
theorem open_eq_ok_iff : KvStore.open ph f = .ok s ↔ ∃ g, Accepts ph f g ∧ s = .ofFile f g := by
  simp only [KvStore.open, Outcome.ofExcept_ok, Outcome.mapErr_ok, Outcome.ok_bind,
    Outcome.bind_eq_ok_iff, Outcome.liftM_eq_ok_iff, Header.fromBytes_eq_ok_iff, slice_eq_ok_iff]
  constructor
  · rintro ⟨_, ⟨hp, hv, rfl⟩, _, ⟨hl, hb, rfl⟩, ⟨g, n⟩, hm, h⟩
    have hi := index_range_iff.mp ⟨hl, hb⟩
    rw [wrappingAdd_of_lt (lt_of_le_of_lt hi f.len_lt), deserialize_index_iff hi] at hm
    obtain ⟨h8, hg, rfl⟩ := hm
    split_ifs at h with hc hs
    obtain rfl := Outcome.ok.inj h
    have hc' := UInt64.toNat_inj.mp (Decidable.not_not.mp hc)
    refine ⟨g, ⟨hp, hv, hi, h8, hg, hc', Nat.not_lt.mp hs⟩, ?_⟩
    rw [KvStore.ofFile, ← hc']
  · rintro ⟨g, h, rfl⟩
    obtain ⟨hl, hb⟩ := index_range_iff.mpr h.index_le
    refine ⟨_, ⟨h.page_le, h.valid, rfl⟩, _, ⟨hl, hb, rfl⟩,
      ⟨g, (Header.parse f.bytes).recordCount.toNat⟩, ?_, ?_⟩
    · rw [wrappingAdd_of_lt (lt_of_le_of_lt h.index_le f.len_lt), deserialize_index_iff h.index_le]
      exact ⟨h.prefix_le, h.read, by rw [h.count]⟩
    · rw [if_neg (not_not.mpr rfl), if_neg (Nat.not_lt.mpr h.size_le)]
      rfl

theorem open_of_len_lt {h : Header} {index : List UInt8} {mphf : Mphf Fn}
    (hh : Header.fromBytes f.bytes = .ok h)
    (hi : slice f.bytes headerSize (wrappingAdd headerSize h.mphfSize.toNat) = .ok index)
    (hm : Mphf.deserialize ph index = .ok mphf) (hc : mphf.keyCount = h.recordCount.toNat)
    (hs : f.len < wrappingAdd h.dataOffset.toNat (wrappingMul h.recordCount.toNat recordSize)) :
    KvStore.open ph f = .err (.fileTooSmall (UInt64.ofNat f.len) (UInt64.ofNat
      (wrappingAdd h.dataOffset.toNat (wrappingMul h.recordCount.toNat recordSize)))) := by
  rw [KvStore.open, Outcome.ofExcept_ok, Outcome.mapErr_ok, Outcome.ok_bind, hh, Outcome.ok_bind]
  simp only [hi, Outcome.liftM_ok, Outcome.ok_bind, hm, if_neg (not_not.mpr hc), if_pos hs]

/-- `open` panics exactly when a valid header announces an index that ends behind the file. -/
theorem open_eq_panic_iff :
    KvStore.open ph f = .panic ↔
      4096 ≤ f.len ∧ (Header.parse f.bytes).validate = .ok () ∧
        f.len < 4096 + (Header.parse f.bytes).mphfSize.toNat := by
  simp only [KvStore.open, Outcome.ofExcept_ok, Outcome.mapErr_ok, Outcome.ok_bind,
    Outcome.bind_eq_panic_iff, Header.fromBytes_ne_panic, false_or, Header.fromBytes_eq_ok_iff,
    Outcome.liftM_eq_panic_iff, slice_eq_panic_iff, Mphf.deserialize_ne_panic]
  constructor
  · rintro ⟨_, ⟨hp, hv, rfl⟩, h | ⟨_, _, _, _, h⟩⟩
    · rw [index_range_iff, Nat.not_le] at h
      exact ⟨hp, hv, h⟩
    · split_ifs at h
  · rintro ⟨hp, hv, h⟩
    refine ⟨_, ⟨hp, hv, rfl⟩, Or.inl ?_⟩
    rwa [index_range_iff, Nat.not_le]

def pageSize : ℕ := 4096

/-- The pages of the file; the last one may be shorter. -/
def pages (bytes : List UInt8) : List (List UInt8) :=
  (List.range ((bytes.length + (pageSize - 1)) / pageSize)).map fun i =>
    (bytes.drop (pageSize * i)).take pageSize

namespace KvStore

/-- Reads one byte of each page. -/
def preload (s : KvStore Fn) : Outcome Error ℕ := do
  let _ ← (pages s.mmap.bytes).foldlM (fun sum page => do
    let byte ← expect page[0]?
    pure (sum + byte)) (0 : UInt8)
  pure s.mmap.len

theorem preload_eq (s : KvStore Fn) : s.preload = .ok s.mmap.len := by
  have hpage : ∀ page ∈ pages s.mmap.bytes, ∀ sum : UInt8,
      (do let byte ← expect page[0]?
          pure (sum + byte) : Outcome Error UInt8) = .ok (sum + page.headD 0) := by
    intro page hp sum
    obtain ⟨i, hi, rfl⟩ := List.mem_map.mp hp
    have hlt := List.mem_range.mp hi
    unfold pageSize at hlt ⊢
    have hb : 4096 * i < s.mmap.bytes.length := by omega
    have h0 : ((s.mmap.bytes.drop (4096 * i)).take 4096)[0]? = some s.mmap.bytes[4096 * i] := by
      rw [List.getElem?_take_of_lt (by decide), List.getElem?_drop, Nat.add_zero,
        List.getElem?_eq_getElem hb]
    rw [h0, List.headD_eq_head?_getD, List.head?_eq_getElem?, h0]
    rfl
  unfold preload
  rw [Outcome.foldlM_ok hpage]
  rfl

end KvStore

end LowLatencyKv
