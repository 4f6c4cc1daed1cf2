import LowLatencyKv.Store.Contents
import LowLatencyKv.Store.ListIndex

/-! # Untrusted files

Which files `open` refuses with a panic, and for which opened files every read is
inside the mapping. Both fail through one unchecked sum: the end of the index is
not compared with the file, and the end of the data section may wrap around.
-/

namespace LowLatencyKv

open Rust Tables

variable {Fn : Type} {ph : Ph Fn} {f : File} {s : KvStore Fn}

/-- `open` returns a result, and slices the index inside the file, exactly for the files whose
header is refused or whose announced index ends in the file. -/
theorem open_total_iff (f : File) :
    (KvStore.open ph f ≠ .panic ∧ ∀ h, Header.fromBytes f.bytes = .ok h →
        ∃ index, slice f.bytes headerSize (wrappingAdd headerSize h.mphfSize.toNat) = .ok index) ↔
      (∀ h, Header.fromBytes f.bytes = .ok h → 4096 + h.mphfSize.toNat ≤ f.len) := by
  constructor
  · rintro ⟨_, hs⟩ h hh
    obtain ⟨index, hi⟩ := hs h hh
    obtain ⟨hl, hb, _⟩ := slice_eq_ok_iff.mp hi
    exact index_range_iff.mp ⟨hl, hb⟩
  · intro hc
    refine ⟨fun hp => ?_, fun h hh => ?_⟩
    · obtain ⟨hl, hv, hm⟩ := open_eq_panic_iff.mp hp
      have := hc _ (Header.fromBytes_eq_ok_iff.mpr ⟨hl, hv, rfl⟩)
      omega
    · obtain ⟨hl, hb⟩ := index_range_iff.mpr (hc h hh)
      exact ⟨_, slice_of_le hl hb⟩

def pageFile : File := ⟨(Header.new 1 8 0).toBytes, by rw [Header.length_toBytes]; decide⟩

theorem parse_pageFile : Header.parse pageFile.bytes = Header.new 1 8 0 := by
  simpa [pageFile] using Header.parse_toBytes (Header.new 1 8 0) []

theorem len_pageFile : pageFile.len = 4096 := Header.length_toBytes _

/-- Opening a snapshot cut off after its header panics. -/
theorem open_pageFile : KvStore.open listIndex pageFile = .panic := by
  rw [open_eq_panic_iff, parse_pageFile, len_pageFile]
  exact ⟨le_rfl, by decide, by decide⟩

theorem Accepts.inBounds {g : Fn} (h : Accepts ph f g)
    (hw : (KvStore.ofFile f g).dataOffset + 320 * (KvStore.ofFile f g).recordCount < 2 ^ 64) :
    (KvStore.ofFile f g).InBounds := by
  have hs := h.size_le
  rw [KvStore.offset_eq] at hs
  simp only [KvStore.ofFile] at hw
  rw [Nat.mod_eq_of_lt hw] at hs
  exact KvStore.inBounds_iff.mpr (Or.inr hs)

/-- Reads from an opened file stay in the mapping, without wrapping or panicking, exactly when the
end of the data section that its header announces is below `2 ^ 64`. -/
theorem reads_safe_iff (h : KvStore.open ph f = .ok s) :
    ((∀ i < s.len, wrappingAdd s.dataOffset (wrappingMul i recordSize) = s.dataOffset + 320 * i ∧
        s.dataOffset + 320 * i + 320 ≤ s.mmap.len) ∧
      (∀ k, s.get ph k ≠ .panic) ∧ s.iter ≠ .panic) ↔
    (Header.parse f.bytes).dataOffset.toNat +
      320 * (Header.parse f.bytes).recordCount.toNat < 2 ^ 64 := by
  obtain ⟨g, ha, rfl⟩ := open_eq_ok_iff.mp h
  constructor
  · rintro ⟨_, _, hi⟩
    by_contra hw
    have hl := f.len_lt
    have hr := (Header.parse f.bytes).recordCount.toNat_lt
    have hdo := (Header.parse f.bytes).dataOffset.toNat_lt
    obtain ⟨i, hlt, hp⟩ : ∃ i < (KvStore.ofFile f g).recordCount,
        (KvStore.ofFile f g).getRecord i = .panic :=
      KvStore.exists_getRecord_panic hdo (by simp only [KvStore.ofFile]; omega)
        (by simp only [KvStore.ofFile]; omega)
    exact hi (KvStore.iter_of_getRecord_panic hlt hp)
  · intro hw
    have hb := ha.inBounds hw
    refine ⟨fun i hi => ⟨?_, hb i hi⟩, fun k => ?_, ?_⟩
    · have hi' : (KvStore.ofFile f g).dataOffset + 320 * i + 320 ≤ f.len := hb i hi
      have hl := f.len_lt
      rw [KvStore.offset_eq]
      exact Nat.mod_eq_of_lt (by omega)
    · simp [KvStore.get_eq hb k]
    · simp [KvStore.iter_eq hb]

/-- The header of a file with one record, whose index keeps the zero key. -/
def oneHeader (dataOffset : UInt64) : Header := { Header.new 1 80 0 with dataOffset }

def zeroKey : Key := Arr.replicate keySize 0

def oneFile (dataOffset : UInt64) : File where
  bytes := (oneHeader dataOffset).toBytes ++ (toLeBytes 1 ++ ListIndex.write [zeroKey])
  length_lt := by
    rw [List.length_append, List.length_append, Header.length_toBytes, length_toLeBytes,
      ListIndex.length_write]
    decide

theorem len_oneFile (d : UInt64) : (oneFile d).len = 4176 := by
  simp only [oneFile, File.len, List.length_append, Header.length_toBytes, length_toLeBytes,
    ListIndex.length_write]
  rfl

theorem parse_oneFile (d : UInt64) : Header.parse (oneFile d).bytes = oneHeader d :=
  Header.parse_toBytes _ _

theorem open_oneFile {d : UInt64} (h : wrappingAdd d.toNat 320 ≤ 4176) :
    KvStore.open listIndex (oneFile d) = .ok (.ofFile (oneFile d) [zeroKey]) := by
  have hf : (oneFile d).bytes = (oneHeader d).toBytes ++
      (toLeBytes (oneHeader d).recordCount ++ ListIndex.write [zeroKey]) ++ [] :=
    (List.append_nil _).symm
  have hm : (oneHeader d).mphfSize.toNat = 8 + (ListIndex.write [zeroKey]).length := by
    rw [ListIndex.length_write]
    rfl
  have hr : listIndex.read (ListIndex.write [zeroKey]) = .ok [zeroKey] := by
    rw [listIndex_read, ListIndex.read_write (by decide)]
  have hv : (oneHeader d).validate = .ok () :=
    Header.validate_eq_ok_iff.mpr ⟨rfl, rfl, show (1 : UInt64) ≤ maxRecords by decide⟩
  have hc : wrappingMul (oneHeader d).recordCount.toNat recordSize = 320 := by
    rw [show (oneHeader d).recordCount = 1 from rfl]
    rfl
  have hs : wrappingAdd (oneHeader d).dataOffset.toNat
      (wrappingMul (oneHeader d).recordCount.toNat recordSize) ≤ (oneFile d).len := by
    rwa [len_oneFile, hc]
  exact open_eq_ok_iff.mpr ⟨_, accepts_of_layout hf hv hm hr hs, rfl⟩

theorem reads_safe_oneFile :
    (∀ i < (KvStore.ofFile (oneFile 0) [zeroKey]).len,
        wrappingAdd (KvStore.ofFile (oneFile 0) [zeroKey]).dataOffset (wrappingMul i recordSize) =
          (KvStore.ofFile (oneFile 0) [zeroKey]).dataOffset + 320 * i ∧
        (KvStore.ofFile (oneFile 0) [zeroKey]).dataOffset + 320 * i + 320 ≤
          (KvStore.ofFile (oneFile 0) [zeroKey]).mmap.len) ∧
      (∀ k, (KvStore.ofFile (oneFile 0) [zeroKey]).get listIndex k ≠ .panic) ∧
      (KvStore.ofFile (oneFile 0) [zeroKey]).iter ≠ .panic :=
  (reads_safe_iff (open_oneFile (by decide))).mpr (by rw [parse_oneFile]; decide)

theorem exists_wrapped_oneFile :
    ∃ s, KvStore.open listIndex (oneFile (0 - 320)) = .ok s ∧ s.recordCount = 1 ∧
      s.dataOffset = 2 ^ 64 - 320 ∧ s.mphf.get listIndex zeroKey = some 0 ∧ s.mmap.len = 4176 := by
  refine ⟨_, open_oneFile (by decide), ?_, ?_, ?_, ?_⟩
  · rw [KvStore.ofFile, parse_oneFile]
    rfl
  · rw [KvStore.ofFile, parse_oneFile]
    rfl
  · rw [KvStore.ofFile, parse_oneFile]
    decide
  · rw [KvStore.ofFile, len_oneFile]

/-- One record at the end of the address space: the file opens and the record cannot be read. -/
theorem reads_of_wrapped_oneFile :
    ∃ s, KvStore.open listIndex (oneFile (0 - 320)) = .ok s ∧ s.len = 1 ∧
      ¬ s.dataOffset + 320 ≤ s.mmap.len ∧ s.get listIndex zeroKey = .panic ∧ s.iter = .panic := by
  obtain ⟨s, ho, hc, hd, hg, hl⟩ := exists_wrapped_oneFile
  have hr : s.getRecord 0 = .panic := KvStore.getRecord_of_gt (by omega)
  exact ⟨s, ho, hc, by omega, KvStore.get_of_getRecord_panic hg (by omega) hr,
    KvStore.iter_of_getRecord_panic (by omega) hr⟩

end LowLatencyKv
