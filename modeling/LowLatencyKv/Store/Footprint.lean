import LowLatencyKv.Store.Safety

/-! # Bytes that make no difference

Whether a file is accepted depends on the layout fields of its header, its length
and its index, and what lookups and iteration yield on its records. The checksum,
the build time and the padding influence neither.
-/

namespace LowLatencyKv

open Rust Tables

variable {Fn : Type} {ph : Ph Fn} {f f' : File} {fn : Fn} {s : KvStore Fn}

/-- Where the record of a slot starts, as the header places it. -/
def recordOffset (h : Header) (i : ℕ) : ℕ := (h.dataOffset.toNat + 320 * i) % 2 ^ 64

/-- The files have one length, and the same layout fields and index. -/
structure SameOpened (f f' : File) : Prop where
  len_eq : f'.len = f.len
  fields : sub f'.bytes 0 40 = sub f.bytes 0 40
  index : sub f'.bytes 4096 (4096 + (Header.parse f.bytes).mphfSize.toNat) =
    sub f.bytes 4096 (4096 + (Header.parse f.bytes).mphfSize.toNat)

/-- The files have one length, and the same layout fields, index and records. -/
structure SameRead (f f' : File) : Prop extends SameOpened f f' where
  records : ∀ i < (Header.parse f.bytes).recordCount.toNat,
    sub f'.bytes (recordOffset (Header.parse f.bytes) i)
        (recordOffset (Header.parse f.bytes) i + 320) =
      sub f.bytes (recordOffset (Header.parse f.bytes) i)
        (recordOffset (Header.parse f.bytes) i + 320)

/-- The store over another file of the same layout. -/
def KvStore.over (s : KvStore Fn) (f' : File) : KvStore Fn :=
  { s with
    mmap := f'
    versionInfo :=
      { s.versionInfo with buildTimestamp := (Header.parse f'.bytes).buildTimestamp } }

/-- Nothing but the build time tells the stores apart. -/
structure KvStore.SameAnswers (ph : Ph Fn) (s s' : KvStore Fn) : Prop where
  len : s'.len = s.len
  isEmpty : s'.isEmpty = s.isEmpty
  get : ∀ key, s'.get ph key = s.get ph key
  contains : ∀ key, s'.contains ph key = s.contains ph key
  iter : s'.iter = s.iter
  recordCount : s'.versionInfo.recordCount = s.versionInfo.recordCount
  fileSize : s'.versionInfo.fileSize = s.versionInfo.fileSize

theorem Header.validate_congr {h h' : Header} (hm : h'.magic = h.magic)
    (hv : h'.version = h.version) (hc : h'.recordCount = h.recordCount) :
    h'.validate = h.validate := by
  unfold validate
  rw [hm, hv, hc]

namespace SameOpened

variable (h : SameOpened f f')

include h

theorem wordAt_eq {c : ℕ} (hc : c + 8 ≤ 40) : wordAt f'.bytes c = wordAt f.bytes c := by
  rw [← Nat.zero_add c, ← wordAt_sub (by omega : 0 + (c + 8) ≤ 40), h.fields,
    wordAt_sub (by omega)]

theorem recordCount_eq : (Header.parse f'.bytes).recordCount =
    (Header.parse f.bytes).recordCount := h.wordAt_eq (by decide)

theorem mphfSize_eq : (Header.parse f'.bytes).mphfSize = (Header.parse f.bytes).mphfSize :=
  h.wordAt_eq (by decide)

theorem dataOffset_eq : (Header.parse f'.bytes).dataOffset = (Header.parse f.bytes).dataOffset :=
  h.wordAt_eq (by decide)

theorem validate_eq : (Header.parse f'.bytes).validate = (Header.parse f.bytes).validate :=
  Header.validate_congr (h.wordAt_eq (by decide)) (h.wordAt_eq (by decide)) h.recordCount_eq

theorem slice_index :
    slice f'.bytes headerSize (wrappingAdd headerSize (Header.parse f.bytes).mphfSize.toNat) =
      slice f.bytes headerSize (wrappingAdd headerSize (Header.parse f.bytes).mphfSize.toNat) := by
  rcases Nat.lt_or_ge (4096 + (Header.parse f.bytes).mphfSize.toNat) (2 ^ 64) with hlt | hge
  · rw [wrappingAdd_of_lt hlt]
    exact slice_congr h.len_eq h.index
  · have hp (g : File) : slice g.bytes headerSize (wrappingAdd headerSize
        (Header.parse f.bytes).mphfSize.toNat) = .panic := by
      rw [slice_eq_panic_iff, index_range_iff]
      have := g.len_lt
      omega
    rw [hp f', hp f]

theorem open_eq : KvStore.open ph f' = KvStore.open ph f >>= fun s => .ok (s.over f') := by
  have hl : f'.bytes.length = f.bytes.length := h.len_eq
  unfold KvStore.open
  simp only [Outcome.ofExcept_ok, Outcome.mapErr_ok, Outcome.ok_bind]
  by_cases hpage : f.bytes.length < 4096
  · rw [Header.fromBytes_of_lt hpage, Header.fromBytes_of_lt (hl.trans_lt hpage), hl]
    rfl
  · rw [Header.fromBytes_of_le (by omega), Header.fromBytes_of_le (by omega), h.validate_eq]
    cases (Header.parse f.bytes).validate with
    | err e => rfl
    | panic => rfl
    | ok _ =>
      simp only [Outcome.ok_bind, h.mphfSize_eq, h.slice_index, h.recordCount_eq,
        h.dataOffset_eq, h.len_eq]
      cases slice f.bytes headerSize
          (wrappingAdd headerSize (Header.parse f.bytes).mphfSize.toNat) with
      | err e => exact e.elim
      | panic => rfl
      | ok index =>
        simp only [Outcome.liftM_ok, Outcome.ok_bind]
        cases Mphf.deserialize ph index with
        | err e => rfl
        | panic => rfl
        | ok mphf =>
          simp only [Outcome.ok_bind]
          split
          · rfl
          · split <;> rfl

theorem accepted_iff :
    (∃ s, KvStore.open ph f' = .ok s) ↔ ∃ s, KvStore.open ph f = .ok s := by
  rw [h.open_eq]
  cases KvStore.open ph f with
  | ok s => exact iff_of_true ⟨_, rfl⟩ ⟨_, rfl⟩
  | err e => exact iff_of_false (by simp) (by simp)
  | panic => exact iff_of_false (by simp) (by simp)

end SameOpened

namespace SameRead

variable (h : SameRead f f')

include h

theorem getRecord_eq {i : ℕ} (hi : i < (Header.parse f.bytes).recordCount.toNat) (fn : Fn) :
    ((KvStore.ofFile f fn).over f').getRecord i = (KvStore.ofFile f fn).getRecord i := by
  have ho : (KvStore.ofFile f fn).getRecord i =
      slice f.bytes (recordOffset (Header.parse f.bytes) i)
        (wrappingAdd (recordOffset (Header.parse f.bytes) i) recordSize) >>= Record.fromBytes := by
    rw [recordOffset, ← KvStore.offset_eq]
    rfl
  have ho' : ((KvStore.ofFile f fn).over f').getRecord i =
      slice f'.bytes (recordOffset (Header.parse f.bytes) i)
        (wrappingAdd (recordOffset (Header.parse f.bytes) i) recordSize) >>= Record.fromBytes := by
    rw [recordOffset, ← KvStore.offset_eq]
    rfl
  rw [ho, ho']
  rcases Nat.lt_or_ge (recordOffset (Header.parse f.bytes) i + 320) (2 ^ 64) with hlt | hge
  · have hw : wrappingAdd (recordOffset (Header.parse f.bytes) i) recordSize =
        recordOffset (Header.parse f.bytes) i + 320 := wrappingAdd_of_lt hlt
    rw [hw, slice_congr h.len_eq (h.records i hi)]
  · -- The range wraps around, so that its end is in front of its start.
    have hp (g : File) : slice g.bytes (recordOffset (Header.parse f.bytes) i)
        (wrappingAdd (recordOffset (Header.parse f.bytes) i) recordSize) = .panic := by
      have hm : recordOffset (Header.parse f.bytes) i < 2 ^ 64 := Nat.mod_lt _ (by decide)
      rw [slice_eq_panic_iff]
      simp only [wrappingAdd, recordSize, keySize, valueSize]
      omega
    rw [hp f', hp f]

theorem get_eq (fn : Fn) (key : Key) :
    ((KvStore.ofFile f fn).over f').get ph key = (KvStore.ofFile f fn).get ph key := by
  have hm : ((KvStore.ofFile f fn).over f').mphf = (KvStore.ofFile f fn).mphf := rfl
  have hc : ((KvStore.ofFile f fn).over f').recordCount = (KvStore.ofFile f fn).recordCount := rfl
  unfold KvStore.get
  rw [hm, hc]
  split
  · rfl
  · split
    · rfl
    · next hlt => rw [h.getRecord_eq (Nat.not_le.mp hlt)]

theorem sameAnswers (fn : Fn) :
    (KvStore.ofFile f fn).SameAnswers ph ((KvStore.ofFile f fn).over f') := by
  constructor
  case len => rfl
  case isEmpty => rfl
  case get => exact h.get_eq fn
  case contains =>
    rintro key
    unfold KvStore.contains
    rw [h.get_eq fn key]
  case iter =>
    unfold KvStore.iter
    apply Outcome.mapM_congr
    rintro i hi
    rw [h.getRecord_eq (List.mem_range.mp hi)]
  case recordCount => rfl
  case fileSize => rfl

end SameRead

/-- Files that agree on layout fields, index and records are refused alike, or opened to stores that
answer alike. -/
theorem unread_bytes (ph : Ph Fn) (h : SameRead f f') :
    (∀ e, KvStore.open ph f' = .err e ↔ KvStore.open ph f = .err e) ∧
      (KvStore.open ph f' = .panic ↔ KvStore.open ph f = .panic) ∧
      ∀ s, KvStore.open ph f = .ok s →
        ∃ s', KvStore.open ph f' = .ok s' ∧ s.SameAnswers ph s' := by
  rw [h.open_eq]
  cases ho : KvStore.open ph f with
  | err e => exact ⟨fun _ => Iff.rfl, Iff.rfl, nofun⟩
  | panic => exact ⟨fun _ => Iff.rfl, Iff.rfl, nofun⟩
  | ok s =>
    refine ⟨fun e => ?_, ?_, fun s₁ hs => ?_⟩
    · exact iff_of_false nofun nofun
    · exact iff_of_false nofun nofun
    · obtain rfl := Outcome.ok.inj hs
      obtain ⟨fn, _, rfl⟩ := open_eq_ok_iff.mp ho
      exact ⟨_, rfl, h.sameAnswers fn⟩

/-- Opening does not notice what is written between the layout fields and the index. -/
theorem sameOpened_splice {src : List UInt8} {a : ℕ} (ha : 40 ≤ a) (hs : a + src.length ≤ 4096)
    (hl : 4096 ≤ f.len) (hf : f'.bytes = splice f.bytes a src) : SameOpened f f' := by
  have hfit : a + src.length ≤ f.bytes.length := hs.trans hl
  constructor
  case len_eq => rw [File.len, File.len, hf, length_splice hfit]
  case fields => rw [hf, sub_splice_of_disjoint hfit (Or.inl ha)]
  case index => rw [hf, sub_splice_of_disjoint hfit (Or.inr hs)]

theorem sameRead_splice {src : List UInt8} {a : ℕ} (ha : 40 ≤ a) (hs : a + src.length ≤ 4096)
    (hl : 4096 ≤ f.len) (hf : f'.bytes = splice f.bytes a src)
    (hr : ∀ i < (Header.parse f.bytes).recordCount.toNat,
      a + src.length ≤ recordOffset (Header.parse f.bytes) i) : SameRead f f' where
  toSameOpened := sameOpened_splice ha hs hl hf
  records i hi := by rw [hf, sub_splice_of_disjoint (hs.trans hl) (Or.inr (hr i hi))]

/-- A file of one record with other bytes for build time and checksum. -/
def stampedFile : File where
  bytes := splice (oneFile 3856).bytes 40 (List.replicate 56 255)
  length_lt := by
    rw [length_splice (by rw [← File.len, len_oneFile]; decide)]
    exact (oneFile 3856).length_lt

theorem sameRead_stampedFile : SameRead (oneFile 3856) stampedFile := by
  refine sameRead_splice (by decide) (by decide) (by rw [len_oneFile]; decide) rfl ?_
  rw [parse_oneFile]
  decide

theorem unread_bytes_stampedFile : ∃ s s', KvStore.open listIndex (oneFile 3856) = .ok s ∧
    KvStore.open listIndex stampedFile = .ok s' ∧ s.SameAnswers listIndex s' := by
  obtain ⟨_, _, h⟩ := unread_bytes listIndex sameRead_stampedFile
  obtain ⟨s', ho, hs⟩ := h _ (open_oneFile (by decide))
  exact ⟨_, s', open_oneFile (by decide), ho, hs⟩

end LowLatencyKv
