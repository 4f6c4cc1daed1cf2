import LowLatencyKv.Builder.Build
import LowLatencyKv.Store.Contents

/-! # The layout of a built snapshot

The writes of a build, scattered by the index, leave the header, the index, zero
bytes up to the data section and the records in slot order. Until the header is
written, the first page of the output stays blank.
-/

namespace LowLatencyKv

open Rust Tables

/-- The bytes of a snapshot: header, index, padding and records. -/
def snapshotBytes (h : Header) (index : List UInt8) (cells : List (Key × Value)) : List UInt8 :=
  h.toBytes ++ index ++ List.replicate (h.dataOffset.toNat - (4096 + index.length)) 0 ++
    (cells.map pairBytes).flatten

/-- The first page of a file, as far as it goes, holds zeros. -/
def Blank (f : File) : Prop := ∀ b ∈ f.bytes.take 4096, b = 0

theorem blank_of_take {f : File} (h : f.bytes.take 4096 = List.replicate 4096 0) : Blank f := by
  intro b hb
  rw [h] at hb
  exact List.eq_of_mem_replicate hb

def blankPair : Key × Value := (Arr.replicate keySize 0, Arr.replicate valueSize 0)

variable {Fn : Type} {ph : Ph Fn} {sha256 : Sha256} {env : BuildEnv} {f g : File}
  {page index rest : List UInt8} {cells : List (Key × Value)}

theorem length_of_mem_pairBytes {cells : List (Key × Value)} :
    ∀ c ∈ cells.map pairBytes, c.length = 320 := by
  rintro c hc
  obtain ⟨r, _, rfl⟩ := List.mem_map.mp hc
  exact length_pairBytes r

theorem length_cells (cells : List (Key × Value)) :
    (cells.map pairBytes).flatten.length = 320 * cells.length := by
  rw [length_flatten_blocks length_of_mem_pairBytes, List.length_map]

theorem pairBytes_blankPair : pairBytes blankPair = List.replicate 320 0 := by
  rw [pairBytes, blankPair, Arr.toList_replicate, Arr.toList_replicate,
    List.replicate_append_replicate]
  rfl

theorem flatten_blankPairs (n : ℕ) :
    ((List.replicate n blankPair).map pairBytes).flatten = List.replicate (320 * n) 0 := by
  rw [List.map_replicate, pairBytes_blankPair]
  induction n with
  | zero => rfl
  | succ n ih =>
    rw [List.replicate_succ, List.flatten_cons, ih, List.replicate_append_replicate, Nat.mul_succ,
      Nat.add_comm]

theorem splice_cell {pre : List UInt8} {a i : ℕ} (ha : pre.length = a) (hi : i < cells.length)
    (r : Key × Value) :
    splice (pre ++ (cells.map pairBytes).flatten) (a + 320 * i) (pairBytes r) =
      pre ++ ((cells.set i r).map pairBytes).flatten := by
  rw [List.map_set, ← splice_flatten length_of_mem_pairBytes i (by simpa using hi)
    (length_pairBytes r), splice, splice, ← ha, List.take_length_add_append, Nat.add_assoc,
    List.drop_length_add_append]
  simp only [List.append_assoc]

namespace SnapshotBuilder

theorem createOutput_run (ho : env.openOutput = none) (hs : env.setLen = none)
    (hm : env.mapMut = none) (n : ℕ) (s : Output) :
    createOutput env n s = (.ok (File.empty.setLen (UInt64.ofNat n)),
      ⟨some (File.empty.setLen (UInt64.ofNat n)),
        s.log ++ [(.truncate, File.empty), (.setLen, File.empty.setLen (UInt64.ofNat n))]⟩) := by
  simp only [createOutput, ho, hs, hm, Build.call, Eff.liftM_ok_bind, Eff.bind_apply, Build.put,
    List.append_assoc, List.cons_append, List.nil_append]
  rfl

theorem createOutput_ok {n : ℕ} {s s' : Output} (h : createOutput env n s = (.ok f, s')) :
    env.openOutput = none ∧ env.setLen = none ∧ env.mapMut = none := by
  obtain ⟨_, _, h₀, h⟩ := Eff.bind_eq_ok_iff.mp h
  obtain ⟨_, _, _, h⟩ := Eff.bind_eq_ok_iff.mp h
  obtain ⟨_, _, h₁, h⟩ := Eff.bind_eq_ok_iff.mp h
  obtain ⟨_, _, _, h⟩ := Eff.bind_eq_ok_iff.mp h
  obtain ⟨_, _, h₂, _⟩ := Eff.bind_eq_ok_iff.mp h
  have hcall {fault : Option IoError} {text : String} {a b : Output}
      (hc : (liftM (Build.call fault text) : Build Unit) a = (.ok (), b)) : fault = none := by
    cases fault with
    | none => rfl
    | some io => cases hc
  exact ⟨hcall h₀, hcall h₁, hcall h₂⟩

theorem writeIndex_run (index : List UInt8) {old pad : List UInt8}
    (hf : f.bytes = page ++ old ++ pad ++ rest) (hp : page.length = 4096)
    (ho : old.length = index.length) (s : Output) :
    ∃ g log, writeIndex index (4096 + index.length + pad.length) f s =
        (.ok g, ⟨some g, s.log ++ log⟩) ∧
      g.bytes = page ++ index ++ List.replicate pad.length 0 ++ rest ∧
      (∀ e ∈ log, e.2.bytes.take 4096 = page) ∧
      log.map Prod.fst = .index :: if 0 < pad.length then [.padding] else [] := by
  have hlen : f.len = 4096 + index.length + pad.length + rest.length := by
    simp only [File.len, hf, List.length_append, hp, ho]
  have hl := f.len_lt
  have hw : wrappingAdd headerSize index.length = 4096 + index.length :=
    wrappingAdd_of_lt (by simp only [headerSize]; omega)
  have hi : 4096 + index.length ≤ f.len := by omega
  obtain ⟨f₁, h₁, hb₁⟩ := File.copyFromSlice_of_le f index rfl hi
  have hf₁ : f₁.bytes = page ++ index ++ (pad ++ rest) := by
    rw [hb₁, hf, List.append_assoc (page ++ old)]
    exact splice_middle page old (pad ++ rest) hp ho
  have hlen₁ := File.len_of_copyFromSlice h₁
  have ht₁ : f₁.bytes.take 4096 = page := by
    rw [hf₁, List.append_assoc, List.take_left' hp]
  rw [writeIndex, hw, Eff.liftM_exec_bind h₁, Eff.bind_apply, Build.put]
  by_cases hpad : 0 < pad.length
  · have hd : 4096 + index.length + pad.length ≤ f₁.len := by omega
    obtain ⟨f₂, h₂, hb₂⟩ := File.fillSlice_of_le f₁ 0 (Nat.le_add_right _ _) hd
    have hf₂ : f₂.bytes = page ++ index ++ List.replicate pad.length 0 ++ rest := by
      rw [hb₂, Nat.add_sub_cancel_left, hf₁, ← List.append_assoc (page ++ index)]
      exact splice_middle _ pad rest (by simp [hp]) (by simp)
    have ht₂ : f₂.bytes.take 4096 = page := by
      rw [hf₂, List.append_assoc, List.append_assoc, List.take_left' hp]
    refine ⟨f₂, [(.index, f₁), (.padding, f₂)], ?_, hf₂, ?_, ?_⟩
    · simp only []
      rw [if_pos (by omega), Eff.liftM_exec_bind h₂, Build.put]
      simp
    · simp [ht₁, ht₂]
    · simp [hpad]
  · obtain rfl : pad = [] := List.eq_nil_of_length_eq_zero (by omega)
    refine ⟨f₁, [(.index, f₁)], ?_, by simpa using hf₁, by simp [ht₁], by simp⟩
    simp only []
    rw [if_neg (by simp)]
    rfl

variable {m : Mphf Fn} {pre : List UInt8} {d j : ℕ} {r : Key × Value} {rs : List (Key × Value)}

/-- One record fills the cell of its slot, in two copies behind the first page. -/
theorem writeRecord_run (hf : f.bytes = pre ++ (cells.map pairBytes).flatten)
    (hp : pre.length = d) (hd : 4096 ≤ d) (hj : m.get ph r.1 = some j) (hlt : j < cells.length)
    (i : ℕ) (s : Output) :
    ∃ f₁ f₂, writeRecord ph m d f i r s =
        (.ok f₂, ⟨some f₂, s.log ++ [(.key i, f₁), (.value i, f₂)]⟩) ∧
      f₂.bytes = pre ++ ((cells.set j r).map pairBytes).flatten ∧
      f₁.bytes.take 4096 = pre.take 4096 := by
  have hlen : f.len = d + 320 * cells.length := by
    rw [File.len, hf, List.length_append, hp, length_cells]
  have hl := f.len_lt
  have ho : wrappingAdd d (wrappingMul j recordSize) = d + 320 * j := by
    rw [KvStore.offset_eq, Nat.mod_eq_of_lt (by omega)]
  have hk : wrappingAdd (d + 320 * j) keySize = d + 320 * j + 64 := wrappingAdd_of_lt (by
    simp only [keySize]; omega)
  have hr : wrappingAdd (d + 320 * j) recordSize = d + 320 * j + 320 := wrappingAdd_of_lt (by
    simp only [recordSize, keySize, valueSize]; omega)
  have hkl : r.1.toList.length = 64 := r.1.length_toList
  have hvl : r.2.toList.length = 256 := r.2.length_toList
  have hke : d + 320 * j + 64 = d + 320 * j + r.1.toList.length := by omega
  have hve : d + 320 * j + 320 = d + 320 * j + 64 + r.2.toList.length := by omega
  obtain ⟨f₁, h₁, hb₁⟩ := File.copyFromSlice_of_le f r.1.toList hke (by omega)
  have hlen₁ := File.len_of_copyFromSlice h₁
  obtain ⟨f₂, h₂, hb₂⟩ := File.copyFromSlice_of_le f₁ r.2.toList hve (by omega)
  refine ⟨f₁, f₂, ?_, ?_, ?_⟩
  · rw [writeRecord, hj, expect_some, Eff.liftM_exec_bind rfl, ho, hk, hr,
      Eff.liftM_exec_bind h₁, Eff.bind_apply, Build.put]
    simp only []
    rw [Eff.liftM_exec_bind h₂, Build.put]
    simp
  · have hle : d + 320 * j + r.1.toList.length + r.2.toList.length ≤ f.bytes.length := by
      simp only [File.len] at hlen
      omega
    rw [hb₂, hb₁, ← hkl, splice_splice_adjacent _ _ hle, hf]
    exact splice_cell hp hlt r
  · rw [hb₁, take_splice (by simp only [File.len] at hlen; omega) (by omega), hf,
      List.take_append_of_le_length (by omega)]

def recordSteps (i : ℕ) : ℕ → List BuildStep
  | 0 => []
  | n + 1 => .key i :: .value i :: recordSteps (i + 1) n

theorem writeRecords_run (hf : f.bytes = pre ++ (cells.map pairBytes).flatten)
    (hp : pre.length = d) (hd : 4096 ≤ d)
    (hj : ∀ r ∈ rs, ∃ j < cells.length, m.get ph r.1 = some j) (i : ℕ) (s : Output)
    (hs : s.content = some f) :
    ∃ g log, writeRecords ph m d f i rs s = (.ok g, ⟨some g, s.log ++ log⟩) ∧
      g.bytes = pre ++ ((place (m.get ph) cells rs).map pairBytes).flatten ∧
      (∀ e ∈ log, e.2.bytes.take 4096 = pre.take 4096) ∧
      log.map Prod.fst = recordSteps i rs.length := by
  induction rs generalizing f cells i s with
  | nil =>
    refine ⟨f, [], ?_, hf, nofun, rfl⟩
    rw [List.append_nil, ← hs]
    rfl
  | cons r rs ih =>
    obtain ⟨j, hlt, hr⟩ := hj r (by simp)
    obtain ⟨f₁, f₂, h, hf₂, ht⟩ := writeRecord_run hf hp hd hr hlt i s
    have hj' : ∀ r' ∈ rs, ∃ j' < (cells.set j r).length, m.get ph r'.1 = some j' := by
      intro r' hr'
      rw [List.length_set]
      exact hj r' (List.mem_cons_of_mem _ hr')
    obtain ⟨g, log, hg, hgb, hlog, hsteps⟩ := ih hf₂ hj' (i + 1)
      ⟨some f₂, s.log ++ [(.key i, f₁), (.value i, f₂)]⟩ rfl
    have ht₂ : f₂.bytes.take 4096 = pre.take 4096 := by
      rw [hf₂, List.take_append_of_le_length (by omega)]
    refine ⟨g, (.key i, f₁) :: (.value i, f₂) :: log, ?_, ?_, ?_, ?_⟩
    · rw [writeRecords, Eff.bind_of_ok h, hg]
      simp
    · rw [hgb, place_cons, placeOne_of_slot hr]
    · simpa [ht, ht₂] using hlog
    · simp [hsteps, recordSteps]

theorem writeHeader_run (h : Header) (hf : f.bytes = page ++ rest) (hp : page.length = 4096)
    (hd : d ≤ f.len) (s : Output) :
    ∃ g, writeHeader sha256 h d f s = (.ok g, ⟨some g, s.log ++ [(.header, g)]⟩) ∧
      g.bytes = { h with checksum := sha256 (f.bytes.drop d) }.toBytes ++ rest := by
  have hlen : f.len = 4096 + rest.length := by rw [File.len, hf, List.length_append, hp]
  have hdata : slice f.bytes d f.len = .ok (f.bytes.drop d) := by
    rw [slice_of_le hd le_rfl, drop_eq_sub]
    rfl
  obtain ⟨g, hg, hb⟩ := File.copyFromSlice_of_le f
    { h with checksum := sha256 (f.bytes.drop d) }.toBytes
    (by rw [Header.length_toBytes, Nat.zero_add] : headerSize = 0 + _)
    (by rw [hlen]; simp only [headerSize]; omega)
  refine ⟨g, ?_, ?_⟩
  · rw [writeHeader, Eff.liftM_exec_bind hdata, Eff.liftM_exec_bind hg, Build.put]
  · rw [hb, hf]
    exact splice_front page rest (by rw [Header.length_toBytes, hp])

end SnapshotBuilder

def indexBytes (n : ℕ) (image : List UInt8) : List UInt8 := toLeBytes (UInt64.ofNat n) ++ image

def snapshotHeader (sha256 : Sha256) (timestamp : UInt64) (image : List UInt8)
    (cells : List (Key × Value)) : Header :=
  { Header.new (UInt64.ofNat cells.length) (UInt64.ofNat (8 + image.length)) timestamp with
    checksum := sha256 (cells.map pairBytes).flatten }

/-- The steps of a build of `n` records before the header is written. -/
def buildSteps (padded : Prop) [Decidable padded] (n : ℕ) : List BuildStep :=
  [.truncate, .setLen, .index] ++ (if padded then [.padding] else []) ++
    SnapshotBuilder.recordSteps 0 n

/-- The records placed into blank cells, as many as there are records. -/
def snapshotCells (ph : Ph Fn) (fn : Fn) (rs : List (Key × Value)) : List (Key × Value) :=
  place ((Mphf.mk fn rs.length).get ph) (List.replicate rs.length blankPair) rs

/-- `g` is the snapshot of `rs`, indexed by `fn`, whose written form is `image`. -/
structure IsSnapshot (ph : Ph Fn) (sha256 : Sha256) (timestamp : UInt64) (rs : List (Key × Value))
    (fn : Fn) (image : List UInt8) (g : File) : Prop where
  indexes : ph.Indexes (rs.map Prod.fst) fn image
  size_lt : 4096 + (8 + image.length) + 4095 + 320 * rs.length < 2 ^ 64
  bytes_eq : g.bytes = snapshotBytes
    (snapshotHeader sha256 timestamp image (snapshotCells ph fn rs))
    (indexBytes rs.length image) (snapshotCells ph fn rs)

variable {rs : List (Key × Value)} {fn : Fn} {image : List UInt8} {t : UInt64}

@[simp] theorem length_indexBytes (n : ℕ) : (indexBytes n image).length = 8 + image.length := by
  rw [indexBytes, List.length_append, length_toLeBytes]

@[simp] theorem length_snapshotCells : (snapshotCells ph fn rs).length = rs.length := by
  rw [snapshotCells, length_place, List.length_replicate]

theorem snapshotCells_perm (hi : ph.Builds (rs.map Prod.fst) fn image)
    (hd : (rs.map Prod.fst).Nodup) : (snapshotCells ph fn rs).Perm rs :=
  place_perm hi.placement_records hd List.length_replicate

theorem slot_of_getElem?_snapshotCells (hi : ph.Builds (rs.map Prod.fst) fn image)
    (hd : (rs.map Prod.fst).Nodup) {i : ℕ} {k : Key} {v : Value}
    (hc : (snapshotCells ph fn rs)[i]? = some (k, v)) :
    (Mphf.mk fn rs.length).get ph k = some i :=
  slot_of_getElem?_place hi.placement_records hd List.length_replicate hc

theorem dataOffset_eq (n t : UInt64) (hsz : 4096 + (8 + image.length) + 4095 < 2 ^ 64) :
    (Header.new n (UInt64.ofNat (8 + image.length)) t).dataOffset.toNat =
      (4096 + (8 + image.length) + 4095) / 4096 * 4096 := by
  have hm : (UInt64.ofNat (8 + image.length)).toNat = 8 + image.length :=
    UInt64.toNat_ofNat_of_lt' (by omega : _ < 2 ^ 64)
  rw [Header.toNat_dataOffset_new (by rw [hm]; exact hsz), hm]

namespace SnapshotBuilder

theorem build_of_builds (hne : rs ≠ []) (hi : ph.Builds (rs.map Prod.fst) fn image) :
    (ofRecords rs).build ph sha256 env = liftM (expect env.now) >>= fun t =>
      writeSnapshot ph sha256 env ⟨fn, rs.length⟩ (indexBytes rs.length image)
        (Header.new (UInt64.ofNat rs.length) (UInt64.ofNat (8 + image.length)) t) rs.length rs := by
  rw [build, ofRecords_eq]
  simp only [List.length_map, hi.mphf_build_records hne, hi.mphf_serialize_records, Build.context,
    Outcome.mapErr_ok, Eff.liftM_ok_bind, zip_map_fst_snd, List.length_append, length_toLeBytes]
  rfl

variable {h : Header} {p : ℕ} {slot : Key → Option ℕ}

/-- Creation leaves zeros, which are a blank page, a blank index and blank cells. -/
theorem bytes_created {a b c n : ℕ} (h : a + b + c + 320 * n < 2 ^ 64) :
    (File.empty.setLen (UInt64.ofNat (a + b + c + 320 * n))).bytes =
      List.replicate a 0 ++ List.replicate b 0 ++ List.replicate c 0 ++
        ((List.replicate n blankPair).map pairBytes).flatten := by
  rw [File.bytes_setLen_empty, UInt64.toNat_ofNat_of_lt' h, flatten_blankPairs,
    List.replicate_append_replicate, List.replicate_append_replicate,
    List.replicate_append_replicate]

/-- The writes of a build on a created file: a header in front of the index, the padding and the
placed records, the first page being blank until the last step. -/
theorem writeSnapshot_run (sha256 : Sha256) (hd : h.dataOffset.toNat = 4096 + index.length + p)
    (hsz : 4096 + index.length + p + 320 * rs.length < 2 ^ 64)
    (hslot : ∀ r ∈ rs, ∃ j < rs.length, m.get ph r.1 = some j)
    (ho : env.openOutput = none) (hs : env.setLen = none) (hm : env.mapMut = none) (s : Output) :
    ∃ g log, writeSnapshot ph sha256 env m index h rs.length rs s =
        (Build.call env.flush "Failed to flush mmap", ⟨some g, s.log ++ log ++ [(.header, g)]⟩) ∧
      g.bytes = { h with checksum := sha256 ((place (m.get ph)
          (List.replicate rs.length blankPair) rs).map pairBytes).flatten }.toBytes ++ index ++
        List.replicate p 0 ++ ((place (m.get ph)
          (List.replicate rs.length blankPair) rs).map pairBytes).flatten ∧
      (∀ e ∈ log, Blank e.2) ∧ log.map Prod.fst = buildSteps (0 < p) rs.length := by
  have htotal : wrappingAdd (4096 + index.length + p) (wrappingMul rs.length recordSize) =
      4096 + index.length + p + 320 * rs.length := by
    rw [KvStore.offset_eq, Nat.mod_eq_of_lt hsz]
  have hb₀ := bytes_created hsz
  generalize hf₀ : File.empty.setLen
    (UInt64.ofNat (4096 + index.length + p + 320 * rs.length)) = f₀ at hb₀
  obtain ⟨f₁, log₁, h₁, hb₁, hl₁, hs₁⟩ := writeIndex_run index hb₀ List.length_replicate
    List.length_replicate ⟨some f₀, s.log ++ [(.truncate, File.empty), (.setLen, f₀)]⟩
  rw [List.length_replicate] at h₁ hb₁ hs₁
  have hpre : (List.replicate 4096 0 ++ index ++ List.replicate p 0).length =
      4096 + index.length + p := by
    simp only [List.length_append, List.length_replicate]
  obtain ⟨f₂, log₂, h₂, hb₂, hl₂, hs₂⟩ := writeRecords_run hb₁ hpre (by omega)
    (by rwa [List.length_replicate]) 0
    ⟨some f₁, s.log ++ [(.truncate, File.empty), (.setLen, f₀)] ++ log₁⟩ rfl
  have hlen₂ : f₂.len = 4096 + index.length + p + 320 * rs.length := by
    rw [File.len, hb₂, List.length_append, hpre, length_cells, length_place, List.length_replicate]
  have hdata : f₂.bytes.drop (4096 + index.length + p) =
      ((place (m.get ph) (List.replicate rs.length blankPair) rs).map pairBytes).flatten := by
    rw [hb₂, List.drop_left' hpre]
  simp only [List.append_assoc] at hb₂
  obtain ⟨g, h₃, hb₃⟩ := writeHeader_run h hb₂ List.length_replicate
    (by omega : 4096 + index.length + p ≤ f₂.len)
    ⟨some f₂, s.log ++ [(.truncate, File.empty), (.setLen, f₀)] ++ log₁ ++ log₂⟩
  have ht : (List.replicate 4096 (0 : UInt8) ++ index ++ List.replicate p 0).take 4096 =
      List.replicate 4096 0 := by
    rw [List.append_assoc, List.take_left' List.length_replicate]
  refine ⟨g, [(.truncate, File.empty), (.setLen, f₀)] ++ log₁ ++ log₂, ?_, ?_, ?_, ?_⟩
  · rw [writeSnapshot]
    simp only [hd, htotal]
    rw [Eff.bind_of_ok (createOutput_run ho hs hm _ s), hf₀, Eff.bind_of_ok h₁, Eff.bind_of_ok h₂,
      Eff.bind_of_ok h₃, Eff.liftM_apply]
    simp only [List.append_assoc]
  · rw [hb₃, hdata]
    simp only [List.append_assoc]
  · have hb : f₀.bytes.take 4096 = List.replicate 4096 0 := by
      rw [hb₀, List.append_assoc, List.append_assoc, List.take_left' List.length_replicate]
    simp only [List.mem_append, List.mem_cons, List.not_mem_nil, or_false]
    rintro e (((rfl | rfl) | he) | he)
    · exact nofun
    · exact blank_of_take hb
    · exact blank_of_take (hl₁ e he)
    · exact blank_of_take ((hl₂ e he).trans ht)
  · simp only [List.map_append, hs₁, hs₂, buildSteps]
    simp

end SnapshotBuilder

/-- A build in which creating the file succeeds writes the snapshot of its records; until its last
step the first page of the output is blank. -/
theorem build_bytes (sha256 : Sha256) (env : BuildEnv) (hne : rs ≠ [])
    (hi : ph.Builds (rs.map Prod.fst) fn image)
    (hsz : 4096 + (8 + image.length) + 4095 + 320 * rs.length < 2 ^ 64)
    (ht : env.now = some t) (ho : env.openOutput = none) (hs : env.setLen = none)
    (hm : env.mapMut = none) (s : Output) :
    ∃ g log, (SnapshotBuilder.ofRecords rs).build ph sha256 env s =
        (Build.call env.flush "Failed to flush mmap", ⟨some g, s.log ++ log ++ [(.header, g)]⟩) ∧
      g.bytes = snapshotBytes (snapshotHeader sha256 t image (snapshotCells ph fn rs))
        (indexBytes rs.length image) (snapshotCells ph fn rs) ∧
      (∀ e ∈ log, Blank e.2) ∧
      log.map Prod.fst = buildSteps (¬ 4096 ∣ 8 + image.length) rs.length := by
  have hD := dataOffset_eq (UInt64.ofNat rs.length) t (by omega : _ + (8 + image.length) + _ < _)
  obtain ⟨p, hp⟩ : ∃ p, (4096 + (8 + image.length) + 4095) / 4096 * 4096 =
      4096 + (8 + image.length) + p := ⟨_, (Nat.add_sub_cancel' (by omega)).symm⟩
  rw [hp] at hD
  have hl : (indexBytes rs.length image).length = 8 + image.length := length_indexBytes _
  have hd : (Header.new (UInt64.ofNat rs.length) (UInt64.ofNat (8 + image.length))
      t).dataOffset.toNat = 4096 + (indexBytes rs.length image).length + p := by rw [hD, hl]
  obtain ⟨g, log, hrun, hb, hblank, hsteps⟩ := SnapshotBuilder.writeSnapshot_run sha256
    hd (by omega) hi.exists_slot ho hs hm s
  refine ⟨g, log, ?_, ?_, hblank, ?_⟩
  · rw [SnapshotBuilder.build_of_builds hne hi, ht, expect_some, Eff.liftM_exec_bind rfl, hrun]
  · have hpad : (snapshotHeader sha256 t image (snapshotCells ph fn rs)).dataOffset.toNat -
        (4096 + (indexBytes rs.length image).length) = p := by
      rw [snapshotHeader, length_snapshotCells, hd, Nat.add_sub_cancel_left]
    rw [hb, snapshotBytes, hpad, snapshotHeader, length_snapshotCells]
    rfl
  · have hpad : 0 < p ↔ ¬ 4096 ∣ 8 + image.length := by omega
    rw [hsteps]
    simp only [buildSteps, hpad]

theorem build_faultless (sha256 : Sha256) (t : UInt64) (hne : rs ≠ [])
    (hi : ph.Indexes (rs.map Prod.fst) fn image)
    (hsz : 4096 + (8 + image.length) + 4095 + 320 * rs.length < 2 ^ 64) (old : Option File) :
    ∃ g log, (SnapshotBuilder.ofRecords rs).build ph sha256 (.faultless t) ⟨old, []⟩ =
        (.ok (), ⟨some g, log ++ [(.header, g)]⟩) ∧
      IsSnapshot ph sha256 t rs fn image g ∧ (∀ e ∈ log, Blank e.2) ∧
      log.map Prod.fst = buildSteps (¬ 4096 ∣ 8 + image.length) rs.length := by
  obtain ⟨g, log, hrun, hb, hblank, hsteps⟩ :=
    build_bytes sha256 (.faultless t) hne hi.builds hsz rfl rfl rfl rfl ⟨old, []⟩
  exact ⟨g, log, hrun, ⟨hi, hsz, hb⟩, hblank, hsteps⟩

/-- Whatever the operating system answers, a build that succeeds wrote the snapshot. -/
theorem bytes_of_build_ok {s s' : Output} (hi : ph.Builds (rs.map Prod.fst) fn image)
    (hsz : 4096 + (8 + image.length) + 4095 + 320 * rs.length < 2 ^ 64)
    (h : (SnapshotBuilder.ofRecords rs).build ph sha256 env s = (.ok (), s')) :
    ∃ t g, env.now = some t ∧ s'.content = some g ∧
      g.bytes = snapshotBytes (snapshotHeader sha256 t image (snapshotCells ph fn rs))
        (indexBytes rs.length image) (snapshotCells ph fn rs) := by
  have hne : rs ≠ [] := by
    rintro rfl
    exact nomatch h
  have hb := h
  rw [SnapshotBuilder.build_of_builds hne hi] at hb
  obtain ⟨t, _, ht, hb⟩ := Eff.bind_eq_ok_iff.mp hb
  obtain ⟨_, _, hc, _⟩ := Eff.bind_eq_ok_iff.mp hb
  obtain ⟨ho, hs, hm⟩ := SnapshotBuilder.createOutput_ok hc
  cases hnow : env.now with
  | none =>
    rw [hnow] at ht
    cases ht
  | some t' =>
    obtain ⟨g, log, hrun, hg, _⟩ := build_bytes sha256 env hne hi hsz hnow ho hs hm s
    rw [hrun] at h
    have hs' : _ = s' := congrArg Prod.snd h
    exact ⟨t', g, rfl, by rw [← hs'], hg⟩

theorem exists_isSnapshot_of_build {s s' : Output} (hi : ph.Indexes (rs.map Prod.fst) fn image)
    (hsz : 4096 + (8 + image.length) + 4095 + 320 * rs.length < 2 ^ 64)
    (h : (SnapshotBuilder.ofRecords rs).build ph sha256 env s = (.ok (), s'))
    (hg : s'.content = some g) : ∃ t, env.now = some t ∧ IsSnapshot ph sha256 t rs fn image g := by
  obtain ⟨t, g', ht, hc, hb⟩ := bytes_of_build_ok hi.builds hsz h
  obtain rfl := Option.some.inj (hc.symm.trans hg)
  exact ⟨t, ht, hi, hsz, hb⟩

end LowLatencyKv
