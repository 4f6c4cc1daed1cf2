import Mathlib.Order.Bounds.Basic
import LowLatencyKv.Rust.Tiles
import LowLatencyKv.Builder.RoundTrip
import LowLatencyKv.Builder.TestSnapshot

/-! # The writes of a build

Behind the creation of its file a build only makes writes: index, padding, key and
value of each record as it was added, and at last the header. In slot order they
tile the file, so the scattered writes leave what writing sequentially leaves.
-/

namespace LowLatencyKv

open Rust Tables

/-- The index, and zeros up to the data section unless it ends there. -/
def indexWrites (index : List UInt8) (dataOffset : ℕ) : List (BuildStep × Write) :=
  (.index, ⟨4096, index⟩) ::
    if 4096 + index.length < dataOffset then
      [(.padding, ⟨4096 + index.length, List.replicate (dataOffset - (4096 + index.length)) 0⟩)]
    else []

/-- Key and value of a record, in the slot of its key. -/
def pairWrites (slot : Key → Option ℕ) (dataOffset : ℕ) (r : Key × Value) : List Write :=
  match slot r.1 with
  | some j => [⟨dataOffset + 320 * j, r.1.toList⟩, ⟨dataOffset + 320 * j + 64, r.2.toList⟩]
  | none => []

def recordWrites (slot : Key → Option ℕ) (dataOffset i : ℕ) :
    List (Key × Value) → List (BuildStep × Write)
  | [] => []
  | r :: rs => [.key i, .value i].zip (pairWrites slot dataOffset r) ++
      recordWrites slot dataOffset (i + 1) rs

def headerWrites (h : Header) : List (BuildStep × Write) := [(.header, ⟨0, h.toBytes⟩)]

/-- The writes of a build in program order; `h` is the header with its checksum. -/
def buildWrites (slot : Key → Option ℕ) (index : List UInt8) (h : Header)
    (rs : List (Key × Value)) : List (BuildStep × Write) :=
  indexWrites index h.dataOffset.toNat ++ recordWrites slot h.dataOffset.toNat 0 rs ++
    headerWrites h

/-- The output file before the first write. -/
def createdFile (totalSize : ℕ) : File := File.empty.setLen (UInt64.ofNat totalSize)

namespace SnapshotBuilder

/-- Makes the writes, each one a step of the build. -/
def perform : List (BuildStep × Write) → File → Build File
  | [], mmap => pure mmap
  | (step, w) :: ws, mmap => do
    let mmap ← w.copy mmap
    let mmap ← Build.put step mmap
    perform ws mmap

end SnapshotBuilder

variable {Fn : Type} {ph : Ph Fn} {sha256 : Sha256} {env : BuildEnv} {m : Mphf Fn} {f g : File}
  {index : List UInt8} {d i j : ℕ} {r : Key × Value} {rs cells : List (Key × Value)} {h : Header}
  {slot : Key → Option ℕ} {ws ws' : List (BuildStep × Write)} {s s' : Output}

namespace SnapshotBuilder

theorem perform_cons (step : BuildStep) (w : Write) :
    perform ((step, w) :: ws) f s =
      match w.copy f with
      | .ok g => perform ws g ⟨some g, s.log ++ [(step, g)]⟩
      | .panic => (.panic, s) := by
  rw [perform]
  rcases w.copy f with g | e | _
  · rfl
  · exact e.elim
  · rfl

theorem perform_append (f : File) :
    perform (ws ++ ws') f = perform ws f >>= fun g => perform ws' g := by
  induction ws generalizing f with
  | nil => rfl
  | cons w ws ih =>
    obtain ⟨step, w⟩ := w
    funext s
    rw [List.cons_append, perform_cons, Eff.bind_apply, perform_cons]
    rcases w.copy f with g | e | _
    · simp only [ih, Eff.bind_apply]
    · exact e.elim
    · rfl

theorem perform_ok (hp : perform ws f s = (.ok g, s')) (hs : s.content = some f) :
    ∃ gs, Performs f (ws.map Prod.snd) gs ∧ s'.content = some g ∧
      s'.log = s.log ++ (ws.map Prod.fst).zip gs := by
  induction ws generalizing f s with
  | nil =>
    cases hp
    exact ⟨[], .nil _, hs, (List.append_nil _).symm⟩
  | cons w ws ih =>
    obtain ⟨step, w⟩ := w
    rw [perform_cons] at hp
    rcases hw : w.copy f with g₁ | e | _
    · rw [hw] at hp
      obtain ⟨gs, hgs, hc, hlog⟩ := ih hp rfl
      refine ⟨g₁ :: gs, .cons hw hgs, hc, ?_⟩
      rw [hlog]
      simp
    · exact e.elim
    · rw [hw] at hp
      exact nomatch hp

theorem put_bind_pure (step : BuildStep) (f : File) :
    (Build.put step f >>= fun g => pure g) = Build.put step f := rfl

theorem writeIndex_eq (hlt : 4096 + index.length < 2 ^ 64) :
    writeIndex index d f = perform (indexWrites index d) f := by
  have hw : wrappingAdd headerSize index.length = 4096 + index.length := wrappingAdd_of_lt hlt
  rw [writeIndex, hw, indexWrites, perform]
  congr 1
  funext f₁
  congr 1
  funext f₂
  split
  · next hpad =>
    have hfill : f₂.fillSlice (4096 + index.length) d 0 = Write.copy
        ⟨4096 + index.length, List.replicate (d - (4096 + index.length)) 0⟩ f₂ := by
      rw [File.fillSlice, if_pos hpad.le, Write.copy, Write.stop, List.length_replicate,
        Nat.add_sub_cancel' hpad.le]
    rw [hfill]
    rfl
  · rfl

theorem writeRecord_eq (hj : m.get ph r.1 = some j) (hlt : d + 320 * j + 320 < 2 ^ 64) :
    writeRecord ph m d f i r =
      perform ([.key i, .value i].zip (pairWrites (m.get ph) d r)) f := by
  have ho : wrappingAdd d (wrappingMul j recordSize) = d + 320 * j := by
    rw [KvStore.offset_eq, Nat.mod_eq_of_lt (by omega)]
  have hk : wrappingAdd (d + 320 * j) keySize = d + 320 * j + 64 :=
    wrappingAdd_of_lt (by simp only [keySize]; omega)
  have hr : wrappingAdd (d + 320 * j) recordSize = d + 320 * j + 320 :=
    wrappingAdd_of_lt (by simp only [recordSize, keySize, valueSize]; omega)
  have hkey : Write.stop ⟨d + 320 * j, r.1.toList⟩ = d + 320 * j + 64 := by
    rw [Write.stop, r.1.length_toList]
  have hvalue : Write.stop ⟨d + 320 * j + 64, r.2.toList⟩ = d + 320 * j + 320 := by
    rw [Write.stop, r.2.length_toList]
    rfl
  unfold writeRecord
  rw [pairWrites, hj, expect_some, Eff.liftM_exec_bind rfl, ho]
  simp only [hk, hr, List.zip_cons_cons, List.zip_nil_right, perform, Write.copy, hkey, hvalue,
    put_bind_pure]

theorem writeRecords_eq {n : ℕ} (hj : ∀ r ∈ rs, ∃ j < n, m.get ph r.1 = some j)
    (hlt : d + 320 * n < 2 ^ 64) :
    writeRecords ph m d f i rs = perform (recordWrites (m.get ph) d i rs) f := by
  induction rs generalizing f i with
  | nil => rfl
  | cons r rs ih =>
    obtain ⟨j, hlt', hr⟩ := hj r (by simp)
    unfold writeRecords
    rw [writeRecord_eq hr (by omega), recordWrites, perform_append]
    congr 1
    funext f₁
    exact ih fun r' hr' => hj r' (List.mem_cons_of_mem _ hr')

theorem perform_headerWrites (hc : f.copyFromSlice 0 headerSize h.toBytes = .ok g) :
    perform (headerWrites h) f s = (.ok g, ⟨some g, s.log ++ [(.header, g)]⟩) := by
  have hw : Write.copy ⟨0, h.toBytes⟩ f = .ok g := by
    rw [Write.copy, Write.stop, Header.length_toBytes, Nat.zero_add]
    exact hc
  unfold headerWrites
  rw [perform_cons, hw]
  rfl

/-- A successful build makes its writes on the created file and nothing else. -/
theorem writeSnapshot_ok {n : ℕ}
    (hw : writeSnapshot ph sha256 env m index h n rs s = (.ok (), s'))
    (hlt : 4096 + index.length < 2 ^ 64) (hj : ∀ r ∈ rs, ∃ j < n, m.get ph r.1 = some j)
    (hd : h.dataOffset.toNat + 320 * n < 2 ^ 64) :
    ∃ data g rest gs, s'.content = some g ∧
      g.bytes = { h with checksum := sha256 data }.toBytes ++ rest ∧
      Performs (createdFile (h.dataOffset.toNat + 320 * n))
        ((buildWrites (m.get ph) index { h with checksum := sha256 data } rs).map Prod.snd) gs ∧
      s'.log = s.log ++ (.truncate, File.empty) ::
        (.setLen, createdFile (h.dataOffset.toNat + 320 * n)) ::
        ((buildWrites (m.get ph) index { h with checksum := sha256 data } rs).map
          Prod.fst).zip gs := by
  have htotal : wrappingAdd h.dataOffset.toNat (wrappingMul n recordSize) =
      h.dataOffset.toNat + 320 * n := by
    rw [KvStore.offset_eq, Nat.mod_eq_of_lt hd]
  rw [writeSnapshot] at hw
  simp only [htotal] at hw
  obtain ⟨f₀, s₀, h₀, hw⟩ := Eff.bind_eq_ok_iff.mp hw
  obtain ⟨f₁, s₁, h₁, hw⟩ := Eff.bind_eq_ok_iff.mp hw
  obtain ⟨f₂, s₂, h₂, hw⟩ := Eff.bind_eq_ok_iff.mp hw
  obtain ⟨g, s₃, h₃, hw⟩ := Eff.bind_eq_ok_iff.mp hw
  obtain rfl : s₃ = s' := congrArg Prod.snd hw
  obtain ⟨ho, hs, hm⟩ := createOutput_ok h₀
  rw [createOutput_run ho hs hm] at h₀
  obtain rfl : createdFile (h.dataOffset.toNat + 320 * n) = f₀ :=
    Outcome.ok.inj (congrArg Prod.fst h₀)
  have hs₀ := (congrArg Prod.snd h₀).symm
  simp only [] at hs₀
  obtain ⟨data, hcopy, rfl, hb⟩ := writeHeader_ok h₃
  have hrun : perform (buildWrites (m.get ph) index { h with checksum := sha256 data } rs)
      (createdFile (h.dataOffset.toNat + 320 * n)) s₀ =
        (.ok g, ⟨some g, s₂.log ++ [(.header, g)]⟩) := by
    rw [writeIndex_eq hlt] at h₁
    rw [writeRecords_eq hj hd] at h₂
    unfold buildWrites
    rw [perform_append, perform_append, Eff.bind_of_ok ((Eff.bind_of_ok h₁).trans h₂)]
    exact perform_headerWrites hcopy
  obtain ⟨gs, hgs, hc, hlog⟩ := perform_ok hrun (congrArg Output.content hs₀)
  refine ⟨data, g, _, gs, hc, hb, hgs, ?_⟩
  rw [hlog, hs₀, createdFile]
  simp only [List.append_assoc, List.cons_append, List.nil_append]

end SnapshotBuilder

theorem map_snd_recordWrites (slot : Key → Option ℕ) (d i : ℕ) (rs : List (Key × Value)) :
    (recordWrites slot d i rs).map Prod.snd = rs.flatMap (pairWrites slot d) := by
  induction rs generalizing i with
  | nil => rfl
  | cons r rs ih =>
    unfold recordWrites
    rw [List.map_append, ih, List.flatMap_cons]
    congr 1
    apply List.map_snd_zip
    unfold pairWrites
    split <;> simp

theorem tiles_indexWrites (hd : 4096 + index.length ≤ d) :
    Tiles ((indexWrites index d).map Prod.snd) 4096 d := by
  rw [indexWrites]
  split
  · refine ⟨rfl, rfl, ?_⟩
    change 4096 + index.length + (List.replicate _ _).length = d
    rw [List.length_replicate]
    omega
  · refine ⟨rfl, ?_⟩
    change 4096 + index.length = d
    omega

theorem tiles_pairWrites (hj : slot r.1 = some j) :
    Tiles (pairWrites slot d r) (d + 320 * j) (d + 320 * (j + 1)) := by
  unfold pairWrites
  rw [hj]
  refine ⟨rfl, ?_, ?_⟩
  · rw [Write.stop, r.1.length_toList]
  · change d + 320 * j + 64 + r.2.toList.length = d + 320 * (j + 1)
    rw [r.2.length_toList, valueSize]
    omega

theorem tiles_cells (hc : ∀ j r, cells[j]? = some r → slot r.1 = some (i + j)) :
    Tiles (cells.flatMap (pairWrites slot d)) (d + 320 * i) (d + 320 * (i + cells.length)) := by
  induction cells generalizing i with
  | nil => rfl
  | cons r cells ih =>
    have htail : ∀ j r', cells[j]? = some r' → slot r'.1 = some (i + 1 + j) := by
      intro j r' hr'
      rw [Nat.add_right_comm, Nat.add_assoc]
      exact hc (j + 1) r' hr'
    have hlen : i + (r :: cells).length = i + 1 + cells.length := by
      rw [List.length_cons]
      omega
    rw [List.flatMap_cons, hlen]
    exact (tiles_pairWrites (hc 0 r rfl)).append (ih htail)

/-- The writes of a build are those of the slot order, made in another order. -/
theorem buildWrites_perm (h : Header) (hp : cells.Perm rs) :
    ((buildWrites slot index h rs).map Prod.snd).Perm
      (((headerWrites h).map Prod.snd ++ (indexWrites index h.dataOffset.toNat).map Prod.snd) ++
        cells.flatMap (pairWrites slot h.dataOffset.toNat)) := by
  unfold buildWrites
  rw [List.map_append, List.map_append, map_snd_recordWrites]
  refine List.perm_append_comm.trans ?_
  rw [← List.append_assoc]
  exact (hp.symm.flatMap_right _).append_left _

theorem partition_buildWrites (hd : 4096 + index.length ≤ h.dataOffset.toNat)
    (hp : cells.Perm rs) (hc : ∀ j r, cells[j]? = some r → slot r.1 = some j) :
    Partition ((buildWrites slot index h rs).map Prod.snd)
      (h.dataOffset.toNat + 320 * rs.length) := by
  have hheader : Tiles ((headerWrites h).map Prod.snd) 0 4096 :=
    ⟨rfl, (Nat.zero_add _).trans h.length_toBytes⟩
  have hcells := tiles_cells (i := 0) (d := h.dataOffset.toNat) (by simpa using hc)
  rw [Nat.mul_zero, Nat.add_zero, Nat.zero_add, hp.length_eq] at hcells
  exact ((hheader.append (tiles_indexWrites hd)).append hcells).partition (buildWrites_perm h hp)

variable {fn : Fn} {image : List UInt8} {t : UInt64}

theorem isLeast_dataOffset (hsz : 4096 + (8 + image.length) + 4095 < 2 ^ 64) (n : UInt64) :
    IsLeast {d | 4096 ∣ d ∧ 4096 + (8 + image.length) ≤ d}
      (Header.new n (UInt64.ofNat (8 + image.length)) t).dataOffset.toNat := by
  rw [dataOffset_eq n t hsz]
  refine ⟨⟨Nat.dvd_mul_left _ _, by omega⟩, ?_⟩
  rintro d ⟨⟨q, rfl⟩, hle⟩
  omega

/-- The contents in `log` come from writes that partition `g`, and `g` holds header, index, padding
and the records in slot order. -/
structure ScatteredLayout (slot : Key → Option ℕ) (index : List UInt8) (header : Header)
    (rs cells : List (Key × Value)) (g : File) (log : List (BuildStep × File)) : Prop where
  performs : ∃ gs, Performs (createdFile g.len)
      ((buildWrites slot index header rs).map Prod.snd) gs ∧
    log = (.truncate, File.empty) :: (.setLen, createdFile g.len) ::
      ((buildWrites slot index header rs).map Prod.fst).zip gs
  partition : Partition ((buildWrites slot index header rs).map Prod.snd) g.len
  dataOffset_isLeast : IsLeast {d | 4096 ∣ d ∧ 4096 + index.length ≤ d} header.dataOffset.toNat
  cells_perm : cells.Perm rs
  slot_eq : ∀ i k v, cells[i]? = some (k, v) → slot k = some i
  bytes_eq : g.bytes = snapshotBytes header index cells

/-- A build of distinct records scatters them over the cells of their layout. -/
theorem scatteredLayout_of_build {old : Option File} {log : List (BuildStep × File)}
    (hd : (rs.map Prod.fst).Nodup) (hi : ph.Builds (rs.map Prod.fst) fn image)
    (hsz : 4096 + (8 + image.length) + 4095 + 320 * rs.length < 2 ^ 64)
    (hrun : (SnapshotBuilder.ofRecords rs).build ph sha256 (.faultless t) ⟨old, []⟩ =
      (.ok (), ⟨some g, log⟩))
    (hg : HasLayout g (snapshotHeader sha256 t image (snapshotCells ph fn rs))
      (indexBytes rs.length image) (snapshotCells ph fn rs)) :
    ScatteredLayout ((Mphf.mk fn rs.length).get ph) (indexBytes rs.length image)
      (snapshotHeader sha256 t image (snapshotCells ph fn rs)) rs (snapshotCells ph fn rs) g
      log := by
  have hne : rs ≠ [] := by
    rintro rfl
    exact nomatch hrun
  have hl : (indexBytes rs.length image).length = 8 + image.length := length_indexBytes _
  have hnew : snapshotHeader sha256 t image (snapshotCells ph fn rs) =
      { Header.new (UInt64.ofNat rs.length) (UInt64.ofNat (8 + image.length)) t with
        checksum := sha256 ((snapshotCells ph fn rs).map pairBytes).flatten } := by
    unfold snapshotHeader
    rw [length_snapshotCells]
  have hoffset : (snapshotHeader sha256 t image (snapshotCells ph fn rs)).dataOffset =
      (Header.new (UInt64.ofNat rs.length) (UInt64.ofNat (8 + image.length)) t).dataOffset := by
    rw [hnew]
  have hlen := hg.len_eq
  rw [length_snapshotCells, hoffset] at hlen
  have hw := hrun
  rw [SnapshotBuilder.build_of_builds hne hi, BuildEnv.faultless, expect_some,
    Eff.liftM_exec_bind rfl] at hw
  obtain ⟨data, g', rest, gs, hc, hgb, hgs, hlog⟩ :=
    SnapshotBuilder.writeSnapshot_ok hw (by omega) hi.exists_slot (hlen ▸ g.len_lt)
  obtain rfl : g = g' := Option.some.inj hc
  -- The header that was written last is the first page of the file.
  have hheader := hg.parse_eq
  rw [hgb, Header.parse_toBytes] at hheader
  rw [hheader, ← hlen] at hgs hlog
  constructor
  case performs => exact ⟨gs, hgs, hlog⟩
  case partition =>
    rw [hlen, ← hoffset]
    exact partition_buildWrites hg.index_le (snapshotCells_perm hi hd)
      fun j r => slot_of_getElem?_snapshotCells hi hd
  case dataOffset_isLeast =>
    rw [hl, hoffset]
    exact isLeast_dataOffset (by omega) _
  case cells_perm => exact snapshotCells_perm hi hd
  case slot_eq => exact fun i k v => slot_of_getElem?_snapshotCells hi hd
  case bytes_eq => exact hg.bytes_eq

/-- Building distinct records leaves, by scattered writes, the file that the sequential writer makes
of the same records, but for the checksum. -/
theorem scattered_eq_sequential (sha256 : Sha256) (t : UInt64) (hne : rs ≠ [])
    (hd : (rs.map Prod.fst).Nodup) (hi : ph.Builds (rs.map Prod.fst) fn image)
    (hsz : 4096 + (8 + image.length) + 4095 + 320 * rs.length < 2 ^ 64) (old : Option File) :
    ∃ header cells g log f,
      (SnapshotBuilder.ofRecords rs).build ph sha256 (.faultless t) ⟨old, []⟩ =
        (.ok (), ⟨some g, log⟩) ∧
      ScatteredLayout ((Mphf.mk fn rs.length).get ph) (indexBytes rs.length image) header rs cells
        g log ∧
      header = { Header.new (UInt64.ofNat rs.length) (UInt64.ofNat (8 + image.length)) t with
        checksum := sha256 (cells.map pairBytes).flatten } ∧
      writeSequentially ph (some t) (rs.map Prod.fst) (rs.map Prod.snd) = .ok f ∧
      f.bytes = snapshotBytes { header with checksum := Arr.replicate checksumSize 0 }
        (indexBytes rs.length image) cells := by
  obtain ⟨g, log, hrun, hb, _⟩ :=
    build_bytes sha256 (.faultless t) hne hi hsz rfl rfl rfl rfl ⟨old, []⟩
  obtain ⟨f, hf, hfb⟩ := writeSequentially_run (t := t) hne hi hsz
  have hlayout := scatteredLayout_of_build hd hi hsz hrun (hasLayout_of_bytes_eq hsz hb)
  refine ⟨_, snapshotCells ph fn rs, g, _, f, hrun, hlayout, ?_, hf, ?_⟩
  · unfold snapshotHeader
    rw [length_snapshotCells]
  · rw [hfb, snapshotHeader, length_snapshotCells]
    rfl

theorem scattered_eq_sequential_two :
    ∃ header cells g log f,
      (SnapshotBuilder.ofRecords twoRecords).build listIndex twoDigest (.faultless 7)
        ⟨none, []⟩ = (.ok (), ⟨some g, log⟩) ∧
      ScatteredLayout ((Mphf.mk twoKeys twoRecords.length).get listIndex)
        (indexBytes twoRecords.length (ListIndex.write twoKeys)) header twoRecords cells g log ∧
      header = { Header.new (UInt64.ofNat twoRecords.length)
          (UInt64.ofNat (8 + (ListIndex.write twoKeys).length)) 7 with
        checksum := twoDigest (cells.map pairBytes).flatten } ∧
      writeSequentially listIndex (some 7) (twoRecords.map Prod.fst) (twoRecords.map Prod.snd) =
        .ok f ∧
      f.bytes = snapshotBytes { header with checksum := Arr.replicate checksumSize 0 }
        (indexBytes twoRecords.length (ListIndex.write twoKeys)) cells :=
  scattered_eq_sequential twoDigest 7 (by decide) twoKeys_nodup twoRecords_indexes.builds
    twoRecords_size none

end LowLatencyKv
