import LowLatencyKv.Builder.Layout
import LowLatencyKv.Store.ListIndex

/-! # Reading a snapshot back

The store opened from a snapshot has the placed records as its table. With
distinct keys it represents the finite map of the records.
-/

namespace LowLatencyKv

open Rust Tables

variable {Fn : Type} {ph : Ph Fn} {sha256 : Sha256} {t : UInt64} {rs : List (Key × Value)}
  {fn : Fn} {image : List UInt8} {g : File} {cells : List (Key × Value)} {pre : List UInt8} {a : ℕ}

theorem pairAt_cells (ha : pre.length = a) {i : ℕ} (hi : i < cells.length) :
    pairAt (pre ++ (cells.map pairBytes).flatten) (a + 320 * i) = cells[i] := by
  have hl : a + 320 * i + 320 ≤ (pre ++ (cells.map pairBytes).flatten).length := by
    rw [List.length_append, length_cells]
    omega
  have hi' : i < (cells.map pairBytes).length := by rwa [List.length_map]
  apply pairBytes_injective
  rw [pairBytes_pairAt hl, sub_append_right _ (by omega), ha, Nat.add_sub_cancel_left,
    Nat.add_assoc, Nat.add_sub_cancel_left, sub_flatten length_of_mem_pairBytes i hi',
    List.getElem_map]

theorem pairs_cells (cells : List (Key × Value)) (ha : pre.length = a) :
    pairs (pre ++ (cells.map pairBytes).flatten) a cells.length = cells := by
  apply List.ext_getElem (by simp)
  intro i hi hi'
  rw [List.getElem_eq_iff, getElem?_pairs hi', pairAt_cells ha hi']

/-- The store is the finite map of the records: it finds exactly them, and iterates over them. -/
structure KvStore.Represents (ph : Ph Fn) (s : KvStore Fn) (rs : List (Key × Value)) : Prop where
  len_eq : s.len = rs.length
  get_iff : ∀ k, ∃ r, s.get ph k = .ok r ∧ ∀ v, r = some v ↔ (k, v) ∈ rs
  iter_perm : ∃ l, s.iter = .ok l ∧ l.Perm rs

/-- A file of a header, an index, padding and cells, whose header gives their sizes and places. -/
structure HasLayout (g : File) (h : Header) (index : List UInt8) (cells : List (Key × Value)) :
    Prop where
  bytes_eq : g.bytes = snapshotBytes h index cells
  recordCount_toNat : h.recordCount.toNat = cells.length
  mphfSize_toNat : h.mphfSize.toNat = index.length
  index_le : 4096 + index.length ≤ h.dataOffset.toNat

namespace HasLayout

variable {h : Header} {index : List UInt8} (hg : HasLayout g h index cells)

include hg

theorem parse_eq : Header.parse g.bytes = h := by
  rw [hg.bytes_eq, snapshotBytes, List.append_assoc, List.append_assoc, Header.parse_toBytes]

theorem exists_pre : ∃ pre, g.bytes = pre ++ (cells.map pairBytes).flatten ∧
    pre.length = h.dataOffset.toNat := by
  have hi := hg.index_le
  refine ⟨_, hg.bytes_eq, ?_⟩
  simp only [List.length_append, Header.length_toBytes, List.length_replicate, headerSize]
  omega

theorem len_eq : g.len = h.dataOffset.toNat + 320 * cells.length := by
  obtain ⟨pre, hb, hp⟩ := hg.exists_pre
  rw [File.len, hb, List.length_append, hp, length_cells]

theorem drop_dataOffset : g.bytes.drop h.dataOffset.toNat = (cells.map pairBytes).flatten := by
  obtain ⟨pre, hb, hp⟩ := hg.exists_pre
  rw [hb, List.drop_left' hp]

theorem cells_eq (fn : Fn) : (KvStore.ofFile g fn).cells = cells := by
  obtain ⟨pre, hb, hp⟩ := hg.exists_pre
  have hc := pairs_cells cells hp
  rw [← hb] at hc
  simp only [KvStore.cells, KvStore.ofFile, hg.parse_eq, hg.recordCount_toNat, hc]

theorem inBounds (fn : Fn) : (KvStore.ofFile g fn).InBounds := by
  refine KvStore.inBounds_iff.mpr (Or.inr ?_)
  simp only [KvStore.ofFile, hg.parse_eq, hg.recordCount_toNat, hg.len_eq]
  exact Nat.le_refl _

theorem accepts (hv : h.validate = .ok ()) (hi : index = indexBytes cells.length image)
    (hr : ph.read image = .ok fn) : Accepts ph g fn := by
  have hm := hg.mphfSize_toNat
  have hs := hg.len_eq
  rw [hi, length_indexBytes] at hm
  have hc : h.recordCount = UInt64.ofNat cells.length := by
    rw [← hg.recordCount_toNat, UInt64.ofNat_toNat]
  have hf : g.bytes = h.toBytes ++ (toLeBytes h.recordCount ++ image) ++
      (List.replicate (h.dataOffset.toNat - (4096 + index.length)) 0 ++
        (cells.map pairBytes).flatten) := by
    rw [hg.bytes_eq, snapshotBytes, hi, indexBytes, hc]
    simp only [List.append_assoc]
  refine accepts_of_layout hf hv hm hr ?_
  rw [KvStore.offset_eq, hg.recordCount_toNat, hs]
  exact Nat.mod_le _ _

end HasLayout

theorem validate_snapshotHeader (hn : cells.length ≤ 10000000000) :
    (snapshotHeader sha256 t image cells).validate = .ok () := by
  refine Header.validate_eq_ok_iff.mpr ⟨rfl, rfl, ?_⟩
  have hc : (UInt64.ofNat cells.length).toNat = cells.length :=
    UInt64.toNat_ofNat_of_lt' (by omega : _ < 2 ^ 64)
  rw [UInt64.le_iff_toNat_le]
  exact hc.trans_le hn

theorem hasLayout_of_bytes_eq (hsz : 4096 + (8 + image.length) + 4095 + 320 * rs.length < 2 ^ 64)
    (hb : g.bytes = snapshotBytes (snapshotHeader sha256 t image (snapshotCells ph fn rs))
      (indexBytes rs.length image) (snapshotCells ph fn rs)) :
    HasLayout g (snapshotHeader sha256 t image (snapshotCells ph fn rs))
      (indexBytes rs.length image) (snapshotCells ph fn rs) := by
  have hd := dataOffset_eq (UInt64.ofNat rs.length) t (by omega : _ + (8 + image.length) + _ < _)
  constructor
  case bytes_eq => exact hb
  case recordCount_toNat =>
    rw [snapshotHeader, length_snapshotCells]
    exact UInt64.toNat_ofNat_of_lt' (by omega : _ < 2 ^ 64)
  case mphfSize_toNat =>
    rw [length_indexBytes]
    exact UInt64.toNat_ofNat_of_lt' (by omega : _ < 2 ^ 64)
  case index_le =>
    rw [length_indexBytes, snapshotHeader, length_snapshotCells, hd]
    omega

namespace IsSnapshot

variable (h : IsSnapshot ph sha256 t rs fn image g)

include h

theorem hasLayout : HasLayout g (snapshotHeader sha256 t image (snapshotCells ph fn rs))
    (indexBytes rs.length image) (snapshotCells ph fn rs) :=
  hasLayout_of_bytes_eq h.size_lt h.bytes_eq

theorem parse_eq : Header.parse g.bytes =
    snapshotHeader sha256 t image (snapshotCells ph fn rs) := h.hasLayout.parse_eq

theorem dataOffset_toNat : (Header.parse g.bytes).dataOffset.toNat =
    (4096 + (8 + image.length) + 4095) / 4096 * 4096 := by
  have hsz := h.size_lt
  have hd := dataOffset_eq (UInt64.ofNat rs.length) t (by omega : _ + (8 + image.length) + _ < _)
  rw [h.parse_eq, ← hd, snapshotHeader, length_snapshotCells]

theorem recordCount_toNat : (Header.parse g.bytes).recordCount.toNat = rs.length := by
  rw [h.parse_eq, h.hasLayout.recordCount_toNat, length_snapshotCells]

theorem mphfSize_toNat : (Header.parse g.bytes).mphfSize.toNat = 8 + image.length := by
  rw [h.parse_eq, h.hasLayout.mphfSize_toNat, length_indexBytes]

theorem exists_pre : ∃ pre, g.bytes = pre ++ ((snapshotCells ph fn rs).map pairBytes).flatten ∧
    pre.length = (4096 + (8 + image.length) + 4095) / 4096 * 4096 := by
  rw [← h.dataOffset_toNat, h.parse_eq]
  exact h.hasLayout.exists_pre

theorem len_eq : g.len = (4096 + (8 + image.length) + 4095) / 4096 * 4096 + 320 * rs.length := by
  rw [h.hasLayout.len_eq, ← h.parse_eq, h.dataOffset_toNat, length_snapshotCells]

theorem magic_eq : (Header.parse g.bytes).magic = magicNumber := by
  rw [h.parse_eq]
  rfl

theorem version_eq : (Header.parse g.bytes).version = formatVersion := by
  rw [h.parse_eq]
  rfl

theorem validate_eq (hn : rs.length ≤ 10000000000) : (Header.parse g.bytes).validate = .ok () := by
  rw [h.parse_eq]
  exact validate_snapshotHeader (by rwa [length_snapshotCells])

theorem accepts (hn : rs.length ≤ 10000000000) :
    ∃ fn', Accepts ph g fn' ∧ ∀ k, ph.get fn' k = ph.get fn k := by
  obtain ⟨fn', hr, hg⟩ := h.indexes.read
  have hv := h.validate_eq hn
  rw [h.parse_eq] at hv
  refine ⟨fn', h.hasLayout.accepts hv ?_ hr, hg⟩
  rw [length_snapshotCells]

theorem cells_eq (fn' : Fn) : (KvStore.ofFile g fn').cells = snapshotCells ph fn rs :=
  h.hasLayout.cells_eq fn'

theorem slot_eq {fn' : Fn} (hg : ∀ k, ph.get fn' k = ph.get fn k) :
    (KvStore.ofFile g fn').mphf.get ph = (Mphf.mk fn rs.length).get ph :=
  Mphf.get_congr hg h.recordCount_toNat

theorem inBounds (fn' : Fn) : (KvStore.ofFile g fn').InBounds := h.hasLayout.inBounds fn'

/-- A snapshot of distinct keys opens to the map of its records. -/
theorem represents (hn : rs.length ≤ 10000000000) (hd : (rs.map Prod.fst).Nodup) :
    ∃ s, KvStore.open ph g = .ok s ∧ s.Represents ph rs := by
  obtain ⟨fn', ha, hg⟩ := h.accepts hn
  refine ⟨_, open_eq_ok_iff.mpr ⟨fn', ha, rfl⟩, h.recordCount_toNat, fun k => ?_, ?_⟩
  · refine ⟨_, KvStore.get_eq (h.inBounds fn') k, fun v => ?_⟩
    rw [KvStore.table, h.slot_eq hg, h.cells_eq]
    exact get_place_iff h.indexes.builds.placement_records hd List.length_replicate
  · refine ⟨_, KvStore.iter_eq (h.inBounds fn'), ?_⟩
    rw [h.cells_eq]
    exact snapshotCells_perm h.indexes.builds hd

end IsSnapshot

def twoRecords : List (Key × Value) :=
  [(Arr.replicate keySize 1, Arr.replicate valueSize 1), blankPair]

/-- The keys of the two records, which are their own index. -/
def twoKeys : List Key := twoRecords.map Prod.fst

/-- The digest of the data section of the two records. -/
def twoDigest : Sha256 := fun _ =>
  ⟨[99, 38, 46, 39, 41, 82, 210, 104, 33, 54, 132, 151, 214, 90, 216, 10, 99, 191, 8, 147, 185, 45,
    249, 228, 21, 111, 149, 135, 88, 149, 181, 253], rfl⟩

theorem twoKeys_nodup : (twoRecords.map Prod.fst).Nodup := by decide

theorem twoRecords_indexes :
    listIndex.Indexes (twoRecords.map Prod.fst) twoKeys (ListIndex.write twoKeys) :=
  listIndex_indexes twoKeys_nodup (by decide)

theorem twoRecords_size :
    4096 + (8 + (ListIndex.write twoKeys).length) + 4095 + 320 * twoRecords.length < 2 ^ 64 := by
  rw [ListIndex.length_write]
  decide

theorem build_twoRecords (sha256 : Sha256) :
    ∃ g log, (SnapshotBuilder.ofRecords twoRecords).build listIndex sha256 (.faultless 0)
        ⟨none, []⟩ = (.ok (), ⟨some g, log⟩) ∧
      IsSnapshot listIndex sha256 0 twoRecords twoKeys (ListIndex.write twoKeys) g ∧
      g.len = 8832 ∧ (Header.parse g.bytes).dataOffset.toNat = 8192 := by
  obtain ⟨g, log, hrun, hg, _⟩ :=
    build_faultless sha256 0 (by decide) twoRecords_indexes twoRecords_size none
  refine ⟨g, _, hrun, hg, ?_, ?_⟩
  · rw [hg.len_eq, ListIndex.length_write]
    rfl
  · rw [hg.dataOffset_toNat, ListIndex.length_write]
    rfl

end LowLatencyKv
