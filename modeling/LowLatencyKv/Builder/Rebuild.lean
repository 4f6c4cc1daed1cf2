import LowLatencyKv.Builder.Additions
import LowLatencyKv.Builder.Damage
import LowLatencyKv.Builder.Import

/-! # Rebuilding from the data section

The data section of a snapshot consists of its records, in slot order, and so is a
file that can be imported. The import needs neither the header nor the index, and
its result answers like the snapshot that the section was taken from.
-/

namespace LowLatencyKv

open Rust Tables
open scoped List

variable {Fn : Type} {ph : Ph Fn} {sha256 : Sha256} {env : BuildEnv} {t : UInt64}
  {rs : List (Key × Value)} {fn fn' : Fn} {image image' : List UInt8} {f g : File} {s : Output}
  {log : List (BuildStep × File)}

/-- The data section of a snapshot, as a file of its own. -/
def dataSection (g : File) : File where
  bytes := g.bytes.drop (Header.parse g.bytes).dataOffset.toNat
  length_lt := by
    rw [List.length_drop]
    exact Nat.lt_of_le_of_lt (Nat.sub_le _ _) g.length_lt

namespace IsSnapshot

variable (h : IsSnapshot ph sha256 t rs fn image g)

include h

theorem bytes_dataSection :
    (dataSection g).bytes = ((snapshotCells ph fn rs).map pairBytes).flatten := by
  have hdrop := h.hasLayout.drop_dataOffset
  rwa [← h.parse_eq] at hdrop

theorem len_dataSection : (dataSection g).len = 320 * rs.length := by
  rw [File.len, h.bytes_dataSection, length_cells, length_snapshotCells]

theorem binaryRecords_dataSection : binaryRecords (dataSection g) = snapshotCells ph fn rs := by
  have hp : pairs ([] ++ ((snapshotCells ph fn rs).map pairBytes).flatten) 0
      (snapshotCells ph fn rs).length = snapshotCells ph fn rs :=
    pairs_cells (snapshotCells ph fn rs) rfl
  rw [List.nil_append, ← h.bytes_dataSection, length_snapshotCells] at hp
  rw [binaryRecords, h.len_dataSection, Nat.mul_div_cancel_left _ (by decide), hp]

end IsSnapshot

theorem KvStore.Represents.get_eq_of_perm {rs' : List (Key × Value)} {st st' : KvStore Fn}
    (h : st.Represents ph rs) (h' : st'.Represents ph rs') (hp : rs ~ rs') (k : Key) :
    st.get ph k = st'.get ph k := by
  obtain ⟨r, hr, hv⟩ := h.get_iff k
  obtain ⟨r', hr', hv'⟩ := h'.get_iff k
  have he : r = r' := by
    ext v
    rw [hv, hv', hp.mem_iff]
  rw [hr, hr', he]

section Build

variable (hne : rs ≠ []) (hd : (rs.map Prod.fst).Nodup) (hn : rs.length ≤ 10000000000)
  (hi : ph.Indexes (rs.map Prod.fst) fn image)
  (hsz : 4096 + (8 + image.length) + 4095 + 320 * rs.length < 2 ^ 64)
  (h : (SnapshotBuilder.ofRecords rs).build ph sha256 env s = (.ok (), ⟨some g, log⟩))
  (hi' : ph.Indexes ((binaryRecords (dataSection g)).map Prod.fst) fn' image')
  (hsz' : 4096 + (8 + image'.length) + 4095 + 320 * rs.length < 2 ^ 64)

include hne hd hn hi hsz h hi' hsz'

/-- The data section of a snapshot can be imported, the result answers every lookup like the
snapshot, and it is the same file exactly if it got the same time and written index. -/
theorem rebuild_from_data (t' : UInt64) (old : Option File) : ∃ g' log' st st',
    buildFromBinary ph sha256 (.faultless t') (.ok (.ok (dataSection g))) ⟨old, []⟩ =
        (.ok (), ⟨some g', log'⟩) ∧
      KvStore.open ph g = .ok st ∧ KvStore.open ph g' = .ok st' ∧ st'.len = st.len ∧
      (∀ k, st'.get ph k = st.get ph k) ∧ (g' = g ↔ some t' = env.now ∧ image' = image) := by
  obtain ⟨t, ht, hg⟩ := exists_isSnapshot_of_build hi hsz h rfl
  have hp : snapshotCells ph fn rs ~ rs := snapshotCells_perm hi.builds hd
  have hd' : ((snapshotCells ph fn rs).map Prod.fst).Nodup := (hp.map Prod.fst).nodup_iff.mpr hd
  have hne' : snapshotCells ph fn rs ≠ [] := fun h0 => hne (h0 ▸ hp).nil_eq.symm
  rw [hg.binaryRecords_dataSection] at hi'
  obtain ⟨g', log', hrun, hg', _⟩ :=
    build_faultless sha256 t' hne' hi' (by rwa [length_snapshotCells]) old
  obtain ⟨st, ho, hst⟩ := hg.represents hn hd
  obtain ⟨st', ho', hst'⟩ := hg'.represents (by rwa [length_snapshotCells]) hd'
  refine ⟨g', log' ++ [(.header, g')], st, st', ?_, ho, ho', ?_, hst'.get_eq_of_perm hst hp, ?_⟩
  · rw [buildFromBinary_of_dvd ⟨_, hg.len_dataSection⟩, hg.binaryRecords_dataSection, hrun]
  · rw [hst.len_eq, hst'.len_eq, length_snapshotCells]
  · rw [hg'.eq_iff_perm hg hd' hd, ht, Option.some.injEq]
    simp only [hp, and_true]

end Build

theorem rebuild_from_data_two : ∃ g log log',
    (SnapshotBuilder.ofRecords twoRecords).build listIndex twoDigest (.faultless 0) ⟨none, []⟩ =
        (.ok (), ⟨some g, log⟩) ∧
      buildFromBinary listIndex twoDigest (.faultless 0) (.ok (.ok (dataSection g))) ⟨none, []⟩ =
        (.ok (), ⟨some g, log'⟩) := by
  obtain ⟨g, log, hrun, hg, _⟩ := build_twoRecords twoDigest
  have hi : listIndex.Indexes ((binaryRecords (dataSection g)).map Prod.fst) twoKeys
      (ListIndex.write twoKeys) := by
    rw [hg.binaryRecords_dataSection, snapshotCells_twoRecords]
    exact twoRecords_indexes
  obtain ⟨g', log', st, st', hrun', _, _, _, _, hsame⟩ :=
    rebuild_from_data (by decide) twoKeys_nodup (by decide) twoRecords_indexes twoRecords_size hrun
      hi twoRecords_size 0 none
  obtain rfl := hsame.mpr ⟨rfl, rfl⟩
  exact ⟨g', log, log', hrun, hrun'⟩

end LowLatencyKv
