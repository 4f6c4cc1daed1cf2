import LowLatencyKv.Builder.Damage

/-! # Cut snapshots

The end of the records that `open` computes from the header is the size of the
snapshot, so a file that lost its last byte is already refused.
-/

namespace LowLatencyKv

open Rust

variable {Fn : Type} {ph : Ph Fn} {sha256 : Sha256} {t : UInt64} {rs : List (Key × Value)}
  {fn : Fn} {image : List UInt8} {f g : File}

theorem parse_cut (hf : f.bytes <+: g.bytes) (hl : 4096 ≤ f.len) :
    Header.parse f.bytes = Header.parse g.bytes := by
  have hl' : 96 ≤ f.bytes.length := le_trans (by decide) hl
  rw [List.prefix_iff_eq_take.mp hf, Header.parse_take _ hl']

theorem sub_cut (hf : f.bytes <+: g.bytes) {a b : ℕ} (hb : b ≤ f.len) :
    sub f.bytes a b = sub g.bytes a b := by
  rw [List.prefix_iff_eq_take.mp hf]
  exact sub_take hb

namespace IsSnapshot

variable (h : IsSnapshot ph sha256 t rs fn image g)

include h

theorem end_eq : wrappingAdd (Header.parse g.bytes).dataOffset.toNat
    (wrappingMul (Header.parse g.bytes).recordCount.toNat recordSize) = g.len := by
  have hl := h.len_eq
  rw [← h.dataOffset_toNat] at hl
  rw [KvStore.offset_eq, h.recordCount_toNat, ← hl, Nat.mod_eq_of_lt g.len_lt]

theorem not_accepts_cut (hf : f.bytes <+: g.bytes) (hlt : f.len < g.len) (fn' : Fn) :
    ¬ Accepts ph f fn' := by
  intro ha
  have hs := ha.size_le
  rw [parse_cut hf ha.page_le, h.end_eq] at hs
  omega

/-- A cut behind the index leaves a header and an index that agree. -/
theorem open_cut (hn : rs.length ≤ 10000000000) (hf : f.bytes <+: g.bytes)
    (hlt : f.len < g.len) (hi : 4096 + (8 + image.length) ≤ f.len) :
    KvStore.open ph f = .err (.fileTooSmall (UInt64.ofNat f.len) (UInt64.ofNat g.len)) := by
  obtain ⟨fn', ha, _⟩ := h.accepts hn
  have hl : 4096 ≤ f.len := by omega
  have hm := h.mphfSize_toNat
  have hp := parse_cut hf hl
  have hh : Header.fromBytes f.bytes = .ok (Header.parse g.bytes) :=
    Header.fromBytes_eq_ok_iff.mpr ⟨hl, by rw [hp, h.validate_eq hn], hp.symm⟩
  have hw : wrappingAdd headerSize (8 + image.length) = 4096 + (8 + image.length) :=
    wrappingAdd_of_lt (lt_of_le_of_lt hi f.len_lt)
  have hs : slice f.bytes headerSize
      (wrappingAdd headerSize (Header.parse g.bytes).mphfSize.toNat) =
      .ok (sub g.bytes 4096 (4096 + (Header.parse g.bytes).mphfSize.toNat)) := by
    rw [hm, hw, ← sub_cut hf hi]
    exact slice_of_le (Nat.le_add_right _ _) hi
  have hd : Mphf.deserialize ph (sub g.bytes 4096
      (4096 + (Header.parse g.bytes).mphfSize.toNat)) =
      .ok ⟨fn', (Header.parse g.bytes).recordCount.toNat⟩ :=
    (deserialize_index_iff ha.index_le).mpr
      ⟨ha.prefix_le, ha.read, congrArg UInt64.toNat ha.count.symm⟩
  rw [open_of_len_lt hh hs hd rfl (by rw [h.end_eq]; exact hlt), h.end_eq]

end IsSnapshot

/-- No proper prefix of a snapshot is accepted; cut behind the index, it is too small. -/
theorem truncated_not_accepted {env : BuildEnv} {s s' : Output}
    (hi : ph.Indexes (rs.map Prod.fst) fn image) (hn : rs.length ≤ 10000000000)
    (hsz : 4096 + (8 + image.length) + 4095 + 320 * rs.length < 2 ^ 64)
    (hb : (SnapshotBuilder.ofRecords rs).build ph sha256 env s = (.ok (), s'))
    (hg : s'.content = some g) (hf : f.bytes <+: g.bytes) (hlt : f.len < g.len) :
    (∀ st, KvStore.open ph f ≠ .ok st) ∧ (4096 + (8 + image.length) ≤ f.len →
      KvStore.open ph f = .err (.fileTooSmall (UInt64.ofNat f.len) (UInt64.ofNat g.len))) := by
  obtain ⟨t, _, h⟩ := exists_isSnapshot_of_build hi hsz hb hg
  refine ⟨fun st ho => ?_, h.open_cut hn hf hlt⟩
  obtain ⟨fn', ha, _⟩ := open_eq_ok_iff.mp ho
  exact h.not_accepts_cut hf hlt fn' ha

/-- Two records without their last byte. -/
theorem truncated_not_accepted_two :
    ∃ (g f : File) (log : List (BuildStep × File)),
      (SnapshotBuilder.ofRecords twoRecords).build listIndex twoDigest (.faultless 0) ⟨none, []⟩ =
        (.ok (), ⟨some g, log⟩) ∧ f.bytes = g.bytes.take 8831 ∧
      KvStore.open listIndex f = .err (.fileTooSmall 8831 8832) := by
  obtain ⟨g, log, hrun, _, hlen, _⟩ := build_twoRecords twoDigest
  have hl : (g.bytes.take 8831).length = 8831 := by
    simp only [File.len] at hlen
    rw [List.length_take, hlen]
    decide
  let f : File := ⟨g.bytes.take 8831, by rw [hl]; decide⟩
  have hfl : f.len = 8831 := hl
  have he := (truncated_not_accepted (f := f) twoRecords_indexes (by decide) twoRecords_size hrun
    rfl (List.take_prefix _ _) (by rw [hfl, hlen]; decide)).2
    (by rw [hfl, ListIndex.length_write]; decide)
  rw [hfl, hlen] at he
  exact ⟨g, f, log, hrun, rfl, he⟩

end LowLatencyKv
