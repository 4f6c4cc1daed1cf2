import LowLatencyKv.Builder.HeaderDamage

/-! # Damaged records

A snapshot in whose data section the bytes of one slot were replaced. The store
opened from it is that of the snapshot with one cell replaced, so only the keys
that the index sends to that slot are answered differently.
-/

namespace LowLatencyKv

open Rust Tables

variable {Fn : Type} {ph : Ph Fn} {sha256 : Sha256} {t : UInt64} {rs : List (Key × Value)}
  {fn fn' : Fn} {image : List UInt8} {f g : File} {i : ℕ} {r : Key × Value}

namespace IsSnapshot

variable (h : IsSnapshot ph sha256 t rs fn image g)

include h

theorem table_eq (ha : Accepts ph g fn') : (KvStore.ofFile g fn').table ph =
    ⟨(Mphf.mk fn rs.length).get ph, snapshotCells ph fn rs⟩ := by
  rw [KvStore.table, h.slot_eq (h.get_of_accepts ha), h.cells_eq]

theorem exists_record (hd : (rs.map Prod.fst).Nodup) (hi : i < rs.length) :
    ∃ p ∈ rs, (Mphf.mk fn rs.length).get ph p.1 = some i := by
  have hl : i < (snapshotCells ph fn rs).length := by rwa [length_snapshotCells]
  have hc := List.getElem?_eq_getElem hl
  exact ⟨_, (snapshotCells_perm h.indexes.builds hd).mem_iff.mp (List.mem_of_getElem? hc),
    slot_of_getElem?_snapshotCells h.indexes.builds hd hc⟩

theorem slot_ne_of_ne (hd : (rs.map Prod.fst).Nodup) {p q : Key × Value} (hp : p ∈ rs) (hq : q ∈ rs)
    (hne : q ≠ p) (hpi : (Mphf.mk fn rs.length).get ph p.1 = some i) :
    (Mphf.mk fn rs.length).get ph q.1 ≠ some i := by
  intro hqi
  have hk := h.indexes.builds.placement_records.slot_inj q.1 (List.mem_map_of_mem hq) p.1
    (List.mem_map_of_mem hp) (hqi.trans hpi.symm)
  exact hne (List.inj_on_of_nodup_map hd hq hp hk)

theorem get_iff (hd : (rs.map Prod.fst).Nodup) (ha : Accepts ph g fn') (k : Key) (v : Value) :
    (KvStore.ofFile g fn').get ph k = .ok (some v) ↔ (k, v) ∈ rs := by
  rw [KvStore.get_eq (h.inBounds fn'), h.table_eq ha, Outcome.ok.injEq]
  exact get_place_iff h.indexes.builds.placement_records hd List.length_replicate

section Damaged

variable (hi : i < rs.length) (hf : f.bytes = splice g.bytes
  ((Header.parse g.bytes).dataOffset.toNat + recordSize * i) (pairBytes r))

include hi

omit hf in
theorem record_le : (Header.parse g.bytes).dataOffset.toNat + recordSize * i +
    (pairBytes r).length ≤ g.bytes.length := by
  have hl := h.len_eq
  rw [← h.dataOffset_toNat] at hl
  rw [length_pairBytes]
  simp only [File.len, recordSize, keySize, valueSize] at hl ⊢
  omega

include hf

theorem len_record : f.len = g.len := by
  rw [File.len, hf, length_splice (h.record_le hi), File.len]

theorem take_record : f.bytes.take (Header.parse g.bytes).dataOffset.toNat =
    g.bytes.take (Header.parse g.bytes).dataOffset.toNat := by
  rw [hf, take_splice (h.record_le hi) (Nat.le_add_right _ _)]

theorem accepts_record (ha : Accepts ph g fn') : Accepts ph f fn' := by
  refine ha.congr (h.len_record hi hf) (h.take_record hi hf) ?_
  rw [h.mphfSize_toNat, h.dataOffset_toNat]
  omega

theorem parse_record : Header.parse f.bytes = Header.parse g.bytes := by
  have hd := h.dataOffset_toNat
  exact Header.parse_congr (by omega) (h.take_record hi hf)

theorem table_record : (KvStore.ofFile f fn').table ph =
    ⟨((KvStore.ofFile g fn').table ph).slot, ((KvStore.ofFile g fn').table ph).cells.set i r⟩ := by
  obtain ⟨pre, hb, hp⟩ := h.exists_pre
  have hi' : i < (snapshotCells ph fn rs).length := by rwa [length_snapshotCells]
  rw [← h.dataOffset_toNat] at hp
  have hfb : f.bytes = pre ++ (((snapshotCells ph fn rs).set i r).map pairBytes).flatten := by
    rw [hf, ← splice_cell hp hi' r, ← hb]
    rfl
  have hcells := pairs_cells ((snapshotCells ph fn rs).set i r) hp
  rw [← hfb, List.length_set, length_snapshotCells] at hcells
  rw [KvStore.table, KvStore.table, KvStore.cells, h.cells_eq]
  simp only [KvStore.ofFile, h.parse_record hi hf, h.recordCount_toNat, hcells]

theorem inBounds_record : (KvStore.ofFile f fn').InBounds := by
  have hin := h.inBounds fn'
  simp only [KvStore.InBounds, KvStore.ofFile, h.parse_record hi hf, h.len_record hi hf] at hin ⊢
  exact hin

theorem get_record_of_ne {k : Key} (hk : (KvStore.ofFile g fn').mphf.get ph k ≠ some i) :
    (KvStore.ofFile f fn').get ph k = (KvStore.ofFile g fn').get ph k := by
  rw [KvStore.get_eq (h.inBounds_record hi hf), KvStore.get_eq (h.inBounds fn'),
    h.table_record hi hf, SlotTable.get_set_of_ne hk]

theorem get_record_of_slot {k : Key} (hk : (KvStore.ofFile g fn').mphf.get ph k = some i) :
    (KvStore.ofFile f fn').get ph k = .ok (if k = r.1 then some r.2 else none) := by
  have hl : i < ((KvStore.ofFile g fn').table ph).cells.length := by
    rw [KvStore.table, h.cells_eq, length_snapshotCells]
    exact hi
  rw [KvStore.get_eq (h.inBounds_record hi hf), h.table_record hi hf,
    SlotTable.get_set_of_slot hk hl]

/-- Whatever is found was stored under its key, in the snapshot or by the damage. -/
theorem mem_of_get_record (hd : (rs.map Prod.fst).Nodup) (ha : Accepts ph g fn') {k : Key}
    {v : Value} (hk : (KvStore.ofFile f fn').get ph k = .ok (some v)) :
    (k, v) ∈ rs ∨ (k, v) = r := by
  by_cases hki : (KvStore.ofFile g fn').mphf.get ph k = some i
  · rw [h.get_record_of_slot hi hf hki] at hk
    split_ifs at hk with hkr
    · obtain rfl := Option.some.inj (Outcome.ok.inj hk)
      exact Or.inr (Prod.ext hkr rfl)
    · cases hk
  · rw [h.get_record_of_ne hi hf hki] at hk
    exact Or.inl ((h.get_iff hd ha k v).mp hk)

end Damaged

end IsSnapshot

/-- Damage to the record of a slot is local: keys sent elsewhere are answered as before, keys sent
there find the new pair or nothing. All other records are found, and nothing is found under a key it
was not stored with. -/
theorem damaged_record_local {env : BuildEnv} {o o' : Output} {s s' : KvStore Fn}
    (hd : (rs.map Prod.fst).Nodup) (hi : ph.Indexes (rs.map Prod.fst) fn image)
    (hsz : 4096 + (8 + image.length) + 4095 + 320 * rs.length < 2 ^ 64)
    (hb : (SnapshotBuilder.ofRecords rs).build ph sha256 env o = (.ok (), o'))
    (hg : o'.content = some g) (hlt : i < rs.length) (ho : KvStore.open ph g = .ok s)
    (hf : f.bytes = splice g.bytes (s.dataOffset + recordSize * i) (pairBytes r))
    (ho' : KvStore.open ph f = .ok s') :
    (∀ k, s.mphf.get ph k ≠ some i → s'.get ph k = s.get ph k) ∧
    (∀ k, s.mphf.get ph k = some i → s'.get ph k = .ok (if k = r.1 then some r.2 else none)) ∧
    (∃ p ∈ rs, s.mphf.get ph p.1 = some i ∧
      ∀ q ∈ rs, q ≠ p → s'.get ph q.1 = .ok (some q.2)) ∧
    ∀ k v, s'.get ph k = .ok (some v) → (k, v) ∈ rs ∨ (k, v) = r := by
  obtain ⟨t, _, h⟩ := exists_isSnapshot_of_build hi hsz hb hg
  obtain ⟨fn', ha, rfl⟩ := open_eq_ok_iff.mp ho
  have hopen := open_eq_ok_iff.mpr ⟨fn', h.accepts_record hlt hf ha, rfl⟩
  obtain rfl := Outcome.ok.inj (ho'.symm.trans hopen)
  have hslot : (KvStore.ofFile g fn').mphf.get ph = (Mphf.mk fn rs.length).get ph :=
    h.slot_eq (h.get_of_accepts ha)
  obtain ⟨p, hp, hpi⟩ := h.exists_record hd hlt
  refine ⟨fun k => h.get_record_of_ne hlt hf, fun k => h.get_record_of_slot hlt hf,
    ⟨p, hp, by rw [hslot, hpi], fun q hq hqp => ?_⟩, fun k v => h.mem_of_get_record hlt hf hd ha⟩
  have hqi := h.slot_ne_of_ne hd hp hq hqp hpi
  rw [← hslot] at hqi
  rw [h.get_record_of_ne hlt hf hqi, (h.get_iff hd ha q.1 q.2).mpr hq]

/-- The second of two records is replaced by a copy of the first key: the first record is found as
before, and the key of the second is lost. -/
theorem damaged_record_local_two :
    ∃ (g f : File) (log : List (BuildStep × File)) (s s' : KvStore (List Key)),
      (SnapshotBuilder.ofRecords twoRecords).build listIndex twoDigest (.faultless 0) ⟨none, []⟩ =
        (.ok (), ⟨some g, log⟩) ∧ KvStore.open listIndex g = .ok s ∧
      f.bytes = splice g.bytes (s.dataOffset + recordSize * 1)
        (pairBytes (Arr.replicate keySize 1, Arr.replicate valueSize 7)) ∧
      KvStore.open listIndex f = .ok s' ∧
      s'.get listIndex blankPair.1 = .ok none ∧
      s'.get listIndex (Arr.replicate keySize 1) = .ok (some (Arr.replicate valueSize 1)) := by
  obtain ⟨g, log, hrun, h, hlen, hdo⟩ := build_twoRecords twoDigest
  obtain ⟨fn', ha, hget⟩ := h.accepts (by decide)
  have hle := h.record_le (r := (Arr.replicate keySize 1, Arr.replicate valueSize 7))
    (by decide : 1 < twoRecords.length)
  let f : File := ⟨splice g.bytes _ _, (length_splice hle).trans_lt g.length_lt⟩
  have ho := open_eq_ok_iff.mpr ⟨fn', ha, rfl⟩
  have ho' := open_eq_ok_iff.mpr ⟨fn', h.accepts_record (f := f) (by decide) rfl ha, rfl⟩
  have hslot := h.slot_eq hget
  have hlocal := damaged_record_local (f := f) twoKeys_nodup twoRecords_indexes twoRecords_size hrun
    rfl (by decide : 1 < twoRecords.length) ho rfl ho'
  refine ⟨g, f, log, _, _, hrun, ho, rfl, ho', ?_, ?_⟩
  · rw [hlocal.2.1 _ (by rw [hslot]; decide)]
    decide
  · rw [hlocal.1 _ (by rw [hslot]; decide), h.get_iff twoKeys_nodup ha]
    simp [twoRecords]

end LowLatencyKv
