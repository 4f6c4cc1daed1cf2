import LowLatencyKv.Builder.Layout

/-! # The sequential writer of the store tests

`createTestSnapshot` collects the records in slot order and writes header, index,
padding and records one after another. Its file has the layout of a built
snapshot; only the checksum stays zero.
-/

namespace LowLatencyKv

open Rust Tables

def testKey (i : UInt64) : Key :=
  Arr.ofList keySize 0 (toLeBytes i)

def testValue (i : UInt64) : Value :=
  Arr.ofList valueSize 0 (toLeBytes (i * 100))

section

variable {Fn : Type} (ph : Ph Fn)

/-- Copies key and value into the record of their slot. -/
def fillRecord (mphf : Mphf Fn) (records : List (List UInt8)) (r : Key × Value) :
    Exec (List (List UInt8)) := do
  let slot ← expect (mphf.get ph r.1)
  let record ← expect records[slot]?
  let record := splice record 0 r.1.toList
  let record := splice record keySize r.2.toList
  pure (records.set slot record)

def writeFront (header : Header) (mphfBytes : List UInt8) (dataOffset : ℕ) (file : Cursor) :
    Exec Cursor := do
  let file ← file.writeAll header.toBytes
  let file ← file.writeAll mphfBytes
  let currentPos := wrappingAdd headerSize mphfBytes.length
  if currentPos < dataOffset then
    file.writeAll (List.replicate (dataOffset - currentPos) 0)
  else pure file

/-- The writes of `createTestSnapshot` for any keys and values, while no call of the operating
system fails. -/
def writeSequentially (now : Option UInt64) (keys : List Key) (values : List Value) :
    Exec File := do
  let recordCount := keys.length
  let mphf ← unwrap (Mphf.build ph keys)
  let mphfBytes ← unwrap (mphf.serialize ph)
  let timestamp ← expect now
  let header := Header.new (UInt64.ofNat recordCount) (UInt64.ofNat mphfBytes.length) timestamp
  let dataOffset := header.dataOffset.toNat
  let fileSize := wrappingAdd dataOffset (wrappingMul recordCount recordSize)
  let file := Cursor.mk (File.empty.setLen (UInt64.ofNat fileSize)) 0
  let file ← writeFront header mphfBytes dataOffset file
  let records := List.replicate recordCount (List.replicate recordSize 0)
  let records ← (keys.zip values).foldlM (fillRecord ph mphf) records
  let file ← records.foldlM Cursor.writeAll file
  pure file.file

def createTestSnapshot (now : Option UInt64) (recordCount : ℕ) : Exec File :=
  let ids := (List.range recordCount).map UInt64.ofNat
  writeSequentially ph now (ids.map testKey) (ids.map testValue)

end

variable {Fn : Type} {ph : Ph Fn} {m : Mphf Fn} {cells rs : List (Key × Value)} {r : Key × Value}
  {fn : Fn} {image index : List UInt8} {t : UInt64}

theorem fillRecord_run {j : ℕ} (hj : m.get ph r.1 = some j) (hlt : j < cells.length) :
    fillRecord ph m (cells.map pairBytes) r =
      .ok ((placeOne (m.get ph) cells r).map pairBytes) := by
  have hcell : (cells.map pairBytes)[j]? = some (pairBytes cells[j]) := by simp [hlt]
  have hk : r.1.toList.length = 64 := r.1.length_toList
  have hv : r.2.toList.length = 256 := r.2.length_toList
  have hl : (pairBytes cells[j]).length = 320 := length_pairBytes _
  have hsplice : splice (splice (pairBytes cells[j]) 0 r.1.toList) keySize r.2.toList =
      pairBytes r := by
    have hle : 0 + r.1.toList.length + r.2.toList.length ≤ (pairBytes cells[j]).length := by omega
    have hadj := splice_splice_adjacent r.1.toList r.2.toList hle
    have hall := splice_front (pairBytes cells[j]) [] (hl.trans (length_pairBytes r).symm)
    rw [Nat.zero_add, hk] at hadj
    rw [List.append_nil, List.append_nil] at hall
    exact hadj.trans hall
  unfold fillRecord
  rw [hj, placeOne_of_slot hj, List.map_set]
  simp only [expect_some, Outcome.ok_bind, hcell, hsplice, Outcome.pure_eq_ok]

theorem foldlM_fillRecord (hj : ∀ r ∈ rs, ∃ j < cells.length, m.get ph r.1 = some j) :
    rs.foldlM (fillRecord ph m) (cells.map pairBytes) =
      .ok ((place (m.get ph) cells rs).map pairBytes) := by
  induction rs generalizing cells with
  | nil => rfl
  | cons r rs ih =>
    obtain ⟨j, hlt, hr⟩ := hj r (by simp)
    rw [List.foldlM_cons, fillRecord_run hr hlt, Outcome.ok_bind, place_cons]
    apply ih
    intro r' hr'
    rw [length_placeOne]
    exact hj r' (List.mem_cons_of_mem _ hr')

theorem fillRecords_run (hi : ph.Builds (rs.map Prod.fst) fn image) :
    rs.foldlM (fillRecord ph ⟨fn, rs.length⟩)
        (List.replicate rs.length (List.replicate recordSize 0)) =
      .ok ((snapshotCells ph fn rs).map pairBytes) := by
  have hblank : List.replicate rs.length (List.replicate recordSize 0) =
      (List.replicate rs.length blankPair).map pairBytes := by
    rw [List.map_replicate, pairBytes_blankPair]
    rfl
  rw [hblank]
  apply foldlM_fillRecord
  intro r hr
  rw [List.length_replicate]
  exact hi.exists_slot r hr

theorem writeFront_run {c : Cursor} {h : Header} {page old pad rest : List UInt8}
    (hf : c.file.bytes = page ++ old ++ pad ++ rest) (hc : c.pos = 0)
    (hp : page.length = 4096) (ho : old.length = index.length) :
    ∃ c', writeFront h index (4096 + index.length + pad.length) c = .ok c' ∧
      c'.file.bytes = h.toBytes ++ index ++ List.replicate pad.length 0 ++ rest ∧
      c'.pos = (h.toBytes ++ index ++ List.replicate pad.length 0).length := by
  have hlen : c.file.len = 4096 + index.length + pad.length + rest.length := by
    simp only [File.len, hf, List.length_append, hp, ho]
  have hl := c.file.len_lt
  have hw : wrappingAdd headerSize index.length = 4096 + index.length :=
    wrappingAdd_of_lt (by simp only [headerSize]; omega)
  have hf₀ : c.file.bytes = [] ++ page ++ (old ++ pad ++ rest) := by
    rw [hf]
    simp only [List.append_assoc, List.nil_append]
  obtain ⟨c₁, h₁, hb₁, hp₁⟩ := Cursor.writeAll_run hf₀ hc (hp.trans h.length_toBytes.symm)
  rw [List.nil_append] at hb₁ hp₁
  have hf₁ : c₁.file.bytes = h.toBytes ++ old ++ (pad ++ rest) := by
    rw [hb₁]
    simp only [List.append_assoc]
  obtain ⟨c₂, h₂, hb₂, hp₂⟩ := Cursor.writeAll_run hf₁ hp₁ ho
  rw [← List.append_assoc] at hb₂
  unfold writeFront
  rw [h₁, Outcome.ok_bind, h₂, Outcome.ok_bind, hw]
  simp only []
  split
  case isTrue hlt =>
    obtain ⟨c₃, h₃, hb₃, hp₃⟩ := Cursor.writeAll_run hb₂ hp₂
      (List.length_replicate (n := pad.length) (a := (0 : UInt8))).symm
    exact ⟨c₃, by rw [Nat.add_sub_cancel_left, h₃], hb₃, hp₃⟩
  case isFalse hlt =>
    obtain rfl : pad = [] := List.eq_nil_of_length_eq_zero (by omega)
    exact ⟨c₂, rfl, by simpa using hb₂, by simpa using hp₂⟩

theorem writeSequentially_run (hne : rs ≠ []) (hi : ph.Builds (rs.map Prod.fst) fn image)
    (hsz : 4096 + (8 + image.length) + 4095 + 320 * rs.length < 2 ^ 64) :
    ∃ f, writeSequentially ph (some t) (rs.map Prod.fst) (rs.map Prod.snd) = .ok f ∧
      f.bytes = snapshotBytes
        (Header.new (UInt64.ofNat rs.length) (UInt64.ofNat (8 + image.length)) t)
        (indexBytes rs.length image) (snapshotCells ph fn rs) := by
  have hk : (rs.map Prod.fst).length = rs.length := List.length_map _
  have hbuild := hi.mphf_build_records hne
  have hser := hi.mphf_serialize_records
  obtain ⟨p, hp⟩ : ∃ p, (4096 + (8 + image.length) + 4095) / 4096 * 4096 =
      4096 + (8 + image.length) + p := ⟨_, (Nat.add_sub_cancel' (by omega)).symm⟩
  have hl : (indexBytes rs.length image).length = 8 + image.length := length_indexBytes _
  have hD : (Header.new (UInt64.ofNat rs.length) (UInt64.ofNat (8 + image.length))
      t).dataOffset.toNat = 4096 + (indexBytes rs.length image).length + p := by
    rw [dataOffset_eq _ _ (by omega), hp, hl]
  have hsz' : 4096 + (indexBytes rs.length image).length + p + 320 * rs.length < 2 ^ 64 := by omega
  have hsize : wrappingAdd (4096 + (indexBytes rs.length image).length + p)
      (wrappingMul rs.length recordSize) =
        4096 + (indexBytes rs.length image).length + p + 320 * rs.length := by
    rw [KvStore.offset_eq, Nat.mod_eq_of_lt hsz']
  have hb₀ := SnapshotBuilder.bytes_created hsz'
  generalize hf₀ : File.empty.setLen (UInt64.ofNat
    (4096 + (indexBytes rs.length image).length + p + 320 * rs.length)) = f₀ at hb₀
  obtain ⟨c₁, h₁, hb₁, hp₁⟩ := writeFront_run (c := ⟨f₀, 0⟩)
    (h := Header.new (UInt64.ofNat rs.length) (UInt64.ofNat (8 + image.length)) t)
    hb₀ rfl List.length_replicate List.length_replicate
  rw [List.length_replicate] at h₁ hb₁ hp₁
  rw [← List.append_nil (List.map pairBytes _).flatten, ← List.append_assoc] at hb₁
  have hcells : ((List.replicate rs.length blankPair).map pairBytes).flatten.length =
      ((snapshotCells ph fn rs).map pairBytes).flatten.length := by
    rw [length_cells, length_cells, length_snapshotCells, List.length_replicate]
  obtain ⟨c₂, h₂, hb₂⟩ := Cursor.foldlM_writeAll hb₁ hp₁ hcells
  refine ⟨c₂.file, ?_, ?_⟩
  · unfold writeSequentially
    rw [hk, hbuild, unwrap_ok, Outcome.ok_bind, hser, unwrap_ok, Outcome.ok_bind, expect_some,
      Outcome.ok_bind, List.length_append, length_toLeBytes]
    simp only [hD, hsize, hf₀, SnapshotBuilder.zip_map_fst_snd, fillRecords_run hi]
    rw [← indexBytes, h₁, Outcome.ok_bind, Outcome.ok_bind, h₂]
    rfl
  · rw [hb₂, List.append_nil, snapshotBytes, hD, Nat.add_sub_cancel_left]

def testRecords (recordCount : ℕ) : List (Key × Value) :=
  ((List.range recordCount).map UInt64.ofNat).map fun i => (testKey i, testValue i)

theorem testKey_injective : Function.Injective testKey := by
  intro i j h
  have hp (i : UInt64) : wordAt (testKey i).toList 0 = i := by
    unfold testKey
    rw [Arr.ofList, wordAt_take (by decide), wordAt_cons_zero]
  rw [← hp i, ← hp j, h]

theorem nodup_testRecords {n : ℕ} (hn : n ≤ 2 ^ 64) : ((testRecords n).map Prod.fst).Nodup := by
  unfold testRecords
  rw [List.map_map]
  apply List.Nodup.map testKey_injective
  apply List.Nodup.map_on _ List.nodup_range
  intro i hi j hj h
  rw [List.mem_range] at hi hj
  have h := congrArg UInt64.toNat h
  rwa [UInt64.toNat_ofNat_of_lt' (by omega : _ < 2 ^ 64),
    UInt64.toNat_ofNat_of_lt' (by omega : _ < 2 ^ 64)] at h

/-- The files of the store tests are the snapshots of their records, but for the checksum. -/
theorem createTestSnapshot_run {n : ℕ} (hn : n ≠ 0)
    (hi : ph.Builds ((testRecords n).map Prod.fst) fn image)
    (hsz : 4096 + (8 + image.length) + 4095 + 320 * n < 2 ^ 64) :
    ∃ f, createTestSnapshot ph (some t) n = .ok f ∧
      f.bytes = snapshotBytes
        (Header.new (UInt64.ofNat n) (UInt64.ofNat (8 + image.length)) t)
        (indexBytes n image) (snapshotCells ph fn (testRecords n)) := by
  have hl : (testRecords n).length = n := by simp [testRecords]
  have hne : testRecords n ≠ [] := by
    rw [← List.length_pos_iff, hl]
    omega
  have h := writeSequentially_run (t := t) hne hi (by rwa [hl])
  rw [hl] at h
  simpa [createTestSnapshot, testRecords, Function.comp_def] using h

end LowLatencyKv
