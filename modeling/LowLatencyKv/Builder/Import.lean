import LowLatencyKv.Builder.ReadBack

/-! # Import of a binary file

The command that builds a snapshot from concatenated records. It loses, invents
and alters no record, and refuses a file that is not made of whole records before
it touches the output.
-/

namespace LowLatencyKv

open Rust Tables

variable {Fn : Type} (ph : Ph Fn) (sha256 : Sha256) (env : BuildEnv)

def readRecord (mmap : File) (builder : SnapshotBuilder) (i : ℕ) : Exec SnapshotBuilder := do
  let offset := wrappingMul i recordSize
  let key ← slice mmap.bytes offset (wrappingAdd offset keySize)
  let key ← toArray keySize key
  let value ← slice mmap.bytes (wrappingAdd offset keySize) (wrappingAdd offset recordSize)
  let value ← toArray valueSize value
  pure (builder.addRecord key value)

def readRecords (mmap : File) (recordCount : ℕ) : Exec SnapshotBuilder :=
  (List.range recordCount).foldlM (readRecord mmap) SnapshotBuilder.new

/-- Builds a snapshot from a raw binary file, which is opened and then mapped. -/
def buildFromBinary (input : Except IoError (Except IoError File)) : Build Unit := do
  let file ← (Outcome.ofExcept input).mapErr fun e =>
    AnyError.context "Failed to open input file" (.io e)
  let mmap ← (Outcome.ofExcept file).mapErr AnyError.io
  if mmap.len % recordSize ≠ 0 then
    Outcome.err (AnyError.message
      s!"Binary file size {mmap.len} is not a multiple of record size {recordSize}")
  else
    let recordCount := mmap.len / recordSize
    let builder ← readRecords mmap recordCount
    builder.build ph sha256 env

/-- The 320-byte chunks of a binary file. -/
def chunks (bytes : List UInt8) : List (List UInt8) :=
  (List.range (bytes.length / 320)).map fun i => sub bytes (320 * i) (320 * i + 320)

def binaryRecords (f : File) : List (Key × Value) := pairs f.bytes 0 (f.len / 320)

variable {ph sha256 env} {f : File} {i : ℕ} {b : SnapshotBuilder}

theorem readRecord_of_le (h : 320 * i + 320 ≤ f.len) (b : SnapshotBuilder) :
    readRecord f b i =
      .ok (b.addRecord (pairAt f.bytes (320 * i)).1 (pairAt f.bytes (320 * i)).2) := by
  have hl := f.len_lt
  have ho : wrappingMul i recordSize = 320 * i :=
    (wrappingMul_of_lt (by simp only [recordSize, keySize, valueSize]; omega)).trans
      (Nat.mul_comm _ _)
  have hk : wrappingAdd (320 * i) keySize = 320 * i + keySize :=
    wrappingAdd_of_lt (by simp only [keySize]; omega)
  have hr : wrappingAdd (320 * i) recordSize = 320 * i + recordSize :=
    wrappingAdd_of_lt (by simp only [recordSize, keySize, valueSize]; omega)
  have hkr : 320 * i + keySize ≤ 320 * i + recordSize := Nat.add_le_add_left (by decide) _
  rw [readRecord, ho, hk, hr, slice_of_le (by omega) (hkr.trans h), Outcome.ok_bind,
    toArray_of_length (length_sub_key h), Outcome.ok_bind, slice_of_le hkr h, Outcome.ok_bind,
    toArray_of_length (length_sub_value h), Outcome.ok_bind, pairAt,
    Arr.ofList_of_length 0 (length_sub_key h), Arr.ofList_of_length 0 (length_sub_value h)]
  rfl

theorem readRecords_of_le {n : ℕ} (h : 320 * n ≤ f.len) :
    readRecords f n = .ok (.ofRecords (pairs f.bytes 0 n)) := by
  have hr : ∀ i ∈ List.range n, ∀ b, readRecord f b i =
      .ok (b.addRecord (pairAt f.bytes (320 * i)).1 (pairAt f.bytes (320 * i)).2) := by
    intro i hi b
    have := List.mem_range.mp hi
    exact readRecord_of_le (by omega) b
  rw [readRecords, Outcome.foldlM_ok hr, SnapshotBuilder.ofRecords, pairs, List.foldl_map]
  simp only [Nat.zero_add]
  rfl

theorem binaryRecords_bytes (f : File) : (binaryRecords f).map pairBytes = chunks f.bytes := by
  rw [binaryRecords, pairs, List.map_map, chunks]
  apply List.map_congr_left
  intro i hi
  have hi' := List.mem_range.mp hi
  simp only [File.len] at hi'
  have hp := pairBytes_pairAt (show 0 + 320 * i + 320 ≤ f.bytes.length by omega)
  rw [Nat.zero_add (320 * i)] at hp
  rw [Function.comp_apply, Nat.zero_add]
  exact hp

theorem chunks_prefixes (f : File) :
    (chunks f.bytes).map (List.take 64) = ((binaryRecords f).map Prod.fst).map Arr.toList := by
  rw [← binaryRecords_bytes, List.map_map, List.map_map]
  exact List.map_congr_left fun r _ => List.take_left' r.1.length_toList

theorem buildFromBinary_of_dvd (h : 320 ∣ f.len) :
    buildFromBinary ph sha256 env (.ok (.ok f)) =
      (SnapshotBuilder.ofRecords (binaryRecords f)).build ph sha256 env := by
  have hm : f.len % recordSize = 0 := Nat.mod_eq_zero_of_dvd h
  have hr : readRecords f (f.len / recordSize) = .ok (.ofRecords (binaryRecords f)) :=
    readRecords_of_le (Nat.mul_div_le f.len 320)
  simp only [buildFromBinary, Outcome.ofExcept_ok, Outcome.mapErr_ok, Eff.liftM_ok_bind, hm,
    ne_eq, not_true_eq_false, if_false]
  exact Eff.liftM_exec_bind hr _

/-- An input of whole records with distinct keys is imported exactly; any other length is refused
and leaves the output alone. -/
theorem binary_import (ph : Ph Fn) (sha256 : Sha256) (f : File) :
    (0 < f.len → 320 ∣ f.len → ((chunks f.bytes).map (List.take 64)).Nodup →
      f.len / 320 ≤ 10000000000 →
      ∀ fn image, ph.Indexes ((binaryRecords f).map Prod.fst) fn image →
      4096 + (8 + image.length) + 4095 + f.len < 2 ^ 64 → ∀ t old,
      ∃ g log st l, buildFromBinary ph sha256 (.faultless t) (.ok (.ok f)) ⟨old, []⟩ =
          (.ok (), ⟨some g, log⟩) ∧ KvStore.open ph g = .ok st ∧ st.iter = .ok l ∧
        (l.map pairBytes).Perm (chunks f.bytes) ∧ ∀ k v, (k, v) ∈ l → st.get ph k = .ok (some v)) ∧
    (¬ 320 ∣ f.len → ∀ env s, ∃ e,
      buildFromBinary ph sha256 env (.ok (.ok f)) s = (.err e, s)) := by
  constructor
  · intro hpos hdvd hd hn fn image hi hsz t old
    have hlen : (binaryRecords f).length = f.len / 320 := length_pairs
    have hne : binaryRecords f ≠ [] := by
      rw [← List.length_pos_iff_ne_nil, hlen]
      omega
    obtain ⟨g, log, hrun, hg, _⟩ := build_faultless sha256 t hne hi (by omega) old
    obtain ⟨st, ho, hr⟩ := hg.represents (by omega) (chunks_prefixes f ▸ hd).of_map
    obtain ⟨l, hl, hp⟩ := hr.iter_perm
    refine ⟨g, _, st, l, by rw [buildFromBinary_of_dvd hdvd, hrun], ho, hl, ?_, fun k v hm => ?_⟩
    · rw [← binaryRecords_bytes]
      exact hp.map _
    · obtain ⟨r, hget, hv⟩ := hr.get_iff k
      rw [hget, (hv v).mpr (hp.mem_iff.mp hm)]
  · intro hdvd env s
    have hm : f.len % recordSize ≠ 0 := fun h => hdvd (Nat.dvd_of_mod_eq_zero h)
    simp only [buildFromBinary, Outcome.ofExcept_ok, Outcome.mapErr_ok, Eff.liftM_ok_bind, hm,
      ne_eq, not_false_eq_true, if_true]
    exact ⟨_, rfl⟩

def twoFile : File := ⟨(twoRecords.map pairBytes).flatten, by rw [length_cells]; decide⟩

theorem len_twoFile : twoFile.len = 640 := length_cells twoRecords

theorem binaryRecords_twoFile : binaryRecords twoFile = twoRecords := by
  have h : pairs ([] ++ (twoRecords.map pairBytes).flatten) 0 twoRecords.length = twoRecords :=
    pairs_cells twoRecords rfl
  rw [binaryRecords, len_twoFile]
  exact h

theorem binary_import_two :
    (∃ g log st l, buildFromBinary listIndex twoDigest (.faultless 0) (.ok (.ok twoFile))
          ⟨none, []⟩ = (.ok (), ⟨some g, log⟩) ∧ KvStore.open listIndex g = .ok st ∧
        st.iter = .ok l ∧ (l.map pairBytes).Perm (chunks twoFile.bytes) ∧
        ∀ k v, (k, v) ∈ l → st.get listIndex k = .ok (some v)) ∧
      ∃ e, buildFromBinary listIndex twoDigest (.faultless 0) (.ok (.ok ⟨[0], by decide⟩))
        ⟨some twoFile, []⟩ = (.err e, ⟨some twoFile, []⟩) := by
  have hl := len_twoFile
  have hd : ((chunks twoFile.bytes).map (List.take 64)).Nodup := by
    rw [chunks_prefixes, binaryRecords_twoFile]
    decide
  have hi : listIndex.Indexes ((binaryRecords twoFile).map Prod.fst) twoKeys
      (ListIndex.write twoKeys) := by
    rw [binaryRecords_twoFile]
    exact twoRecords_indexes
  have hsz : 4096 + (8 + (ListIndex.write twoKeys).length) + 4095 + twoFile.len < 2 ^ 64 := by
    rw [ListIndex.length_write, hl]
    decide
  have hdvd : ¬ 320 ∣ (⟨[0], by decide⟩ : File).len := by decide
  refine ⟨(binary_import listIndex twoDigest twoFile).1 ?_ ?_ hd ?_ _ _ hi hsz 0 none,
    (binary_import listIndex twoDigest _).2 hdvd _ _⟩
  all_goals rw [hl]; decide

end LowLatencyKv
