import Mathlib.Data.List.Sort
import LowLatencyKv.Builder.Damage
import LowLatencyKv.Builder.RoundTrip
import LowLatencyKv.Tables.LastWins

/-! # Builds of any additions

A build panics in front of its first write or not at all, and if it succeeds its
file holds what was added. Two builds leave the same file exactly if time, index,
number of additions and the last value of each key agree.
-/

namespace LowLatencyKv

open Rust Tables
open scoped List

variable {Fn : Type} {ph : Ph Fn} {sha256 : Sha256} {env env' : BuildEnv} {t t' : UInt64}
  {rs rs' : List (Key × Value)} {fn fn' : Fn} {image image' : List UInt8} {g g' : File}
  {s s' : Output} {log log' : List (BuildStep × File)}

namespace IsSnapshot

theorem time_eq (h : IsSnapshot ph sha256 t rs fn image g) :
    (Header.parse g.bytes).buildTimestamp = t := by
  rw [h.parse_eq]
  rfl

theorem exists_rest (h : IsSnapshot ph sha256 t rs fn image g) :
    ∃ rest, g.bytes.drop 4096 = indexBytes rs.length image ++ rest := by
  rw [h.bytes_eq, snapshotBytes, List.append_assoc, List.append_assoc,
    List.drop_left' (Header.length_toBytes _)]
  exact ⟨_, rfl⟩

theorem image_eq (h : IsSnapshot ph sha256 t rs fn image g)
    (h' : IsSnapshot ph sha256 t' rs' fn' image' g) : image = image' := by
  obtain ⟨rest, hr⟩ := h.exists_rest
  obtain ⟨rest', hr'⟩ := h'.exists_rest
  have hm := h.mphfSize_toNat.symm.trans h'.mphfSize_toNat
  obtain ⟨hi, _⟩ := List.append_inj (hr.symm.trans hr') (by simpa using hm)
  exact (List.append_inj hi (by simp)).2

theorem get_fn_eq (h : IsSnapshot ph sha256 t rs fn image g)
    (h' : IsSnapshot ph sha256 t' rs' fn' image g') (k : Key) : ph.get fn k = ph.get fn' k := by
  obtain ⟨fn₀, hr, hg⟩ := h.indexes.read
  obtain ⟨fn₀', hr', hg'⟩ := h'.indexes.read
  obtain rfl := Except.ok.inj (hr.symm.trans hr')
  rw [← hg k, hg' k]

theorem cells_eq_iff (h : IsSnapshot ph sha256 t rs fn image g)
    (h' : IsSnapshot ph sha256 t' rs' fn' image g') (hl : rs.length = rs'.length) :
    snapshotCells ph fn rs = snapshotCells ph fn' rs' ↔
      ∀ k v, (k, v) ≠ blankPair →
        (rs.reverse.lookup k = some v ↔ rs'.reverse.lookup k = some v) := by
  have hs : (Mphf.mk fn rs.length).get ph = (Mphf.mk fn' rs'.length).get ph :=
    Mphf.get_congr (h.get_fn_eq h') hl
  have hp' := h'.indexes.builds.placement_records
  unfold snapshotCells
  rw [← hs] at hp' ⊢
  exact place_replicate_eq_iff h.indexes.builds.placement_records hp' hl

/-- Two snapshots are one file exactly if time, index, number of additions and last values agree. -/
theorem eq_iff (h : IsSnapshot ph sha256 t rs fn image g)
    (h' : IsSnapshot ph sha256 t' rs' fn' image' g') :
    g = g' ↔ t = t' ∧ image = image' ∧ rs.length = rs'.length ∧
      ∀ k v, (k, v) ≠ blankPair →
        (rs.reverse.lookup k = some v ↔ rs'.reverse.lookup k = some v) := by
  constructor
  · rintro rfl
    obtain rfl := h.image_eq h'
    have hl := h.recordCount_toNat.symm.trans h'.recordCount_toNat
    refine ⟨h.time_eq.symm.trans h'.time_eq, rfl, hl, (h.cells_eq_iff h' hl).mp ?_⟩
    rw [← h.cells_eq fn, h'.cells_eq fn]
  · rintro ⟨rfl, rfl, hl, hk⟩
    apply File.ext
    rw [h.bytes_eq, h'.bytes_eq, (h.cells_eq_iff h' hl).mpr hk, hl]

theorem eq_iff_perm (h : IsSnapshot ph sha256 t rs fn image g)
    (h' : IsSnapshot ph sha256 t' rs' fn' image' g') (hd : (rs.map Prod.fst).Nodup)
    (hd' : (rs'.map Prod.fst).Nodup) : g = g' ↔ t = t' ∧ image = image' ∧ rs ~ rs' := by
  rw [h.eq_iff h']
  constructor
  · rintro ⟨ht, rfl, hl, hk⟩
    refine ⟨ht, rfl, ?_⟩
    calc rs
      _ ~ snapshotCells ph fn rs := (snapshotCells_perm h.indexes.builds hd).symm
      _ = snapshotCells ph fn' rs' := (h.cells_eq_iff h' hl).mpr hk
      _ ~ rs' := snapshotCells_perm h'.indexes.builds hd'
  · rintro ⟨ht, rfl, hp⟩
    have hr : (rs.reverse.map Prod.fst).Nodup := by rwa [List.map_reverse, List.nodup_reverse]
    have hr' : (rs'.reverse.map Prod.fst).Nodup := by rwa [List.map_reverse, List.nodup_reverse]
    refine ⟨ht, rfl, hp.length_eq, fun k v _ => ?_⟩
    rw [lookup_eq_some_iff hr, lookup_eq_some_iff hr', List.mem_reverse, List.mem_reverse,
      hp.mem_iff]

end IsSnapshot

namespace SnapshotBuilder

theorem createOutput_fails (h : ¬ (env.openOutput = none ∧ env.setLen = none ∧ env.mapMut = none))
    (n : ℕ) (s : Output) : ∃ e s', createOutput env n s = (.err e, s') := by
  cases ho : env.openOutput with
  | some io => exact ⟨_, _, by simp only [createOutput, ho, Build.call]; rfl⟩
  | none =>
    cases hs : env.setLen with
    | some io => exact ⟨_, _, by simp only [createOutput, ho, hs, Build.call]; rfl⟩
    | none =>
      cases hm : env.mapMut with
      | some io => exact ⟨_, _, by simp only [createOutput, ho, hs, hm, Build.call]; rfl⟩
      | none => exact absurd ⟨ho, hs, hm⟩ h

theorem build_ne_panic (hne : rs ≠ []) (hi : ph.Builds (rs.map Prod.fst) fn image)
    (hsz : 4096 + (8 + image.length) + 4095 + 320 * rs.length < 2 ^ 64) (ht : env.now = some t) :
    (ofRecords rs).build ph sha256 env s ≠ (.panic, s') := by
  intro h
  by_cases hall : env.openOutput = none ∧ env.setLen = none ∧ env.mapMut = none
  · obtain ⟨ho, hs, hm⟩ := hall
    obtain ⟨g, log, hrun, _⟩ := build_bytes sha256 env hne hi hsz ht ho hs hm s
    rw [hrun] at h
    cases hf : env.flush <;> rw [hf] at h <;> cases h
  · rw [build_of_builds hne hi, ht, expect_some, Eff.liftM_exec_bind rfl] at h
    obtain ⟨e, s₁, hc⟩ := createOutput_fails hall (wrappingAdd (Header.new (UInt64.ofNat rs.length)
      (UInt64.ofNat (8 + image.length)) t).dataOffset.toNat (wrappingMul rs.length recordSize)) s
    rw [writeSnapshot, Eff.bind_apply, hc] at h
    cases h

theorem build_of_no_clock (hne : rs ≠ []) (hi : ph.Builds (rs.map Prod.fst) fn image)
    (ht : env.now = none) : (ofRecords rs).build ph sha256 env s = (.panic, s) := by
  rw [build_of_builds hne hi, ht]
  rfl

end SnapshotBuilder

section Outcome

variable (hd : (rs.map Prod.fst).Nodup → ph.Indexes (rs.map Prod.fst) fn image)
  (hrep : ¬ (rs.map Prod.fst).Nodup → ph.fromSliceWithConf (rs.map Prod.fst) = .panic)
  (hsz : 4096 + (8 + image.length) + 4095 + 320 * rs.length < 2 ^ 64)

include hd hrep hsz

theorem build_eq_panic_iff :
    (SnapshotBuilder.ofRecords rs).build ph sha256 env s = (.panic, s') ↔
      s' = s ∧ rs ≠ [] ∧ (¬ (rs.map Prod.fst).Nodup ∨ env.now = none) := by
  rcases eq_or_ne rs [] with rfl | hne
  · refine iff_of_false (fun h => ?_) fun h => h.2.1 rfl
    cases h
  by_cases hnd : (rs.map Prod.fst).Nodup
  · cases ht : env.now with
    | none =>
      rw [SnapshotBuilder.build_of_no_clock hne (hd hnd).builds ht]
      simp [hne, eq_comm]
    | some t =>
      refine iff_of_false (SnapshotBuilder.build_ne_panic hne (hd hnd).builds hsz ht) ?_
      rintro ⟨_, _, h | h⟩
      · exact h hnd
      · cases h
  · rw [SnapshotBuilder.build_of_panic hne (hrep hnd)]
    simp [hne, hnd, eq_comm]

/-- With a crate that panics on repeated keys, a build panics exactly on these or without a clock,
in front of its first write; if it succeeds its file holds the added records. -/
theorem build_outcome :
    (∀ s', (SnapshotBuilder.ofRecords rs).build ph sha256 env s = (.panic, s') ↔
      s' = s ∧ rs ≠ [] ∧ (¬ (rs.map Prod.fst).Nodup ∨ env.now = none)) ∧
    ∀ s', (SnapshotBuilder.ofRecords rs).build ph sha256 env s = (.ok (), s') →
      rs ≠ [] ∧ (rs.map Prod.fst).Nodup ∧ ∃ g, s'.content = some g ∧
        ((∃ e, KvStore.open ph g = .err e) ↔ 10000000000 < rs.length) ∧
        (rs.length ≤ 10000000000 → ∃ st l, KvStore.open ph g = .ok st ∧ st.iter = .ok l ∧ l ~ rs ∧
          ∀ k, st.get ph k = .ok (rs.lookup k)) := by
  refine ⟨fun s' => build_eq_panic_iff hd hrep hsz, fun s' h => ?_⟩
  have hne : rs ≠ [] := by
    rintro rfl
    cases h
  have hnd : (rs.map Prod.fst).Nodup := by
    by_contra hnd
    rw [SnapshotBuilder.build_of_panic hne (hrep hnd)] at h
    cases h
  obtain ⟨t, g, ht, hg, hb⟩ := bytes_of_build_ok (hd hnd).builds hsz h
  have hsnap : IsSnapshot ph sha256 t rs fn image g := ⟨hd hnd, hsz, hb⟩
  refine ⟨hne, hnd, g, hg, hsnap.open_err_iff rfl rfl, fun hn => ?_⟩
  obtain ⟨st, ho, hr⟩ := hsnap.represents hn hnd
  obtain ⟨l, hl, hp⟩ := hr.iter_perm
  refine ⟨st, l, ho, hl, hp, fun k => ?_⟩
  obtain ⟨r, hget, hv⟩ := hr.get_iff k
  rw [hget]
  congr 1
  ext v
  rw [hv, lookup_eq_some_iff hnd]

end Outcome

/-- One key added twice stops the build at an untouched output, and two keys end up in the file. -/
theorem build_outcome_two :
    (SnapshotBuilder.ofRecords repeatedKey).build listIndex twoDigest (.faultless 0)
        ⟨some pageFile, []⟩ = (.panic, ⟨some pageFile, []⟩) ∧
      ∃ g log st l, (SnapshotBuilder.ofRecords twoRecords).build listIndex twoDigest
          (.faultless 0) ⟨some pageFile, []⟩ = (.ok (), ⟨some g, log⟩) ∧
        KvStore.open listIndex g = .ok st ∧ st.iter = .ok l ∧ l ~ twoRecords ∧
        ∀ k, st.get listIndex k = .ok (twoRecords.lookup k) := by
  have hsz : 4096 + (8 + (ListIndex.write (repeatedKey.map Prod.fst)).length) + 4095 +
      320 * repeatedKey.length < 2 ^ 64 := by
    rw [ListIndex.length_write]
    decide
  have hrep : (SnapshotBuilder.ofRecords repeatedKey).build listIndex twoDigest (.faultless 0)
      ⟨some pageFile, []⟩ = (.panic, ⟨some pageFile, []⟩) :=
    ((build_outcome (fun hd => listIndex_indexes hd (by decide)) listIndex_panic hsz).1 _).mpr
      ⟨rfl, by decide, Or.inl (by decide)⟩
  obtain ⟨g, log, hrun, _⟩ :=
    build_faultless twoDigest 0 (by decide) twoRecords_indexes twoRecords_size (some pageFile)
  obtain ⟨_, _, g', hg, _, hopen⟩ :=
    (build_outcome (fun _ => twoRecords_indexes) listIndex_panic twoRecords_size).2 _ hrun
  obtain rfl := Option.some.inj hg
  obtain ⟨st, l, hst⟩ := hopen (by decide)
  exact ⟨hrep, g, _, st, l, hrun, hst⟩

section Build

variable (hi : ph.Indexes (rs.map Prod.fst) fn image)
  (hsz : 4096 + (8 + image.length) + 4095 + 320 * rs.length < 2 ^ 64)
  (h : (SnapshotBuilder.ofRecords rs).build ph sha256 env s = (.ok (), ⟨some g, log⟩))

include hi hsz h

variable (hi' : ph.Indexes (rs'.map Prod.fst) fn' image')
  (hsz' : 4096 + (8 + image'.length) + 4095 + 320 * rs'.length < 2 ^ 64)
  (h' : (SnapshotBuilder.ofRecords rs').build ph sha256 env' s' = (.ok (), ⟨some g', log'⟩))

include hi' hsz' h'

/-- Two builds leave the same file exactly if their times, written indexes, numbers of additions
and last values under each key are the same, up to blank records. -/
theorem builds_same_file_iff :
    g = g' ↔ env.now = env'.now ∧ image = image' ∧ rs.length = rs'.length ∧
      ∀ k v, (k, v) ≠ blankPair →
        (rs.reverse.lookup k = some v ↔ rs'.reverse.lookup k = some v) := by
  obtain ⟨t, ht, hg⟩ := exists_isSnapshot_of_build hi hsz h rfl
  obtain ⟨t', ht', hg'⟩ := exists_isSnapshot_of_build hi' hsz' h' rfl
  rw [hg.eq_iff hg', ht, ht', Option.some.injEq]

end Build

/-- The index of the keys in descending order, in whatever order they are added. -/
def sortedIndex : Ph (List Key) :=
  { listIndex with
    fromSliceWithConf := fun keys =>
      listIndex.fromSliceWithConf (keys.insertionSort fun k k' => k'.toList ≤ k.toList) }

theorem sortedIndex_indexes {keys sorted : List Key} (hd : keys.Nodup) (h : keys.length < 2 ^ 64)
    (hs : keys.insertionSort (fun k k' => k'.toList ≤ k.toList) = sorted) :
    sortedIndex.Indexes keys sorted (ListIndex.write sorted) := by
  have hp : sorted ~ keys := hs ▸ List.perm_insertionSort _ keys
  have hl : sorted.length = keys.length := hp.length_eq
  have hi := listIndex_indexes (hp.nodup_iff.mpr hd) (hl ▸ h)
  have hb : sortedIndex.fromSliceWithConf keys = listIndex.fromSliceWithConf sorted :=
    congrArg listIndex.fromSliceWithConf hs
  have hget : sortedIndex.get = listIndex.get := rfl
  have hread : sortedIndex.read = listIndex.read := rfl
  constructor
  case build => rw [hb, hi.build]
  case write => exact hi.write
  case read =>
    rw [hget, hread]
    exact hi.read
  case slot_lt =>
    rintro k hk
    rw [hget, ← hl]
    exact hi.slot_lt k (hp.mem_iff.mpr hk)
  case slot_inj =>
    rintro k hk k' hk'
    rw [hget]
    exact hi.slot_inj k (hp.mem_iff.mpr hk) k' (hp.mem_iff.mpr hk')

/-- The two records in either order leave one file. -/
theorem builds_same_file_iff_reverse : ∃ g log log',
    (SnapshotBuilder.ofRecords twoRecords).build sortedIndex twoDigest (.faultless 0) ⟨none, []⟩ =
        (.ok (), ⟨some g, log⟩) ∧
      (SnapshotBuilder.ofRecords twoRecords.reverse).build sortedIndex twoDigest (.faultless 0)
        ⟨none, []⟩ = (.ok (), ⟨some g, log'⟩) := by
  have hi : sortedIndex.Indexes (twoRecords.map Prod.fst) twoKeys (ListIndex.write twoKeys) :=
    sortedIndex_indexes twoKeys_nodup (by decide) (by decide)
  have hi' : sortedIndex.Indexes (twoRecords.reverse.map Prod.fst) twoKeys
      (ListIndex.write twoKeys) :=
    sortedIndex_indexes (by decide) (by decide) (by decide)
  have hsz : 4096 + (8 + (ListIndex.write twoKeys).length) + 4095 +
      320 * twoRecords.reverse.length < 2 ^ 64 := by
    rw [List.length_reverse]
    exact twoRecords_size
  obtain ⟨g, log, hrun, _⟩ := build_faultless twoDigest 0 (by decide) hi twoRecords_size none
  obtain ⟨g', log', hrun', _⟩ :=
    build_faultless twoDigest 0 (by simp [twoRecords]) hi' hsz none
  have hd : (twoRecords.reverse.map Prod.fst).Nodup := by decide
  have hsame : g = g' := by
    refine (builds_same_file_iff hi twoRecords_size hrun hi' hsz hrun').mpr
      ⟨rfl, rfl, List.length_reverse.symm, fun k v _ => ?_⟩
    rw [List.reverse_reverse, lookup_eq_some_iff twoKeys_nodup, lookup_eq_some_iff hd,
      List.mem_reverse]
  exact ⟨g, _, _, hrun, hsame ▸ hrun'⟩

end LowLatencyKv
