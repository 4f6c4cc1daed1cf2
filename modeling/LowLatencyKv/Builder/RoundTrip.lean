import Mathlib.Data.List.Dedup
import LowLatencyKv.Builder.Failure

/-! # Builder and reader as a finite map

Distinct keys come back with their values and nothing else does. A repeated key
is neither refused nor merged: it is handed on to the index crate, on which the
build panics or writes a snapshot that counts additions instead of keys.
-/

namespace LowLatencyKv

open Rust Tables

variable {Fn : Type} {ph : Ph Fn} {sha256 : Sha256} {env : BuildEnv} {t : UInt64}
  {rs : List (Key × Value)} {fn : Fn} {image : List UInt8} {s s' : Output}

/-- The snapshot of distinct keys opens to a store that finds every record, and no other key. -/
theorem build_open_get (hne : rs ≠ []) (hd : (rs.map Prod.fst).Nodup)
    (hn : rs.length ≤ 10000000000) (hi : ph.Indexes (rs.map Prod.fst) fn image)
    (hsz : 4096 + (8 + image.length) + 4095 + 320 * rs.length < 2 ^ 64) (old : Option File) :
    ∃ g log st, (SnapshotBuilder.ofRecords rs).build ph sha256 (.faultless t) ⟨old, []⟩ =
        (.ok (), ⟨some g, log⟩) ∧ KvStore.open ph g = .ok st ∧ st.len = rs.length ∧
      (∀ k v, (k, v) ∈ rs → st.get ph k = .ok (some v)) ∧
      (∀ k, k ∉ rs.map Prod.fst → st.get ph k = .ok none) := by
  obtain ⟨g, log, hrun, hg, _⟩ := build_faultless sha256 t hne hi hsz old
  obtain ⟨st, ho, hr⟩ := hg.represents hn hd
  refine ⟨g, _, st, hrun, ho, hr.len_eq, fun k v hm => ?_, fun k hk => ?_⟩
  · obtain ⟨r, hget, hv⟩ := hr.get_iff k
    rw [hget, (hv v).mpr hm]
  · obtain ⟨r, hget, hv⟩ := hr.get_iff k
    rcases r with _ | v
    · exact hget
    · exact absurd (List.mem_map_of_mem ((hv v).mp rfl)) hk

theorem build_open_get_two :
    ∃ g log st, (SnapshotBuilder.ofRecords twoRecords).build listIndex twoDigest (.faultless 0)
        ⟨none, []⟩ = (.ok (), ⟨some g, log⟩) ∧ KvStore.open listIndex g = .ok st ∧
      st.len = twoRecords.length ∧
      (∀ k v, (k, v) ∈ twoRecords → st.get listIndex k = .ok (some v)) ∧
      (∀ k, k ∉ twoRecords.map Prod.fst → st.get listIndex k = .ok none) :=
  build_open_get (by decide) twoKeys_nodup (by decide) twoRecords_indexes twoRecords_size none

/-- The store lists every added key once, with a value added for it, and counts the keys. -/
def KvStore.ListsKeysOnce (st : KvStore Fn) (rs : List (Key × Value)) : Prop :=
  ∃ l, st.iter = .ok l ∧ (l.map Prod.fst).Nodup ∧
    (∀ k, k ∈ l.map Prod.fst ↔ k ∈ rs.map Prod.fst) ∧ (∀ r ∈ l, r ∈ rs) ∧
    st.len = (rs.map Prod.fst).dedup.length

namespace SnapshotBuilder

variable {f g : File} {index : List UInt8} {d i : ℕ} {m : Mphf Fn} {h : Header}

theorem put_eq_ok_iff {step : BuildStep} :
    Build.put step f s = (.ok g, s') ↔ g = f ∧ s' = ⟨some f, s.log ++ [(step, f)]⟩ := by
  rw [Build.put]
  simp only [Prod.mk.injEq, Outcome.ok.injEq, eq_comm]

theorem copy_ok {a b : ℕ} {src : List UInt8} {step : BuildStep}
    (h : ((liftM (f.copyFromSlice a b src) : Build File) >>= fun g => Build.put step g) s =
      (.ok g, s')) :
    f.copyFromSlice a b src = .ok g ∧ s' = ⟨some g, s.log ++ [(step, g)]⟩ := by
  obtain ⟨f₁, s₁, hc, h⟩ := Eff.bind_eq_ok_iff.mp h
  obtain ⟨rfl, rfl⟩ := put_eq_ok_iff.mp h
  obtain rfl : s = s₁ := congrArg Prod.snd hc
  exact ⟨Outcome.liftM_eq_ok_iff.mp (congrArg Prod.fst hc), rfl⟩

theorem len_of_writeIndex (hw : writeIndex index d f s = (.ok g, s')) :
    4096 + index.length ≤ f.len ∧ g.len = f.len := by
  obtain ⟨f₁, s₁, hc, hw⟩ := Eff.bind_eq_ok_iff.mp hw
  obtain ⟨f₂, s₂, hput, hw⟩ := Eff.bind_eq_ok_iff.mp hw
  obtain ⟨rfl, rfl⟩ := put_eq_ok_iff.mp hput
  have hc := Outcome.liftM_eq_ok_iff.mp (congrArg Prod.fst hc)
  have hlen := File.len_of_copyFromSlice hc
  obtain ⟨hle, hb, hl, _⟩ := File.copyFromSlice_eq_ok_iff.mp hc
  have hfit : 4096 + index.length ≤ f.len := by
    simp only [wrappingAdd, headerSize] at hle hb hl
    omega
  refine ⟨hfit, ?_⟩
  split at hw
  · obtain ⟨f₃, s₃, hfill, hw⟩ := Eff.bind_eq_ok_iff.mp hw
    obtain ⟨rfl, rfl⟩ := put_eq_ok_iff.mp hw
    have hfill := Outcome.liftM_eq_ok_iff.mp (congrArg Prod.fst hfill)
    rw [File.fillSlice] at hfill
    split at hfill
    · rw [File.len_of_copyFromSlice hfill, hlen]
    · cases hfill
  · cases hw
    exact hlen

theorem len_of_writeRecords (hw : writeRecords ph m d f i rs s = (.ok g, s')) : g.len = f.len := by
  induction rs generalizing f i s with
  | nil =>
    cases hw
    rfl
  | cons r rs ih =>
    obtain ⟨f₁, s₁, hr, hw⟩ := Eff.bind_eq_ok_iff.mp hw
    obtain ⟨slot, s₂, _, hr⟩ := Eff.bind_eq_ok_iff.mp hr
    obtain ⟨f₂, s₃, hk, hr⟩ := Eff.bind_eq_ok_iff.mp hr
    obtain ⟨f₃, s₄, hput, hr⟩ := Eff.bind_eq_ok_iff.mp hr
    obtain ⟨rfl, rfl⟩ := put_eq_ok_iff.mp hput
    have hk := Outcome.liftM_eq_ok_iff.mp (congrArg Prod.fst hk)
    rw [ih hw, File.len_of_copyFromSlice (copy_ok hr).1, File.len_of_copyFromSlice hk]

theorem writeHeader_ok (hw : writeHeader sha256 h d f s = (.ok g, s')) :
    ∃ data, f.copyFromSlice 0 headerSize { h with checksum := sha256 data }.toBytes = .ok g ∧
      s' = ⟨some g, s.log ++ [(.header, g)]⟩ ∧
      g.bytes = { h with checksum := sha256 data }.toBytes ++ f.bytes.drop headerSize := by
  obtain ⟨data, s₁, hs, hw⟩ := Eff.bind_eq_ok_iff.mp hw
  obtain rfl : s = s₁ := congrArg Prod.snd hs
  obtain ⟨hc, hs'⟩ := copy_ok hw
  obtain ⟨_, _, _, hb⟩ := File.copyFromSlice_eq_ok_iff.mp hc
  refine ⟨data, hc, hs', ?_⟩
  rw [hb, splice, List.take_zero, List.nil_append, Header.length_toBytes, Nat.zero_add]

/-- A successful build leaves a header of its counts, in front of a file of the size they give with
room for the index. -/
theorem header_of_build {b : SnapshotBuilder} (hb : b.build ph sha256 env s = (.ok (), s')) :
    ∃ g m t c, s'.content = some g ∧ 4096 + m ≤ g.len ∧
      Header.parse g.bytes =
        { Header.new (UInt64.ofNat b.keys.length) (UInt64.ofNat m) t with checksum := c } ∧
      g.len = wrappingAdd (Header.parse g.bytes).dataOffset.toNat
        (wrappingMul b.keys.length recordSize) := by
  obtain ⟨m, s₀, _, hb⟩ := Eff.bind_eq_ok_iff.mp hb
  obtain ⟨index, s₁, _, hb⟩ := Eff.bind_eq_ok_iff.mp hb
  obtain ⟨t, s₂, _, hb⟩ := Eff.bind_eq_ok_iff.mp hb
  obtain ⟨f₀, s₃, hc, hb⟩ := Eff.bind_eq_ok_iff.mp hb
  obtain ⟨f₁, s₄, hi, hb⟩ := Eff.bind_eq_ok_iff.mp hb
  obtain ⟨f₂, s₅, hr, hb⟩ := Eff.bind_eq_ok_iff.mp hb
  obtain ⟨g, s₆, hh, hb⟩ := Eff.bind_eq_ok_iff.mp hb
  obtain rfl : s' = s₆ := congrArg Prod.snd hb.symm
  obtain ⟨data, hcopy, rfl, hg⟩ := writeHeader_ok hh
  obtain ⟨ho, hs, hm⟩ := createOutput_ok hc
  rw [createOutput_run ho hs hm] at hc
  obtain ⟨hfit, hlen₁⟩ := len_of_writeIndex hi
  have hlen : g.len = f₀.len := by
    rw [File.len_of_copyFromSlice hcopy, len_of_writeRecords hr, hlen₁]
  have hp := congrArg Header.parse hg
  rw [Header.parse_toBytes] at hp
  refine ⟨g, index.length, t, sha256 data, rfl, hlen ▸ hfit, hp, ?_⟩
  rw [hlen, hp, ← Outcome.ok.inj (congrArg Prod.fst hc), File.len, File.bytes_setLen_empty,
    List.length_replicate]
  exact UInt64.toNat_ofNat_of_lt' (Nat.mod_lt _ (Nat.two_pow_pos 64))

theorem recordCount_of_build {b : SnapshotBuilder}
    (h : b.build ph sha256 env s = (.ok (), s')) :
    ∃ g, s'.content = some g ∧
      (Header.parse g.bytes).recordCount = UInt64.ofNat b.keys.length := by
  obtain ⟨g, m, t, c, hg, _, hp, _⟩ := header_of_build h
  exact ⟨g, hg, by rw [hp, Header.new]⟩

theorem build_ne_err (hne : rs ≠ []) (hi : ph.Indexes (rs.map Prod.fst) fn image) {e : AnyError} :
    (ofRecords rs).build ph sha256 (.faultless t) s ≠ (.err e, s') := by
  intro h
  rw [build_of_builds hne hi.builds] at h
  rcases Eff.bind_eq_err_iff.mp h with h | ⟨t, s₁, _, h⟩
  · exact Eff.NoError.exec _ _ _ _ h
  rcases writeSnapshot_err h with ⟨total, h⟩ | ⟨io, hf, _⟩
  · rcases createOutput_err h with ⟨io, hf, _⟩ | ⟨io, hf, _⟩ | ⟨io, hf, _⟩
    all_goals exact nomatch hf
  · exact nomatch hf

theorem build_of_panic (hne : rs ≠ []) (hp : ph.fromSliceWithConf (rs.map Prod.fst) = .panic) :
    (ofRecords rs).build ph sha256 env s = (.panic, s) := by
  have hk : (rs.map Prod.fst).length ≠ 0 := by simpa using hne
  have hb : Mphf.build ph (rs.map Prod.fst) = .panic := by
    rw [Mphf.build, if_neg hk, hp]
    rfl
  rw [build, ofRecords_eq, hb]
  rfl

end SnapshotBuilder

theorem len_of_build_open {g : File} {log : List (BuildStep × File)} {st : KvStore Fn}
    (hlen : rs.length < 2 ^ 64)
    (h : (SnapshotBuilder.ofRecords rs).build ph sha256 env s = (.ok (), ⟨some g, log⟩))
    (ho : KvStore.open ph g = .ok st) : rs.length ≤ 10000000000 ∧ st.len = rs.length := by
  obtain ⟨g', hg', hc⟩ := SnapshotBuilder.recordCount_of_build h
  obtain rfl := Option.some.inj hg'
  obtain ⟨fn', ha, rfl⟩ := open_eq_ok_iff.mp ho
  have hn : (Header.parse g.bytes).recordCount.toNat = rs.length := by
    rw [hc, SnapshotBuilder.ofRecords_eq, List.length_map]
    exact UInt64.toNat_ofNat_of_lt' hlen
  have hv := (Header.validate_eq_ok_iff.mp ha.valid).2.2
  rw [UInt64.le_iff_toNat_le, hn] at hv
  exact ⟨hv, hn⟩

/-- The record ranges of a built file that opens lie in the file, whatever index it has. -/
theorem inBounds_of_build_open {Fn' : Type} {ph' : Ph Fn'} {b : SnapshotBuilder} {g : File}
    {log : List (BuildStep × File)} {st : KvStore Fn'}
    (h : b.build ph sha256 env s = (.ok (), ⟨some g, log⟩)) (ho : KvStore.open ph' g = .ok st) :
    st.InBounds := by
  obtain ⟨g', m, t, c, hg', hfit, hp, hlen⟩ := SnapshotBuilder.header_of_build h
  obtain rfl := Option.some.inj hg'
  obtain ⟨fn', ha, rfl⟩ := open_eq_ok_iff.mp ho
  have hv := (Header.validate_eq_ok_iff.mp ha.valid).2.2
  have hl := g.len_lt
  have hm : (UInt64.ofNat m).toNat = m := UInt64.toNat_ofNat_of_lt' (by omega : _ < 2 ^ 64)
  have hn : (Header.parse g.bytes).recordCount.toNat = b.keys.length % 2 ^ 64 := by
    rw [hp]
    exact UInt64.toNat_ofNat'
  have hd : (Header.parse g.bytes).dataOffset.toNat =
      (4096 + m + 4095) % 2 ^ 64 / 4096 * 4096 := by
    have hs : (UInt64.ofNat headerSize + UInt64.ofNat m).toNat = 4096 + m := by
      rw [UInt64.toNat_add, hm, show (UInt64.ofNat headerSize).toNat = 4096 from rfl]
      exact Nat.mod_eq_of_lt (by omega)
    rw [hp, Header.new, toNat_alignTo4k_mod, hs]
  rw [UInt64.le_iff_toNat_le, hn, show maxRecords.toNat = 10000000000 from rfl] at hv
  rw [KvStore.offset_eq, hd] at hlen
  rw [KvStore.inBounds_iff]
  simp only [KvStore.ofFile, hn, hd]
  -- The index fits into the file, which is too short for it if the offset wraps.
  omega

theorem KvStore.Represents.listsKeysOnce {st : KvStore Fn} (h : st.Represents ph rs)
    (hd : (rs.map Prod.fst).Nodup) : st.ListsKeysOnce rs := by
  obtain ⟨l, hl, hp⟩ := h.iter_perm
  have hpk := hp.map Prod.fst
  refine ⟨l, hl, hpk.nodup_iff.mpr hd, fun k => hpk.mem_iff, fun r => hp.mem_iff.mp, ?_⟩
  rw [hd.dedup, List.length_map, h.len_eq]

/-- What panics neither returns an error nor leaves a file that opens. -/
theorem not_refused_or_opens_of_panic {r : Outcome AnyError Unit × Output} {s : Output}
    (h : r = (.panic, s)) (P : KvStore Fn → Prop) :
    ¬ ((∃ e s', r = (.err e, s')) ∨
      ∃ g log st, r = (.ok (), ⟨some g, log⟩) ∧ KvStore.open ph g = .ok st ∧ P st) := by
  rw [h]
  rintro (⟨e, s', he⟩ | ⟨g, log, st, he, _⟩)
  · cases he
  · cases he

/-- A build without failing calls is refused, or yields a store that lists every added key once,
exactly if there are no records or few enough with distinct keys. -/
theorem repeated_keys_iff (hlen : rs.length < 2 ^ 64)
    (hph : ph.fromSliceWithConf (rs.map Prod.fst) = .panic ∨ ∃ fn image,
      ph.Indexes (rs.map Prod.fst) fn image ∧ 8 + image.length < 2 ^ 63)
    (hd : (rs.map Prod.fst).Nodup → ph.fromSliceWithConf (rs.map Prod.fst) ≠ .panic)
    (old : Option File) :
    ((∃ e s', (SnapshotBuilder.ofRecords rs).build ph sha256 (.faultless t) ⟨old, []⟩ =
          (.err e, s')) ∨
        ∃ g log st, (SnapshotBuilder.ofRecords rs).build ph sha256 (.faultless t) ⟨old, []⟩ =
          (.ok (), ⟨some g, log⟩) ∧ KvStore.open ph g = .ok st ∧ st.ListsKeysOnce rs) ↔
      rs = [] ∨ ((rs.map Prod.fst).Nodup ∧ rs.length ≤ 10000000000) := by
  rcases eq_or_ne rs [] with rfl | hne
  · exact iff_of_true (Or.inl ⟨_, _, rfl⟩) (Or.inl rfl)
  rw [or_iff_right hne]
  rcases hph with hp | ⟨fn, image, hi, hm⟩
  · refine iff_of_false ?_ fun h => hd h.1 hp
    exact not_refused_or_opens_of_panic (SnapshotBuilder.build_of_panic hne hp) _
  constructor
  · rintro (⟨e, s', h⟩ | ⟨g, log, st, h, ho, _, _, _, _, _, hcount⟩)
    · exact absurd h (SnapshotBuilder.build_ne_err hne hi)
    obtain ⟨hle, hlen_eq⟩ := len_of_build_open hlen h ho
    refine ⟨?_, hle⟩
    have hk : (rs.map Prod.fst).dedup.length = (rs.map Prod.fst).length := by
      rw [← hcount, hlen_eq, List.length_map]
    rw [← (List.dedup_sublist _).eq_of_length hk]
    exact List.nodup_dedup _
  · rintro ⟨hnd, hn⟩
    obtain ⟨g, log, hrun, hg, _⟩ := build_faultless sha256 t hne hi (by omega) old
    obtain ⟨st, ho, hr⟩ := hg.represents hn hnd
    exact Or.inr ⟨g, _, st, hrun, ho, hr.listsKeysOnce hnd⟩

def repeatedKey : List (Key × Value) :=
  [(Arr.replicate keySize 1, Arr.replicate valueSize 0),
    (Arr.replicate keySize 1, Arr.replicate valueSize 1)]

theorem repeated_keys_iff_two :
    ((∃ e s', (SnapshotBuilder.ofRecords twoRecords).build listIndex twoDigest (.faultless 0)
          ⟨none, []⟩ = (.err e, s')) ∨
        ∃ g log st, (SnapshotBuilder.ofRecords twoRecords).build listIndex twoDigest (.faultless 0)
          ⟨none, []⟩ = (.ok (), ⟨some g, log⟩) ∧ KvStore.open listIndex g = .ok st ∧
            st.ListsKeysOnce twoRecords) :=
  (repeated_keys_iff (by decide)
    (Or.inr ⟨_, _, twoRecords_indexes, by rw [ListIndex.length_write]; decide⟩)
    (fun _ => by rw [twoRecords_indexes.build]; exact nofun) none).mpr
    (Or.inr ⟨twoKeys_nodup, by decide⟩)

/-- Adding one key twice makes the build panic before it touches the output: it is not refused, and
no snapshot is written. -/
theorem repeatedKey_panics :
    (SnapshotBuilder.ofRecords repeatedKey).build listIndex twoDigest (.faultless 0)
        ⟨some pageFile, []⟩ = (.panic, ⟨some pageFile, []⟩) ∧
      ¬ ((∃ e s', (SnapshotBuilder.ofRecords repeatedKey).build listIndex twoDigest (.faultless 0)
            ⟨some pageFile, []⟩ = (.err e, s')) ∨
          ∃ g log st, (SnapshotBuilder.ofRecords repeatedKey).build listIndex twoDigest
              (.faultless 0) ⟨some pageFile, []⟩ = (.ok (), ⟨some g, log⟩) ∧
            KvStore.open listIndex g = .ok st ∧ st.ListsKeysOnce repeatedKey) := by
  have hrun : (SnapshotBuilder.ofRecords repeatedKey).build listIndex twoDigest (.faultless 0)
      ⟨some pageFile, []⟩ = (.panic, ⟨some pageFile, []⟩) :=
    SnapshotBuilder.build_of_panic (by decide) (listIndex_panic (by decide))
  exact ⟨hrun, not_refused_or_opens_of_panic hrun _⟩

end LowLatencyKv
