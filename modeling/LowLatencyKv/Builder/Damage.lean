import LowLatencyKv.Builder.ReadBack
import LowLatencyKv.Store.Footprint

/-! # Damaged snapshots

Which alterations of a snapshot `open` notices. It never reads the checksum, so
whatever it accepts it also accepts with a checksum that does not match, and the
data section of a snapshot may change at will.
-/

namespace LowLatencyKv

open Rust Tables

variable {Fn : Type} {ph : Ph Fn} {sha256 : Sha256} {t : UInt64} {rs : List (Key × Value)}
  {fn : Fn} {image : List UInt8} {f g : File}

theorem isSnapshot_of_build {old : Option File} {log : List (BuildStep × File)}
    (hi : ph.Indexes (rs.map Prod.fst) fn image)
    (hsz : 4096 + (8 + image.length) + 4095 + 320 * rs.length < 2 ^ 64)
    (h : (SnapshotBuilder.ofRecords rs).build ph sha256 (.faultless t) ⟨old, []⟩ =
      (.ok (), ⟨some g, log⟩)) : IsSnapshot ph sha256 t rs fn image g := by
  obtain ⟨t', ht, hg⟩ := exists_isSnapshot_of_build hi hsz h rfl
  obtain rfl := Option.some.inj ht
  exact hg

theorem open_of_maxRecords (h : 4096 ≤ f.len) (hm : (Header.parse f.bytes).magic = magicNumber)
    (hv : (Header.parse f.bytes).version = formatVersion)
    (hc : maxRecords < (Header.parse f.bytes).recordCount) :
    ∃ e, KvStore.open ph f = .err e := by
  refine ⟨.tooManyRecords (Header.parse f.bytes).recordCount maxRecords, open_of_invalid h ?_⟩
  rw [Header.validate, if_neg (not_not.mpr hm), if_neg (not_not.mpr hv), if_pos hc]

namespace IsSnapshot

variable (h : IsSnapshot ph sha256 t rs fn image g)

include h

/-- Whatever the data section of a snapshot is replaced with, only the record count is refused. -/
theorem open_err_iff (hl : f.len = g.len)
    (ht : f.bytes.take (Header.parse g.bytes).dataOffset.toNat =
      g.bytes.take (Header.parse g.bytes).dataOffset.toNat) :
    (∃ e, KvStore.open ph f = .err e) ↔ 10000000000 < rs.length := by
  have hd := h.dataOffset_toNat
  constructor
  · rintro ⟨e, he⟩
    by_contra hn
    obtain ⟨fn', ha, _⟩ := h.accepts (Nat.not_lt.mp hn)
    have ha' := ha.congr hl ht (by rw [h.mphfSize_toNat, hd]; omega)
    rw [open_eq_ok_iff.mpr ⟨fn', ha', rfl⟩] at he
    exact nomatch he
  · intro hn
    have hp : Header.parse f.bytes = Header.parse g.bytes := Header.parse_congr (by omega) ht
    have hc : maxRecords < (Header.parse g.bytes).recordCount := by
      rw [UInt64.lt_iff_toNat_lt, h.recordCount_toNat]
      exact hn
    apply open_of_maxRecords
    · rw [hl, h.len_eq]
      omega
    · rw [hp, h.magic_eq]
    · rw [hp, h.version_eq]
    · rwa [hp]

end IsSnapshot

/-- The bytes from the data offset on hash to the checksum in the header. -/
def ChecksumMatches (sha256 : Sha256) (f : File) : Prop :=
  ∃ data, slice f.bytes (Header.parse f.bytes).dataOffset.toNat f.len = .ok data ∧
    (Header.parse f.bytes).verifyChecksum sha256 data = .ok ()

theorem ChecksumMatches.digest_eq (h : ChecksumMatches sha256 f) :
    sha256 (f.bytes.drop (Header.parse f.bytes).dataOffset.toNat) =
      (Header.parse f.bytes).checksum := by
  obtain ⟨data, hs, hv⟩ := h
  obtain ⟨_, _, rfl⟩ := slice_eq_ok_iff.mp hs
  rw [drop_eq_sub]
  exact Header.verifyChecksum_eq_ok_iff.mp hv

theorem exists_splice {a : ℕ} {src : List UInt8} (h : a + src.length ≤ f.len) :
    ∃ f' : File, f'.bytes = splice f.bytes a src :=
  ⟨⟨splice f.bytes a src, by rw [length_splice h]; exact f.length_lt⟩, rfl⟩

theorem exists_checksum_ne (c : Checksum) : ∃ c' : Checksum, c ≠ c' := by
  have h : Arr.replicate checksumSize (0 : UInt8) ≠ Arr.replicate checksumSize 1 := by decide
  by_cases h0 : c = Arr.replicate checksumSize 0
  · exact ⟨_, h0 ▸ h⟩
  · exact ⟨_, h0⟩

theorem parse_splice_checksum {f' : File} (c : Checksum) (hl : 4096 ≤ f.len)
    (hf : f'.bytes = splice f.bytes 64 c.toList) : (Header.parse f'.bytes).checksum = c := by
  have hfit : 64 + c.toList.length ≤ f.bytes.length := by
    rw [c.length_toList]
    exact le_trans (by decide) hl
  have hs : sub f'.bytes checksumOffset (checksumOffset + checksumSize) = c.toList := by
    have h := sub_splice_self hfit
    rwa [c.length_toList, ← hf] at h
  simp only [Header.parse, hs, Arr.ofList_toList]

/-- Behind the checksum field the data section does not change with the checksum, so that at most
one checksum matches. -/
theorem exists_mismatch_of_ge (hl : 4096 ≤ f.len)
    (hd : 96 ≤ (Header.parse f.bytes).dataOffset.toNat) : ∃ (f' : File) (c : Checksum),
      f'.bytes = splice f.bytes 64 c.toList ∧ ¬ ChecksumMatches sha256 f' := by
  obtain ⟨c, hc⟩ :=
    exists_checksum_ne (sha256 (f.bytes.drop (Header.parse f.bytes).dataOffset.toNat))
  have hcl : 64 + c.toList.length = 96 := congrArg (64 + ·) c.length_toList
  have hfit : 64 + c.toList.length ≤ f.bytes.length := hcl.trans_le (le_trans (by decide) hl)
  obtain ⟨f', hf⟩ := exists_splice hfit
  have hopened := sameOpened_splice (by decide) (hcl.trans_le (by decide)) hl hf
  refine ⟨f', c, hf, fun hm => hc ?_⟩
  have hdig := hm.digest_eq
  rw [parse_splice_checksum c hl hf, hopened.dataOffset_eq, drop_eq_sub, hf, length_splice hfit,
    sub_splice_of_disjoint hfit (Or.inr (by omega)), ← drop_eq_sub] at hdig
  exact hdig

/-- A data section that starts in front of the end of the checksum field contains the byte behind
that field, and the checksum matches at most one of two digests. -/
theorem exists_mismatch_of_digest_ne (hl : 4096 ≤ f.len) {x y : UInt8}
    (hne : sha256 ((splice f.bytes 96 [x]).drop (Header.parse f.bytes).dataOffset.toNat) ≠
      sha256 ((splice f.bytes 96 [y]).drop (Header.parse f.bytes).dataOffset.toNat)) :
    ∃ (f' : File) (z : UInt8), f'.bytes = splice f.bytes 96 [z] ∧ ¬ ChecksumMatches sha256 f' := by
  have hone (z : UInt8) : ∃ f' : File, f'.bytes = splice f.bytes 96 [z] ∧
      (ChecksumMatches sha256 f' →
        sha256 ((splice f.bytes 96 [z]).drop (Header.parse f.bytes).dataOffset.toNat) =
          (Header.parse f.bytes).checksum) := by
    have hz : 96 + [z].length ≤ f.len := le_trans (by decide : 97 ≤ 4096) hl
    obtain ⟨f', hf⟩ := exists_splice hz
    have ht : f'.bytes.take 96 = f.bytes.take 96 := by rw [hf, take_splice hz le_rfl]
    have hp : Header.parse f'.bytes = Header.parse f.bytes := Header.parse_congr le_rfl ht
    refine ⟨f', hf, fun hm => ?_⟩
    have hdig := hm.digest_eq
    rwa [hp, hf] at hdig
  obtain ⟨fx, hfx, hx⟩ := hone x
  obtain ⟨fy, hfy, hy⟩ := hone y
  by_cases hm : ChecksumMatches sha256 fx
  · exact ⟨fy, y, hfy, fun hm' => hne ((hx hm).trans (hy hm').symm)⟩
  · exact ⟨fx, x, hfx, hm⟩

theorem exists_mismatch (hl : 4096 ≤ f.len)
    (hsha : (Header.parse f.bytes).dataOffset.toNat < 96 → ∃ x y,
      sha256 ((splice f.bytes 96 [x]).drop (Header.parse f.bytes).dataOffset.toNat) ≠
        sha256 ((splice f.bytes 96 [y]).drop (Header.parse f.bytes).dataOffset.toNat)) :
    ∃ (f' : File) (a : ℕ) (src : List UInt8), 64 ≤ a ∧ a + src.length ≤ 97 ∧
      f'.bytes = splice f.bytes a src ∧ ¬ ChecksumMatches sha256 f' := by
  rcases Nat.lt_or_ge (Header.parse f.bytes).dataOffset.toNat 96 with hd | hd
  · obtain ⟨x, y, hne⟩ := hsha hd
    obtain ⟨f', z, hf, hm⟩ := exists_mismatch_of_digest_ne hl hne
    exact ⟨f', 96, [z], by decide, le_rfl, hf, hm⟩
  · obtain ⟨f', c, hf, hm⟩ := exists_mismatch_of_ge hl hd
    refine ⟨f', 64, c.toList, le_rfl, ?_, hf, hm⟩
    rw [c.length_toList]
    decide

/-- Opening certifies no checksum. It accepts a file whatever stands outside its layout fields and
its index, among them a mismatching checksum, and a snapshot whatever its data section is replaced
with. -/
theorem integrity_on_load_iff (ph : Ph Fn) (sha256 : Sha256) :
    (∀ f f' : File, SameOpened f f' →
      ((∃ s, KvStore.open ph f' = .ok s) ↔ ∃ s, KvStore.open ph f = .ok s)) ∧
    (∀ (f : File) (s : KvStore Fn), KvStore.open ph f = .ok s →
      ((Header.parse f.bytes).dataOffset.toNat < 96 → ∃ x y,
        sha256 ((splice f.bytes 96 [x]).drop (Header.parse f.bytes).dataOffset.toNat) ≠
          sha256 ((splice f.bytes 96 [y]).drop (Header.parse f.bytes).dataOffset.toNat)) →
      ∃ (f' : File) (s' : KvStore Fn) (a : ℕ) (src : List UInt8), 64 ≤ a ∧ a + src.length ≤ 97 ∧
        f'.bytes = splice f.bytes a src ∧ KvStore.open ph f' = .ok s' ∧
          ¬ ChecksumMatches sha256 f') ∧
    ∀ rs fn image t old g log, ph.Indexes (rs.map Prod.fst) fn image →
      4096 + (8 + image.length) + 4095 + 320 * rs.length < 2 ^ 64 →
      (SnapshotBuilder.ofRecords rs).build ph sha256 (.faultless t) ⟨old, []⟩ =
        (.ok (), ⟨some g, log⟩) →
      ∀ f : File, f.len = g.len →
        f.bytes.take (Header.parse g.bytes).dataOffset.toNat =
          g.bytes.take (Header.parse g.bytes).dataOffset.toNat →
        ((∃ e, KvStore.open ph f = .err e) ↔ 10000000000 < rs.length) := by
  refine ⟨fun f f' h => h.accepted_iff, fun f s ho hsha => ?_, ?_⟩
  · obtain ⟨fn, ha, _⟩ := open_eq_ok_iff.mp ho
    obtain ⟨f', a, src, h64, h97, hf, hm⟩ := exists_mismatch ha.page_le hsha
    have hopened : SameOpened f f' :=
      sameOpened_splice (by omega) (by omega) ha.page_le hf
    obtain ⟨s', ho'⟩ := hopened.accepted_iff.mpr ⟨s, ho⟩
    exact ⟨f', s', a, src, h64, h97, hf, ho', hm⟩
  · intro rs fn image t old g log hi hsz hb f hl ht
    exact (isSnapshot_of_build hi hsz hb).open_err_iff hl ht

def alteredRecords : List (Key × Value) :=
  [(Arr.replicate keySize 1, Arr.replicate valueSize 1), (zeroKey, Arr.replicate valueSize 1)]

/-- The digests of the data sections of the altered and of the original records. -/
def alteredDigest : Sha256 := fun data =>
  if data = (alteredRecords.map pairBytes).flatten then
    ⟨[141, 29, 224, 166, 244, 176, 239, 52, 169, 152, 162, 68, 0, 67, 224, 26, 93, 224, 119, 11,
      227, 250, 8, 217, 164, 187, 115, 29, 182, 242, 7, 131], rfl⟩
  else twoDigest data

theorem alteredRecords_ne :
    (twoRecords.map pairBytes).flatten ≠ (alteredRecords.map pairBytes).flatten := by
  intro h
  simp only [twoRecords, alteredRecords, List.map_cons, List.map_nil, List.flatten_cons,
    List.flatten_nil, List.append_nil, List.append_cancel_left_eq] at h
  have hv := congrArg Prod.snd (pairBytes_injective h)
  exact absurd hv (by decide)

theorem snapshotCells_twoRecords : snapshotCells listIndex twoKeys twoRecords = twoRecords := rfl

theorem exists_altered (hlen : g.len = 8832) : ∃ f : File, f.len = g.len ∧
    f.bytes.take 8192 = g.bytes.take 8192 ∧
    f.bytes.drop 8192 = (alteredRecords.map pairBytes).flatten := by
  have hpre : (g.bytes.take 8192).length = 8192 := by
    rw [List.length_take]
    simp only [File.len] at hlen
    omega
  have hsec : (alteredRecords.map pairBytes).flatten.length = 640 := length_cells alteredRecords
  refine ⟨⟨g.bytes.take 8192 ++ (alteredRecords.map pairBytes).flatten, ?_⟩, ?_, ?_, ?_⟩
  · rw [List.length_append, hpre, hsec]
    decide
  · rw [File.len, List.length_append, hpre, hsec, hlen]
  · rw [List.take_left' hpre]
  · rw [List.drop_left' hpre]

theorem sameOpened_of_take {d : ℕ} (hl : f.len = g.len) (ht : f.bytes.take d = g.bytes.take d)
    (hd : 4096 + (Header.parse g.bytes).mphfSize.toNat ≤ d) : SameOpened g f where
  len_eq := hl
  fields := by rw [← sub_take (by omega : 40 ≤ d), ht, sub_take (by omega)]
  index := by rw [← sub_take hd, ht, sub_take hd]

/-- The snapshot of the two records, and a file with the data section of the altered ones. -/
theorem exists_altered_build :
    ∃ (g : File) (log : List (BuildStep × File)) (f : File) (s : KvStore (List Key)),
      (SnapshotBuilder.ofRecords twoRecords).build listIndex alteredDigest (.faultless 0)
        ⟨none, []⟩ = (.ok (), ⟨some g, log⟩) ∧
      IsSnapshot listIndex alteredDigest 0 twoRecords twoKeys (ListIndex.write twoKeys) g ∧
      (Header.parse g.bytes).dataOffset.toNat = 8192 ∧ KvStore.open listIndex g = .ok s ∧
      f.len = g.len ∧ f.bytes.take 8192 = g.bytes.take 8192 ∧
      f.bytes.drop 8192 = (alteredRecords.map pairBytes).flatten ∧ SameOpened g f := by
  obtain ⟨g, log, hrun, hg, hlen, hoff⟩ := build_twoRecords alteredDigest
  obtain ⟨f, hfl, ht, hdrop⟩ := exists_altered hlen
  obtain ⟨fn', ha, _⟩ := hg.accepts (by decide)
  have hm : 4096 + (Header.parse g.bytes).mphfSize.toNat ≤ 8192 := by
    rw [hg.mphfSize_toNat, ListIndex.length_write]
    decide
  exact ⟨g, _, f, _, hrun, hg, hoff, open_eq_ok_iff.mpr ⟨fn', ha, rfl⟩, hfl, ht, hdrop,
    sameOpened_of_take hfl ht hm⟩

/-- The altered snapshot is accepted, and so is a copy of it whose checksum does not match. -/
theorem integrity_on_load_iff_altered :
    ∃ (g : File) (log : List (BuildStep × File)) (f : File),
      (SnapshotBuilder.ofRecords twoRecords).build listIndex alteredDigest (.faultless 0)
        ⟨none, []⟩ = (.ok (), ⟨some g, log⟩) ∧ f ≠ g ∧
      f.bytes.drop 8192 = (alteredRecords.map pairBytes).flatten ∧
      (¬ ∃ e, KvStore.open listIndex f = .err e) ∧ (∃ s, KvStore.open listIndex f = .ok s) ∧
      ∃ (f' : File) (s' : KvStore (List Key)) (a : ℕ) (src : List UInt8), 64 ≤ a ∧
        a + src.length ≤ 97 ∧ f'.bytes = splice f.bytes a src ∧
          KvStore.open listIndex f' = .ok s' ∧ ¬ ChecksumMatches alteredDigest f' := by
  obtain ⟨hsame, hnever, hbuilt⟩ := integrity_on_load_iff listIndex alteredDigest
  obtain ⟨g, log, f, s₀, hrun, hg, hoff, ho₀, hfl, ht, hdrop, hopened⟩ := exists_altered_build
  obtain ⟨s, ho⟩ := (hsame g f hopened).mpr ⟨s₀, ho₀⟩
  have hd : ¬ (Header.parse f.bytes).dataOffset.toNat < 96 := by
    rw [hopened.dataOffset_eq, hoff]
    decide
  refine ⟨g, log, f, hrun, ?_, hdrop, ?_, ⟨s, ho⟩, hnever f s ho fun h => absurd h hd⟩
  · rintro rfl
    have hcells := hg.hasLayout.drop_dataOffset
    rw [← hg.parse_eq, hoff, hdrop, snapshotCells_twoRecords] at hcells
    exact alteredRecords_ne hcells.symm
  · rw [hbuilt _ _ _ _ _ _ _ twoRecords_indexes twoRecords_size hrun f hfl (by rwa [hoff])]
    decide

/-- A snapshot whose data section was altered opens, and its checksum does not match. -/
theorem altered_section_accepted :
    ∃ (g : File) (log : List (BuildStep × File)) (f : File) (s : KvStore (List Key)),
      (SnapshotBuilder.ofRecords twoRecords).build listIndex alteredDigest (.faultless 0)
        ⟨none, []⟩ = (.ok (), ⟨some g, log⟩) ∧ f.len = g.len ∧
      f.bytes.take 8192 = g.bytes.take 8192 ∧
      f.bytes.drop 8192 = (alteredRecords.map pairBytes).flatten ∧
      KvStore.open listIndex f = .ok s ∧
      (Header.parse f.bytes).verifyChecksum alteredDigest (f.bytes.drop 8192) ≠ .ok () := by
  obtain ⟨g, log, f, s₀, hrun, hg, _, ho₀, hfl, ht, hdrop, hopened⟩ := exists_altered_build
  obtain ⟨s, ho⟩ := hopened.accepted_iff.mpr ⟨s₀, ho₀⟩
  refine ⟨g, log, f, s, hrun, hfl, ht, hdrop, ho, ?_⟩
  have hp : Header.parse f.bytes = Header.parse g.bytes := Header.parse_congr (by decide) ht
  have hc : (Header.parse g.bytes).checksum = twoDigest [] := by
    rw [hg.parse_eq, snapshotCells_twoRecords, snapshotHeader, alteredDigest,
      if_neg alteredRecords_ne]
    rfl
  rw [ne_eq, Header.verifyChecksum_eq_ok_iff, hp, hc, hdrop, alteredDigest, if_pos rfl]
  decide

end LowLatencyKv
