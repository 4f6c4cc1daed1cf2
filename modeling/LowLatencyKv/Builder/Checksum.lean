import LowLatencyKv.Builder.Damage

/-! # The checksum of a built snapshot

The builder takes the digest of the data section through its mapping and stores it
in the header it writes last. A reader finds the same section behind the offset it
parses, so the digest verifies, and fails for any section with another digest.
-/

namespace LowLatencyKv

open Rust Tables

variable {Fn : Type} {ph : Ph Fn} {sha256 : Sha256} {env : BuildEnv} {t : UInt64}
  {rs : List (Key × Value)} {fn : Fn} {image : List UInt8} {s s' : Output} {g : File}

theorem Header.verifyChecksum_of_ne {h : Header} {data : List UInt8}
    (hne : sha256 data ≠ h.checksum) : h.verifyChecksum sha256 data =
      .err (.checksumMismatch (hexEncode h.checksum.toList) (hexEncode (sha256 data).toList)) :=
  if_pos hne

/-- The digest in a built file is that of its data section: it verifies, and where the digest
tells two sections apart, a file of this length with the same first page and another data section
does not. -/
theorem verifyChecksum_of_build (hn : rs.length ≤ 10000000000)
    (hi : ph.Builds (rs.map Prod.fst) fn image)
    (hsz : 4096 + (8 + image.length) + 4095 + 320 * rs.length < 2 ^ 64)
    (h : (SnapshotBuilder.ofRecords rs).build ph sha256 env s = (.ok (), s')) :
    ∃ g hdr, s'.content = some g ∧ Header.fromBytes g.bytes = .ok hdr ∧
      hdr.verifyChecksum sha256 (g.bytes.drop hdr.dataOffset.toNat) = .ok () ∧
      ∀ f : File, f.len = g.len → f.bytes.take 4096 = g.bytes.take 4096 →
        f.bytes.drop hdr.dataOffset.toNat ≠ g.bytes.drop hdr.dataOffset.toNat →
        (sha256 (f.bytes.drop hdr.dataOffset.toNat) = sha256 (g.bytes.drop hdr.dataOffset.toNat) →
          f.bytes.drop hdr.dataOffset.toNat = g.bytes.drop hdr.dataOffset.toNat) →
        Header.fromBytes f.bytes = .ok hdr ∧
          hdr.verifyChecksum sha256 (f.bytes.drop hdr.dataOffset.toNat) =
            .err (.checksumMismatch (hexEncode hdr.checksum.toList)
              (hexEncode (sha256 (f.bytes.drop hdr.dataOffset.toNat)).toList)) := by
  obtain ⟨t, g, _, hc, hb⟩ := bytes_of_build_ok hi hsz h
  have hg := hasLayout_of_bytes_eq hsz hb
  have hl : 4096 ≤ g.len := by
    have := hg.index_le
    rw [hg.len_eq]
    omega
  have hv : (Header.parse g.bytes).validate = .ok () := by
    rw [hg.parse_eq]
    exact validate_snapshotHeader (by rwa [length_snapshotCells])
  have hsum : sha256 (g.bytes.drop (Header.parse g.bytes).dataOffset.toNat) =
      (Header.parse g.bytes).checksum := by
    rw [hg.parse_eq, hg.drop_dataOffset]
    rfl
  refine ⟨g, Header.parse g.bytes, hc, Header.fromBytes_eq_ok_iff.mpr ⟨hl, hv, rfl⟩, ?_, ?_⟩
  · exact Header.verifyChecksum_eq_ok_iff.mpr hsum
  · intro f hfl ht hne hcoll
    have hp : Header.parse f.bytes = Header.parse g.bytes := Header.parse_congr (by decide) ht
    constructor
    · refine Header.fromBytes_eq_ok_iff.mpr ⟨?_, ?_, hp.symm⟩
      · rw [← hfl] at hl
        exact hl
      · rw [hp, hv]
    · apply Header.verifyChecksum_of_ne
      rw [← hsum]
      exact fun he => hne (hcoll he)

/-- The digest of the two records verifies, and refuses the altered ones. -/
theorem verifyChecksum_of_build_two :
    ∃ (g : File) (log : List (BuildStep × File)) (f : File) (hdr : Header),
      (SnapshotBuilder.ofRecords twoRecords).build listIndex alteredDigest (.faultless 0)
        ⟨none, []⟩ = (.ok (), ⟨some g, log⟩) ∧ f.len = g.len ∧
      hdr.verifyChecksum alteredDigest (g.bytes.drop hdr.dataOffset.toNat) = .ok () ∧
      hdr.verifyChecksum alteredDigest (f.bytes.drop hdr.dataOffset.toNat) =
        .err (.checksumMismatch (hexEncode hdr.checksum.toList)
          (hexEncode (alteredDigest (f.bytes.drop hdr.dataOffset.toNat)).toList)) := by
  obtain ⟨g, log, hrun, hg, hlen, hdo⟩ := build_twoRecords alteredDigest
  obtain ⟨f, hfl, ht, hf⟩ := exists_altered hlen
  obtain ⟨g', hdr, hc, hfrom, hok, hbad⟩ :=
    verifyChecksum_of_build (by decide) twoRecords_indexes.builds twoRecords_size hrun
  obtain rfl := Option.some.inj hc
  obtain ⟨_, _, rfl⟩ := Header.fromBytes_eq_ok_iff.mp hfrom
  have hsec : g.bytes.drop (Header.parse g.bytes).dataOffset.toNat =
      (twoRecords.map pairBytes).flatten := by
    rw [hg.parse_eq, hg.hasLayout.drop_dataOffset, snapshotCells_twoRecords]
  have hsec' : f.bytes.drop (Header.parse g.bytes).dataOffset.toNat =
      (alteredRecords.map pairBytes).flatten := by rw [hdo, hf]
  have ht' : f.bytes.take 4096 = g.bytes.take 4096 := by
    have := congrArg (List.take 4096) ht
    rwa [List.take_take, List.take_take, Nat.min_eq_left (by decide)] at this
  refine ⟨g, log, f, _, hrun, hfl, hok, (hbad f hfl ht' ?_ ?_).2⟩
  · rw [hsec, hsec']
    exact alteredRecords_ne.symm
  · intro he
    rw [hsec, hsec', alteredDigest, alteredDigest, if_pos rfl, if_neg alteredRecords_ne] at he
    exact absurd he (by decide)

end LowLatencyKv
