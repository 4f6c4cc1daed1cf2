import LowLatencyKv.Builder.Validate
import LowLatencyKv.Validator.Bench
import LowLatencyKv.Validator.Check
import LowLatencyKv.Validator.Diff
import LowLatencyKv.Validator.Verify

/-! # The commands on a built snapshot

What the builder writes passes validation, the check, the verification of its
records, the benchmark and a comparison with itself, whatever keys are sampled and
however many lookups are made.
-/

namespace LowLatencyKv

open Rust Tables

namespace Validator

variable {Fn : Type} {ph : Ph Fn} {sha256 : Sha256} {rs : List (Key × Value)} {g f : File}
  {st : KvStore Fn} {sample : List Key} {sampleSize : ℕ}
  {chooseMultiple : List Key → ℕ → List Key}

/-- The pair that expects a record to be stored. -/
def expectRecord (r : Key × Value) : ExpectedPair :=
  ⟨hexEncode r.1.toList, hexEncode r.2.toList⟩

theorem BuiltFrom.ne_nil (h : BuiltFrom ph sha256 rs g) : rs ≠ [] := by
  obtain ⟨env, s, log, hbuild⟩ := h.exists_build
  rintro rfl
  cases congrArg Prod.fst hbuild

theorem get_ne_none (hd : (rs.map Prod.fst).Nodup) (hget : ∀ k, st.get ph k = .ok (rs.lookup k))
    (hp : st.cells.Perm rs) {k : Key} (hk : k ∈ st.cells.map Prod.fst) :
    st.get ph k ≠ .ok none := by
  obtain ⟨⟨k, v⟩, hc, rfl⟩ := List.mem_map.mp hk
  rw [hget, lookup_of_mem hd (hp.mem_iff.mp hc)]
  exact nofun

theorem checkSnapshot_of_found (elapsedMs : ℕ) (path : String) (json : Bool) (out : Report)
    (ho : KvStore.open ph f = .ok st) (hb : st.InBounds)
    (hsample : chooseMultiple (st.cells.map Prod.fst) (min sampleSize st.cells.length) = sample)
    (hfound : ∀ k ∈ sample, st.get ph k ≠ .ok none) :
    checkSnapshot ph chooseMultiple elapsedMs path f sampleSize json out =
      (.ok (), out ++ reportOf json
        ⟨path, st.len, sample.length, sample.length % 2 ^ 64, 0, elapsedMs, "PASS"⟩) := by
  have hsome : ∀ k ∈ sample, ((st.table ph).get k).isSome := by
    rintro k hk
    have hne := hfound k hk
    rw [KvStore.get_eq hb] at hne
    rw [Option.isSome_iff_ne_none]
    exact fun h0 => hne (congrArg _ h0)
  have hnone : sample.countP (fun k => ((st.table ph).get k).isNone) = 0 := by
    rw [List.countP_eq_zero]
    rintro k hk
    simpa [← Option.isSome_iff_ne_none] using hsome k hk
  have hkeys := foldlM_checkKey ph hb sample (Nat.two_pow_pos 64) (Nat.two_pow_pos 64)
  rw [List.countP_eq_length.mpr hsome, hnone, Nat.zero_add, Nat.zero_mod] at hkeys
  unfold checkSnapshot
  rw [ho]
  simp only [Build.context, Outcome.mapErr_ok, Eff.liftM_ok_bind, Eff.liftM_exec_bind
    (KvStore.iter_eq hb), List.length_map, hsample, checkKeys, Eff.liftM_exec_bind hkeys]
  rw [printReport_bind]
  rfl

theorem validateSnapshot_of_found {l : List (Key × Value)} (ho : KvStore.open ph f = .ok st)
    (hb : st.InBounds) (hi : st.iter = .ok l)
    (hfound : ∀ k ∈ chooseMultiple (l.map Prod.fst) (min sampleSize l.length),
      st.get ph k ≠ .ok none) :
    validateSnapshot ph chooseMultiple f sampleSize = .ok () := by
  have hmisses : misses ph st (chooseMultiple (l.map Prod.fst) (min sampleSize l.length)) = 0 := by
    unfold misses
    rw [List.countP_eq_zero]
    rintro k hk
    simpa using hfound k hk
  rw [validateSnapshot_eq ho hb hi, hmisses]
  exact if_neg (by decide)

theorem verifies_expectRecord (hd : (rs.map Prod.fst).Nodup)
    (hget : ∀ k, st.get ph k = .ok (rs.lookup k)) {r : Key × Value} (hr : r ∈ rs) :
    Verifies ph st (expectRecord r) := by
  rintro k hk
  rw [expectRecord, toList_hexEncode, hexValue_hexChars] at hk
  obtain rfl := Arr.ext hk
  refine ⟨r.2, by rw [hget, lookup_of_mem hd hr], ?_⟩
  rw [expectRecord, toList_hexEncode, hexValue_hexChars]

theorem fits_expectRecord (r : Key × Value) : Fits ph st (expectRecord r) := by
  rintro k v _ _
  rw [expectRecord, toList_hexEncode, hexValue_hexChars, r.2.length_toList]

theorem verifyExpected_of_records {pairs : List ExpectedPair} (ho : KvStore.open ph f = .ok st)
    (hb : st.InBounds) (hd : (rs.map Prod.fst).Nodup)
    (hget : ∀ k, st.get ph k = .ok (rs.lookup k))
    (hpairs : ∀ p ∈ pairs, ∃ r ∈ rs, p = expectRecord r) (out : Console) :
    (verifyExpected ph f (.ok (.ok pairs)) out).1 = .ok () := by
  have hhex : ∀ p ∈ pairs, IsHex p.key ∧ IsHex p.value := by
    rintro p hp
    obtain ⟨r, _, rfl⟩ := hpairs p hp
    exact ⟨isHex_hexEncode _, isHex_hexEncode _⟩
  have hfits : ∀ p ∈ pairs, Fits ph st p := by
    rintro p hp
    obtain ⟨r, _, rfl⟩ := hpairs p hp
    exact fits_expectRecord r
  have hall : ∀ p ∈ pairs, Verifies ph st p := by
    rintro p hp
    obtain ⟨r, hr, rfl⟩ := hpairs p hp
    exact verifies_expectRecord hd hget hr
  have hn : pairs.countP (fun p => verdict ph st p = .failed) = 0 := by
    rw [List.countP_eq_zero]
    rintro p hp
    simpa [verdict_eq_failed_iff hb] using hall p hp
  rcases verifyExpected_verdict ho hb hhex hfits (by rw [hn]; decide) out with
    ⟨_, hrun⟩ | ⟨⟨p, hp, hnot⟩, _⟩
  · exact hrun
  · exact absurd (hall p hp) hnot

theorem diffSnapshots_self (hA : BuiltFrom ph sha256 rs g) (maxDiffs : UInt64) (out : Console) :
    diffSnapshots ph g g maxDiffs out =
      (.ok (), out ++ diffHeader rs.length rs.length ++ diffSummary 0 0 0) := by
  have htotal : diffTotal rs rs = 0 := diffTotal_eq_zero_iff.mpr fun _ => rfl
  obtain ⟨shown, hrun, hlen, _⟩ :=
    reportsDiff_of_built hA hA (by rw [htotal]; decide) maxDiffs out
  unfold diffTotal at htotal
  rw [htotal, Nat.min_zero, List.length_eq_zero_iff] at hlen
  have h₁ : (onlyIn rs rs).card = 0 := by omega
  have h₂ : (differ rs rs).card = 0 := by omega
  rw [hrun, hlen, h₁, h₂, List.append_nil]

/-- A built snapshot passes each of the commands, and a comparison with itself shows nothing. -/
theorem commands_accept_build (hA : BuiltFrom ph sha256 rs g) :
    (∀ chooseMultiple sampleSize, ChoosesPositions chooseMultiple →
      validateSnapshot ph chooseMultiple g sampleSize = .ok () ∧
      ∀ elapsedMs path json out, ∃ result, result.status = "PASS" ∧
        checkSnapshot ph chooseMultiple elapsedMs path g sampleSize json out =
          (.ok (), out ++ reportOf json result)) ∧
    (∀ pairs, (∀ p ∈ pairs, ∃ r ∈ rs, p = expectRecord r) →
      ∀ out, (verifyExpected ph g (.ok (.ok pairs)) out).1 = .ok ()) ∧
    (∀ timing iterations warmup out, benchmarkLookups ph timing g iterations warmup out =
      (.ok (), out ++ benchReport (timing iterations) iterations)) ∧
    ∀ maxDiffs out, diffSnapshots ph g g maxDiffs out =
      (.ok (), out ++ diffHeader rs.length rs.length ++ diffSummary 0 0 0) := by
  obtain ⟨st, ho, hb, hlen, hget, hp⟩ := hA.opens
  have hfound {k : Key} (hk : k ∈ st.cells.map Prod.fst) : st.get ph k ≠ .ok none :=
    get_ne_none hA.nodup hget hp hk
  have hle (n : ℕ) : min n st.cells.length ≤ (st.cells.map Prod.fst).length := by
    rw [List.length_map]
    exact Nat.min_le_right _ _
  refine ⟨fun chooseMultiple sampleSize hc => ⟨?_, fun elapsedMs path json out => ?_⟩,
    fun pairs hpairs out => ?_, fun timing iterations warmup out => ?_, diffSnapshots_self hA⟩
  · apply validateSnapshot_of_found ho hb (KvStore.iter_eq hb)
    rintro k hk
    exact hfound ((hc _ _ (hle sampleSize)).2.subset hk)
  · refine ⟨_, rfl, checkSnapshot_of_found elapsedMs path json out ho hb rfl ?_⟩
    exact fun k hk => hfound ((hc _ _ (hle sampleSize)).2.subset hk)
  · exact verifyExpected_of_records ho hb hA.nodup hget hpairs out
  · apply benchmarkLookups_of_inBounds ho hb
    have hn : st.recordCount = rs.length := hlen
    rw [hn, Ne, List.length_eq_zero_iff]
    exact hA.ne_nil

theorem commands_accept_build_two : ∃ g,
    validateSnapshot listIndex (flip List.take) g 1000 = .ok () ∧
      (∃ result, result.status = "PASS" ∧
        checkSnapshot listIndex (flip List.take) 0 "snapshot.bin" g 1000 true [] =
          (.ok (), [] ++ reportOf true result)) ∧
      (verifyExpected listIndex g (.ok (.ok (twoRecords.map expectRecord))) []).1 = .ok () ∧
      benchmarkLookups listIndex (fun _ => ⟨"0.01", "100000", "100", "0.10"⟩) g 1000 10 [] =
        (.ok (), [] ++ benchReport ⟨"0.01", "100000", "100", "0.10"⟩ 1000) ∧
      diffSnapshots listIndex g g 10 [] = (.ok (), [] ++ diffHeader 2 2 ++ diffSummary 0 0 0) := by
  obtain ⟨g, hA⟩ := exists_builtFrom twoDigest (by decide) twoKeys_nodup (by decide)
  obtain ⟨hsample, hverify, hbench, hdiff⟩ := commands_accept_build hA
  obtain ⟨hvalidate, hcheck⟩ := hsample _ 1000 choosesPositions_take
  refine ⟨g, hvalidate, hcheck 0 "snapshot.bin" true [], hverify _ ?_ [], hbench _ 1000 10 [],
    hdiff 10 []⟩
  rintro p hp
  obtain ⟨r, hr, rfl⟩ := List.mem_map.mp hp
  exact ⟨r, hr, rfl⟩

end Validator

end LowLatencyKv
