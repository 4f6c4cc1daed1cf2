import LowLatencyKv.Rust.Counter
import LowLatencyKv.Validator.Hex

/-! # Verifying expected pairs

The `verify` command of the validator counts passed and failed pairs in 32-bit
integers and fails if the second count is positive. A key of another size than 64
bytes is skipped, and a value passes if it starts with the expected bytes.
-/

namespace LowLatencyKv

open Rust Tables

namespace Validator

/-- A pair of hexadecimal strings from the file of expected pairs. -/
structure ExpectedPair where
  key : String
  value : String
  deriving DecidableEq, Repr

structure Tally where
  passed : Int32
  failed : Int32
  deriving DecidableEq

section

variable {Fn : Type} (ph : Ph Fn)

def verifyPair (store : KvStore Fn) (t : Tally) (pair : ExpectedPair) :
    Outcome AnyError Tally := do
  let key ← hexDecode pair.key
  let expectedValue ← hexDecode pair.value
  if h : key.length = keySize then
    let found ← store.get ph ⟨key, h⟩
    match found with
    | some value =>
      let start ← slice value.toList 0 expectedValue.length
      if start = expectedValue then pure { t with passed := t.passed + 1 }
      else pure { t with failed := t.failed + 1 }
    | none => pure { t with failed := t.failed + 1 }
  else pure t

def verifyPairs (store : KvStore Fn) (pairs : List ExpectedPair) : Outcome AnyError Tally :=
  pairs.foldlM (verifyPair ph store) ⟨0, 0⟩

/-- Verifies the pairs that parsing the expected file yields. -/
def verifyExpected (snapshot : Except IoError File)
    (expected : Except IoError (Except String (List ExpectedPair))) :
    Eff Console AnyError Unit := do
  let store ← Build.context (KvStore.open ph snapshot) "Failed to open snapshot"
  let file ← (Outcome.ofExcept expected).mapErr fun e =>
    AnyError.context "Failed to open expected file" (.io e)
  let pairs ← (Outcome.ofExcept file).mapErr fun e =>
    AnyError.context "Failed to parse expected file" (.message e)
  let t ← verifyPairs ph store pairs
  println ""
  println ("Verification Result: " ++ toString t.passed ++ " passed, " ++ toString t.failed ++
    " failed")
  if t.failed > 0 then
    liftM (Outcome.err (AnyError.message (toString t.failed ++ " verifications failed")) :
      Outcome AnyError Unit)
  else pure ()

end

inductive Verdict where
  | passed
  | failed
  | skipped
  deriving DecidableEq, Repr

def Tally.count (t : Tally) : Verdict → Tally
  | .passed => { t with passed := t.passed + 1 }
  | .failed => { t with failed := t.failed + 1 }
  | .skipped => t

variable {Fn : Type} (ph : Ph Fn)

/-- What becomes of a pair of well-formed strings. -/
def verdict (store : KvStore Fn) (pair : ExpectedPair) : Verdict :=
  if h : (hexValue pair.key.toList).length = keySize then
    match (store.table ph).get ⟨hexValue pair.key.toList, h⟩ with
    | some value =>
      if hexValue pair.value.toList <+: value.toList then .passed else .failed
    | none => .failed
  else .skipped

/-- If the decoded key has 64 bytes, it is stored with a value that starts with the decoded
bytes. -/
def Verifies (store : KvStore Fn) (pair : ExpectedPair) : Prop :=
  ∀ k : Key, k.toList = hexValue pair.key.toList →
    ∃ v, store.get ph k = .ok (some v) ∧ hexValue pair.value.toList <+: v.toList

/-- A stored key comes with no more expected bytes than a value has. -/
def Fits (store : KvStore Fn) (pair : ExpectedPair) : Prop :=
  ∀ (k : Key) (v : Value), k.toList = hexValue pair.key.toList →
    store.get ph k = .ok (some v) → (hexValue pair.value.toList).length ≤ 256

variable {ph} {st : KvStore Fn} {p : ExpectedPair} {pairs : List ExpectedPair} {t : Tally}

theorem verdict_eq_failed_iff (hb : st.InBounds) :
    verdict ph st p = .failed ↔ ¬ Verifies ph st p := by
  unfold verdict Verifies
  split
  case isTrue h =>
    have hkey {k : Key} (hk : k.toList = hexValue p.key.toList) : k = ⟨_, h⟩ := Arr.ext hk
    cases hg : (st.table ph).get ⟨hexValue p.key.toList, h⟩ with
    | none =>
      refine iff_of_true rfl fun hv => ?_
      obtain ⟨v, hv, _⟩ := hv ⟨_, h⟩ rfl
      rw [KvStore.get_eq hb, hg] at hv
      cases hv
    | some v =>
      simp only [ite_eq_right_iff, reduceCtorEq, imp_false]
      refine not_congr ⟨fun hp k hk => ⟨v, ?_, hp⟩, fun hv => ?_⟩
      · rw [KvStore.get_eq hb, hkey hk, hg]
      · obtain ⟨w, hw, hp⟩ := hv ⟨_, h⟩ rfl
        rw [KvStore.get_eq hb, hg] at hw
        cases hw
        exact hp
  case isFalse h =>
    refine iff_of_false (by decide) (not_not.mpr fun k hk => ?_)
    rw [← hk] at h
    exact absurd k.length_toList h

theorem verdict_eq_skipped_iff :
    verdict ph st p = .skipped ↔ (hexValue p.key.toList).length ≠ 64 := by
  unfold verdict
  split
  case isTrue h =>
    refine iff_of_false ?_ (not_not.mpr h)
    cases (st.table ph).get ⟨hexValue p.key.toList, h⟩ with
    | none => simp
    | some v =>
      dsimp only
      split <;> simp
  case isFalse h => exact iff_of_true rfl h

theorem verdict_eq_passed_iff (hb : st.InBounds) :
    verdict ph st p = .passed ↔ (hexValue p.key.toList).length = 64 ∧ Verifies ph st p := by
  have hf : verdict ph st p = .failed ↔ ¬ Verifies ph st p := verdict_eq_failed_iff hb
  have hs : verdict ph st p = .skipped ↔ _ := verdict_eq_skipped_iff
  cases hv : verdict ph st p with
  | passed =>
    rw [hv] at hf hs
    exact iff_of_true rfl ⟨by simpa using hs, by simpa using hf⟩
  | failed => exact iff_of_false (by decide) fun h => hf.mp hv h.2
  | skipped => exact iff_of_false (by decide) fun h => hs.mp hv h.1

theorem verifyPair_eq (hb : st.InBounds) (hk : IsHex p.key) (hv : IsHex p.value)
    (hf : Fits ph st p) (t : Tally) :
    verifyPair ph st t p = .ok (t.count (verdict ph st p)) := by
  unfold verifyPair
  rw [hexDecode_of_isHex hk, hexDecode_of_isHex hv, Outcome.ok_bind, Outcome.ok_bind]
  unfold verdict
  split
  case isTrue h =>
    rw [KvStore.get_eq hb]
    cases hg : (st.table ph).get ⟨hexValue p.key.toList, h⟩ with
    | none => rfl
    | some v =>
      have hle : (hexValue p.value.toList).length ≤ v.toList.length := by
        rw [v.length_toList]
        exact hf ⟨_, h⟩ v rfl (by rw [KvStore.get_eq hb, hg])
      have hs : sub v.toList 0 (hexValue p.value.toList).length = hexValue p.value.toList ↔
          hexValue p.value.toList <+: v.toList := by
        rw [List.prefix_iff_eq_take, eq_comm]
        rfl
      simp only [Outcome.liftM_ok, Outcome.ok_bind, slice_of_le (Nat.zero_le _) hle, hs]
      split <;> rfl
  case isFalse h => rfl

theorem verifyPairs_eq (hb : st.InBounds) (hhex : ∀ p ∈ pairs, IsHex p.key ∧ IsHex p.value)
    (hf : ∀ p ∈ pairs, Fits ph st p) :
    verifyPairs ph st pairs = .ok (pairs.foldl (fun t p => t.count (verdict ph st p)) ⟨0, 0⟩) :=
  Outcome.foldlM_ok (fun p hp t => verifyPair_eq hb (hhex p hp).1 (hhex p hp).2 (hf p hp) t) _

theorem foldl_count_verdicts (f : ExpectedPair → Verdict) (pairs : List ExpectedPair) :
    pairs.foldl (fun t p => t.count (f p)) (Tally.mk 0 0) =
      ⟨Int32.ofNat (pairs.countP fun p => f p = .passed),
        Int32.ofNat (pairs.countP fun p => f p = .failed)⟩ := by
  have hpassed : (pairs.foldl (fun t p => t.count (f p)) (Tally.mk 0 0)).passed =
      0 + Int32.ofNat (pairs.countP fun p => f p = .passed) := by
    rw [← foldl_count]
    refine (List.foldl_hom Tally.passed fun t p => ?_).symm
    cases hf : f p <;> simp [Tally.count]
  have hfailed : (pairs.foldl (fun t p => t.count (f p)) (Tally.mk 0 0)).failed =
      0 + Int32.ofNat (pairs.countP fun p => f p = .failed) := by
    rw [← foldl_count]
    refine (List.foldl_hom Tally.failed fun t p => ?_).symm
    cases hf : f p <;> simp [Tally.count]
  rw [Int32.zero_add] at hpassed hfailed
  rw [← hpassed, ← hfailed]

theorem verifyExpected_run {snapshot : Except IoError File} (ho : KvStore.open ph snapshot = .ok st)
    (ht : verifyPairs ph st pairs = .ok t) (out : Console) :
    verifyExpected ph snapshot (.ok (.ok pairs)) out =
      (if t.failed > 0 then .err (.message (toString t.failed ++ " verifications failed"))
        else .ok (),
      out ++ ["", "Verification Result: " ++ toString t.passed ++ " passed, " ++
        toString t.failed ++ " failed"]) := by
  unfold verifyExpected
  rw [ho]
  simp only [Build.context, Outcome.mapErr_ok, Eff.liftM_ok_bind, Outcome.ofExcept_ok, ht,
    println_bind, List.append_assoc, List.cons_append, List.nil_append]
  split <;> rfl

theorem verifyExpected_output {snapshot : Except IoError File}
    (ho : KvStore.open ph snapshot = .ok st) (hb : st.InBounds)
    (hhex : ∀ p ∈ pairs, IsHex p.key ∧ IsHex p.value) (hf : ∀ p ∈ pairs, Fits ph st p)
    (out : Console) : (verifyExpected ph snapshot (.ok (.ok pairs)) out).2 = out ++ ["",
      "Verification Result: " ++
        toString (Int32.ofNat (pairs.countP fun p => verdict ph st p = .passed)) ++ " passed, " ++
        toString (Int32.ofNat (pairs.countP fun p => verdict ph st p = .failed)) ++
        " failed"] := by
  rw [verifyExpected_run ho (verifyPairs_eq hb hhex hf), foldl_count_verdicts]

/-- Verification ends without a panic, with an error exactly if some pair fails. -/
theorem verifyExpected_verdict {snapshot : Except IoError File}
    (ho : KvStore.open ph snapshot = .ok st) (hb : st.InBounds)
    (hhex : ∀ p ∈ pairs, IsHex p.key ∧ IsHex p.value) (hf : ∀ p ∈ pairs, Fits ph st p)
    (hn : pairs.countP (fun p => verdict ph st p = .failed) < 2 ^ 31) (out : Console) :
    ((∀ p ∈ pairs, Verifies ph st p) ∧
      (verifyExpected ph snapshot (.ok (.ok pairs)) out).1 = .ok ()) ∨
    ((∃ p ∈ pairs, ¬ Verifies ph st p) ∧
      ∃ e, (verifyExpected ph snapshot (.ok (.ok pairs)) out).1 = .err e) := by
  have ht := verifyPairs_eq hb hhex hf
  rw [foldl_count_verdicts] at ht
  have hpos : Int32.ofNat (pairs.countP fun p => verdict ph st p = .failed) > 0 ↔
      ∃ p ∈ pairs, ¬ Verifies ph st p := by
    simp only [ofNat_pos_iff hn, List.countP_pos_iff, decide_eq_true_eq, verdict_eq_failed_iff hb]
  rw [verifyExpected_run ho ht]
  by_cases hex : ∃ p ∈ pairs, ¬ Verifies ph st p
  · right
    rw [if_pos (hpos.mpr hex)]
    exact ⟨hex, _, rfl⟩
  · left
    rw [if_neg (mt hpos.mp hex)]
    exact ⟨fun p hp => by_contra fun hnot => hex ⟨p, hp, hnot⟩, rfl⟩

/-- On a built snapshot, verification fails exactly if some key of 64 bytes is not stored or its
value does not start with the expected bytes. It prints how many pairs passed and how many failed,
and a pair with a key of another size is neither. -/
theorem verify_expected_iff {sha256 : Sha256} {env : BuildEnv} {s : Output}
    {rs : List (Key × Value)} {g : File} {log : List (BuildStep × File)}
    (hbuild : (SnapshotBuilder.ofRecords rs).build ph sha256 env s = (.ok (), ⟨some g, log⟩))
    (ho : KvStore.open ph g = .ok st) (hhex : ∀ p ∈ pairs, IsHex p.key ∧ IsHex p.value)
    (hf : ∀ p ∈ pairs, Fits ph st p)
    (hn : pairs.countP (fun p => verdict ph st p = .failed) < 2 ^ 31) (out : Console) :
    (verifyExpected ph g (.ok (.ok pairs)) out).1 ≠ .panic ∧
    ((verifyExpected ph g (.ok (.ok pairs)) out).1 = .ok () ↔ ∀ p ∈ pairs, Verifies ph st p) ∧
    ((∃ e, (verifyExpected ph g (.ok (.ok pairs)) out).1 = .err e) ↔
      ∃ p ∈ pairs, ¬ Verifies ph st p) ∧
    (verifyExpected ph g (.ok (.ok pairs)) out).2 = out ++ ["", "Verification Result: " ++
      toString (Int32.ofNat (pairs.countP fun p => verdict ph st p = .passed)) ++ " passed, " ++
      toString (Int32.ofNat (pairs.countP fun p => verdict ph st p = .failed)) ++ " failed"] ∧
    ∀ p, (verdict ph st p = .passed ↔
        (hexValue p.key.toList).length = 64 ∧ Verifies ph st p) ∧
      (verdict ph st p = .failed ↔ ¬ Verifies ph st p) ∧
      (verdict ph st p = .skipped ↔ (hexValue p.key.toList).length ≠ 64) := by
  have hb := inBounds_of_build_open hbuild ho
  have hout := verifyExpected_output ho hb hhex hf out
  rcases verifyExpected_verdict ho hb hhex hf hn out with
    ⟨hall, hrun⟩ | ⟨⟨p, hp, hnot⟩, e, hrun⟩
  · rw [hrun]
    refine ⟨nofun, iff_of_true rfl hall, iff_of_false (fun ⟨_, he⟩ => nomatch he) ?_, hout,
      fun p => ⟨verdict_eq_passed_iff hb, verdict_eq_failed_iff hb, verdict_eq_skipped_iff⟩⟩
    exact fun ⟨p, hp, hnot⟩ => hnot (hall p hp)
  · rw [hrun]
    exact ⟨nofun, iff_of_false nofun fun h => hnot (h p hp), iff_of_true ⟨e, rfl⟩ ⟨p, hp, hnot⟩,
      hout, fun p => ⟨verdict_eq_passed_iff hb, verdict_eq_failed_iff hb, verdict_eq_skipped_iff⟩⟩

def zeroText : String := String.ofList (List.replicate 128 '0')

theorem toList_zeroText : zeroText.toList = List.replicate 128 '0' := String.toList_ofList

theorem hexValue_zeroText : blankPair.1.toList = hexValue zeroText.toList := by
  rw [toList_zeroText]
  rfl

theorem isHex_zeroText : IsHex zeroText := by
  constructor
  · rw [← String.length_toList, toList_zeroText, List.length_replicate]
    decide
  · intro c hc
    rw [toList_zeroText] at hc
    rw [List.eq_of_mem_replicate hc]
    decide

theorem isHex_empty : IsHex "" := ⟨by decide, fun _ hc => (List.not_mem_nil hc).elim⟩

theorem exists_store_two :
    ∃ g log st, (SnapshotBuilder.ofRecords twoRecords).build listIndex twoDigest (.faultless 0)
        ⟨none, []⟩ = (.ok (), ⟨some g, log⟩) ∧
      KvStore.open listIndex g = .ok st ∧
      st.get listIndex (Arr.replicate keySize 1) = .ok (some (Arr.replicate valueSize 1)) ∧
      st.get listIndex blankPair.1 = .ok (some blankPair.2) := by
  obtain ⟨g, log, hrun, hg, _⟩ := build_twoRecords twoDigest
  obtain ⟨st, ho, hr⟩ := hg.represents (by decide) twoKeys_nodup
  have hget {r : Key × Value} (hm : r ∈ twoRecords) : st.get listIndex r.1 = .ok (some r.2) := by
    obtain ⟨v, hget, hv⟩ := hr.get_iff r.1
    rw [hget, (hv r.2).mpr hm]
  exact ⟨g, log, st, hrun, ho, hget List.mem_cons_self,
    hget (List.mem_cons_of_mem _ (List.mem_singleton.mpr rfl))⟩

theorem verifies_zeroText (hg : st.get ph blankPair.1 = .ok (some blankPair.2)) :
    Verifies ph st ⟨zeroText, ""⟩ := by
  intro k hk
  obtain rfl : k = blankPair.1 := Arr.ext (hk.trans hexValue_zeroText.symm)
  exact ⟨_, hg, List.nil_prefix⟩

theorem verifyExpected_of_verifies {snapshot : Except IoError File} {key : String}
    (ho : KvStore.open ph snapshot = .ok st) (hb : st.InBounds) (hk : IsHex key)
    (hp : Verifies ph st ⟨key, ""⟩) :
    (verifyExpected ph snapshot (.ok (.ok [⟨key, ""⟩])) []).1 = .ok () := by
  have hhex : ∀ p ∈ [ExpectedPair.mk key ""], IsHex p.key ∧ IsHex p.value := by
    simpa using ⟨hk, isHex_empty⟩
  have hf : ∀ p ∈ [ExpectedPair.mk key ""], Fits ph st p := by
    rintro p hp k v - -
    rw [List.mem_singleton.mp hp]
    exact Nat.zero_le 256
  have hn : [ExpectedPair.mk key ""].countP (fun p => verdict ph st p = .failed) < 2 ^ 31 :=
    lt_of_le_of_lt List.countP_le_length (by rw [List.length_singleton]; decide)
  rcases verifyExpected_verdict ho hb hhex hf hn [] with ⟨_, h⟩ | ⟨⟨p, hmem, hnot⟩, _⟩
  · exact h
  · rw [List.mem_singleton.mp hmem] at hnot
    exact absurd hp hnot

/-- A pair that passes, one that is skipped and one that fails. -/
def mixedPairs : List ExpectedPair :=
  [⟨hexEncode (List.replicate 64 1), hexEncode [1, 1, 1]⟩, ⟨"00", "01"⟩, ⟨zeroText, "01"⟩]

theorem isHex_mixedPairs : ∀ p ∈ mixedPairs, IsHex p.key ∧ IsHex p.value := by
  have h00 : IsHex "00" := by
    have hdigits : "00".toList.all fun c => c ∈ hexDigits := by decide
    exact ⟨by decide, forall_of_all hdigits⟩
  have h01 : IsHex "01" := by
    have hdigits : "01".toList.all fun c => c ∈ hexDigits := by decide
    exact ⟨by decide, forall_of_all hdigits⟩
  simpa [mixedPairs, h00, h01, isHex_zeroText] using ⟨isHex_hexEncode _, isHex_hexEncode _⟩

theorem fits_mixedPairs : ∀ p ∈ mixedPairs, Fits ph st p := by
  rintro p hp k v - -
  simp only [mixedPairs, List.mem_cons, List.not_mem_nil, or_false] at hp
  rcases hp with rfl | rfl | rfl
  · simp only [toList_hexEncode, hexValue_hexChars]
    decide
  · decide
  · decide

theorem verdicts_mixedPairs (hb : st.InBounds)
    (h₁ : st.get ph (Arr.replicate keySize 1) = .ok (some (Arr.replicate valueSize 1)))
    (h₀ : st.get ph blankPair.1 = .ok (some blankPair.2)) :
    mixedPairs.map (verdict ph st) = [.passed, .skipped, .failed] := by
  have hpassed :
      verdict ph st ⟨hexEncode (List.replicate 64 1), hexEncode [1, 1, 1]⟩ = .passed := by
    rw [verdict_eq_passed_iff hb]
    simp only [Verifies, toList_hexEncode, hexValue_hexChars]
    refine ⟨List.length_replicate, fun k hk => ⟨Arr.replicate valueSize 1, ?_, ?_⟩⟩
    · obtain rfl : k = Arr.replicate keySize 1 := Arr.ext hk
      exact h₁
    · exact ⟨List.replicate 253 1, rfl⟩
  have hskipped : verdict ph st ⟨"00", "01"⟩ = .skipped := verdict_eq_skipped_iff.mpr (by decide)
  have hfailed : verdict ph st ⟨zeroText, "01"⟩ = .failed := by
    rw [verdict_eq_failed_iff hb]
    intro h
    obtain ⟨v, hv, hp⟩ := h _ hexValue_zeroText
    obtain rfl := Option.some.inj (Outcome.ok.inj (h₀.symm.trans hv))
    revert hp
    decide
  simp only [mixedPairs, List.map_cons, List.map_nil, hpassed, hskipped, hfailed]

theorem verify_expected_iff_mixed :
    ∃ g log st, (SnapshotBuilder.ofRecords twoRecords).build listIndex twoDigest (.faultless 0)
        ⟨none, []⟩ = (.ok (), ⟨some g, log⟩) ∧ KvStore.open listIndex g = .ok st ∧
      (∃ e, (verifyExpected listIndex g (.ok (.ok mixedPairs)) []).1 = .err e) ∧
      (verifyExpected listIndex g (.ok (.ok mixedPairs)) []).2 =
        ["", "Verification Result: 1 passed, 1 failed"] := by
  obtain ⟨g, log, st, hrun, ho, h₁, h₀⟩ := exists_store_two
  have hb := inBounds_of_build_open hrun ho
  have hv := verdicts_mixedPairs hb h₁ h₀
  have hcount (v : Verdict) : mixedPairs.countP (fun p => verdict listIndex st p = v) =
      [Verdict.passed, .skipped, .failed].countP fun w => w = v := by
    rw [← hv, List.countP_map]
    rfl
  have hfailed : mixedPairs.countP (fun p => verdict listIndex st p = .failed) = 1 := by
    rw [hcount]
    decide
  have hpassed : mixedPairs.countP (fun p => verdict listIndex st p = .passed) = 1 := by
    rw [hcount]
    decide
  obtain ⟨_, _, herr, hout, hverdict⟩ :=
    verify_expected_iff hrun ho isHex_mixedPairs fits_mixedPairs (by rw [hfailed]; decide) []
  refine ⟨g, log, st, hrun, ho, herr.mpr ?_, ?_⟩
  · obtain ⟨p, hp, hv⟩ := List.countP_pos_iff.mp (hfailed ▸ Nat.one_pos)
    exact ⟨p, hp, (hverdict p).2.1.mp (of_decide_eq_true hv)⟩
  · rw [hout, hfailed, hpassed]
    rfl

/-- Verification passes over a key that is no 64 bytes long, and over a value that is longer than
the expected one. -/
theorem verify_of_short_pairs :
    ∃ g log st, (SnapshotBuilder.ofRecords twoRecords).build listIndex twoDigest (.faultless 0)
        ⟨none, []⟩ = (.ok (), ⟨some g, log⟩) ∧ KvStore.open listIndex g = .ok st ∧
      IsHex "" ∧ (hexValue "".toList).length ≠ 64 ∧
      (verifyExpected listIndex g (.ok (.ok [⟨"", ""⟩])) []).1 = .ok () ∧
      IsHex zeroText ∧ blankPair.1.toList = hexValue zeroText.toList ∧
      st.get listIndex blankPair.1 = .ok (some blankPair.2) ∧
      blankPair.2.toList ≠ hexValue "".toList ∧
      (verifyExpected listIndex g (.ok (.ok [⟨zeroText, ""⟩])) []).1 = .ok () := by
  obtain ⟨g, log, st, hrun, ho, _, hget⟩ := exists_store_two
  have hb := inBounds_of_build_open hrun ho
  refine ⟨g, log, st, hrun, ho, isHex_empty, by decide, ?_, isHex_zeroText, hexValue_zeroText, hget,
    ?_, ?_⟩
  · apply verifyExpected_of_verifies ho hb isHex_empty
    intro k hk
    have hl := congrArg List.length hk
    rw [k.length_toList] at hl
    exact absurd hl (by decide)
  · intro hv
    have hl := congrArg List.length hv
    rw [blankPair.2.length_toList] at hl
    exact absurd hl (by decide)
  · exact verifyExpected_of_verifies ho hb isHex_zeroText (verifies_zeroText hget)

end Validator

end LowLatencyKv
