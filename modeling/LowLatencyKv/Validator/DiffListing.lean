import LowLatencyKv.Validator.Diff

/-! # The listing of a comparison

Two snapshots have one list of differences, with each differing key once. The limit
of the command decides how many of them are shown, and nothing else.
-/

namespace LowLatencyKv

open Rust Tables

namespace Validator

variable {Fn : Type} {ph : Ph Fn} {sha256 : Sha256} {A B la lb : List (Key × Value)}
  {fa fb : File} {c : Change} {k : Key}

theorem mem_changes (hA : (A.map Prod.fst).Nodup) (hB : (B.map Prod.fst).Nodup)
    (hla : la.Perm A) (hlb : lb.Perm B) (hx : (c, k) ∈ changes A B la lb) :
    c = .inAOnly ∧ k ∈ onlyIn A B ∨ c = .inBOnly ∧ k ∈ onlyIn B A ∨
      c = .valueDiffers ∧ k ∈ differ A B := by
  rcases List.mem_append.mp hx with hx | hx
  · obtain ⟨⟨k, v⟩, hr, hx⟩ := List.mem_filterMap.mp hx
    have hv := lookup_of_mem hA (hla.mem_iff.mp hr)
    obtain ⟨rfl, ⟨rfl, hn⟩ | ⟨rfl, w, hw, hne⟩⟩ := changeA_eq_some_iff.mp hx
    · exact Or.inl ⟨rfl, mem_onlyIn_iff.mpr ⟨by simp [hv], hn⟩⟩
    · exact Or.inr (Or.inr ⟨rfl, mem_differ_iff.mpr ⟨v, w, hv, hw, hne⟩⟩)
  · obtain ⟨⟨k, v⟩, hr, hx⟩ := List.mem_filterMap.mp hx
    have hv := lookup_of_mem hB (hlb.mem_iff.mp hr)
    obtain ⟨rfl, rfl, hn⟩ := changeB_eq_some_iff.mp hx
    exact Or.inr (Or.inl ⟨rfl, mem_onlyIn_iff.mpr ⟨by simp [hv], hn⟩⟩)

theorem nodup_filterMap {l : List (Key × Value)} {change : Key × Value → Option (Change × Key)}
    (hd : (l.map Prod.fst).Nodup) (hc : ∀ r x, change r = some x → x.2 = r.1) :
    (l.filterMap change).Nodup := by
  have hp : l.Pairwise fun r r' => r.1 ≠ r'.1 := List.pairwise_map.mp hd
  apply List.pairwise_filterMap.mpr
  apply hp.imp
  rintro r r' hne x hx x' hx' rfl
  exact hne ((hc r x hx).symm.trans (hc r' x hx'))

theorem nodup_changes (hla : (la.map Prod.fst).Nodup) (hlb : (lb.map Prod.fst).Nodup) :
    (changes A B la lb).Nodup := by
  have hfirst : (la.filterMap (changeA (B.lookup ·))).Nodup := by
    apply nodup_filterMap hla
    rintro r ⟨c, k⟩ hx
    exact (changeA_eq_some_iff.mp hx).1.symm
  have hsecond : (lb.filterMap (changeB (A.lookup ·))).Nodup := by
    apply nodup_filterMap hlb
    rintro r ⟨c, k⟩ hx
    exact (changeB_eq_some_iff.mp hx).1.symm
  apply hfirst.append hsecond
  rintro ⟨c, k⟩ ha hb
  obtain ⟨r, _, hr⟩ := List.mem_filterMap.mp ha
  obtain ⟨r', _, hr'⟩ := List.mem_filterMap.mp hb
  obtain ⟨_, rfl, _⟩ := changeB_eq_some_iff.mp hr'
  obtain ⟨_, ⟨hc, _⟩ | ⟨hc, _⟩⟩ := changeA_eq_some_iff.mp hr <;> cases hc

/-- The differences of two maps, each differing key once. -/
def differences (A B : List (Key × Value)) : Multiset (Change × Key) :=
  (onlyIn A B).val.map (Prod.mk .inAOnly) + (onlyIn B A).val.map (Prod.mk .inBOnly) +
    (differ A B).val.map (Prod.mk .valueDiffers)

theorem card_differences (A B : List (Key × Value)) : (differences A B).card = diffTotal A B := by
  unfold differences diffTotal
  rw [Multiset.card_add, Multiset.card_add, Multiset.card_map, Multiset.card_map,
    Multiset.card_map]
  rfl

theorem coe_changes (hA : (A.map Prod.fst).Nodup) (hB : (B.map Prod.fst).Nodup)
    (hla : la.Perm A) (hlb : lb.Perm B) : (changes A B la lb : Multiset _) = differences A B := by
  have hnd : (changes A B la lb).Nodup :=
    nodup_changes ((hla.map Prod.fst).nodup_iff.mpr hA) ((hlb.map Prod.fst).nodup_iff.mpr hB)
  apply Multiset.eq_of_le_of_card_le
  · rw [Multiset.le_iff_subset (Multiset.coe_nodup.mpr hnd)]
    rintro ⟨c, k⟩ hx
    unfold differences
    rcases mem_changes hA hB hla hlb (Multiset.mem_coe.mp hx) with
      ⟨rfl, hk⟩ | ⟨rfl, hk⟩ | ⟨rfl, hk⟩ <;> simpa using hk
  · rw [card_differences, Multiset.coe_card, length_changes hA hB hla hlb]

/-- There is one list of the differences of two built snapshots, and each comparison shows as many
of them as its limit allows. -/
theorem diff_lists_all (hA : BuiltFrom ph sha256 A fa) (hB : BuiltFrom ph sha256 B fb)
    (hn : diffTotal A B < 2 ^ 31) : ∃ lines : List String,
      (lines : Multiset String) = (differences A B).map diffLine ∧
      ∀ maxDiffs out, diffSnapshots ph fa fb maxDiffs out =
        (.ok (), out ++ diffHeader A.length B.length ++ lines.take maxDiffs.toNat ++
          diffSummary (onlyIn A B).card (onlyIn B A).card (differ A B).card) := by
  obtain ⟨sa, hoa, hba, hla, hga, hpa⟩ := hA.opens
  obtain ⟨sb, hob, hbb, hlb, hgb, hpb⟩ := hB.opens
  have hlen := length_changes hA.nodup hB.nodup hpa hpb
  refine ⟨(changes A B sa.cells sb.cells).map diffLine, ?_, fun maxDiffs out => ?_⟩
  · rw [← coe_changes hA.nodup hB.nodup hpa hpb]
    rfl
  · rw [diffSnapshots_run hoa hob hba hbb hga hgb (by omega), hla, hlb,
      countOf_changes_inAOnly hA.nodup hpa, countOf_changes_inBOnly hB.nodup hpb,
      countOf_changes_valueDiffers hA.nodup hpa]
    rfl

theorem diff_lists_all_two : ∃ fa fb, ∃ lines : List String, lines.length = 3 ∧
    ∀ maxDiffs out, diffSnapshots listIndex fa fb maxDiffs out =
      (.ok (), out ++ diffHeader 2 2 ++ lines.take maxDiffs.toNat ++ diffSummary 1 1 1) := by
  obtain ⟨fa, hA⟩ := exists_builtFrom twoDigest (by decide) twoKeys_nodup (by decide)
  obtain ⟨fb, hB⟩ := exists_builtFrom twoDigest (by decide)
    (show (otherRecords.map Prod.fst).Nodup by decide) (by decide)
  obtain ⟨ha, hb, hv⟩ := card_differences_two
  have ht : diffTotal twoRecords otherRecords = 3 := by
    unfold diffTotal
    rw [ha, hb, hv]
  obtain ⟨lines, hlines, hrun⟩ := diff_lists_all hA hB (by rw [ht]; decide)
  rw [ha, hb, hv] at hrun
  refine ⟨fa, fb, lines, ?_, hrun⟩
  rw [← Multiset.coe_card, hlines, Multiset.card_map, card_differences, ht]

end Validator

end LowLatencyKv
