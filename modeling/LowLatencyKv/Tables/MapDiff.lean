import Mathlib.Data.Finset.Card
import LowLatencyKv.Tables.SlotTable

/-! # Differences of finite maps

Lists of pairs with distinct keys as finite maps. Two of them differ in the keys of
the first only, in those of the second only, and in the common keys that they send
to different values. Each of these is counted by one scan over a list.
-/

namespace Tables

variable {K V : Type} [DecidableEq K] [DecidableEq V]

/-- The keys of a finite map. -/
def keySet (A : List (K × V)) : Finset K := (A.map Prod.fst).toFinset

/-- The keys of `A` that are not keys of `B`. -/
def onlyIn (A B : List (K × V)) : Finset K := keySet A \ keySet B

/-- The common keys with different values. -/
def differ (A B : List (K × V)) : Finset K :=
  {k ∈ keySet A ∩ keySet B | A.lookup k ≠ B.lookup k}

/-- The number of keys in which two maps differ. -/
def diffTotal (A B : List (K × V)) : ℕ :=
  (onlyIn A B).card + (onlyIn B A).card + (differ A B).card

variable {A B l : List (K × V)} {k : K} {v : V}

omit [DecidableEq V] in
theorem lookup_eq_some_iff (hd : (A.map Prod.fst).Nodup) : A.lookup k = some v ↔ (k, v) ∈ A := by
  constructor
  · intro h
    obtain ⟨l₁, l₂, rfl, _⟩ := List.lookup_eq_some_iff.mp h
    simp
  · exact lookup_of_mem hd

omit [DecidableEq V] in
theorem lookup_eq_none_iff_not_mem : A.lookup k = none ↔ k ∉ A.map Prod.fst := by
  rw [List.lookup_eq_none_iff]
  constructor
  · rintro h hm
    obtain ⟨r, hr, rfl⟩ := List.mem_map.mp hm
    simpa using h r hr
  · rintro h r hr
    rw [bne_iff_ne]
    rintro rfl
    exact h (List.mem_map_of_mem hr)

omit [DecidableEq V] in
theorem mem_keySet_iff : k ∈ keySet A ↔ A.lookup k ≠ none := by
  unfold keySet
  rw [List.mem_toFinset, ne_eq, List.lookup_eq_none_iff]
  simp

omit [DecidableEq V] in
theorem mem_onlyIn_iff : k ∈ onlyIn A B ↔ A.lookup k ≠ none ∧ B.lookup k = none := by
  unfold onlyIn
  rw [Finset.mem_sdiff, mem_keySet_iff, mem_keySet_iff, not_not]

theorem mem_differ_iff :
    k ∈ differ A B ↔ ∃ v w, A.lookup k = some v ∧ B.lookup k = some w ∧ v ≠ w := by
  simp only [differ, Finset.mem_filter, Finset.mem_inter, mem_keySet_iff,
    Option.ne_none_iff_exists']
  constructor
  · rintro ⟨⟨⟨v, hv⟩, w, hw⟩, hne⟩
    rw [hv, hw] at hne
    exact ⟨v, w, hv, hw, fun h => hne (congrArg some h)⟩
  · rintro ⟨v, w, hv, hw, hne⟩
    rw [hv, hw]
    exact ⟨⟨⟨v, rfl⟩, w, rfl⟩, fun h => hne (Option.some.inj h)⟩

theorem differ_comm (A B : List (K × V)) : differ A B = differ B A := by
  ext k
  simp only [mem_differ_iff]
  constructor <;> exact fun ⟨v, w, hv, hw, hne⟩ => ⟨w, v, hw, hv, hne.symm⟩

theorem diffTotal_comm (A B : List (K × V)) : diffTotal A B = diffTotal B A := by
  rw [diffTotal, diffTotal, differ_comm, Nat.add_comm (onlyIn A B).card]

theorem diffTotal_eq_zero_iff : diffTotal A B = 0 ↔ ∀ k, A.lookup k = B.lookup k := by
  simp only [diffTotal, Nat.add_eq_zero_iff, Finset.card_eq_zero, Finset.eq_empty_iff_forall_notMem,
    mem_onlyIn_iff, mem_differ_iff]
  constructor
  · rintro ⟨⟨hA, hB⟩, hd⟩ k
    cases ha : A.lookup k with
    | none =>
      by_contra hb
      exact hB k ⟨Ne.symm hb, ha⟩
    | some v =>
      cases hb : B.lookup k with
      | none => exact absurd ⟨by rw [ha]; simp, hb⟩ (hA k)
      | some w =>
        by_contra hne
        exact hd k ⟨v, w, ha, hb, fun h => hne (congrArg some h)⟩
  · intro h
    refine ⟨⟨fun k hk => ?_, fun k hk => ?_⟩, fun k ⟨v, w, hv, hw, hne⟩ => ?_⟩
    · exact hk.1 ((h k).trans hk.2)
    · exact hk.1 ((h k).symm.trans hk.2)
    · exact hne (Option.some.inj (hv.symm.trans ((h k).trans hw)))

omit [DecidableEq V] in
/-- A scan over the pairs of a map counts each key of a set once. -/
theorem card_eq_countP {S : Finset K} {p : K × V → Bool} (hd : (A.map Prod.fst).Nodup)
    (hl : l.Perm A) (hs : S ⊆ keySet A) (hp : ∀ r ∈ A, p r ↔ r.1 ∈ S) : S.card = l.countP p := by
  have hS : S = ((A.filter p).map Prod.fst).toFinset := by
    ext k
    simp only [List.mem_toFinset, List.mem_map, List.mem_filter]
    constructor
    · intro hk
      obtain ⟨r, hr, rfl⟩ := List.mem_map.mp (List.mem_toFinset.mp (hs hk))
      exact ⟨r, ⟨hr, (hp r hr).mpr hk⟩, rfl⟩
    · rintro ⟨r, ⟨hr, hpr⟩, rfl⟩
      exact (hp r hr).mp hpr
  have hnd : ((A.filter p).map Prod.fst).Nodup := hd.sublist (List.filter_sublist.map _)
  rw [hS, List.toFinset_card_of_nodup hnd, List.length_map, ← List.countP_eq_length_filter,
    hl.countP_eq]

omit [DecidableEq V] in
theorem card_onlyIn {p : K × V → Bool} (hd : (A.map Prod.fst).Nodup) (hl : l.Perm A)
    (hp : ∀ r, p r ↔ B.lookup r.1 = none) : (onlyIn A B).card = l.countP p := by
  have hs : onlyIn A B ⊆ keySet A := Finset.sdiff_subset
  apply card_eq_countP hd hl hs
  rintro ⟨k, v⟩ hr
  rw [hp, mem_onlyIn_iff, lookup_of_mem hd hr]
  simp

theorem card_differ {p : K × V → Bool} (hd : (A.map Prod.fst).Nodup) (hl : l.Perm A)
    (hp : ∀ r, p r ↔ ∃ w, B.lookup r.1 = some w ∧ r.2 ≠ w) : (differ A B).card = l.countP p := by
  have hs : differ A B ⊆ keySet A := (Finset.filter_subset _ _).trans Finset.inter_subset_left
  apply card_eq_countP hd hl hs
  rintro ⟨k, v⟩ hr
  rw [hp, mem_differ_iff, lookup_of_mem hd hr]
  simp

omit [DecidableEq K] [DecidableEq V] in
theorem countP_eq_countP_zip {l' : List (K × V)} {p : K × V → Bool}
    {q : (K × V) × (K × V) → Bool} (hl : l.length = l'.length)
    (h : ∀ (i : ℕ) c c', l[i]? = some c → l'[i]? = some c' → p c = q (c, c')) :
    l.countP p = (l.zip l').countP q := by
  have hc : (l.zip l').countP q = (l.zip l').countP (p ∘ Prod.fst) := by
    apply List.countP_congr
    rintro ⟨c, c'⟩ hm
    obtain ⟨i, hi⟩ := List.mem_iff_getElem?.mp hm
    obtain ⟨hi, hi'⟩ := List.getElem?_zip_eq_some.mp hi
    rw [Function.comp_apply, h i c c' hi hi']
  rw [hc, ← List.countP_map, List.map_fst_zip hl.le]

/-- The pairs that the lookups of a table return. -/
def SlotTable.found (t : SlotTable K V) : List (K × V) :=
  t.cells.filter fun c => t.get c.1 = some c.2

theorem SlotTable.lookup_found (t : SlotTable K V) (k : K) : t.found.lookup k = t.get k := by
  have hmem {v : V} : (k, v) ∈ t.found ↔ t.get k = some v := by
    unfold SlotTable.found
    rw [List.mem_filter, decide_eq_true_iff]
    exact and_iff_right_of_imp SlotTable.mem_of_get
  cases hl : t.found.lookup k with
  | some v =>
    obtain ⟨l₁, l₂, hs, _⟩ := List.lookup_eq_some_iff.mp hl
    exact (hmem.mp (by rw [hs]; simp)).symm
  | none =>
    cases hg : t.get k with
    | none => rfl
    | some v =>
      have := List.lookup_eq_none_iff.mp hl _ (hmem.mpr hg)
      simp at this

end Tables
