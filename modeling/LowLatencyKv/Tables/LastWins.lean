import Mathlib.Data.List.Dedup
import LowLatencyKv.Tables.MapDiff

/-! # Placing records under repeated keys

Records of one key share a cell, so the record placed last is the one that stays.
A table of blank cells ends up with the last record of each key, and keeps one
blank cell for every record that was overwritten.
-/

namespace Tables

open scoped List

variable {K V : Type} [DecidableEq K] {slot : K → Option ℕ} {cells rs : List (K × V)} {n : ℕ}

/-- The last record of each key, in the order of the records. -/
def lastRecords : List (K × V) → List (K × V)
  | [] => []
  | r :: rs => if r.1 ∈ rs.map Prod.fst then lastRecords rs else r :: lastRecords rs

theorem map_fst_lastRecords (rs : List (K × V)) :
    (lastRecords rs).map Prod.fst = (rs.map Prod.fst).dedup := by
  induction rs with
  | nil => rfl
  | cons r rs ih =>
    unfold lastRecords
    rw [List.map_cons]
    split
    · next h => rw [ih, List.dedup_cons_of_mem h]
    · next h => rw [List.map_cons, ih, List.dedup_cons_of_notMem h]

theorem nodup_lastRecords (rs : List (K × V)) : ((lastRecords rs).map Prod.fst).Nodup := by
  rw [map_fst_lastRecords]
  exact List.nodup_dedup _

theorem mem_keys_lastRecords {k : K} :
    k ∈ (lastRecords rs).map Prod.fst ↔ k ∈ rs.map Prod.fst := by
  rw [map_fst_lastRecords, List.mem_dedup]

theorem length_lastRecords (rs : List (K × V)) :
    (lastRecords rs).length = (rs.map Prod.fst).dedup.length := by
  rw [← map_fst_lastRecords, List.length_map]

theorem length_lastRecords_le (rs : List (K × V)) : (lastRecords rs).length ≤ rs.length := by
  rw [length_lastRecords, ← List.length_map Prod.fst]
  exact (List.dedup_sublist _).length_le

theorem lastRecords_of_nodup (h : (rs.map Prod.fst).Nodup) : lastRecords rs = rs := by
  induction rs with
  | nil => rfl
  | cons r rs ih =>
    obtain ⟨hr, hd⟩ := List.nodup_cons.mp h
    rw [lastRecords, if_neg hr, ih hd]

theorem lookup_reverse_cons (r : K × V) (k : K) :
    (r :: rs).reverse.lookup k = (rs.reverse.lookup k).or (if k = r.1 then some r.2 else none) := by
  rw [List.reverse_cons, List.lookup_append, List.lookup_cons, List.lookup_nil]
  by_cases hk : k = r.1
  · simp [hk]
  · simp [hk, beq_eq_false_iff_ne.mpr hk]

theorem lookup_reverse_eq_none_iff {k : K} :
    rs.reverse.lookup k = none ↔ k ∉ rs.map Prod.fst := by
  rw [lookup_eq_none_iff_not_mem, List.map_reverse, List.mem_reverse]

theorem lookup_lastRecords (rs : List (K × V)) (k : K) :
    (lastRecords rs).lookup k = rs.reverse.lookup k := by
  induction rs with
  | nil => rfl
  | cons r rs ih =>
    rw [lookup_reverse_cons, ← ih]
    by_cases hr : r.1 ∈ rs.map Prod.fst
    · rw [lastRecords, if_pos hr]
      by_cases hk : k = r.1
      · have hs : (lastRecords rs).lookup k ≠ none := by
          rw [Ne, lookup_eq_none_iff_not_mem, mem_keys_lastRecords, hk]
          exact not_not_intro hr
        obtain ⟨v, hv⟩ := Option.ne_none_iff_exists'.mp hs
        rw [hv, Option.some_or]
      · rw [if_neg hk, Option.or_none]
    · rw [lastRecords, if_neg hr, List.lookup_cons]
      by_cases hk : k = r.1
      · have hn : (lastRecords rs).lookup k = none := by
          rwa [lookup_eq_none_iff_not_mem, mem_keys_lastRecords, hk]
        rw [hn, beq_iff_eq.mpr hk, if_pos hk, Option.none_or]
      · rw [beq_eq_false_iff_ne.mpr hk, if_neg hk, Option.or_none]

theorem getElem?_place_of_lookup {k : K} {v : V} {i : ℕ}
    (hp : Placement slot (rs.map Prod.fst) n) (hn : n ≤ cells.length)
    (hk : rs.reverse.lookup k = some v) (hi : slot k = some i) :
    (place slot cells rs)[i]? = some (k, v) := by
  induction rs generalizing cells with
  | nil => cases hk
  | cons r rs ih =>
    have hp' : Placement slot (rs.map Prod.fst) n := hp.mono (List.subset_cons_self _ _)
    have hn' : n ≤ (placeOne slot cells r).length := by rwa [length_placeOne]
    rw [lookup_reverse_cons] at hk
    cases hl : rs.reverse.lookup k with
    | some w =>
      rw [hl, Option.some_or] at hk
      exact ih hp' hn' (hl.trans hk)
    | none =>
      rw [hl, Option.none_or, Option.ite_none_right_eq_some] at hk
      obtain ⟨rfl, hv⟩ := hk
      obtain rfl := Option.some.inj hv
      have hm := lookup_reverse_eq_none_iff.mp hl
      obtain ⟨j, hj, hs⟩ := hp.slot_lt r.1 (by simp)
      obtain rfl : i = j := Option.some.inj (hi.symm.trans hs)
      rw [place_cons, getElem?_place_of_ne, placeOne_of_slot hi,
        List.getElem?_set_self (lt_of_lt_of_le hj hn)]
      rintro r' hr' he
      have hm' : r'.1 ∈ rs.map Prod.fst := List.mem_map_of_mem hr'
      have := hp.slot_inj r'.1 (List.mem_cons_of_mem _ hm') r.1 (by simp) (he.trans hi.symm)
      exact hm (this ▸ hm')

theorem Placement.lastRecords (hp : Placement slot (rs.map Prod.fst) n) :
    Placement slot ((lastRecords rs).map Prod.fst) n :=
  hp.mono fun _ hk => mem_keys_lastRecords.mp hk

/-- Records that are overwritten need not be placed at all. -/
theorem place_lastRecords (hp : Placement slot (rs.map Prod.fst) n) (hn : n ≤ cells.length) :
    place slot cells (lastRecords rs) = place slot cells rs := by
  apply List.ext_getElem?
  rintro i
  by_cases h : ∃ k ∈ rs.map Prod.fst, slot k = some i
  · obtain ⟨k, hk, hi⟩ := h
    have hs : rs.reverse.lookup k ≠ none := by
      rw [Ne, lookup_reverse_eq_none_iff]
      exact not_not_intro hk
    obtain ⟨v, hv⟩ := Option.ne_none_iff_exists'.mp hs
    have hl : (lastRecords rs).reverse.lookup k = some v := by
      rw [← lookup_lastRecords, lastRecords_of_nodup (nodup_lastRecords rs), lookup_lastRecords, hv]
    rw [getElem?_place_of_lookup hp hn hv hi, getElem?_place_of_lookup hp.lastRecords hn hl hi]
  · have hne (r : K × V) (hr : r.1 ∈ rs.map Prod.fst) : slot r.1 ≠ some i :=
      fun he => h ⟨r.1, hr, he⟩
    rw [getElem?_place_of_ne fun r hr => hne r (List.mem_map_of_mem hr), getElem?_place_of_ne]
    exact fun r hr => hne r (mem_keys_lastRecords.mp (List.mem_map_of_mem hr))

omit [DecidableEq K] in
theorem cons_set_perm {α : Type} {l : List α} {a b : α} {i : ℕ} (h : l[i]? = some b) :
    b :: l.set i a ~ a :: l := by
  induction l generalizing i with
  | nil => cases h
  | cons c l ih =>
    cases i with
    | zero =>
      obtain rfl : c = b := Option.some.inj h
      exact List.Perm.swap _ _ _
    | succ i =>
      have hi := ih (i := i) h
      exact ((List.Perm.swap c b _).trans (hi.cons c)).trans (List.Perm.swap a c l)

omit [DecidableEq K] in
theorem place_append_perm {b : K × V} (hd : (rs.map Prod.fst).Nodup)
    (hp : Placement slot (rs.map Prod.fst) n)
    (hc : ∀ r ∈ rs, ∀ i, slot r.1 = some i → cells[i]? = some b) :
    place slot cells rs ++ List.replicate rs.length b ~ cells ++ rs := by
  induction rs generalizing cells with
  | nil => simp
  | cons r rs ih =>
    obtain ⟨hr, hd⟩ := List.nodup_cons.mp hd
    obtain ⟨i, _, hi⟩ := hp.slot_lt r.1 (by simp)
    have hrest : ∀ r' ∈ rs, ∀ j, slot r'.1 = some j → (cells.set i r)[j]? = some b := by
      rintro r' hr' j hj
      have hm : r'.1 ∈ rs.map Prod.fst := List.mem_map_of_mem hr'
      rw [List.getElem?_set_ne, hc r' (List.mem_cons_of_mem _ hr') j hj]
      rintro rfl
      have := hp.slot_inj r'.1 (List.mem_cons_of_mem _ hm) r.1 (by simp) (hj.trans hi.symm)
      exact hr (this ▸ hm)
    have hperm := ih hd (hp.mono (List.subset_cons_self _ _)) hrest
    rw [place_cons, placeOne_of_slot hi, List.length_cons, List.replicate_succ]
    calc place slot (cells.set i r) rs ++ b :: List.replicate rs.length b
      _ ~ b :: (place slot (cells.set i r) rs ++ List.replicate rs.length b) := List.perm_middle
      _ ~ b :: (cells.set i r ++ rs) := hperm.cons b
      _ ~ r :: (cells ++ rs) := (cons_set_perm (hc r (by simp) i hi)).append_right rs
      _ ~ cells ++ r :: rs := List.perm_middle.symm

/-- A blank table keeps the last record of each key and one blank cell for each overwritten one. -/
theorem place_replicate_perm {b : K × V} (hp : Placement slot (rs.map Prod.fst) rs.length) :
    place slot (List.replicate rs.length b) rs ~
      lastRecords rs ++ List.replicate (rs.length - (lastRecords rs).length) b := by
  have hblank : ∀ r ∈ lastRecords rs, ∀ i, slot r.1 = some i →
      (List.replicate rs.length b)[i]? = some b := by
    rintro r hr i hi
    obtain ⟨j, hj, hs⟩ := hp.lastRecords.slot_lt r.1 (List.mem_map_of_mem hr)
    obtain rfl : i = j := Option.some.inj (hi.symm.trans hs)
    exact List.getElem?_replicate_of_lt hj
  have hperm := place_append_perm (nodup_lastRecords rs) hp.lastRecords hblank
  rw [place_lastRecords hp (by simp)] at hperm
  apply (List.perm_append_right_iff (List.replicate (lastRecords rs).length b)).mp
  calc place slot (List.replicate rs.length b) rs ++ List.replicate (lastRecords rs).length b
    _ ~ List.replicate rs.length b ++ lastRecords rs := hperm
    _ ~ lastRecords rs ++ List.replicate rs.length b := List.perm_append_comm
    _ = lastRecords rs ++ List.replicate (rs.length - (lastRecords rs).length) b ++
        List.replicate (lastRecords rs).length b := by
      rw [List.append_assoc, ← List.replicate_add, Nat.sub_add_cancel (length_lastRecords_le rs)]

theorem mem_lastRecords_iff {k : K} {v : V} :
    (k, v) ∈ lastRecords rs ↔ rs.reverse.lookup k = some v := by
  rw [← lookup_lastRecords]
  exact (lookup_eq_some_iff (nodup_lastRecords rs)).symm

/-- Every cell is blank or holds a key that is sent to it. -/
def InPlace (slot : K → Option ℕ) (b : K × V) (cells : List (K × V)) : Prop :=
  ∀ (i : ℕ) c, cells[i]? = some c → c = b ∨ slot c.1 = some i

namespace InPlace

omit [DecidableEq K]

variable {b c : K × V} {cells' : List (K × V)} {i : ℕ}

theorem replicate : InPlace slot b (List.replicate n b) := by
  rintro i c hc
  exact Or.inl (List.eq_of_mem_replicate (List.mem_of_getElem? hc))

theorem placeOne (h : InPlace slot b cells) (r : K × V) :
    InPlace slot b (placeOne slot cells r) := by
  rintro j c hc
  unfold Tables.placeOne at hc
  split at hc
  · next i hi =>
    rw [List.getElem?_set] at hc
    split at hc
    · next hij =>
      obtain ⟨_, he⟩ := Option.ite_none_right_eq_some.mp hc
      obtain rfl := Option.some.inj he
      exact Or.inr (hij ▸ hi)
    · exact h j c hc
  · exact h j c hc

theorem place (h : InPlace slot b cells) (rs : List (K × V)) :
    InPlace slot b (place slot cells rs) := by
  induction rs generalizing cells with
  | nil => exact h
  | cons r rs ih => exact ih (h.placeOne r)

theorem getElem?_of_mem (h : InPlace slot b cells) (h' : InPlace slot b cells') (hb : c ≠ b)
    (hc : cells[i]? = some c) (hm : c ∈ cells') : cells'[i]? = some c := by
  obtain ⟨j, hj⟩ := List.mem_iff_getElem?.mp hm
  have hi := (h i c hc).resolve_left hb
  rw [(h' j c hj).resolve_left hb] at hi
  rwa [← Option.some.inj hi]

theorem ext (h : InPlace slot b cells) (h' : InPlace slot b cells')
    (hl : cells.length = cells'.length) (hm : ∀ c, c ≠ b → (c ∈ cells ↔ c ∈ cells')) :
    cells = cells' := by
  apply List.ext_getElem hl
  rintro i hi hi'
  have hc := List.getElem?_eq_getElem hi
  have hc' := List.getElem?_eq_getElem hi'
  by_cases hb : cells[i] = b
  · by_contra hne
    have hb' : cells'[i] ≠ b := fun he => hne (hb.trans he.symm)
    have he := h'.getElem?_of_mem h hb' hc' ((hm _ hb').mpr (List.mem_of_getElem? hc'))
    exact hne (Option.some.inj (hc.symm.trans he))
  · have he := h.getElem?_of_mem h' hb hc ((hm _ hb).mp (List.mem_of_getElem? hc))
    exact Option.some.inj (he.symm.trans hc')

end InPlace

theorem mem_place_replicate_iff {b : K × V} {k : K} {v : V}
    (hp : Placement slot (rs.map Prod.fst) rs.length) (hb : (k, v) ≠ b) :
    (k, v) ∈ place slot (List.replicate rs.length b) rs ↔ rs.reverse.lookup k = some v := by
  rw [(place_replicate_perm hp).mem_iff, List.mem_append, mem_lastRecords_iff]
  exact or_iff_left fun hm => hb (List.eq_of_mem_replicate hm)

/-- Records placed into as many blank cells leave the same table exactly if the last values of all
keys are the same, up to the blank pair. -/
theorem place_replicate_eq_iff {b : K × V} {rs' : List (K × V)}
    (hp : Placement slot (rs.map Prod.fst) rs.length)
    (hp' : Placement slot (rs'.map Prod.fst) rs'.length) (hl : rs.length = rs'.length) :
    place slot (List.replicate rs.length b) rs = place slot (List.replicate rs'.length b) rs' ↔
      ∀ k v, (k, v) ≠ b → (rs.reverse.lookup k = some v ↔ rs'.reverse.lookup k = some v) := by
  constructor
  · rintro h k v hb
    rw [← mem_place_replicate_iff hp hb, ← mem_place_replicate_iff hp' hb, h]
  · rintro h
    apply (InPlace.replicate.place rs).ext (InPlace.replicate.place rs') (by simpa using hl)
    rintro ⟨k, v⟩ hb
    rw [mem_place_replicate_iff hp hb, mem_place_replicate_iff hp' hb, h k v hb]

end Tables
