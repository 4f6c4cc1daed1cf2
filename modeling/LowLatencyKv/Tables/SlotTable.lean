import Mathlib.Data.List.Nodup
import Mathlib.Data.List.Perm.Subperm
import Mathlib.Data.Option.Basic
import Mathlib.Tactic.Ring

/-! # Tables addressed by a slot function

A slot function sends each key to at most one cell of a table; a lookup reads
that cell and compares the key. Whatever the slot function is, a lookup only
returns pairs of the table. If it is one-to-one on the keys of the placed
records and there are as many cells as records, the table is a permutation of
the records and represents exactly the map they form.
-/

namespace Tables

variable {K V : Type}

/-- Cells of key-value pairs with the function that selects the cell of a key. -/
structure SlotTable (K V : Type) where
  slot : K → Option ℕ
  cells : List (K × V)

/-- Read the cell of a key and compare the key stored there. -/
def SlotTable.get [DecidableEq K] (t : SlotTable K V) (k : K) : Option V :=
  (t.slot k).bind fun i => t.cells[i]?.bind fun c => if c.1 = k then some c.2 else none

/-- The slot function sends distinct keys of the list to distinct cells below `n`. -/
structure Placement (slot : K → Option ℕ) (keys : List K) (n : ℕ) : Prop where
  slot_lt : ∀ k ∈ keys, ∃ i < n, slot k = some i
  slot_inj : ∀ k ∈ keys, ∀ k' ∈ keys, slot k = slot k' → k = k'

def placeOne (slot : K → Option ℕ) (cells : List (K × V)) (r : K × V) : List (K × V) :=
  match slot r.1 with
  | some i => cells.set i r
  | none => cells

def place (slot : K → Option ℕ) (cells rs : List (K × V)) : List (K × V) :=
  rs.foldl (placeOne slot) cells

section Lookup

variable [DecidableEq K] {t : SlotTable K V} {k : K} {v : V}

theorem SlotTable.get_eq_some_iff :
    t.get k = some v ↔ ∃ i, t.slot k = some i ∧ t.cells[i]? = some (k, v) := by
  simp only [SlotTable.get, Option.bind_eq_some_iff]
  constructor
  · rintro ⟨i, hi, ⟨k', v'⟩, hc, hk⟩
    obtain ⟨rfl, rfl⟩ : k' = k ∧ v' = v := by simpa using hk
    exact ⟨i, hi, hc⟩
  · rintro ⟨i, hi, hc⟩
    exact ⟨i, hi, (k, v), hc, if_pos rfl⟩

theorem SlotTable.mem_of_get (h : t.get k = some v) : (k, v) ∈ t.cells := by
  obtain ⟨i, _, hc⟩ := get_eq_some_iff.mp h
  exact List.mem_of_getElem? hc

theorem SlotTable.get_eq_none_of_not_mem (h : k ∉ t.cells.map Prod.fst) : t.get k = none := by
  cases hg : t.get k with
  | none => rfl
  | some v => exact absurd (List.mem_map.mpr ⟨_, mem_of_get hg, rfl⟩) h

theorem lookup_of_mem {l : List (K × V)} (hd : (l.map Prod.fst).Nodup) (h : (k, v) ∈ l) :
    l.lookup k = some v := by
  induction l with
  | nil => cases h
  | cons c l ih =>
    obtain ⟨hc, hd⟩ := List.nodup_cons.mp hd
    rcases List.mem_cons.mp h with rfl | h
    · rw [List.lookup_cons_self]
    · have hne : k ≠ c.1 := by
        rintro rfl
        exact hc (List.mem_map.mpr ⟨_, h, rfl⟩)
      rw [List.lookup_cons, beq_eq_false_iff_ne.mpr hne, ih hd h]

/-- Whatever the slot function is, a lookup misses or agrees with a linear search. -/
theorem SlotTable.get_eq_none_or_lookup (hd : (t.cells.map Prod.fst).Nodup) :
    t.get k = none ∨ ∃ v, t.cells.lookup k = some v ∧ t.get k = some v := by
  cases hg : t.get k with
  | none => exact Or.inl rfl
  | some v => exact Or.inr ⟨v, lookup_of_mem hd (mem_of_get hg), rfl⟩

/-- If every stored key is found, lookups return every cell exactly if equal keys are stored with
equal values. -/
theorem SlotTable.get_cells_iff (h : ∀ c ∈ t.cells, t.get c.1 ≠ none) :
    (∀ k v, (k, v) ∈ t.cells → t.get k = some v) ↔
      ∀ k v v', (k, v) ∈ t.cells → (k, v') ∈ t.cells → v = v' := by
  constructor
  · intro hall k v v' hv hv'
    have hk := hall k v hv
    rw [hall k v' hv'] at hk
    exact (Option.some.inj hk).symm
  · intro hone k v hv
    obtain ⟨w, hw⟩ := Option.ne_none_iff_exists'.mp (h (k, v) hv)
    rw [hw, hone k v w hv (mem_of_get hw)]

theorem SlotTable.get_congr {t' : SlotTable K V} (hs : t.slot k = t'.slot k)
    (hc : ∀ i, t.slot k = some i → t.cells[i]? = t'.cells[i]?) : t.get k = t'.get k := by
  rw [SlotTable.get, SlotTable.get, ← hs]
  cases h : t.slot k with
  | none => rfl
  | some i => simp only [Option.bind_some, hc i h]

theorem SlotTable.get_set_of_ne {i : ℕ} {c : K × V} (h : t.slot k ≠ some i) :
    (SlotTable.mk t.slot (t.cells.set i c)).get k = t.get k := by
  refine SlotTable.get_congr (by rfl) fun j hj => ?_
  have hne : i ≠ j := by
    rintro rfl
    exact h hj
  rw [List.getElem?_set_ne hne]

theorem SlotTable.get_set_of_slot {i : ℕ} {c : K × V} (h : t.slot k = some i)
    (hi : i < t.cells.length) :
    (SlotTable.mk t.slot (t.cells.set i c)).get k = if k = c.1 then some c.2 else none := by
  simp only [SlotTable.get, h, Option.bind_some, List.getElem?_set_self hi, eq_comm]

end Lookup

variable {slot : K → Option ℕ} {cells rs : List (K × V)} {n : ℕ}

theorem Placement.mono {keys keys' : List K} (h : Placement slot keys n) (hs : keys' ⊆ keys) :
    Placement slot keys' n :=
  ⟨fun k hk => h.slot_lt k (hs hk), fun k hk k' hk' => h.slot_inj k (hs hk) k' (hs hk')⟩

@[simp] theorem place_nil : place slot cells [] = cells := rfl

@[simp] theorem place_cons (r : K × V) :
    place slot cells (r :: rs) = place slot (placeOne slot cells r) rs := rfl

theorem placeOne_of_slot {r : K × V} {i : ℕ} (h : slot r.1 = some i) :
    placeOne slot cells r = cells.set i r := by
  rw [placeOne, h]

@[simp] theorem length_placeOne (r : K × V) : (placeOne slot cells r).length = cells.length := by
  unfold placeOne
  split
  · exact List.length_set
  · rfl

@[simp] theorem length_place : (place slot cells rs).length = cells.length := by
  induction rs generalizing cells with
  | nil => rfl
  | cons r rs ih => rw [place_cons, ih, length_placeOne]

theorem getElem?_place_of_ne {i : ℕ} (h : ∀ r ∈ rs, slot r.1 ≠ some i) :
    (place slot cells rs)[i]? = cells[i]? := by
  induction rs generalizing cells with
  | nil => rfl
  | cons r rs ih =>
    rw [place_cons, ih fun r' hr' => h r' (List.mem_cons_of_mem _ hr')]
    unfold placeOne
    split
    · next j hj =>
      rw [List.getElem?_set_ne]
      rintro rfl
      exact h r (by simp) hj
    · rfl

theorem getElem?_place {k : K} {i : ℕ} (hp : Placement slot (rs.map Prod.fst) n)
    (hn : n ≤ cells.length) (hk : k ∈ rs.map Prod.fst) (hi : slot k = some i) :
    ∃ v, (k, v) ∈ rs ∧ (place slot cells rs)[i]? = some (k, v) := by
  induction rs generalizing cells with
  | nil => simp at hk
  | cons r rs ih =>
    have hp' : Placement slot (rs.map Prod.fst) n := hp.mono (List.subset_cons_self _ _)
    by_cases hr : k ∈ rs.map Prod.fst
    · have hn' : n ≤ (placeOne slot cells r).length := by rwa [length_placeOne]
      obtain ⟨v, hv, hc⟩ := ih hp' hn' hr
      exact ⟨v, List.mem_cons_of_mem _ hv, hc⟩
    · obtain ⟨k', v⟩ := r
      obtain rfl : k = k' := by simpa [hr] using hk
      refine ⟨v, by simp, ?_⟩
      have hlt : i < cells.length := by
        obtain ⟨j, hj, he⟩ := hp.slot_lt k (by simp)
        rw [hi] at he
        exact lt_of_lt_of_le (Option.some.inj he ▸ hj) hn
      rw [place_cons, getElem?_place_of_ne, placeOne_of_slot hi, List.getElem?_set_self hlt]
      intro r' hr' he
      have hm : r'.1 ∈ rs.map Prod.fst := List.mem_map_of_mem hr'
      have := hp.slot_inj r'.1 (List.mem_cons_of_mem _ hm) k (by simp) (he.trans hi.symm)
      exact hr (this ▸ hm)

theorem eq_of_mem_of_nodup_keys {k : K} {v v' : V} (hd : (rs.map Prod.fst).Nodup)
    (h : (k, v) ∈ rs) (h' : (k, v') ∈ rs) : v = v' := by
  have := List.inj_on_of_nodup_map hd h h' rfl
  exact congrArg Prod.snd this

theorem getElem?_place_of_nodup {k : K} {v : V} {i : ℕ}
    (hp : Placement slot (rs.map Prod.fst) n) (hn : n ≤ cells.length)
    (hd : (rs.map Prod.fst).Nodup) (hm : (k, v) ∈ rs) (hi : slot k = some i) :
    (place slot cells rs)[i]? = some (k, v) := by
  obtain ⟨v', hv', hc⟩ := getElem?_place hp hn (List.mem_map_of_mem hm) hi
  rwa [eq_of_mem_of_nodup_keys hd hm hv']

theorem Placement.slots_perm {keys : List K} (hp : Placement slot keys keys.length)
    (hd : keys.Nodup) : (keys.map slot).Perm ((List.range keys.length).map some) := by
  have hsub : keys.map slot ⊆ (List.range keys.length).map some := by
    intro s hs
    obtain ⟨k, hk, rfl⟩ := List.mem_map.mp hs
    obtain ⟨i, hi, he⟩ := hp.slot_lt k hk
    exact List.mem_map.mpr ⟨i, List.mem_range.mpr hi, he.symm⟩
  have hnd : (keys.map slot).Nodup := hd.map_on fun k hk k' hk' => hp.slot_inj k hk k' hk'
  exact (List.subperm_of_subset hnd hsub).perm_of_length_le (by simp)

theorem map_getElem?_range {α : Type} (l : List α) :
    (List.range l.length).map (fun i => l[i]?) = l.map some := by
  apply List.ext_getElem
  · simp
  · intro i hi _
    have hi' : i < l.length := by simpa using hi
    simp [hi']

/-- As many cells as records: the filled table is a permutation of the records. -/
theorem place_perm (hp : Placement slot (rs.map Prod.fst) rs.length)
    (hd : (rs.map Prod.fst).Nodup) (hc : cells.length = rs.length) :
    (place slot cells rs).Perm rs := by
  have hl : (rs.map Prod.fst).length = rs.length := List.length_map _
  have hs := (Placement.slots_perm (hl.symm ▸ hp) hd).map
    fun s => s.bind fun i => (place slot cells rs)[i]?
  have hrs : ((rs.map Prod.fst).map slot).map
      (fun s => s.bind fun i => (place slot cells rs)[i]?) = rs.map some := by
    rw [List.map_map, List.map_map]
    apply List.map_congr_left
    rintro ⟨k, v⟩ hm
    obtain ⟨i, _, hi⟩ := hp.slot_lt k (List.mem_map_of_mem hm)
    simp only [Function.comp_apply, hi, Option.bind_some]
    exact getElem?_place_of_nodup hp hc.ge hd hm hi
  have hcells : ((List.range (rs.map Prod.fst).length).map some).map
      (fun s => s.bind fun i => (place slot cells rs)[i]?) = (place slot cells rs).map some := by
    have hn : (place slot cells rs).length = rs.length := length_place.trans hc
    rw [List.map_map, hl, ← hn]
    exact map_getElem?_range _
  rw [hrs, hcells] at hs
  exact (List.map_perm_map_iff (Option.some_injective _)).mp hs.symm

/-- The table of distinct records answers with the record of the key, and with nothing else. -/
theorem get_place_iff [DecidableEq K] {k : K} {v : V}
    (hp : Placement slot (rs.map Prod.fst) rs.length) (hd : (rs.map Prod.fst).Nodup)
    (hc : cells.length = rs.length) :
    (SlotTable.mk slot (place slot cells rs)).get k = some v ↔ (k, v) ∈ rs := by
  constructor
  · intro h
    exact (place_perm hp hd hc).mem_iff.mp (SlotTable.mem_of_get h)
  · intro hm
    obtain ⟨i, _, hi⟩ := hp.slot_lt k (List.mem_map_of_mem hm)
    exact SlotTable.get_eq_some_iff.mpr ⟨i, hi, getElem?_place_of_nodup hp hc.ge hd hm hi⟩

theorem slot_of_getElem?_place {k : K} {v : V} {i : ℕ}
    (hp : Placement slot (rs.map Prod.fst) rs.length) (hd : (rs.map Prod.fst).Nodup)
    (hc : cells.length = rs.length) (h : (place slot cells rs)[i]? = some (k, v)) :
    slot k = some i := by
  have hperm := place_perm hp hd hc
  have hm : (k, v) ∈ rs := hperm.mem_iff.mp (List.mem_of_getElem? h)
  obtain ⟨j, _, hj⟩ := hp.slot_lt k (List.mem_map_of_mem hm)
  have hnd : (place slot cells rs).Nodup := hperm.nodup_iff.mpr hd.of_map
  have hlt : i < (place slot cells rs).length := (List.getElem?_eq_some_iff.mp h).1
  have he := h.trans (getElem?_place_of_nodup hp hc.ge hd hm hj).symm
  rw [(List.getElem?_inj hlt hnd).mp he, hj]

/-- If every cell is reached, a table of the same size with the same answers has the same cells. -/
theorem SlotTable.cells_eq_of_get_eq [DecidableEq K] {t t' : SlotTable K V} (hs : t'.slot = t.slot)
    (hr : ∀ i k v, t.cells[i]? = some (k, v) → t.slot k = some i)
    (hl : t'.cells.length = t.cells.length) (hg : ∀ k, t'.get k = t.get k) :
    t'.cells = t.cells := by
  apply List.ext_getElem? fun i => ?_
  rcases hc : t.cells[i]? with _ | ⟨k, v⟩
  · rw [List.getElem?_eq_none_iff] at hc ⊢
    omega
  · have hk := hr i k v hc
    have hv : t'.get k = some v := by
      rw [hg, SlotTable.get_eq_some_iff]
      exact ⟨i, hk, hc⟩
    obtain ⟨j, hj, hcj⟩ := SlotTable.get_eq_some_iff.mp hv
    rw [hs, hk] at hj
    rwa [Option.some.inj hj]

end Tables
