import LowLatencyKv.Builder.HeaderDamage
import LowLatencyKv.Validator.Diff

/-! # Comparing a snapshot with a damaged copy

Opening takes no notice of an altered data section. A comparison with the snapshot
does: each record whose key was altered is missing from the copy, each one whose
value was altered differs, and only an unaltered copy shows no difference.
-/

namespace LowLatencyKv

open Rust Tables

variable {Fn : Type} {ph : Ph Fn} {sha256 : Sha256} {t : UInt64} {rs : List (Key × Value)}
  {fn fn' : Fn} {image : List UInt8} {f g : File}

namespace IsSnapshot

variable (h : IsSnapshot ph sha256 t rs fn image g)
  (ht : f.bytes.take (Header.parse g.bytes).dataOffset.toNat =
    g.bytes.take (Header.parse g.bytes).dataOffset.toNat)

include h ht

theorem accepts_altered (hl : f.len = g.len) (ha : Accepts ph g fn') : Accepts ph f fn' := by
  refine ha.congr hl ht ?_
  rw [h.mphfSize_toNat, h.dataOffset_toNat]
  omega

theorem parse_altered : Header.parse f.bytes = Header.parse g.bytes := by
  have hd := h.dataOffset_toNat
  exact Header.parse_congr (by omega) ht

theorem ofFile_altered (fn' : Fn) : (KvStore.ofFile f fn').recordCount = rs.length ∧
    (KvStore.ofFile f fn').dataOffset = (Header.parse g.bytes).dataOffset.toNat := by
  unfold KvStore.ofFile
  rw [h.parse_altered ht]
  exact ⟨h.recordCount_toNat, rfl⟩

theorem slot_altered (ha : Accepts ph g fn') :
    (KvStore.ofFile f fn').mphf.get ph = (Mphf.mk fn rs.length).get ph := by
  have hm : (KvStore.ofFile f fn').mphf = (KvStore.ofFile g fn').mphf := by
    unfold KvStore.ofFile
    rw [h.parse_altered ht]
  rw [hm, h.slot_eq (h.get_of_accepts ha)]

theorem length_cells_altered (fn' : Fn) : (KvStore.ofFile f fn').cells.length = rs.length := by
  unfold KvStore.cells
  rw [length_pairs, (h.ofFile_altered ht fn').1]

variable (hl : f.len = g.len)

include hl

theorem inBounds_altered (fn' : Fn) : (KvStore.ofFile f fn').InBounds := by
  obtain ⟨hc, hd⟩ := h.ofFile_altered ht fn'
  have hlen := h.len_eq
  rw [← h.dataOffset_toNat] at hlen
  rw [KvStore.inBounds_iff, hc, hd]
  exact Or.inr (hl.trans hlen).ge

theorem cells_altered_eq_iff (fn' : Fn) :
    (KvStore.ofFile f fn').cells = (KvStore.ofFile g fn').cells ↔ f = g := by
  constructor
  · rintro he
    have hlen := h.len_eq
    rw [← h.dataOffset_toNat] at hlen
    have hc : (KvStore.ofFile g fn').recordCount = rs.length := h.recordCount_toNat
    have hd : (KvStore.ofFile g fn').dataOffset = (Header.parse g.bytes).dataOffset.toNat := rfl
    obtain ⟨hcf, hdf⟩ := h.ofFile_altered ht fn'
    unfold KvStore.cells at he
    rw [hc, hd, hcf, hdf] at he
    have hs := (pairs_eq_iff (hl.trans hlen).ge hlen.ge).mp he
    rw [← hlen] at hs
    have hdrop : f.bytes.drop (Header.parse g.bytes).dataOffset.toNat =
        g.bytes.drop (Header.parse g.bytes).dataOffset.toNat := by
      have hbytes : f.bytes.length = g.bytes.length := hl
      rw [drop_eq_sub, drop_eq_sub, hbytes]
      exact hs
    apply File.ext
    rw [← List.take_append_drop (Header.parse g.bytes).dataOffset.toNat f.bytes, ht, hdrop,
      List.take_append_drop]
  · rintro rfl
    rfl

omit hl in
/-- The copy answers with what stands in the cell of the key, if that is still the key. -/
theorem get_altered (hd : (rs.map Prod.fst).Nodup) (ha : Accepts ph g fn') {i : ℕ}
    {c c' : Key × Value} (hc : (KvStore.ofFile g fn').cells[i]? = some c)
    (hc' : (KvStore.ofFile f fn').cells[i]? = some c') :
    ((KvStore.ofFile f fn').table ph).get c.1 = if c'.1 = c.1 then some c'.2 else none := by
  rw [h.cells_eq] at hc
  have hslot : (KvStore.ofFile f fn').mphf.get ph c.1 = some i := by
    rw [h.slot_altered ht ha]
    exact slot_of_getElem?_snapshotCells h.indexes.builds hd hc
  simp only [KvStore.table, SlotTable.get, hslot, Option.bind_some, hc']

end IsSnapshot

namespace Validator

/-- The number of records whose key was altered. -/
def keysAltered (la lb : List (Key × Value)) : ℕ := (la.zip lb).countP fun p => p.1.1 ≠ p.2.1

/-- The number of records of which the value alone was altered. -/
def valuesAltered (la lb : List (Key × Value)) : ℕ :=
  (la.zip lb).countP fun p => p.1.1 = p.2.1 ∧ p.1.2 ≠ p.2.2

/-- The number of records under keys that were never added. -/
def foreignKeys (rs lb : List (Key × Value)) : ℕ :=
  lb.countP fun r => (rs.lookup r.1).isNone

theorem eq_of_mem_zip_self {l : List (Key × Value)} {p : (Key × Value) × (Key × Value)}
    (h : p ∈ l.zip l) : p.1 = p.2 := by
  obtain ⟨i, hi⟩ := List.mem_iff_getElem?.mp h
  obtain ⟨h₁, h₂⟩ := List.getElem?_zip_eq_some.mp hi
  exact Option.some.inj (h₁.symm.trans h₂)

theorem unaltered_self (l : List (Key × Value)) : keysAltered l l = 0 ∧ valuesAltered l l = 0 := by
  unfold keysAltered valuesAltered
  rw [List.countP_eq_zero, List.countP_eq_zero]
  constructor
  all_goals
    rintro p hp
    simp [eq_of_mem_zip_self hp]

theorem foreignKeys_of_perm {rs l : List (Key × Value)} (hp : l.Perm rs) :
    foreignKeys rs l = 0 := by
  unfold foreignKeys
  rw [List.countP_eq_zero]
  rintro r hr hn
  rw [Option.isNone_iff_eq_none, lookup_eq_none_iff_not_mem] at hn
  exact hn (List.mem_map_of_mem (hp.mem_iff.mp hr))

theorem eq_of_unaltered {la lb : List (Key × Value)} (hl : la.length = lb.length)
    (hk : keysAltered la lb = 0) (hv : valuesAltered la lb = 0) : la = lb := by
  unfold keysAltered at hk
  unfold valuesAltered at hv
  rw [List.countP_eq_zero] at hk hv
  apply List.ext_getElem hl
  rintro i hi hi'
  have hm : (la[i], lb[i]) ∈ la.zip lb := by
    rw [List.mem_iff_getElem?]
    exact ⟨i, List.getElem?_zip_eq_some.mpr
      ⟨List.getElem?_eq_getElem hi, List.getElem?_eq_getElem hi'⟩⟩
  have hkey : la[i].1 = lb[i].1 := by simpa using hk _ hm
  have hval : la[i].2 = lb[i].2 := by simpa [hkey] using hv _ hm
  exact Prod.ext hkey hval

section Counts

variable {A B la lb : List (Key × Value)}

theorem changeA_cell_iff {c c' : Key × Value} {d : Change}
    (hf : B.lookup c.1 = if c'.1 = c.1 then some c'.2 else none) :
    (changeA (B.lookup ·) c).map Prod.fst = some d ↔
      d = .inAOnly ∧ c.1 ≠ c'.1 ∨ d = .valueDiffers ∧ c.1 = c'.1 ∧ c.2 ≠ c'.2 := by
  unfold changeA
  simp only [hf]
  by_cases hk : c'.1 = c.1
  · by_cases hv : c.2 = c'.2 <;> simp [hk, hv, eq_comm]
  · simp [hk, Ne.symm hk, eq_comm]

theorem countOf_foreignKeys : countOf .inBOnly (changes A B la lb) = foreignKeys A lb := by
  unfold changes foreignKeys
  rw [countOf_append, countOf_changeA, Nat.zero_add, countOf_filterMap]
  apply List.countP_congr
  rintro r _
  rw [decide_eq_true_iff, Option.isNone_iff_eq_none, Option.map_eq_some_iff]
  simp [changeB_eq_some_iff]

variable (hl : la.length = lb.length) (hf : ∀ (i : ℕ) c c', la[i]? = some c → lb[i]? = some c' →
  B.lookup c.1 = if c'.1 = c.1 then some c'.2 else none)

include hl hf

theorem countOf_keysAltered : countOf .inAOnly (changes A B la lb) = keysAltered la lb := by
  unfold changes
  rw [countOf_append, countOf_changeB (by decide), Nat.add_zero, countOf_filterMap]
  apply countP_eq_countP_zip hl
  rintro i c c' hc hc'
  apply decide_eq_decide.mpr
  rw [changeA_cell_iff (hf i c c' hc hc')]
  simp

theorem countOf_valuesAltered :
    countOf .valueDiffers (changes A B la lb) = valuesAltered la lb := by
  unfold changes
  rw [countOf_append, countOf_changeB (by decide), Nat.add_zero, countOf_filterMap]
  apply countP_eq_countP_zip hl
  rintro i c c' hc hc'
  apply decide_eq_decide.mpr
  rw [changeA_cell_iff (hf i c c' hc hc')]
  simp

end Counts

theorem length_changes_le (A B la lb : List (Key × Value)) :
    (changes A B la lb).length ≤ la.length + lb.length := by
  unfold changes
  rw [List.length_append]
  exact Nat.add_le_add (List.length_filterMap_le _ _) (List.length_filterMap_le _ _)

/-- A comparison with a copy whose data section was altered counts the records with another key,
those with another value and the keys that were never added; there are none exactly if nothing was
altered. -/
theorem diff_shows_damage (hA : BuiltFrom ph sha256 rs g) (hn : rs.length < 2 ^ 30)
    (hl : f.len = g.len) (ht : f.bytes.take (Header.parse g.bytes).dataOffset.toNat =
      g.bytes.take (Header.parse g.bytes).dataOffset.toNat) :
    ∃ sa sb la lb, KvStore.open ph g = .ok sa ∧ KvStore.open ph f = .ok sb ∧
      sa.iter = .ok la ∧ sb.iter = .ok lb ∧
      (∀ maxDiffs out, ∃ shown : Console, diffSnapshots ph g f maxDiffs out = (.ok (),
        out ++ diffHeader rs.length rs.length ++ shown ++ diffSummary (keysAltered la lb)
          (foreignKeys rs lb) (valuesAltered la lb)) ∧ shown.length = min maxDiffs.toNat
            (keysAltered la lb + foreignKeys rs lb + valuesAltered la lb)) ∧
      (keysAltered la lb + foreignKeys rs lb + valuesAltered la lb = 0 ↔ f = g) := by
  obtain ⟨fn, image, hi, hsz⟩ := hA.exists_index
  obtain ⟨env, s, log, hbuild⟩ := hA.exists_build
  obtain ⟨t, _, h⟩ := exists_isSnapshot_of_build hi hsz hbuild rfl
  obtain ⟨fn', ha, _⟩ := h.accepts hA.length_le
  have hoa := open_eq_ok_iff.mpr ⟨fn', ha, rfl⟩
  have hob := open_eq_ok_iff.mpr ⟨fn', h.accepts_altered ht hl ha, rfl⟩
  have hba := h.inBounds fn'
  have hbb := h.inBounds_altered ht hl fn'
  obtain ⟨st, ho, _, hlena, hga, hp⟩ := hA.opens
  obtain rfl := Outcome.ok.inj (ho.symm.trans hoa)
  have hlb := h.length_cells_altered ht fn'
  have hlen : (KvStore.ofFile g fn').cells.length = (KvStore.ofFile f fn').cells.length :=
    hp.length_eq.trans hlb.symm
  have hgb (k : Key) : (KvStore.ofFile f fn').get ph k =
      .ok (((KvStore.ofFile f fn').table ph).found.lookup k) := by
    rw [KvStore.get_eq hbb, SlotTable.lookup_found]
  have hcells : ∀ (i : ℕ) c c', (KvStore.ofFile g fn').cells[i]? = some c →
      (KvStore.ofFile f fn').cells[i]? = some c' →
      ((KvStore.ofFile f fn').table ph).found.lookup c.1 =
        if c'.1 = c.1 then some c'.2 else none := by
    rintro i c c' hc hc'
    rw [SlotTable.lookup_found, h.get_altered ht hA.nodup ha hc hc']
  have hk := countOf_keysAltered (A := rs) hlen hcells
  have hv := countOf_valuesAltered (A := rs) hlen hcells
  have hle := length_changes_le rs ((KvStore.ofFile f fn').table ph).found
    (KvStore.ofFile g fn').cells (KvStore.ofFile f fn').cells
  rw [hp.length_eq, hlb] at hle
  have hlenb : (KvStore.ofFile f fn').len = rs.length := (h.ofFile_altered ht fn').1
  refine ⟨_, _, _, _, hoa, hob, KvStore.iter_eq hba, KvStore.iter_eq hbb,
    fun maxDiffs out => ?_, ?_⟩
  · refine ⟨shownLines maxDiffs (changes rs ((KvStore.ofFile f fn').table ph).found
      (KvStore.ofFile g fn').cells (KvStore.ofFile f fn').cells), ?_, ?_⟩
    · rw [diffSnapshots_run hoa hob hba hbb hga hgb (by omega), hk, hv, countOf_foreignKeys,
        hlena, hlenb]
    · rw [length_shownLines, length_eq_countOf, hk, hv, countOf_foreignKeys]
  · rw [← h.cells_altered_eq_iff ht hl fn']
    constructor
    · rintro h0
      exact (eq_of_unaltered hlen (by omega) (by omega)).symm
    · rintro he
      obtain ⟨hk0, hv0⟩ := unaltered_self (KvStore.ofFile g fn').cells
      rw [he, hk0, hv0, foreignKeys_of_perm hp]

/-- A copy of the snapshot of two records with another value. -/
theorem diff_shows_damage_two : ∃ g f : File, ∃ shown : Console, ∃ inAOnly inBOnly valueDiffers,
    diffSnapshots listIndex g f 10 [] = (.ok (), [] ++ diffHeader 2 2 ++ shown ++
      diffSummary inAOnly inBOnly valueDiffers) ∧ inAOnly + inBOnly + valueDiffers ≠ 0 := by
  obtain ⟨g, log, hrun, hg, hlen, hd⟩ := build_twoRecords twoDigest
  obtain ⟨f, hl, ht, hdrop⟩ := exists_altered hlen
  have hA : BuiltFrom listIndex twoDigest twoRecords g :=
    ⟨twoKeys_nodup, by decide, ⟨_, _, twoRecords_indexes, twoRecords_size⟩, _, _, _, hrun⟩
  rw [← hd] at ht hdrop
  obtain ⟨sa, sb, la, lb, _, _, _, _, hdiff, hsame⟩ := diff_shows_damage hA (by decide) hl ht
  obtain ⟨shown, hout, _⟩ := hdiff 10 []
  refine ⟨g, f, shown, _, _, _, hout, fun h0 => alteredRecords_ne ?_⟩
  obtain rfl := hsame.mp h0
  rw [← hdrop, hg.parse_eq, hg.hasLayout.drop_dataOffset, snapshotCells_twoRecords]

end Validator

end LowLatencyKv
