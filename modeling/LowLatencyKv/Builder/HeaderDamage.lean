import LowLatencyKv.Builder.Damage

/-! # Damaged layout fields

A snapshot in whose header the record count, the index size and the data offset
were replaced. The damage is refused or without effect unless the index slice
leaves the file or the new offset points at other bytes inside it.
-/

namespace LowLatencyKv

open Rust Tables

variable {Fn : Type} {ph : Ph Fn} {sha256 : Sha256} {t : UInt64} {rs : List (Key × Value)}
  {fn fn' : Fn} {image : List UInt8} {f g : File} {rc ms d : UInt64}

/-- The written index is read with anything behind it, and is not read if cut short. -/
structure Ph.ReadsExactly (ph : Ph Fn) (fn : Fn) (image : List UInt8) : Prop where
  read_append : ∀ l, ∃ fn', ph.read (image ++ l) = .ok fn' ∧ ∀ k, ph.get fn' k = ph.get fn k
  read_prefix : ∀ l, l <+: image → l ≠ image → ∃ e, ph.read l = .error e

def layoutBytes (rc ms d : UInt64) : List UInt8 := toLeBytes rc ++ toLeBytes ms ++ toLeBytes d

@[simp] theorem length_layoutBytes : (layoutBytes rc ms d).length = 24 := by
  simp [layoutBytes]

def Header.withLayout (h : Header) (rc ms d : UInt64) : Header :=
  { h with recordCount := rc, mphfSize := ms, dataOffset := d }

section WithLayout

variable (h : Header)

@[simp] theorem Header.withLayout_magic : (h.withLayout rc ms d).magic = h.magic := rfl
@[simp] theorem Header.withLayout_version : (h.withLayout rc ms d).version = h.version := rfl
@[simp] theorem Header.withLayout_recordCount : (h.withLayout rc ms d).recordCount = rc := rfl
@[simp] theorem Header.withLayout_mphfSize : (h.withLayout rc ms d).mphfSize = ms := rfl
@[simp] theorem Header.withLayout_dataOffset : (h.withLayout rc ms d).dataOffset = d := rfl

end WithLayout

section Fields

variable (hl : 4096 ≤ g.len) (hf : f.bytes = splice g.bytes 16 (layoutBytes rc ms d))

include hl

theorem layoutBytes_le : 16 + (layoutBytes rc ms d).length ≤ g.bytes.length := by
  rw [length_layoutBytes]
  exact le_trans (by decide) hl

include hf

theorem len_damaged : f.len = g.len := by
  rw [File.len, hf, length_splice (layoutBytes_le hl), File.len]

theorem sub_damaged {a b : ℕ} (h : b ≤ 16 ∨ 40 ≤ a) : sub f.bytes a b = sub g.bytes a b := by
  rw [hf, sub_splice_of_disjoint (layoutBytes_le hl) (by rw [length_layoutBytes]; omega)]

theorem wordAt_damaged {c : ℕ} (h : c + 8 ≤ 24) :
    wordAt f.bytes (16 + c) = wordAt (layoutBytes rc ms d) c := by
  have hs : sub f.bytes 16 (16 + 24) = layoutBytes rc ms d := by
    rw [hf]
    exact sub_splice_self (layoutBytes_le hl)
  rw [← hs, wordAt_sub (by omega)]

theorem parse_damaged : Header.parse f.bytes = (Header.parse g.bytes).withLayout rc ms d := by
  have hout {a : ℕ} (h : a + 8 ≤ 16 ∨ 40 ≤ a) : wordAt f.bytes a = wordAt g.bytes a := by
    rw [wordAt, sub_damaged hl hf h, wordAt]
  ext1
  case recordCount =>
    refine (wordAt_damaged hl hf (by omega : 0 + 8 ≤ 24)).trans ?_
    rw [layoutBytes, List.append_assoc, wordAt_cons_zero, Header.withLayout_recordCount]
  case mphfSize =>
    refine (wordAt_damaged hl hf (by omega : 0 + 8 + 8 ≤ 24)).trans ?_
    rw [layoutBytes, List.append_assoc, wordAt_cons_add, wordAt_cons_zero,
      Header.withLayout_mphfSize]
  case dataOffset =>
    refine (wordAt_damaged hl hf (by omega : 0 + 8 + 8 + 8 ≤ 24)).trans ?_
    rw [layoutBytes, List.append_assoc, wordAt_cons_add, wordAt_cons_add,
      ← List.append_nil (toLeBytes d), wordAt_cons_zero, Header.withLayout_dataOffset]
  case checksum =>
    rw [Header.parse, sub_damaged hl hf (Or.inr (by decide))]
    rfl
  all_goals exact hout (by omega)

end Fields

namespace IsSnapshot

variable (h : IsSnapshot ph sha256 t rs fn image g)

include h

theorem page_le : 4096 ≤ g.len := by
  rw [h.len_eq]
  omega

theorem exists_index : ∃ pre rest, g.bytes = pre ++ toLeBytes (UInt64.ofNat rs.length) ++
    (image ++ rest) ∧ pre.length = 4096 := by
  have hb := h.bytes_eq
  rw [snapshotBytes, indexBytes] at hb
  simp only [List.append_assoc] at hb
  exact ⟨_, _, by rw [hb, List.append_assoc], Header.length_toBytes _⟩

theorem count_eq : wordAt g.bytes 4096 = UInt64.ofNat rs.length := by
  obtain ⟨pre, rest, hb, hp⟩ := h.exists_index
  rw [hb]
  exact wordAt_of_sub (sub_middle _ _ _ hp rfl)

theorem sub_image : sub g.bytes 4104 (4104 + image.length) = image := by
  obtain ⟨pre, rest, hb, hp⟩ := h.exists_index
  rw [hb, ← List.append_assoc]
  refine sub_middle _ _ _ ?_ rfl
  rw [List.length_append, hp, length_toLeBytes]

theorem get_of_accepts (ha : Accepts ph g fn') (k : Key) : ph.get fn' k = ph.get fn k := by
  obtain ⟨fn'', hread, hg⟩ := h.indexes.read
  have hr := ha.read
  rw [h.mphfSize_toNat, show 4096 + (8 + image.length) = 4104 + image.length by omega, h.sub_image,
    hread] at hr
  rw [← Except.ok.inj hr, hg k]

theorem read_of_le (hr : ph.ReadsExactly fn image) {m : ℕ} (hm : 8 + image.length ≤ m) :
    ∃ fn', ph.read (sub g.bytes 4104 (4096 + m)) = .ok fn' ∧ ∀ k, ph.get fn' k = ph.get fn k := by
  have hs : sub g.bytes 4104 (4104 + image.length) ++
      sub g.bytes (4104 + image.length) (4096 + m) = sub g.bytes 4104 (4096 + m) :=
    append_sub (Nat.le_add_right _ _) (by omega)
  rw [← hs, h.sub_image]
  exact hr.read_append _

theorem read_of_lt (hr : ph.ReadsExactly fn image) {m : ℕ} (h8 : 8 ≤ m)
    (hm : m < 8 + image.length) : ∃ e, ph.read (sub g.bytes 4104 (4096 + m)) = .error e := by
  have hs : sub g.bytes 4104 (4096 + m) = image.take (m - 8) := by
    have hi := congrArg (fun l => sub l 0 (m - 8)) h.sub_image
    simp only [sub_of_sub (by omega : 4104 + (m - 8) ≤ 4104 + image.length)] at hi
    rw [show 4104 + (m - 8) = 4096 + m by omega] at hi
    exact hi
  rw [hs]
  refine hr.read_prefix _ (List.take_prefix _ _) fun he => ?_
  have := congrArg List.length he
  rw [List.length_take] at this
  omega

section Damaged

variable (hf : f.bytes = splice g.bytes 16 (layoutBytes rc ms d))

include hf

theorem accepts_damaged (hr : ph.ReadsExactly fn image) (hc : rc.toNat = rs.length)
    (hn : rs.length ≤ 10000000000) (hm : 8 + image.length ≤ ms.toNat)
    (hml : 4096 + ms.toNat ≤ g.len) (hs : (d.toNat + 320 * rs.length) % 2 ^ 64 ≤ g.len) :
    ∃ fn', Accepts ph f fn' := by
  obtain ⟨fn', hread, _⟩ := h.read_of_le hr hm
  have hp := parse_damaged h.page_le hf
  have hl := len_damaged h.page_le hf
  have hv := Header.validate_eq_ok_iff.mp (h.validate_eq hn)
  have hrc : rc ≤ maxRecords := by
    rw [UInt64.le_iff_toNat_le, hc]
    exact hn
  have hcount : wordAt f.bytes 4096 = rc := by
    rw [wordAt, sub_damaged h.page_le hf (Or.inr (by omega)), ← wordAt, h.count_eq, ← hc]
    exact UInt64.ofNat_toNat
  refine ⟨fn', ?_⟩
  constructor <;> simp only [hp, hl, Header.withLayout_recordCount, Header.withLayout_mphfSize,
    Header.withLayout_dataOffset]
  case page_le => exact h.page_le
  case valid => exact Header.validate_eq_ok_iff.mpr ⟨hv.1, hv.2.1, hrc⟩
  case index_le => exact hml
  case prefix_le => omega
  case read => rwa [sub_damaged h.page_le hf (Or.inr (by omega))]
  case count => exact hcount
  case size_le => rwa [KvStore.offset_eq, hc]

theorem of_accepts_damaged (hr : ph.ReadsExactly fn image) (ha : Accepts ph f fn') :
    rc.toNat = rs.length ∧ 8 + image.length ≤ ms.toNat ∧
      (d.toNat + 320 * rs.length) % 2 ^ 64 ≤ g.len ∧ ∀ k, ph.get fn' k = ph.get fn k := by
  have hsz := h.size_lt
  obtain ⟨_, _, _, hpre, hread, hc, hs⟩ := ha
  simp only [parse_damaged h.page_le hf, len_damaged h.page_le hf, Header.withLayout_recordCount,
    Header.withLayout_mphfSize, Header.withLayout_dataOffset, KvStore.offset_eq] at hpre hread hc hs
  rw [wordAt, sub_damaged h.page_le hf (Or.inr (by omega)), ← wordAt, h.count_eq] at hc
  rw [sub_damaged h.page_le hf (Or.inr (by omega))] at hread
  have hrc : rc.toNat = rs.length := by
    rw [← hc]
    exact UInt64.toNat_ofNat_of_lt' (by omega : _ < 2 ^ 64)
  have hm : 8 + image.length ≤ ms.toNat := by
    by_contra hlt
    obtain ⟨e, he⟩ := h.read_of_lt hr hpre (Nat.not_le.mp hlt)
    rw [he] at hread
    cases hread
  obtain ⟨fn'', hread', hg⟩ := h.read_of_le hr hm
  obtain rfl := Except.ok.inj (hread.symm.trans hread')
  exact ⟨hrc, hm, hrc ▸ hs, hg⟩

theorem recordCount_damaged (hc : rc.toNat = rs.length) :
    (KvStore.ofFile f fn').recordCount = rs.length := by
  rw [KvStore.ofFile, parse_damaged h.page_le hf, Header.withLayout_recordCount, hc]

theorem dataOffset_damaged : (KvStore.ofFile f fn').dataOffset = d.toNat := by
  rw [KvStore.ofFile, parse_damaged h.page_le hf, Header.withLayout_dataOffset]

theorem inBounds_damaged (hc : rc.toNat = rs.length) (hle : d.toNat + 320 * rs.length ≤ g.len) :
    (KvStore.ofFile f fn').InBounds := by
  rw [KvStore.inBounds_iff, h.dataOffset_damaged hf, h.recordCount_damaged hf hc]
  exact Or.inr (hle.trans (len_damaged h.page_le hf).ge)

theorem slot_damaged (hc : rc.toNat = rs.length) (hg : ∀ k, ph.get fn' k = ph.get fn k) :
    (KvStore.ofFile f fn').mphf.get ph = (Mphf.mk fn rs.length).get ph := by
  have hrc : (KvStore.ofFile f fn').recordCount = rs.length := h.recordCount_damaged hf hc
  exact Mphf.get_congr hg hrc

theorem cells_damaged_iff {fn₀ : Fn} (hc : rc.toNat = rs.length)
    (hle : d.toNat + 320 * rs.length ≤ g.len) :
    (KvStore.ofFile f fn').cells = (KvStore.ofFile g fn₀).cells ↔
      sub f.bytes d.toNat (d.toNat + 320 * rs.length) =
        sub g.bytes (Header.parse g.bytes).dataOffset.toNat
          ((Header.parse g.bytes).dataOffset.toNat + 320 * rs.length) := by
  have hend := h.len_eq
  rw [← h.dataOffset_toNat] at hend
  rw [KvStore.cells, KvStore.cells, h.recordCount_damaged hf hc, h.dataOffset_damaged hf]
  simp only [KvStore.ofFile, h.recordCount_toNat]
  exact pairs_eq_iff (hle.trans (len_damaged h.page_le hf).ge) hend.ge

/-- A data section that leaves the file makes the lookup of some stored key panic. -/
theorem exists_get_panic_damaged (hne : rs ≠ []) (hd : (rs.map Prod.fst).Nodup)
    (hc : rc.toNat = rs.length) (hg : ∀ k, ph.get fn' k = ph.get fn k)
    (hgt : g.len < d.toNat + 320 * rs.length) :
    ∃ k, (KvStore.ofFile f fn').get ph k = .panic := by
  have hrc : (KvStore.ofFile f fn').recordCount = rs.length := h.recordCount_damaged hf hc
  have hdo : (KvStore.ofFile f fn').dataOffset = d.toNat := h.dataOffset_damaged hf
  have hlen : f.len = g.len := len_damaged h.page_le hf
  obtain ⟨i, hi, hpanic⟩ := KvStore.exists_getRecord_panic (hdo ▸ d.toNat_lt)
    (hrc ▸ List.length_pos_of_ne_nil hne) (by rw [hdo, hrc]; exact hlen ▸ hgt)
  have hi' : i < (snapshotCells ph fn rs).length := by rwa [length_snapshotCells, ← hrc]
  obtain ⟨⟨k, v⟩, hkv⟩ : ∃ r, (snapshotCells ph fn rs)[i]? = some r :=
    ⟨_, List.getElem?_eq_getElem hi'⟩
  have hslot := (congrFun (h.slot_damaged hf hc hg) k).trans
    (slot_of_getElem?_snapshotCells h.indexes.builds hd hkv)
  exact ⟨k, KvStore.get_of_getRecord_panic hslot hi hpanic⟩

/-- A damaged snapshot answers as before exactly if its data offset points at the same bytes. -/
theorem get_damaged_iff {fn₀ : Fn} (hne : rs ≠ []) (hd : (rs.map Prod.fst).Nodup)
    (hc : rc.toNat = rs.length) (hg : ∀ k, ph.get fn' k = ph.get fn k)
    (hg₀ : ∀ k, ph.get fn₀ k = ph.get fn k) :
    (∀ k, (KvStore.ofFile f fn').get ph k = (KvStore.ofFile g fn₀).get ph k) ↔
      d.toNat + 320 * rs.length ≤ g.len ∧ sub f.bytes d.toNat (d.toNat + 320 * rs.length) =
        sub g.bytes (Header.parse g.bytes).dataOffset.toNat
          ((Header.parse g.bytes).dataOffset.toNat + 320 * rs.length) := by
  have hslot := h.slot_damaged hf hc hg
  have hin₀ := h.inBounds fn₀
  constructor
  · intro hsame
    have hle : d.toNat + 320 * rs.length ≤ g.len := by
      by_contra hgt
      obtain ⟨k, hp⟩ := h.exists_get_panic_damaged hf hne hd hc hg (Nat.not_le.mp hgt)
      rw [hsame k, KvStore.get_eq hin₀] at hp
      exact nomatch hp
    have hcells : ((KvStore.ofFile f fn').table ph).cells =
        ((KvStore.ofFile g fn₀).table ph).cells := by
      apply SlotTable.cells_eq_of_get_eq (hslot.trans (h.slot_eq hg₀).symm)
      · intro i k v hi
        rw [KvStore.table, h.cells_eq] at hi
        rw [KvStore.table, h.slot_eq hg₀]
        exact slot_of_getElem?_snapshotCells h.indexes.builds hd hi
      · rw [KvStore.table, KvStore.table, h.cells_eq, length_snapshotCells, KvStore.cells,
          length_pairs, h.recordCount_damaged hf hc]
      · intro k
        have he := hsame k
        rw [KvStore.get_eq (h.inBounds_damaged hf hc hle), KvStore.get_eq hin₀] at he
        exact Outcome.ok.inj he
    exact ⟨hle, (h.cells_damaged_iff hf hc hle).mp hcells⟩
  · rintro ⟨hle, hbytes⟩ k
    rw [KvStore.get_eq (h.inBounds_damaged hf hc hle), KvStore.get_eq hin₀, KvStore.table,
      KvStore.table, hslot, h.slot_eq hg₀, (h.cells_damaged_iff hf hc hle).mpr hbytes]

theorem validate_damaged :
    (Header.parse f.bytes).validate = .ok () ↔ rc.toNat ≤ 10000000000 := by
  rw [Header.validate_eq_ok_iff, parse_damaged h.page_le hf, Header.withLayout_magic,
    Header.withLayout_version, Header.withLayout_recordCount, UInt64.le_iff_toNat_le]
  exact ⟨fun hc => hc.2.2, fun hc => ⟨h.magic_eq, h.version_eq, hc⟩⟩

theorem open_damaged_panic_iff :
    KvStore.open ph f = .panic ↔ rc.toNat ≤ 10000000000 ∧ g.len < 4096 + ms.toNat := by
  rw [open_eq_panic_iff, h.validate_damaged hf, parse_damaged h.page_le hf,
    len_damaged h.page_le hf, Header.withLayout_mphfSize]
  exact ⟨fun hp => hp.2, fun hp => ⟨h.page_le, hp⟩⟩

theorem of_open_damaged_err (hr : ph.ReadsExactly fn image) {e : Error}
    (ho : KvStore.open ph f = .err e) :
    10000000000 < rc.toNat ∨ (4096 + ms.toNat ≤ g.len ∧ (ms.toNat < 8 + image.length ∨
      rc.toNat ≠ rs.length ∨ g.len < (d.toNat + 320 * rs.length) % 2 ^ 64)) := by
  by_contra hcond
  have hn : rc.toNat ≤ 10000000000 := Nat.not_lt.mp fun hgt => hcond (Or.inl hgt)
  have hml : 4096 + ms.toNat ≤ g.len := by
    by_contra hgt
    have hpanic := (h.open_damaged_panic_iff hf).mpr ⟨hn, Nat.not_le.mp hgt⟩
    rw [ho] at hpanic
    exact nomatch hpanic
  have hm : 8 + image.length ≤ ms.toNat :=
    Nat.not_lt.mp fun hlt => hcond (Or.inr ⟨hml, Or.inl hlt⟩)
  have hc : rc.toNat = rs.length := by
    by_contra hne
    exact hcond (Or.inr ⟨hml, Or.inr (Or.inl hne)⟩)
  have hs : (d.toNat + 320 * rs.length) % 2 ^ 64 ≤ g.len :=
    Nat.not_lt.mp fun hgt => hcond (Or.inr ⟨hml, Or.inr (Or.inr hgt)⟩)
  obtain ⟨fn', ha⟩ := h.accepts_damaged hf hr hc (hc ▸ hn) hm hml hs
  rw [open_eq_ok_iff.mpr ⟨fn', ha, rfl⟩] at ho
  exact nomatch ho

end Damaged

end IsSnapshot

/-- Other layout fields are refused, or leave every answer as it was, exactly if the record count is
too large, or the index slice ends in the file and either the index does not decode to the announced
count, or the announced end of the records is refused, or the records are the same bytes. -/
theorem damaged_header_iff {old : Option File} {log : List (BuildStep × File)}
    (hd : (rs.map Prod.fst).Nodup) (hi : ph.Indexes (rs.map Prod.fst) fn image)
    (hr : ph.ReadsExactly fn image)
    (hsz : 4096 + (8 + image.length) + 4095 + 320 * rs.length < 2 ^ 64)
    (hb : (SnapshotBuilder.ofRecords rs).build ph sha256 (.faultless t) ⟨old, []⟩ =
      (.ok (), ⟨some g, log⟩))
    (hf : f.bytes = splice g.bytes 16 (layoutBytes rc ms d)) :
    ((∃ e, KvStore.open ph f = .err e) ∨ ∃ s', KvStore.open ph f = .ok s' ∧
        ∀ s, KvStore.open ph g = .ok s → ∀ k, s'.get ph k = s.get ph k) ↔
      10000000000 < rc.toNat ∨ (4096 + ms.toNat ≤ g.len ∧
        (ms.toNat < 8 + image.length ∨ rc.toNat ≠ rs.length ∨
          g.len < (d.toNat + 320 * rs.length) % 2 ^ 64 ∨
          (d.toNat + 320 * rs.length ≤ g.len ∧
            sub f.bytes d.toNat (d.toNat + 320 * rs.length) =
              sub g.bytes (Header.parse g.bytes).dataOffset.toNat
                ((Header.parse g.bytes).dataOffset.toNat + 320 * rs.length)))) := by
  have h := isSnapshot_of_build hi hsz hb
  have hne : rs ≠ [] := by
    rintro rfl
    exact nomatch hb
  rcases ho : KvStore.open ph f with s' | e | _
  · obtain ⟨fn', ha, rfl⟩ := open_eq_ok_iff.mp ho
    obtain ⟨hc, hm, hs, hg⟩ := h.of_accepts_damaged hf hr ha
    have hml := ha.index_le
    rw [parse_damaged h.page_le hf, len_damaged h.page_le hf, Header.withLayout_mphfSize] at hml
    have hn := (h.validate_damaged hf).mp ha.valid
    obtain ⟨fn₀, ha₀, hg₀⟩ := h.accepts (hc ▸ hn)
    constructor
    · rintro (⟨e, he⟩ | ⟨_, hs', hall⟩)
      · exact nomatch he
      · obtain rfl := Outcome.ok.inj hs'
        have hsame := hall _ (open_eq_ok_iff.mpr ⟨fn₀, ha₀, rfl⟩)
        have hres := (h.get_damaged_iff hf hne hd hc hg hg₀).mp hsame
        exact Or.inr ⟨hml, Or.inr (Or.inr (Or.inr hres))⟩
    · intro hcond
      refine Or.inr ⟨_, rfl, fun s hs' => ?_⟩
      obtain ⟨fn₁, ha₁, rfl⟩ := open_eq_ok_iff.mp hs'
      apply (h.get_damaged_iff hf hne hd hc hg (h.get_of_accepts ha₁)).mpr
      rcases hcond with hgt | ⟨_, hlt | hne' | hgt | hres⟩
      · omega
      · omega
      · exact absurd hc hne'
      · omega
      · exact hres
  · refine iff_of_true (Or.inl ⟨e, rfl⟩) ?_
    rcases h.of_open_damaged_err hf hr ho with hgt | ⟨hml, hlt | hne' | hgt⟩
    · exact Or.inl hgt
    · exact Or.inr ⟨hml, Or.inl hlt⟩
    · exact Or.inr ⟨hml, Or.inr (Or.inl hne')⟩
    · exact Or.inr ⟨hml, Or.inr (Or.inr (Or.inl hgt))⟩
  · have hp := (h.open_damaged_panic_iff hf).mp ho
    refine iff_of_false ?_ (by omega)
    rintro (⟨e, he⟩ | ⟨s', hs, _⟩)
    · exact nomatch he
    · exact nomatch hs

theorem twoKeys_readsExactly : listIndex.ReadsExactly twoKeys (ListIndex.write twoKeys) := by
  refine ⟨fun l => ⟨twoKeys, ?_, fun _ => rfl⟩, fun l hp hne => ?_⟩
  · rw [listIndex_read, ListIndex.read_write_append (by decide)]
  · rw [listIndex_read]
    exact ListIndex.read_of_prefix (by decide) hp hne

theorem exists_damaged (hl : 4096 ≤ g.len) (rc ms d : UInt64) :
    ∃ f : File, f.bytes = splice g.bytes 16 (layoutBytes rc ms d) :=
  ⟨⟨splice g.bytes 16 (layoutBytes rc ms d),
    (length_splice (layoutBytes_le hl)).trans_lt g.length_lt⟩, rfl⟩

theorem damaged_header_iff_two :
    ∃ (g f : File) (log : List (BuildStep × File)),
      (SnapshotBuilder.ofRecords twoRecords).build listIndex twoDigest (.faultless 0) ⟨none, []⟩ =
        (.ok (), ⟨some g, log⟩) ∧ f.bytes = splice g.bytes 16 (layoutBytes 3 144 8192) ∧
      ((∃ e, KvStore.open listIndex f = .err e) ∨ ∃ s', KvStore.open listIndex f = .ok s' ∧
        ∀ s, KvStore.open listIndex g = .ok s → ∀ k, s'.get listIndex k = s.get listIndex k) := by
  obtain ⟨g, log, hrun, hg, hlen, hdo⟩ := build_twoRecords twoDigest
  obtain ⟨f, hf⟩ := exists_damaged hg.page_le 3 144 8192
  have hml : 4096 + (144 : UInt64).toNat ≤ g.len := by
    rw [hlen]
    decide
  exact ⟨g, f, _, hrun, hf, (damaged_header_iff twoKeys_nodup twoRecords_indexes
    twoKeys_readsExactly twoRecords_size hrun hf).mpr (Or.inr ⟨hml, Or.inr (Or.inl (by decide))⟩)⟩

/-- With a data offset of zero a snapshot opens, reads its header as records and loses a key. -/
theorem damaged_offset_silent :
    ∃ (g f : File) (log : List (BuildStep × File)) (s s' : KvStore (List Key)),
      (SnapshotBuilder.ofRecords twoRecords).build listIndex twoDigest (.faultless 0) ⟨none, []⟩ =
        (.ok (), ⟨some g, log⟩) ∧ f.bytes = splice g.bytes 16 (layoutBytes 2 144 0) ∧
      KvStore.open listIndex g = .ok s ∧ KvStore.open listIndex f = .ok s' ∧
      ∃ k, s'.get listIndex k ≠ s.get listIndex k := by
  obtain ⟨g, log, hrun, hg, hlen, hdo⟩ := build_twoRecords twoDigest
  obtain ⟨f, hf⟩ := exists_damaged hg.page_le 2 144 0
  have hm : 8 + (ListIndex.write twoKeys).length ≤ (144 : UInt64).toNat := by
    rw [ListIndex.length_write]
    decide
  obtain ⟨fn', ha⟩ := hg.accepts_damaged hf twoKeys_readsExactly rfl (by decide) hm
    (by rw [hlen]; decide) (by rw [hlen]; decide)
  obtain ⟨hc, _, _, hget⟩ := hg.of_accepts_damaged hf twoKeys_readsExactly ha
  obtain ⟨fn₀, ha₀, hget₀⟩ := hg.accepts (by decide)
  refine ⟨g, f, _, _, _, hrun, hf, open_eq_ok_iff.mpr ⟨fn₀, ha₀, rfl⟩,
    open_eq_ok_iff.mpr ⟨fn', ha, rfl⟩, ?_⟩
  by_contra hall
  simp only [not_exists, not_not] at hall
  obtain ⟨_, hbytes⟩ := (hg.get_damaged_iff hf (by decide) twoKeys_nodup hc hget hget₀).mp hall
  -- The section now starts with the magic number, not with the ones of the first key.
  have hmagic : wordAt f.bytes 0 = magicNumber :=
    (congrArg Header.magic (parse_damaged hg.page_le hf)).trans hg.magic_eq
  obtain ⟨pre, hb, hp⟩ := hg.exists_pre
  have hones : wordAt g.bytes 8192 = 0x0101010101010101 := by
    rw [ListIndex.length_write] at hp
    rw [hb, wordAt, sub_append_right _ (hp.trans (by rfl : _ = 8192)).le, hp]
    rfl
  have hword := congrArg (fun l => wordAt l 0) hbytes
  simp only [hdo] at hword
  rw [wordAt_sub (by decide), wordAt_sub (by decide)] at hword
  exact absurd (hmagic.symm.trans (hword.trans hones)) (by decide)

end LowLatencyKv
