import LowLatencyKv.Builder.ReadBack

/-! # Stores under any index

Nothing ties the index of a file to its records. Lookups compare the stored key,
so a wrong index can hide records but not confuse them.
-/

namespace LowLatencyKv

open Rust Tables

variable {Fn Fn' : Type} {ph : Ph Fn} {ph' : Ph Fn'} {s : KvStore Fn} {s' : KvStore Fn'}
  {l : List (Key × Value)}

namespace KvStore

theorem get_eq_none_or_lookup (ph : Ph Fn) (hb : s.InBounds) (hi : s.iter = .ok l)
    (hd : (l.map Prod.fst).Nodup) (k : Key) :
    s.get ph k = .ok none ∨ ∃ v, l.lookup k = some v ∧ s.get ph k = .ok (some v) := by
  rw [iter_eq hb] at hi
  obtain rfl := Outcome.ok.inj hi
  rw [get_eq hb]
  rcases (s.table ph).get_eq_none_or_lookup hd (k := k) with h | ⟨v, hv, h⟩
  · exact Or.inl (by rw [h])
  · exact Or.inr ⟨v, hv, by rw [h]⟩

theorem get_of_not_stored (hb : s.InBounds) (hi : s.iter = .ok l) {k : Key}
    (hk : k ∉ l.map Prod.fst) : s.get ph k = .ok none := by
  rw [iter_eq hb] at hi
  obtain rfl := Outcome.ok.inj hi
  rw [get_eq hb, (s.table ph).get_eq_none_of_not_mem hk]

end KvStore

/-- Two stores with the same distinct records and any indexes: each lookup misses or agrees with a
linear search, so the stores never answer a key with different values. -/
theorem any_index_misses (hb : s.InBounds) (hb' : s'.InBounds) (hi : s.iter = .ok l)
    (hi' : s'.iter = .ok l) (hd : (l.map Prod.fst).Nodup) (k : Key) :
    (s.get ph k = .ok none ∨ ∃ v, l.lookup k = some v ∧ s.get ph k = .ok (some v)) ∧
    (s'.get ph' k = .ok none ∨ ∃ v, l.lookup k = some v ∧ s'.get ph' k = .ok (some v)) ∧
    (∀ v v', s.get ph k = .ok (some v) → s'.get ph' k = .ok (some v') → v = v') ∧
    (k ∉ l.map Prod.fst → s.get ph k = .ok none ∧ s'.get ph' k = .ok none) := by
  have hs := KvStore.get_eq_none_or_lookup ph hb hi hd k
  have hs' := KvStore.get_eq_none_or_lookup ph' hb' hi' hd k
  refine ⟨hs, hs', ?_, fun hk => ?_⟩
  · rintro v v' hv hv'
    rcases hs with hs | ⟨w, hw, hs⟩
    · rw [hs] at hv
      cases hv
    rcases hs' with hs' | ⟨w', hw', hs'⟩
    · rw [hs'] at hv'
      cases hv'
    rw [hs] at hv
    rw [hs'] at hv'
    rw [hw] at hw'
    cases hv
    cases hv'
    exact Option.some.inj hw'
  · exact ⟨KvStore.get_of_not_stored hb hi hk, KvStore.get_of_not_stored hb' hi' hk⟩

def indexedHeader (keys : List Key) (cells : List (Key × Value)) : Header :=
  Header.new (UInt64.ofNat cells.length) (UInt64.ofNat (8 + (ListIndex.write keys).length)) 0

def indexedBytes (keys : List Key) (cells : List (Key × Value)) : List UInt8 :=
  snapshotBytes (indexedHeader keys cells) (indexBytes cells.length (ListIndex.write keys)) cells

variable {keys : List Key} {cells : List (Key × Value)}

theorem dataOffset_indexedHeader (h : keys.length + cells.length ≤ 10000000000) :
    (indexedHeader keys cells).dataOffset.toNat =
      (4096 + (16 + 64 * keys.length) + 4095) / 4096 * 4096 := by
  have hl := ListIndex.length_write keys
  unfold indexedHeader
  rw [dataOffset_eq _ _ (by omega), hl]
  omega

theorem length_indexedBytes (h : keys.length + cells.length ≤ 10000000000) :
    (indexedBytes keys cells).length =
      (4096 + (16 + 64 * keys.length) + 4095) / 4096 * 4096 + 320 * cells.length := by
  have hd := dataOffset_indexedHeader h
  simp only [indexedBytes, snapshotBytes, List.length_append, Header.length_toBytes, headerSize,
    List.length_replicate, length_cells, length_indexBytes, ListIndex.length_write, hd]
  omega

/-- The cells as records of a file, with an index that sends each key to its position in `keys`. -/
def indexedFile (keys : List Key) (cells : List (Key × Value))
    (h : keys.length + cells.length ≤ 10000000000) : File where
  bytes := indexedBytes keys cells
  length_lt := by
    rw [length_indexedBytes h]
    omega

def indexedStore (keys : List Key) (cells : List (Key × Value))
    (h : keys.length + cells.length ≤ 10000000000) : KvStore (List Key) :=
  KvStore.ofFile (indexedFile keys cells h) keys

variable (h : keys.length + cells.length ≤ 10000000000)

theorem hasLayout_indexedFile : HasLayout (indexedFile keys cells h) (indexedHeader keys cells)
    (indexBytes cells.length (ListIndex.write keys)) cells := by
  have hl := ListIndex.length_write keys
  constructor
  case bytes_eq => rfl
  case recordCount_toNat => exact UInt64.toNat_ofNat_of_lt' (by omega : _ < 2 ^ 64)
  case mphfSize_toNat =>
    rw [length_indexBytes]
    exact UInt64.toNat_ofNat_of_lt' (by omega : _ < 2 ^ 64)
  case index_le =>
    rw [length_indexBytes, hl, dataOffset_indexedHeader h]
    omega

theorem open_indexedFile :
    KvStore.open listIndex (indexedFile keys cells h) = .ok (indexedStore keys cells h) := by
  have hg := hasLayout_indexedFile h
  have hc : (indexedHeader keys cells).recordCount ≤ maxRecords := by
    rw [UInt64.le_iff_toNat_le, hg.recordCount_toNat]
    exact Nat.le_trans (Nat.le_add_left _ _) h
  have hr : listIndex.read (ListIndex.write keys) = .ok keys := by
    rw [listIndex_read, ListIndex.read_write (by omega)]
  have hv : (indexedHeader keys cells).validate = .ok () :=
    Header.validate_eq_ok_iff.mpr ⟨rfl, rfl, hc⟩
  exact open_eq_ok_iff.mpr ⟨keys, hg.accepts hv rfl hr, rfl⟩

theorem inBounds_indexedStore : (indexedStore keys cells h).InBounds :=
  (hasLayout_indexedFile h).inBounds keys

theorem len_indexedStore : (indexedStore keys cells h).len = cells.length := by
  have hg := hasLayout_indexedFile h
  simp only [KvStore.len, indexedStore, KvStore.ofFile, hg.parse_eq, hg.recordCount_toNat]

theorem iter_indexedStore : (indexedStore keys cells h).iter = .ok cells := by
  rw [KvStore.iter_eq (inBounds_indexedStore h)]
  exact congrArg _ ((hasLayout_indexedFile h).cells_eq keys)

theorem get_indexedStore (k : Key) : (indexedStore keys cells h).get listIndex k =
    .ok ((SlotTable.mk ((Mphf.mk keys cells.length).get listIndex) cells).get k) := by
  have hg := hasLayout_indexedFile h
  have hm : (indexedStore keys cells h).mphf = ⟨keys, cells.length⟩ := by
    simp only [indexedStore, KvStore.ofFile, hg.parse_eq, hg.recordCount_toNat]
  rw [KvStore.get_eq (inBounds_indexedStore h), KvStore.table, hm]
  exact congrArg (fun c => Outcome.ok ((SlotTable.mk _ c).get k)) (hg.cells_eq keys)

theorem get_indexedStore_of_mem {k : Key} {v : Value} (hk : k ∈ keys)
    (hc : cells[keys.idxOf k]? = some (k, v)) :
    (indexedStore keys cells h).get listIndex k = .ok (some v) := by
  have hlt := List.idxOf_lt_length_of_mem hk
  have hn : (UInt64.ofNat (keys.idxOf k)).toNat = keys.idxOf k :=
    UInt64.toNat_ofNat_of_lt' (by omega : _ < 2 ^ 64)
  have hs : (Mphf.mk keys cells.length).get listIndex k = some (keys.idxOf k) := by
    rw [Mphf.get_of_slot (ListIndex.get_of_mem hk), hn]
    rw [hn]
    exact (List.getElem?_eq_some_iff.mp hc).1
  rw [get_indexedStore, SlotTable.get_eq_some_iff.mpr ⟨_, hs, hc⟩]

theorem get_indexedStore_of_not_mem {k : Key} (hk : k ∉ keys) :
    (indexedStore keys cells h).get listIndex k = .ok none := by
  have hg : listIndex.get keys k = none := if_neg hk
  have hs : (Mphf.mk keys cells.length).get listIndex k = none := by
    rw [Mphf.get, hg]
  rw [get_indexedStore]
  simp only [SlotTable.get, hs, Option.bind_none]

theorem get_indexedStore_map_fst (hd : (cells.map Prod.fst).Nodup)
    (h : (cells.map Prod.fst).length + cells.length ≤ 10000000000) {k : Key} {v : Value}
    (hm : (k, v) ∈ cells) :
    (indexedStore (cells.map Prod.fst) cells h).get listIndex k = .ok (some v) := by
  obtain ⟨i, hi, he⟩ := List.getElem_of_mem hm
  have hl : i < (cells.map Prod.fst).length := by rwa [List.length_map]
  have hk : (cells.map Prod.fst)[i] = k := by rw [List.getElem_map, he]
  have hx : (cells.map Prod.fst).idxOf k = i := by rw [← hk, hd.idxOf_getElem]
  refine get_indexedStore_of_mem h (List.mem_map_of_mem hm) ?_
  rw [hx, List.getElem?_eq_getElem hi, he]

/-- An index of the first key alone finds the first of the two records and misses the second. -/
theorem get_indexedStore_first
    (h : [(Arr.replicate keySize 1 : Key)].length + twoRecords.length ≤ 10000000000) :
    (indexedStore [Arr.replicate keySize 1] twoRecords h).get listIndex (Arr.replicate keySize 1) =
        .ok (some (Arr.replicate valueSize 1)) ∧
      (indexedStore [Arr.replicate keySize 1] twoRecords h).get listIndex blankPair.1 =
        .ok none :=
  ⟨get_indexedStore_of_mem h List.mem_cons_self (by simp [twoRecords]),
    get_indexedStore_of_not_mem h (by decide)⟩

/-- Two records behind two indexes: one finds both, the other misses the second. -/
theorem any_index_misses_two : ∃ s s',
    KvStore.open listIndex (indexedFile twoKeys twoRecords (by decide)) = .ok s ∧
      KvStore.open listIndex (indexedFile [Arr.replicate keySize 1] twoRecords (by decide)) =
        .ok s' ∧
      (∀ k v, (k, v) ∈ twoRecords → s.get listIndex k = .ok (some v)) ∧
      s'.get listIndex (Arr.replicate keySize 1) = .ok (some (Arr.replicate valueSize 1)) ∧
      s'.get listIndex blankPair.1 = .ok none ∧
      ∀ k,
        (s.get listIndex k = .ok none ∨
          ∃ v, twoRecords.lookup k = some v ∧ s.get listIndex k = .ok (some v)) ∧
        (s'.get listIndex k = .ok none ∨
          ∃ v, twoRecords.lookup k = some v ∧ s'.get listIndex k = .ok (some v)) ∧
        (∀ v v', s.get listIndex k = .ok (some v) → s'.get listIndex k = .ok (some v') → v = v') ∧
        (k ∉ twoRecords.map Prod.fst →
          s.get listIndex k = .ok none ∧ s'.get listIndex k = .ok none) := by
  have h : twoKeys.length + twoRecords.length ≤ 10000000000 := by decide
  have h' : [(Arr.replicate keySize 1 : Key)].length + twoRecords.length ≤ 10000000000 := by decide
  obtain ⟨hfound, hmissed⟩ := get_indexedStore_first h'
  refine ⟨_, _, open_indexedFile h, open_indexedFile h', fun k v hm => ?_, hfound, hmissed,
    fun k => ?_⟩
  · exact get_indexedStore_map_fst twoKeys_nodup h hm
  · exact any_index_misses (inBounds_indexedStore h) (inBounds_indexedStore h')
      (iter_indexedStore h) (iter_indexedStore h') twoKeys_nodup k

end LowLatencyKv
