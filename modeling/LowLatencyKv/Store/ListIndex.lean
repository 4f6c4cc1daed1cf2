import LowLatencyKv.Store.Mphf

/-! # An index that keeps its keys

An instance of the operations of the crate: the function is the list of keys, the
slot of a key is its position, and the written form is the number of keys followed
by their bytes. Like the crate it panics on repeated keys.
-/

namespace LowLatencyKv

open Rust

namespace ListIndex

def get (keys : List Key) (key : Key) : Option UInt64 :=
  if key ∈ keys then some (UInt64.ofNat (keys.idxOf key)) else none

def write (keys : List Key) : List UInt8 :=
  toLeBytes (UInt64.ofNat keys.length) ++ (keys.map Arr.toList).flatten

/-- Read `n` keys; the rest of the bytes is left over. -/
def readKeys : ℕ → List UInt8 → Except String (List Key)
  | 0, _ => .ok []
  | n + 1, bytes =>
    if h : bytes.length < keySize then .error "failed to fill whole buffer"
    else do
      let keys ← readKeys n (bytes.drop keySize)
      pure (⟨bytes.take keySize, by rw [List.length_take]; omega⟩ :: keys)

def read (bytes : List UInt8) : Except String (List Key) :=
  if bytes.length < 8 then .error "failed to fill whole buffer"
  else readKeys (wordAt bytes 0).toNat (bytes.drop 8)

theorem length_write (keys : List Key) : (write keys).length = 8 + 64 * keys.length := by
  have hw : ∀ c ∈ keys.map Arr.toList, c.length = 64 := by
    rintro c hc
    obtain ⟨k, _, rfl⟩ := List.mem_map.mp hc
    exact k.length_toList
  rw [write, List.length_append, length_toLeBytes, length_flatten_blocks hw, List.length_map]

theorem readKeys_append (keys : List Key) (l : List UInt8) :
    readKeys keys.length ((keys.map Arr.toList).flatten ++ l) = .ok keys := by
  induction keys with
  | nil => rfl
  | cons k keys ih =>
    have hd : ((k :: keys).map Arr.toList).flatten ++ l =
        k.toList ++ ((keys.map Arr.toList).flatten ++ l) := by simp
    have ht : List.drop keySize (k.toList ++ ((keys.map Arr.toList).flatten ++ l)) =
        (keys.map Arr.toList).flatten ++ l := List.drop_left' k.length_toList
    have hk : List.take keySize (k.toList ++ ((keys.map Arr.toList).flatten ++ l)) = k.toList :=
      List.take_left' k.length_toList
    rw [hd, List.length_cons, readKeys, dif_neg (by simp)]
    simp only [ht, ih, hk]
    rfl

theorem readKeys_of_lt {n : ℕ} {bytes : List UInt8} (h : bytes.length < 64 * n) :
    ∃ e, readKeys n bytes = .error e := by
  induction n generalizing bytes with
  | zero => simp at h
  | succ n ih =>
    rw [readKeys]
    split
    · exact ⟨_, rfl⟩
    · next hb =>
      have hd : (bytes.drop keySize).length < 64 * n := by
        rw [List.length_drop]
        simp only [keySize] at hb ⊢
        omega
      obtain ⟨e, he⟩ := ih hd
      exact ⟨e, by rw [he]; rfl⟩

theorem read_write_append {keys : List Key} (h : keys.length < 2 ^ 64) (l : List UInt8) :
    read (write keys ++ l) = .ok keys := by
  have hn : (UInt64.ofNat keys.length).toNat = keys.length := UInt64.toNat_ofNat_of_lt' h
  rw [read, if_neg (by simp [write]), write, List.append_assoc, wordAt_cons_zero, hn,
    List.drop_left' (length_toLeBytes _)]
  exact readKeys_append keys l

theorem read_write {keys : List Key} (h : keys.length < 2 ^ 64) :
    read (write keys) = .ok keys := by
  rw [← List.append_nil (write keys), read_write_append h]

theorem read_of_prefix {keys : List Key} (h : keys.length < 2 ^ 64) {l : List UInt8}
    (hp : l <+: write keys) (hne : l ≠ write keys) : ∃ e, read l = .error e := by
  have hlt : l.length < 8 + 64 * keys.length := by
    rw [← length_write]
    exact lt_of_le_of_ne hp.length_le fun he => hne (hp.eq_of_length he)
  rw [read]
  split
  · exact ⟨_, rfl⟩
  · next h8 =>
    have hw : (wordAt l 0).toNat = keys.length := by
      obtain ⟨t, ht⟩ := hp
      rw [← wordAt_append_left t (by omega), ht, write, wordAt_cons_zero,
        UInt64.toNat_ofNat_of_lt' h]
    rw [hw]
    exact readKeys_of_lt (by rw [List.length_drop]; omega)

theorem get_of_mem {keys : List Key} {k : Key} (hk : k ∈ keys) :
    get keys k = some (UInt64.ofNat (keys.idxOf k)) :=
  if_pos hk

end ListIndex

def listIndex : Ph (List Key) where
  fromSliceWithConf keys := if keys.Nodup then .ok keys else .panic
  get := ListIndex.get
  write keys := .ok (ListIndex.write keys)
  read := ListIndex.read

theorem listIndex_read : listIndex.read = ListIndex.read := rfl

theorem listIndex_get : listIndex.get = ListIndex.get := rfl

theorem listIndex_panic {keys : List Key} (h : ¬ keys.Nodup) :
    listIndex.fromSliceWithConf keys = .panic := if_neg h

theorem listIndex_indexes {keys : List Key} (hd : keys.Nodup) (h : keys.length < 2 ^ 64) :
    listIndex.Indexes keys keys (ListIndex.write keys) := by
  have hslot (k : Key) (hk : k ∈ keys) :
      (UInt64.ofNat (keys.idxOf k)).toNat = keys.idxOf k := by
    have := List.idxOf_lt_length_of_mem hk
    exact UInt64.toNat_ofNat_of_lt' (by omega : _ < 2 ^ 64)
  refine ⟨if_pos hd, rfl, ⟨keys, ?_, fun _ => rfl⟩, ?_, ?_⟩
  · rw [listIndex_read, ListIndex.read_write h]
  · intro k hk
    rw [listIndex_get, ListIndex.get_of_mem hk]
    refine ⟨_, rfl, ?_⟩
    rw [hslot k hk]
    exact List.idxOf_lt_length_of_mem hk
  · intro k hk k' hk' he
    have hs : UInt64.ofNat (keys.idxOf k) = UInt64.ofNat (keys.idxOf k') := by
      rw [listIndex_get, ListIndex.get_of_mem hk, ListIndex.get_of_mem hk'] at he
      exact Option.some.inj he
    have hi : keys.idxOf k = keys.idxOf k' := by rw [← hslot k hk, ← hslot k' hk', hs]
    exact (List.idxOf_inj hk).mp hi

end LowLatencyKv
