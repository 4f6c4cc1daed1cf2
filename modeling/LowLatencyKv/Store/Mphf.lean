import LowLatencyKv.Store.Record
import LowLatencyKv.Tables.SlotTable

/-! # The hash index

`Ph` is what the index calls of the `ph` crate: building a function from a slice
of keys, evaluating it, writing and reading it. Evaluating, writing and reading are
taken not to panic, whatever bytes a function was read from. `Mphf` adds the key
count, which bounds every slot it returns. `Ph.Indexes` states what the crate
promises for one slice of keys.
-/

namespace LowLatencyKv

open Rust Tables

/-- The operations of `ph::fmph::GOFunction`. Building may panic, the other three do not. -/
structure Ph (Fn : Type) where
  fromSliceWithConf : List Key → Exec Fn
  get : Fn → Key → Option UInt64
  write : Fn → Except String (List UInt8)
  read : List UInt8 → Except String Fn

structure Mphf (Fn : Type) where
  function : Fn
  keyCount : ℕ

variable {Fn : Type} (ph : Ph Fn)

namespace Mphf

def build (keys : List Key) : Outcome Error (Mphf Fn) :=
  let keyCount := keys.length
  if keyCount = 0 then .err (.invalidMphf "Cannot build MPHF with zero keys")
  else do
    let function ← ph.fromSliceWithConf keys
    pure { function, keyCount }

/-- Looks up the slot of a key; slots out of bounds are dropped. -/
def get (m : Mphf Fn) (key : Key) : Option ℕ :=
  match ph.get m.function key with
  | some slot => if slot.toNat < m.keyCount then some slot.toNat else none
  | none => none

def serialize (m : Mphf Fn) : Outcome Error (List UInt8) := do
  let function ← (Outcome.ofExcept (ph.write m.function)).mapErr .serialization
  pure (toLeBytes (UInt64.ofNat m.keyCount) ++ function)

def deserialize (bytes : List UInt8) : Outcome Error (Mphf Fn) :=
  if bytes.length < 8 then .err (.invalidMphf "MPHF data too short")
  else do
    let keyCount ← readU64 bytes 0 8
    let rest ← slice bytes 8 bytes.length
    let function ← (Outcome.ofExcept (ph.read rest)).mapErr .serialization
    pure { function, keyCount := keyCount.toNat }

variable {ph} {m : Mphf Fn}

theorem get_of_slot {key : Key} {slot : UInt64} (h : ph.get m.function key = some slot)
    (hlt : slot.toNat < m.keyCount) : m.get ph key = some slot.toNat := by
  rw [get, h]
  exact if_pos hlt

theorem get_congr {m' : Mphf Fn} (hg : ∀ key, ph.get m.function key = ph.get m'.function key)
    (hc : m.keyCount = m'.keyCount) : m.get ph = m'.get ph := by
  funext key
  rw [get, get, hg key, hc]

theorem deserialize_of_lt {bytes : List UInt8} (h : bytes.length < 8) :
    deserialize ph bytes = .err (.invalidMphf "MPHF data too short") :=
  if_pos h

theorem deserialize_of_le {bytes : List UInt8} (h : 8 ≤ bytes.length) :
    deserialize ph bytes =
      match ph.read (bytes.drop 8) with
      | .ok function => .ok ⟨function, (wordAt bytes 0).toNat⟩
      | .error e => .err (.serialization e) := by
  rw [deserialize, if_neg (by omega), readU64_eq 0 (by omega), slice_of_le h (Nat.le_refl _),
    ← drop_eq_sub]
  simp only [Outcome.liftM_ok, Outcome.ok_bind]
  cases ph.read (bytes.drop 8) <;> rfl

theorem deserialize_ne_panic (bytes : List UInt8) : deserialize ph bytes ≠ .panic := by
  by_cases h : bytes.length < 8
  · simp [deserialize_of_lt h]
  · rw [deserialize_of_le (by omega)]
    cases ph.read (bytes.drop 8) <;> simp

theorem deserialize_eq_ok_iff {bytes : List UInt8} :
    deserialize ph bytes = .ok m ↔
      8 ≤ bytes.length ∧ ph.read (bytes.drop 8) = .ok m.function ∧
        m.keyCount = (wordAt bytes 0).toNat := by
  by_cases h : bytes.length < 8
  · rw [deserialize_of_lt h]
    exact ⟨fun he => (nomatch he), fun he => absurd he.1 (by omega)⟩
  rw [deserialize_of_le (by omega)]
  obtain ⟨function, keyCount⟩ := m
  cases ph.read (bytes.drop 8) with
  | error e => simp
  | ok g =>
    simp only [Outcome.ok.injEq, mk.injEq, Except.ok.injEq]
    constructor
    · rintro ⟨rfl, rfl⟩; exact ⟨by omega, rfl, rfl⟩
    · rintro ⟨_, rfl, rfl⟩; exact ⟨rfl, rfl⟩

end Mphf

variable {ph}

/-- On the slice `keys` the crate builds `f`, which sends the keys one-to-one below their
number, and `image` is what it writes and reads back. -/
structure Ph.Indexes (ph : Ph Fn) (keys : List Key) (f : Fn) (image : List UInt8) : Prop where
  build : ph.fromSliceWithConf keys = .ok f
  write : ph.write f = .ok image
  read : ∃ g, ph.read image = .ok g ∧ ∀ k, ph.get g k = ph.get f k
  slot_lt : ∀ k ∈ keys, ∃ slot, ph.get f k = some slot ∧ slot.toNat < keys.length
  slot_inj : ∀ k ∈ keys, ∀ k' ∈ keys, ph.get f k = ph.get f k' → k = k'

/-- On the slice `keys` the crate builds `f`, which sends the keys one-to-one below their
number, and `image` is what it writes, whether or not it can be read back. -/
structure Ph.Builds (ph : Ph Fn) (keys : List Key) (f : Fn) (image : List UInt8) : Prop where
  build : ph.fromSliceWithConf keys = .ok f
  write : ph.write f = .ok image
  slot_lt : ∀ k ∈ keys, ∃ slot, ph.get f k = some slot ∧ slot.toNat < keys.length
  slot_inj : ∀ k ∈ keys, ∀ k' ∈ keys, ph.get f k = ph.get f k' → k = k'

variable {keys : List Key} {f : Fn} {image : List UInt8}

namespace Ph.Builds

theorem mphf_build (h : ph.Builds keys f image) (hne : keys ≠ []) :
    Mphf.build ph keys = .ok ⟨f, keys.length⟩ := by
  have hl : keys.length ≠ 0 := by simpa using hne
  rw [Mphf.build, if_neg hl, h.build]
  rfl

theorem mphf_serialize (h : ph.Builds keys f image) :
    (Mphf.mk f keys.length).serialize ph =
      .ok (toLeBytes (UInt64.ofNat keys.length) ++ image) := by
  rw [Mphf.serialize, h.write]
  rfl

theorem placement (h : ph.Builds keys f image) :
    Placement ((Mphf.mk f keys.length).get ph) keys keys.length := by
  constructor
  · intro k hk
    obtain ⟨slot, hs, hlt⟩ := h.slot_lt k hk
    exact ⟨slot.toNat, hlt, Mphf.get_of_slot hs hlt⟩
  · intro k hk k' hk' he
    obtain ⟨slot, hs, hlt⟩ := h.slot_lt k hk
    obtain ⟨slot', hs', hlt'⟩ := h.slot_lt k' hk'
    rw [Mphf.get_of_slot hs hlt, Mphf.get_of_slot hs' hlt'] at he
    apply h.slot_inj k hk k' hk'
    rw [hs, hs', UInt64.toNat_inj.mp (Option.some.inj he)]

variable {V : Type} {rs : List (Key × V)} (h : ph.Builds (rs.map Prod.fst) f image)

include h

theorem mphf_build_records (hne : rs ≠ []) :
    Mphf.build ph (rs.map Prod.fst) = .ok ⟨f, rs.length⟩ := by
  have hb := h.mphf_build (by simpa using hne)
  rwa [List.length_map] at hb

theorem mphf_serialize_records : (Mphf.mk f rs.length).serialize ph =
    .ok (toLeBytes (UInt64.ofNat rs.length) ++ image) := by
  have hs := h.mphf_serialize
  rwa [List.length_map] at hs

theorem placement_records :
    Placement ((Mphf.mk f rs.length).get ph) (rs.map Prod.fst) rs.length := by
  have hp := h.placement
  rwa [List.length_map] at hp

theorem exists_slot : ∀ r ∈ rs, ∃ i < rs.length, (Mphf.mk f rs.length).get ph r.1 = some i :=
  fun r hr => h.placement_records.slot_lt r.1 (List.mem_map_of_mem hr)

end Ph.Builds

namespace Ph.Indexes

theorem builds (h : ph.Indexes keys f image) : ph.Builds keys f image :=
  ⟨h.build, h.write, h.slot_lt, h.slot_inj⟩

end Ph.Indexes

end LowLatencyKv
