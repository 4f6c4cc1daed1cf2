import LowLatencyKv.Rust.File
import LowLatencyKv.Rust.LittleEndian

/-! # Records and errors

Keys and values have fixed lengths, and a record is a key followed by a value.
-/

namespace LowLatencyKv

open Rust

abbrev keySize : ℕ := 64

abbrev valueSize : ℕ := 256

abbrev recordSize : ℕ := keySize + valueSize

abbrev Key := Arr UInt8 keySize

abbrev Value := Arr UInt8 valueSize

/-- A fixed-size record, laid out as the key followed by the value. -/
@[ext] structure Record where
  key : Key
  value : Value
  deriving DecidableEq, Repr

namespace Record

def asBytes (r : Record) : List UInt8 := r.key.toList ++ r.value.toList

/-- Reinterprets exactly `recordSize` bytes as a record; panics on any other length. -/
def fromBytes (bytes : List UInt8) : Exec Record :=
  if bytes.length = recordSize then do
    let key ← toArray keySize (sub bytes 0 keySize)
    let value ← toArray valueSize (sub bytes keySize recordSize)
    pure ⟨key, value⟩
  else .panic

def keyEquals (r : Record) (other : Key) : Bool := r.key = other

@[simp] theorem length_asBytes (r : Record) : r.asBytes.length = recordSize := by
  simp [asBytes]

theorem sub_asBytes_key (r : Record) : sub r.asBytes 0 keySize = r.key.toList := by
  exact sub_middle [] r.key.toList r.value.toList rfl (by simp)

theorem sub_asBytes_value (r : Record) : sub r.asBytes keySize recordSize = r.value.toList := by
  simpa [asBytes] using
    sub_middle r.key.toList r.value.toList [] r.key.length_toList (by rw [r.value.length_toList])

@[simp] theorem fromBytes_asBytes (r : Record) : fromBytes r.asBytes = .ok r := by
  rw [fromBytes, if_pos r.length_asBytes, sub_asBytes_key, sub_asBytes_value, toArray_toList,
    toArray_toList]
  rfl

end Record

inductive Error where
  | io (e : IoError)
  | invalidMagic (expected actual : UInt64)
  | unsupportedVersion (version : UInt64)
  | checksumMismatch (expected actual : String)
  | fileTooSmall (size minimum : UInt64)
  | invalidMphf (message : String)
  | tooManyRecords (count max : UInt64)
  | invalidKeySize (size : ℕ)
  | serialization (message : String)
  deriving DecidableEq, Repr

end LowLatencyKv
