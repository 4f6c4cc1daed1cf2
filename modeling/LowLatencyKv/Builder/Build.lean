import LowLatencyKv.Store.Header
import LowLatencyKv.Store.Mphf

/-! # The snapshot builder

`SnapshotBuilder.build` as a program over the content of the output path. Each
change of that content is one entry of a log, in program order, and each call of
the operating system fails as the environment says.
-/

namespace LowLatencyKv

open Rust

/-- An error of `anyhow`: the cause, with the contexts added to it. -/
inductive AnyError where
  | store (e : Error)
  | io (e : IoError)
  | message (text : String)
  | context (text : String) (cause : AnyError)
  deriving DecidableEq, Repr

inductive BuildStep where
  | truncate
  | setLen
  | index
  | padding
  | key (i : ℕ)
  | value (i : ℕ)
  | header
  deriving DecidableEq, Repr

/-- What the operating system answers during a build. -/
structure BuildEnv where
  /-- Seconds since the epoch, unless the clock is set before it. -/
  now : Option UInt64
  openOutput : Option IoError
  setLen : Option IoError
  mapMut : Option IoError
  flush : Option IoError

def BuildEnv.faultless (timestamp : UInt64) : BuildEnv := ⟨some timestamp, none, none, none, none⟩

/-- The output path, with the contents it had after each step of the build. -/
structure Output where
  content : Option File
  log : List (BuildStep × File)
  deriving DecidableEq, Repr

abbrev Build (α : Type) := Eff Output AnyError α

/-- Make `f` the content of the output path. -/
def Build.put (step : BuildStep) (f : File) : Build File := fun s =>
  (.ok f, ⟨some f, s.log ++ [(step, f)]⟩)

/-- `context` on an error of the store. -/
def Build.context {α : Type} (x : Outcome Error α) (text : String) : Outcome AnyError α :=
  x.mapErr fun e => .context text (.store e)

/-- `context` on an option. -/
def Build.contextNone {α : Type} (x : Option α) (text : String) : Outcome AnyError α :=
  match x with
  | some a => .ok a
  | none => .err (.message text)

/-- `context` on a call of the operating system. -/
def Build.call (fault : Option IoError) (text : String) : Outcome AnyError Unit :=
  match fault with
  | none => .ok ()
  | some e => .err (.context text (.io e))

structure SnapshotBuilder where
  keys : List Key
  values : List Value
  deriving DecidableEq, Repr

variable {Fn : Type} (ph : Ph Fn) (sha256 : Sha256) (env : BuildEnv)

namespace SnapshotBuilder

def new : SnapshotBuilder := ⟨[], []⟩

def addRecord (b : SnapshotBuilder) (key : Key) (value : Value) : SnapshotBuilder :=
  ⟨b.keys ++ [key], b.values ++ [value]⟩

def len (b : SnapshotBuilder) : ℕ := b.keys.length

/-- The builder after `addRecord` of each record. -/
def ofRecords (rs : List (Key × Value)) : SnapshotBuilder :=
  rs.foldl (fun b r => b.addRecord r.1 r.2) new

def createOutput (totalSize : ℕ) : Build File := do
  Build.call env.openOutput "Failed to create output file"
  let file ← Build.put .truncate File.empty
  Build.call env.setLen "Failed to set file size"
  let file ← Build.put .setLen (file.setLen (UInt64.ofNat totalSize))
  Build.call env.mapMut "Failed to mmap output file"
  pure file

def writeIndex (mphfBytes : List UInt8) (dataOffset : ℕ) (mmap : File) : Build File := do
  let indexEnd := wrappingAdd headerSize mphfBytes.length
  let mmap ← mmap.copyFromSlice headerSize indexEnd mphfBytes
  let mmap ← Build.put .index mmap
  if indexEnd < dataOffset then
    let mmap ← mmap.fillSlice indexEnd dataOffset 0
    Build.put .padding mmap
  else pure mmap

/-- Writes the `i`-th added record at the slot of its key. -/
def writeRecord (mphf : Mphf Fn) (dataOffset : ℕ) (mmap : File) (i : ℕ) (r : Key × Value) :
    Build File := do
  let slot ← expect (mphf.get ph r.1)
  let offset := wrappingAdd dataOffset (wrappingMul slot recordSize)
  let mmap ← mmap.copyFromSlice offset (wrappingAdd offset keySize) r.1.toList
  let mmap ← Build.put (.key i) mmap
  let mmap ← mmap.copyFromSlice (wrappingAdd offset keySize) (wrappingAdd offset recordSize)
    r.2.toList
  Build.put (.value i) mmap

def writeRecords (mphf : Mphf Fn) (dataOffset : ℕ) (mmap : File) (i : ℕ) :
    List (Key × Value) → Build File
  | [] => pure mmap
  | r :: rs => do
    let mmap ← writeRecord ph mphf dataOffset mmap i r
    writeRecords mphf dataOffset mmap (i + 1) rs

def writeHeader (header : Header) (dataOffset : ℕ) (mmap : File) : Build File := do
  let data ← slice mmap.bytes dataOffset mmap.len
  let finalHeader := { header with checksum := sha256 data }
  let mmap ← mmap.copyFromSlice 0 headerSize finalHeader.toBytes
  Build.put .header mmap

/-- Lays out the file, creates it and writes index, records and header. -/
def writeSnapshot (mphf : Mphf Fn) (mphfBytes : List UInt8) (header : Header) (recordCount : ℕ)
    (rs : List (Key × Value)) : Build Unit := do
  let dataOffset := header.dataOffset.toNat
  let dataSize := wrappingMul recordCount recordSize
  let totalSize := wrappingAdd dataOffset dataSize
  let mmap ← createOutput env totalSize
  let mmap ← writeIndex mphfBytes dataOffset mmap
  let mmap ← writeRecords ph mphf dataOffset mmap 0 rs
  let _ ← writeHeader sha256 header dataOffset mmap
  Build.call env.flush "Failed to flush mmap"

def build (b : SnapshotBuilder) : Build Unit := do
  let recordCount := b.keys.length
  let mphf ← Build.context (Mphf.build ph b.keys) "Failed to build MPHF index"
  let mphfBytes ← Build.context (mphf.serialize ph) "Failed to serialize MPHF"
  let timestamp ← expect env.now
  let header := Header.new (UInt64.ofNat recordCount) (UInt64.ofNat mphfBytes.length) timestamp
  writeSnapshot ph sha256 env mphf mphfBytes header recordCount (b.keys.zip b.values)

theorem foldl_addRecord (b : SnapshotBuilder) (rs : List (Key × Value)) :
    rs.foldl (fun b r => b.addRecord r.1 r.2) b =
      ⟨b.keys ++ rs.map Prod.fst, b.values ++ rs.map Prod.snd⟩ := by
  induction rs generalizing b with
  | nil => simp
  | cons r rs ih => rw [List.foldl_cons, ih]; simp [addRecord]

theorem ofRecords_eq (rs : List (Key × Value)) :
    ofRecords rs = ⟨rs.map Prod.fst, rs.map Prod.snd⟩ := by
  simp [ofRecords, foldl_addRecord, new]

theorem zip_map_fst_snd (rs : List (Key × Value)) :
    (rs.map Prod.fst).zip (rs.map Prod.snd) = rs :=
  (List.zip_of_prod rfl rfl).symm

end SnapshotBuilder

end LowLatencyKv
