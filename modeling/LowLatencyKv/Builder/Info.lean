import LowLatencyKv.Builder.RoundTrip

/-! # Printing the metadata of a snapshot

The `info` command of the builder. What it prints about a built snapshot is the
number of records, the size of the file and the time of the build. A build time that
does not fit the clock of the system makes it panic.
-/

namespace LowLatencyKv

open Rust

section

variable {Fn : Type} (ph : Ph Fn)

/-- The time as `SystemTime` is printed; seconds that its clock cannot hold panic. -/
def chronoFormat (timestamp : UInt64) : Exec String :=
  if timestamp.toNat < 2 ^ 63 then
    .ok ("SystemTime \x7b tv_sec: " ++ toString timestamp ++ ", tv_nsec: 0 \x7d")
  else .panic

/-- Prints the metadata; `gigabytes` formats a number of bytes in units of `2 ^ 30`. -/
def printInfo (gigabytes : UInt64 → String) (path : String) (snapshot : Except IoError File) :
    Eff Console AnyError Unit := do
  let store ← Build.context (KvStore.open ph snapshot) "Failed to open snapshot"
  let info := store.versionInfo
  println "Snapshot Information"
  println "===================="
  println ("File: " ++ path)
  println ("Record count: " ++ toString info.recordCount)
  println ("File size: " ++ toString info.fileSize ++ " bytes (" ++ gigabytes info.fileSize ++
    " GB)")
  let time ← chronoFormat info.buildTimestamp
  println ("Build timestamp: " ++ toString info.buildTimestamp ++ " (" ++ time ++ ")")
  let dataSize := info.recordCount * UInt64.ofNat recordSize
  println ("Data size: " ++ toString dataSize ++ " bytes (" ++ gigabytes dataSize ++ " GB)")

end

variable {Fn : Type} {ph : Ph Fn} {gigabytes : UInt64 → String} {path : String} {f : File}
  {st : KvStore Fn} {out : Console}

def infoStart (gigabytes : UInt64 → String) (path : String) (info : VersionInfo) : Console :=
  ["Snapshot Information", "====================", "File: " ++ path,
    "Record count: " ++ toString info.recordCount,
    "File size: " ++ toString info.fileSize ++ " bytes (" ++ gigabytes info.fileSize ++ " GB)"]

def infoEnd (gigabytes : UInt64 → String) (timestamp dataSize : UInt64) : Console :=
  ["Build timestamp: " ++ toString timestamp ++ " (" ++
      ("SystemTime \x7b tv_sec: " ++ toString timestamp ++ ", tv_nsec: 0 \x7d") ++ ")",
    "Data size: " ++ toString dataSize ++ " bytes (" ++ gigabytes dataSize ++ " GB)"]

theorem printInfo_of_lt (ho : KvStore.open ph f = .ok st)
    (ht : st.versionInfo.buildTimestamp.toNat < 2 ^ 63) :
    printInfo ph gigabytes path f out = (.ok (), out ++ infoStart gigabytes path st.versionInfo ++
      infoEnd gigabytes st.versionInfo.buildTimestamp
        (st.versionInfo.recordCount * UInt64.ofNat recordSize)) := by
  have hc : chronoFormat st.versionInfo.buildTimestamp =
      .ok ("SystemTime \x7b tv_sec: " ++ toString st.versionInfo.buildTimestamp ++
        ", tv_nsec: 0 \x7d") := if_pos ht
  unfold printInfo
  rw [ho]
  simp only [Build.context, Outcome.mapErr_ok, Eff.liftM_ok_bind, println_bind,
    Eff.liftM_exec_bind hc, println_apply, List.append_assoc]
  rfl

theorem printInfo_of_ge (ho : KvStore.open ph f = .ok st)
    (ht : 2 ^ 63 ≤ st.versionInfo.buildTimestamp.toNat) :
    printInfo ph gigabytes path f out =
      (.panic, out ++ infoStart gigabytes path st.versionInfo) := by
  have hc : chronoFormat st.versionInfo.buildTimestamp = .panic := if_neg (Nat.not_lt.mpr ht)
  unfold printInfo
  rw [ho]
  simp only [Build.context, Outcome.mapErr_ok, Eff.liftM_ok_bind, println_bind, hc,
    List.append_assoc]
  rfl

theorem dataSize_eq (ho : KvStore.open ph f = .ok st) :
    st.versionInfo.recordCount * UInt64.ofNat recordSize = UInt64.ofNat (320 * st.len) := by
  obtain ⟨fn, ha, rfl⟩ := open_eq_ok_iff.mp ho
  have hv := (Header.validate_eq_ok_iff.mp ha.valid).2.2
  rw [UInt64.le_iff_toNat_le, show maxRecords.toNat = 10000000000 from rfl] at hv
  have hlen : (KvStore.ofFile f fn).len = (Header.parse f.bytes).recordCount.toNat := rfl
  have hsize : (UInt64.ofNat (320 * (KvStore.ofFile f fn).len)).toNat =
      320 * (KvStore.ofFile f fn).len := UInt64.toNat_ofNat_of_lt' (by omega : _ < 2 ^ 64)
  apply UInt64.toNat_inj.mp
  rw [UInt64.toNat_mul, hsize, hlen]
  change (Header.parse f.bytes).recordCount.toNat * 320 % 2 ^ 64 = _
  omega

section Build

variable {sha256 : Sha256} {env : BuildEnv} {rs : List (Key × Value)} {fn : Fn}
  {image : List UInt8} {s : Output} {g : File} {log : List (BuildStep × File)}

/-- About a built snapshot the command prints the number of records, the size of the file, the time
of the build and the size of the records; it panics at a time of `2 ^ 63` seconds or more. -/
theorem info_of_build (gigabytes : UInt64 → String) (path : String) (out : Console)
    (hi : ph.Indexes (rs.map Prod.fst) fn image)
    (hsz : 4096 + (8 + image.length) + 4095 + 320 * rs.length < 2 ^ 64)
    (hn : rs.length ≤ 10000000000)
    (h : (SnapshotBuilder.ofRecords rs).build ph sha256 env s = (.ok (), ⟨some g, log⟩)) :
    ∃ t, env.now = some t ∧ printInfo ph gigabytes path g out =
      if t.toNat < 2 ^ 63 then
        (.ok (), out ++ infoStart gigabytes path ⟨t, UInt64.ofNat rs.length, UInt64.ofNat g.len⟩ ++
          infoEnd gigabytes t (UInt64.ofNat (320 * rs.length)))
      else
        (.panic,
          out ++ infoStart gigabytes path ⟨t, UInt64.ofNat rs.length, UInt64.ofNat g.len⟩) := by
  obtain ⟨t, ht, hg⟩ := exists_isSnapshot_of_build hi hsz h rfl
  obtain ⟨fn', ha, _⟩ := hg.accepts hn
  have ho := open_eq_ok_iff.mpr ⟨fn', ha, rfl⟩
  have hv : (KvStore.ofFile g fn').versionInfo =
      ⟨t, UInt64.ofNat rs.length, UInt64.ofNat g.len⟩ := by
    unfold KvStore.ofFile
    rw [hg.parse_eq, snapshotHeader, length_snapshotCells]
    rfl
  have hlen : (KvStore.ofFile g fn').len = rs.length := hg.recordCount_toNat
  have hsize := dataSize_eq ho
  rw [hlen] at hsize
  refine ⟨t, ht, ?_⟩
  split
  · next hlt =>
    rw [printInfo_of_lt ho (by rwa [hv]), hsize, hv]
  · next hge =>
    rw [printInfo_of_ge ho (by rw [hv]; exact Nat.not_lt.mp hge), hv]

end Build

theorem info_of_build_two : ∃ g log,
    (SnapshotBuilder.ofRecords twoRecords).build listIndex twoDigest (.faultless 0) ⟨none, []⟩ =
        (.ok (), ⟨some g, log⟩) ∧
      printInfo listIndex (fun _ => "0.00") "snapshot.bin" g [] =
        (.ok (), [] ++ infoStart (fun _ => "0.00") "snapshot.bin" ⟨0, 2, 8832⟩ ++
          infoEnd (fun _ => "0.00") 0 640) := by
  obtain ⟨g, log, hrun, _, hlen, _⟩ := build_twoRecords twoDigest
  obtain ⟨t, ht, hinfo⟩ := info_of_build (fun _ => "0.00") "snapshot.bin" [] twoRecords_indexes
    twoRecords_size (by decide) hrun
  cases ht
  rw [hlen] at hinfo
  exact ⟨g, log, hrun, hinfo⟩

end LowLatencyKv
