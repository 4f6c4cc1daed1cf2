import LowLatencyKv.Builder.Failure
import LowLatencyKv.Server.Versions

/-! # Starting the server

The server opens the snapshot, touches its pages and resolves its addresses. On
whatever a build leaves behind, be it killed, failed or complete, it refuses to
start or serves the version that was built.
-/

namespace LowLatencyKv

open Rust Concurrency

variable {Fn Addr : Type}

structure Cli where
  port : UInt16
  metricsPort : UInt16
  bind : String
  preload : Bool

/-- What the server runs with. -/
structure Started (Fn Addr : Type) where
  service : KvServiceImpl Fn
  grpcAddr : Addr
  metricsAddr : Addr

/-- The server up to the point where it listens. -/
def start (ph : Ph Fn) (parse : String → Except String Addr) (cli : Cli)
    (snapshot : Except IoError File) : Outcome AnyError (Started Fn Addr) := do
  let store ← Build.context (KvStore.open ph snapshot) "Failed to open snapshot"
  if cli.preload then
    let _ ← store.preload.mapErr AnyError.store
  let service := KvServiceImpl.new store Metrics.new
  let grpcAddr ← (Outcome.ofExcept (parse s!"{cli.bind}:{cli.port}")).mapErr fun e =>
    AnyError.context "Invalid gRPC address" (.message e)
  let metricsAddr ← (Outcome.ofExcept (parse s!"{cli.bind}:{cli.metricsPort}")).mapErr fun e =>
    AnyError.context "Invalid metrics address" (.message e)
  pure { service, grpcAddr, metricsAddr }

variable {ph : Ph Fn} {parse : String → Except String Addr} {cli : Cli}
  {snapshot : Except IoError File} {store : KvStore Fn}

theorem start_of_open (ho : KvStore.open ph snapshot = .ok store) :
    start ph parse cli snapshot =
      ((Outcome.ofExcept (parse s!"{cli.bind}:{cli.port}")).mapErr fun e =>
        AnyError.context "Invalid gRPC address" (.message e)) >>= fun grpcAddr =>
      ((Outcome.ofExcept (parse s!"{cli.bind}:{cli.metricsPort}")).mapErr fun e =>
        AnyError.context "Invalid metrics address" (.message e)) >>= fun metricsAddr =>
      pure ⟨.new store .new, grpcAddr, metricsAddr⟩ := by
  unfold start
  rw [ho]
  cases cli.preload <;> simp [Build.context, KvStore.preload_eq]

theorem start_of_err {e : Error} (ho : KvStore.open ph snapshot = .err e) :
    start ph parse cli snapshot = .err (.context "Failed to open snapshot" (.store e)) := by
  unfold start
  rw [ho]
  rfl

theorem start_ne_panic (ho : KvStore.open ph snapshot ≠ .panic) :
    start ph parse cli snapshot ≠ .panic := by
  cases h : KvStore.open ph snapshot with
  | panic => exact absurd h ho
  | err e =>
    rw [start_of_err h]
    exact nofun
  | ok store =>
    rw [start_of_open h]
    cases parse s!"{cli.bind}:{cli.port}" with
    | error e => exact nofun
    | ok grpcAddr =>
      cases parse s!"{cli.bind}:{cli.metricsPort}" with
      | error e => exact nofun
      | ok metricsAddr => exact nofun

theorem service_of_start {started : Started Fn Addr}
    (h : start ph parse cli snapshot = .ok started) :
    ∃ store, KvStore.open ph snapshot = .ok store ∧ started.service = .new store .new := by
  cases ho : KvStore.open ph snapshot with
  | panic =>
    unfold start at h
    rw [ho] at h
    cases h
  | err e =>
    rw [start_of_err ho] at h
    cases h
  | ok store =>
    rw [start_of_open ho] at h
    obtain ⟨_, _, h⟩ := Outcome.bind_eq_ok_iff.mp h
    obtain ⟨_, _, h⟩ := Outcome.bind_eq_ok_iff.mp h
    cases h
    exact ⟨store, rfl, rfl⟩

variable {sha256 : Sha256} {env : BuildEnv} {rs : List (Key × Value)} {fn : Fn}
  {image : List UInt8} {s s' : Output} {o : Outcome AnyError Unit}

/-- The output grew by these contents, the last of which it has now. -/
structure Output.Grows (s s' : Output) (log : List (BuildStep × File)) : Prop where
  log_eq : s'.log = s.log ++ log
  content_eq : s'.content = (log.map Prod.snd).getLast?.or s.content

theorem Output.Grows.refl (s : Output) : s.Grows s [] := ⟨(List.append_nil _).symm, rfl⟩

theorem grows_of_createOutput {r : Outcome AnyError File} {n : ℕ}
    (h : SnapshotBuilder.createOutput env n s = (r, s')) :
    ∃ log, s.Grows s' log ∧ ∀ e ∈ log, Blank e.2 := by
  have hempty : Blank File.empty := by
    intro b hb
    rw [File.bytes_empty, List.take_nil] at hb
    cases hb
  have hzeros : Blank (File.empty.setLen (UInt64.ofNat n)) := by
    intro b hb
    rw [File.bytes_setLen_empty] at hb
    exact List.eq_of_mem_replicate (List.mem_of_mem_take hb)
  cases ho : env.openOutput with
  | some io =>
    simp only [SnapshotBuilder.createOutput, ho, Build.call] at h
    cases h
    exact ⟨[], .refl _, by simp⟩
  | none =>
    cases hs : env.setLen with
    | some io =>
      simp only [SnapshotBuilder.createOutput, ho, hs, Build.call] at h
      cases h
      exact ⟨[(.truncate, File.empty)], ⟨rfl, rfl⟩, by simpa using hempty⟩
    | none =>
      cases hm : env.mapMut with
      | some io =>
        simp only [SnapshotBuilder.createOutput, ho, hs, hm, Build.call] at h
        cases h
        exact ⟨[(.truncate, File.empty), (.setLen, _)], ⟨List.append_assoc .., rfl⟩, by
          simpa using ⟨hempty, hzeros⟩⟩
      | none =>
        rw [SnapshotBuilder.createOutput_run ho hs hm] at h
        cases h
        exact ⟨[(.truncate, File.empty), (.setLen, _)], ⟨rfl, rfl⟩, by
          simpa using ⟨hempty, hzeros⟩⟩

/-- Whatever fails, each content of a build is blank or the snapshot it ends with. -/
theorem grows_of_build (hi : ph.Indexes (rs.map Prod.fst) fn image)
    (hsz : 4096 + (8 + image.length) + 4095 + 320 * rs.length < 2 ^ 64)
    (h : (SnapshotBuilder.ofRecords rs).build ph sha256 env s = (o, s')) :
    ∃ log, s.Grows s' log ∧ ∀ e ∈ log, Blank e.2 ∨ ∃ t, env.now = some t ∧
      s'.content = some e.2 ∧ IsSnapshot ph sha256 t rs fn image e.2 := by
  rcases eq_or_ne rs [] with rfl | hne
  · obtain rfl : s = s' := congrArg Prod.snd h
    exact ⟨[], .refl s, nofun⟩
  cases ht : env.now with
  | none =>
    rw [SnapshotBuilder.build_of_builds hne hi.builds, ht] at h
    obtain rfl : s = s' := congrArg Prod.snd h
    exact ⟨[], .refl s, nofun⟩
  | some t =>
    have hb := h
    rw [SnapshotBuilder.build_of_builds hne hi.builds, ht, expect_some,
      Eff.liftM_exec_bind rfl] at hb
    unfold SnapshotBuilder.writeSnapshot at hb
    rw [Eff.bind_apply] at hb
    split at hb
    · next f s₁ hc =>
      obtain ⟨ho, hs, hm⟩ := SnapshotBuilder.createOutput_ok hc
      obtain ⟨g, log, hrun, hg, hblank, _⟩ :=
        build_bytes sha256 env hne hi.builds hsz ht ho hs hm s
      rw [hrun] at h
      cases h
      refine ⟨log ++ [(.header, g)], ⟨List.append_assoc .., by simp⟩, fun e he => ?_⟩
      rcases List.mem_append.mp he with he | he
      · exact Or.inl (hblank e he)
      · rw [List.mem_singleton.mp he]
        exact Or.inr ⟨t, rfl, rfl, hi, hsz, hg⟩
    · next e s₁ hc =>
      cases hb
      obtain ⟨log, hlog, hblank⟩ := grows_of_createOutput hc
      exact ⟨log, hlog, fun e he => Or.inl (hblank e he)⟩
    · next s₁ hc =>
      cases hb
      obtain ⟨log, hlog, hblank⟩ := grows_of_createOutput hc
      exact ⟨log, hlog, fun e he => Or.inl (hblank e he)⟩

/-- What a build leaves when it is killed, fails or ends is the old content, a file that the server
refuses, or a file from which it serves the records of the build. -/
theorem start_after_build (parse : String → Except String Addr) (cli : Cli)
    (hd : (rs.map Prod.fst).Nodup) (hi : ph.Indexes (rs.map Prod.fst) fn image)
    (hsz : 4096 + (8 + image.length) + 4095 + 320 * rs.length < 2 ^ 64) (old : Option File)
    (h : (SnapshotBuilder.ofRecords rs).build ph sha256 env ⟨old, []⟩ = (o, s')) :
    s'.content = (s'.log.map Prod.snd).getLast?.or old ∧
      (∀ f ∈ s'.log.map Prod.snd, start ph parse cli (.ok f) ≠ .panic ∧
        ∀ started, start ph parse cli (.ok f) = .ok started → ∃ t, env.now = some t ∧
          s'.content = some f ∧ started.service.store.Serves ph ⟨t, rs, hd⟩ ∧
          started.service.metrics = .new) ∧
      (o = .ok () → rs.length ≤ 10000000000 → (∃ a, parse s!"{cli.bind}:{cli.port}" = .ok a) →
        (∃ a, parse s!"{cli.bind}:{cli.metricsPort}" = .ok a) → ∃ f started,
          s'.content = some f ∧ start ph parse cli (.ok f) = .ok started) := by
  obtain ⟨log, ⟨hlog, hcontent⟩, hall⟩ := grows_of_build hi hsz h
  rw [List.nil_append] at hlog
  subst hlog
  refine ⟨hcontent, fun f hf => ?_, fun hok hn ⟨a, ha⟩ ⟨b, hb⟩ => ?_⟩
  · obtain ⟨e, he, rfl⟩ := List.mem_map.mp hf
    rcases hall e he with hblank | ⟨t, ht, hc, hg⟩
    · obtain ⟨err, ho⟩ : ∃ err, KvStore.open ph e.2 = .err err := open_of_blank hblank
      rw [start_of_err ho]
      exact ⟨nofun, nofun⟩
    · refine ⟨start_ne_panic fun hp => ?_, fun started hs => ?_⟩
      · obtain ⟨_, _, hlt⟩ := open_eq_panic_iff.mp hp
        rw [hg.len_eq, hg.mphfSize_toNat] at hlt
        omega
      · obtain ⟨store, ho, hservice⟩ := service_of_start hs
        refine ⟨t, ht, hc, ?_, ?_⟩
        · rw [hservice]
          exact ⟨sha256, fn, image, e.2, hg, ho⟩
        · rw [hservice]
          rfl
  · subst hok
    obtain ⟨t, g, _, hc, hg⟩ := bytes_of_build_ok hi.builds hsz h
    obtain ⟨store, ho, _⟩ := (IsSnapshot.mk hi hsz hg).represents hn hd
    refine ⟨g, ⟨.new store .new, a, b⟩, hc, ?_⟩
    rw [start_of_open ho, ha, hb]
    rfl

/-- The build of two records on an old file, and a server on what it leaves. -/
theorem start_after_build_two : ∃ g log started,
    (SnapshotBuilder.ofRecords twoRecords).build listIndex twoDigest (.faultless 0)
        ⟨some File.empty, []⟩ = (.ok (), ⟨some g, log⟩) ∧
      start listIndex (fun addr => .ok addr) ⟨9090, 9091, "0.0.0.0", true⟩ (.ok g) =
        .ok started ∧ started.service.store.Serves listIndex (stampedVersion 0) := by
  obtain ⟨g, log, hrun, _⟩ :=
    build_faultless twoDigest 0 (by decide) twoRecords_indexes twoRecords_size (some File.empty)
  obtain ⟨hc, hall, hok⟩ := start_after_build (fun addr => .ok addr)
    ⟨9090, 9091, "0.0.0.0", true⟩ twoKeys_nodup twoRecords_indexes twoRecords_size _ hrun
  obtain ⟨f, started, hf, hs⟩ := hok rfl (by decide) ⟨_, rfl⟩ ⟨_, rfl⟩
  obtain rfl := Option.some.inj hf
  obtain ⟨_, hserves⟩ := hall g (by simp)
  obtain ⟨t, ht, _, h, _⟩ := hserves started hs
  cases ht
  exact ⟨g, _, started, hrun, hs, h⟩

end LowLatencyKv
