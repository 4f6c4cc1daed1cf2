import LowLatencyKv.Builder.ReadBack
import LowLatencyKv.Store.Safety

/-! # Interrupted and failing builds

What is left at the output path when a build is killed between two of its writes,
and when a call of the operating system fails. Unfinished content is never
accepted; a failure after the truncating open has already lost the old content.
-/

namespace LowLatencyKv

open Rust Tables

variable {Fn : Type} {ph : Ph Fn} {sha256 : Sha256} {env : BuildEnv} {f g : File} {n d : ℕ}
  {s s' : Output} {e : AnyError}

theorem open_of_blank (hf : Blank f) : ∃ err, KvStore.open ph f = .err err := by
  rcases Nat.lt_or_ge f.len 4096 with hl | hl
  · refine ⟨.fileTooSmall (UInt64.ofNat f.len) (UInt64.ofNat headerSize), ?_⟩
    rw [KvStore.open, Outcome.ofExcept_ok, Outcome.mapErr_ok, Outcome.ok_bind,
      Header.fromBytes_of_lt hl, Outcome.err_bind]
    rfl
  · have hm : (Header.parse f.bytes).magic = 0 := by
      have hw : sub f.bytes 0 8 = List.replicate 8 0 := by
        have hlen : 8 ≤ f.bytes.length := le_trans (by decide) hl
        refine List.eq_replicate_iff.mpr ⟨length_sub (by decide) hlen, fun b hb => ?_⟩
        exact hf b (List.take_subset_take_left _ (by decide) hb)
      exact wordAt_of_sub hw
    have hv : (Header.parse f.bytes).validate = .err (.invalidMagic magicNumber 0) := by
      rw [Header.validate, hm]
      rfl
    exact ⟨_, open_of_invalid hl hv⟩

/-- Every content before the header copy is refused, and the content after it is accepted. -/
theorem half_built_refused {rs : List (Key × Value)} {fn : Fn} {image : List UInt8}
    (old : Option File) (t : UInt64) (hne : rs ≠ [])
    (hi : ph.Indexes (rs.map Prod.fst) fn image)
    (hsz : 4096 + (8 + image.length) + 4095 + 320 * rs.length < 2 ^ 64) :
    ∃ g log, (SnapshotBuilder.ofRecords rs).build ph sha256 (.faultless t) ⟨old, []⟩ =
        (.ok (), ⟨some g, log ++ [(.header, g)]⟩) ∧
      log.map Prod.fst = buildSteps (¬ 4096 ∣ 8 + image.length) rs.length ∧
      (∀ e ∈ log, ∃ err, KvStore.open ph e.2 = .err err) ∧
      (rs.length ≤ 10000000000 → ∃ s, KvStore.open ph g = .ok s) := by
  obtain ⟨g, log, hrun, hg, hblank, hsteps⟩ :=
    build_faultless sha256 t hne hi hsz old
  refine ⟨g, log, hrun, hsteps, fun e he => open_of_blank (hblank e he), fun hn => ?_⟩
  obtain ⟨fn', ha, _⟩ := hg.accepts hn
  exact ⟨_, open_eq_ok_iff.mpr ⟨fn', ha, rfl⟩⟩

theorem half_built_refused_two :
    ∃ g log, (SnapshotBuilder.ofRecords twoRecords).build listIndex twoDigest (.faultless 0)
        ⟨some File.empty, []⟩ = (.ok (), ⟨some g, log ++ [(.header, g)]⟩) ∧
      log.map Prod.fst =
        buildSteps (¬ 4096 ∣ 8 + (ListIndex.write twoKeys).length) twoRecords.length ∧
      (∀ e ∈ log, ∃ err, KvStore.open listIndex e.2 = .err err) ∧
      (twoRecords.length ≤ 10000000000 → ∃ s, KvStore.open listIndex g = .ok s) :=
  half_built_refused (some File.empty) 0 (by decide) twoRecords_indexes twoRecords_size

namespace SnapshotBuilder

theorem createOutput_err (h : createOutput env n s = (.err e, s')) :
    (∃ io, env.openOutput = some io ∧ s' = s ∧
        e = .context "Failed to create output file" (.io io)) ∨
      (∃ io, env.setLen = some io ∧ s'.content = some File.empty ∧
        e = .context "Failed to set file size" (.io io)) ∨
      (∃ io, env.mapMut = some io ∧ s'.content = some (File.empty.setLen (UInt64.ofNat n)) ∧
        e = .context "Failed to mmap output file" (.io io)) := by
  cases ho : env.openOutput with
  | some io =>
    simp only [createOutput, ho, Build.call] at h
    cases h
    exact Or.inl ⟨io, rfl, rfl, rfl⟩
  | none =>
    cases hs : env.setLen with
    | some io =>
      simp only [createOutput, ho, hs, Build.call] at h
      cases h
      exact Or.inr (Or.inl ⟨io, rfl, rfl, rfl⟩)
    | none =>
      cases hm : env.mapMut with
      | some io =>
        simp only [createOutput, ho, hs, hm, Build.call] at h
        cases h
        exact Or.inr (Or.inr ⟨io, rfl, rfl, rfl⟩)
      | none =>
        rw [createOutput_run ho hs hm] at h
        cases h

theorem put_noError (step : BuildStep) (f : File) : Eff.NoError (Build.put step f) :=
  fun _ _ _ => nofun

theorem writeIndex_noError (index : List UInt8) (d : ℕ) (f : File) :
    Eff.NoError (writeIndex index d f) := by
  refine .bind (.exec _) fun _ => .bind (put_noError _ _) fun _ => ?_
  split
  · exact .bind (.exec _) fun _ => put_noError _ _
  · exact .pure _

theorem writeRecord_noError (m : Mphf Fn) (d : ℕ) (f : File) (i : ℕ) (r : Key × Value) :
    Eff.NoError (writeRecord ph m d f i r) :=
  .bind (.exec _) fun _ => .bind (.exec _) fun _ => .bind (put_noError _ _) fun _ =>
    .bind (.exec _) fun _ => put_noError _ _

theorem writeRecords_noError (m : Mphf Fn) (d : ℕ) (f : File) (i : ℕ) (rs : List (Key × Value)) :
    Eff.NoError (writeRecords ph m d f i rs) := by
  induction rs generalizing f i with
  | nil => exact .pure f
  | cons r rs ih => exact .bind (writeRecord_noError m d f i r) fun f' => ih f' (i + 1)

theorem writeHeader_noError (h : Header) (d : ℕ) (f : File) :
    Eff.NoError (writeHeader sha256 h d f) :=
  .bind (.exec _) fun _ => .bind (.exec _) fun _ => put_noError _ _

variable {m : Mphf Fn} {index : List UInt8} {hd : Header} {rs : List (Key × Value)}

/-- Between the creation of the file and the flush nothing fails; a failing flush leaves what a
successful build leaves. -/
theorem writeSnapshot_err (h : writeSnapshot ph sha256 env m index hd n rs s = (.err e, s')) :
    (∃ total, createOutput env total s = (.err e, s')) ∨
      ∃ io, env.flush = some io ∧ e = .context "Failed to flush mmap" (.io io) ∧
        writeSnapshot ph sha256 { env with flush := none } m index hd n rs s = (.ok (), s') := by
  rcases Eff.bind_eq_err_iff.mp h with h | ⟨f₀, s₀, h₀, h⟩
  · exact Or.inl ⟨_, h⟩
  rcases Eff.bind_eq_err_iff.mp h with h | ⟨f₁, s₁, h₁, h⟩
  · exact absurd h (writeIndex_noError _ _ _ _ _ _)
  rcases Eff.bind_eq_err_iff.mp h with h | ⟨f₂, s₂, h₂, h⟩
  · exact absurd h (writeRecords_noError _ _ _ _ _ _ _ _)
  rcases Eff.bind_eq_err_iff.mp h with h | ⟨f₃, s₃, h₃, h⟩
  · exact absurd h (writeHeader_noError _ _ _ _ _ _)
  right
  cases hf : env.flush with
  | none =>
    rw [hf] at h
    cases h
  | some io =>
    rw [hf] at h
    cases h
    refine ⟨io, rfl, rfl, ?_⟩
    have h₀' : createOutput { env with flush := none } _ s = (.ok f₀, s₀) := h₀
    rw [writeSnapshot, Eff.bind_of_ok h₀', Eff.bind_of_ok h₁, Eff.bind_of_ok h₂, Eff.bind_of_ok h₃]
    rfl

theorem context_err {α : Type} {x : Outcome Error α} {text : String}
    (h : (liftM (Build.context x text) : Build α) s = (.err e, s')) :
    s' = s ∧ ∃ cause, e = .context text cause := by
  rcases x with _ | err | _
  · cases h
  · cases h
    exact ⟨rfl, .store err, rfl⟩
  · cases h

/-- What a failed build leaves: the old content if the failure comes before the truncating open or
in it, and after that an empty file, a file of zeros or the complete snapshot. -/
theorem build_err {b : SnapshotBuilder} (h : b.build ph sha256 env s = (.err e, s')) :
    (s'.content = s.content ∧ ∃ cause, e = .context "Failed to build MPHF index" cause ∨
        e = .context "Failed to serialize MPHF" cause ∨
        e = .context "Failed to create output file" cause) ∨
      (s'.content = some File.empty ∧ ∃ io, env.setLen = some io ∧
        e = .context "Failed to set file size" (.io io)) ∨
      ((∃ n, s'.content = some (File.empty.setLen n)) ∧ ∃ io, env.mapMut = some io ∧
        e = .context "Failed to mmap output file" (.io io)) ∨
      (b.build ph sha256 { env with flush := none } s = (.ok (), s') ∧ ∃ io, env.flush = some io ∧
        e = .context "Failed to flush mmap" (.io io)) := by
  rcases Eff.bind_eq_err_iff.mp h with h | ⟨m, s₀, h₀, h⟩
  · obtain ⟨rfl, cause, he⟩ := context_err h
    exact Or.inl ⟨rfl, cause, Or.inl he⟩
  rcases Eff.bind_eq_err_iff.mp h with h | ⟨index, s₁, h₁, h⟩
  · obtain ⟨rfl, cause, he⟩ := context_err h
    exact Or.inl ⟨congrArg (fun r => r.2.content) h₀.symm, cause, Or.inr (Or.inl he)⟩
  rcases Eff.bind_eq_err_iff.mp h with h | ⟨t, s₂, h₂, h⟩
  · exact absurd h (Eff.NoError.exec _ _ _ _)
  have hs₀ : s₀ = s := congrArg Prod.snd h₀.symm
  have hs₁ : s₁ = s₀ := congrArg Prod.snd h₁.symm
  have hs₂ : s₂ = s₁ := congrArg Prod.snd h₂.symm
  rcases writeSnapshot_err h with ⟨total, h⟩ | ⟨io, hf, he, h⟩
  · rcases createOutput_err h with ⟨io, _, hc, he⟩ | ⟨io, hf, hc, he⟩ | ⟨io, hf, hc, he⟩
    · rw [hs₂, hs₁, hs₀] at hc
      exact Or.inl ⟨by rw [hc], .io io, Or.inr (Or.inr he)⟩
    · exact Or.inr (Or.inl ⟨hc, io, hf, he⟩)
    · exact Or.inr (Or.inr (Or.inl ⟨⟨_, hc⟩, io, hf, he⟩))
  · refine Or.inr (Or.inr (Or.inr ⟨?_, io, hf, he⟩))
    rw [build, Eff.bind_of_ok h₀, Eff.bind_of_ok h₁, Eff.bind_of_ok h₂]
    exact h

/-- An environment in which the disk is full when the file gets its size. -/
def fullDisk : BuildEnv := ⟨some 0, none, some "No space left on device", none, none⟩

theorem build_of_fullDisk :
    (ofRecords twoRecords).build listIndex twoDigest fullDisk ⟨some pageFile, []⟩ =
      (.err (.context "Failed to set file size" (.io "No space left on device")),
        ⟨some File.empty, [(.truncate, File.empty)]⟩) := by
  rw [build_of_builds (by decide) twoRecords_indexes.builds]
  rfl

theorem empty_ne_pageFile : some File.empty ≠ some pageFile := by
  intro h
  have hl := congrArg File.len (Option.some.inj h)
  rw [len_pageFile] at hl
  cases hl

theorem build_err_of_fullDisk : ∃ e s',
    (ofRecords twoRecords).build listIndex twoDigest fullDisk ⟨some pageFile, []⟩ = (.err e, s') ∧
      s'.content = some File.empty ∧ ∃ io, fullDisk.setLen = some io ∧
        e = .context "Failed to set file size" (.io io) := by
  refine ⟨_, _, build_of_fullDisk, ?_⟩
  rcases build_err build_of_fullDisk with ⟨h, _⟩ | h | ⟨_, io, h, _⟩ | ⟨_, io, h, _⟩
  · exact absurd h empty_ne_pageFile
  · exact h
  · cases h
  · cases h

/-- A disk that runs full loses the old content. -/
theorem content_lost_of_fullDisk : ∃ e s',
    (ofRecords twoRecords).build listIndex twoDigest fullDisk ⟨some pageFile, []⟩ = (.err e, s') ∧
      s'.content ≠ some pageFile :=
  ⟨_, _, build_of_fullDisk, empty_ne_pageFile⟩

end SnapshotBuilder

end LowLatencyKv
