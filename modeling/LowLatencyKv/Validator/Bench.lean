import LowLatencyKv.Builder.AnyIndex
import LowLatencyKv.Store.Safety

/-! # Benchmarking lookups

The `bench` command of the validator touches the pages of a snapshot, collects its
keys and looks them up in turn. How it ends does not depend on how many lookups are
made: what could go wrong in a lookup goes wrong when the keys are collected.
-/

namespace LowLatencyKv

open Rust

namespace Validator

/-- The measured times, as they are printed. -/
structure Timing where
  totalTime : String
  opsPerSec : String
  nsPerOp : String
  usPerOp : String

section

variable {Fn : Type} (ph : Ph Fn)

/-- Looks up one key after the other, starting over at the end. -/
def lookupLoop (store : KvStore Fn) (keys : List Key) (iterations : ℕ) : Exec Unit :=
  (List.range iterations).foldlM (fun _ i => do
    let key ← expect keys[i % keys.length]?
    let _ ← store.get ph key
    pure ()) ()

def benchmarkLookups (timing : ℕ → Timing) (snapshot : Except IoError File)
    (iterations warmup : ℕ) : Eff Console AnyError Unit := do
  let store ← Build.context (KvStore.open ph snapshot) "Failed to open snapshot"
  let _ ← store.preload.mapErr AnyError.store
  let records ← store.iter
  let keys := records.map Prod.fst
  if keys.isEmpty then
    liftM (Outcome.err (AnyError.message "Snapshot is empty") : Outcome AnyError Unit)
  else
    lookupLoop ph store keys warmup
    lookupLoop ph store keys iterations
    println ""
    println "Benchmark Results"
    println "================="
    println ("Iterations: " ++ toString iterations)
    println ("Total time: " ++ (timing iterations).totalTime ++ "s")
    println ("Ops/sec: " ++ (timing iterations).opsPerSec)
    println ("Latency: " ++ (timing iterations).nsPerOp ++ "ns/op (" ++
      (timing iterations).usPerOp ++ "μs/op)")

end

variable {Fn : Type} {ph : Ph Fn} {timing : ℕ → Timing} {f : File} {st : KvStore Fn}
  {keys : List Key} {iterations warmup : ℕ} {out : Console}

theorem mapErr_preload (st : KvStore Fn) :
    st.preload.mapErr AnyError.store = .ok st.mmap.len := by
  rw [KvStore.preload_eq, Outcome.mapErr_ok]

theorem lookupLoop_eq (hb : st.InBounds) (hk : keys ≠ []) (n : ℕ) :
    lookupLoop ph st keys n = .ok () := by
  have hstep : ∀ i ∈ List.range n, ∀ u : Unit, (do
      let key ← expect keys[i % keys.length]?
      let _ ← st.get ph key
      pure () : Exec Unit) = .ok u := by
    rintro i _ u
    have hlt : i % keys.length < keys.length := Nat.mod_lt _ (List.length_pos_of_ne_nil hk)
    rw [List.getElem?_eq_getElem hlt, expect_some, Outcome.ok_bind, KvStore.get_eq hb]
    rfl
  unfold lookupLoop
  rw [Outcome.foldlM_ok hstep]

def benchReport (timing : Timing) (iterations : ℕ) : Console :=
  ["", "Benchmark Results", "=================", "Iterations: " ++ toString iterations,
    "Total time: " ++ timing.totalTime ++ "s", "Ops/sec: " ++ timing.opsPerSec,
    "Latency: " ++ timing.nsPerOp ++ "ns/op (" ++ timing.usPerOp ++ "μs/op)"]

theorem benchmarkLookups_of_inBounds (ho : KvStore.open ph f = .ok st) (hb : st.InBounds)
    (hn : st.recordCount ≠ 0) :
    benchmarkLookups ph timing f iterations warmup out =
      (.ok (), out ++ benchReport (timing iterations) iterations) := by
  have hk : st.cells.map Prod.fst ≠ [] := by
    rw [Ne, List.map_eq_nil_iff, ← List.length_eq_zero_iff, KvStore.cells, length_pairs]
    exact hn
  have hempty : (st.cells.map Prod.fst).isEmpty = false := by
    simpa using hk
  unfold benchmarkLookups
  rw [ho]
  simp only [Build.context, Outcome.mapErr_ok, Eff.liftM_ok_bind, mapErr_preload,
    Eff.liftM_exec_bind (KvStore.iter_eq hb), hempty, Bool.false_eq_true, if_false,
    Eff.liftM_exec_bind (lookupLoop_eq hb hk _), println_bind, List.append_assoc, println_apply]
  rfl

theorem benchmarkLookups_of_empty (ho : KvStore.open ph f = .ok st) (hn : st.recordCount = 0) :
    benchmarkLookups ph timing f iterations warmup out =
      (.err (.message "Snapshot is empty"), out) := by
  have hi : st.iter = .ok [] := by
    unfold KvStore.iter
    rw [hn]
    rfl
  unfold benchmarkLookups
  rw [ho]
  simp only [Build.context, Outcome.mapErr_ok, Eff.liftM_ok_bind, mapErr_preload,
    Eff.liftM_exec_bind hi]
  rfl

theorem iter_of_not_inBounds (ho : KvStore.open ph f = .ok st) (hb : ¬ st.InBounds) :
    st.iter = .panic := by
  obtain ⟨fn, _, rfl⟩ := open_eq_ok_iff.mp ho
  rw [KvStore.inBounds_iff, not_or, Nat.not_le] at hb
  obtain ⟨i, hi, hp⟩ := KvStore.exists_getRecord_panic (UInt64.toNat_lt _)
    (Nat.pos_of_ne_zero hb.1) hb.2
  exact KvStore.iter_of_getRecord_panic hi hp

theorem benchmarkLookups_of_not_inBounds (ho : KvStore.open ph f = .ok st)
    (hb : ¬ st.InBounds) :
    benchmarkLookups ph timing f iterations warmup out = (.panic, out) := by
  unfold benchmarkLookups
  rw [ho]
  simp only [Build.context, Outcome.mapErr_ok, Eff.liftM_ok_bind, mapErr_preload,
    iter_of_not_inBounds ho hb]
  rfl

theorem benchmarkLookups_of_err {e : Error} (ho : KvStore.open ph f = .err e) :
    benchmarkLookups ph timing f iterations warmup out =
      (.err (.context "Failed to open snapshot" (.store e)), out) := by
  unfold benchmarkLookups
  rw [ho]
  rfl

theorem benchmarkLookups_of_panic (ho : KvStore.open ph f = .panic) :
    benchmarkLookups ph timing f iterations warmup out = (.panic, out) := by
  unfold benchmarkLookups
  rw [ho]
  rfl

/-- The benchmark reports exactly on the files that open to some records, all of which can be read;
otherwise it prints nothing, and panics exactly if opening does or some record cannot be read. -/
theorem benchmark_verdict (ph : Ph Fn) (timing : ℕ → Timing) (f : File) (iterations warmup : ℕ)
    (out : Console) :
    (benchmarkLookups ph timing f iterations warmup out =
        (.ok (), out ++ benchReport (timing iterations) iterations) ↔
      ∃ st, KvStore.open ph f = .ok st ∧ st.InBounds ∧ st.recordCount ≠ 0) ∧
    (benchmarkLookups ph timing f iterations warmup out = (.panic, out) ↔
      KvStore.open ph f = .panic ∨ ∃ st, KvStore.open ph f = .ok st ∧ ¬ st.InBounds) ∧
    ((∃ e, benchmarkLookups ph timing f iterations warmup out = (.err e, out)) ↔
      (∃ e, KvStore.open ph f = .err e) ∨
        ∃ st, KvStore.open ph f = .ok st ∧ st.recordCount = 0) := by
  cases ho : KvStore.open ph f with
  | err e =>
    rw [benchmarkLookups_of_err ho]
    simp
  | panic =>
    rw [benchmarkLookups_of_panic ho]
    simp
  | ok st =>
    by_cases hb : st.InBounds
    · by_cases hn : st.recordCount = 0
      · rw [benchmarkLookups_of_empty ho hn]
        simp [hn, hb]
      · rw [benchmarkLookups_of_inBounds ho hb hn]
        simp [hn, hb]
    · have hn : st.recordCount ≠ 0 := fun h0 => hb (KvStore.inBounds_iff.mpr (Or.inl h0))
      rw [benchmarkLookups_of_not_inBounds ho hb]
      simp [hn, hb]

end Validator

end LowLatencyKv
