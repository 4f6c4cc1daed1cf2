import LowLatencyKv.Builder.AnyIndex

/-! # Checking a snapshot

The `check` command of the validator looks up sampled keys of the snapshot and
reports whether all of them were found. It does not look at the values, so of two
records under one key it misses that one of them is never returned.
-/

namespace LowLatencyKv

open Rust Tables

namespace Validator

structure ValidationResult where
  snapshot : String
  recordCount : ℕ
  sampleSize : ℕ
  lookupsPassed : ℕ
  lookupsFailed : ℕ
  elapsedMs : ℕ
  status : String
  deriving DecidableEq, Repr

/-- What the check prints: a line of text, or a result as JSON. -/
inductive ReportLine where
  | text (line : String)
  | json (result : ValidationResult)
  deriving DecidableEq, Repr

abbrev Report := List ReportLine

def textReport (result : ValidationResult) : Report :=
  ["", "Validation Result", "=================", "Snapshot: " ++ result.snapshot,
    "Record count: " ++ toString result.recordCount,
    "Sample size: " ++ toString result.sampleSize,
    "Lookups passed: " ++ toString result.lookupsPassed,
    "Lookups failed: " ++ toString result.lookupsFailed,
    "Elapsed: " ++ toString result.elapsedMs ++ "ms",
    "Status: " ++ result.status].map .text

def reportOf (json : Bool) (result : ValidationResult) : Report :=
  if json then [.json result] else textReport result

def printReport (lines : Report) : Eff Report AnyError Unit := fun out => (.ok (), out ++ lines)

section

variable {Fn : Type} (ph : Ph Fn)

/-- Adds the lookup of a key to the passed and the failed ones. -/
def checkKey (store : KvStore Fn) (t : ℕ × ℕ) (key : Key) : Exec (ℕ × ℕ) := do
  let value ← store.get ph key
  if value.isSome then pure (wrappingAdd t.1 1, t.2) else pure (t.1, wrappingAdd t.2 1)

def checkKeys (store : KvStore Fn) (sample : List Key) : Exec (ℕ × ℕ) :=
  sample.foldlM (checkKey ph store) (0, 0)

/-- Checks the keys that `chooseMultiple` takes from those of the snapshot. -/
def checkSnapshot (chooseMultiple : List Key → ℕ → List Key) (elapsedMs : ℕ) (path : String)
    (snapshot : Except IoError File) (sampleSize : ℕ) (json : Bool) :
    Eff Report AnyError Unit := do
  let store ← Build.context (KvStore.open ph snapshot) "Failed to open snapshot"
  let records ← store.iter
  let keys := records.map Prod.fst
  let sample := chooseMultiple keys (min sampleSize keys.length)
  let (passed, failed) ← checkKeys ph store sample
  let result : ValidationResult :=
    { snapshot := path
      recordCount := store.len
      sampleSize := sample.length
      lookupsPassed := passed
      lookupsFailed := failed
      elapsedMs
      status := if failed = 0 then "PASS" else "FAIL" }
  printReport (reportOf json result)
  if failed > 0 then
    liftM (Outcome.err (AnyError.message (toString failed ++ " lookups failed")) :
      Outcome AnyError Unit)
  else pure ()

end

theorem printReport_bind {α : Type} (lines : Report) (f : Unit → Eff Report AnyError α)
    (out : Report) : (printReport lines >>= f) out = f () (out ++ lines) := rfl

theorem bail_state {c : Prop} [Decidable c] (e : AnyError) (out : Report) :
    ((if c then liftM (Outcome.err e : Outcome AnyError Unit) else pure () :
      Eff Report AnyError Unit) out).2 = out := by
  split <;> rfl

/-- The report shows a result with this status. -/
def ReportsStatus (json : Bool) (status : String) (out : Report) : Prop :=
  ∃ result, out = reportOf json result ∧ result.status = status

variable {Fn : Type} {ph : Ph Fn} {st : KvStore Fn} {sample : List Key} {json : Bool}

theorem status_of_reportOf {r r' : ValidationResult} (h : reportOf json r = reportOf json r') :
    r.status = r'.status := by
  cases json
  case true =>
    cases h
    rfl
  case false =>
    have hl := congrArg List.getLast? h
    simpa [reportOf, textReport] using hl

theorem foldlM_checkKey (ph : Ph Fn) (hb : st.InBounds) (sample : List Key) {p f : ℕ}
    (hp : p < 2 ^ 64) (hf : f < 2 ^ 64) :
    sample.foldlM (checkKey ph st) (p, f) = .ok
      ((p + sample.countP fun k => ((st.table ph).get k).isSome) % 2 ^ 64,
        (f + sample.countP fun k => ((st.table ph).get k).isNone) % 2 ^ 64) := by
  induction sample generalizing p f with
  | nil =>
    rw [List.countP_nil, List.countP_nil, Nat.add_zero, Nat.add_zero, Nat.mod_eq_of_lt hp,
      Nat.mod_eq_of_lt hf]
    rfl
  | cons k sample ih =>
    have hlt (n : ℕ) : wrappingAdd n 1 < 2 ^ 64 := Nat.mod_lt _ (Nat.two_pow_pos 64)
    have hmod (n c : ℕ) : (wrappingAdd n 1 + c) % 2 ^ 64 = (n + (c + 1)) % 2 ^ 64 := by
      unfold wrappingAdd
      rw [Nat.mod_add_mod, Nat.add_assoc, Nat.add_comm 1]
    rw [List.foldlM_cons, checkKey, KvStore.get_eq hb, Outcome.ok_bind]
    cases hg : (st.table ph).get k with
    | some v =>
      rw [List.countP_cons_of_pos (by simp [hg]), List.countP_cons_of_neg (by simp [hg])]
      simp only [Option.isSome_some, if_true, Outcome.pure_eq_ok, Outcome.ok_bind]
      rw [ih (hlt p) hf, hmod]
    | none =>
      rw [List.countP_cons_of_neg (by simp [hg]), List.countP_cons_of_pos (by simp [hg])]
      simp only [Option.isSome_none, Bool.false_eq_true, if_false, Outcome.pure_eq_ok,
        Outcome.ok_bind]
      rw [ih hp (hlt f), hmod]

variable {f : File} {l : List (Key × Value)} {chooseMultiple : List Key → ℕ → List Key}
  {sampleSize : ℕ}

theorem checkSnapshot_report (elapsedMs : ℕ) (path : String) (json : Bool)
    (ho : KvStore.open ph f = .ok st) (hb : st.InBounds)
    (hsample : chooseMultiple (st.cells.map Prod.fst) (min sampleSize st.cells.length) = sample) :
    ∃ result, (checkSnapshot ph chooseMultiple elapsedMs path f sampleSize json []).2 =
        reportOf json result ∧
      result.status = if (sample.countP fun k => ((st.table ph).get k).isNone) % 2 ^ 64 = 0 then
        "PASS" else "FAIL" := by
  have hkeys := foldlM_checkKey ph hb sample (Nat.two_pow_pos 64) (Nat.two_pow_pos 64)
  rw [Nat.zero_add, Nat.zero_add] at hkeys
  unfold checkSnapshot
  rw [ho]
  simp only [Build.context, Outcome.mapErr_ok, Eff.liftM_ok_bind, Eff.liftM_exec_bind
    (KvStore.iter_eq hb), List.length_map, hsample, checkKeys, Eff.liftM_exec_bind hkeys]
  rw [printReport_bind, List.nil_append]
  exact ⟨_, bail_state .., rfl⟩

/-- Sampling every key, the check reports `PASS` exactly if each of them is found. -/
theorem reportsStatus_pass_iff (elapsedMs : ℕ) (path : String) (json : Bool)
    (hs : ∀ keys, (chooseMultiple keys keys.length).Perm keys)
    (ho : KvStore.open ph f = .ok st) (hb : st.InBounds) (hn : st.len ≤ sampleSize) :
    ReportsStatus json "PASS"
        (checkSnapshot ph chooseMultiple elapsedMs path f sampleSize json []).2 ↔
      ∀ c ∈ st.cells, (st.table ph).get c.1 ≠ none := by
  have hl : st.cells.length = st.len := length_pairs
  have hlt : st.len < 2 ^ 64 := by
    obtain ⟨fn, _, rfl⟩ := open_eq_ok_iff.mp ho
    exact UInt64.toNat_lt _
  have hmin : min sampleSize st.cells.length = (st.cells.map Prod.fst).length := by
    rw [hl, Nat.min_eq_right hn, List.length_map, hl]
  have hperm := hs (st.cells.map Prod.fst)
  obtain ⟨result, hrun, hstatus⟩ :=
    checkSnapshot_report elapsedMs path json ho hb (congrArg _ hmin)
  have hcount : ((chooseMultiple (st.cells.map Prod.fst) (st.cells.map Prod.fst).length).countP
      fun k => ((st.table ph).get k).isNone) < 2 ^ 64 := by
    refine lt_of_le_of_lt List.countP_le_length ?_
    rw [hperm.length_eq, List.length_map, hl]
    exact hlt
  have hpass : result.status = "PASS" ↔ ∀ c ∈ st.cells, (st.table ph).get c.1 ≠ none := by
    have hzero : (chooseMultiple (st.cells.map Prod.fst) (st.cells.map Prod.fst).length).countP
        (fun k => ((st.table ph).get k).isNone) = 0 ↔
          ∀ c ∈ st.cells, (st.table ph).get c.1 ≠ none := by
      rw [hperm.countP_eq, List.countP_eq_zero]
      simp only [List.forall_mem_map, Option.isNone_iff_eq_none, ne_eq]
    rw [hstatus, Nat.mod_eq_of_lt hcount, ite_eq_left_iff, ← hzero]
    exact ⟨fun h => by_contra fun hc => absurd (h hc) (by decide), fun h hc => absurd h hc⟩
  rw [hrun]
  constructor
  · rintro ⟨r, hr, hst⟩
    rw [← hpass, status_of_reportOf hr, hst]
  · exact fun h => ⟨result, rfl, hpass.mpr h⟩

/-- The index sends the key of some record to no slot, or to one that holds another key. -/
def Misdirects (ph : Ph Fn) (store : KvStore Fn) (l : List (Key × Value)) : Prop :=
  ∃ r ∈ l, ∀ i v, store.mphf.get ph r.1 = some i → l[i]? ≠ some (r.1, v)

theorem misdirects_iff :
    Misdirects ph st st.cells ↔ ∃ c ∈ st.cells, (st.table ph).get c.1 = none := by
  refine exists_congr fun c => and_congr_right fun _ => ?_
  rw [Option.eq_none_iff_forall_ne_some]
  constructor
  · intro h v hv
    obtain ⟨i, hi, hc⟩ := SlotTable.get_eq_some_iff.mp hv
    exact h i v hi hc
  · intro h i v hi hc
    exact h v (SlotTable.get_eq_some_iff.mpr ⟨i, hi, hc⟩)

/-- A full check that reports `PASS` certifies the lookups of the snapshot exactly if it cannot
report it, or if no key is stored with two values. -/
theorem check_certifies_iff (elapsedMs : ℕ) (path : String) (json : Bool)
    (hs : ∀ keys, (chooseMultiple keys keys.length).Perm keys) (ho : KvStore.open ph f = .ok st)
    (hb : st.InBounds) (hn : st.len ≤ sampleSize) (hi : st.iter = .ok l) :
    (ReportsStatus json "PASS"
        (checkSnapshot ph chooseMultiple elapsedMs path f sampleSize json []).2 →
      ∀ k v, (k, v) ∈ l → st.get ph k = .ok (some v)) ↔
    Misdirects ph st l ∨ ∀ k v v', (k, v) ∈ l → (k, v') ∈ l → v = v' := by
  rw [KvStore.iter_eq hb] at hi
  obtain rfl := Outcome.ok.inj hi
  have hpass := reportsStatus_pass_iff elapsedMs path json hs ho hb hn
  have hget (k : Key) (v : Value) :
      st.get ph k = .ok (some v) ↔ (st.table ph).get k = some v := by
    rw [KvStore.get_eq hb, Outcome.ok.injEq]
  simp only [hpass, hget, misdirects_iff]
  by_cases hall : ∀ c ∈ st.cells, (st.table ph).get c.1 ≠ none
  · have hnone : ¬ ∃ c ∈ st.cells, (st.table ph).get c.1 = none :=
      fun ⟨c, hc, hg⟩ => hall c hc hg
    have hcells := SlotTable.get_cells_iff (t := st.table ph) hall
    rw [or_iff_right hnone]
    exact ⟨fun h => hcells.mp (h hall), fun h _ => hcells.mpr h⟩
  · refine iff_of_true (fun h => absurd h hall) (Or.inl ?_)
    simpa only [ne_eq, not_forall, not_not, exists_prop] using hall

/-- Sampling that takes the first keys. -/
def takeMultiple (keys : List Key) (amount : ℕ) : List Key := keys.take amount

theorem takeMultiple_perm (keys : List Key) : (takeMultiple keys keys.length).Perm keys := by
  unfold takeMultiple
  rw [List.take_length]

variable {keys : List Key} {cells : List (Key × Value)}

theorem reportsStatus_indexedFile (h : keys.length + cells.length ≤ 10000000000)
    (hget : ∀ c ∈ cells, (indexedStore keys cells h).get listIndex c.1 ≠ .ok none) :
    ReportsStatus true "PASS" (checkSnapshot listIndex takeMultiple 0 "snapshot.bin"
      (indexedFile keys cells h) cells.length true []).2 := by
  rw [reportsStatus_pass_iff 0 "snapshot.bin" true takeMultiple_perm (open_indexedFile h)
    (inBounds_indexedStore h) (len_indexedStore h).le]
  intro c hc hnone
  have hcells := KvStore.iter_eq (inBounds_indexedStore h)
  rw [iter_indexedStore, Outcome.ok.injEq] at hcells
  refine hget c (hcells ▸ hc) ?_
  rw [KvStore.get_eq (inBounds_indexedStore h), hnone]

/-- The check passes two records behind an index of their keys, and each lookup returns its
record. -/
theorem check_certifies_iff_two :
    ReportsStatus true "PASS" (checkSnapshot listIndex takeMultiple 0 "snapshot.bin"
        (indexedFile twoKeys twoRecords (by decide)) twoRecords.length true []).2 ∧
      ∀ k v, (k, v) ∈ twoRecords →
        (indexedStore twoKeys twoRecords (by decide)).get listIndex k = .ok (some v) := by
  have h : twoKeys.length + twoRecords.length ≤ 10000000000 := by decide
  have hpass : ReportsStatus true "PASS" (checkSnapshot listIndex takeMultiple 0 "snapshot.bin"
      (indexedFile twoKeys twoRecords h) twoRecords.length true []).2 := by
    refine reportsStatus_indexedFile h fun c hc => ?_
    have hget : (indexedStore twoKeys twoRecords h).get listIndex c.1 = .ok (some c.2) :=
      get_indexedStore_map_fst twoKeys_nodup h hc
    rw [hget]
    simp
  refine ⟨hpass, (check_certifies_iff 0 "snapshot.bin" true takeMultiple_perm (open_indexedFile h)
    (inBounds_indexedStore h) (len_indexedStore h).le (iter_indexedStore h)).mpr ?_ hpass⟩
  right
  intro k v v' hv hv'
  have hk := List.inj_on_of_nodup_map twoKeys_nodup hv hv' rfl
  exact congrArg Prod.snd hk

def oneValue : Value := Arr.replicate valueSize 1

/-- Two records under one key. -/
def twoValues : List (Key × Value) := [blankPair, (blankPair.1, oneValue)]

/-- The check passes a snapshot in which the second of two records is never returned. -/
theorem check_passes_twoValues :
    ∃ f st, KvStore.open listIndex f = .ok st ∧ st.InBounds ∧ st.len = 2 ∧
      st.iter = .ok twoValues ∧
      ReportsStatus true "PASS"
        (checkSnapshot listIndex takeMultiple 0 "snapshot.bin" f 2 true []).2 ∧
      (blankPair.1, oneValue) ∈ twoValues ∧
      st.get listIndex blankPair.1 ≠ .ok (some oneValue) := by
  have h : [blankPair.1].length + twoValues.length ≤ 10000000000 := by decide
  have hget : (indexedStore [blankPair.1] twoValues h).get listIndex blankPair.1 =
      .ok (some blankPair.2) :=
    get_indexedStore_of_mem h (List.mem_singleton.mpr rfl) (by simp [twoValues])
  refine ⟨_, _, open_indexedFile h, inBounds_indexedStore h, len_indexedStore h,
    iter_indexedStore h, ?_, by simp [twoValues], ?_⟩
  · refine reportsStatus_indexedFile h fun c hc => ?_
    have hk : c.1 = blankPair.1 := by
      simp only [twoValues, List.mem_cons, List.not_mem_nil, or_false] at hc
      rcases hc with rfl | rfl <;> rfl
    rw [hk, hget]
    simp
  · rw [hget]
    intro he
    have hv := congrArg Arr.toList (Option.some.inj (Outcome.ok.inj he))
    exact absurd (congrArg List.head? hv) (by decide)

end Validator

end LowLatencyKv
