import LowLatencyKv.Builder.AnyIndex
import LowLatencyKv.Rust.Counter

/-! # Validating a snapshot

The `validate` command of the builder looks up sampled keys and fails if the
number of misses is positive. That number is kept in 32 bits, so from `2 ^ 31`
misses on the command may pass.
-/

namespace LowLatencyKv

open Rust Tables

variable {Fn : Type} (ph : Ph Fn)

/-- Counts the lookup of a key if it misses. -/
def validateKey (store : KvStore Fn) (errors : Int32) (key : Key) : Exec Int32 := do
  let value ← store.get ph key
  pure (if value.isNone then errors + 1 else errors)

def validateKeys (store : KvStore Fn) (sample : List Key) : Exec Int32 :=
  sample.foldlM (validateKey ph store) 0

/-- Validates the keys that `chooseMultiple` takes from those of the snapshot. -/
def validateSnapshot (chooseMultiple : List Key → ℕ → List Key) (snapshot : Except IoError File)
    (sampleSize : ℕ) : Outcome AnyError Unit := do
  let store ← Build.context (KvStore.open ph snapshot) "Failed to open snapshot"
  let records ← store.iter
  let keys := records.map Prod.fst
  let sample := chooseMultiple keys (min sampleSize keys.length)
  let errors ← validateKeys ph store sample
  if errors > 0 then
    .err (.message (toString errors ++ " out of " ++ toString sampleSize ++ " lookups failed"))
  else pure ()

/-- `choose_multiple` returns keys from the requested number of distinct positions. -/
def ChoosesPositions (chooseMultiple : List Key → ℕ → List Key) : Prop :=
  ∀ keys amount, amount ≤ keys.length →
    (chooseMultiple keys amount).length = amount ∧ (chooseMultiple keys amount).Subperm keys

variable {ph} {chooseMultiple : List Key → ℕ → List Key} {f : File} {st : KvStore Fn}
  {l : List (Key × Value)} {sample : List Key} {sampleSize : ℕ}

/-- The number of keys whose lookups miss. -/
def misses (ph : Ph Fn) (store : KvStore Fn) (sample : List Key) : ℕ :=
  sample.countP fun key => store.get ph key = .ok none

theorem validateKeys_eq (hb : st.InBounds) (sample : List Key) :
    validateKeys ph st sample = .ok (Int32.ofNat (misses ph st sample)) := by
  have hstep (errors : Int32) (key : Key) : validateKey ph st errors key =
      .ok (if st.get ph key = .ok none then errors + 1 else errors) := by
    unfold validateKey
    rw [KvStore.get_eq hb, Outcome.ok_bind]
    cases (st.table ph).get key <;> simp
  unfold validateKeys misses
  rw [Outcome.foldlM_ok fun key _ errors => hstep errors key, ← Int32.zero_add (Int32.ofNat _),
    ← foldl_count]
  simp only [decide_eq_true_eq]

theorem validateSnapshot_eq (ho : KvStore.open ph f = .ok st) (hb : st.InBounds)
    (hi : st.iter = .ok l) :
    validateSnapshot ph chooseMultiple f sampleSize =
      if Int32.ofNat (misses ph st
          (chooseMultiple (l.map Prod.fst) (min sampleSize l.length))) > 0 then
        .err (.message (toString (Int32.ofNat (misses ph st
          (chooseMultiple (l.map Prod.fst) (min sampleSize l.length)))) ++ " out of " ++
            toString sampleSize ++ " lookups failed"))
      else .ok () := by
  unfold validateSnapshot
  rw [ho]
  simp only [Build.context, Outcome.mapErr_ok, Outcome.ok_bind, hi, Outcome.liftM_ok,
    List.length_map, validateKeys_eq hb]
  rfl

theorem misses_pos_iff : 0 < misses ph st sample ↔ ∃ key ∈ sample, st.get ph key = .ok none := by
  simp only [misses, List.countP_pos_iff, decide_eq_true_eq]

/-- Validation fails exactly if the number of misses is positive in 32 bits. -/
theorem validateSnapshot_err_iff (ho : KvStore.open ph f = .ok st) (hb : st.InBounds)
    (hi : st.iter = .ok l)
    (hs : chooseMultiple (l.map Prod.fst) (min sampleSize l.length) = sample) :
    (∃ e, validateSnapshot ph chooseMultiple f sampleSize = .err e) ↔
      0 < misses ph st sample % 2 ^ 32 ∧ misses ph st sample % 2 ^ 32 < 2 ^ 31 := by
  rw [validateSnapshot_eq ho hb hi, hs, ← ofNat_pos_iff_mod]
  split_ifs with h
  · exact iff_of_true ⟨_, rfl⟩ h
  · exact iff_of_false (by rintro ⟨e, he⟩; cases he) h

theorem validateSnapshot_err_iff_of_lt (hc : ChoosesPositions chooseMultiple)
    (ho : KvStore.open ph f = .ok st) (hb : st.InBounds) (hi : st.iter = .ok l)
    (hlt : min sampleSize l.length < 2 ^ 31) :
    (∃ e, validateSnapshot ph chooseMultiple f sampleSize = .err e) ↔
      ∃ key ∈ chooseMultiple (l.map Prod.fst) (min sampleSize l.length),
        st.get ph key = .ok none := by
  have hlen := (hc (l.map Prod.fst) (min sampleSize l.length)
    (by rw [List.length_map]; exact Nat.min_le_right _ _)).1
  have hle : misses ph st (chooseMultiple (l.map Prod.fst) (min sampleSize l.length)) ≤
      min sampleSize l.length := List.countP_le_length.trans hlen.le
  rw [validateSnapshot_err_iff ho hb hi rfl, ← misses_pos_iff]
  omega

/-- The verdict tells whether some sampled key is missed, exactly if none is or the number of misses
is positive in 32 bits. -/
theorem validate_snapshot_iff (ho : KvStore.open ph f = .ok st) (hb : st.InBounds)
    (hi : st.iter = .ok l)
    (hs : chooseMultiple (l.map Prod.fst) (min sampleSize l.length) = sample) :
    ((∃ e, validateSnapshot ph chooseMultiple f sampleSize = .err e) ↔
        ∃ key ∈ sample, st.get ph key = .ok none) ↔
      misses ph st sample = 0 ∨
        0 < misses ph st sample % 2 ^ 32 ∧ misses ph st sample % 2 ^ 32 < 2 ^ 31 := by
  rw [validateSnapshot_err_iff ho hb hi hs, ← misses_pos_iff]
  omega

/-- Of two records the index knows the first only, and validation of both keys fails. -/
theorem validate_snapshot_iff_two :
    (∃ e, validateSnapshot listIndex (flip List.take)
        (indexedFile [Arr.replicate keySize 1] twoRecords (by decide)) 2 = .err e) ∧
      (indexedStore [Arr.replicate keySize 1] twoRecords (by decide)).get listIndex
        (Arr.replicate keySize 1) = .ok (some (Arr.replicate valueSize 1)) ∧
      (indexedStore [Arr.replicate keySize 1] twoRecords (by decide)).get listIndex blankPair.1 =
        .ok none := by
  have h : [(Arr.replicate keySize 1 : Key)].length + twoRecords.length ≤ 10000000000 := by decide
  obtain ⟨hfound, hmissed⟩ := get_indexedStore_first h
  have hkeys : twoKeys = [Arr.replicate keySize 1, blankPair.1] := rfl
  have hmisses : misses listIndex (indexedStore [Arr.replicate keySize 1] twoRecords h) twoKeys =
      1 := by
    simp [misses, hkeys, hfound, hmissed]
  have hsample : flip List.take (twoRecords.map Prod.fst) (min 2 twoRecords.length) = twoKeys := rfl
  refine ⟨((validate_snapshot_iff (open_indexedFile h) (inBounds_indexedStore h)
    (iter_indexedStore h) hsample).mpr (Or.inr ?_)).mpr ⟨blankPair.1, ?_, hmissed⟩, hfound, hmissed⟩
  · rw [hmisses]
    decide
  · simp [hkeys]

theorem choosesPositions_take : ChoosesPositions (flip List.take) :=
  fun _ _ h => ⟨List.length_take_of_le h, (List.take_sublist _ _).subperm⟩

/-- An accepted snapshot of any admitted number of records whose index knows no key. -/
theorem exists_missing {n : ℕ} (hn : n ≤ 10000000000) :
    ∃ (f : File) (st : KvStore (List Key)), KvStore.open listIndex f = .ok st ∧ st.InBounds ∧
      st.iter = .ok (List.replicate n blankPair) ∧ ∀ key, st.get listIndex key = .ok none := by
  have h : ([] : List Key).length + (List.replicate n blankPair).length ≤ 10000000000 := by
    rwa [List.length_nil, Nat.zero_add, List.length_replicate]
  exact ⟨_, _, open_indexedFile h, inBounds_indexedStore h, iter_indexedStore h,
    fun key => get_indexedStore_of_not_mem h List.not_mem_nil⟩

/-- Validation passes a snapshot in which all of `2 ^ 31` sampled keys are missed. -/
theorem validate_passes_misses :
    ∃ (f : File) (st : KvStore (List Key)) (l : List (Key × Value)) (sample : List Key),
      KvStore.open listIndex f = .ok st ∧ st.InBounds ∧ st.iter = .ok l ∧
      ChoosesPositions (flip List.take) ∧
      flip List.take (l.map Prod.fst) (min (2 ^ 31) l.length) = sample ∧
      sample.length = 2 ^ 31 ∧ (∀ key ∈ sample, st.get listIndex key = .ok none) ∧
      validateSnapshot listIndex (flip List.take) f (2 ^ 31) = .ok () := by
  obtain ⟨f, st, ho, hb, hi, hget⟩ := exists_missing (n := 2 ^ 31) (by decide)
  have hl : (flip List.take ((List.replicate (2 ^ 31) blankPair).map Prod.fst)
      (min (2 ^ 31) (List.replicate (2 ^ 31) blankPair).length)).length = 2 ^ 31 := by
    rw [flip, List.length_take, List.length_map, List.length_replicate]
    decide
  have hall (sample : List Key) : misses listIndex st sample = sample.length :=
    List.countP_eq_length.mpr fun key _ => decide_eq_true (hget key)
  refine ⟨f, st, _, _, ho, hb, hi, choosesPositions_take, rfl, hl, fun key _ => hget key, ?_⟩
  rw [validateSnapshot_eq ho hb hi, hall, hl]
  exact if_neg (by decide)

end LowLatencyKv
