import LowLatencyKv.Builder.AnyIndex
import LowLatencyKv.Tables.MapDiff
import LowLatencyKv.Validator.Hex

/-! # Comparing two snapshots

The `diff` command of the validator looks up the keys of each of two snapshots in the
other one. It counts the differences in 32-bit integers and prints the first of them,
up to a number that the two loops share.
-/

namespace LowLatencyKv

open Rust Tables

namespace Validator

structure DiffState where
  inAOnly : Int32
  inBOnly : Int32
  valueDiffers : Int32
  diffsShown : UInt64
  deriving DecidableEq

section

variable {Fn : Type} (ph : Ph Fn)

/-- Prints the start of the key of a difference, if not too many are shown already. -/
def showDiff (maxDiffs : UInt64) (label : String) (key : Key) (diffsShown : UInt64) :
    Eff Console AnyError UInt64 := do
  if diffsShown < maxDiffs then
    let start ← slice key.toList 0 16
    println (label ++ hexEncode start)
    pure (diffsShown + 1)
  else pure diffsShown

/-- What is done with a record of the first snapshot. -/
def diffA (maxDiffs : UInt64) (storeB : KvStore Fn) (s : DiffState) (r : Key × Value) :
    Eff Console AnyError DiffState := do
  let found ← storeB.get ph r.1
  match found with
  | some valueB =>
    if r.2 ≠ valueB then
      let diffsShown ← showDiff maxDiffs "VALUE_DIFF: key=" r.1 s.diffsShown
      pure { s with valueDiffers := s.valueDiffers + 1, diffsShown }
    else pure s
  | none =>
    let diffsShown ← showDiff maxDiffs "IN_A_ONLY: key=" r.1 s.diffsShown
    pure { s with inAOnly := s.inAOnly + 1, diffsShown }

/-- What is done with a record of the second snapshot. -/
def diffB (maxDiffs : UInt64) (storeA : KvStore Fn) (s : DiffState) (r : Key × Value) :
    Eff Console AnyError DiffState := do
  let found ← storeA.get ph r.1
  if found.isNone then
    let diffsShown ← showDiff maxDiffs "IN_B_ONLY: key=" r.1 s.diffsShown
    pure { s with inBOnly := s.inBOnly + 1, diffsShown }
  else pure s

/-- A loop over the records of a store, each of which is read when it is reached. -/
def forEach (store : KvStore Fn) (f : DiffState → Key × Value → Eff Console AnyError DiffState)
    (s : DiffState) : Eff Console AnyError DiffState :=
  (List.range store.recordCount).foldlM (fun s slot => do
    let record ← store.getRecord slot
    f s (record.key, record.value)) s

def diffSnapshots (snapshotA snapshotB : Except IoError File) (maxDiffs : UInt64) :
    Eff Console AnyError Unit := do
  let storeA ← Build.context (KvStore.open ph snapshotA) "Failed to open snapshot A"
  let storeB ← Build.context (KvStore.open ph snapshotB) "Failed to open snapshot B"
  println ("Snapshot A: " ++ toString storeA.len ++ " records")
  println ("Snapshot B: " ++ toString storeB.len ++ " records")
  let s ← forEach storeA (diffA ph maxDiffs storeB) ⟨0, 0, 0, 0⟩
  let s ← forEach storeB (diffB ph maxDiffs storeA) s
  println ""
  println "Summary"
  println "======="
  println ("In A only: " ++ toString s.inAOnly)
  println ("In B only: " ++ toString s.inBOnly)
  println ("Value differs: " ++ toString s.valueDiffers)
  println ("Total differences: " ++ toString (s.inAOnly + s.inBOnly + s.valueDiffers))

end

inductive Change where
  | inAOnly
  | inBOnly
  | valueDiffers
  deriving DecidableEq, Repr

def Change.label : Change → String
  | .inAOnly => "IN_A_ONLY: key="
  | .inBOnly => "IN_B_ONLY: key="
  | .valueDiffers => "VALUE_DIFF: key="

/-- The line that shows a difference. -/
def diffLine (c : Change × Key) : String := c.1.label ++ hexEncode (sub c.2.toList 0 16)

/-- The difference that a record of the first snapshot is. -/
def changeA (find : Key → Option Value) (r : Key × Value) : Option (Change × Key) :=
  match find r.1 with
  | some v => if r.2 ≠ v then some (.valueDiffers, r.1) else none
  | none => some (.inAOnly, r.1)

/-- The difference that a record of the second snapshot is. -/
def changeB (find : Key → Option Value) (r : Key × Value) : Option (Change × Key) :=
  match find r.1 with
  | some _ => none
  | none => some (.inBOnly, r.1)

/-- The lines shown of some differences. -/
def shownLines (maxDiffs : UInt64) (cs : List (Change × Key)) : Console :=
  (cs.map diffLine).take maxDiffs.toNat

def countOf (c : Change) (cs : List (Change × Key)) : ℕ := cs.countP fun x => x.1 = c

/-- The state of the loops after some differences. -/
def DiffState.after (maxDiffs : UInt64) (cs : List (Change × Key)) : DiffState where
  inAOnly := Int32.ofNat (countOf .inAOnly cs)
  inBOnly := Int32.ofNat (countOf .inBOnly cs)
  valueDiffers := Int32.ofNat (countOf .valueDiffers cs)
  diffsShown := UInt64.ofNat (min maxDiffs.toNat cs.length)

/-- One more difference, after which this many are shown. -/
def DiffState.add (s : DiffState) (diffsShown : UInt64) : Change → DiffState
  | .inAOnly => { s with inAOnly := s.inAOnly + 1, diffsShown }
  | .inBOnly => { s with inBOnly := s.inBOnly + 1, diffsShown }
  | .valueDiffers => { s with valueDiffers := s.valueDiffers + 1, diffsShown }

variable {Fn : Type} {ph : Ph Fn} {maxDiffs : UInt64} {st : KvStore Fn}
  {cs : List (Change × Key)} {find : Key → Option Value}

@[simp] theorem countOf_append (c : Change) (cs cs' : List (Change × Key)) :
    countOf c (cs ++ cs') = countOf c cs + countOf c cs' := List.countP_append

@[simp] theorem countOf_singleton (c c' : Change) (key : Key) :
    countOf c [(c', key)] = if c' = c then 1 else 0 := by
  simp [countOf, List.countP_singleton]

theorem DiffState.after_concat (c : Change) (key : Key) :
    DiffState.after maxDiffs (cs ++ [(c, key)]) = (DiffState.after maxDiffs cs).add
      (UInt64.ofNat (min maxDiffs.toNat (cs ++ [(c, key)]).length)) c := by
  cases c <;> simp [after, add]

theorem DiffState.after_nil : DiffState.after maxDiffs [] = ⟨0, 0, 0, 0⟩ := by
  simp [after, countOf]

theorem shownLines_nil : shownLines maxDiffs [] = [] := List.take_nil

theorem length_shownLines : (shownLines maxDiffs cs).length = min maxDiffs.toNat cs.length := by
  unfold shownLines
  rw [List.length_take, List.length_map]

theorem slice_key (key : Key) : slice key.toList 0 16 = .ok (sub key.toList 0 16) := by
  apply slice_of_le (Nat.zero_le 16)
  rw [key.length_toList]
  decide

theorem shownLines_concat_of_lt (h : cs.length < maxDiffs.toNat) (x : Change × Key) :
    shownLines maxDiffs (cs ++ [x]) = shownLines maxDiffs cs ++ [diffLine x] := by
  have hle : (cs.map diffLine).length ≤ maxDiffs.toNat := by
    rw [List.length_map]
    exact h.le
  have hle' : ((cs ++ [x]).map diffLine).length ≤ maxDiffs.toNat := by
    rw [List.length_map, List.length_append]
    exact h
  unfold shownLines
  rw [List.take_of_length_le hle, List.take_of_length_le hle', List.map_append]
  rfl

theorem shownLines_concat_of_le (h : maxDiffs.toNat ≤ cs.length) (x : Change × Key) :
    shownLines maxDiffs (cs ++ [x]) = shownLines maxDiffs cs := by
  unfold shownLines
  rw [List.map_append]
  apply List.take_append_of_le_length
  rwa [List.length_map]

theorem showDiff_run (c : Change) (key : Key) (out : Console) :
    showDiff maxDiffs c.label key (UInt64.ofNat (min maxDiffs.toNat cs.length))
        (out ++ shownLines maxDiffs cs) =
      (.ok (UInt64.ofNat (min maxDiffs.toNat (cs ++ [(c, key)]).length)),
        out ++ shownLines maxDiffs (cs ++ [(c, key)])) := by
  have hlt := maxDiffs.toNat_lt
  have hn : (UInt64.ofNat (min maxDiffs.toNat cs.length)).toNat = min maxDiffs.toNat cs.length :=
    UInt64.toNat_ofNat_of_lt' (by omega : _ < 2 ^ 64)
  have hl : (cs ++ [(c, key)]).length = cs.length + 1 := List.length_append
  unfold showDiff
  split
  case isTrue h =>
    rw [UInt64.lt_iff_toNat_lt, hn] at h
    have hm : min maxDiffs.toNat (cs.length + 1) = min maxDiffs.toNat cs.length + 1 := by omega
    rw [Eff.liftM_exec_bind (slice_key key), println_bind, hl, hm, UInt64.ofNat_add,
      shownLines_concat_of_lt (by omega), List.append_assoc]
    rfl
  case isFalse h =>
    rw [UInt64.lt_iff_toNat_lt, hn] at h
    have hm : min maxDiffs.toNat (cs.length + 1) = min maxDiffs.toNat cs.length := by omega
    rw [hl, hm, shownLines_concat_of_le (by omega)]
    rfl

theorem diffA_run {r : Key × Value} (hf : st.get ph r.1 = .ok (find r.1)) (out : Console) :
    diffA ph maxDiffs st (.after maxDiffs cs) r (out ++ shownLines maxDiffs cs) =
      (.ok (.after maxDiffs (cs ++ (changeA find r).toList)),
        out ++ shownLines maxDiffs (cs ++ (changeA find r).toList)) := by
  unfold diffA changeA
  rw [Eff.liftM_exec_bind hf]
  cases find r.1 with
  | some w =>
    by_cases hw : r.2 ≠ w
    · simp only [if_pos hw, Option.toList_some]
      rw [DiffState.after_concat]
      exact Eff.bind_of_ok (showDiff_run .valueDiffers r.1 out)
    · simp only [if_neg hw, Option.toList_none, List.append_nil]
      rfl
  | none =>
    simp only [Option.toList_some]
    rw [DiffState.after_concat]
    exact Eff.bind_of_ok (showDiff_run .inAOnly r.1 out)

theorem diffB_run {r : Key × Value} (hf : st.get ph r.1 = .ok (find r.1)) (out : Console) :
    diffB ph maxDiffs st (.after maxDiffs cs) r (out ++ shownLines maxDiffs cs) =
      (.ok (.after maxDiffs (cs ++ (changeB find r).toList)),
        out ++ shownLines maxDiffs (cs ++ (changeB find r).toList)) := by
  unfold diffB changeB
  rw [Eff.liftM_exec_bind hf]
  cases find r.1 with
  | some w =>
    simp only [Option.isNone_some, Bool.false_eq_true, if_false, Option.toList_none,
      List.append_nil]
    rfl
  | none =>
    simp only [Option.isNone_none, if_true, Option.toList_some]
    rw [DiffState.after_concat]
    exact Eff.bind_of_ok (showDiff_run .inBOnly r.1 out)

theorem forEach_eq (hb : st.InBounds)
    (f : DiffState → Key × Value → Eff Console AnyError DiffState) (s : DiffState) :
    forEach st f s = st.cells.foldlM f s := by
  unfold forEach KvStore.cells pairs
  rw [List.foldlM_map]
  apply Eff.foldlM_congr
  intro i hi s
  exact Eff.liftM_exec_bind (KvStore.getRecord_of_le (hb i (List.mem_range.mp hi))) _

/-- A loop whose body handles one record finds the differences of all of them. -/
theorem foldlM_run {l : List (Key × Value)} {change : Key × Value → Option (Change × Key)}
    {f : DiffState → Key × Value → Eff Console AnyError DiffState} (out : Console)
    (hf : ∀ r cs, f (.after maxDiffs cs) r (out ++ shownLines maxDiffs cs) =
      (.ok (.after maxDiffs (cs ++ (change r).toList)),
        out ++ shownLines maxDiffs (cs ++ (change r).toList))) (cs : List (Change × Key)) :
    l.foldlM f (.after maxDiffs cs) (out ++ shownLines maxDiffs cs) =
      (.ok (.after maxDiffs (cs ++ l.filterMap change)),
        out ++ shownLines maxDiffs (cs ++ l.filterMap change)) := by
  induction l generalizing cs with
  | nil =>
    rw [List.filterMap_nil, List.append_nil]
    rfl
  | cons r l ih =>
    have hc : cs ++ (r :: l).filterMap change = cs ++ (change r).toList ++ l.filterMap change := by
      rw [List.filterMap_cons, List.append_assoc]
      cases change r <;> rfl
    rw [List.foldlM_cons, Eff.bind_of_ok (hf r cs), ih, hc]

theorem forEach_diffA {sa sb : KvStore Fn} (maxDiffs : UInt64)
    (hb : sa.InBounds) (hf : ∀ k, sb.get ph k = .ok (find k)) (cs : List (Change × Key))
    (out : Console) :
    forEach sa (diffA ph maxDiffs sb) (.after maxDiffs cs) (out ++ shownLines maxDiffs cs) =
      (.ok (.after maxDiffs (cs ++ sa.cells.filterMap (changeA find))),
        out ++ shownLines maxDiffs (cs ++ sa.cells.filterMap (changeA find))) := by
  rw [forEach_eq hb]
  exact foldlM_run out (fun r _ => diffA_run (hf r.1) out) cs

theorem forEach_diffB {sa sb : KvStore Fn} (maxDiffs : UInt64)
    (hb : sb.InBounds) (hf : ∀ k, sa.get ph k = .ok (find k)) (cs : List (Change × Key))
    (out : Console) :
    forEach sb (diffB ph maxDiffs sa) (.after maxDiffs cs) (out ++ shownLines maxDiffs cs) =
      (.ok (.after maxDiffs (cs ++ sb.cells.filterMap (changeB find))),
        out ++ shownLines maxDiffs (cs ++ sb.cells.filterMap (changeB find))) := by
  rw [forEach_eq hb]
  exact foldlM_run out (fun r _ => diffB_run (hf r.1) out) cs

/-- The differences that scans of two maps find. -/
def changes (A B la lb : List (Key × Value)) : List (Change × Key) :=
  la.filterMap (changeA (B.lookup ·)) ++ lb.filterMap (changeB (A.lookup ·))

variable {A B la lb : List (Key × Value)} {c : Change} {k : Key}

theorem length_eq_countOf (cs : List (Change × Key)) : cs.length =
    countOf .inAOnly cs + countOf .inBOnly cs + countOf .valueDiffers cs := by
  induction cs with
  | nil => rfl
  | cons x cs ih =>
    obtain ⟨c, k⟩ := x
    have hc (d : Change) : countOf d ((c, k) :: cs) = (if c = d then 1 else 0) + countOf d cs := by
      rw [← countOf_singleton, ← countOf_append]
      rfl
    rw [List.length_cons, ih, hc, hc, hc]
    cases c <;> simp <;> omega

theorem countOf_filterMap (c : Change) (change : Key × Value → Option (Change × Key))
    (l : List (Key × Value)) :
    countOf c (l.filterMap change) = l.countP fun r => (change r).map Prod.fst = some c := by
  unfold countOf
  rw [List.countP_filterMap]
  apply List.countP_congr
  intro r _
  cases change r <;> simp

theorem changeA_eq_some_iff {r : Key × Value} : changeA find r = some (c, k) ↔ r.1 = k ∧
    (c = .inAOnly ∧ find r.1 = none ∨ c = .valueDiffers ∧ ∃ w, find r.1 = some w ∧ r.2 ≠ w) := by
  unfold changeA
  cases find r.1 with
  | none => cases c <;> simp
  | some w => cases c <;> simp [and_comm]

theorem changeB_eq_some_iff {r : Key × Value} : changeB find r = some (c, k) ↔
    r.1 = k ∧ c = .inBOnly ∧ find r.1 = none := by
  unfold changeB
  cases find r.1 with
  | none => cases c <;> simp
  | some w => simp

theorem countOf_changeA : countOf .inBOnly (la.filterMap (changeA find)) = 0 := by
  rw [countOf_filterMap, List.countP_eq_zero]
  simp [changeA_eq_some_iff]

theorem countOf_changeB (hc : c ≠ .inBOnly) : countOf c (lb.filterMap (changeB find)) = 0 := by
  rw [countOf_filterMap, List.countP_eq_zero]
  simp [changeB_eq_some_iff, hc]

theorem countOf_changes_inAOnly (hA : (A.map Prod.fst).Nodup) (hla : la.Perm A) :
    countOf .inAOnly (changes A B la lb) = (onlyIn A B).card := by
  unfold changes
  rw [countOf_append, countOf_changeB (by decide), Nat.add_zero, countOf_filterMap]
  refine (card_onlyIn hA hla fun r => ?_).symm
  simp [changeA_eq_some_iff]

theorem countOf_changes_inBOnly (hB : (B.map Prod.fst).Nodup) (hlb : lb.Perm B) :
    countOf .inBOnly (changes A B la lb) = (onlyIn B A).card := by
  unfold changes
  rw [countOf_append, countOf_changeA, Nat.zero_add, countOf_filterMap]
  refine (card_onlyIn hB hlb fun r => ?_).symm
  simp [changeB_eq_some_iff]

theorem countOf_changes_valueDiffers (hA : (A.map Prod.fst).Nodup) (hla : la.Perm A) :
    countOf .valueDiffers (changes A B la lb) = (differ A B).card := by
  unfold changes
  rw [countOf_append, countOf_changeB (by decide), Nat.add_zero, countOf_filterMap]
  refine (card_differ hA hla fun r => ?_).symm
  simp [changeA_eq_some_iff]

theorem length_changes (hA : (A.map Prod.fst).Nodup) (hB : (B.map Prod.fst).Nodup)
    (hla : la.Perm A) (hlb : lb.Perm B) : (changes A B la lb).length = diffTotal A B := by
  rw [length_eq_countOf, countOf_changes_inAOnly hA hla, countOf_changes_inBOnly hB hlb,
    countOf_changes_valueDiffers hA hla, diffTotal]

/-- A line shows a key in which the two maps differ, under the label of that kind of difference. -/
inductive ShowsDiff (A B : List (Key × Value)) : String → Prop
  | inAOnly {k : Key} (h : k ∈ onlyIn A B) : ShowsDiff A B (diffLine (.inAOnly, k))
  | inBOnly {k : Key} (h : k ∈ onlyIn B A) : ShowsDiff A B (diffLine (.inBOnly, k))
  | valueDiffers {k : Key} (h : k ∈ differ A B) : ShowsDiff A B (diffLine (.valueDiffers, k))

def diffHeader (lenA lenB : ℕ) : Console :=
  ["Snapshot A: " ++ toString lenA ++ " records", "Snapshot B: " ++ toString lenB ++ " records"]

def diffSummary (inAOnly inBOnly valueDiffers : ℕ) : Console :=
  ["", "Summary", "=======", "In A only: " ++ toString inAOnly, "In B only: " ++ toString inBOnly,
    "Value differs: " ++ toString valueDiffers,
    "Total differences: " ++ toString (inAOnly + inBOnly + valueDiffers)]

theorem showsDiff_of_mem_changes (hA : (A.map Prod.fst).Nodup) (hB : (B.map Prod.fst).Nodup)
    (hla : la.Perm A) (hlb : lb.Perm B) {x : Change × Key} (hx : x ∈ changes A B la lb) :
    ShowsDiff A B (diffLine x) := by
  obtain ⟨c, k⟩ := x
  rcases List.mem_append.mp hx with hx | hx
  · obtain ⟨⟨k, v⟩, hr, hx⟩ := List.mem_filterMap.mp hx
    have hv := lookup_of_mem hA (hla.mem_iff.mp hr)
    obtain ⟨rfl, ⟨rfl, hn⟩ | ⟨rfl, w, hw, hne⟩⟩ := changeA_eq_some_iff.mp hx
    · exact .inAOnly (mem_onlyIn_iff.mpr ⟨by simp [hv], hn⟩)
    · exact .valueDiffers (mem_differ_iff.mpr ⟨v, w, hv, hw, hne⟩)
  · obtain ⟨⟨k, v⟩, hr, hx⟩ := List.mem_filterMap.mp hx
    have hv := lookup_of_mem hB (hlb.mem_iff.mp hr)
    obtain ⟨rfl, rfl, hn⟩ := changeB_eq_some_iff.mp hx
    exact .inBOnly (mem_onlyIn_iff.mpr ⟨by simp [hv], hn⟩)

theorem toString_ofNat {n : ℕ} (h : n < 2 ^ 31) : toString (Int32.ofNat n) = toString n := by
  have hi : (Int32.ofNat n).toInt = n := Int32.toInt_ofNat_of_lt h
  change toString (Int32.ofNat n).toInt = _
  rw [hi]
  rfl

/-- The comparison prints the first differences and the number of those of each kind. -/
theorem diffSnapshots_run {fa fb : File} {sa sb : KvStore Fn} (hoa : KvStore.open ph fa = .ok sa)
    (hob : KvStore.open ph fb = .ok sb) (hba : sa.InBounds) (hbb : sb.InBounds)
    (hga : ∀ k, sa.get ph k = .ok (A.lookup k)) (hgb : ∀ k, sb.get ph k = .ok (B.lookup k))
    (h : (changes A B sa.cells sb.cells).length < 2 ^ 31) (maxDiffs : UInt64) (out : Console) :
    diffSnapshots ph fa fb maxDiffs out = (.ok (), out ++ diffHeader sa.len sb.len ++
      shownLines maxDiffs (changes A B sa.cells sb.cells) ++
      diffSummary (countOf .inAOnly (changes A B sa.cells sb.cells))
        (countOf .inBOnly (changes A B sa.cells sb.cells))
        (countOf .valueDiffers (changes A B sa.cells sb.cells))) := by
  rw [length_eq_countOf] at h
  generalize hcs : changes A B sa.cells sb.cells = cs at h ⊢
  have hfirst := forEach_diffA maxDiffs hba hgb [] (out ++ diffHeader sa.len sb.len)
  have hsecond := forEach_diffB maxDiffs hbb hga (sa.cells.filterMap (changeA (B.lookup ·)))
    (out ++ diffHeader sa.len sb.len)
  rw [DiffState.after_nil, shownLines_nil, List.append_nil, List.nil_append] at hfirst
  rw [← changes, hcs] at hsecond
  have ha : toString (Int32.ofNat (countOf .inAOnly cs)) = toString (countOf .inAOnly cs) :=
    toString_ofNat (by omega)
  have hb : toString (Int32.ofNat (countOf .inBOnly cs)) = toString (countOf .inBOnly cs) :=
    toString_ofNat (by omega)
  have hv : toString (Int32.ofNat (countOf .valueDiffers cs)) =
      toString (countOf .valueDiffers cs) := toString_ofNat (by omega)
  unfold diffSnapshots
  rw [hoa, hob]
  simp only [Build.context, Outcome.mapErr_ok, Eff.liftM_ok_bind, println_bind, List.append_assoc,
    List.cons_append, List.nil_append]
  unfold diffHeader at hfirst hsecond ⊢
  rw [Eff.bind_of_ok hfirst, Eff.bind_of_ok hsecond]
  simp only [println_bind, DiffState.after, ha, hb, hv, ← Int32.ofNat_add, toString_ofNat h,
    List.append_assoc, println_apply]
  rfl

/-- `g` was built from the distinct records `rs`, with an index that its image is read back as. -/
structure BuiltFrom (ph : Ph Fn) (sha256 : Sha256) (rs : List (Key × Value)) (g : File) : Prop where
  nodup : (rs.map Prod.fst).Nodup
  length_le : rs.length ≤ 10000000000
  exists_index : ∃ fn image, ph.Indexes (rs.map Prod.fst) fn image ∧
    4096 + (8 + image.length) + 4095 + 320 * rs.length < 2 ^ 64
  exists_build : ∃ env s log,
    (SnapshotBuilder.ofRecords rs).build ph sha256 env s = (.ok (), ⟨some g, log⟩)

/-- Whatever the limit, the comparison reports these counts, after as many lines as it allows. -/
def ReportsDiff (ph : Ph Fn) (A B : List (Key × Value)) (fa fb : File)
    (inAOnly inBOnly valueDiffers : ℕ) : Prop :=
  ∀ maxDiffs out, ∃ shown : Console,
    diffSnapshots ph fa fb maxDiffs out = (.ok (), out ++ diffHeader A.length B.length ++ shown ++
      diffSummary inAOnly inBOnly valueDiffers) ∧
    shown.length = min maxDiffs.toNat (inAOnly + inBOnly + valueDiffers) ∧
    ∀ line ∈ shown, ShowsDiff A B line

theorem BuiltFrom.opens {sha256 : Sha256} {rs : List (Key × Value)} {g : File}
    (h : BuiltFrom ph sha256 rs g) : ∃ st, KvStore.open ph g = .ok st ∧ st.InBounds ∧
      st.len = rs.length ∧ (∀ k, st.get ph k = .ok (rs.lookup k)) ∧ st.cells.Perm rs := by
  obtain ⟨fn, image, hi, hsz⟩ := h.exists_index
  obtain ⟨env, s, log, hbuild⟩ := h.exists_build
  obtain ⟨t, _, hg⟩ := exists_isSnapshot_of_build hi hsz hbuild rfl
  obtain ⟨st, ho, hr⟩ := hg.represents h.length_le h.nodup
  have hb := inBounds_of_build_open hbuild ho
  refine ⟨st, ho, hb, hr.len_eq, fun k => ?_, ?_⟩
  · obtain ⟨r, hget, hv⟩ := hr.get_iff k
    rw [hget]
    congr 1
    ext v
    rw [hv, lookup_eq_some_iff h.nodup]
  · obtain ⟨l, hl, hp⟩ := hr.iter_perm
    rw [KvStore.iter_eq hb] at hl
    rwa [Outcome.ok.inj hl]

theorem reportsDiff_of_built {sha256 : Sha256} {fa fb : File} (hA : BuiltFrom ph sha256 A fa)
    (hB : BuiltFrom ph sha256 B fb) (hn : diffTotal A B < 2 ^ 31) :
    ReportsDiff ph A B fa fb (onlyIn A B).card (onlyIn B A).card (differ A B).card := by
  obtain ⟨sa, hoa, hba, hla, hga, hpa⟩ := hA.opens
  obtain ⟨sb, hob, hbb, hlb, hgb, hpb⟩ := hB.opens
  have hlen := length_changes hA.nodup hB.nodup hpa hpb
  intro maxDiffs out
  refine ⟨shownLines maxDiffs (changes A B sa.cells sb.cells), ?_, ?_, ?_⟩
  · rw [diffSnapshots_run hoa hob hba hbb hga hgb (by omega), hla, hlb,
      countOf_changes_inAOnly hA.nodup hpa, countOf_changes_inBOnly hB.nodup hpb,
      countOf_changes_valueDiffers hA.nodup hpa]
  · rw [length_shownLines, hlen, diffTotal]
  · intro line hline
    obtain ⟨x, hx, rfl⟩ := List.mem_map.mp (List.mem_of_mem_take hline)
    exact showsDiff_of_mem_changes hA.nodup hB.nodup hpa hpb hx

/-- The comparison of two built snapshots counts the differences of their maps, in either order;
there are none exactly if the maps are the same. -/
theorem diff_eq_map_diff {sha256 : Sha256} {fa fb : File} (hA : BuiltFrom ph sha256 A fa)
    (hB : BuiltFrom ph sha256 B fb) (hn : diffTotal A B < 2 ^ 31) :
    ReportsDiff ph A B fa fb (onlyIn A B).card (onlyIn B A).card (differ A B).card ∧
    ReportsDiff ph B A fb fa (onlyIn B A).card (onlyIn A B).card (differ A B).card ∧
    ((onlyIn A B).card + (onlyIn B A).card + (differ A B).card = 0 ↔
      ∀ k, A.lookup k = B.lookup k) := by
  have hswap := reportsDiff_of_built hB hA (by rwa [diffTotal_comm])
  rw [differ_comm] at hswap
  exact ⟨reportsDiff_of_built hA hB hn, hswap, diffTotal_eq_zero_iff⟩

theorem exists_builtFrom {rs : List (Key × Value)} (sha256 : Sha256) (hne : rs ≠ [])
    (hd : (rs.map Prod.fst).Nodup) (hn : rs.length ≤ 10000000000) :
    ∃ g, BuiltFrom listIndex sha256 rs g := by
  have hl : (rs.map Prod.fst).length = rs.length := List.length_map _
  have hi := listIndex_indexes hd (by omega : (rs.map Prod.fst).length < 2 ^ 64)
  have hsz : 4096 + (8 + (ListIndex.write (rs.map Prod.fst)).length) + 4095 + 320 * rs.length <
      2 ^ 64 := by
    rw [ListIndex.length_write]
    omega
  obtain ⟨g, log, hrun, _⟩ := build_faultless sha256 0 hne hi hsz none
  exact ⟨g, hd, hn, ⟨_, _, hi, hsz⟩, _, _, _, hrun⟩

/-- Records that share a key with the two records, under another value. -/
def otherRecords : List (Key × Value) :=
  [(Arr.replicate keySize 1, Arr.replicate valueSize 0),
    (Arr.replicate keySize 2, Arr.replicate valueSize 0)]

theorem card_differences_two : (onlyIn twoRecords otherRecords).card = 1 ∧
    (onlyIn otherRecords twoRecords).card = 1 ∧ (differ twoRecords otherRecords).card = 1 := by
  decide

theorem diff_eq_map_diff_two :
    ∃ fa fb, ReportsDiff listIndex twoRecords otherRecords fa fb 1 1 1 ∧
      ReportsDiff listIndex otherRecords twoRecords fb fa 1 1 1 := by
  obtain ⟨fa, hA⟩ := exists_builtFrom twoDigest (by decide) twoKeys_nodup (by decide)
  obtain ⟨fb, hB⟩ := exists_builtFrom twoDigest (by decide)
    (show (otherRecords.map Prod.fst).Nodup by decide) (by decide)
  obtain ⟨ha, hb, hv⟩ := card_differences_two
  have hn : diffTotal twoRecords otherRecords < 2 ^ 31 := by
    unfold diffTotal
    rw [ha, hb, hv]
    decide
  have h := diff_eq_map_diff hA hB hn
  rw [ha, hb, hv] at h
  exact ⟨fa, fb, h.1, h.2.1⟩

end Validator

end LowLatencyKv
