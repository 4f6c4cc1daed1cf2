import LowLatencyKv.Server.Reload
import LowLatencyKv.Store.Safety

/-! # A batch as a sequence of lookups

A `batch_get` that runs alone answers as the `get`s of its keys, issued one by one,
and counts the same hits and misses. Both stop at a record that cannot be read.
-/

namespace LowLatencyKv

open Rust Concurrency

variable {Fn : Type} {ph : Ph Fn} {store : KvStore Fn} {s : KvServiceImpl Fn}
  {key : List UInt8} {keys rest : List (List UInt8)} {results : List GetResponse}
  {found : List (Key × Option Value)} {k : Key} {value : Option Value}

namespace KvServiceImpl

def mapMetrics (f : Metrics → Metrics) (s : KvServiceImpl Fn) : KvServiceImpl Fn :=
  { s with metrics := f s.metrics }

/-- Count the answer of a lookup. -/
def count (value : Option Value) : KvServiceImpl Fn → KvServiceImpl Fn :=
  mapMetrics (if value.isSome then Metrics.incrementHits else Metrics.incrementMisses)

/-- Count an answered request. -/
def settle : KvServiceImpl Fn → KvServiceImpl Fn :=
  mapMetrics fun m => m.recordLatency.incrementRequests

def countAll (found : List (Key × Option Value)) (s : KvServiceImpl Fn) : KvServiceImpl Fn :=
  found.foldl (fun s x => s.count x.2) s

@[simp] theorem store_mapMetrics (f : Metrics → Metrics) : (s.mapMetrics f).store = s.store := rfl

@[simp] theorem store_count : (s.count value).store = s.store := rfl

@[simp] theorem store_settle : s.settle.store = s.store := rfl

/-- `get` for each key, one after the other. -/
def gets : List (List UInt8) → Handler Fn (List (Except Status GetResponse))
  | [] => return []
  | key :: keys => do
    let r ← get key
    let rs ← gets keys
    return r :: rs

theorem run_lookup (hg : store.get ph k = .ok value) :
    (Handler.lookup store k).run (Op.exec ph) s = some (.ofLookup value, s.count value) := by
  have hf : (Handler.find store k).run (Op.exec ph) s = some (value, s) :=
    (Thread.run_perform _).trans (Op.exec_get hg)
  rw [Handler.lookup, Thread.run_bind_of_some hf]
  cases value with
  | none => rfl
  | some v => rfl

theorem run_lookup_panic (hg : store.get ph k = .panic) :
    (Handler.lookup store k).run (Op.exec ph) s = none := by
  have hf : (Handler.find store k).run (Op.exec ph) s = none :=
    (Thread.run_perform _).trans (Op.exec_get_panic hg)
  rw [Handler.lookup, Thread.run_bind_of_none hf]

theorem get_toList (k : Key) : (get k.toList : Handler Fn _) =
    Handler.load >>= fun store => Handler.lookup store k >>= fun response =>
      Handler.recordLatency >>= fun _ => Handler.incrementRequests >>= fun _ =>
        pure (.ok response) := by
  have hl : k.toList.length = keySize := k.length_toList
  unfold get
  rw [if_neg (not_not.mpr hl), keyOf, dif_pos hl]

theorem run_get (hg : s.store.get ph k = .ok value) : (get k.toList).run (Op.exec ph) s =
    some (.ok (.ofLookup value), (s.count value).settle) := by
  have hl : (Handler.load : Handler Fn _).run (Op.exec ph) s = some (s.store, s) := rfl
  rw [get_toList, Thread.run_bind_of_some hl, Thread.run_bind_of_some (run_lookup hg)]
  rfl

theorem run_get_of_length_ne (h : key.length ≠ keySize) : (get key).run (Op.exec ph) s =
    some (.error (.invalidArgument s!"Key must be exactly {keySize} bytes, got {key.length}"),
      s.mapMetrics .incrementErrors) := by
  unfold get
  rw [if_pos h]
  rfl

theorem batchLoop_toList (k : Key) : batchLoop store (k.toList :: keys) results =
    Handler.lookup store k >>= fun result => batchLoop store keys (results ++ [result]) := by
  have hl : k.toList.length = keySize := k.length_toList
  rw [batchLoop, if_neg (not_not.mpr hl), keyOf, dif_pos hl]

theorem run_batchLoop (hf : ∀ x ∈ found, store.get ph x.1 = .ok x.2) :
    (batchLoop store (found.map (fun x => x.1.toList) ++ rest) results).run (Op.exec ph) s =
      (batchLoop store rest (results ++ found.map fun x => .ofLookup x.2)).run (Op.exec ph)
        (s.countAll found) := by
  induction found generalizing results s with
  | nil => simp [countAll]
  | cons x found ih =>
    obtain ⟨k, value⟩ := x
    have hv : store.get ph k = .ok value := hf (k, value) (by simp)
    rw [List.map_cons, List.cons_append, batchLoop_toList, Thread.run_bind_of_some (run_lookup hv),
      ih fun x hx => hf x (List.mem_cons_of_mem _ hx)]
    simp [countAll]

/-- A record that cannot be read ends the loop if no bad key comes before it. -/
theorem run_batchLoop_panic
    (hk : k.toList ∈ keys.takeWhile fun key => key.length = keySize)
    (hg : store.get ph k = .panic) : (batchLoop store keys results).run (Op.exec ph) s = none := by
  induction keys generalizing results s with
  | nil => simp at hk
  | cons key keys ih =>
    rw [List.takeWhile_cons] at hk
    split at hk
    · next hlen =>
      have hkey : key = (⟨key, of_decide_eq_true hlen⟩ : Key).toList := rfl
      generalize (⟨key, of_decide_eq_true hlen⟩ : Key) = k' at hkey
      subst hkey
      rw [batchLoop_toList]
      cases hv : store.get ph k' with
      | err e => exact e.elim
      | panic => exact Thread.run_bind_of_none (run_lookup_panic hv)
      | ok value =>
        rw [Thread.run_bind_of_some (run_lookup hv)]
        rcases List.mem_cons.mp hk with he | hk
        · have : k = k' := Arr.ext he
          rw [← this, hg] at hv
          cases hv
        · exact ih hk
    · cases hk

theorem run_gets (hf : ∀ x ∈ found, s.store.get ph x.1 = .ok x.2) :
    (gets (found.map fun x => x.1.toList)).run (Op.exec ph) s =
      some (found.map fun x => .ok (.ofLookup x.2),
        found.foldl (fun s x => (s.count x.2).settle) s) := by
  induction found generalizing s with
  | nil => rfl
  | cons x found ih =>
    obtain ⟨k, value⟩ := x
    have hv : s.store.get ph k = .ok value := hf (k, value) (by simp)
    have hr := ih (s := (s.count value).settle) fun x hx => by
      simpa using hf x (List.mem_cons_of_mem _ hx)
    rw [List.map_cons, gets, Thread.run_bind_of_some (run_get hv), Thread.run_bind_of_some hr]
    rfl

theorem run_load : (Handler.load : Handler Fn _).run (Op.exec ph) s = some (s.store, s) := rfl

theorem run_batchGet (hf : ∀ x ∈ found, s.store.get ph x.1 = .ok x.2) :
    (batchGet (found.map fun x => x.1.toList)).run (Op.exec ph) s =
      some (.ok ⟨found.map fun x => .ofLookup x.2⟩, (s.countAll found).settle) := by
  have hloop : (batchLoop s.store (found.map fun x => x.1.toList) []).run (Op.exec ph) s =
      some (.ok (found.map fun x => .ofLookup x.2), s.countAll found) := by
    rw [← List.append_nil (found.map fun x => x.1.toList), run_batchLoop hf]
    rfl
  unfold batchGet
  rw [Thread.run_bind_of_some run_load, Thread.run_bind_of_some hloop]
  rfl

theorem run_batchGet_of_length_ne (hf : ∀ x ∈ found, s.store.get ph x.1 = .ok x.2)
    (h : key.length ≠ keySize) :
    (batchGet (found.map (fun x => x.1.toList) ++ key :: rest)).run (Op.exec ph) s =
      some (.error (.invalidArgument s!"All keys must be exactly {keySize} bytes"),
        (s.countAll found).mapMetrics .incrementErrors) := by
  have hloop : (batchLoop s.store (found.map (fun x => x.1.toList) ++ key :: rest) []).run
      (Op.exec ph) s =
      some (.error (.invalidArgument s!"All keys must be exactly {keySize} bytes"),
        (s.countAll found).mapMetrics .incrementErrors) := by
    rw [run_batchLoop hf, batchLoop, if_pos h]
    rfl
  unfold batchGet
  rw [Thread.run_bind_of_some run_load, Thread.run_bind_of_some hloop]
  rfl

theorem run_batchGet_panic (hk : k.toList ∈ keys.takeWhile fun key => key.length = keySize)
    (hg : s.store.get ph k = .panic) : (batchGet keys).run (Op.exec ph) s = none := by
  unfold batchGet
  rw [Thread.run_bind_of_some run_load,
    Thread.run_bind_of_none (run_batchLoop_panic hk hg)]

/-- The keys before the first bad one select records that can be read. -/
def Readable (ph : Ph Fn) (s : KvServiceImpl Fn) (keys : List (List UInt8)) : Prop :=
  ∀ k : Key, k.toList ∈ keys.takeWhile (fun key => key.length = keySize) → s.store.Readable ph k

/-- What `batch_get` is to do with these keys on its own: succeed on good keys only, with the
entries and the lookup counts of one `get` for each key, and refuse all others. A single key is
answered and counted as by `get`. -/
structure BatchAgrees (ph : Ph Fn) (s : KvServiceImpl Fn) (keys : List (List UInt8)) : Prop where
  ok_iff : (∃ r s', (batchGet keys).run (Op.exec ph) s = some (.ok r, s')) ↔
    ∀ key ∈ keys, key.length = keySize
  entries : (∀ key ∈ keys, key.length = keySize) → ∃ (results : List GetResponse)
    (s₁ s₂ : KvServiceImpl Fn),
    (batchGet keys).run (Op.exec ph) s = some (.ok ⟨results⟩, s₁) ∧
    (gets keys).run (Op.exec ph) s = some (results.map .ok, s₂) ∧
    List.Forall₂ (fun key r => ∃ s', (get key).run (Op.exec ph) s = some (.ok r, s'))
      keys results ∧
    (∀ r ∈ results, if r.found then r.value.length = valueSize else r.value = []) ∧
    s₁.metrics.hitsTotal = s₂.metrics.hitsTotal ∧ s₁.metrics.missesTotal = s₂.metrics.missesTotal
  refused : (∃ key ∈ keys, key.length ≠ keySize) → ∃ message s',
    (batchGet keys).run (Op.exec ph) s = some (.error (.invalidArgument message), s')
  single : ∀ key, keys = [key] → ∃ r₁ r₂ s', (batchGet keys).run (Op.exec ph) s = some (r₁, s') ∧
    (get key).run (Op.exec ph) s = some (r₂, s') ∧ ∀ r, r₁ = .ok ⟨[r]⟩ ↔ r₂ = .ok r

theorem exists_split (h : s.Readable ph keys) : ∃ (found : List (Key × Option Value)) (rest : _),
    keys = found.map (fun x => x.1.toList) ++ rest ∧
    (∀ x ∈ found, s.store.get ph x.1 = .ok x.2) ∧
    (rest = [] ∨ ∃ bad rest', rest = bad :: rest' ∧ bad.length ≠ keySize) := by
  induction keys with
  | nil => exact ⟨[], [], rfl, nofun, Or.inl rfl⟩
  | cons key keys ih =>
    by_cases hlen : key.length = keySize
    · have ht : (key :: keys).takeWhile (fun key => key.length = keySize) =
          key :: keys.takeWhile fun key => key.length = keySize :=
        List.takeWhile_cons_of_pos (decide_eq_true hlen)
      rw [Readable, ht] at h
      obtain ⟨found, rest, rfl, hf, hrest⟩ := ih fun k hk => h k (List.mem_cons_of_mem _ hk)
      obtain ⟨value, hv⟩ := (h ⟨key, hlen⟩ List.mem_cons_self).exists_get
      refine ⟨(⟨key, hlen⟩, value) :: found, rest, rfl, ?_, hrest⟩
      rintro x hx
      rcases List.mem_cons.mp hx with rfl | hx
      · exact hv
      · exact hf x hx
    · exact ⟨[], key :: keys, rfl, nofun, Or.inr ⟨key, keys, rfl, hlen⟩⟩

theorem lookups_countAll {s t : KvServiceImpl Fn}
    (hh : s.metrics.hitsTotal = t.metrics.hitsTotal)
    (hm : s.metrics.missesTotal = t.metrics.missesTotal) :
    (s.countAll found).metrics.hitsTotal =
        (found.foldl (fun s x => (s.count x.2).settle) t).metrics.hitsTotal ∧
      (s.countAll found).metrics.missesTotal =
        (found.foldl (fun s x => (s.count x.2).settle) t).metrics.missesTotal := by
  induction found generalizing s t with
  | nil => exact ⟨hh, hm⟩
  | cons x found ih =>
    unfold countAll
    rw [List.foldl_cons, List.foldl_cons, ← countAll]
    obtain ⟨k, _ | v⟩ := x
    · exact ih hh (congrArg (· + 1) hm)
    · exact ih (congrArg (· + 1) hh) hm

theorem batchAgrees_of_found (hf : ∀ x ∈ found, s.store.get ph x.1 = .ok x.2) :
    BatchAgrees ph s (found.map fun x => x.1.toList) := by
  have hrun := run_batchGet hf
  have hall : ∀ key ∈ found.map (fun x => x.1.toList), key.length = keySize := by
    intro key hkey
    obtain ⟨x, _, rfl⟩ := List.mem_map.mp hkey
    exact x.1.length_toList
  constructor
  case ok_iff => exact iff_of_true ⟨_, _, hrun⟩ hall
  case entries =>
    intro _
    have hgets := run_gets hf
    have hmap : found.map (fun x => (.ok (.ofLookup x.2) : Except Status GetResponse)) =
        (found.map fun x => GetResponse.ofLookup x.2).map .ok := by rw [List.map_map]; rfl
    rw [hmap] at hgets
    refine ⟨_, _, _, hrun, hgets, ?_, ?_, lookups_countAll rfl rfl⟩
    · rw [List.forall₂_map_left_iff, List.forall₂_map_right_iff, List.forall₂_same]
      exact fun x hx => ⟨_, run_get (hf x hx)⟩
    · intro r hr
      obtain ⟨⟨k, _ | v⟩, _, rfl⟩ := List.mem_map.mp hr
      · rfl
      · exact v.length_toList
  case refused =>
    rintro ⟨key, hkey, hne⟩
    exact absurd (hall key hkey) hne
  case single =>
    intro key he
    obtain ⟨x, rfl, rfl⟩ := List.map_eq_singleton_iff.mp he
    refine ⟨_, _, _, hrun, run_get (hf x (by simp)), fun r => ?_⟩
    simp

theorem batchAgrees_of_length_ne (hf : ∀ x ∈ found, s.store.get ph x.1 = .ok x.2)
    (hne : key.length ≠ keySize) :
    BatchAgrees ph s (found.map (fun x => x.1.toList) ++ key :: rest) := by
  have hrun : (batchGet (found.map (fun x => x.1.toList) ++ key :: rest)).run (Op.exec ph) s = _ :=
    run_batchGet_of_length_ne hf hne
  have hbad : ¬ ∀ k ∈ found.map (fun x => x.1.toList) ++ key :: rest, k.length = keySize :=
    fun h => hne (h key (by simp))
  constructor
  case ok_iff =>
    refine iff_of_false ?_ hbad
    rintro ⟨r, s', hok⟩
    rw [hrun] at hok
    cases hok
  case entries => exact fun h => absurd h hbad
  case refused => exact fun _ => ⟨_, _, hrun⟩
  case single =>
    intro k he
    cases found with
    | nil =>
      cases he
      refine ⟨_, _, _, hrun, run_get_of_length_ne hne, fun r => ?_⟩
      simp
    | cons x found => simp at he

/-- A batch alone does what it is to do exactly if the records of the keys before the first bad
one can be read. -/
theorem batchAgrees_iff : BatchAgrees ph s keys ↔ s.Readable ph keys := by
  constructor
  · intro h k hk
    by_contra hr
    have hrun := run_batchGet_panic hk (KvStore.get_of_not_readable hr)
    by_cases hall : ∀ key ∈ keys, key.length = keySize
    · obtain ⟨r, s', hok⟩ := h.ok_iff.mpr hall
      rw [hrun] at hok
      cases hok
    · simp only [not_forall] at hall
      obtain ⟨key, hkey, hne⟩ := hall
      obtain ⟨message, s', herr⟩ := h.refused ⟨key, hkey, hne⟩
      rw [hrun] at herr
      cases herr
  · intro h
    obtain ⟨found, rest, rfl, hf, rfl | ⟨bad, rest, rfl, hne⟩⟩ := exists_split h
    · rw [List.append_nil]
      exact batchAgrees_of_found hf
    · exact batchAgrees_of_length_ne hf hne

/-- A batch of one key whose record cannot be read does not return. -/
theorem batch_of_wrapped_oneFile : ∃ store, KvStore.open listIndex (oneFile (0 - 320)) = .ok store ∧
    ¬ ((∃ r s', (batchGet [zeroKey.toList]).run (Op.exec listIndex) (new store .new) =
      some (.ok r, s')) ↔ ∀ key ∈ [zeroKey.toList], key.length = keySize) := by
  obtain ⟨store, ho, hc, hd, hg, hl⟩ := exists_wrapped_oneFile
  have hr : ¬ store.Readable listIndex zeroKey := by
    intro h
    have := h 0 hg (by omega)
    omega
  refine ⟨store, ho, fun h => ?_⟩
  obtain ⟨r, s', hok⟩ := h.mpr (by simp)
  rw [run_batchGet_panic (k := zeroKey) (by simp) (KvStore.get_of_not_readable hr)] at hok
  cases hok

end KvServiceImpl

end LowLatencyKv
