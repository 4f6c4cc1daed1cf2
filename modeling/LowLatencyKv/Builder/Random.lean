import LowLatencyKv.Builder.RoundTrip

/-! # Random test data

The command that builds a snapshot of generated records. Each key starts with the
number of its record, so that the keys are distinct whatever the generator yields.
-/

namespace LowLatencyKv

open Rust Tables
open scoped List

/-- The operations of `StdRng`; `fill` writes as many bytes as the slice has. -/
structure StdRng (G : Type) where
  seedFromU64 : UInt64 → G
  fromEntropy : Exec G
  fill : (n : ℕ) → G → Arr UInt8 n × G

section

variable {Fn G : Type} (ph : Ph Fn) (sha256 : Sha256) (env : BuildEnv) (rng : StdRng G)

def StdRng.start (seed : Option UInt64) : Exec G :=
  match seed with
  | some s => .ok (rng.seedFromU64 s)
  | none => rng.fromEntropy

def randomRecord (i : ℕ) (g : G) : (Key × Value) × G :=
  let key := splice (List.replicate keySize 0) 0 (toLeBytes (UInt64.ofNat i))
  let (rest, g) := rng.fill (keySize - 8) g
  let key := splice key 8 rest.toList
  let (value, g) := rng.fill valueSize g
  ((Arr.ofList keySize 0 key, value), g)

def addRandom (s : SnapshotBuilder × G) (i : ℕ) : SnapshotBuilder × G :=
  let (r, g) := randomRecord rng i s.2
  (s.1.addRecord r.1 r.2, g)

/-- Builds a snapshot of `count` generated records. -/
def buildRandom (count : ℕ) (seed : Option UInt64) : Build Unit := do
  let g ← rng.start seed
  let (builder, _) := (List.range count).foldl (addRandom rng) (SnapshotBuilder.new, g)
  builder.build ph sha256 env

end

variable {Fn G : Type} {ph : Ph Fn} {sha256 : Sha256} {rng : StdRng G} {g : G} {count : ℕ}
  {seed : Option UInt64}

/-- The first bytes of a key. -/
def keyStart (r : Key × Value) : List UInt8 := r.1.toList.take 8

theorem take_splice_splice {start : List UInt8} (hs : start.length = 8)
    (rest : Arr UInt8 (keySize - 8)) :
    (Arr.ofList keySize 0 (splice (splice (List.replicate keySize 0) 0 start) 8
      rest.toList)).toList.take 8 = start := by
  have hrest : rest.toList.length = 56 := rest.length_toList
  have hlen : (start ++ rest.toList).length = keySize := by
    rw [List.length_append, hs, hrest]
  have hfit : 0 + start.length + rest.toList.length ≤
      (List.replicate keySize (0 : UInt8)).length := by
    rw [hs, hrest, List.length_replicate]
  have hkey : splice (splice (List.replicate keySize 0) 0 start) 8 rest.toList =
      start ++ rest.toList := by
    have hadj := splice_splice_adjacent start rest.toList hfit
    have hfront := splice_front (List.replicate keySize (0 : UInt8)) []
      (List.length_replicate.trans hlen.symm)
    rw [Nat.zero_add, hs] at hadj
    rw [List.append_nil, List.append_nil] at hfront
    exact hadj.trans hfront
  rw [hkey, Arr.ofList_of_length 0 hlen]
  exact List.take_left' hs

theorem keyStart_randomRecord (i : ℕ) (g : G) :
    keyStart (randomRecord rng i g).1 = toLeBytes (UInt64.ofNat i) :=
  take_splice_splice (length_toLeBytes _) _

theorem foldl_addRandom (rng : StdRng G) (g : G) (n : ℕ) : ∃ rs g',
    (List.range n).foldl (addRandom rng) (SnapshotBuilder.new, g) = (.ofRecords rs, g') ∧
      rs.map keyStart = (List.range n).map fun i => toLeBytes (UInt64.ofNat i) := by
  induction n with
  | zero => exact ⟨[], g, rfl, rfl⟩
  | succ n ih =>
    obtain ⟨rs, g', hrs, hstart⟩ := ih
    refine ⟨rs ++ [(randomRecord rng n g').1], (randomRecord rng n g').2, ?_, ?_⟩
    · rw [List.range_succ, List.foldl_concat, hrs]
      unfold addRandom SnapshotBuilder.ofRecords
      rw [List.foldl_concat]
    · rw [List.range_succ, List.map_append, List.map_append, hstart, List.map_singleton,
        keyStart_randomRecord]
      rfl

theorem nodup_starts {n : ℕ} (hn : n ≤ 2 ^ 64) :
    ((List.range n).map fun i => toLeBytes (UInt64.ofNat i)).Nodup := by
  refine List.Nodup.map_on ?_ List.nodup_range
  rintro i hi j hj h
  have hi' := List.mem_range.mp hi
  have hj' := List.mem_range.mp hj
  have he : UInt64.ofNat i = UInt64.ofNat j := by
    rw [← wordAt_cons_zero (UInt64.ofNat i) [], h, wordAt_cons_zero]
  have hin : (UInt64.ofNat i).toNat = i := UInt64.toNat_ofNat_of_lt' (by omega : _ < 2 ^ 64)
  have hjn : (UInt64.ofNat j).toNat = j := UInt64.toNat_ofNat_of_lt' (by omega : _ < 2 ^ 64)
  rw [← hin, he, hjn]

theorem nodup_keys_of_starts {rs : List (Key × Value)} {n : ℕ} (hn : n ≤ 2 ^ 64)
    (h : rs.map keyStart = (List.range n).map fun i => toLeBytes (UInt64.ofNat i)) :
    (rs.map Prod.fst).Nodup := by
  have hd := nodup_starts hn
  have hk : rs.map keyStart = (rs.map Prod.fst).map fun k => k.toList.take 8 := by
    rw [List.map_map]
    rfl
  rw [← h, hk] at hd
  exact hd.of_map

/-- Whatever the generator yields, as many records are found as were asked for, one for each
number; no records are refused. -/
theorem random_build (sha256 : Sha256) (hs : rng.start seed = .ok g) (hn : count ≤ 10000000000)
    (hph : ∀ keys : List Key, keys.Nodup → keys.length = count → ∃ fn image,
      ph.Indexes keys fn image ∧ 4096 + (8 + image.length) + 4095 + 320 * count < 2 ^ 64) :
    (count = 0 → ∀ env s, ∃ e, buildRandom ph sha256 env rng count seed s = (.err e, s)) ∧
      (0 < count → ∀ t old, ∃ f log st l,
        buildRandom ph sha256 (.faultless t) rng count seed ⟨old, []⟩ =
          (.ok (), ⟨some f, log⟩) ∧ KvStore.open ph f = .ok st ∧ st.iter = .ok l ∧
        l.map keyStart ~ (List.range count).map (fun i => toLeBytes (UInt64.ofNat i)) ∧
        ∀ k v, (k, v) ∈ l ↔ st.get ph k = .ok (some v)) := by
  obtain ⟨rs, g', hrs, hstart⟩ := foldl_addRandom rng g count
  have hlen : rs.length = count := by simpa using congrArg List.length hstart
  have hd := nodup_keys_of_starts (by omega) hstart
  have hb (env : BuildEnv) : buildRandom ph sha256 env rng count seed =
      (SnapshotBuilder.ofRecords rs).build ph sha256 env := by
    unfold buildRandom
    rw [Eff.liftM_exec_bind hs, hrs]
  constructor
  · rintro h0 env s
    obtain rfl : rs = [] := List.eq_nil_of_length_eq_zero (hlen.trans h0)
    exact ⟨_, by rw [hb]; rfl⟩
  · rintro hpos t old
    obtain ⟨fn, image, hi, hsz⟩ := hph (rs.map Prod.fst) hd (by rwa [List.length_map])
    have hne : rs ≠ [] := List.ne_nil_of_length_pos (by omega)
    obtain ⟨f, log, hrun, hf, _⟩ := build_faultless sha256 t hne hi (by omega) old
    obtain ⟨st, ho, hr⟩ := hf.represents (by omega) hd
    obtain ⟨l, hl, hp⟩ := hr.iter_perm
    refine ⟨f, _, st, l, by rw [hb, hrun], ho, hl, hstart ▸ hp.map keyStart, fun k v => ?_⟩
    obtain ⟨r, hget, hv⟩ := hr.get_iff k
    rw [hp.mem_iff, hget, ← hv, Outcome.ok.injEq]

/-- A generator that only yields zeros. -/
def zeroRng : StdRng Unit where
  seedFromU64 _ := ()
  fromEntropy := .panic
  fill n g := (Arr.replicate n 0, g)

theorem random_build_zeroRng : ∃ f log st l,
    buildRandom listIndex twoDigest (.faultless 0) zeroRng 3 (some 7) ⟨none, []⟩ =
      (.ok (), ⟨some f, log⟩) ∧ KvStore.open listIndex f = .ok st ∧ st.iter = .ok l ∧
    l.map keyStart ~ (List.range 3).map (fun i => toLeBytes (UInt64.ofNat i)) := by
  have hph : ∀ keys : List Key, keys.Nodup → keys.length = 3 → ∃ fn image,
      listIndex.Indexes keys fn image ∧ 4096 + (8 + image.length) + 4095 + 320 * 3 < 2 ^ 64 := by
    rintro keys hd hl
    refine ⟨_, _, listIndex_indexes hd (by omega), ?_⟩
    rw [ListIndex.length_write]
    omega
  have hs : zeroRng.start (some 7) = .ok () := rfl
  obtain ⟨_, h⟩ := random_build twoDigest hs (by decide) hph
  obtain ⟨f, log, st, l, hrun, ho, hl, hp, _⟩ := h (by decide) 0 none
  exact ⟨f, log, st, l, hrun, ho, hl, hp⟩

end LowLatencyKv
