import LowLatencyKv.Server.Counters

/-! # Hits, misses and refused batches

A batch is checked key by key, between lookups that are already counted. Hits and
misses agree with the entries sent to clients exactly if every batch with a bad
key has a bad first key.
-/

namespace LowLatencyKv

open Rust Concurrency

variable {Fn : Type} {ph : Ph Fn} {store : KvStore Fn} {tr : List (KvEvent Fn)}
  {p : Pool (Op Fn) Op.Ans (KvServiceImpl Fn) (Except Status Response)}

/-- If the request is a batch with a bad key, its first key is bad. -/
def Request.BadFirst : Request → Prop
  | .get _ => True
  | .batchGet keys => (∀ key ∈ keys, key.length = keySize) ∨
      ∃ bad rest, keys = bad :: rest ∧ bad.length ≠ keySize

theorem Request.BadFirst.eq_nil {req : Request} {found : List (Key × Option Value)}
    {bad : List UInt8} {rest : List (List UInt8)} (hc : req.BadFirst)
    (hk : req.keys = found.map (fun x => x.1.toList) ++ bad :: rest)
    (hb : bad.length ≠ keySize) : found = [] := by
  cases found with
  | nil => rfl
  | cons x found =>
    cases req with
    | get key => simp [Request.keys] at hk
    | batchGet keys =>
      obtain rfl : keys = _ := hk
      rcases hc with hall | ⟨bad', rest', he, hb'⟩
      · exact absurd (hall bad (by simp)) hb
      · obtain ⟨rfl, _⟩ := List.cons.inj he
        exact absurd x.1.length_toList hb'

/-- In a run without open calls, hits and misses agree with the entries sent, and refused calls
only count an error, exactly if no refused batch starts with a good key. -/
theorem lookup_counts_iff (hr : Run (kvService ph).Step ⟨.new store .new, []⟩ tr p)
    (hq : Service.Quiet p) :
    (p.shared.metrics.hitsTotal = (Reply.entries tr).countP (·.found) ∧
      p.shared.metrics.missesTotal = (Reply.entries tr).countP (!·.found) ∧
      ∀ id message, .ret id (.error (.invalidArgument message)) ∈ tr →
        counted (stepsOf id tr) = [⟨.incrementErrors, ()⟩]) ↔
    ∀ id req, .call id req ∈ tr → req.BadFirst := by
  constructor
  · rintro ⟨_, _, herr⟩ id req hm
    obtain ⟨r, hrm, (hret : (KvServiceImpl.handle req).Returns _ r)⟩ :=
      Service.exists_returns_of_call hr hq hm
    cases req with
    | get key => trivial
    | batchGet keys =>
      rcases r with status | resp
      · obtain ⟨found, bad, rest, hk, hb, hh, message, rfl⟩ :=
          KvServiceImpl.counted_of_handle_err hret
        rw [herr id message hrm] at hh
        cases found with
        | nil => exact Or.inr ⟨bad, rest, hk, hb⟩
        | cons x found => simp [lookupCounts] at hh
      · obtain ⟨found, hk, _, _⟩ := KvServiceImpl.counted_of_handle hret
        refine Or.inl fun key hkey => ?_
        obtain rfl : keys = _ := hk
        obtain ⟨x, _, rfl⟩ := List.mem_map.mp hkey
        exact x.1.length_toList
  · intro hclean
    have hnil {id : ℕ} {req : Request} {status : Status} (hm : .call id req ∈ tr)
        (hret : (KvServiceImpl.handle req).Returns (stepsOf id tr) (.error status)) :
        counted (stepsOf id tr) = [⟨.incrementErrors, ()⟩] := by
      obtain ⟨found, bad, rest, hk, hb, hh, _⟩ := KvServiceImpl.counted_of_handle_err hret
      obtain rfl := (hclean id req hm).eq_nil hk hb
      exact hh
    have hread {c : Counter} (hc : c = .hits ∨ c = .misses) :
        p.shared.metrics.read c = c.ofEntries (Reply.entries tr) := by
      rw [read_of_run hr, ← total_entries hc]
      refine Service.total_of_quiet hr hq fun id req r hm hret => ?_
      rcases r with status | resp
      · rw [← total_counted, hnil hm hret]
        rcases hc with rfl | rfl <;> rfl
      · exact KvServiceImpl.total_of_handle hret c
    refine ⟨hread (Or.inl rfl), hread (Or.inr rfl), fun id message hm => ?_⟩
    obtain ⟨req, hcall, hret⟩ := Service.exists_returns_of_ret hr hm
    exact hnil hcall hret

/-- A batch of a stored key and an empty one. -/
def refusedRun : List (KvEvent (List Key)) :=
  [.call 0 (.batchGet [(flatRecord 1).key.toList, []]), .step 0 ⟨.load, flatStore 1⟩,
    .step 0 ⟨.get (flatStore 1) (flatRecord 1).key, some (flatRecord 1).value⟩,
    .step 0 ⟨.incrementHits, ()⟩, .step 0 ⟨.incrementErrors, ()⟩,
    .ret 0 (.error (.invalidArgument s!"All keys must be exactly {keySize} bytes"))]

set_option maxRecDepth 4000 in
theorem run_refusedRun :
    ∃ p, Run (kvService listIndex).Step ⟨.new (flatStore 1) .new, []⟩ refusedRun p ∧
      Service.Quiet p ∧ p.shared.metrics = ⟨0, 1, 0, 1, 0⟩ := by
  refine ⟨_, (((((Run.nil.snoc (.call _)).snoc (.step rfl rfl)).snoc
    (.step rfl (exec_get_flatStore 1 _))).snoc (.step rfl rfl)).snoc (.step rfl rfl)).snoc
    (.ret rfl), ?_, rfl⟩
  rintro c hc
  exact ⟨_, List.mem_singleton.mp hc⟩

theorem lookup_counts_iff_refusedRun :
    ∃ p, Run (kvService listIndex).Step ⟨.new (flatStore 1) .new, []⟩ refusedRun p ∧
      ((p.shared.metrics.hitsTotal = (Reply.entries refusedRun).countP (·.found) ∧
        p.shared.metrics.missesTotal = (Reply.entries refusedRun).countP (!·.found) ∧
        ∀ id message, .ret id (.error (.invalidArgument message)) ∈ refusedRun →
          counted (stepsOf id refusedRun) = [⟨.incrementErrors, ()⟩]) ↔
      ∀ id req, .call id req ∈ refusedRun → req.BadFirst) := by
  obtain ⟨p, hr, hq, _⟩ := run_refusedRun
  exact ⟨p, hr, lookup_counts_iff hr hq⟩

/-- A refused batch has counted a hit that no client was told of. -/
theorem hit_of_refusedRun :
    ∃ p, Run (kvService listIndex).Step ⟨.new (flatStore 1) .new, []⟩ refusedRun p ∧
      Service.Quiet p ∧ p.shared.metrics.hitsTotal = 1 ∧ Reply.entries refusedRun = [] ∧
      counted (stepsOf 0 refusedRun) ≠ [⟨.incrementErrors, ()⟩] := by
  obtain ⟨p, hr, hq, hm⟩ := run_refusedRun
  refine ⟨p, hr, hq, by rw [hm], rfl, fun h => ?_⟩
  exact absurd (congrArg List.length h) (by decide)

end LowLatencyKv
