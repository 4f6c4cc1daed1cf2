import LowLatencyKv.Concurrency.Pool
import LowLatencyKv.Store.KvStore

/-! # The service

The handlers of `Get` and `BatchGet` as threads over the current store and the
metrics. Each load of the store, each lookup and each count is one step.
-/

namespace LowLatencyKv

open Rust Concurrency

/-- The counters, and how many latencies were observed. -/
structure Metrics where
  requestsTotal : ℕ
  hitsTotal : ℕ
  missesTotal : ℕ
  errorsTotal : ℕ
  latency : ℕ
  deriving DecidableEq, Repr

namespace Metrics

def new : Metrics := ⟨0, 0, 0, 0, 0⟩

variable (m : Metrics)

def incrementRequests : Metrics := { m with requestsTotal := m.requestsTotal + 1 }

def incrementHits : Metrics := { m with hitsTotal := m.hitsTotal + 1 }

def incrementMisses : Metrics := { m with missesTotal := m.missesTotal + 1 }

def incrementErrors : Metrics := { m with errorsTotal := m.errorsTotal + 1 }

def recordLatency : Metrics := { m with latency := m.latency + 1 }

end Metrics

structure GetResponse where
  found : Bool
  value : List UInt8
  deriving DecidableEq, Repr

structure BatchGetResponse where
  results : List GetResponse
  deriving DecidableEq, Repr

inductive Request where
  | get (key : List UInt8)
  | batchGet (keys : List (List UInt8))
  deriving DecidableEq, Repr

inductive Response where
  | get (response : GetResponse)
  | batchGet (response : BatchGetResponse)
  deriving DecidableEq, Repr

inductive Status where
  | invalidArgument (message : String)
  | internal (message : String)
  deriving DecidableEq, Repr

variable {Fn : Type}

structure KvServiceImpl (Fn : Type) where
  store : KvStore Fn
  metrics : Metrics

/-- What a handler asks of the service. A lookup reads a store that was loaded before. -/
inductive Op (Fn : Type) where
  | load
  | get (store : KvStore Fn) (key : Key)
  | incrementRequests
  | incrementHits
  | incrementMisses
  | incrementErrors
  | recordLatency

def Op.Ans : Op Fn → Type
  | .load => KvStore Fn
  | .get _ _ => Option Value
  | _ => Unit

/-- A lookup that panics ends the process. It is no step, so that a run of the service is one up to
the first panic. -/
def Op.exec (ph : Ph Fn) : (op : Op Fn) → KvServiceImpl Fn → Option (op.Ans × KvServiceImpl Fn)
  | .load, s => some (s.store, s)
  | .get store key, s =>
    match store.get ph key with
    | .ok value => some (value, s)
    | .panic => none
  | .incrementRequests, s => some ((), { s with metrics := s.metrics.incrementRequests })
  | .incrementHits, s => some ((), { s with metrics := s.metrics.incrementHits })
  | .incrementMisses, s => some ((), { s with metrics := s.metrics.incrementMisses })
  | .incrementErrors, s => some ((), { s with metrics := s.metrics.incrementErrors })
  | .recordLatency, s => some ((), { s with metrics := s.metrics.recordLatency })

abbrev Handler (Fn : Type) : Type → Type := Thread (Op Fn) Op.Ans

namespace Handler

def load : Handler Fn (KvStore Fn) := .perform Op.load

def find (store : KvStore Fn) (key : Key) : Handler Fn (Option Value) := .perform (Op.get store key)

def incrementRequests : Handler Fn Unit := .perform Op.incrementRequests

def incrementHits : Handler Fn Unit := .perform Op.incrementHits

def incrementMisses : Handler Fn Unit := .perform Op.incrementMisses

def incrementErrors : Handler Fn Unit := .perform Op.incrementErrors

def recordLatency : Handler Fn Unit := .perform Op.recordLatency

/-- Look up a key, count the hit or miss and fill in the response. -/
def lookup (store : KvStore Fn) (key : Key) : Handler Fn GetResponse := do
  match ← find store key with
  | some value => do
    incrementHits
    return { found := true, value := value.toList }
  | none => do
    incrementMisses
    return { found := false, value := [] }

end Handler

/-- `key.as_slice().try_into()`. -/
def keyOf (key : List UInt8) : Option Key :=
  if h : key.length = keySize then some ⟨key, h⟩ else none

namespace KvServiceImpl

open Handler

def new (store : KvStore Fn) (metrics : Metrics) : KvServiceImpl Fn := { store, metrics }

def reload (newStore : KvStore Fn) (s : KvServiceImpl Fn) : KvServiceImpl Fn :=
  { s with store := newStore }

/-- The key is checked before the store is loaded. -/
def get (key : List UInt8) : Handler Fn (Except Status GetResponse) := do
  if key.length ≠ keySize then
    incrementErrors
    return .error (.invalidArgument s!"Key must be exactly {keySize} bytes, got {key.length}")
  match keyOf key with
  | none => do
    incrementErrors
    return .error (.internal "Key conversion failed")
  | some key => do
    let store ← load
    let response ← lookup store key
    recordLatency
    incrementRequests
    return .ok response

/-- The loop over the keys, with the results so far. A bad key ends it. -/
def batchLoop (store : KvStore Fn) :
    List (List UInt8) → List GetResponse → Handler Fn (Except Status (List GetResponse))
  | [], results => return .ok results
  | key :: keys, results => do
    if key.length ≠ keySize then
      incrementErrors
      return .error (.invalidArgument s!"All keys must be exactly {keySize} bytes")
    match keyOf key with
    | none => do
      incrementErrors
      return .error (.internal "Key conversion failed")
    | some key => do
      let result ← lookup store key
      batchLoop store keys (results ++ [result])

/-- The store is loaded once, before any key is checked. -/
def batchGet (keys : List (List UInt8)) : Handler Fn (Except Status BatchGetResponse) := do
  let store ← load
  match ← batchLoop store keys [] with
  | .error status => return .error status
  | .ok results => do
    recordLatency
    incrementRequests
    return .ok { results }

def handle : Request → Handler Fn (Except Status Response)
  | .get key => do return (← get key).map .get
  | .batchGet keys => do return (← batchGet keys).map .batchGet

end KvServiceImpl

def kvService (ph : Ph Fn) : Service (Op Fn) Op.Ans (KvServiceImpl Fn) Request
    (Except Status Response) (KvStore Fn) where
  handle := KvServiceImpl.handle
  exec := Op.exec ph
  act := KvServiceImpl.reload

section Exec

variable {ph : Ph Fn} {op : Op Fn} {s s' : KvServiceImpl Fn} {store : KvStore Fn} {key : Key}

theorem Op.exec_store {x : op.Ans} (h : op.exec ph s = some (x, s')) : s'.store = s.store := by
  cases op with
  | get store key =>
    rw [Op.exec] at h
    split at h
    · cases h
      rfl
    · exact nomatch h
  | _ =>
    cases h
    rfl

theorem Op.exec_get {value : Option Value} (h : store.get ph key = .ok value) :
    (Op.get store key).exec ph s = some (value, s) := by
  rw [Op.exec, h]
  rfl

theorem Op.exec_get_panic (h : store.get ph key = .panic) :
    (Op.get store key).exec ph s = none := by
  rw [Op.exec, h]

theorem Op.get_of_exec {value : Option Value}
    (h : (Op.get store key).exec ph s = some (value, s')) : store.get ph key = .ok value := by
  rw [Op.exec] at h
  split at h
  · next hg =>
    cases h
    exact hg
  · exact nomatch h

end Exec

def GetResponse.ofLookup : Option Value → GetResponse
  | some value => { found := true, value := value.toList }
  | none => { found := false, value := [] }

def Op.countOf : Option Value → Sigma (@Op.Ans Fn)
  | some _ => ⟨.incrementHits, ()⟩
  | none => ⟨.incrementMisses, ()⟩

variable {store : KvStore Fn} {key : Key} {value : Option Value} {h : List (Sigma (@Op.Ans Fn))}
  {r : GetResponse} {keys : List (List UInt8)} {u : Unit}

namespace Handler

theorem returns_load_iff : (load : Handler Fn _).Returns h store ↔ h = [⟨.load, store⟩] :=
  Thread.returns_perform_iff

theorem returns_find_iff : (find store key).Returns h value ↔ h = [⟨.get store key, value⟩] :=
  Thread.returns_perform_iff

theorem returns_incrementRequests_iff :
    (incrementRequests : Handler Fn _).Returns h u ↔ h = [⟨.incrementRequests, u⟩] :=
  Thread.returns_perform_iff

theorem returns_incrementHits_iff :
    (incrementHits : Handler Fn _).Returns h u ↔ h = [⟨.incrementHits, u⟩] :=
  Thread.returns_perform_iff

theorem returns_incrementMisses_iff :
    (incrementMisses : Handler Fn _).Returns h u ↔ h = [⟨.incrementMisses, u⟩] :=
  Thread.returns_perform_iff

theorem returns_incrementErrors_iff :
    (incrementErrors : Handler Fn _).Returns h u ↔ h = [⟨.incrementErrors, u⟩] :=
  Thread.returns_perform_iff

theorem returns_recordLatency_iff :
    (recordLatency : Handler Fn _).Returns h u ↔ h = [⟨.recordLatency, u⟩] :=
  Thread.returns_perform_iff

attribute [simp] returns_load_iff returns_find_iff returns_incrementRequests_iff
  returns_incrementHits_iff returns_incrementMisses_iff returns_incrementErrors_iff
  returns_recordLatency_iff

@[simp] theorem returns_lookup_iff : (lookup store key).Returns h r ↔
    ∃ value, h = [⟨.get store key, value⟩, Op.countOf value] ∧ r = .ofLookup value := by
  rw [lookup, Thread.returns_bind_iff]
  constructor
  · rintro ⟨_, value, hf, h₂, hr, rfl⟩
    rw [returns_find_iff] at hf
    subst hf
    refine ⟨value, ?_⟩
    rcases value with _ | v
    all_goals
      simp at hr
      obtain ⟨⟨_, rfl⟩, rfl⟩ := hr
      exact ⟨rfl, rfl⟩
  · rintro ⟨value, rfl, rfl⟩
    refine ⟨_, value, returns_find_iff.mpr rfl, [Op.countOf value], ?_, rfl⟩
    rcases value with _ | v <;> simp [Op.countOf, GetResponse.ofLookup]

end Handler

end LowLatencyKv
