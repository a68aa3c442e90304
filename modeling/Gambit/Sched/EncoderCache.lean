import Gambit.Config
import Gambit.Lib.Dict
import Gambit.Lib.Machine

/-!
# The encoder cache

Model of `vllm/v1/core/encoder_cache_manager.py` and of the places of the scheduler that call it:
`_try_schedule_encoder_inputs` decides which inputs of a request are to be encoded, and may evict for them;
block allocation follows, which may preempt other requests and free their references; only then are the
inputs allocated. References are released when a request is preempted, finished or aborted, and when its
inputs are computed (`_free_encoder_inputs`).

A set is a list without repetitions. A `KeyError` and a failed assertion are the same error. Left out:
logging, the calls on the remote cache other than the question what it has, and the rest of the scheduler:
which requests are tried and which are granted their inputs is open.
-/

namespace Gambit.Sched
open Gambit.Lib

/-- A content hash (Python `identifier`). -/
abbrev MMHash := List Char

/-- Python `MultiModalFeatureSpec`, with the placement of its item. -/
structure MMFeature where
  identifier : MMHash
  offset : Nat
  length : Nat
  deriving DecidableEq

/-- Python `Request`, as the encoder cache reads it. -/
structure EncoderRequest where
  requestId : ReqId
  mmFeatures : List MMFeature
  deriving DecidableEq

/-- Python `EncoderCacheManager`. -/
structure EncoderCacheManager where
  cacheSize : Nat
  numFreeSlots : Int := cacheSize
  numFreeableSlots : Int := cacheSize
  cached : Dict MMHash (List ReqId) := ∅
  freeable : Dict MMHash Nat := ∅
  freed : List MMHash := []

namespace EncoderCacheManager

/-- Python `check_and_update_cache`, on the hash of the input. -/
def checkAndUpdateCache (m : EncoderCacheManager) (r : EncoderRequest) (h : MMHash) :
    Except Unit (EncoderCacheManager × Bool) :=
  match m.cached.get? h with
  | none => .ok (m, false)
  | some [] =>
    match m.freeable.get? h with
    | none => .error ()
    | some n =>
      .ok ({ m with
        freeable := m.freeable.erase h
        numFreeableSlots := m.numFreeableSlots - n
        cached := m.cached.set h [r.requestId] }, true)
  | some refs => .ok ({ m with cached := m.cached.set h (refs.insert r.requestId) }, true)

/-- The loop of `can_allocate`, over the entries of `freeable` that are left. -/
def evictFor (n : Nat) : List (MMHash × Nat) → EncoderCacheManager → Except Unit EncoderCacheManager
  | [], m => if m.numFreeSlots < n then .error () else .ok m
  | (h, t) :: rest, m =>
    if m.numFreeSlots < n then
      if h ∈ m.cached then
        evictFor n rest { m with
          freeable := m.freeable.erase h
          cached := m.cached.erase h
          freed := m.freed ++ [h]
          numFreeSlots := m.numFreeSlots + t }
      else .error ()
    else .ok m

/-- Python `can_allocate`, on the number of tokens of the input. -/
def canAllocate (m : EncoderCacheManager) (numTokens budget toSchedule : Nat) :
    Except Unit (EncoderCacheManager × Bool) :=
  if budget < numTokens then .ok (m, false)
  else
    let n := numTokens + toSchedule
    if n ≤ m.numFreeSlots then .ok (m, true)
    else if m.numFreeableSlots < n then .ok (m, false)
    else do
      let m ← evictFor n m.freeable.entries m
      .ok (m, true)

/-- Python `allocate`. -/
def allocate (m : EncoderCacheManager) (r : EncoderRequest) (f : MMFeature) :
    Except Unit EncoderCacheManager :=
  if f.length ≤ m.numFreeSlots ∧ f.length ≤ m.numFreeableSlots then
    .ok { m with
      cached := m.cached.set f.identifier ((m.cached.getD f.identifier []).insert r.requestId)
      numFreeSlots := m.numFreeSlots - f.length
      numFreeableSlots := m.numFreeableSlots - f.length }
  else .error ()

/-- Python `get_cached_input_ids`, the inputs themselves. -/
def getCachedInputs (m : EncoderCacheManager) (r : EncoderRequest) : List MMFeature :=
  r.mmFeatures.filter fun f => f.identifier ∈ m.cached

/-- Python `free_encoder_input`. -/
def freeEncoderInput (m : EncoderCacheManager) (r : EncoderRequest) (f : MMFeature) : EncoderCacheManager :=
  match m.cached.get? f.identifier with
  | none | some [] => m
  | some refs =>
    let m := { m with cached := m.cached.set f.identifier (refs.erase r.requestId) }
    if (refs.erase r.requestId).isEmpty then
      { m with
        freeable := m.freeable.set f.identifier f.length
        numFreeableSlots := m.numFreeableSlots + f.length }
    else m

/-- Python `free`. -/
def free (m : EncoderCacheManager) (r : EncoderRequest) : EncoderCacheManager :=
  (m.getCachedInputs r).foldl (fun m f => m.freeEncoderInput r f) m

end EncoderCacheManager

/-- The options of the scheduler that decide what is encoded. -/
structure EncoderConfig where
  isEncoderDecoder : Bool := false
  disableChunkedMmInput : Bool := false

/-- The local variables of `_try_schedule_encoder_inputs`. -/
structure TrySchedule where
  mgr : EncoderCacheManager
  numNewTokens : Nat
  budget : Nat
  /-- `encoder_inputs_to_schedule`. -/
  toSchedule : List MMFeature := []
  /-- `external_load_encoder_input`. -/
  external : List MMFeature := []
  hashes : List MMHash := []
  numTokens : Nat := 0

variable (cfg : EncoderConfig) (r : EncoderRequest) (numComputed : Nat) (remote : MMFeature → Bool)

/-- What the loop does after the checks on the cache: look for room, and take the input if there is. The
flag says whether the loop goes on. -/
def takeInput (s : TrySchedule) (f : MMFeature) : Except Unit (TrySchedule × Bool) :=
  if cfg.disableChunkedMmInput ∧ numComputed < f.offset ∧ numComputed + s.numNewTokens < f.offset + f.length then
    .ok ({ s with numNewTokens := f.offset - numComputed }, false)
  else do
    let (m, ok) ← s.mgr.canAllocate f.length s.budget s.numTokens
    let s := { s with mgr := m }
    if !ok then
      .ok ({ s with numNewTokens := if numComputed < f.offset then f.offset - numComputed else 0 }, false)
    else
      let s := { s with numTokens := s.numTokens + f.length, hashes := f.identifier :: s.hashes }
      if remote f then .ok ({ s with external := s.external ++ [f] }, true)
      else .ok ({ s with budget := s.budget - f.length, toSchedule := s.toSchedule ++ [f] }, true)

/-- The body of the loop of `_try_schedule_encoder_inputs`. -/
def tryInput (s : TrySchedule) (f : MMFeature) : Except Unit (TrySchedule × Bool) :=
  if numComputed + s.numNewTokens ≤ f.offset then .ok (s, false)
  else if cfg.isEncoderDecoder ∧ 0 < numComputed then
    if f.offset = 0 then .ok (s, true) else .error ()
  else if f.offset + f.length ≤ numComputed then .ok (s, true)
  else if cfg.isEncoderDecoder then takeInput cfg numComputed remote s f
  else if f.identifier ∈ s.hashes then .ok (s, true)
  else do
    let (m, hit) ← s.mgr.checkAndUpdateCache r f.identifier
    let s := { s with mgr := m }
    if hit then .ok (s, true) else takeInput cfg numComputed remote s f

/-- The loop of `_try_schedule_encoder_inputs`. -/
def tryInputs : List MMFeature → TrySchedule → Except Unit TrySchedule
  | [], s => .ok s
  | f :: rest, s => do
    let (s, go) ← tryInput cfg r numComputed remote s f
    if go then tryInputs rest s else .ok s

/-- Python `_try_schedule_encoder_inputs`. -/
def tryScheduleEncoderInputs (numNewTokens budget : Nat) (m : EncoderCacheManager) : Except Unit TrySchedule :=
  let s : TrySchedule := { mgr := m, numNewTokens := numNewTokens, budget := budget }
  if numNewTokens = 0 ∨ r.mmFeatures.isEmpty then .ok s else tryInputs cfg r numComputed remote r.mmFeatures s

/-- Python `_free_encoder_inputs`. -/
def freeEncoderInputs (m : EncoderCacheManager) : EncoderCacheManager :=
  (m.getCachedInputs r).foldl (fun m f =>
    if (cfg.isEncoderDecoder ∧ 0 < numComputed) ∨ f.offset + f.length ≤ numComputed then
      m.freeEncoderInput r f
    else m) m

/-- The cache between two calls, and the inputs that `_try_schedule_encoder_inputs` returned and that are
not allocated yet. -/
structure EncoderState where
  mgr : EncoderCacheManager
  pending : List (EncoderRequest × MMFeature) := []

/-- A call of the scheduler on the encoder cache. -/
inductive EncoderEvent where
  /-- A request is tried; what was returned for an earlier one and not allocated is dropped. -/
  | trySchedule (r : EncoderRequest) (numComputed numNewTokens budget : Nat) (remote : List MMFeature)
  /-- The next input of the request is allocated. -/
  | allocate
  /-- A request is preempted, finished or aborted. -/
  | free (r : EncoderRequest)
  /-- The inputs of a scheduled request that are computed are released. -/
  | freeInputs (r : EncoderRequest) (numComputed : Nat)
  /-- The evicted entries go into the output of the scheduler. -/
  | getFreed
  deriving DecidableEq

/-- What a call answers. -/
inductive EncoderOutput where
  | done
  | freed (hashes : List MMHash)
  | raised
  deriving DecidableEq

namespace EncoderState

/-- The state after a call that may raise. -/
def settle (s : EncoderState) : Except Unit EncoderState → EncoderState × EncoderOutput
  | .ok s' => (s', .done)
  | .error _ => (s, .raised)

/-- The state after a call, and its answer. -/
def next (cfg : EncoderConfig) (s : EncoderState) : EncoderEvent → EncoderState × EncoderOutput
  | .trySchedule r numComputed numNewTokens budget remote =>
    s.settle do
      let t ← tryScheduleEncoderInputs cfg r numComputed (· ∈ remote) numNewTokens budget s.mgr
      .ok { mgr := t.mgr, pending := (t.toSchedule ++ t.external).map (r, ·) }
  | .allocate =>
    match s.pending with
    | [] => (s, .done)
    | (r, f) :: rest =>
      s.settle do
        let m ← s.mgr.allocate r f
        .ok { mgr := m, pending := rest }
  | .free r => ({ s with mgr := s.mgr.free r }, .done)
  | .freeInputs r numComputed => ({ s with mgr := freeEncoderInputs cfg r numComputed s.mgr }, .done)
  | .getFreed => ({ s with mgr := { s.mgr with freed := [] } }, .freed s.mgr.freed)

end EncoderState

/-- A scheduler with an empty encoder cache. -/
abbrev encoderMachine (cfg : EncoderConfig) (cacheSize : Nat) :
    Machine EncoderState EncoderEvent EncoderOutput where
  init := { mgr := { cacheSize := cacheSize } }
  next s e := s.next cfg e
  ok _ _ := True

end Gambit.Sched
