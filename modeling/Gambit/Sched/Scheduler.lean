import Gambit.Lib.Dict
import Gambit.Sched.Request

/-!
# The scheduler: state and single operations

Model of the state of `vllm/v1/core/sched/scheduler.py` (`Scheduler`), of the request queues of
`request_queue.py` and of the operations that add, finish, preempt and evict requests.

Python holds each `Request` once and refers to it from `requests`, `waiting` and `running`. Here
`requests` is the store and the two queues hold ids, so a mutation of a request is an update of the
store. The KV cache manager and the encoder cache manager are a parameter `Caches μ β`: their state
`μ` is threaded through every call and their answers decide what is scheduled, but nothing is
assumed about them. A priority queue is the list of its requests in the order it pops them.

The heap of a priority queue holds `(priority, arrival_time, request)`, and Python raises a `TypeError` when it
compares two entries with the same key, as requests have no order. The model never raises: it pops such
requests in the order they were pushed. `KeysApart` says of a state that nothing ties; what is said about
PRIORITY without it only holds of the calls that do not raise.

Left out: KV and EC connectors (`connector` and `ec_connector` are `None`), statistics and events,
and the per-client finished sets of the multi-engine case.
-/

namespace Gambit.Sched
open Gambit.Lib

/-- The KV cache manager and the encoder cache manager as the scheduler calls them: states `μ`,
blocks `β`. -/
structure Caches (μ β : Type) where
  /-- Python `KVCacheManager.get_computed_blocks`. -/
  getComputedBlocks : μ → Request → β × Nat
  /-- Python `KVCacheManager.allocate_slots`: new tokens, new computed tokens, new computed blocks,
  lookahead tokens, encoder tokens. -/
  allocateSlots : μ → Request → Int → Nat → Option β → Nat → Int → μ × Option β
  /-- Python `KVCacheManager.free`. -/
  freeBlocks : μ → Request → μ
  /-- Python `KVCacheManager.get_blocks`. -/
  getBlocks : μ → ReqId → β
  /-- Python `Scheduler._try_schedule_encoder_inputs`: computed tokens, new tokens and budget give
  the inputs to schedule, the new tokens and the budget left. -/
  tryScheduleEncoderInputs : μ → Request → Int → Int → Int → μ × List Nat × Int × Int
  /-- Python `EncoderCacheManager.allocate`. -/
  allocateEncoder : μ → Request → Nat → μ
  /-- Python `EncoderCacheManager.free`. -/
  freeEncoder : μ → Request → μ
  /-- Python `Scheduler._free_encoder_inputs`. -/
  freeEncoderInputs : μ → Request → μ

/-- Cache managers with unlimited memory and nothing cached. -/
def Caches.unbounded : Caches Unit Unit where
  getComputedBlocks _ _ := ((), 0)
  allocateSlots _ _ _ _ _ _ _ := ((), some ())
  freeBlocks _ _ := ()
  getBlocks _ _ := ()
  tryScheduleEncoderInputs _ _ _ numNew budget := ((), [], numNew, budget)
  allocateEncoder _ _ _ := ()
  freeEncoder _ _ := ()
  freeEncoderInputs _ _ := ()

/-- A cache manager of `capacity` blocks of one token each, without prefix caching and encoders; the
state is the number of blocks of each request. -/
def Caches.bounded (capacity : Nat) : Caches (Dict ReqId Nat) Unit where
  getComputedBlocks _ _ := ((), 0)
  allocateSlots m r numNew _ _ lookahead _ :=
    let need := max (m.getD r.requestId 0) ((r.numComputedTokens + numNew).toNat + lookahead)
    if (m.erase r.requestId).values.sum + need ≤ capacity then (m.set r.requestId need, some ())
    else (m, none)
  freeBlocks m r := m.erase r.requestId
  getBlocks _ _ := ()
  tryScheduleEncoderInputs m _ _ numNew budget := (m, [], numNew, budget)
  allocateEncoder m _ _ := m
  freeEncoder m _ := m
  freeEncoderInputs m _ := m

/-- Python `EngineCoreOutput`. -/
structure EngineCoreOutput where
  requestId : ReqId
  newTokenIds : List Token
  finishReason : Option FinishReason := none
  stopReason : Option StopReason := none
  finalScore : Option ℚ := none
  scoreHistory : Option (List ℚ) := none
  deriving DecidableEq

/-- The state of the Python `Scheduler`. -/
structure Scheduler (μ : Type) where
  requests : Dict ReqId Request := ∅
  waiting : List ReqId := []
  running : List ReqId := []
  finishedReqIds : List ReqId := []
  prevStepScheduledReqIds : List ReqId := []
  traceScores : Dict ReqId ℚ := ∅
  pendingPrunedOutputs : Dict Nat (List EngineCoreOutput) := ∅
  /-- History: the requests that were freed, as they were then. No function reads it. -/
  departed : List Request := []
  caches : μ

/-- A preempted request starts over. -/
def Request.preempted (r : Request) : Request :=
  { r with
    status := .preempted
    numComputedTokens := 0
    numPreemptions := r.numPreemptions + 1 }

/-- Append to the list of a client (Python `defaultdict(list)[client].append`). -/
def appendOutput (d : Dict Nat (List EngineCoreOutput)) (client : Nat) (o : EngineCoreOutput) :
    Dict Nat (List EngineCoreOutput) :=
  d.set client (d.getD client [] ++ [o])

namespace Scheduler
variable {μ β : Type} (ops : Caches μ β) (s : Scheduler μ)

/-- The key a priority queue orders by. -/
def queueKey (rid : ReqId) : Int × ℚ :=
  match s.requests.get? rid with
  | some r => (r.priority, r.arrivalTime)
  | none => (0, 0)

/-- Lexicographic comparison of `(priority, arrival_time)`. -/
def keyLE (k k' : Int × ℚ) : Bool := k.1 < k'.1 ∨ (k.1 = k'.1 ∧ k.2 ≤ k'.2)

/-- Push on a priority queue: behind everything that does not come later. Python raises where two keys that it
compares are the same. -/
def pushByKey (rid : ReqId) : List ReqId → List ReqId
  | [] => [rid]
  | x :: xs => if keyLE (s.queueKey x) (s.queueKey rid) then x :: pushByKey rid xs else rid :: x :: xs

/-- Python `RequestQueue.add_request`. -/
def queueAdd (policy : SchedulingPolicy) (q : List ReqId) (rid : ReqId) : List ReqId :=
  match policy with
  | .priority => s.pushByKey rid q
  | _ => q ++ [rid]

/-- Python `RequestQueue.prepend_request`. -/
def queuePrepend (policy : SchedulingPolicy) (q : List ReqId) (rid : ReqId) : List ReqId :=
  match policy with
  | .priority => s.pushByKey rid q
  | _ => rid :: q

/-- Python `RequestQueue.prepend_requests`. -/
def queuePrependAll (policy : SchedulingPolicy) (q rids : List ReqId) : List ReqId :=
  match policy with
  | .priority => rids.foldl (fun q rid => s.pushByKey rid q) q
  | _ => rids ++ q

/-- Nobody in the queue has the key of `rid`, so a push of `rid` compares keys only. -/
def Untied (q : List ReqId) (rid : ReqId) : Prop := ∀ x ∈ q, s.queueKey x ≠ s.queueKey rid

instance (q : List ReqId) (rid : ReqId) : Decidable (s.Untied q rid) :=
  inferInstanceAs (Decidable (∀ x ∈ q, s.queueKey x ≠ s.queueKey rid))

/-- No two stored requests have the same key. -/
def KeysApart : Prop := ∀ x ∈ s.requests, ∀ y ∈ s.requests, x ≠ y → s.queueKey x ≠ s.queueKey y

/-- Python `Scheduler.has_requests`. -/
def hasRequests : Bool := !s.waiting.isEmpty || !s.running.isEmpty || !s.finishedReqIds.isEmpty

/-- Python `Scheduler.add_request`; under PRIORITY it raises where the new request ties with a waiting one. -/
def addRequest (policy : SchedulingPolicy) (r : Request) : Scheduler μ :=
  let s := { s with requests := s.requests.set r.requestId r }
  { s with waiting := s.queueAdd policy s.waiting r.requestId }

/-- Python `Scheduler._free_request` with `_free_blocks`. -/
def freeRequest (r : Request) : Scheduler μ :=
  { s with
    caches := ops.freeBlocks (ops.freeEncoder s.caches r) r
    finishedReqIds := s.finishedReqIds.insert r.requestId
    departed := s.departed ++ [r]
    requests := s.requests.erase r.requestId }

/-- Python `remove_all`: a single item is removed once, several are filtered out. -/
def removeAll (l items : List ReqId) : List ReqId :=
  match items with
  | [] => l
  | [x] => l.erase x
  | _ => l.filter (· ∉ items)

/-- One entry of the second pass of `finish_requests`: set the status and free the request. -/
def finishRequest (status : RequestStatus) (s : Scheduler μ) (rid : ReqId) : Scheduler μ :=
  match s.requests.get? rid with
  | none => s
  | some r => s.freeRequest ops { r with status := status }

/-- Python `Scheduler.finish_requests`. -/
def finishRequests (rids : List ReqId) (status : RequestStatus) : Scheduler μ :=
  let valid := rids.dedup.filter fun rid =>
    match s.requests.get? rid with
    | some r => !r.status.isFinished
    | none => false
  let isRunning := fun rid => (s.requests.get? rid).any (·.status = .running)
  let s := { s with
    running := removeAll s.running (valid.filter isRunning)
    waiting := s.waiting.filter (· ∉ valid.filter (!isRunning ·)) }
  valid.foldl (finishRequest ops status) s

/-- Python `Scheduler.mark_stop_reason`. -/
def markStopReason (rids : List ReqId) (reason : StopReason) : Scheduler μ :=
  { s with
    requests := rids.foldl (fun reqs rid => reqs.modify rid fun r =>
      if r.status.isFinished then r else { r with stopReason := some reason }) s.requests }

/-- Python `Scheduler.update_trace_scores`. -/
def updateTraceScores (scores : Dict ReqId ℚ) : Scheduler μ :=
  { s with
    traceScores := s.traceScores.update scores
    requests := scores.entries.foldl (fun reqs e => reqs.modify e.1 fun r =>
      { r with traceAvgScore := some e.2 }) s.requests }

/-- Python `Scheduler.update_draft_token_ids`, on drafts that the grammar (if any) validated. -/
def updateDraftTokenIds (drafts : Dict ReqId (List Token)) : Scheduler μ :=
  { s with
    requests := drafts.entries.foldl (fun reqs e => reqs.modify e.1 fun r =>
      if r.status.isFinished then r else { r with specTokenIds := e.2 }) s.requests }

/-- The score of a request, if one is known. -/
def traceScore? (r : Request) : Option ℚ := r.traceAvgScore <|> s.traceScores.get? r.requestId

/-- Python `Scheduler._get_request_score`. -/
def getRequestScore (rid : ReqId) : ℚ :=
  match s.requests.get? rid with
  | some r => (s.traceScore? r).getD 0
  | none => 0

/-- The arrival time of a request of the store. -/
def arrivalTime (rid : ReqId) : ℚ := ((s.requests.get? rid).map Request.arrivalTime).getD 0

/-- The key order of `_order_running_by_score`: higher score first, then earlier arrival. -/
def scoreLE (a b : ReqId) : Prop :=
  s.getRequestScore b < s.getRequestScore a ∨
    (s.getRequestScore a = s.getRequestScore b ∧ s.arrivalTime a ≤ s.arrivalTime b)

instance : DecidableRel s.scoreLE := fun a b => by unfold scoreLE; infer_instance

/-- Python `Scheduler._order_running_by_score`. -/
def orderRunningByScore : Scheduler μ := { s with running := s.running.insertionSort s.scoreLE }

/-- Python `Scheduler._stop_lowest_running`: the victim, if any, and the scheduler after it. -/
def stopLowestRunning : Option ReqId × Scheduler μ :=
  match s.running.getLast? with
  | none => (none, s)
  | some rid =>
    let popped := { s with running := s.running.dropLast }
    match s.requests.get? rid with
    | none => (some rid, popped)
    | some r =>
      let victim := { r with stopReason := some .pruned, status := .finishedAborted }
      let out : EngineCoreOutput :=
        { requestId := rid
          newTokenIds := []
          finishReason := victim.status.getFinishedReason
          stopReason := victim.stopReason
          finalScore := s.traceScore? r }
      let pruned := { popped with
        pendingPrunedOutputs := appendOutput s.pendingPrunedOutputs r.clientIndex out }
      (some rid, pruned.freeRequest ops victim)

/-- The requests evicted since the last output: those with an output waiting to be sent. -/
def evictedIds : List ReqId :=
  (s.pendingPrunedOutputs.values.flatMap id).map EngineCoreOutput.requestId

/-- The tail of a preemption: release the memory, reset the request and queue it again. Under PRIORITY the last
step raises where the victim ties with a waiting request. -/
def preempt (policy : SchedulingPolicy) (rid : ReqId) : Scheduler μ :=
  match s.requests.get? rid with
  | none => s
  | some r =>
    let s := { s with
      caches := ops.freeEncoder (ops.freeBlocks s.caches r) r
      requests := s.requests.set rid r.preempted }
    { s with waiting := s.queuePrepend policy s.waiting rid }

/-- The request PRIORITY preempts: the first with the largest `(priority, arrival_time)`. -/
def lowestPriority : Option ReqId :=
  s.running.foldl (fun best rid =>
    match best with
    | none => some rid
    | some b => if keyLE (s.queueKey rid) (s.queueKey b) then some b else some rid) none

end Scheduler
end Gambit.Sched
