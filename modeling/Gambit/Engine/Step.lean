import Gambit.Engine.Decision
import Gambit.Lib.Machine

/-!
# The engine step

Model of `EngineCore.step` with `_insert_eos`, `_finalize_scores` and `_gambit_on_request_finished`,
of `add_request`, `abort_requests`, `post_step` and `reset_gambit_state`, and the machine these
events drive.

A step is a chain of phases, each a function of its own in the order of the source: schedule, run
the model, consume the asynchronous scores of the step before, score or submit the pending requests,
detect step boundaries, inject EOS tokens, capture the tokens, `update_from_output`, finalise.

Profiling is left out. `update_from_output` removes a finished request from `scheduler.requests`
before `_gambit_on_request_finished` looks it up (no KV connector delays it), so the output stored
in the tree is the captured buffer.
-/

namespace Gambit.Engine
open Gambit.Lib Gambit.Sched Gambit.Trace

namespace EngineCore
variable {μ β : Type} (ops : Caches μ β) (cfg : VllmConfig) (i : StepInput)

/-- The idle branch of `step`: active traces left over by a drained scheduler become pruned. -/
def idleCleanup (e : EngineCore μ) : EngineCore μ :=
  if gambitEnabled cfg then
    let activeLeft := (e.traceTree.nodes.entries.filter fun n => n.2.isActive).map Prod.fst
    { e with
      traceTree := activeLeft.foldl TraceTree.markPruned e.traceTree
      pendingForceStops := removeIds e.pendingForceStops activeLeft
      pendingLowScoreStops := removeIds e.pendingLowScoreStops activeLeft }
  else e

/-- Hand the averages to the scheduler. -/
def handAverages (e : EngineCore μ) (avgs : Dict ReqId ℚ) : EngineCore μ :=
  { e with
    scheduler := e.scheduler.updateTraceScores avgs
    record := { e.record with averages := avgs } }

/-- Average the scores, hand them to the scheduler and decide. -/
def aggregateAndDecide (e : EngineCore μ) : EngineCore μ :=
  let avgs := e.traceAvgScores cfg
  if avgs.entries.isEmpty then e
  else
    let e := e.handAverages avgs
    if gambitEnabled cfg then e.decisionStep cfg i avgs else e

/-- Record the scores of a reply, with its hidden states if they were collected. -/
def takeReply (e : EngineCore μ) (collectHidden : Bool) (reply : List (Dict ReqId Payload)) :
    EngineCore μ :=
  let e := { e with
    traceHiddenStateLast :=
      if collectHidden then mergeHidden e.traceHiddenStateLast reply else e.traceHiddenStateLast
    record := { e.record with recorded := mergeScores reply } }
  e.recordScores cfg (mergeScores reply)

/-- Consume the result of the scorer RPC submitted in an earlier step. -/
def consumeAsyncScores (e : EngineCore μ) : EngineCore μ :=
  match cfg.asyncScorer, e.asyncScorerFuture with
  | true, some reply =>
    let e := { e with asyncScorerFuture := none }.takeReply cfg e.asyncScorerCollectHidden reply
    let e := { e with
      pendingHsClassification :=
        if (mergeScores reply).entries.isEmpty then e.pendingHsClassification
        else removeIds e.pendingHsClassification e.asyncScorerReqIds }
    e.aggregateAndDecide cfg i
  | _, _ => e

/-- The pending requests that are scheduled in this step, in the order the set is iterated. -/
def dueRequests (e : EngineCore μ) (so : SchedulerOutput β) : List ReqId :=
  (i.setOrder e.pendingHsClassification).filter (· ∈ so.numScheduledTokens)

/-- Score the pending requests that are scheduled, or submit them to the asynchronous scorer. -/
def scorePending (e : EngineCore μ) (so : SchedulerOutput β) : EngineCore μ :=
  let ids := e.dueRequests i so
  if ids.isEmpty then e
  else
    let collectHidden := cfg.gambit.collectHiddenStatesForMining
    let reply := i.scorer collectHidden ids
    let e := { e with record := { e.record with evaluated := ids } }
    if cfg.asyncScorer then
      { e with
        asyncScorerFuture := some reply
        asyncScorerCollectHidden := collectHidden
        asyncScorerReqIds := ids }
    else
      let e := e.takeReply cfg collectHidden reply
      let e := { e with
        pendingHsClassification := removeIds e.pendingHsClassification (mergeScores reply).keys }
      e.aggregateAndDecide cfg i

/-- Finished requests no longer wait for classification; `schedule` has just emptied the set of
finished ids that is read here. -/
def dropFinishedPending (e : EngineCore μ) : EngineCore μ :=
  { e with
    pendingHsClassification :=
      removeIds e.pendingHsClassification e.scheduler.finishedReqIds }

/-- Whether sampled tokens contain a boundary token. -/
def hitsBoundary (sampled : List Token) : Bool :=
  match cfg.gambit.doubleNewLineTokenId with
  | some ids => sampled.any (· ∈ ids)
  | none => false

/-- The body of the trigger loop: count the tokens of a request and collect it at a boundary. -/
def detectTrigger (p : EngineCore μ × List ReqId) (o : ReqId × List Token) :
    EngineCore μ × List ReqId :=
  let total := p.1.tokenCount o.1 + o.2.length
  let e := { p.1 with traceTokenCounts := p.1.traceTokenCounts.set o.1 total }
  if 0 < cfg.gambit.scoringStride then
    if cfg.gambit.scoringStride ≤ (total : Int) - e.strideLastTrigger.getD o.1 0 then
      ({ e with strideLastTrigger := e.strideLastTrigger.set o.1 total }, p.2 ++ [o.1])
    else (e, p.2)
  else if hitsBoundary cfg o.2 then (e, p.2 ++ [o.1])
  else (e, p.2)

/-- Mark the requests at a step boundary for classification in a later step. -/
def detectTriggers (e : EngineCore μ) (mo : ModelRunnerOutput) : EngineCore μ :=
  let (e, ids) := mo.entries.foldl (detectTrigger cfg) (e, [])
  { e with
    pendingHsClassification := addAll e.pendingHsClassification ids
    record := { e.record with triggered := ids } }

/-- The body of the loop of `_insert_eos`, for a request of the batch. -/
def insertEosAt (s : Scheduler μ) (mo : ModelRunnerOutput) (rid : ReqId) : ModelRunnerOutput :=
  match (s.requests.get? rid).bind Request.eosTokenId with
  | some eos => mo.modify rid fun _ => [eos]
  | none => mo

/-- Python `EngineCore._insert_eos` on the output, for requests of the batch. -/
def insertEos (s : Scheduler μ) (mo : ModelRunnerOutput) (ids : List ReqId) : ModelRunnerOutput :=
  ids.foldl (insertEosAt s) mo

/-- One of the two stop lists of the injection: mark the reason, overwrite the tokens. -/
def injectStops (e : EngineCore μ) (mo : ModelRunnerOutput) (ids : List ReqId) (reason : StopReason) :
    EngineCore μ × ModelRunnerOutput :=
  let s := e.scheduler.markStopReason ids reason
  ({ e with scheduler := s }, insertEos s mo ids)

/-- The `eos_injection` phase: pruned and force-stopped requests of the batch sample EOS, and their
pending marks are cleared. -/
def injectEos (e : EngineCore μ) (mo : ModelRunnerOutput) : EngineCore μ × ModelRunnerOutput :=
  let pruned := e.pendingLowScoreStops.filter (· ∈ mo)
  let (e, mo) := e.injectStops mo pruned .gambitPruned
  let e := { e with pendingLowScoreStops := removeIds e.pendingLowScoreStops pruned }
  let forced := e.pendingForceStops.filter (· ∈ mo)
  let (e, mo) := e.injectStops mo forced .gambitStopAfterCompleted
  ({ e with pendingForceStops := removeIds e.pendingForceStops forced }, mo)

/-- Capture the tokens of a request for the export. -/
def captureToken (bufs : Dict ReqId (List Token)) (o : ReqId × List Token) :
    Dict ReqId (List Token) :=
  if o.2.isEmpty then bufs else bufs.set o.1 (bufs.getD o.1 [] ++ o.2)

/-- The capture phase, after EOS injection. -/
def captureTokens (e : EngineCore μ) (mo : ModelRunnerOutput) : EngineCore μ :=
  { e with gambitOutputTokenIds := mo.entries.foldl captureToken e.gambitOutputTokenIds }

/-- Python `EngineCore._gambit_on_request_finished`, the request being gone from the scheduler. -/
def onRequestFinished (t : TraceTree) (rid : ReqId) (score : Option ℚ) (tokens : Option (List Token)) :
    TraceTree :=
  let t := t.ensureRoot rid
  let out : NodeOutput := { outputTokenIds := tokens, finalScore := score }
  if (t.getNode rid).any (·.isPruned) then t.setOutput rid out else t.markCompleted rid out

/-- The body of the loop of `_finalize_scores`. -/
def finalizeScore (e : EngineCore μ) (rid : ReqId) : EngineCore μ :=
  let avg := e.finalAvg cfg rid
  let e := { e with
    finalTraceScores := e.finalTraceScores.set rid avg
    traceScores := e.traceScores.erase rid
    traceScoreSums := e.traceScoreSums.erase rid
    traceScoreCounts := e.traceScoreCounts.erase rid
    pendingLowScoreStops := e.pendingLowScoreStops.erase rid
    pendingForceStops := e.pendingForceStops.erase rid
    traceTokenCounts := e.traceTokenCounts.erase rid
    strideLastTrigger := e.strideLastTrigger.erase rid }
  if gambitEnabled cfg then
    { e with
      gambitOutputTokenIds := e.gambitOutputTokenIds.erase rid
      traceTree := onRequestFinished e.traceTree rid avg (e.gambitOutputTokenIds.get? rid) }
  else e

/-- Python `EngineCore._finalize_scores`. -/
def finalizeScores (e : EngineCore μ) (finished : List ReqId) : EngineCore μ :=
  finished.foldl (finalizeScore cfg) e

/-- Attach the final scores to the outputs of finished requests. -/
def attachFinalScores (finals : Dict ReqId (Option ℚ)) (outputs : Dict Nat (List EngineCoreOutput)) :
    Dict Nat (List EngineCoreOutput) :=
  outputs.mapVal fun _ outs => outs.map fun o =>
    if o.finishReason.isSome ∧ o.finalScore = none then
      { o with finalScore := (finals.get? o.requestId).join }
    else o

/-- The output of the model for the scheduled requests, in batch order. -/
def modelOutput (so : SchedulerOutput β) : ModelRunnerOutput :=
  .ofKeys (i.rows so.numScheduledTokens.keys)
    ((i.rows.perm _).nodup_iff.2 so.numScheduledTokens.keys_nodup) i.sampled

/-- The state after `schedule`, with a new record. -/
def afterSchedule (e : EngineCore μ) : EngineCore μ × SchedulerOutput β :=
  let (s, so) := e.scheduler.schedule ops cfg i.grammarReady
  ({ e with
      scheduler := s
      record :=
        { scheduled := so.numScheduledTokens
          sampled := modelOutput i so
          evicted := s.evictedIds } }, so)

/-- The scoring phases of a step. -/
def scoringPhases (e : EngineCore μ) (so : SchedulerOutput β) : EngineCore μ :=
  ((e.consumeAsyncScores cfg i).scorePending cfg i so).dropFinishedPending

/-- The part of a step that runs with Gambit enabled: scoring, triggers and EOS injection. -/
def gambitPhases (e : EngineCore μ) (so : SchedulerOutput β) (mo : ModelRunnerOutput) :
    EngineCore μ × ModelRunnerOutput :=
  if cfg.gambit.enable then
    let e := (e.scoringPhases cfg i so).detectTriggers cfg mo
    if gambitEnabled cfg then e.injectEos mo else (e, mo)
  else (e, mo)

/-- The score histories handed to `update_from_output`. -/
def histories (e : EngineCore μ) : Option (Dict ReqId (List ℚ)) :=
  if cfg.gambit.enable ∧ cfg.gambit.recordScoreHistory then some e.traceScores else none

/-- The last part of a step: capture, `update_from_output`, finalise, attach the scores. -/
def finishStep (e : EngineCore μ) (so : SchedulerOutput β) (mo : ModelRunnerOutput) : EngineCore μ :=
  let e := if gambitEnabled cfg then e.captureTokens mo else e
  let (s, outs) := e.scheduler.updateFromOutput ops cfg so mo e.finalTraceScores (e.histories cfg)
  let e := { e with scheduler := s, record := { e.record with finished := s.finishedReqIds } }
  let e := e.finalizeScores cfg (i.setOrder s.finishedReqIds)
  { e with record := { e.record with outputs := attachFinalScores e.finalTraceScores outs } }

/-- Python `EngineCore.step`. -/
def step (e : EngineCore μ) : EngineCore μ :=
  if e.scheduler.hasRequests then
    let (e, so) := e.afterSchedule ops cfg i
    let (e, mo) := e.gambitPhases cfg i so (modelOutput i so)
    e.finishStep ops cfg i so mo
  else { e with record := {} }.idleCleanup cfg

/-- Whether `add_request` registers the id as a root: a child of a parallel sampling request. -/
def isSamplingChild (rid : ReqId) : Bool := '_' ∈ rid ∧ ¬ "gambit_".toList <+: rid

/-- Python `EngineCore.add_request`. -/
def addRequest (e : EngineCore μ) (r : Request) : EngineCore μ :=
  let e := { e with scheduler := e.scheduler.addRequest cfg.policy r }
  if gambitEnabled cfg then
    { e with
      gambitOutputTokenIds :=
        if r.requestId ∈ e.gambitOutputTokenIds then e.gambitOutputTokenIds
        else e.gambitOutputTokenIds.set r.requestId []
      traceTree :=
        if r.requestId ∉ e.traceTree ∧ isSamplingChild r.requestId then
          e.traceTree.addRoot r.requestId
        else e.traceTree }
  else e

/-- Python `EngineCore.abort_requests`. -/
def abortRequests (e : EngineCore μ) (rids : List ReqId) : EngineCore μ :=
  { e with scheduler := e.scheduler.finishRequests ops rids .finishedAborted }

/-- Python `EngineCore.post_step`: the drafts of the step just run. -/
def postStep (e : EngineCore μ) (drafts : Dict ReqId (List Token)) : EngineCore μ :=
  { e with scheduler := e.scheduler.updateDraftTokenIds drafts }

end EngineCore

/-- What drives the engine between and during steps. -/
inductive Event where
  | addRequest (r : Request)
  | abortRequests (rids : List ReqId)
  | postStep (drafts : Dict ReqId (List Token))
  | step (i : StepInput)

/-- The id an event adds from outside. -/
def Event.added : Event → Option ReqId
  | .addRequest r => some r.requestId
  | _ => none

/-- A request as `Request.from_engine_core_request` builds it. -/
structure IsNewRequest (r : Request) : Prop where
  status : r.status = Request.initialStatus r.samplingParams
  outputTokenIds : r.outputTokenIds = []
  numComputedTokens : r.numComputedTokens = 0
  specTokenIds : r.specTokenIds = []
  traceAvgScore : r.traceAvgScore = none

instance (r : Request) : Decidable (IsNewRequest r) :=
  decidable_of_iff (r.status = Request.initialStatus r.samplingParams ∧ r.outputTokenIds = [] ∧
      r.numComputedTokens = 0 ∧ r.specTokenIds = [] ∧ r.traceAvgScore = none)
    ⟨fun ⟨h1, h2, h3, h4, h5⟩ => ⟨h1, h2, h3, h4, h5⟩, fun ⟨h1, h2, h3, h4, h5⟩ => ⟨h1, h2, h3, h4, h5⟩⟩

/-- What the callers promise: an added request is new, its id was never used before and does not
carry the prefix the engine reserves for branches. -/
def Event.Ok (h : List Event) : Event → Prop
  | .addRequest r =>
    IsNewRequest r ∧ r.requestId ∉ h.filterMap Event.added ∧ ¬ "gambit_".toList <+: r.requestId
  | _ => True

instance (h : List Event) : (ev : Event) → Decidable (ev.Ok h)
  | .addRequest r => inferInstanceAs (Decidable (IsNewRequest r ∧ _ ∧ _))
  | .abortRequests _ | .postStep _ | .step _ => inferInstanceAs (Decidable True)

namespace EngineCore
variable {μ β : Type} (ops : Caches μ β) (cfg : VllmConfig)

/-- The effect of an event. -/
def handle (e : EngineCore μ) : Event → EngineCore μ
  | .addRequest r => { e.addRequest cfg r with record := {} }
  | .abortRequests rids => { e.abortRequests ops rids with record := {} }
  | .postStep drafts => { e.postStep drafts with record := {} }
  | .step i => e.step ops cfg i

end EngineCore

/-- The engine as a machine: its output is the record of each event. -/
def engineMachine {μ β : Type} (ops : Caches μ β) (cfg : VllmConfig) (m : μ) :
    Machine (EngineCore μ) Event StepRecord where
  init := .init cfg m
  next e ev := (e.handle ops cfg ev, (e.handle ops cfg ev).record)
  ok := Event.Ok

instance {μ β : Type} (ops : Caches μ β) (cfg : VllmConfig) (m : μ) (h : List Event) (ev : Event) :
    Decidable ((engineMachine ops cfg m).ok h ev) :=
  inferInstanceAs (Decidable (ev.Ok h))

end Gambit.Engine
