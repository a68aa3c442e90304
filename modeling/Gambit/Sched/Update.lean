import Gambit.Sched.Schedule

/-!
# Taking in the model's output

Model of `Scheduler.update_from_output`: for every scheduled request the sampled tokens are appended
until one of them stops the request, a stopped request is freed, and one `EngineCoreOutput` is made
per request that got tokens. The outputs of evicted requests are added at the end.

A `ModelRunnerOutput` is kept as the dictionary from request ids to sampled tokens in batch order:
`req_id_to_index` followed by `sampled_token_ids`.
-/

namespace Gambit.Sched
open Gambit.Lib

/-- Python `ModelRunnerOutput`: the sampled tokens of each request of the batch. -/
abbrev ModelRunnerOutput := Dict ReqId (List Token)

/-- The scheduler and the local variables of `update_from_output`. -/
structure UpdatePass (μ : Type) where
  sched : Scheduler μ
  stoppedRunningReqs : List ReqId := []
  stoppedPreemptedReqs : List ReqId := []
  outputs : Dict Nat (List EngineCoreOutput) := ∅

namespace Scheduler
variable {μ β : Type} (ops : Caches μ β) (cfg : VllmConfig)

/-- Rejected drafts are taken off the computed tokens. -/
def rejectDrafts (so : SchedulerOutput β) (r : Request) (generated : List Token) : Request :=
  let drafts := so.scheduledSpecDecodeTokens.getD r.requestId []
  if drafts.isEmpty then r
  else
    let numAccepted : Int := (generated.length : Int) - 1
    let numRejected : Int := drafts.length - numAccepted
    { r with numComputedTokens := r.numComputedTokens - numRejected }

/-- The output made for a request that got tokens. -/
def requestOutput (finals : Dict ReqId (Option ℚ)) (histories : Option (Dict ReqId (List ℚ)))
    (r : Request) (newTokenIds : List Token) : EngineCoreOutput where
  requestId := r.requestId
  newTokenIds := newTokenIds
  finishReason := r.status.getFinishedReason
  stopReason := r.stopReason
  finalScore :=
    if r.status.getFinishedReason.isSome then (finals.get? r.requestId).join else none
  scoreHistory :=
    if r.status.getFinishedReason.isSome then histories.bind (·.get? r.requestId) else none

/-- The body of the loop of `update_from_output`, for the scheduled request `rid`. -/
def updateRequest (so : SchedulerOutput β) (mo : ModelRunnerOutput)
    (finals : Dict ReqId (Option ℚ)) (histories : Option (Dict ReqId (List ℚ)))
    (p : UpdatePass μ) (rid : ReqId) : UpdatePass μ :=
  match p.sched.requests.get? rid with
  | none => p
  | some r =>
    let generated := mo.getD rid []
    let r := rejectDrafts so r generated
    match r.updateRequestWithOutput cfg.scheduler.maxModelLen generated with
    | (r', newTokenIds, stopped) =>
      let s := { p.sched with requests := p.sched.requests.set rid r' }
      let p := { p with
        outputs :=
          if newTokenIds.isEmpty then p.outputs
          else appendOutput p.outputs r'.clientIndex (requestOutput finals histories r' newTokenIds) }
      if stopped then
        if r.status = .running then
          { p with
            sched := s.freeRequest ops r'
            stoppedRunningReqs := p.stoppedRunningReqs ++ [rid] }
        else
          { p with
            sched := s.freeRequest ops r'
            stoppedPreemptedReqs := p.stoppedPreemptedReqs ++ [rid] }
      else { p with sched := s }

/-- Add the outputs of the evicted requests to those of their clients. -/
def addPrunedOutputs (outputs pruned : Dict Nat (List EngineCoreOutput)) :
    Dict Nat (List EngineCoreOutput) :=
  pruned.entries.foldl (fun d e => if e.2.isEmpty then d else d.set e.1 (d.getD e.1 [] ++ e.2)) outputs

/-- Python `Scheduler.update_from_output`. -/
def updateFromOutput (s : Scheduler μ) (so : SchedulerOutput β) (mo : ModelRunnerOutput)
    (finals : Dict ReqId (Option ℚ)) (histories : Option (Dict ReqId (List ℚ))) :
    Scheduler μ × Dict Nat (List EngineCoreOutput) :=
  let p := so.numScheduledTokens.keys.foldl (updateRequest ops cfg so mo finals histories)
    { sched := s }
  ({ p.sched with
      running := removeAll p.sched.running p.stoppedRunningReqs
      waiting := p.sched.waiting.filter (· ∉ p.stoppedPreemptedReqs)
      pendingPrunedOutputs := ∅ },
    addPrunedOutputs p.outputs p.sched.pendingPrunedOutputs)

end Scheduler
end Gambit.Sched
