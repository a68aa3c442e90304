import Gambit.Engine.Scores

/-!
# Decisions of the search

Model of the Gambit methods of `vllm/v1/engine/core.py`: `_gambit_decision_step`,
`_gambit_tournament_step`, `_gambit_threshold_step`, `_gambit_prune_trace`,
`_gambit_force_stop_all_active_traces`, `_gambit_create_branch` and `_gambit_create_child_request`.

Python slices with a positive length `k` are `take k` and, from the end, `drop (length - k)`. The
stable sort by descending score is an insertion sort with `b ≤ a`, which keeps the order of ties.
-/

namespace Gambit.Engine
open Gambit.Lib Gambit.Sched Gambit.Trace

/-- Sort by score, highest first, ties in the given order (Python `sort(key=lambda x: -x[0])`). -/
def sortByScore (l : List (ℚ × ReqId)) : List (ℚ × ReqId) := l.insertionSort fun a b => b.1 ≤ a.1

/-- The last `k` elements (Python `l[-k:]` for a positive `k`). -/
def lastN {α : Type} (l : List α) (k : Nat) : List α := l.drop (l.length - k)

/-- All but the last `k` elements (Python `l[:-k]` for a positive `k`). -/
def dropLastN {α : Type} (l : List α) (k : Nat) : List α := l.take (l.length - k)

namespace EngineCore
variable {μ : Type} (cfg : VllmConfig) (i : StepInput)

/-- The tokens a trace generated since its creation (Python `trace_token_counts.get(rid, 0)`). -/
def tokenCount (e : EngineCore μ) (rid : ReqId) : Nat := e.traceTokenCounts.getD rid 0

/-- Add a decision to the record of the step. -/
def logDecision (e : EngineCore μ) (d : Decision) : EngineCore μ :=
  { e with record := { e.record with decisions := e.record.decisions ++ [d] } }

/-- Python `EngineCore._gambit_prune_trace`. -/
def pruneTrace (e : EngineCore μ) (rid : ReqId) : EngineCore μ :=
  { e.logDecision (.prune rid) with
    pendingLowScoreStops := e.pendingLowScoreStops.insert rid
    traceTree := e.traceTree.markPruned rid
    seqHsToClear := e.seqHsToClear ++ [rid] }

/-- Python `EngineCore._gambit_should_stop_after_completed`. -/
def shouldStopAfterCompleted (e : EngineCore μ) : Bool :=
  if cfg.gambit.stopAfterCompletedTraces ≤ 0 then false
  else cfg.gambit.stopAfterCompletedTraces ≤ (e.traceTree.getCompletedCount : Int)

/-- The body of the loop of `_gambit_force_stop_all_active_traces`. -/
def forceStopTrace (e : EngineCore μ) (rid : ReqId) : EngineCore μ :=
  { e.logDecision (.forceStop rid) with
    traceTree := e.traceTree.markPruned rid
    pendingForceStops := e.pendingForceStops.insert rid }

/-- Python `EngineCore._gambit_force_stop_all_active_traces`. -/
def forceStopAllActiveTraces (e : EngineCore μ) : EngineCore μ :=
  let activeIds := (e.traceTree.nodes.entries.filter fun n =>
    n.2.isActive ∧ n.1 ∉ e.pendingForceStops).map Prod.fst
  activeIds.foldl forceStopTrace e

/-- The sampling parameters of a child; `counter` is the branch counter after the branch. -/
def childSamplingParams (p : SamplingParams) (counter : Nat) (child : ReqId) : SamplingParams :=
  { p with
    temperature := p.temperature.map (· * cfg.gambit.branchTemperatureBoost)
    seed := some (match p.seed with
      | some seed => seed + counter
      | none => i.seed child) }

/-- Python `EngineCore._gambit_create_child_request`. -/
def createChildRequest (parent : Request) (counter : Nat) (child : ReqId) : Option Request :=
  if i.buildFails child then none
  else some
    { requestId := child
      promptTokenIds := parent.allTokenIds
      samplingParams := childSamplingParams cfg i parent.samplingParams counter child
      status := Request.initialStatus parent.samplingParams
      eosTokenId := parent.eosTokenId
      clientIndex := parent.clientIndex
      arrivalTime := parent.arrivalTime
      loraRequest := parent.loraRequest
      cacheSalt := parent.cacheSalt
      priority := parent.priority }

/-- The engine after a branch was created in the tree: queue the child and copy the parent's
bookkeeping. -/
def adoptChild (e : EngineCore μ) (t : TraceTree) (parent : ReqId) (child : Request)
    (tokens : List Token) : EngineCore μ :=
  let e := { e.logDecision (.branch parent child.requestId tokens) with
    traceTree := t
    scheduler := e.scheduler.addRequest cfg.policy child
    seqHsToCopy := e.seqHsToCopy ++ [(parent, child.requestId)] }
  let e := e.copyScores cfg parent child.requestId
  { e with
    traceTokenCounts := e.traceTokenCounts.set child.requestId 0
    strideLastTrigger := e.strideLastTrigger.set child.requestId 0
    gambitOutputTokenIds :=
      e.gambitOutputTokenIds.set child.requestId (e.gambitOutputTokenIds.getD parent []) }

/-- Python `EngineCore._gambit_create_branch`. -/
def createBranch (e : EngineCore μ) (parent : ReqId) : EngineCore μ × Bool :=
  if e.shouldStopAfterCompleted cfg then (e, false)
  else if e.traceTree.canTraceBranch parent (e.tokenCount parent) = false then (e, false)
  else match e.scheduler.requests.get? parent with
    | none => (e, false)
    | some r =>
      let child := e.traceTree.generateBranchId parent
      match e.traceTree.addBranch parent child (e.gambitOutputTokenIds.getD parent []).length with
      | none => (e, false)
      | some t =>
        match createChildRequest cfg i r t.branchCounter child with
        | none =>
          ({ e.logDecision (.branchFailed parent child) with traceTree := t.removeTrace child }, false)
        | some c => (e.adoptChild cfg t parent c r.allTokenIds, true)

/-- Branch the given traces in order, as long as fewer than `capacity` traces are active. -/
def branchWithin (capacity : Int) : List (ℚ × ReqId) → EngineCore μ → EngineCore μ
  | [], e => e
  | (_, rid) :: rest, e =>
    if capacity ≤ (e.traceTree.getActiveCount : Int) then e
    else branchWithin capacity rest (e.createBranch cfg i rid).1

/-- Prune all traces of a list. -/
def pruneAll (e : EngineCore μ) (rids : List ReqId) : EngineCore μ := rids.foldl pruneTrace e

/-- The traces the hard floor kills: past the warm-up and below the floor. -/
def belowHardFloor (e : EngineCore μ) (avgs : Dict ReqId ℚ) : List ReqId :=
  (avgs.entries.filter fun s =>
    s.1 ∉ e.pendingLowScoreStops ∧ cfg.gambit.tournamentWarmupTokens ≤ (e.tokenCount s.1 : Int) ∧
      s.2 < cfg.gambit.tournamentHardFloor).map Prod.fst

/-- Whether a tournament round is due. -/
def roundDue (e : EngineCore μ) (avgs : Dict ReqId ℚ) : Bool :=
  if e.tournamentLastRoundStep < 0 then
    avgs.keys.any fun rid => cfg.gambit.tournamentWarmupTokens ≤ (e.tokenCount rid : Int)
  else
    cfg.gambit.tournamentCheckInterval ≤ (e.tournamentStepCounter : Int) - e.tournamentLastRoundStep

/-- The scored traces that are active and not already marked, with their scores. -/
def activeTraces (e : EngineCore μ) (avgs : Dict ReqId ℚ) : List (ℚ × ReqId) :=
  (avgs.entries.filter fun s =>
    s.1 ∉ e.pendingLowScoreStops ∧ (e.traceTree.getNode s.1).any (·.isActive)).map
      fun s => (s.2, s.1)

/-- The traces of a list that are past the warm-up. -/
def warmedUp (e : EngineCore μ) (l : List (ℚ × ReqId)) : List (ℚ × ReqId) :=
  l.filter fun s => cfg.gambit.tournamentWarmupTokens ≤ (e.tokenCount s.2 : Int)

/-- Choose `n` parents: the first ones, or a random sample. -/
def chooseParents (l : List (ℚ × ReqId)) (n : Nat) : List (ℚ × ReqId) :=
  if cfg.gambit.tournamentBranchRandom ∧ l ≠ [] then i.sample l (min n l.length) else l.take n

/-- A round below capacity: branch to fill the free slots. -/
def fillSlots (e : EngineCore μ) (candidates : List (ℚ × ReqId)) : EngineCore μ :=
  let slots := (cfg.gambit.tournamentCapacity - e.traceTree.getActiveCount).toNat
  e.branchWithin cfg i cfg.gambit.tournamentCapacity (chooseParents cfg i candidates slots)

/-- The swap of a round: prune the bottom `k` scored traces, branch `k` parents. -/
def swap (e : EngineCore μ) (active candidates : List (ℚ × ReqId)) : EngineCore μ :=
  let k := (min cfg.gambit.tournamentSwapK (active.length / 2 : Nat)).toNat
  if k = 0 then e
  else
    let victims := (lastN active k).map Prod.snd
    let parents := candidates.filter fun s => s.2 ∉ victims
    (e.pruneAll victims).branchWithin cfg i cfg.gambit.tournamentCapacity
      (chooseParents cfg i parents k)

/-- A round at or over capacity: prune the excess, then swap. -/
def trimAndSwap (e : EngineCore μ) (active candidates : List (ℚ × ReqId)) : EngineCore μ :=
  let excess :=
    min (e.traceTree.getActiveCount - cfg.gambit.tournamentCapacity).toNat active.length
  if excess = 0 then e.swap cfg i active candidates
  else (e.pruneAll ((lastN active excess).map Prod.snd)).swap cfg i (dropLastN active excess)
    candidates

/-- A tournament round. -/
def tournamentRound (e : EngineCore μ) (avgs : Dict ReqId ℚ) : EngineCore μ :=
  let e := { e with tournamentLastRoundStep := e.tournamentStepCounter }
  let active := sortByScore (e.activeTraces avgs)
  if active.isEmpty then e
  else
    let candidates := e.warmedUp cfg active
    if (e.traceTree.getActiveCount : Int) < cfg.gambit.tournamentCapacity then
      e.fillSlots cfg i candidates
    else e.trimAndSwap cfg i active candidates

/-- Python `EngineCore._gambit_tournament_step`. -/
def tournamentStep (e : EngineCore μ) (avgs : Dict ReqId ℚ) : EngineCore μ :=
  let e := e.pruneAll (e.belowHardFloor cfg avgs)
  if e.roundDue cfg avgs then e.tournamentRound cfg i avgs else e

/-- Python `EngineCore._gambit_should_prune_threshold`. -/
def shouldPruneThreshold (e : EngineCore μ) (rid : ReqId) (avg : ℚ) : Bool :=
  if (e.tokenCount rid : Int) < cfg.gambit.minTokensBeforePrune then false
  else if rid ∈ e.pendingLowScoreStops then false
  else avg < cfg.gambit.thetaPrune

/-- Python `EngineCore._gambit_should_branch_threshold`. -/
def shouldBranchThreshold (e : EngineCore μ) (rid : ReqId) (avg : ℚ) : Bool :=
  if avg ≤ cfg.gambit.thetaBranch then false
  else if (e.tokenCount rid : Int) < cfg.gambit.minTokensBeforeBranch then false
  else match e.traceTree.getNode rid with
    | none => false
    | some n =>
      if n.isActive = false then false
      else if 0 ≤ n.lastBranchStep ∧
          (e.traceTree.currentStep : Int) - n.lastBranchStep < cfg.gambit.branchCooldownSteps then
        false
      else true

/-- Python `EngineCore._gambit_threshold_step`. -/
def thresholdStep (e : EngineCore μ) (avgs : Dict ReqId ℚ) : EngineCore μ :=
  let toPrune := (avgs.entries.filter fun s => e.shouldPruneThreshold cfg s.1 s.2).map Prod.fst
  let toBranch := (avgs.entries.filter fun s =>
    !e.shouldPruneThreshold cfg s.1 s.2 && e.shouldBranchThreshold cfg s.1 s.2).map
      fun s => (s.2, s.1)
  (e.pruneAll toPrune).branchWithin cfg i e.traceTree.maxTraces (sortByScore toBranch)

/-- Count the decision round. -/
def countRound (e : EngineCore μ) : EngineCore μ :=
  { e with
    traceTree := e.traceTree.incrementStep
    tournamentStepCounter := e.tournamentStepCounter + 1 }

/-- Make sure a scored trace is in the tree, and record its average there. -/
def registerScore (e : EngineCore μ) (s : ReqId × ℚ) : EngineCore μ :=
  let t := e.traceTree.ensureRoot s.1
  { e with traceTree := if cfg.gambit.recordScoreHistory then t.recordScore s.1 s.2 else t }

/-- Send the collected history changes to the worker (RPC `sync_sequence_histories`). -/
def flushHistories (e : EngineCore μ) : EngineCore μ :=
  if e.seqHsToClear.isEmpty ∧ e.seqHsToCopy.isEmpty then e
  else
    { e with
      seqHsToClear := []
      seqHsToCopy := []
      record := { e.record with synced := e.record.synced ++ [(e.seqHsToClear, e.seqHsToCopy)] } }

/-- Python `EngineCore._gambit_decision_step`. -/
def decisionStep (e : EngineCore μ) (avgs : Dict ReqId ℚ) : EngineCore μ :=
  let e := avgs.entries.foldl (registerScore cfg) e.countRound
  if e.shouldStopAfterCompleted cfg then e.forceStopAllActiveTraces
  else
    (if cfg.gambit.tournamentMode then e.tournamentStep cfg i avgs
      else e.thresholdStep cfg i avgs).flushHistories

end EngineCore
end Gambit.Engine
