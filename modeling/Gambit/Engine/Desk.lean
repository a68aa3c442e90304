import Gambit.Engine.Invariant

/-!
# What scoring works on

`Desk` is the part of the engine that the scoring phases of `EngineCore.step` work on: the pending requests, the
RPC in flight, and what the record says about the batch. The phases are given by equations on it, in the
synchronous and in the asynchronous mode. The decisions between them do not touch it, so the equations compose to
one for a step (`desk_step`).
-/

namespace Gambit.Engine
open Gambit.Lib Gambit.Sched Gambit.Trace

/-- The part of the engine that scoring works on. -/
structure Desk where
  pending : List ReqId
  future : Option (List (Dict ReqId Payload))
  asked : List ReqId
  finished : List ReqId
  scheduled : Dict ReqId Int
  sampled : ModelRunnerOutput
  triggered : List ReqId
  evaluated : List ReqId
  recorded : Dict ReqId (List ℚ)

namespace EngineCore
variable {μ β : Type} {ops : Caches μ β} {cfg : VllmConfig} {i : StepInput} {e e' : EngineCore μ}
variable {so : SchedulerOutput β} {avgs : Dict ReqId ℚ}

/-- The desk of an engine. -/
def desk (e : EngineCore μ) : Desk where
  pending := e.pendingHsClassification
  future := e.asyncScorerFuture
  asked := e.asyncScorerReqIds
  finished := e.scheduler.finishedReqIds
  scheduled := e.record.scheduled
  sampled := e.record.sampled
  triggered := e.record.triggered
  evaluated := e.record.evaluated
  recorded := e.record.recorded

/-- A decision does not touch the desk. -/
lemma Move.desk (hm : Move cfg i avgs e e') : e'.desk = e.desk := by
  cases hm with
  | count | register | pruneTested | pruneRanked | forceStop | round => rfl
  | flush =>
    unfold flushHistories
    split
    · rfl
    · rfl
  | branch parent =>
    rcases createBranch_cases cfg i e parent with heq | ⟨t, -, -, heq⟩ | ⟨r, t, c, -, -, -, -, heq⟩
    · rw [heq]
    · rw [heq]
      rfl
    · obtain ⟨ts, ss, cs, hadopt, -⟩ := adoptChild_eq cfg e t parent c r.allTokenIds
      rw [heq, hadopt]
      rfl

lemma Moves.desk (hm : Moves cfg i avgs e e') : e'.desk = e.desk := by
  induction hm with
  | refl => rfl
  | tail _ hmove ih => exact hmove.desk.trans ih

/-- Neither does the aggregation. -/
lemma desk_aggregateAndDecide (e : EngineCore μ) : (e.aggregateAndDecide cfg i).desk = e.desk := by
  rcases aggregateAndDecide_cases cfg i e with ⟨-, heq⟩ | ⟨-, heq⟩ | ⟨-, hmoves⟩
  · rw [heq]
  · rw [heq]
    rfl
  · exact hmoves.desk.trans (registered_moves (i := i) _ _).desk

end EngineCore

namespace Desk
variable (cfg : VllmConfig) (i : StepInput) (d : Desk)

/-- The requests that stay pending when the answer of the scorer arrives. -/
def settled : List ReqId :=
  match d.future with
  | none => d.pending
  | some reply => if (mergeScores reply).entries.isEmpty then d.pending else removeIds d.pending d.asked

/-- The desk after the answer arrived. -/
def consume : Desk :=
  { d with
    pending := d.settled
    future := none
    recorded := match d.future with
      | none => d.recorded
      | some reply => mergeScores reply }

/-- The requests a step scores. -/
def due : List ReqId := (i.setOrder d.pending).filter (· ∈ d.scheduled)

/-- The answer to what a step scores. -/
def answer : List (Dict ReqId Payload) := i.scorer cfg.gambit.collectHiddenStatesForMining (d.due i)

/-- The desk after the pending requests of the batch were submitted. -/
def submit : Desk :=
  if (d.due i).isEmpty then d
  else { d with future := some (d.answer cfg i), asked := d.due i, evaluated := d.due i }

/-- The desk after the pending requests of the batch were scored. -/
def score : Desk :=
  if (d.due i).isEmpty then d
  else
    { d with
      pending := removeIds d.pending (mergeScores (d.answer cfg i)).keys
      evaluated := d.due i
      recorded := mergeScores (d.answer cfg i) }

/-- The desk after the scoring phases, in the mode of the configuration. -/
def run : Desk := if cfg.asyncScorer then d.consume.submit cfg i else d.score cfg i

/-- The desk after the requests `ids` reached a boundary. -/
def trigger (ids : List ReqId) : Desk :=
  { d with pending := addAll d.pending ids, triggered := ids }

end Desk

namespace EngineCore
variable {μ β : Type} {ops : Caches μ β} {cfg : VllmConfig} {i : StepInput} {e e' : EngineCore μ}
variable {so : SchedulerOutput β}

lemma desk_consumeAsyncScores (h : cfg.asyncScorer = true) : (e.consumeAsyncScores cfg i).desk = e.desk.consume := by
  unfold consumeAsyncScores
  split
  · next reply _ hfut =>
    rw [desk_aggregateAndDecide, Desk.consume, Desk.settled]
    obtain ⟨hs, heq⟩ := takeReply_eq cfg { e with asyncScorerFuture := none } e.asyncScorerCollectHidden reply
    rw [heq]
    simp only [desk, hfut]
  · next hcases =>
    cases hf : e.asyncScorerFuture with
    | none =>
      unfold Desk.consume Desk.settled desk
      rw [hf]
    | some reply => exact absurd hf (hcases reply h)

lemma desk_consumeAsyncScores_sync (h : cfg.asyncScorer = false) : e.consumeAsyncScores cfg i = e := by
  unfold consumeAsyncScores
  rw [h]

lemma due_desk (hso : e.record.scheduled = so.numScheduledTokens) : e.desk.due i = e.dueRequests i so := by
  unfold Desk.due dueRequests desk
  rw [hso]

lemma desk_scorePending (h : cfg.asyncScorer = true) (hso : e.record.scheduled = so.numScheduledTokens) :
    (e.scorePending cfg i so).desk = e.desk.submit cfg i := by
  unfold scorePending Desk.submit Desk.answer
  rw [due_desk hso]
  dsimp only
  split
  · rfl
  · rfl

lemma desk_scorePending_sync (h : cfg.asyncScorer = false) (hso : e.record.scheduled = so.numScheduledTokens) :
    (e.scorePending cfg i so).desk = e.desk.score cfg i := by
  unfold scorePending Desk.score Desk.answer
  rw [due_desk hso]
  dsimp only
  split
  · rfl
  · rw [if_neg (Bool.eq_false_iff.1 h), desk_aggregateAndDecide]
    obtain ⟨hs, heq⟩ := takeReply_eq cfg { e with record := { e.record with evaluated := e.dueRequests i so } }
      cfg.gambit.collectHiddenStatesForMining
      (i.scorer cfg.gambit.collectHiddenStatesForMining (e.dueRequests i so))
    rw [heq]
    rfl

/-- No request finishes before `update_from_output`. -/
lemma desk_dropFinishedPending (h : e.desk.finished = []) : e.dropFinishedPending.desk = e.desk := by
  have hf : e.scheduler.finishedReqIds = [] := h
  unfold dropFinishedPending
  rw [hf]
  unfold desk removeIds
  simp

lemma desk_detectTriggers (mo : ModelRunnerOutput) :
    (e.detectTriggers cfg mo).desk = e.desk.trigger (triggers cfg e mo) := by
  obtain ⟨tc, sl, heq, -⟩ := detectTriggers_eq cfg e mo
  rw [heq]
  rfl

lemma desk_injectEos (mo : ModelRunnerOutput) : (e.injectEos mo).1.desk = e.desk := by
  obtain ⟨s, low, force, mo', heq, hs, -⟩ := injectEos_eq e mo
  rw [heq]
  unfold desk
  rw [← hs.finishedReqIds]

lemma desk_finalizeScores (l : List ReqId) : (e.finalizeScores cfg l).desk = e.desk := by
  induction l generalizing e with
  | nil => rfl
  | cons rid l ih =>
    apply ih.trans
    unfold finalizeScore
    dsimp only
    split
    · rfl
    · rfl

/-- The end of a step sets the finished requests. -/
lemma desk_finishStep (mo : ModelRunnerOutput) :
    (e.finishStep ops cfg i so mo).desk =
      { e.desk with finished := (e.finishStep ops cfg i so mo).scheduler.finishedReqIds } := by
  have hrec : ∀ (e : EngineCore μ) (outs : Dict Nat (List EngineCoreOutput)),
      desk { e with record := { e.record with outputs := outs } } = e.desk := fun _ _ => rfl
  unfold finishStep
  dsimp only
  rw [hrec, desk_finalizeScores, (finalizeScores_spec ..).scheduler]
  split
  · rfl
  · rfl

lemma finished_run (d : Desk) : (d.run cfg i).finished = d.finished := by
  unfold Desk.run Desk.submit Desk.score
  split
  · split
    · rfl
    · rfl
  · split
    · rfl
    · rfl

/-- The scoring phases. -/
lemma desk_scoringPhases (hf : e.desk.finished = []) (hso : e.record.scheduled = so.numScheduledTokens) :
    (e.scoringPhases cfg i so).desk = e.desk.run cfg i := by
  have hrun : ((e.consumeAsyncScores cfg i).scorePending cfg i so).desk = e.desk.run cfg i := by
    unfold Desk.run
    cases h : cfg.asyncScorer with
    | true =>
      have hc := desk_consumeAsyncScores (i := i) (e := e) h
      have hs : (e.consumeAsyncScores cfg i).record.scheduled = so.numScheduledTokens :=
        (congrArg Desk.scheduled hc).trans hso
      rw [desk_scorePending h hs, hc]
      rfl
    | false =>
      rw [desk_consumeAsyncScores_sync h, desk_scorePending_sync h hso]
      rfl
  unfold scoringPhases
  rw [desk_dropFinishedPending, hrun]
  rw [hrun, finished_run, hf]

/-- All phases between `schedule` and the capture of tokens. -/
lemma desk_gambitPhases (hen : cfg.gambit.enable = true) (hf : e.desk.finished = [])
    (hso : e.record.scheduled = so.numScheduledTokens) (mo : ModelRunnerOutput) :
    (e.gambitPhases cfg i so mo).1.desk =
      (e.desk.run cfg i).trigger (triggers cfg (e.scoringPhases cfg i so) mo) := by
  unfold gambitPhases
  rw [if_pos hen]
  dsimp only
  split
  · rw [desk_injectEos, desk_detectTriggers, desk_scoringPhases hf hso]
  · rw [desk_detectTriggers, desk_scoringPhases hf hso]

/-- The scored state of a step, on which its boundaries are found. -/
def scored (ops : Caches μ β) (cfg : VllmConfig) (i : StepInput) (e : EngineCore μ) : EngineCore μ :=
  (e.afterSchedule ops cfg i).1.scoringPhases cfg i (e.afterSchedule ops cfg i).2

/-- A step that runs the model. -/
lemma desk_step (ops : Caches μ β) (hen : cfg.gambit.enable = true) (hreq : e.scheduler.hasRequests = true) :
    (e.step ops cfg i).desk =
      { ((e.afterSchedule ops cfg i).1.desk.run cfg i).trigger
          (triggers cfg (e.scored ops cfg i) (modelOutput i (e.afterSchedule ops cfg i).2)) with
        finished := (e.step ops cfg i).scheduler.finishedReqIds } := by
  rw [step, if_pos hreq]
  dsimp only
  rw [desk_finishStep, desk_gambitPhases hen rfl rfl]
  rfl

/-- An idle step. -/
lemma desk_idle (hreq : e.scheduler.hasRequests = false) :
    (e.step ops cfg i).desk =
      { e.desk with scheduled := ∅, sampled := ∅, triggered := [], evaluated := [], recorded := ∅ } := by
  rw [step, if_neg (Bool.eq_false_iff.1 hreq)]
  unfold idleCleanup
  split
  · rfl
  · rfl

end EngineCore
end Gambit.Engine
