import Gambit.Engine.Invariant
import Gambit.Lib.DictMap

/-!
# With and without score histories

`record_score_history` chooses between two ways of keeping scores: lists of all scores of a trace, or their sum and
number. `EngineCore.aggregated` is what the second way keeps of a state of the first one. Every operation commutes
with it, so the engine without histories goes through the aggregated states of the engine with histories, with the
same averages, decisions and final scores (`score_modes_agree`). That asks for scorer payloads that are not empty: an
empty one makes an entry in the dictionary of histories and none in those of the aggregates.
-/

namespace Gambit

/-- The configuration with `record_score_history` on or off. -/
def VllmConfig.withHistory (cfg : VllmConfig) (b : Bool) : VllmConfig :=
  { cfg with gambit := { cfg.gambit with recordScoreHistory := b } }

namespace Sched
open Gambit.Lib
variable {μ β : Type} (ops : Caches μ β) (cfg : VllmConfig) {b : Bool}

/-- Making room does not depend on the mode. -/
lemma Pass.allocateOrEvict_withHistory (rid : ReqId) (n : Int) (fuel : Nat) (p : Pass μ β) (idx : Nat) :
    p.allocateOrEvict ops (cfg.withHistory b) rid n fuel idx = p.allocateOrEvict ops cfg rid n fuel idx := by
  induction fuel generalizing p idx with
  | zero => rfl
  | succ fuel ih =>
    have hroom : ∀ (q : Pass μ β) (idx : Nat),
        q.makeRoom ops (cfg.withHistory b) idx = q.makeRoom ops cfg idx := fun _ _ => rfl
    unfold allocateOrEvict
    simp only [hroom, ih]
    rfl

/-- Neither does the loop over the running requests. -/
lemma Pass.runningLoop_withHistory (fuel idx : Nat) (p : Pass μ β) :
    p.runningLoop ops (cfg.withHistory b) fuel idx = p.runningLoop ops cfg fuel idx := by
  induction fuel generalizing p idx with
  | zero => rfl
  | succ fuel ih =>
    have hnum : ∀ (r : Request) (n : Int), numNewRunning (cfg.withHistory b) r n = numNewRunning cfg r n :=
      fun _ _ => rfl
    unfold runningLoop
    simp only [hnum, allocateOrEvict_withHistory, ih]

/-- Neither does the loop over the waiting requests. -/
lemma Pass.waitingLoop_withHistory (ready : ReqId → Bool) (queue skipped : List ReqId) (loras : List Int)
    (p : Pass μ β) : p.waitingLoop ops (cfg.withHistory b) ready queue skipped loras =
      p.waitingLoop ops cfg ready queue skipped loras := by
  induction queue generalizing skipped loras p with
  | nil => rfl
  | cons rid rest ih =>
    have hcons : ∀ (p : Pass μ β) (r : Request),
        p.considerWaiting ops (cfg.withHistory b) ready loras rid r = p.considerWaiting ops cfg ready loras rid r :=
      fun _ _ => rfl
    unfold waitingLoop
    simp only [hcons, ih]
    rfl

/-- `schedule` does not depend on the mode. -/
lemma Scheduler.schedule_withHistory (ready : ReqId → Bool) (s : Scheduler μ) :
    s.schedule ops (cfg.withHistory b) ready = s.schedule ops cfg ready := by
  have hstart : s.startPass (cfg.withHistory b) = (s.startPass cfg : Pass μ β) := rfl
  have hadmit : ∀ p : Pass μ β, admitWaiting ops (cfg.withHistory b) ready p = admitWaiting ops cfg ready p := by
    intro p
    unfold admitWaiting
    rw [Pass.waitingLoop_withHistory]
    rfl
  unfold schedule schedulePass
  rw [hstart, Pass.runningLoop_withHistory, hadmit]

/-- An output without its score history. -/
def EngineCoreOutput.unscored (o : EngineCoreOutput) : EngineCoreOutput := { o with scoreHistory := none }

/-- The outputs of all clients without their score histories. -/
def unscoredOutputs (outputs : Dict Nat (List EngineCoreOutput)) : Dict Nat (List EngineCoreOutput) :=
  outputs.mapVal fun _ outs => outs.map EngineCoreOutput.unscored

/-- Similar outputs stay similar when similar ones are appended for a client. -/
lemma unscored_append {outputs outputs' : Dict Nat (List EngineCoreOutput)}
    (h : unscoredOutputs outputs' = unscoredOutputs outputs) (client : Nat) {l l' : List EngineCoreOutput}
    (hl : l'.map EngineCoreOutput.unscored = l.map EngineCoreOutput.unscored) :
    unscoredOutputs (outputs'.set client (outputs'.getD client [] ++ l')) =
      unscoredOutputs (outputs.set client (outputs.getD client [] ++ l)) := by
  have hget : ∀ d : Dict Nat (List EngineCoreOutput), (d.getD client []).map EngineCoreOutput.unscored =
      (unscoredOutputs d).getD client [] := fun d =>
    (Dict.getD_mapVal (fun outs : List EngineCoreOutput => outs.map EngineCoreOutput.unscored) d client []).symm
  have hset : ∀ (d : Dict Nat (List EngineCoreOutput)) (l : List EngineCoreOutput),
      unscoredOutputs (d.set client (d.getD client [] ++ l)) = (unscoredOutputs d).set client
        ((unscoredOutputs d).getD client [] ++ l.map EngineCoreOutput.unscored) := by
    intro d l
    unfold unscoredOutputs
    rw [Dict.mapVal_set, List.map_append, hget]
    rfl
  rw [hset, hset, h, hl]

/-- The same for one output, or for none on both sides. -/
lemma unscored_appendOutput {outputs outputs' : Dict Nat (List EngineCoreOutput)}
    (h : unscoredOutputs outputs' = unscoredOutputs outputs) (skip : Bool) (client : Nat) {o o' : EngineCoreOutput}
    (ho : o'.unscored = o.unscored) :
    unscoredOutputs (if skip then outputs' else appendOutput outputs' client o') =
      unscoredOutputs (if skip then outputs else appendOutput outputs client o) := by
  cases skip with
  | true => exact h
  | false => exact unscored_append h client (congrArg (fun o => [o]) ho)

/-- Two passes that differ in the score histories of their outputs. -/
structure UpdatePass.Similar (p q : UpdatePass μ) : Prop where
  sched : q.sched = p.sched
  running : q.stoppedRunningReqs = p.stoppedRunningReqs
  preempted : q.stoppedPreemptedReqs = p.stoppedPreemptedReqs
  outputs : unscoredOutputs q.outputs = unscoredOutputs p.outputs

/-- Updating a request keeps the two passes similar. -/
lemma UpdatePass.Similar.updateRequest {p q : UpdatePass μ} (h : p.Similar q) (so : SchedulerOutput β)
    (mo : ModelRunnerOutput) (finals : Dict ReqId (Option ℚ)) (hist hist' : Option (Dict ReqId (List ℚ))) (rid : ReqId) :
    (Scheduler.updateRequest ops cfg so mo finals hist p rid).Similar
      (Scheduler.updateRequest ops cfg so mo finals hist' q rid) := by
  obtain ⟨hs, hr, hp, ho⟩ := h
  unfold Scheduler.updateRequest
  rw [hs]
  cases p.sched.requests.get? rid with
  | none => exact ⟨hs, hr, hp, ho⟩
  | some r =>
    dsimp only
    split
    · split
      · exact ⟨rfl, congrArg (· ++ [rid]) hr, hp, unscored_appendOutput ho _ _ rfl⟩
      · exact ⟨rfl, hr, congrArg (· ++ [rid]) hp, unscored_appendOutput ho _ _ rfl⟩
    · exact ⟨rfl, hr, hp, unscored_appendOutput ho _ _ rfl⟩

/-- The score histories reach nothing but the outputs. -/
lemma updateFromOutput_history (s : Scheduler μ) (so : SchedulerOutput β) (mo : ModelRunnerOutput)
    (finals : Dict ReqId (Option ℚ)) (hist hist' : Option (Dict ReqId (List ℚ))) :
    (s.updateFromOutput ops cfg so mo finals hist').1 = (s.updateFromOutput ops cfg so mo finals hist).1 ∧
      unscoredOutputs (s.updateFromOutput ops cfg so mo finals hist').2 =
        unscoredOutputs (s.updateFromOutput ops cfg so mo finals hist).2 := by
  have hfold : ∀ (l : List ReqId) (p q : UpdatePass μ), p.Similar q →
      (l.foldl (Scheduler.updateRequest ops cfg so mo finals hist) p).Similar
        (l.foldl (Scheduler.updateRequest ops cfg so mo finals hist') q) := by
    intro l
    induction l with
    | nil => exact fun _ _ h => h
    | cons rid l ih => exact fun p q h => ih _ _ (h.updateRequest ops cfg so mo finals hist hist' rid)
  have hpruned : ∀ (l : List (Nat × List EngineCoreOutput)) (d d' : Dict Nat (List EngineCoreOutput)),
      unscoredOutputs d' = unscoredOutputs d →
      unscoredOutputs (l.foldl (fun d e => if e.2.isEmpty then d else d.set e.1 (d.getD e.1 [] ++ e.2)) d') =
        unscoredOutputs (l.foldl (fun d e => if e.2.isEmpty then d else d.set e.1 (d.getD e.1 [] ++ e.2)) d) := by
    intro l
    induction l with
    | nil => exact fun _ _ h => h
    | cons o l ih =>
      intro d d' h
      apply ih
      dsimp only
      split
      · exact h
      · exact unscored_append h o.1 rfl
  obtain ⟨hs, hr, hp, ho⟩ := hfold so.numScheduledTokens.keys { sched := s } { sched := s } ⟨rfl, rfl, rfl, rfl⟩
  unfold Scheduler.updateFromOutput
  dsimp only
  rw [hs, hr, hp]
  exact ⟨rfl, hpruned _ _ _ ho⟩

end Sched

namespace Trace
open Gambit.Lib

/-- A node without its scores. -/
def TraceNode.unscored (n : TraceNode) : TraceNode := { n with scoreHistory := [] }

namespace TraceTree
variable {t : TraceTree} {rid : ReqId}

/-- A tree without the scores of its nodes. -/
def unscored (t : TraceTree) : TraceTree := { t with nodes := t.nodes.mapVal fun _ n => n.unscored }

/-- Dropping scores keeps the traces. -/
lemma mem_unscored : rid ∈ t.unscored ↔ rid ∈ t := Dict.mem_mapVal _

/-- A node without its scores. -/
lemma getNode_unscored (t : TraceTree) (rid : ReqId) :
    t.unscored.getNode rid = (t.getNode rid).map TraceNode.unscored := Dict.get?_mapVal _ t.nodes rid

/-- What a node says apart from its scores. -/
lemma getNode_unscored_any (t : TraceTree) (rid : ReqId) {p : TraceNode → Bool} (h : ∀ n, p n.unscored = p n) :
    (t.unscored.getNode rid).any p = (t.getNode rid).any p := by
  rw [getNode_unscored]
  cases t.getNode rid with
  | none => rfl
  | some n => exact h n

/-- An update of the tree without the scores of the nodes. -/
lemma unscored_modify (t : TraceTree) (rid : ReqId) {f : TraceNode → TraceNode}
    (h : ∀ n, (f n).unscored = f n.unscored) : ({ t with nodes := t.nodes.modify rid f } : TraceTree).unscored =
      { t.unscored with nodes := t.unscored.nodes.modify rid f } := by
  unfold unscored
  rw [Dict.mapVal_modify (fun _ n => TraceNode.unscored n) h]

/-- A root is added without scores. -/
lemma unscored_addRoot (t : TraceTree) (rid : ReqId) : (t.addRoot rid).unscored = t.unscored.addRoot rid := by
  unfold unscored addRoot
  rw [Dict.mapVal_set]
  rfl

/-- So is a root that is ensured. -/
lemma unscored_ensureRoot (t : TraceTree) (rid : ReqId) : (t.ensureRoot rid).unscored = t.unscored.ensureRoot rid := by
  unfold ensureRoot
  rw [apply_ite unscored, unscored_addRoot]
  exact if_congr mem_unscored.symm rfl rfl

/-- Completing a trace and dropping scores commute. -/
lemma unscored_markCompleted (t : TraceTree) (rid : ReqId) (o : NodeOutput) :
    (t.markCompleted rid o).unscored = t.unscored.markCompleted rid o := by
  apply unscored_modify
  exact fun _ => rfl

/-- Pruning a trace and dropping scores commute. -/
lemma unscored_markPruned (t : TraceTree) (rid : ReqId) :
    (t.markPruned rid).unscored = t.unscored.markPruned rid := by
  apply unscored_modify
  exact fun _ => rfl

/-- Storing an output and dropping scores commute. -/
lemma unscored_setOutput (t : TraceTree) (rid : ReqId) (o : NodeOutput) :
    (t.setOutput rid o).unscored = t.unscored.setOutput rid o := by
  apply unscored_modify
  exact fun _ => rfl

/-- A recorded score is dropped. -/
lemma unscored_recordScore (t : TraceTree) (rid : ReqId) (q : ℚ) : (t.recordScore rid q).unscored = t.unscored := by
  unfold unscored recordScore
  rw [Dict.mapVal_modify_eq (fun _ n => TraceNode.unscored n)]
  exact fun _ => rfl

/-- Removing a trace and dropping scores commute. -/
lemma unscored_removeTrace (t : TraceTree) (rid : ReqId) :
    (t.removeTrace rid).unscored = t.unscored.removeTrace rid := by
  unfold removeTrace
  rw [apply_ite unscored]
  refine if_congr mem_unscored.symm ?_ rfl
  unfold unscored
  rw [Dict.mapVal_erase]

/-- Adding a branch and dropping scores commute. -/
lemma unscored_addBranch (t : TraceTree) (parent child : ReqId) (len : Nat) :
    t.unscored.addBranch parent child len = (t.addBranch parent child len).map unscored := by
  unfold addBranch
  rw [getNode_unscored, Option.map_map, Option.map_map]
  congr 1
  funext n
  simp only [Function.comp_apply]
  have hnode : t.unscored.branchNode n.unscored parent child len = (t.branchNode n parent child len).unscored := rfl
  have hset : ((t.nodes.set child (t.branchNode n parent child len)).mapVal fun _ n => n.unscored) =
      t.unscored.nodes.set child (t.branchNode n parent child len).unscored := Dict.mapVal_set _ t.nodes child _
  have hmod : ∀ d : Dict ReqId TraceNode, ((d.modify parent fun p =>
        { p with children := p.children ++ [child], lastBranchStep := t.currentStep }).mapVal fun _ n => n.unscored) =
      (d.mapVal fun _ n => n.unscored).modify parent fun p =>
        { p with children := p.children ++ [child], lastBranchStep := t.currentStep } :=
    Dict.mapVal_modify _ fun _ => rfl
  unfold unscored
  rw [hmod, hset]
  rfl

/-- The active traces are counted without looking at scores. -/
lemma getActiveCount_unscored (t : TraceTree) : t.unscored.getActiveCount = t.getActiveCount :=
  Dict.count_mapVal TraceNode.unscored TraceNode.isActive t.nodes

/-- So are the completed ones. -/
lemma getCompletedCount_unscored (t : TraceTree) : t.unscored.getCompletedCount = t.getCompletedCount :=
  Dict.count_mapVal TraceNode.unscored TraceNode.isCompleted t.nodes

/-- Whether a trace may branch does not depend on scores. -/
lemma canTraceBranch_unscored (t : TraceTree) (rid : ReqId) (n : Nat) :
    t.unscored.canTraceBranch rid n = t.canTraceBranch rid n := by
  unfold canTraceBranch canBranch
  rw [getNode_unscored, getActiveCount_unscored]
  cases t.getNode rid with
  | none => rfl
  | some n => rfl

/-- The ids of the nodes that satisfy a condition on what is left of them. -/
lemma filter_unscored (t : TraceTree) (p : ReqId × TraceNode → Bool) (h : ∀ rid n, p (rid, n.unscored) = p (rid, n)) :
    (t.unscored.nodes.entries.filter p).map Prod.fst = (t.nodes.entries.filter p).map Prod.fst := by
  unfold unscored
  rw [Dict.entries_mapVal, List.filter_map, List.map_map]
  congr 1
  apply List.filter_congr
  intro e _
  exact h e.1 e.2

end TraceTree
end Trace

namespace Engine
open Gambit.Lib Gambit.Sched Gambit.Trace

/-- Every worker answers with at least one score. -/
def FullReply (reply : List (Dict ReqId Payload)) : Prop := ∀ w ∈ reply, ∀ p ∈ w.values, p.values ≠ []

namespace EngineCore
variable {μ β : Type} {ops : Caches μ β} {cfg : VllmConfig} {i : StepInput} {e e' : EngineCore μ}

/-- What the engine without histories keeps of a state with histories. -/
def aggregated (e : EngineCore μ) : EngineCore μ :=
  { e with
    traceTree := e.traceTree.unscored
    traceScores := ∅
    traceScoreSums := e.traceScores.mapVal fun _ buf => buf.sum
    traceScoreCounts := e.traceScores.mapVal fun _ buf => buf.length }

/-- No score list is empty, nor is one in flight. -/
structure Full (e : EngineCore μ) : Prop where
  scores : ∀ rid buf, e.traceScores.get? rid = some buf → buf ≠ []
  future : ∀ reply, e.asyncScorerFuture = some reply → FullReply reply

/-- The engine with histories and the one without them. -/
structure Agree (e e' : EngineCore μ) : Prop where
  full : e.Full
  eq : e' = e.aggregated

namespace Agree

/-- An operation that looks at neither scores nor trees. -/
lemma map (h : Agree e e') {f : EngineCore μ → EngineCore μ} (hs : (f e).traceScores = e.traceScores)
    (hf : (f e).asyncScorerFuture = e.asyncScorerFuture) (ha : (f e).aggregated = f e.aggregated) :
    Agree (f e) (f e') := by
  obtain ⟨⟨hscores, hfuture⟩, rfl⟩ := h
  exact ⟨⟨by rw [hs]; exact hscores, by rw [hf]; exact hfuture⟩, ha.symm⟩

/-- Folding operations that agree. -/
lemma foldl {ι : Type} {f g : EngineCore μ → ι → EngineCore μ}
    (step : ∀ e e' x, Agree e e' → Agree (f e x) (g e' x)) (l : List ι) {e e' : EngineCore μ} (h : Agree e e') :
    Agree (l.foldl f e) (l.foldl g e') := by
  induction l generalizing e e' with
  | nil => exact h
  | cons x l ih => exact ih (step e e' x h)

/-- In a full state no history is empty. -/
lemma isEmpty_iff (h : e.Full) (rid : ReqId) : (e.traceScores.getD rid []).isEmpty ↔ rid ∉ e.traceScores := by
  rw [Dict.getD_eq]
  cases hget : e.traceScores.get? rid with
  | none => exact iff_of_true rfl (Dict.get?_eq_none.1 hget)
  | some buf =>
    refine iff_of_false (fun hemp => h.scores rid buf hget ?_) fun hn => hn (Dict.mem_of_get? hget)
    exact List.isEmpty_iff.1 hemp

/-- The completion limit is met in both modes. -/
lemma shouldStop (h : Agree e e') :
    e'.shouldStopAfterCompleted (cfg.withHistory false) = e.shouldStopAfterCompleted (cfg.withHistory true) := by
  obtain ⟨-, rfl⟩ := h
  unfold shouldStopAfterCompleted
  show (if _ then _ else decide (_ ≤ (e.traceTree.unscored.getCompletedCount : Int))) = _
  rw [TraceTree.getCompletedCount_unscored]
  rfl

/-- Both modes count the same active traces. -/
lemma activeCount (h : Agree e e') : e'.traceTree.getActiveCount = e.traceTree.getActiveCount := by
  obtain ⟨-, rfl⟩ := h
  exact TraceTree.getActiveCount_unscored e.traceTree

/-- A prune keeps the modes in agreement. -/
lemma pruneTrace (h : Agree e e') (rid : ReqId) : Agree (e.pruneTrace rid) (e'.pruneTrace rid) := by
  apply h.map (f := fun e => e.pruneTrace rid)
  · rfl
  · rfl
  · simp only [EngineCore.pruneTrace, aggregated, logDecision, TraceTree.unscored_markPruned]

/-- Several prunes do too. -/
lemma pruneAll (h : Agree e e') (rids : List ReqId) : Agree (e.pruneAll rids) (e'.pruneAll rids) :=
  foldl (fun _ _ rid h => h.pruneTrace rid) rids h

/-- A forced stop keeps the modes in agreement. -/
lemma forceStopTrace (h : Agree e e') (rid : ReqId) : Agree (e.forceStopTrace rid) (e'.forceStopTrace rid) := by
  apply h.map (f := fun e => e.forceStopTrace rid)
  · rfl
  · rfl
  · simp only [EngineCore.forceStopTrace, aggregated, logDecision, TraceTree.unscored_markPruned]

/-- Forcing all traces to stop does too. -/
lemma forceStopAll (h : Agree e e') : Agree e.forceStopAllActiveTraces e'.forceStopAllActiveTraces := by
  have hids : (e'.traceTree.nodes.entries.filter fun n => n.2.isActive ∧ n.1 ∉ e'.pendingForceStops).map Prod.fst =
      (e.traceTree.nodes.entries.filter fun n => n.2.isActive ∧ n.1 ∉ e.pendingForceStops).map Prod.fst := by
    obtain ⟨-, rfl⟩ := h
    exact TraceTree.filter_unscored e.traceTree _ fun _ _ => rfl
  unfold forceStopAllActiveTraces
  rw [hids]
  exact foldl (fun _ _ rid h => h.forceStopTrace rid) _ h

/-- The branch copies a history in one mode, and sum and count in the other. -/
lemma copyScores (hen : cfg.gambit.enable = true) (h : Agree e e') (parent child : ReqId) :
    Agree (e.copyScores (cfg.withHistory true) parent child) (e'.copyScores (cfg.withHistory false) parent child) := by
  obtain ⟨hfull, rfl⟩ := h
  have hon : aggregatesOnly (cfg.withHistory true) = false := Bool.and_false _
  have hoff : aggregatesOnly (cfg.withHistory false) = true := (Bool.and_true _).trans hen
  unfold EngineCore.copyScores
  rw [hon, hoff, if_neg Bool.false_ne_true, if_pos rfl]
  by_cases hmem : parent ∈ e.traceScores
  · have hcount : parent ∈ e.aggregated.traceScoreCounts := (Dict.mem_mapVal _).2 hmem
    rw [if_neg fun hemp => (isEmpty_iff hfull parent).1 hemp hmem, if_pos hcount]
    constructor
    · refine ⟨fun rid buf hget => ?_, hfull.future⟩
      have hset : (e.traceScores.set child (e.traceScores.getD parent [])).get? rid = some buf := hget
      rw [Dict.get?_set] at hset
      split at hset
      · cases hset
        intro hnil
        exact (isEmpty_iff hfull parent).1 (List.isEmpty_iff.2 hnil) hmem
      · exact hfull.scores rid buf hset
    · have hsum : (e.traceScores.mapVal fun _ buf => buf.sum).getD parent 0 = (e.traceScores.getD parent []).sum :=
        Dict.getD_mapVal List.sum e.traceScores parent []
      have hlen : (e.traceScores.mapVal fun _ buf => buf.length).getD parent 0 = (e.traceScores.getD parent []).length :=
        Dict.getD_mapVal List.length e.traceScores parent []
      simp only [aggregated, Dict.mapVal_set, hsum, hlen]
  · have hcount : parent ∉ e.aggregated.traceScoreCounts := fun hm => hmem ((Dict.mem_mapVal _).1 hm)
    rw [if_pos ((isEmpty_iff hfull parent).2 hmem), if_neg hcount]
    exact ⟨hfull, rfl⟩

/-- Adopting a branch keeps the modes in agreement. -/
lemma adoptChild (hen : cfg.gambit.enable = true) (h : Agree e e') (t : TraceTree) (parent : ReqId) (child : Request)
    (tokens : List Token) : Agree (e.adoptChild (cfg.withHistory true) t parent child tokens)
      (e'.adoptChild (cfg.withHistory false) t.unscored parent child tokens) := by
  obtain ⟨hfull, rfl⟩ := h
  have hqueued : Agree
      { e.logDecision (.branch parent child.requestId tokens) with
        traceTree := t
        scheduler := e.scheduler.addRequest cfg.policy child
        seqHsToCopy := e.seqHsToCopy ++ [(parent, child.requestId)] }
      { e.aggregated.logDecision (.branch parent child.requestId tokens) with
        traceTree := t.unscored
        scheduler := e.scheduler.addRequest cfg.policy child
        seqHsToCopy := e.seqHsToCopy ++ [(parent, child.requestId)] } := ⟨⟨hfull.scores, hfull.future⟩, rfl⟩
  have hcopied := hqueued.copyScores hen parent child.requestId
  exact hcopied.map (f := fun e => { e with
    traceTokenCounts := e.traceTokenCounts.set child.requestId 0
    strideLastTrigger := e.strideLastTrigger.set child.requestId 0
    gambitOutputTokenIds :=
      e.gambitOutputTokenIds.set child.requestId (e.gambitOutputTokenIds.getD parent []) }) rfl rfl rfl

/-- Creating a branch keeps the modes in agreement. -/
lemma createBranch (hen : cfg.gambit.enable = true) (h : Agree e e') (i : StepInput) (parent : ReqId) :
    Agree (e.createBranch (cfg.withHistory true) i parent).1 (e'.createBranch (cfg.withHistory false) i parent).1 := by
  have hstop : e'.shouldStopAfterCompleted (cfg.withHistory false) = e.shouldStopAfterCompleted (cfg.withHistory true) :=
    h.shouldStop
  have hcan : e'.traceTree.canTraceBranch parent (e'.tokenCount parent) =
      e.traceTree.canTraceBranch parent (e.tokenCount parent) := by
    obtain ⟨-, rfl⟩ := h
    exact TraceTree.canTraceBranch_unscored e.traceTree parent _
  unfold EngineCore.createBranch
  rw [hstop, hcan]
  split
  · exact h
  split
  · exact h
  have hreq : e'.scheduler.requests = e.scheduler.requests := by
    obtain ⟨-, rfl⟩ := h
    rfl
  rw [hreq]
  cases e.scheduler.requests.get? parent with
  | none => exact h
  | some r =>
    have hadd : e'.traceTree.addBranch parent (e'.traceTree.generateBranchId parent)
        (e'.gambitOutputTokenIds.getD parent []).length =
        (e.traceTree.addBranch parent (e.traceTree.generateBranchId parent)
          (e.gambitOutputTokenIds.getD parent []).length).map TraceTree.unscored := by
      obtain ⟨-, rfl⟩ := h
      exact TraceTree.unscored_addBranch e.traceTree parent _ _
    have hid : e'.traceTree.generateBranchId parent = e.traceTree.generateBranchId parent := by
      obtain ⟨-, rfl⟩ := h
      rfl
    dsimp only
    rw [hadd, hid]
    cases e.traceTree.addBranch parent (e.traceTree.generateBranchId parent)
        (e.gambitOutputTokenIds.getD parent []).length with
    | none => exact h
    | some t =>
      have hchild : createChildRequest (cfg.withHistory false) i r t.unscored.branchCounter
          (e.traceTree.generateBranchId parent) = createChildRequest (cfg.withHistory true) i r t.branchCounter
            (e.traceTree.generateBranchId parent) := rfl
      dsimp only [Option.map_some]
      rw [hchild]
      cases createChildRequest (cfg.withHistory true) i r t.branchCounter (e.traceTree.generateBranchId parent) with
      | none =>
        obtain ⟨hfull, rfl⟩ := h
        refine ⟨⟨hfull.scores, hfull.future⟩, ?_⟩
        simp only [aggregated, logDecision, TraceTree.unscored_removeTrace]
      | some c => exact h.adoptChild hen t parent c r.allTokenIds

/-- Branching within a capacity does too. -/
lemma branchWithin (hen : cfg.gambit.enable = true) (h : Agree e e') (i : StepInput) (capacity : Int)
    (l : List (ℚ × ReqId)) : Agree (e.branchWithin (cfg.withHistory true) i capacity l)
      (e'.branchWithin (cfg.withHistory false) i capacity l) := by
  induction l generalizing e e' with
  | nil => exact h
  | cons s l ih =>
    unfold EngineCore.branchWithin
    rw [h.activeCount]
    split
    · exact h
    · exact ih (h.createBranch hen i s.2)

/-- Both modes rank the same active traces. -/
lemma activeTraces (h : Agree e e') (avgs : Dict ReqId ℚ) : e'.activeTraces avgs = e.activeTraces avgs := by
  obtain ⟨-, rfl⟩ := h
  unfold EngineCore.activeTraces
  congr 1
  apply List.filter_congr
  intro s _
  have hnode : (e.aggregated.traceTree.getNode s.1).any (·.isActive) = (e.traceTree.getNode s.1).any (·.isActive) :=
    TraceTree.getNode_unscored_any e.traceTree s.1 fun _ => rfl
  exact decide_eq_decide.2 (and_congr_right fun _ => by rw [hnode])

/-- Swapping keeps the modes in agreement. -/
lemma swap (hen : cfg.gambit.enable = true) (h : Agree e e') (i : StepInput) (active candidates : List (ℚ × ReqId)) :
    Agree (e.swap (cfg.withHistory true) i active candidates)
      (e'.swap (cfg.withHistory false) i active candidates) := by
  have hk : (min (cfg.withHistory false).gambit.tournamentSwapK (active.length / 2 : Nat)).toNat =
      (min (cfg.withHistory true).gambit.tournamentSwapK (active.length / 2 : Nat)).toNat := rfl
  unfold EngineCore.swap
  dsimp only
  rw [hk]
  split
  · exact h
  · exact (h.pruneAll _).branchWithin hen i _ _

/-- A round of the tournament keeps the modes in agreement. -/
lemma tournamentRound (hen : cfg.gambit.enable = true) (h : Agree e e') (i : StepInput) (avgs : Dict ReqId ℚ) :
    Agree (e.tournamentRound (cfg.withHistory true) i avgs) (e'.tournamentRound (cfg.withHistory false) i avgs) := by
  have hround : Agree { e with tournamentLastRoundStep := e.tournamentStepCounter }
      { e' with tournamentLastRoundStep := e'.tournamentStepCounter } :=
    h.map (f := fun e => { e with tournamentLastRoundStep := e.tournamentStepCounter }) rfl rfl rfl
  unfold EngineCore.tournamentRound
  dsimp only
  rw [hround.activeTraces]
  split
  · exact hround
  have hwarm : warmedUp (cfg.withHistory false) { e' with tournamentLastRoundStep := e'.tournamentStepCounter } =
      warmedUp (cfg.withHistory true) { e with tournamentLastRoundStep := e.tournamentStepCounter } := by
    obtain ⟨-, rfl⟩ := h
    rfl
  rw [hwarm, h.activeCount]
  have hcap : (cfg.withHistory false).gambit.tournamentCapacity = (cfg.withHistory true).gambit.tournamentCapacity := rfl
  rw [hcap]
  split
  · unfold fillSlots
    dsimp only
    rw [h.activeCount, hcap]
    exact hround.branchWithin hen i _ _
  · unfold trimAndSwap
    dsimp only
    rw [h.activeCount, hcap]
    split
    · exact hround.swap hen i _ _
    · exact (hround.pruneAll _).swap hen i _ _

/-- So does a step of the tournament. -/
lemma tournamentStep (hen : cfg.gambit.enable = true) (h : Agree e e') (i : StepInput) (avgs : Dict ReqId ℚ) :
    Agree (e.tournamentStep (cfg.withHistory true) i avgs) (e'.tournamentStep (cfg.withHistory false) i avgs) := by
  have hfloor : e'.belowHardFloor (cfg.withHistory false) avgs = e.belowHardFloor (cfg.withHistory true) avgs := by
    obtain ⟨-, rfl⟩ := h
    rfl
  have hpruned := h.pruneAll (e.belowHardFloor (cfg.withHistory true) avgs)
  have hdue : ∀ x x' : EngineCore μ, Agree x x' →
      x'.roundDue (cfg.withHistory false) avgs = x.roundDue (cfg.withHistory true) avgs := by
    rintro x - ⟨-, rfl⟩
    rfl
  unfold EngineCore.tournamentStep
  dsimp only
  rw [hfloor, hdue _ _ hpruned]
  split
  · exact hpruned.tournamentRound hen i avgs
  · exact hpruned

/-- So does a step of the threshold mode. -/
lemma thresholdStep (hen : cfg.gambit.enable = true) (h : Agree e e') (i : StepInput) (avgs : Dict ReqId ℚ) :
    Agree (e.thresholdStep (cfg.withHistory true) i avgs) (e'.thresholdStep (cfg.withHistory false) i avgs) := by
  have hprune : ∀ rid avg, e'.shouldPruneThreshold (cfg.withHistory false) rid avg =
      e.shouldPruneThreshold (cfg.withHistory true) rid avg := by
    obtain ⟨-, rfl⟩ := h
    exact fun _ _ => rfl
  have hbranch : ∀ rid avg, e'.shouldBranchThreshold (cfg.withHistory false) rid avg =
      e.shouldBranchThreshold (cfg.withHistory true) rid avg := by
    intro rid avg
    obtain ⟨-, rfl⟩ := h
    have hnode : e.aggregated.traceTree.getNode rid = (e.traceTree.getNode rid).map TraceNode.unscored :=
      TraceTree.getNode_unscored e.traceTree rid
    unfold shouldBranchThreshold
    rw [hnode]
    cases e.traceTree.getNode rid with
    | none => rfl
    | some n => rfl
  have hmax : e'.traceTree.maxTraces = e.traceTree.maxTraces := by
    obtain ⟨-, rfl⟩ := h
    rfl
  unfold EngineCore.thresholdStep
  simp only [hprune, hbranch, hmax]
  exact (h.pruneAll _).branchWithin hen i _ _

/-- Registering a score keeps the modes in agreement. -/
lemma registerScore (h : Agree e e') (s : ReqId × ℚ) :
    Agree (registerScore (cfg.withHistory true) e s) (registerScore (cfg.withHistory false) e' s) := by
  obtain ⟨hfull, rfl⟩ := h
  have htree : ((e.traceTree.ensureRoot s.1).recordScore s.1 s.2).unscored = e.traceTree.unscored.ensureRoot s.1 := by
    rw [TraceTree.unscored_recordScore, TraceTree.unscored_ensureRoot]
  exact ⟨⟨hfull.scores, hfull.future⟩, by
    show ({ e.aggregated with traceTree := e.traceTree.unscored.ensureRoot s.1 } : EngineCore μ) =
      { e.aggregated with traceTree := ((e.traceTree.ensureRoot s.1).recordScore s.1 s.2).unscored }
    rw [htree]⟩

/-- Flushing the requests of the worker does too. -/
lemma flushHistories (h : Agree e e') : Agree e.flushHistories e'.flushHistories := by
  apply h.map (f := EngineCore.flushHistories)
  · unfold EngineCore.flushHistories
    rw [apply_ite EngineCore.traceScores, ite_self]
  · unfold EngineCore.flushHistories
    rw [apply_ite EngineCore.asyncScorerFuture, ite_self]
  · unfold EngineCore.flushHistories
    rw [apply_ite aggregated]
    rfl

/-- The decision step keeps the modes in agreement. -/
lemma decisionStep (hen : cfg.gambit.enable = true) (h : Agree e e') (i : StepInput) (avgs : Dict ReqId ℚ) :
    Agree (e.decisionStep (cfg.withHistory true) i avgs) (e'.decisionStep (cfg.withHistory false) i avgs) := by
  have hcount : Agree e.countRound e'.countRound := h.map (f := countRound) rfl rfl rfl
  have hreg := foldl (f := EngineCore.registerScore (cfg.withHistory true))
    (g := EngineCore.registerScore (cfg.withHistory false)) (fun _ _ s h => h.registerScore s) avgs.entries hcount
  unfold EngineCore.decisionStep
  dsimp only
  rw [hreg.shouldStop]
  split
  · exact hreg.forceStopAll
  · apply flushHistories
    have hmode : (cfg.withHistory false).gambit.tournamentMode = (cfg.withHistory true).gambit.tournamentMode := rfl
    rw [hmode]
    split
    · exact hreg.tournamentStep hen i avgs
    · exact hreg.thresholdStep hen i avgs

/-- Scores that are recorded are appended in one mode, and added up in the other. -/
lemma recordScore (h : Agree e e') (s : ReqId × List ℚ) (hs : s.2 ≠ []) :
    Agree (recordScore (cfg.withHistory true) e s) (recordScore (cfg.withHistory false) e' s) := by
  obtain ⟨hfull, rfl⟩ := h
  have hsum : (e.traceScores.mapVal fun _ buf => buf.sum).getD s.1 0 = (e.traceScores.getD s.1 []).sum :=
    Dict.getD_mapVal List.sum e.traceScores s.1 []
  have hlen : (e.traceScores.mapVal fun _ buf => buf.length).getD s.1 0 = (e.traceScores.getD s.1 []).length :=
    Dict.getD_mapVal List.length e.traceScores s.1 []
  have hon : EngineCore.recordScore (cfg.withHistory true) e s =
      { e with traceScores := e.traceScores.set s.1 (e.traceScores.getD s.1 [] ++ s.2) } := rfl
  have hoff : EngineCore.recordScore (cfg.withHistory false) e.aggregated s =
      { e.aggregated with
        traceScoreSums := e.aggregated.traceScoreSums.set s.1 (e.aggregated.traceScoreSums.getD s.1 0 + s.2.sum)
        traceScoreCounts :=
          e.aggregated.traceScoreCounts.set s.1 (e.aggregated.traceScoreCounts.getD s.1 0 + s.2.length) } := by
    unfold EngineCore.recordScore
    have hemp : s.2.isEmpty = false := List.isEmpty_eq_false_iff.2 hs
    rw [hemp]
    rfl
  rw [hon, hoff]
  constructor
  · refine ⟨fun rid buf hget => ?_, hfull.future⟩
    have hset : (e.traceScores.set s.1 (e.traceScores.getD s.1 [] ++ s.2)).get? rid = some buf := hget
    rw [Dict.get?_set] at hset
    split at hset
    · cases hset
      exact List.append_ne_nil_of_right_ne_nil _ hs
    · exact hfull.scores rid buf hset
  · simp only [aggregated, Dict.mapVal_set, hsum, hlen, List.sum_append, List.length_append]

/-- The same for the scores of a reply. -/
lemma recordScores (h : Agree e e') (scores : Dict ReqId (List ℚ)) (hs : ∀ s ∈ scores.entries, s.2 ≠ []) :
    Agree (e.recordScores (cfg.withHistory true) scores) (e'.recordScores (cfg.withHistory false) scores) := by
  unfold EngineCore.recordScores
  generalize scores.entries = l at hs
  induction l generalizing e e' with
  | nil => exact h
  | cons s l ih =>
    exact ih (h.recordScore s (hs s List.mem_cons_self)) fun s' hs' => hs s' (List.mem_cons_of_mem s hs')

/-- The two modes average to the same. -/
lemma averages (h : Agree e e') :
    e'.traceAvgScores (cfg.withHistory false) = e.traceAvgScores (cfg.withHistory true) := by
  obtain ⟨-, rfl⟩ := h
  have hon : e.traceAvgScores (cfg.withHistory true) =
      e.traceScores.filterMap fun _ buf => if buf.isEmpty then none else some (mean buf) := rfl
  have hoff : e.aggregated.traceAvgScores (cfg.withHistory false) =
      (e.traceScores.mapVal fun _ buf => buf.length).filterMap fun rid c =>
        if c = 0 then none else some ((e.traceScores.mapVal fun _ buf => buf.sum).getD rid 0 / c) := rfl
  rw [hon, hoff]
  apply Dict.ext
  unfold Dict.filterMap
  dsimp only
  rw [Dict.entries_mapVal, List.filterMap_map]
  apply List.filterMap_congr
  intro s hs
  have hget : e.traceScores.get? s.1 = some s.2 := Dict.get?_eq_some.2 hs
  have hsum : (e.traceScores.mapVal fun _ buf => buf.sum).getD s.1 0 = s.2.sum := by
    rw [Dict.getD_eq, Dict.get?_mapVal, hget]
    rfl
  simp only [Function.comp_apply, hsum, mean, List.isEmpty_iff, List.length_eq_zero_iff]

/-- The final average is the same in both modes. -/
lemma finalAvg (hen : cfg.gambit.enable = true) (h : Agree e e') (rid : ReqId) :
    e'.finalAvg (cfg.withHistory false) rid = e.finalAvg (cfg.withHistory true) rid := by
  obtain ⟨-, rfl⟩ := h
  have hon : aggregatesOnly (cfg.withHistory true) = false := Bool.and_false _
  have hoff : aggregatesOnly (cfg.withHistory false) = true := (Bool.and_true _).trans hen
  have hsum : e.aggregated.traceScoreSums.getD rid 0 = (e.traceScores.getD rid []).sum :=
    Dict.getD_mapVal List.sum e.traceScores rid []
  have hlen : e.aggregated.traceScoreCounts.getD rid 0 = (e.traceScores.getD rid []).length :=
    Dict.getD_mapVal List.length e.traceScores rid []
  unfold EngineCore.finalAvg
  rw [hon, hoff, if_pos rfl, if_neg Bool.false_ne_true, hsum, hlen]
  cases e.traceScores.getD rid [] with
  | nil => rfl
  | cons q buf => exact if_pos (Nat.succ_pos _)

end Agree

/-- The scores of full replies are not empty. -/
lemma mergeScores_ne_nil {reply : List (Dict ReqId Payload)} (h : FullReply reply) :
    ∀ s ∈ (mergeScores reply).entries, s.2 ≠ [] := by
  have hset : ∀ (d : Dict ReqId (List ℚ)) (k : ReqId) (v : List ℚ), (∀ s ∈ d.entries, s.2 ≠ []) → v ≠ [] →
      ∀ s ∈ (d.set k v).entries, s.2 ≠ [] := by
    intro d k v hd hv s hs
    have hget := Dict.get?_eq_some.2 hs
    rw [Dict.get?_set] at hget
    split at hget
    · cases hget
      exact hv
    · exact hd s (Dict.get?_eq_some.1 hget)
  have hworker : ∀ (l : List (ReqId × Payload)) (d : Dict ReqId (List ℚ)), (∀ s ∈ d.entries, s.2 ≠ []) →
      (∀ p ∈ l, p.2.values ≠ []) →
      ∀ s ∈ (l.foldl (fun scores p => scores.set p.1 p.2.values) d).entries, s.2 ≠ [] := by
    intro l
    induction l with
    | nil => exact fun d hd _ => hd
    | cons p l ih =>
      intro d hd hl
      exact ih _ (hset d p.1 _ hd (hl p List.mem_cons_self)) fun p' hp' => hl p' (List.mem_cons_of_mem p hp')
  have hreply : ∀ (ws : List (Dict ReqId Payload)) (d : Dict ReqId (List ℚ)), (∀ s ∈ d.entries, s.2 ≠ []) →
      FullReply ws → ∀ s ∈ (ws.foldl (fun scores w =>
        w.entries.foldl (fun scores p => scores.set p.1 p.2.values) scores) d).entries, s.2 ≠ [] := by
    intro ws
    induction ws with
    | nil => exact fun d hd _ => hd
    | cons w ws ih =>
      intro d hd hws
      apply ih _ (hworker w.entries d hd ?_) fun w' hw' => hws w' (List.mem_cons_of_mem w hw')
      exact fun p hp => hws w List.mem_cons_self p.2 (List.mem_map_of_mem hp)
  exact hreply reply ∅ (fun s hs => absurd hs List.not_mem_nil) h

namespace Agree

/-- A reply without an empty payload keeps the modes in agreement. -/
lemma takeReply (h : Agree e e') (collect : Bool) {reply : List (Dict ReqId Payload)} (hr : FullReply reply) :
    Agree (e.takeReply (cfg.withHistory true) collect reply) (e'.takeReply (cfg.withHistory false) collect reply) := by
  have hhidden : Agree
      { e with
        traceHiddenStateLast :=
          if collect then mergeHidden e.traceHiddenStateLast reply else e.traceHiddenStateLast
        record := { e.record with recorded := mergeScores reply } }
      { e' with
        traceHiddenStateLast :=
          if collect then mergeHidden e'.traceHiddenStateLast reply else e'.traceHiddenStateLast
        record := { e'.record with recorded := mergeScores reply } } :=
    h.map (f := fun e => { e with
      traceHiddenStateLast :=
        if collect then mergeHidden e.traceHiddenStateLast reply else e.traceHiddenStateLast
      record := { e.record with recorded := mergeScores reply } }) rfl rfl rfl
  exact hhidden.recordScores _ (mergeScores_ne_nil hr)

/-- The aggregation keeps the modes in agreement. -/
lemma aggregateAndDecide (hen : cfg.gambit.enable = true) (h : Agree e e') (i : StepInput) :
    Agree (e.aggregateAndDecide (cfg.withHistory true) i) (e'.aggregateAndDecide (cfg.withHistory false) i) := by
  have havg : e'.traceAvgScores (cfg.withHistory false) = e.traceAvgScores (cfg.withHistory true) := h.averages
  unfold EngineCore.aggregateAndDecide
  dsimp only
  rw [havg]
  split
  · exact h
  have hhand : Agree (e.handAverages (e.traceAvgScores (cfg.withHistory true)))
      (e'.handAverages (e.traceAvgScores (cfg.withHistory true))) :=
    h.map (f := fun x => x.handAverages (e.traceAvgScores (cfg.withHistory true))) rfl rfl rfl
  have hg : gambitEnabled (cfg.withHistory false) = gambitEnabled (cfg.withHistory true) := rfl
  rw [hg]
  split
  · exact hhand.decisionStep hen i _
  · exact hhand

/-- Consuming the reply in flight does too. -/
lemma consumeAsyncScores (hen : cfg.gambit.enable = true) (h : Agree e e') (i : StepInput) :
    Agree (e.consumeAsyncScores (cfg.withHistory true) i) (e'.consumeAsyncScores (cfg.withHistory false) i) := by
  have hfut : e'.asyncScorerFuture = e.asyncScorerFuture := by
    obtain ⟨-, rfl⟩ := h
    rfl
  have ha : (cfg.withHistory false).asyncScorer = (cfg.withHistory true).asyncScorer := rfl
  unfold EngineCore.consumeAsyncScores
  rw [ha, hfut]
  cases (cfg.withHistory true).asyncScorer with
  | false => exact h
  | true =>
    cases hreply : e.asyncScorerFuture with
    | none => exact h
    | some reply =>
      obtain ⟨hfull, rfl⟩ := h
      have hnone : Agree { e with asyncScorerFuture := none } { e.aggregated with asyncScorerFuture := none } := by
        refine ⟨⟨hfull.scores, fun reply hr => ?_⟩, rfl⟩
        cases hr
      have htaken : Agree
          ({ e with asyncScorerFuture := none }.takeReply (cfg.withHistory true) e.asyncScorerCollectHidden reply)
          ({ e.aggregated with asyncScorerFuture := none }.takeReply (cfg.withHistory false)
            e.asyncScorerCollectHidden reply) :=
        hnone.takeReply e.asyncScorerCollectHidden (hfull.future reply hreply)
      apply aggregateAndDecide hen
      exact htaken.map (f := fun x => { x with
        pendingHsClassification :=
          if (mergeScores reply).entries.isEmpty then x.pendingHsClassification
          else removeIds x.pendingHsClassification x.asyncScorerReqIds }) rfl rfl rfl

/-- Scoring the pending requests keeps the modes in agreement. -/
lemma scorePending (hen : cfg.gambit.enable = true) (h : Agree e e') (i : StepInput) (so : SchedulerOutput β)
    (hfull : ∀ collect ids, FullReply (i.scorer collect ids)) :
    Agree (e.scorePending (cfg.withHistory true) i so) (e'.scorePending (cfg.withHistory false) i so) := by
  have hdue : e'.dueRequests i so = e.dueRequests i so := by
    obtain ⟨-, rfl⟩ := h
    rfl
  have ha : (cfg.withHistory false).asyncScorer = (cfg.withHistory true).asyncScorer := rfl
  have hc : (cfg.withHistory false).gambit.collectHiddenStatesForMining =
      (cfg.withHistory true).gambit.collectHiddenStatesForMining := rfl
  unfold EngineCore.scorePending
  dsimp only
  rw [hdue, ha, hc]
  split
  · exact h
  have hrec : Agree { e with record := { e.record with evaluated := e.dueRequests i so } }
      { e' with record := { e'.record with evaluated := e.dueRequests i so } } :=
    h.map (f := fun x => { x with record := { x.record with evaluated := e.dueRequests i so } }) rfl rfl rfl
  split
  · obtain ⟨⟨hscores, -⟩, heq⟩ := hrec
    refine ⟨⟨hscores, fun reply hr => ?_⟩, ?_⟩
    · cases hr
      exact hfull _ _
    · exact congrArg (fun x : EngineCore μ => { x with
        asyncScorerFuture := some (i.scorer (cfg.withHistory true).gambit.collectHiddenStatesForMining
          (e.dueRequests i so))
        asyncScorerCollectHidden := (cfg.withHistory true).gambit.collectHiddenStatesForMining
        asyncScorerReqIds := e.dueRequests i so }) heq
  · apply aggregateAndDecide hen
    have hreply : FullReply (i.scorer (cfg.withHistory true).gambit.collectHiddenStatesForMining (e.dueRequests i so)) :=
      hfull _ _
    have htaken : Agree
        ({ e with record := { e.record with evaluated := e.dueRequests i so } }.takeReply (cfg.withHistory true)
          (cfg.withHistory true).gambit.collectHiddenStatesForMining
          (i.scorer (cfg.withHistory true).gambit.collectHiddenStatesForMining (e.dueRequests i so)))
        ({ e' with record := { e'.record with evaluated := e.dueRequests i so } }.takeReply (cfg.withHistory false)
          (cfg.withHistory true).gambit.collectHiddenStatesForMining
          (i.scorer (cfg.withHistory true).gambit.collectHiddenStatesForMining (e.dueRequests i so))) :=
      hrec.takeReply _ hreply
    exact htaken.map (f := fun x => { x with
      pendingHsClassification := removeIds x.pendingHsClassification
        (mergeScores (i.scorer (cfg.withHistory true).gambit.collectHiddenStatesForMining (e.dueRequests i so))).keys })
      rfl rfl rfl

/-- So do the scoring phases. -/
lemma scoringPhases (hen : cfg.gambit.enable = true) (h : Agree e e') (i : StepInput) (so : SchedulerOutput β)
    (hfull : ∀ collect ids, FullReply (i.scorer collect ids)) :
    Agree (e.scoringPhases (cfg.withHistory true) i so) (e'.scoringPhases (cfg.withHistory false) i so) :=
  ((h.consumeAsyncScores hen i).scorePending hen i so hfull).map (f := dropFinishedPending) rfl rfl rfl

/-- Triggers do not depend on the mode. -/
lemma detectTriggers (h : Agree e e') (mo : ModelRunnerOutput) :
    Agree (e.detectTriggers (cfg.withHistory true) mo) (e'.detectTriggers (cfg.withHistory false) mo) := by
  have hstep : ∀ (p q : EngineCore μ × List ReqId) (o : ReqId × List Token), Agree p.1 q.1 → q.2 = p.2 →
      Agree (detectTrigger (cfg.withHistory true) p o).1 (detectTrigger (cfg.withHistory false) q o).1 ∧
        (detectTrigger (cfg.withHistory false) q o).2 = (detectTrigger (cfg.withHistory true) p o).2 := by
    rintro ⟨x, l⟩ ⟨y, l'⟩ o hxy hll
    obtain ⟨hx, rfl⟩ : Agree x y := hxy
    obtain rfl : l' = l := hll
    have hstride : (cfg.withHistory false).gambit.scoringStride = (cfg.withHistory true).gambit.scoringStride := rfl
    have hhit : hitsBoundary (cfg.withHistory false) o.2 = hitsBoundary (cfg.withHistory true) o.2 := rfl
    have hfull : ∀ ts st, Full { x with traceTokenCounts := ts, strideLastTrigger := st } :=
      fun _ _ => ⟨hx.scores, hx.future⟩
    unfold detectTrigger
    dsimp only
    rw [hstride, hhit]
    split
    · have hlast : x.aggregated.strideLastTrigger = x.strideLastTrigger := rfl
      have hcount : x.aggregated.tokenCount o.1 = x.tokenCount o.1 := rfl
      rw [hlast, hcount]
      split
      · exact ⟨⟨hfull _ _, rfl⟩, rfl⟩
      · exact ⟨⟨hfull _ x.strideLastTrigger, rfl⟩, rfl⟩
    · split
      · exact ⟨⟨hfull _ x.strideLastTrigger, rfl⟩, rfl⟩
      · exact ⟨⟨hfull _ x.strideLastTrigger, rfl⟩, rfl⟩
  have hfold : ∀ (l : List (ReqId × List Token)) (p q : EngineCore μ × List ReqId), Agree p.1 q.1 → q.2 = p.2 →
      Agree (l.foldl (detectTrigger (cfg.withHistory true)) p).1 (l.foldl (detectTrigger (cfg.withHistory false)) q).1 ∧
        (l.foldl (detectTrigger (cfg.withHistory false)) q).2 =
          (l.foldl (detectTrigger (cfg.withHistory true)) p).2 := by
    intro l
    induction l with
    | nil => exact fun _ _ h hids => ⟨h, hids⟩
    | cons o l ih =>
      intro p q h hids
      have hone := hstep p q o h hids
      exact ih _ _ hone.1 hone.2
  obtain ⟨hagree, hids⟩ := hfold mo.entries (e, []) (e', []) h rfl
  unfold EngineCore.detectTriggers
  dsimp only
  rw [hids]
  exact hagree.map (f := fun x => { x with
    pendingHsClassification := addAll x.pendingHsClassification
      (mo.entries.foldl (detectTrigger (cfg.withHistory true)) (e, [])).2
    record := { x.record with triggered := (mo.entries.foldl (detectTrigger (cfg.withHistory true)) (e, [])).2 } })
    rfl rfl rfl

/-- The phases before the model's output is taken in. -/
lemma gambitPhases (hen : cfg.gambit.enable = true) (h : Agree e e') (i : StepInput) (so : SchedulerOutput β)
    (mo : ModelRunnerOutput) (hfull : ∀ collect ids, FullReply (i.scorer collect ids)) :
    Agree (e.gambitPhases (cfg.withHistory true) i so mo).1 (e'.gambitPhases (cfg.withHistory false) i so mo).1 ∧
      (e'.gambitPhases (cfg.withHistory false) i so mo).2 = (e.gambitPhases (cfg.withHistory true) i so mo).2 := by
  have hon : (cfg.withHistory true).gambit.enable = true := hen
  have hoff : (cfg.withHistory false).gambit.enable = true := hen
  have hg : gambitEnabled (cfg.withHistory false) = gambitEnabled (cfg.withHistory true) := rfl
  have hscored : Agree ((e.scoringPhases (cfg.withHistory true) i so).detectTriggers (cfg.withHistory true) mo)
      ((e'.scoringPhases (cfg.withHistory false) i so).detectTriggers (cfg.withHistory false) mo) :=
    (h.scoringPhases hen i so hfull).detectTriggers mo
  unfold EngineCore.gambitPhases
  rw [if_pos hon, if_pos hoff, hg]
  dsimp only
  split
  · refine ⟨hscored.map (f := fun x => (x.injectEos mo).1) rfl rfl rfl, ?_⟩
    obtain ⟨-, heq⟩ := hscored
    rw [heq]
    rfl
  · exact ⟨hscored, rfl⟩

/-- Finalising a trace keeps the modes in agreement. -/
lemma finalizeScore (hen : cfg.gambit.enable = true) (h : Agree e e') (rid : ReqId) :
    Agree (finalizeScore (cfg.withHistory true) e rid) (finalizeScore (cfg.withHistory false) e' rid) := by
  have havg : e'.finalAvg (cfg.withHistory false) rid = e.finalAvg (cfg.withHistory true) rid := h.finalAvg hen rid
  obtain ⟨hfull, rfl⟩ := h
  have htree : ∀ o : Option ℚ, (onRequestFinished e.traceTree rid o (e.gambitOutputTokenIds.get? rid)).unscored =
      onRequestFinished e.traceTree.unscored rid o (e.gambitOutputTokenIds.get? rid) := by
    intro o
    have hnode : ((e.traceTree.unscored.ensureRoot rid).getNode rid).any (·.isPruned) =
        ((e.traceTree.ensureRoot rid).getNode rid).any (·.isPruned) := by
      rw [← TraceTree.unscored_ensureRoot]
      exact TraceTree.getNode_unscored_any _ rid fun _ => rfl
    unfold onRequestFinished
    dsimp only
    rw [hnode]
    split
    · rw [TraceTree.unscored_setOutput, TraceTree.unscored_ensureRoot]
    · rw [TraceTree.unscored_markCompleted, TraceTree.unscored_ensureRoot]
  have herase : Agree
      { e with
        finalTraceScores := e.finalTraceScores.set rid (e.finalAvg (cfg.withHistory true) rid)
        traceScores := e.traceScores.erase rid
        traceScoreSums := e.traceScoreSums.erase rid
        traceScoreCounts := e.traceScoreCounts.erase rid
        pendingLowScoreStops := e.pendingLowScoreStops.erase rid
        pendingForceStops := e.pendingForceStops.erase rid
        traceTokenCounts := e.traceTokenCounts.erase rid
        strideLastTrigger := e.strideLastTrigger.erase rid }
      { e.aggregated with
        finalTraceScores := e.finalTraceScores.set rid (e.finalAvg (cfg.withHistory true) rid)
        traceScores := (∅ : Dict ReqId (List ℚ)).erase rid
        traceScoreSums := e.aggregated.traceScoreSums.erase rid
        traceScoreCounts := e.aggregated.traceScoreCounts.erase rid
        pendingLowScoreStops := e.pendingLowScoreStops.erase rid
        pendingForceStops := e.pendingForceStops.erase rid
        traceTokenCounts := e.traceTokenCounts.erase rid
        strideLastTrigger := e.strideLastTrigger.erase rid } := by
    constructor
    · refine ⟨fun x buf hget => ?_, hfull.future⟩
      have hold : (e.traceScores.erase rid).get? x = some buf := hget
      rw [Dict.get?_erase] at hold
      split at hold
      · cases hold
      · exact hfull.scores x buf hold
    · simp only [aggregated, Dict.mapVal_erase]
      rfl
  have hg : gambitEnabled (cfg.withHistory false) = gambitEnabled (cfg.withHistory true) := rfl
  unfold EngineCore.finalizeScore
  dsimp only
  rw [havg, hg]
  split
  · refine ⟨⟨herase.full.scores, herase.full.future⟩, ?_⟩
    have hdone := congrArg (fun x : EngineCore μ => { x with
      gambitOutputTokenIds := e.gambitOutputTokenIds.erase rid
      traceTree := onRequestFinished e.traceTree.unscored rid (e.finalAvg (cfg.withHistory true) rid)
        (e.gambitOutputTokenIds.get? rid) }) herase.eq
    refine hdone.trans ?_
    rw [← htree]
    rfl
  · exact herase

/-- The same for all finished traces. -/
lemma finalizeScores (hen : cfg.gambit.enable = true) (h : Agree e e') (finished : List ReqId) :
    Agree (e.finalizeScores (cfg.withHistory true) finished) (e'.finalizeScores (cfg.withHistory false) finished) :=
  foldl (fun _ _ rid h => h.finalizeScore hen rid) finished h

end Agree

end EngineCore

/-- A record without score histories. -/
def StepRecord.unscored (rec : StepRecord) : StepRecord := { rec with outputs := unscoredOutputs rec.outputs }

/-- Every worker answers with at least one score. -/
def Event.FullReplies : Event → Prop
  | .step i => ∀ collect ids, FullReply (i.scorer collect ids)
  | _ => True

/-- Attaching the final scores leaves the histories alone. -/
lemma unscored_attachFinalScores (finals : Dict ReqId (Option ℚ)) {outputs outputs' : Dict Nat (List EngineCoreOutput)}
    (h : unscoredOutputs outputs' = unscoredOutputs outputs) :
    unscoredOutputs (EngineCore.attachFinalScores finals outputs') =
      unscoredOutputs (EngineCore.attachFinalScores finals outputs) := by
  have hone : ∀ o : EngineCoreOutput,
      (if o.finishReason.isSome ∧ o.finalScore = none then
        { o with finalScore := (finals.get? o.requestId).join } else o).unscored =
      if o.unscored.finishReason.isSome ∧ o.unscored.finalScore = none then
        { o.unscored with finalScore := (finals.get? o.unscored.requestId).join } else o.unscored := by
    intro o
    rw [apply_ite EngineCoreOutput.unscored]
    rfl
  have hall : ∀ d : Dict Nat (List EngineCoreOutput), unscoredOutputs (EngineCore.attachFinalScores finals d) =
      EngineCore.attachFinalScores finals (unscoredOutputs d) := by
    intro d
    apply Dict.ext
    unfold unscoredOutputs EngineCore.attachFinalScores
    rw [Dict.entries_mapVal, Dict.entries_mapVal, Dict.entries_mapVal, Dict.entries_mapVal, List.map_map, List.map_map]
    apply List.map_congr_left
    intro e _
    simp only [Function.comp_apply, List.map_map]
    congr 1
    apply List.map_congr_left
    intro o _
    exact hone o
  rw [hall, hall, h]

namespace EngineCore
variable {μ β : Type} {ops : Caches μ β} {cfg : VllmConfig} {i : StepInput} {e e' : EngineCore μ}

/-- The two engines after an event. -/
structure AgreeAfter (e e' : EngineCore μ) : Prop where
  full : e.Full
  eq : { e' with record := {} } = ({ e.aggregated with record := {} } : EngineCore μ)
  record : e'.record.unscored = e.record.unscored

/-- Two engines that agree also do so after an event. -/
lemma Agree.after (h : Agree e e') : AgreeAfter e e' := by
  obtain ⟨hfull, rfl⟩ := h
  exact ⟨hfull, rfl, rfl⟩

/-- The end of a step, from what `update_from_output` returned. -/
def conclude (cfg : VllmConfig) (i : StepInput) (s : Scheduler μ) (outs : Dict Nat (List EngineCoreOutput))
    (e : EngineCore μ) : EngineCore μ :=
  let e := { e with scheduler := s, record := { e.record with finished := s.finishedReqIds } }
  let e := e.finalizeScores cfg (i.setOrder s.finishedReqIds)
  { e with record := { e.record with outputs := attachFinalScores e.finalTraceScores outs } }

/-- The end of a step with outputs that are similar. -/
lemma Agree.conclude (hen : cfg.gambit.enable = true) (h : Agree e e') (i : StepInput) (s : Scheduler μ)
    {outs outs' : Dict Nat (List EngineCoreOutput)} (ho : unscoredOutputs outs' = unscoredOutputs outs) :
    AgreeAfter (e.conclude (cfg.withHistory true) i s outs) (e'.conclude (cfg.withHistory false) i s outs') := by
  have htaken : Agree { e with scheduler := s, record := { e.record with finished := s.finishedReqIds } }
      { e' with scheduler := s, record := { e'.record with finished := s.finishedReqIds } } :=
    h.map (f := fun x => { x with
      scheduler := s, record := { x.record with finished := s.finishedReqIds } }) rfl rfl rfl
  have hdone := htaken.finalizeScores hen (i.setOrder s.finishedReqIds)
  unfold EngineCore.conclude
  dsimp only
  generalize ({ e with scheduler := s, record := { e.record with finished := s.finishedReqIds } } :
    EngineCore μ).finalizeScores (cfg.withHistory true) (i.setOrder s.finishedReqIds) = x at hdone
  generalize ({ e' with scheduler := s, record := { e'.record with finished := s.finishedReqIds } } :
    EngineCore μ).finalizeScores (cfg.withHistory false) (i.setOrder s.finishedReqIds) = x' at hdone
  obtain ⟨hfull, rfl⟩ := hdone
  refine ⟨⟨hfull.scores, hfull.future⟩, rfl, ?_⟩
  have hatt : unscoredOutputs (attachFinalScores x.finalTraceScores outs') =
      unscoredOutputs (attachFinalScores x.finalTraceScores outs) := unscored_attachFinalScores _ ho
  exact congrArg (fun o => { x.record with outputs := o }) hatt

/-- The last part of a step keeps the modes in agreement. -/
lemma Agree.finishStep (hen : cfg.gambit.enable = true) (h : Agree e e') (i : StepInput) (so : SchedulerOutput β)
    (mo : ModelRunnerOutput) : AgreeAfter (e.finishStep ops (cfg.withHistory true) i so mo)
      (e'.finishStep ops (cfg.withHistory false) i so mo) := by
  have hcapture : Agree (if gambitEnabled cfg then e.captureTokens mo else e)
      (if gambitEnabled cfg then e'.captureTokens mo else e') := by
    split
    · exact h.map (f := fun x => x.captureTokens mo) rfl rfl rfl
    · exact h
  have hon : e.finishStep ops (cfg.withHistory true) i so mo =
      (if gambitEnabled cfg then e.captureTokens mo else e).conclude (cfg.withHistory true) i
        (Scheduler.updateFromOutput ops cfg (if gambitEnabled cfg then e.captureTokens mo else e).scheduler so mo
          (if gambitEnabled cfg then e.captureTokens mo else e).finalTraceScores
          (histories (cfg.withHistory true) (if gambitEnabled cfg then e.captureTokens mo else e))).1
        (Scheduler.updateFromOutput ops cfg (if gambitEnabled cfg then e.captureTokens mo else e).scheduler so mo
          (if gambitEnabled cfg then e.captureTokens mo else e).finalTraceScores
          (histories (cfg.withHistory true) (if gambitEnabled cfg then e.captureTokens mo else e))).2 := rfl
  have hoff : e'.finishStep ops (cfg.withHistory false) i so mo =
      (if gambitEnabled cfg then e'.captureTokens mo else e').conclude (cfg.withHistory false) i
        (Scheduler.updateFromOutput ops cfg (if gambitEnabled cfg then e'.captureTokens mo else e').scheduler so mo
          (if gambitEnabled cfg then e'.captureTokens mo else e').finalTraceScores
          (histories (cfg.withHistory false) (if gambitEnabled cfg then e'.captureTokens mo else e'))).1
        (Scheduler.updateFromOutput ops cfg (if gambitEnabled cfg then e'.captureTokens mo else e').scheduler so mo
          (if gambitEnabled cfg then e'.captureTokens mo else e').finalTraceScores
          (histories (cfg.withHistory false) (if gambitEnabled cfg then e'.captureTokens mo else e'))).2 := rfl
  rw [hon, hoff]
  generalize (if gambitEnabled cfg then e.captureTokens mo else e) = x at hcapture
  generalize (if gambitEnabled cfg then e'.captureTokens mo else e') = x' at hcapture
  have hs : x'.scheduler = x.scheduler ∧ x'.finalTraceScores = x.finalTraceScores := by
    obtain ⟨-, rfl⟩ := hcapture
    exact ⟨rfl, rfl⟩
  obtain ⟨hsched, houts⟩ := updateFromOutput_history ops cfg x.scheduler so mo x.finalTraceScores
    (histories (cfg.withHistory true) x) (histories (cfg.withHistory false) x')
  rw [hs.1, hs.2, hsched]
  exact hcapture.conclude hen i _ houts

/-- The cleanup of an idle step does too. -/
lemma Agree.idleCleanup (h : Agree e e') :
    Agree (e.idleCleanup (cfg.withHistory true)) (e'.idleCleanup (cfg.withHistory false)) := by
  have hg : gambitEnabled (cfg.withHistory false) = gambitEnabled (cfg.withHistory true) := rfl
  obtain ⟨hfull, rfl⟩ := h
  have hleft : (e.aggregated.traceTree.nodes.entries.filter fun n => n.2.isActive).map Prod.fst =
      (e.traceTree.nodes.entries.filter fun n => n.2.isActive).map Prod.fst :=
    TraceTree.filter_unscored e.traceTree _ fun _ _ => rfl
  have hmark : ∀ (l : List ReqId) (t : TraceTree),
      (l.foldl TraceTree.markPruned t).unscored = l.foldl TraceTree.markPruned t.unscored := by
    intro l
    induction l with
    | nil => exact fun _ => rfl
    | cons rid l ih =>
      intro t
      rw [List.foldl_cons, List.foldl_cons, ih, TraceTree.unscored_markPruned]
  unfold EngineCore.idleCleanup
  rw [hg, hleft]
  split
  · refine ⟨⟨hfull.scores, hfull.future⟩, ?_⟩
    simp only [aggregated, hmark]
  · exact ⟨hfull, rfl⟩

/-- A step keeps the modes in agreement. -/
lemma Agree.step (hen : cfg.gambit.enable = true) (h : Agree e e') (i : StepInput)
    (hfull : ∀ collect ids, FullReply (i.scorer collect ids)) :
    AgreeAfter (e.step ops (cfg.withHistory true) i) (e'.step ops (cfg.withHistory false) i) := by
  have hreq : e'.scheduler.hasRequests = e.scheduler.hasRequests := by
    obtain ⟨-, rfl⟩ := h
    rfl
  have hsched : ∀ b, e.scheduler.schedule ops (cfg.withHistory b) i.grammarReady =
      e.scheduler.schedule ops cfg i.grammarReady := fun b => Scheduler.schedule_withHistory ops cfg i.grammarReady _
  have hafter : Agree (e.afterSchedule ops (cfg.withHistory true) i).1 (e'.afterSchedule ops (cfg.withHistory false) i).1 ∧
      (e'.afterSchedule ops (cfg.withHistory false) i).2 = (e.afterSchedule ops (cfg.withHistory true) i).2 := by
    obtain ⟨hf, rfl⟩ := h
    have hs : e.aggregated.scheduler = e.scheduler := rfl
    unfold EngineCore.afterSchedule
    rw [hs, hsched, hsched]
    exact ⟨⟨⟨hf.scores, hf.future⟩, rfl⟩, rfl⟩
  unfold EngineCore.step
  rw [hreq]
  split
  · obtain ⟨hagree, hso⟩ := hafter
    obtain ⟨hphases, hmo⟩ := hagree.gambitPhases hen i (e.afterSchedule ops (cfg.withHistory true) i).2
      (modelOutput i (e.afterSchedule ops (cfg.withHistory true) i).2) hfull
    dsimp only
    rw [hso, hmo]
    exact hphases.finishStep hen i _ _
  · have hclear : Agree { e with record := {} } { e' with record := {} } :=
      h.map (f := fun x => { x with record := {} }) rfl rfl rfl
    exact hclear.idleCleanup.after

/-- An added request keeps the modes in agreement. -/
lemma Agree.addRequest (h : Agree e e') (r : Request) :
    Agree (e.addRequest (cfg.withHistory true) r) (e'.addRequest (cfg.withHistory false) r) := by
  have hg : gambitEnabled (cfg.withHistory false) = gambitEnabled (cfg.withHistory true) := rfl
  obtain ⟨hf, rfl⟩ := h
  have hroot : (if r.requestId ∉ e.traceTree ∧ isSamplingChild r.requestId then
        e.traceTree.addRoot r.requestId else e.traceTree).unscored =
      if r.requestId ∉ e.traceTree.unscored ∧ isSamplingChild r.requestId then
        e.traceTree.unscored.addRoot r.requestId else e.traceTree.unscored := by
    rw [apply_ite TraceTree.unscored, TraceTree.unscored_addRoot]
    exact if_congr (and_congr_left' (not_congr TraceTree.mem_unscored.symm)) rfl rfl
  unfold EngineCore.addRequest
  dsimp only
  rw [hg]
  split
  · refine ⟨⟨hf.scores, hf.future⟩, ?_⟩
    unfold aggregated
    dsimp only
    rw [hroot]
    rfl
  · exact ⟨⟨hf.scores, hf.future⟩, rfl⟩

/-- The record does not matter for a request that is added. -/
lemma addRequest_record (cfg : VllmConfig) (e : EngineCore μ) (r : Request) :
    ({ ({ e with record := {} } : EngineCore μ).addRequest cfg r with record := {} } : EngineCore μ) =
      { e.addRequest cfg r with record := {} } := by
  unfold EngineCore.addRequest
  dsimp only
  split
  · rfl
  · rfl

/-- Every event is handled alike. -/
lemma AgreeAfter.handle (hen : cfg.gambit.enable = true) (h : AgreeAfter e e') (ev : Event) (hfull : ev.FullReplies) :
    AgreeAfter (e.handle ops (cfg.withHistory true) ev) (e'.handle ops (cfg.withHistory false) ev) := by
  have hagree : Agree { e with record := {} } { e' with record := {} } := ⟨⟨h.full.scores, h.full.future⟩, h.eq⟩
  cases ev with
  | addRequest r =>
    have hadd : Agree (EngineCore.addRequest (cfg.withHistory true) { e with record := {} } r)
        (EngineCore.addRequest (cfg.withHistory false) { e' with record := {} } r) := hagree.addRequest r
    have hafter := (hadd.map (f := fun x => { x with record := {} }) rfl rfl rfl).after
    rw [addRequest_record, addRequest_record] at hafter
    exact hafter
  | abortRequests rids =>
    exact (hagree.map (f := fun x => { x.abortRequests ops rids with record := {} }) rfl rfl rfl).after
  | postStep drafts =>
    exact (hagree.map (f := fun x => { x.postStep drafts with record := {} }) rfl rfl rfl).after
  | step i =>
    have hon : ({ e with record := {} } : EngineCore μ).step ops (cfg.withHistory true) i =
        e.step ops (cfg.withHistory true) i := rfl
    have hoff : ({ e' with record := {} } : EngineCore μ).step ops (cfg.withHistory false) i =
        e'.step ops (cfg.withHistory false) i := rfl
    have hstep : AgreeAfter (({ e with record := {} } : EngineCore μ).step ops (cfg.withHistory true) i)
        (({ e' with record := {} } : EngineCore μ).step ops (cfg.withHistory false) i) := hagree.step hen i hfull
    rw [hon, hoff] at hstep
    exact hstep

end EngineCore

variable {μ β : Type} {ops : Caches μ β} {cfg : VllmConfig} {m : μ} {h : List Event} {os os' : List StepRecord}
variable {e e' : EngineCore μ}

/-- A run with histories is a run without them, through the aggregated states. -/
lemma aggregated_of_runs (hen : cfg.gambit.enable = true)
    (run : (engineMachine ops (cfg.withHistory true) m).Runs h os e) (hfull : ∀ ev ∈ h, ev.FullReplies) :
    ∃ os' e', (engineMachine ops (cfg.withHistory false) m).Runs h os' e' ∧
      os'.map StepRecord.unscored = os.map StepRecord.unscored ∧ EngineCore.AgreeAfter e e' := by
  induction run with
  | init =>
    have htree : EngineCore.freshTree (cfg.withHistory false) = (EngineCore.freshTree (cfg.withHistory true)).unscored := by
      have hmode : (cfg.withHistory false).gambit.tournamentMode = (cfg.withHistory true).gambit.tournamentMode := rfl
      unfold EngineCore.freshTree
      rw [hmode, apply_ite TraceTree.unscored]
      rfl
    refine ⟨[], _, .init, rfl, ⟨⟨fun rid buf hget => ?_, fun reply hr => ?_⟩, ?_, rfl⟩⟩
    · cases hget
    · cases hr
    · exact congrArg (fun t : TraceTree => ({ scheduler := { caches := m }, traceTree := t } : EngineCore μ)) htree
  | @step h os e ev run hok ih =>
    obtain ⟨os', e', run', hos, hagree⟩ := ih fun ev hm => hfull ev (List.mem_append_left _ hm)
    have hnext : EngineCore.AgreeAfter (e.handle ops (cfg.withHistory true) ev) (e'.handle ops (cfg.withHistory false) ev) :=
      hagree.handle hen ev (hfull ev (List.mem_append_right _ List.mem_cons_self))
    refine ⟨_, _, run'.step hok, ?_, hnext⟩
    rw [List.map_append, List.map_append, hos]
    exact congrArg (_ ++ [·]) hnext.record

/-- The two ways of keeping scores agree: on the same events, with answers that are not empty, the engine without
score histories goes through the same steps, averages, decisions and outputs as the engine with them (up to the
histories in the outputs), with the same final scores and the same tree up to the scores in its nodes. -/
theorem score_modes_agree (hen : cfg.gambit.enable = true)
    (run : (engineMachine ops (cfg.withHistory true) m).Runs h os e)
    (run' : (engineMachine ops (cfg.withHistory false) m).Runs h os' e') (hfull : ∀ ev ∈ h, ev.FullReplies) :
    os'.map StepRecord.unscored = os.map StepRecord.unscored ∧ e'.finalTraceScores = e.finalTraceScores ∧
      e'.traceTree = e.traceTree.unscored ∧ e'.scheduler = e.scheduler ∧
      e'.traceScoreSums = (e.traceScores.mapVal fun _ buf => buf.sum) ∧
      e'.traceScoreCounts = e.traceScores.mapVal fun _ buf => buf.length := by
  obtain ⟨os₁, e₁, run₁, hos, hagree⟩ := aggregated_of_runs hen run hfull
  have hsame := run₁.eq_exec.symm.trans run'.eq_exec
  cases hsame
  have hfinal := congrArg (fun x : EngineCore μ => x.finalTraceScores) hagree.eq
  have htree := congrArg (fun x : EngineCore μ => x.traceTree) hagree.eq
  have hsched := congrArg (fun x : EngineCore μ => x.scheduler) hagree.eq
  have hsums := congrArg (fun x : EngineCore μ => x.traceScoreSums) hagree.eq
  have hcounts := congrArg (fun x : EngineCore μ => x.traceScoreCounts) hagree.eq
  exact ⟨hos, hfinal, htree, hsched, hsums, hcounts⟩

/-- Threshold mode in which every scored trace may branch. -/
def scoreModeSample : VllmConfig where
  gambit :=
    { enable := true
      enableBranching := true
      doubleNewLineTokenId := some [7]
      tournamentMode := false
      maxTotalTraces := 2
      branchCooldownSteps := 0
      minTokensBeforeBranch := 0 }
  scheduler := {}

/-- A root that is scored and branches, and then both traces end. -/
def scoreModeEvents : List Event :=
  [.addRequest
      { requestId := "0_1".toList
        promptTokenIds := [1, 2, 3]
        eosTokenId := some 9
        samplingParams := {} },
    .step (.ofSamples (fun _ => [7]) fun _ => 9 / 10),
    .step (.ofSamples (fun _ => [5]) fun _ => 9 / 10),
    .step (.ofSamples (fun _ => [9]) fun _ => 9 / 10)]

/-- The final scores of both traces without score histories: those with them. -/
theorem score_modes_agree_branching :
    ((engineMachine .unbounded (scoreModeSample.withHistory false) ()).exec scoreModeEvents).2.finalTraceScores.entries =
      [("gambit_0_0_1".toList, some (9 / 10)), ("0_1".toList, some (9 / 10))] := by
  have hon : (engineMachine .unbounded (scoreModeSample.withHistory true) ()).OkFrom [] scoreModeEvents := by
    decide +kernel
  have hoff : (engineMachine .unbounded (scoreModeSample.withHistory false) ()).OkFrom [] scoreModeEvents := by
    decide +kernel
  have hone : ∀ (t : Token) (collect : Bool) (ids : List ReqId),
      FullReply ((StepInput.ofSamples (fun _ => [t]) fun _ => 9 / 10).scorer collect ids) := by
    intro t collect ids w hw p hp
    rw [List.mem_singleton.1 hw] at hp
    obtain ⟨x, hx, rfl⟩ := List.mem_map.1 hp
    obtain ⟨rid, -, rfl⟩ := List.mem_map.1 hx
    exact List.cons_ne_nil _ _
  have hfull : ∀ ev ∈ scoreModeEvents, ev.FullReplies := by
    intro ev hev
    simp only [scoreModeEvents, List.mem_cons, List.not_mem_nil, or_false] at hev
    rcases hev with rfl | rfl | rfl | rfl
    · trivial
    · exact hone 7
    · exact hone 5
    · exact hone 9
  have hagree := score_modes_agree rfl (Machine.Runs.of_exec hon) (Machine.Runs.of_exec hoff) hfull
  rw [hagree.2.1]
  decide +kernel

end Engine
end Gambit
