import Gambit.Sched.Update
import Gambit.Trace.Tree

/-!
# The engine: state and inputs of a step

Model of the Gambit state of `vllm/v1/engine/core.py` (`EngineCore.__init__`), and of what a step
takes from outside: the tokens the model samples, the replies of the scorer, random choices, the
grammars that are compiled, whether building a child request raises, and the order in which a Python
`set` is iterated, which the language leaves open.

Python sets are lists without repetition in the order of insertion. Every iteration over a set whose
order can matter goes through `StepInput.setOrder`.

`StepRecord` is a history variable: it collects what the current step did (what was scheduled,
triggered, evaluated, recorded, decided, evicted and finished), and no function of the model reads
it.
-/

namespace Gambit.Engine
open Gambit.Lib Gambit.Sched Gambit.Trace

/-- What a scorer RPC returns for one request: a score, a list of scores, or the dictionary of the
variant with hidden states. -/
inductive Payload where
  | score (q : ℚ)
  | scores (qs : List ℚ)
  | withHidden (qs : List ℚ) (hiddenState : Option (List ℚ))
  deriving DecidableEq

/-- The scores of a payload; a single score counts as a list of one. -/
def Payload.values : Payload → List ℚ
  | .score q => [q]
  | .scores qs => qs
  | .withHidden qs _ => qs

/-- The hidden state of a payload, if it carries one. -/
def Payload.hiddenState : Payload → Option (List ℚ)
  | .withHidden _ hs => hs
  | _ => none

/-- An enumeration of the elements of a set in some order. -/
structure SetOrder where
  toFun : List ReqId → List ReqId
  perm : ∀ l, (toFun l).Perm l

instance : CoeFun SetOrder fun _ => List ReqId → List ReqId := ⟨SetOrder.toFun⟩

/-- The order of insertion. -/
def SetOrder.insertion : SetOrder := ⟨id, fun _ => .refl _⟩

/-- What a step takes from outside. -/
structure StepInput where
  /-- Which grammars are compiled. -/
  grammarReady : ReqId → Bool := fun _ => true
  /-- The order of the rows of the worker's batch. -/
  rows : SetOrder := .insertion
  /-- The tokens the model samples for a request of the batch. -/
  sampled : ReqId → List Token
  /-- The replies of the workers to a scorer RPC, with or without hidden states. -/
  scorer : Bool → List ReqId → List (Dict ReqId Payload)
  /-- A worker answers for requested ids only. -/
  scorer_subset : ∀ b ids, ∀ d ∈ scorer b ids, ∀ rid ∈ d, rid ∈ ids
  /-- The order of iteration over a set. -/
  setOrder : SetOrder := .insertion
  /-- Python `random.sample`. -/
  sample : List (ℚ × ReqId) → Nat → List (ℚ × ReqId) := fun l n => l.take n
  /-- `random.sample` draws distinct positions, as many as asked for. -/
  sample_spec : ∀ l n, (sample l n).Subperm l ∧ (n ≤ l.length → (sample l n).length = n)
  /-- The seed drawn for a child request. -/
  seed : ReqId → Int := fun _ => 0
  /-- Whether `Request(...)` raises for a child request. -/
  buildFails : ReqId → Bool := fun _ => false

/-- `random.sample` as a prefix, for inputs that do not care. -/
lemma take_sample_spec (l : List (ℚ × ReqId)) (n : Nat) :
    (l.take n).Subperm l ∧ (n ≤ l.length → (l.take n).length = n) :=
  ⟨(List.take_sublist n l).subperm, fun h => by rw [List.length_take, min_eq_left h]⟩

/-- A step in which the model samples the given tokens and one worker answers with the given
scores. -/
def StepInput.ofSamples (sampled : ReqId → List Token) (score : ReqId → ℚ) : StepInput where
  sampled := sampled
  scorer _ ids := [.ofKeys ids.dedup (List.nodup_dedup ids) fun rid => .scores [score rid]]
  scorer_subset _ ids d hd rid hrid := by
    rw [List.mem_singleton] at hd
    subst hd
    rw [Dict.mem_def, Dict.keys_ofKeys] at hrid
    exact List.mem_dedup.1 hrid
  sample_spec := take_sample_spec

/-- A decision of the search, as the engine logs it; a branch comes with the tokens of its parent
at that moment, and a branch whose request cannot be built is logged as failed. -/
inductive Decision where
  | prune (rid : ReqId)
  | forceStop (rid : ReqId)
  | branch (parent child : ReqId) (parentTokens : List Token)
  | branchFailed (parent child : ReqId)
  deriving DecidableEq

/-- What one step did. -/
structure StepRecord where
  /-- `num_scheduled_tokens` of the scheduler output. -/
  scheduled : Dict ReqId Int := ∅
  /-- The sampled tokens, before EOS injection. -/
  sampled : ModelRunnerOutput := ∅
  /-- The requests at a step boundary. -/
  triggered : List ReqId := []
  /-- The requests of the scorer RPC of this step. -/
  evaluated : List ReqId := []
  /-- The scores recorded in this step. -/
  recorded : Dict ReqId (List ℚ) := ∅
  /-- The averages this step handed to the scheduler, empty without any. -/
  averages : Dict ReqId ℚ := ∅
  /-- The decisions of this step, in order. -/
  decisions : List Decision := []
  /-- The `sync_sequence_histories` RPCs of this step: histories to clear and to copy. -/
  synced : List (List ReqId × List (ReqId × ReqId)) := []
  /-- The requests evicted by `_stop_lowest_running`. -/
  evicted : List ReqId := []
  /-- The requests that finished in `update_from_output`. -/
  finished : List ReqId := []
  /-- The `EngineCoreOutput`s of each client. -/
  outputs : Dict Nat (List EngineCoreOutput) := ∅
  deriving DecidableEq

/-- The Gambit state of Python `EngineCore`, its scheduler and the record of the current step. -/
structure EngineCore (μ : Type) where
  scheduler : Scheduler μ
  traceTree : TraceTree
  traceScores : Dict ReqId (List ℚ) := ∅
  traceScoreSums : Dict ReqId ℚ := ∅
  traceScoreCounts : Dict ReqId Nat := ∅
  finalTraceScores : Dict ReqId (Option ℚ) := ∅
  pendingLowScoreStops : List ReqId := []
  pendingForceStops : List ReqId := []
  traceTokenCounts : Dict ReqId Nat := ∅
  strideLastTrigger : Dict ReqId Nat := ∅
  pendingHsClassification : List ReqId := []
  traceHiddenStateLast : Dict ReqId (List ℚ) := ∅
  gambitOutputTokenIds : Dict ReqId (List Token) := ∅
  tournamentStepCounter : Nat := 0
  tournamentLastRoundStep : Int := -1
  seqHsToClear : List ReqId := []
  seqHsToCopy : List (ReqId × ReqId) := []
  asyncScorerFuture : Option (List (Dict ReqId Payload)) := none
  asyncScorerCollectHidden : Bool := false
  asyncScorerReqIds : List ReqId := []
  record : StepRecord := {}

/-- Add all elements to a set (Python `set.update`). -/
def addAll (s ids : List ReqId) : List ReqId := ids.foldl (fun s rid => s.insert rid) s

/-- Remove all elements from a set (Python `set.difference_update`). -/
def removeIds (s ids : List ReqId) : List ReqId := s.filter (· ∉ ids)

@[simp] lemma mem_removeIds {s ids : List ReqId} {rid : ReqId} :
    rid ∈ removeIds s ids ↔ rid ∈ s ∧ rid ∉ ids := by
  simp [removeIds]

@[simp] lemma mem_addAll {s ids : List ReqId} {rid : ReqId} :
    rid ∈ addAll s ids ↔ rid ∈ s ∨ rid ∈ ids := by
  induction ids generalizing s with
  | nil => simp [addAll]
  | cons x xs ih =>
    simp only [addAll, List.foldl_cons, List.mem_cons] at ih ⊢
    rw [ih, List.mem_insert_iff]
    tauto

namespace EngineCore
variable {μ : Type} (cfg : VllmConfig)

/-- Python `EngineCore._trace_tree_branch_gates` and the `TraceTree` built with them. -/
def freshTree : TraceTree :=
  if cfg.gambit.tournamentMode then
    { maxTraces := cfg.capacity, branchCooldownSteps := 0, minTokensBeforeBranch := 0 }
  else
    { maxTraces := cfg.capacity
      branchCooldownSteps := cfg.gambit.branchCooldownSteps
      minTokensBeforeBranch := cfg.gambit.minTokensBeforeBranch }

/-- Python `EngineCore.__init__`; `m` is the state of the new cache managers. -/
def init (m : μ) : EngineCore μ where
  scheduler := { caches := m }
  traceTree := freshTree cfg

/-- Python `self.gambit_enabled`. -/
def gambitEnabled : Bool := cfg.gambit.enableBranching

end EngineCore
end Gambit.Engine
