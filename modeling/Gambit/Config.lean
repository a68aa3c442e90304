import Mathlib
import Gambit.Lib.Utf8

/-!
# Identifiers, enumerations and configuration

Model of `vllm/config/gambit.py` (`GambitConfig`), of the scheduling limits the scheduler reads, and
of the enumerations of `vllm/v1/request.py` and `vllm/v1/core/sched/request_queue.py`.

A request id is a Python string, kept as its list of characters so that ids can be compared and
built in the kernel. A token id is a natural number, a score an exact rational. Configuration
integers are `Int`: no field is validated, so negative values are configurations too.
-/

namespace Gambit

/-- A request id (Python `str`). -/
abbrev ReqId := List Char

/-- A token id. -/
abbrev Token := Nat

/-- Python `vllm.v1.request.RequestStatus`. -/
inductive RequestStatus where
  | waiting
  | waitingForFsm
  | waitingForRemoteKvs
  | running
  | preempted
  | finishedStopped
  | finishedLengthCapped
  | finishedAborted
  | finishedIgnored
  deriving DecidableEq, Repr

/-- Everything after `PREEMPTED` is a finished status (Python `RequestStatus.is_finished`). -/
def RequestStatus.isFinished : RequestStatus → Bool
  | .finishedStopped | .finishedLengthCapped | .finishedAborted | .finishedIgnored => true
  | _ => false

/-- Python `vllm.v1.engine.FinishReason`. -/
inductive FinishReason where
  | stop
  | length
  | abort
  deriving DecidableEq, Repr

/-- Python `_FINISHED_REASON_MAP.get(status)`. -/
def RequestStatus.getFinishedReason : RequestStatus → Option FinishReason
  | .finishedStopped => some .stop
  | .finishedLengthCapped => some .length
  | .finishedAborted => some .abort
  | .finishedIgnored => some .length
  | _ => none

/-- The values `Request.stop_reason` takes: a stop token, or one of the three reason strings. -/
inductive StopReason where
  | token (t : Token)
  | pruned
  | gambitPruned
  | gambitStopAfterCompleted
  deriving DecidableEq, Repr

/-- Python `SchedulingPolicy`. -/
inductive SchedulingPolicy where
  | fcfs
  | priority
  | gambit
  deriving DecidableEq, Repr

/-- Python `GambitConfig`, the fields the engine, the scheduler and the worker read. -/
structure GambitConfig where
  enable : Bool := false
  doubleNewLineTokenId : Option (List Token) := none
  scoringStride : Int := 0
  recordScoreHistory : Bool := true
  collectHiddenStatesForMining : Bool := false
  enableBranching : Bool := false
  tournamentMode : Bool := true
  tournamentCapacity : Int := 256
  tournamentSwapK : Int := 16
  tournamentCheckInterval : Int := 200
  tournamentWarmupTokens : Int := 12000
  tournamentHardFloor : ℚ := 1 / 10
  tournamentBranchRandom : Bool := false
  stopAfterCompletedTraces : Int := 0
  thetaBranch : ℚ := 3 / 4
  thetaPrune : ℚ := 3 / 20
  maxTotalTraces : Int := 64
  branchCooldownSteps : Int := 200
  branchTemperatureBoost : ℚ := 1
  minTokensBeforeBranch : Int := 4000
  minTokensBeforePrune : Int := 4000
  deriving DecidableEq

/-- The limits of `SchedulerConfig`, `LoRAConfig` and `SpeculativeConfig` that `schedule` reads. -/
structure SchedulerConfig where
  policy : SchedulingPolicy := .fcfs
  maxNumSeqs : Nat := 128
  maxNumBatchedTokens : Int := 2048
  maxModelLen : Nat := 8192
  longPrefillTokenThreshold : Int := 0
  chunkedPrefillEnabled : Bool := true
  maxNumEncoderInputTokens : Int := 0
  isEncoderDecoder : Bool := false
  maxLoras : Option Nat := none
  numLookaheadTokens : Nat := 0
  deriving DecidableEq

/-- The part of `VllmConfig` the model reads, with the `GAMBIT_ASYNC_SCORER` switch. -/
structure VllmConfig where
  gambit : GambitConfig
  scheduler : SchedulerConfig
  asyncScorer : Bool := false
  deriving DecidableEq

namespace VllmConfig

/-- The policy the scheduler runs: Gambit's own one whenever Gambit is enabled. -/
def policy (cfg : VllmConfig) : SchedulingPolicy :=
  if cfg.gambit.enable then .gambit else cfg.scheduler.policy

/-- The capacity the trace tree is built with. -/
def capacity (cfg : VllmConfig) : Int :=
  if cfg.gambit.tournamentMode then cfg.gambit.tournamentCapacity else cfg.gambit.maxTotalTraces

end VllmConfig
end Gambit
