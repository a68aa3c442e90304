import Gambit.Config

/-!
# Requests and the stop check

Model of `vllm/v1/request.py` (`Request`), of `check_stop` in `vllm/v1/core/sched/utils.py` and of
`Scheduler._update_request_with_output`.

`all_token_ids` is the prompt followed by the output tokens: the source keeps it as a second list
that `append_output_token_ids` extends together with the output list. Left out are pooling requests,
prompt embeddings, the placeholders of the asynchronous scheduler (always 0 in the synchronous one),
trace headers, events and logprobs, which no modelled function reads.
-/

namespace Gambit.Sched

/-- Python `SamplingParams`, the fields the engine and the scheduler read. -/
structure SamplingParams where
  temperature : Option ℚ := some 1
  seed : Option Int := none
  maxTokens : Nat := 16
  minTokens : Nat := 0
  ignoreEos : Bool := false
  stopTokenIds : List Token := []
  promptLogprobs : Option Int := none
  structuredOutputs : Bool := false
  deriving DecidableEq

/-- Python `MultiModalFeatureSpec`: position of a multimodal item in the prompt, and its hash. -/
structure MmFeature where
  offset : Nat
  length : Nat
  identifier : Nat
  deriving DecidableEq

/-- Python `Request`. -/
structure Request where
  requestId : ReqId
  clientIndex : Nat := 0
  priority : Int := 0
  samplingParams : SamplingParams := {}
  eosTokenId : Option Token := none
  loraRequest : Option Int := none
  arrivalTime : ℚ := 0
  status : RequestStatus := .waiting
  stopReason : Option StopReason := none
  traceAvgScore : Option ℚ := none
  promptTokenIds : List Token
  outputTokenIds : List Token := []
  specTokenIds : List Token := []
  numComputedTokens : Int := 0
  cacheSalt : Option Nat := none
  mmFeatures : List MmFeature := []
  numCachedTokens : Int := -1
  numPreemptions : Nat := 0
  deriving DecidableEq

namespace Request

/-- Python `Request.all_token_ids`. -/
def allTokenIds (r : Request) : List Token := r.promptTokenIds ++ r.outputTokenIds

/-- Python `Request.num_tokens`. -/
def numTokens (r : Request) : Nat := r.allTokenIds.length

/-- Python `Request.num_tokens_with_spec`. -/
def numTokensWithSpec (r : Request) : Nat := r.numTokens + r.specTokenIds.length

/-- Python `Request.num_output_tokens`. -/
def numOutputTokens (r : Request) : Nat := r.outputTokenIds.length

/-- Python `Request.max_tokens`. -/
def maxTokens (r : Request) : Nat := r.samplingParams.maxTokens

/-- Python `Request.has_encoder_inputs`. -/
def hasEncoderInputs (r : Request) : Bool := !r.mmFeatures.isEmpty

/-- The status a new request starts with (Python `Request.__init__`). -/
def initialStatus (p : SamplingParams) : RequestStatus :=
  if p.structuredOutputs then .waitingForFsm else .waiting

lemma initialStatus_ne_running (p : SamplingParams) : initialStatus p ≠ .running := by
  rw [initialStatus]
  split
  · intro h
    cases h
  · intro h
    cases h

/-- Python `Request.append_output_token_ids` on one token. -/
def appendOutputTokenId (r : Request) (t : Token) : Request :=
  { r with outputTokenIds := r.outputTokenIds ++ [t] }

/-- Python `check_stop`; it is only called right after a token was appended. -/
def checkStop (r : Request) (maxModelLen : Nat) : Request × Bool :=
  if r.numOutputTokens < r.samplingParams.minTokens then (r, false)
  else match r.outputTokenIds.getLast? with
    | none => (r, false)
    | some last =>
      if r.samplingParams.ignoreEos = false ∧ r.eosTokenId = some last then
        ({ r with status := .finishedStopped }, true)
      else if last ∈ r.samplingParams.stopTokenIds then
        ({ r with status := .finishedStopped, stopReason := some (.token last) }, true)
      else if maxModelLen ≤ r.numTokens ∨ r.maxTokens ≤ r.numOutputTokens then
        ({ r with status := .finishedLengthCapped }, true)
      else (r, false)

/-- Python `Scheduler._update_request_with_output`: append token by token until one stops, and
return the request, the accepted tokens and whether it stopped. -/
def updateRequestWithOutput (maxModelLen : Nat) : Request → List Token → Request × List Token × Bool
  | r, [] => (r, [], false)
  | r, t :: ts =>
    match (r.appendOutputTokenId t).checkStop maxModelLen with
    | (r', true) => (r', [t], true)
    | (r', false) =>
      let (r'', kept, stopped) := updateRequestWithOutput maxModelLen r' ts
      (r'', t :: kept, stopped)

/-- The tokens of a request and everything it was admitted with: what scheduling never changes. -/
structure SameTrace (r r' : Request) : Prop where
  requestId : r'.requestId = r.requestId
  clientIndex : r'.clientIndex = r.clientIndex
  samplingParams : r'.samplingParams = r.samplingParams
  eosTokenId : r'.eosTokenId = r.eosTokenId
  promptTokenIds : r'.promptTokenIds = r.promptTokenIds
  outputTokenIds : r'.outputTokenIds = r.outputTokenIds
  priority : r'.priority = r.priority
  arrivalTime : r'.arrivalTime = r.arrivalTime

/-- A request has the same trace as itself. -/
lemma SameTrace.refl (r : Request) : r.SameTrace r := ⟨rfl, rfl, rfl, rfl, rfl, rfl, rfl, rfl⟩

/-- Having the same trace is transitive. -/
lemma SameTrace.trans {r r' r'' : Request} (h : r.SameTrace r') (h' : r'.SameTrace r'') :
    r.SameTrace r'' :=
  ⟨h'.requestId.trans h.requestId, h'.clientIndex.trans h.clientIndex,
    h'.samplingParams.trans h.samplingParams, h'.eosTokenId.trans h.eosTokenId,
    h'.promptTokenIds.trans h.promptTokenIds, h'.outputTokenIds.trans h.outputTokenIds,
    h'.priority.trans h.priority, h'.arrivalTime.trans h.arrivalTime⟩

/-- Requests with the same trace have the same tokens. -/
lemma SameTrace.allTokenIds {r r' : Request} (h : r.SameTrace r') :
    r'.allTokenIds = r.allTokenIds := by
  rw [Request.allTokenIds, Request.allTokenIds, h.promptTokenIds, h.outputTokenIds]

/-- What scheduling may do to a request: its trace stays, its drafts stay or are dropped. -/
structure Kept (r r' : Request) : Prop extends SameTrace r r' where
  specTokenIds : r'.specTokenIds = r.specTokenIds ∨ r'.specTokenIds = []

/-- A request is kept as itself. -/
lemma Kept.refl (r : Request) : r.Kept r := ⟨.refl r, .inl rfl⟩

/-- Being kept is transitive. -/
lemma Kept.trans {r r' r'' : Request} (h : r.Kept r') (h' : r'.Kept r'') : r.Kept r'' := by
  refine ⟨h.toSameTrace.trans h'.toSameTrace, ?_⟩
  rcases h'.specTokenIds with e' | e'
  · rw [e']; exact h.specTokenIds
  · exact .inr e'

end Request
end Gambit.Sched
