import Gambit.Engine.Decision
import Gambit.KV.Hash

/-!
# What a branch inherits

Model of `Request.__init__` and `Request.from_engine_core_request` in `vllm/v1/request.py`, of
`EngineCore.preprocess_add_request` and of the constructor call in `_gambit_create_child_request`, with the fields
that scheduling does not read: prompt embeddings, the constraint on the output and its grammar, the parameters of a
KV transfer and the trace headers. The constructor call names neither the multimodal features nor the embeddings of
the parent, and no grammar is initialised for the child.

The type of each of these is a parameter. Pooling requests are left out, as in `Request`; the receiver cache of
multimodal features, which fills in their data, too.
-/

namespace Gambit.Engine
open Gambit.Lib Gambit.Sched Gambit.KV

variable {ε σ κ τ η : Type}

/-- Python `SamplingParams` with `structured_outputs`, and `kv_transfer_params` of its `extra_args`. A constraint
all of whose alternatives are `None` is none. -/
structure FullSamplingParams (σ κ : Type) extends SamplingParams where
  constraint : Option σ := none
  kvTransferParams : Option κ := none
  constrained : structuredOutputs = constraint.isSome

/-- Python `EngineCoreRequest`. -/
structure EngineCoreRequest (ε σ κ τ : Type) where
  requestId : ReqId
  clientIndex : Nat := 0
  promptTokenIds : Option (List Token)
  promptEmbeds : Option (List ε) := none
  mmFeatures : Option (List MmFeature) := none
  samplingParams : FullSamplingParams σ κ
  eosTokenId : Option Token := none
  arrivalTime : ℚ := 0
  loraRequest : Option Int := none
  cacheSalt : Option Nat := none
  priority : Int := 0
  traceHeaders : Option τ := none

/-- Python `Request` with all fields; `grammar` is the constraint whose grammar is being compiled or is ready. -/
structure FullRequest (ε σ κ τ : Type) extends Request where
  params : FullSamplingParams σ κ
  promptEmbeds : Option (List ε) := none
  grammar : Option σ := none
  kvTransferParams : Option κ := none
  traceHeaders : Option τ := none

/-- Why the constructor raises. -/
inductive PromptError where
  /-- `Neither prompt_token_ids nor prompt_embeds were defined.` -/
  | undefined
  /-- `Prompt token ids and prompt embeds had different lengths prompt_token_ids={tokens} prompt_embeds={embeds}` -/
  | differentLengths (tokens embeds : Nat)
  deriving DecidableEq

/-- `length_from_prompt_token_ids_or_embeds`. -/
def promptLength (tokens : Option (List Token)) (embeds : Option (List ε)) : Except PromptError Nat :=
  match tokens, embeds with
  | none, none => .error .undefined
  | none, some e => .ok e.length
  | some t, none => .ok t.length
  | some t, some e => if e.length ≠ t.length then .error (.differentLengths t.length e.length) else .ok t.length

/-- The fields that `Request.__init__` sets, for a prompt of the given length. -/
def EngineCoreRequest.build (r : EngineCoreRequest ε σ κ τ) (n : Nat) : FullRequest ε σ κ τ where
  requestId := r.requestId
  clientIndex := r.clientIndex
  priority := r.priority
  samplingParams := r.samplingParams.toSamplingParams
  eosTokenId := r.eosTokenId
  loraRequest := r.loraRequest
  arrivalTime := r.arrivalTime
  status := Request.initialStatus r.samplingParams.toSamplingParams
  promptTokenIds := r.promptTokenIds.getD (List.replicate n 0)
  cacheSalt := r.cacheSalt
  mmFeatures := r.mmFeatures.getD []
  params := r.samplingParams
  promptEmbeds := r.promptEmbeds
  kvTransferParams := r.samplingParams.kvTransferParams
  traceHeaders := r.traceHeaders

/-- Python `Request.__init__`, by way of `from_engine_core_request`. -/
def FullRequest.init (r : EngineCoreRequest ε σ κ τ) : Except PromptError (FullRequest ε σ κ τ) :=
  (promptLength r.promptTokenIds r.promptEmbeds).map r.build

/-- Python `StructuredOutputManager.grammar_init`: the compilation is submitted. -/
def FullRequest.grammarInit (r : FullRequest ε σ κ τ) : FullRequest ε σ κ τ := { r with grammar := r.params.constraint }

/-- Python `EngineCore.preprocess_add_request`. -/
def preprocessAddRequest (r : EngineCoreRequest ε σ κ τ) : Except PromptError (FullRequest ε σ κ τ) := do
  let req ← FullRequest.init r
  return if req.params.constraint.isSome then req.grammarInit else req

variable (cfg : VllmConfig) (i : StepInput)

/-- The sampling parameters of a child, with what is copied. -/
def childFullParams (p : FullSamplingParams σ κ) (counter : Nat) (child : ReqId) : FullSamplingParams σ κ where
  toSamplingParams := EngineCore.childSamplingParams cfg i p.toSamplingParams counter child
  constraint := p.constraint
  kvTransferParams := p.kvTransferParams
  constrained := p.constrained

/-- The arguments of the constructor in `_gambit_create_child_request`. -/
def childArguments (parent : FullRequest ε σ κ τ) (counter : Nat) (child : ReqId) : EngineCoreRequest ε σ κ τ where
  requestId := child
  promptTokenIds := some parent.allTokenIds
  samplingParams := childFullParams cfg i parent.params counter child
  eosTokenId := parent.eosTokenId
  clientIndex := parent.clientIndex
  arrivalTime := parent.arrivalTime
  loraRequest := parent.loraRequest
  cacheSalt := parent.cacheSalt
  priority := parent.priority
  traceHeaders := parent.traceHeaders

/-- Python `EngineCore._gambit_create_child_request`; whatever the constructor raises, there is no child. -/
def createFullChild (parent : FullRequest ε σ κ τ) (counter : Nat) (child : ReqId) : Option (FullRequest ε σ κ τ) :=
  if i.buildFails child then none else (FullRequest.init (childArguments cfg i parent counter child)).toOption

variable {cfg i} {parent child fresh : FullRequest ε σ κ τ} {counter : Nat} {id : ReqId}

lemma createFullChild_eq (hc : createFullChild cfg i parent counter id = some child) :
    FullRequest.init (childArguments cfg i parent counter id) = .ok child := by
  unfold createFullChild at hc
  split at hc
  · cases hc
  · cases h : FullRequest.init (childArguments cfg i parent counter id) with
    | error e =>
      rw [h] at hc
      cases hc
    | ok c =>
      rw [h] at hc
      cases hc
      rfl

/-- The child is the one of the engine, for a parent with the parameters it was made with. -/
theorem createFullChild_toRequest (hp : parent.samplingParams = parent.params.toSamplingParams) (counter : Nat)
    (id : ReqId) : (createFullChild cfg i parent counter id).map FullRequest.toRequest =
      EngineCore.createChildRequest cfg i parent.toRequest counter id := by
  unfold createFullChild EngineCore.createChildRequest
  rw [hp]
  split
  · rfl
  · rfl

/-- The request for a prompt of the tokens of the parent. -/
def continuation (parent : FullRequest ε σ κ τ) : EngineCoreRequest ε σ κ τ where
  requestId := parent.requestId
  clientIndex := parent.clientIndex
  promptTokenIds := some parent.allTokenIds
  promptEmbeds := parent.promptEmbeds
  mmFeatures := some parent.mmFeatures
  samplingParams := parent.params
  eosTokenId := parent.eosTokenId
  arrivalTime := parent.arrivalTime
  loraRequest := parent.loraRequest
  cacheSalt := parent.cacheSalt
  priority := parent.priority
  traceHeaders := parent.traceHeaders

/-- A request without what a branch may have of its own: id, arrival, temperature and seed. -/
def Request.common (r : Request) : Request :=
  { r with
    requestId := []
    arrivalTime := 0
    samplingParams := { r.samplingParams with temperature := none, seed := none } }

/-- The same request but for id, arrival, temperature and seed. -/
structure SameButSampling (H : Hasher η) (a b : FullRequest ε σ κ τ) : Prop where
  common : Request.common a.toRequest = Request.common b.toRequest
  constraint : a.params.constraint = b.params.constraint
  promptEmbeds : a.promptEmbeds = b.promptEmbeds
  grammar : a.grammar = b.grammar
  kvTransferParams : a.kvTransferParams = b.kvTransferParams
  traceHeaders : a.traceHeaders = b.traceHeaders
  blockHashes : H.blockHashes a.toRequest = H.blockHashes b.toRequest

/-- The child is the request for the tokens of its parent, and `schedule` does not wait for a grammar that is never
compiled. -/
structure Faithful (H : Hasher η) (parent child : FullRequest ε σ κ τ) : Prop where
  continues : ∃ fresh, preprocessAddRequest (continuation parent) = .ok fresh ∧ SameButSampling H fresh child
  admissible : child.status = .waitingForFsm → child.grammar.isSome

/-- The extra keys and the contents of blocks only depend on tokens, features, LoRA and salt. -/
lemma contentsFrom_congr (H : Hasher η) {a b : Request} (hm : a.mmFeatures = b.mmFeatures)
    (hl : a.loraRequest = b.loraRequest) (hs : a.cacheSalt = b.cacheSalt) (ht : a.allTokenIds = b.allTokenIds)
    (start : Nat) (mmIdx : Int) (n : Nat) : H.contentsFrom a start mmIdx n = H.contentsFrom b start mmIdx n := by
  induction n generalizing start mmIdx with
  | zero => rfl
  | succ n ih =>
    have hkeys : H.generateBlockHashExtraKeys a start (start + H.blockSize) mmIdx =
        H.generateBlockHashExtraKeys b start (start + H.blockSize) mmIdx := by
      unfold Hasher.generateBlockHashExtraKeys Hasher.genLoraExtraHashKeys
      rw [hm, hl, hs]
    rw [Hasher.contentsFrom, Hasher.contentsFrom, hkeys, ht]
    dsimp only
    rw [ih]

/-- Requests without output that have the same hashes. -/
lemma blockHashes_congr (H : Hasher η) {a b : Request} (hm : a.mmFeatures = b.mmFeatures)
    (hl : a.loraRequest = b.loraRequest) (hs : a.cacheSalt = b.cacheSalt) (ha : a.outputTokenIds = [])
    (hb : b.outputTokenIds = []) (ht : a.promptTokenIds = b.promptTokenIds) : H.blockHashes a = H.blockHashes b := by
  have hall : (Hasher.created a).allTokenIds = (Hasher.created b).allTokenIds := congrArg (· ++ []) ht
  have hnum : (Hasher.created a).numTokens = (Hasher.created b).numTokens := congrArg List.length hall
  rw [Hasher.blockHashes, Hasher.blockHashes, ha, hb, Hasher.appendHashes, Hasher.appendHashes,
    Hasher.requestBlockHasher, Hasher.requestBlockHasher, Hasher.newContents, Hasher.newContents, hnum]
  exact congrArg _ (contentsFrom_congr H (a := Hasher.created a) (b := Hasher.created b) hm hl hs hall _ _ _)

/-- A child is built of its arguments. -/
lemma child_eq (hc : createFullChild cfg i parent counter id = some child) :
    child = (childArguments cfg i parent counter id).build parent.allTokenIds.length := by
  have h := createFullChild_eq hc
  cases h
  rfl

/-- What is built of a request whose prompt has a length. -/
lemma preprocessAddRequest_ok {r : EngineCoreRequest ε σ κ τ} (hp : preprocessAddRequest r = .ok fresh) :
    ∃ n, promptLength r.promptTokenIds r.promptEmbeds = .ok n ∧
      fresh = if r.samplingParams.constraint.isSome then (r.build n).grammarInit else r.build n := by
  unfold preprocessAddRequest FullRequest.init at hp
  cases hlen : promptLength r.promptTokenIds r.promptEmbeds with
  | error e =>
    rw [hlen] at hp
    cases hp
  | ok n =>
    rw [hlen] at hp
    cases hp
    exact ⟨n, rfl, rfl⟩

/-- The status of a child that has a constraint, or none. -/
lemma status_child (cfg : VllmConfig) (i : StepInput) (parent : FullRequest ε σ κ τ) (counter : Nat) (id : ReqId) (n : Nat) :
    ((childArguments cfg i parent counter id).build n).status =
      if parent.params.constraint.isSome then .waitingForFsm else .waiting := by
  show (if parent.params.structuredOutputs then _ else _) = _
  rw [parent.params.constrained]

/-- A branch is the request for the tokens of its parent exactly if the parent has no multimodal features, no prompt
embeddings and no constraint on its output. -/
theorem child_faithful_iff (H : Hasher η) (cfg : VllmConfig) (i : StepInput) {parent child : FullRequest ε σ κ τ}
    {counter : Nat} {id : ReqId} (hc : createFullChild cfg i parent counter id = some child) :
    Faithful H parent child ↔
      parent.mmFeatures = [] ∧ parent.promptEmbeds = none ∧ parent.params.constraint = none := by
  cases child_eq hc
  constructor
  · rintro ⟨⟨fresh, hfresh, hsame⟩, hadm⟩
    have hconstraint : parent.params.constraint = none := by
      cases hs : parent.params.constraint with
      | none => rfl
      | some c =>
        have hgrammar := hadm (by rw [status_child, hs]; rfl)
        cases hgrammar
    obtain ⟨n, -, rfl⟩ := preprocessAddRequest_ok hfresh
    have hnone : (continuation parent).samplingParams.constraint.isSome = false := by
      show parent.params.constraint.isSome = false
      rw [hconstraint]
      rfl
    rw [hnone, if_neg Bool.false_ne_true] at hsame
    exact ⟨congrArg Request.mmFeatures hsame.common, hsame.promptEmbeds, hconstraint⟩
  · rintro ⟨hm, he, hs⟩
    have hlen : promptLength (continuation parent).promptTokenIds (continuation parent).promptEmbeds =
        .ok parent.allTokenIds.length := by
      show promptLength (some parent.allTokenIds) parent.promptEmbeds = _
      rw [he]
      rfl
    have hfresh : preprocessAddRequest (continuation parent) =
        .ok ((continuation parent).build parent.allTokenIds.length) := by
      unfold preprocessAddRequest FullRequest.init
      rw [hlen]
      show Except.ok (if parent.params.constraint.isSome then _ else _) = _
      rw [hs]
      rfl
    have hcommon : Request.common ((continuation parent).build parent.allTokenIds.length).toRequest =
        Request.common ((childArguments cfg i parent counter id).build parent.allTokenIds.length).toRequest := by
      unfold Request.common EngineCoreRequest.build
      congr 1
    refine ⟨⟨_, hfresh, hcommon, rfl, he, rfl, rfl, rfl, ?_⟩, ?_⟩
    · exact blockHashes_congr H hm rfl rfl rfl rfl rfl
    · intro hstatus
      rw [status_child, hs] at hstatus
      cases hstatus

/-- A parent with a prompt of two tokens and one token of output. -/
def plainParent : FullRequest Nat Nat Nat Nat where
  requestId := "p".toList
  promptTokenIds := [1, 2]
  outputTokenIds := [3]
  params := { constrained := rfl }

/-- A parent whose first token stands for an image. -/
def imageParent : FullRequest Nat Nat Nat Nat := { plainParent with mmFeatures := [⟨0, 1, 7⟩] }

/-- A parent with a prompt of embeddings. -/
def embedsParent : FullRequest Nat Nat Nat Nat :=
  { plainParent with promptTokenIds := [0, 0], promptEmbeds := some [5, 6] }

/-- A parent with a constraint on its output, which has been compiled. -/
def constrainedParent : FullRequest Nat Nat Nat Nat where
  toRequest := { plainParent.toRequest with samplingParams := { structuredOutputs := true } }
  params := { structuredOutputs := true, constraint := some 4, constrained := rfl }
  grammar := some 4

/-- The default configuration, with Gambit on. -/
def gambitOn : VllmConfig := { gambit := { enable := true }, scheduler := {} }

/-- A step without samples and scores. -/
def quietStep : StepInput := .ofSamples (fun _ => []) fun _ => 0

/-- The first branch of a parent of three tokens. -/
def firstChild (parent : FullRequest Nat Nat Nat Nat) : FullRequest Nat Nat Nat Nat :=
  (childArguments gambitOn quietStep parent 1 "c".toList).build 3

/-- The result for the plain parent. -/
theorem child_faithful_iff_plain :
    Faithful (Hasher.chain 2) plainParent (firstChild plainParent) ↔
      plainParent.mmFeatures = [] ∧ plainParent.promptEmbeds = none ∧ plainParent.params.constraint = none :=
  have hc : createFullChild gambitOn quietStep plainParent 1 "c".toList = some (firstChild plainParent) := rfl
  child_faithful_iff (Hasher.chain 2) gambitOn quietStep hc

/-- A branch of a parent with an image has none, one of a parent with embeddings has tokens in their place, and one of
a parent with a constraint waits for a grammar that is not compiled. -/
theorem child_not_faithful :
    (createFullChild gambitOn quietStep imageParent 1 "c".toList = some (firstChild imageParent) ∧
        ¬ Faithful (Hasher.chain 2) imageParent (firstChild imageParent)) ∧
      (createFullChild gambitOn quietStep embedsParent 1 "c".toList =
          some (firstChild embedsParent) ∧
        ¬ Faithful (Hasher.chain 2) embedsParent (firstChild embedsParent)) ∧
      createFullChild gambitOn quietStep constrainedParent 1 "c".toList =
          some (firstChild constrainedParent) ∧
        (firstChild constrainedParent).status = .waitingForFsm ∧ (firstChild constrainedParent).grammar = none ∧
          ¬ Faithful (Hasher.chain 2) constrainedParent (firstChild constrainedParent) := by
  refine ⟨⟨rfl, ?_⟩, ⟨rfl, ?_⟩, rfl, rfl, rfl, ?_⟩
  · rintro ⟨⟨fresh, hfresh, hsame⟩, -⟩
    cases hfresh
    cases congrArg Request.mmFeatures hsame.common
  · rintro ⟨⟨fresh, hfresh, -⟩, -⟩
    cases hfresh
  · rintro ⟨-, hadm⟩
    cases hadm rfl

end Gambit.Engine
