import Gambit.Sched.Scheduler
import Gambit.Lib.Machine

/-!
# The output processor

Model of `vllm/v1/engine/parallel_sampling.py` (`ParentRequest`), of `RequestState` and
`OutputProcessor` in `vllm/v1/engine/output_processor.py`, and of the fan out in
`LLMEngine.add_request`.

Python shares one `ParentRequest` between the request states of its children and `parent_requests`.
Here `parentRequests` is the store and a request state holds the id of its parent. The text a
detokenizer produces and the stop strings it finds come from a parameter `Detokenizer δ`; its token
ids are kept here, as `IncrementalDetokenizer.update` appends every new token to them.

`Handled` is a history variable: what `process_outputs` did with one `EngineCoreOutput`. The list
`request_outputs` it returns is made of the emitted outputs, `reqs_to_abort` of the aborted ones.

Left out: pooling, logprobs, prompts, statistics, tracing and the queues of `AsyncLLM`.
-/

namespace Gambit.Frontend
open Gambit.Lib Gambit.Sched

/-- Python `RequestOutputKind`. -/
inductive RequestOutputKind where
  | cumulative
  | delta
  | finalOnly
  deriving DecidableEq

/-- The text side of Python `IncrementalDetokenizer`, with states `δ`. -/
structure Detokenizer (δ : Type) where
  init : δ
  /-- Python `update`: new tokens and whether a stop token ended them give the stop string found. -/
  update : δ → List Token → Bool → δ × Option String
  /-- Python `get_next_output_text`: whether the request is finished, and whether in delta mode. -/
  getNextOutputText : δ → Bool → Bool → δ × String

/-- No tokenizer: no text, no stop strings. -/
def Detokenizer.silent : Detokenizer Unit where
  init := ()
  update _ _ _ := ((), none)
  getNextOutputText _ _ _ := ((), "")

/-- Python `CompletionOutput`. -/
structure CompletionOutput where
  index : Nat
  text : String
  tokenIds : List Token
  finishReason : Option FinishReason := none
  stopReason : Option (StopReason ⊕ String) := none
  finalScore : Option ℚ := none
  scoreHistory : Option (List ℚ) := none
  deriving DecidableEq

/-- Python `RequestOutput`; an entry the aggregator never filled is `none`. -/
structure RequestOutput where
  requestId : ReqId
  outputs : List (Option CompletionOutput)
  finished : Bool
  finalScore : Option ℚ := none
  deriving DecidableEq

/-- Python `ParentRequest`. -/
structure ParentRequest where
  requestId : ReqId
  n : Nat
  outputKind : RequestOutputKind
  childRequests : List ReqId := []
  outputAggregator : List (Option CompletionOutput)
  deriving DecidableEq

/-- The id of a child request (Python `f"{index}_{self.request_id}"`). -/
def childId (index : Nat) (rid : ReqId) : ReqId := Nat.toDigits 10 index ++ '_' :: rid

namespace ParentRequest

/-- Python `ParentRequest.__init__`. -/
def new (rid : ReqId) (n : Nat) (kind : RequestOutputKind) : ParentRequest where
  requestId := rid
  n := n
  outputKind := kind
  outputAggregator := if kind = .finalOnly then List.replicate n none else []

/-- Python `ParentRequest._get_child_sampling_params`; the copies have `n = 1`. -/
def getChildSamplingParams (p : SamplingParams) (index : Nat) : SamplingParams :=
  { p with seed := p.seed.map (· + index) }

/-- Python `ParentRequest.get_child_info`, the id. -/
def getChildInfo (p : ParentRequest) (index : Nat) : ParentRequest × ReqId :=
  ({ p with childRequests := p.childRequests.insert (childId index p.requestId) },
    childId index p.requestId)

/-- Python `ParentRequest.get_outputs`: the outputs to return and whether all children finished. -/
def getOutputs (p : ParentRequest) (child : ReqId) (c : CompletionOutput) :
    ParentRequest × List (Option CompletionOutput) × Bool :=
  let p := if c.finishReason.isSome then { p with childRequests := p.childRequests.erase child } else p
  if p.outputKind = .finalOnly then
    let p := { p with outputAggregator := p.outputAggregator.set c.index (some c) }
    (p, if p.childRequests.isEmpty then p.outputAggregator else [], p.childRequests.isEmpty)
  else (p, [some c], p.childRequests.isEmpty)

end ParentRequest

/-- Python `RequestState`. -/
structure RequestState (δ : Type) where
  requestId : ReqId
  parentReq : Option ReqId
  requestIndex : Nat
  outputKind : RequestOutputKind
  outputTokenIds : List Token := []
  detokenizer : δ

/-- Python `OutputProcessor`. -/
structure OutputProcessor (δ : Type) where
  requestStates : Dict ReqId (RequestState δ) := ∅
  parentRequests : Dict ReqId ParentRequest := ∅

/-- What was done with one `EngineCoreOutput`. -/
structure Handled where
  output : EngineCoreOutput
  /-- The completion that ended the request, if this output did. -/
  completion : Option CompletionOutput := none
  /-- The request output appended to `request_outputs`. -/
  emitted : Option RequestOutput := none
  /-- Whether the request was appended to `reqs_to_abort`. -/
  aborted : Bool := false
  deriving DecidableEq

variable {δ : Type} (dt : Detokenizer δ)

/-- How a request ends with an output: the finish reason and the stop reason after the stop check. -/
structure Ending where
  finishReason : Option FinishReason
  stopReason : Option (StopReason ⊕ String)

/-- A stop string overrides the reasons of the engine; Python takes an empty one for none. -/
def endingOf (o : EngineCoreOutput) (stopString : Option String) : Ending :=
  match stopString.filter (· ≠ "") with
  | some s => ⟨some .stop, some (.inr s)⟩
  | none => ⟨o.finishReason, o.stopReason.map .inl⟩

namespace RequestState

/-- Detokenize the new tokens and look for a stop string. -/
def detokenize (st : RequestState δ) (o : EngineCoreOutput) : RequestState δ × Ending :=
  let (d, stopString) := dt.update st.detokenizer o.newTokenIds (o.finishReason = some .stop)
  ({ st with outputTokenIds := st.outputTokenIds ++ o.newTokenIds, detokenizer := d },
    endingOf o stopString)

/-- Python `RequestState._new_completion_output`. -/
def newCompletionOutput (st : RequestState δ) (o : EngineCoreOutput) (e : Ending) :
    RequestState δ × CompletionOutput :=
  let finished := e.finishReason.isSome
  let (d, text) := dt.getNextOutputText st.detokenizer finished (st.outputKind = .delta)
  ({ st with detokenizer := d },
    { index := st.requestIndex
      text := text
      tokenIds := if st.outputKind = .delta then o.newTokenIds else st.outputTokenIds
      finishReason := e.finishReason
      stopReason := if finished then e.stopReason else none
      finalScore := if finished then o.finalScore else none
      scoreHistory := if finished then o.scoreHistory else none })

end RequestState

namespace OutputProcessor

/-- The part of `make_request_output` after the completion is made: a request of its own returns it, a
child hands it to its parent. -/
def routeCompletion (x : OutputProcessor δ) (st : RequestState δ) (o : EngineCoreOutput)
    (c : CompletionOutput) : OutputProcessor δ × Option RequestOutput :=
  match st.parentReq with
  | none =>
    (x, some
      { requestId := st.requestId
        outputs := [some c]
        finished := c.finishReason.isSome
        finalScore := o.finalScore })
  | some pid =>
    match x.parentRequests.get? pid with
    | none => (x, none)
    | some p =>
      match p.getOutputs st.requestId c with
      | (p, outputs, finished) =>
        ({ x with parentRequests := x.parentRequests.set pid p },
          if outputs.isEmpty then none
          else some
            { requestId := p.requestId
              outputs := outputs
              finished := finished
              finalScore := o.finalScore })

/-- Python `RequestState.make_request_output`: the state, the completion and the request output. -/
def makeRequestOutput (x : OutputProcessor δ) (st : RequestState δ) (o : EngineCoreOutput)
    (e : Ending) :
    OutputProcessor δ × RequestState δ × Option CompletionOutput × Option RequestOutput :=
  if e.finishReason = none ∧ st.outputKind = .finalOnly then (x, st, none, none)
  else
    let (st, c) := st.newCompletionOutput dt o e
    let (x, out) := x.routeCompletion st o c
    (x, st, some c, out)

/-- Free a completed request, and its parent with the last child. -/
def freeCompleted (x : OutputProcessor δ) (st : RequestState δ) : OutputProcessor δ :=
  { requestStates := x.requestStates.erase st.requestId
    parentRequests :=
      match st.parentReq with
      | none => x.parentRequests
      | some pid =>
        if (x.parentRequests.get? pid).any (·.childRequests.isEmpty) then x.parentRequests.erase pid
        else x.parentRequests }

/-- The body of the loop of `process_outputs`. -/
def processOutput (x : OutputProcessor δ) (o : EngineCoreOutput) : OutputProcessor δ × Handled :=
  match x.requestStates.get? o.requestId with
  | none => (x, { output := o })
  | some st =>
    let (st, e) := st.detokenize dt o
    let (x, st, c, out) := x.makeRequestOutput dt st o e
    if e.finishReason.isSome then
      (x.freeCompleted st,
        { output := o, completion := c, emitted := out, aborted := o.finishReason.isNone })
    else
      ({ x with requestStates := x.requestStates.set o.requestId st }, { output := o, emitted := out })

/-- Python `OutputProcessor.process_outputs`. -/
def processOutputs (x : OutputProcessor δ) : List EngineCoreOutput → OutputProcessor δ × List Handled
  | [] => (x, [])
  | o :: os =>
    let (x, h) := x.processOutput dt o
    let (x, hs) := x.processOutputs os
    (x, h :: hs)

/-- Python `OutputProcessor.add_request`, for an id that has no request state. -/
def addRequest (x : OutputProcessor δ) (rid : ReqId) (kind : RequestOutputKind)
    (parent : Option ParentRequest) (index : Nat) : OutputProcessor δ :=
  { requestStates := x.requestStates.set rid
      { requestId := rid
        parentReq := parent.map ParentRequest.requestId
        requestIndex := index
        outputKind := kind
        detokenizer := dt.init }
    parentRequests :=
      match parent with
      | none => x.parentRequests
      | some p => x.parentRequests.set p.requestId p }

/-- One iteration of the fan out of `LLMEngine.add_request`. -/
def addChild (kind : RequestOutputKind) (a : OutputProcessor δ × ParentRequest) (index : Nat) :
    OutputProcessor δ × ParentRequest :=
  let (p, rid) := a.2.getChildInfo index
  (a.1.addRequest dt rid kind (some p) index, p)

/-- Python `LLMEngine.add_request`, on the output processor: one request, or one per sample. -/
def addPrompt (x : OutputProcessor δ) (rid : ReqId) (n : Nat) (kind : RequestOutputKind) :
    OutputProcessor δ :=
  if n = 1 then x.addRequest dt rid kind none 0
  else ((List.range n).foldl (addChild dt kind) (x, .new rid n kind)).1

end OutputProcessor

/-- What reaches the output processor: a prompt with its samples, or the outputs of a step. -/
inductive FrontEvent where
  | addPrompt (rid : ReqId) (n : Nat) (kind : RequestOutputKind)
  | processOutputs (outs : List EngineCoreOutput)

/-- The ids an event registers: those of the requests, and that of a parent. -/
def FrontEvent.ids : FrontEvent → List ReqId
  | .addPrompt rid n _ => rid :: if n = 1 then [] else (List.range n).map fun k => childId k rid
  | .processOutputs _ => []

/-- What the callers promise: request ids are used once. -/
def FrontEvent.Ok (h : List FrontEvent) (ev : FrontEvent) : Prop :=
  ∀ rid ∈ ev.ids, rid ∉ h.flatMap FrontEvent.ids

instance (h : List FrontEvent) (ev : FrontEvent) : Decidable (ev.Ok h) :=
  inferInstanceAs (Decidable (∀ rid ∈ ev.ids, rid ∉ h.flatMap FrontEvent.ids))

/-- The output processor as a machine: its output is what was done with each engine output. -/
def frontMachine {δ : Type} (dt : Detokenizer δ) :
    Machine (OutputProcessor δ) FrontEvent (List Handled) where
  init := {}
  next x
    | .addPrompt rid n kind => (x.addPrompt dt rid n kind, [])
    | .processOutputs outs => x.processOutputs dt outs
  ok := FrontEvent.Ok

instance {δ : Type} (dt : Detokenizer δ) (h : List FrontEvent) (ev : FrontEvent) :
    Decidable ((frontMachine dt).ok h ev) :=
  inferInstanceAs (Decidable (ev.Ok h))

end Gambit.Frontend
