import Gambit.Config
import Gambit.Lib.Dict

/-!
# The persistent batch of the worker

Model of `vllm/v1/worker/gpu_input_batch.py` (`CachedRequestState`, `InputBatch`), of the block tables of
`block_table.py` and of `BatchUpdateBuilder` in `vllm/v1/sample/logits_processor/state.py`.

A tensor with one entry per row is a function of the row, of which only rows below `max_num_reqs` are
used. Columns that every operation treats alike are kept together: `BaseRow` holds what is moved for
every model, `SamplingRow` what is moved unless the model is a pooling model. A tuple assignment of numpy
scalars swaps values; one of tensor rows is two successive copies. A tensor that is allocated lazily is
`none` before.

An output token list is shared by reference between the cached request, the batch and the logits
processors; `outputRef` is the identity of the list.

`owner` is a history variable: the request each row was filled with. No function of the model reads it.

Left out: prompt embeddings, logprobs, the sets behind `all_greedy`, `no_top_p` and the like, the LoRA
sets, and the flag of the builder that guards the order in which it is used.
-/

namespace Gambit.Worker
open Gambit.Lib

/-- Python `SamplingParams`, the fields the batch and the logits processors read. -/
structure SamplingParams where
  temperature : ℚ := 1
  topP : ℚ := 1
  topK : Int := 0
  frequencyPenalty : ℚ := 0
  presencePenalty : ℚ := 0
  repetitionPenalty : ℚ := 1
  allowedTokenIds : List Token := []
  badWordsTokenIds : List (List Token) := []
  minP : ℚ := 0
  logitBias : List (Token × ℚ) := []
  minTokens : Nat := 0
  allStopTokenIds : List Token := []
  deriving DecidableEq

/-- Python `sampling_type == SamplingType.GREEDY`. -/
def SamplingParams.isGreedy (p : SamplingParams) : Bool := p.temperature < 1 / 100000

/-- Python `PoolingParams`. -/
structure PoolingParams where
  requiresTokenIds : Bool := false
  deriving DecidableEq

/-- What a request asks the worker for: to sample tokens or to pool. -/
inductive Task where
  | sample (p : SamplingParams)
  | pool (p : PoolingParams)
  deriving DecidableEq

/-- The request pools. -/
def Task.isPool : Task → Bool
  | .sample _ => false
  | .pool _ => true

/-- Python `CachedRequestState`. -/
structure CachedRequestState where
  reqId : ReqId
  promptTokenIds : List Token := []
  task : Task := .sample {}
  /-- The seed of the request's own generator. -/
  generator : Option Int := none
  /-- The block ids of each KV cache group. -/
  blockIds : List (List Nat) := []
  numComputedTokens : Int := 0
  outputTokenIds : List Token := []
  outputRef : Nat := 0
  loraRequest : Option Nat := none
  deriving DecidableEq

/-- Python `CachedRequestState.num_tokens`. -/
def CachedRequestState.numTokens (r : CachedRequestState) : Nat :=
  r.promptTokenIds.length + r.outputTokenIds.length

/-- Write a list into a row from a column on. -/
def writeAt {α : Type} (row : Nat → α) (start : Nat) (l : List α) : Nat → α := fun j =>
  if j < start then row j else (l[j - start]?).getD (row j)

/-- Copy the first `n` columns of a row. -/
def copyPrefix {α : Type} (src dst : Nat → α) (n : Nat) : Nat → α := fun j =>
  if j < n then src j else dst j

/-- One row of a `BlockTable`. -/
structure BlockRow where
  blocks : Nat → Nat := fun _ => 0
  numBlocks : Nat := 0

namespace BlockRow

/-- Python `BlockTable.append_row`. -/
def append (r : BlockRow) (ids : List Nat) : BlockRow :=
  { blocks := writeAt r.blocks r.numBlocks ids, numBlocks := r.numBlocks + ids.length }

/-- Python `BlockTable.add_row`. -/
def add (r : BlockRow) (ids : List Nat) : BlockRow := { r with numBlocks := 0 }.append ids

/-- Python `BlockTable.move_row`. -/
def move (src dst : BlockRow) : BlockRow :=
  { blocks := copyPrefix src.blocks dst.blocks src.numBlocks, numBlocks := src.numBlocks }

end BlockRow

/-- The columns of a row that are moved for every model. -/
structure BaseRow where
  tokenIds : Nat → Token := fun _ => 0
  numTokens : Nat := 0
  numTokensNoSpec : Nat := 0
  numPromptTokens : Nat := 0
  numComputedTokens : Int := 0
  /-- The row in the block table of each group. -/
  blockTable : Nat → BlockRow := fun _ => {}
  loraMapping : Nat := 0

/-- The columns of a row that are moved unless the model is a pooling model. -/
structure SamplingRow where
  temperature : ℚ := 0
  topP : ℚ := 0
  topK : Int := 0
  frequencyPenalty : ℚ := 0
  presencePenalty : ℚ := 0
  repetitionPenalty : ℚ := 0
  numAcceptedTokens : Nat := 1
  deriving DecidableEq

/-- What `add_request` writes into the sampling columns. -/
def samplingRow (vocabSize : Nat) (p : SamplingParams) : SamplingRow where
  temperature := if p.isGreedy then 0 else p.temperature
  topP := p.topP
  topK := if 0 < p.topK ∧ p.topK < vocabSize then p.topK else vocabSize
  frequencyPenalty := p.frequencyPenalty
  presencePenalty := p.presencePenalty
  repetitionPenalty := p.repetitionPenalty

/-- A mask row that restricts nothing. -/
def noMask (vocabSize : Nat) : List Bool := List.replicate vocabSize false

/-- The mask row of a restriction: false exactly on the allowed tokens. -/
def maskOf (vocabSize : Nat) (allowed : List Token) : List Bool :=
  (List.range vocabSize).map fun t => t ∉ allowed

/-- Python `MoveDirectionality`. -/
inductive MoveDirectionality where
  | unidirectional
  | swap
  deriving DecidableEq

/-- Python `BatchUpdateBuilder`. -/
structure BatchUpdateBuilder where
  removed : List Nat := []
  added : List (Nat × SamplingParams × Nat) := []
  moved : List (Nat × Nat × MoveDirectionality) := []
  deriving DecidableEq

namespace BatchUpdateBuilder

/-- Python `peek_removed`: the lowest removed index. -/
def peekRemoved (b : BatchUpdateBuilder) : Option Nat := b.removed.min?

/-- Python `pop_removed`, the builder after it. -/
def popRemoved (b : BatchUpdateBuilder) : BatchUpdateBuilder :=
  match b.peekRemoved with
  | none => b
  | some i => { b with removed := b.removed.erase i }

end BatchUpdateBuilder

/-- Python `InputBatch`. -/
structure InputBatch where
  isPoolingModel : Bool := false
  vocabSize : Nat
  maxNumReqs : Nat
  reqIds : List (Option ReqId) := []
  reqIdToIndex : Dict ReqId Nat := ∅
  base : Nat → BaseRow := fun _ => {}
  sampling : Nat → SamplingRow := fun _ => {}
  generators : Dict Nat Int := ∅
  hasAllowedTokenIds : List ReqId := []
  allowedTokenIdsMask : Option (Nat → List Bool) := none
  badWordsTokenIds : Dict Nat (List (List Token)) := ∅
  logitsProcessingNeedsTokenIds : Nat → Bool := fun _ => false
  builder : BatchUpdateBuilder := {}
  owner : Nat → Option CachedRequestState := fun _ => none

namespace InputBatch

/-- Python `InputBatch.num_reqs`. -/
def numReqs (b : InputBatch) : Nat := b.reqIdToIndex.size

/-- Assign or delete (Python `d[k] = v` or `d.pop(k, None)`). -/
def putOrPop {β : Type} (d : Dict Nat β) (k : Nat) : Option β → Dict Nat β
  | some v => d.set k v
  | none => d.erase k

/-- Python `swap_dict_values`. -/
def swapDictValues {β : Type} (d : Dict Nat β) (k1 k2 : Nat) : Dict Nat β :=
  putOrPop (putOrPop d k2 (d.get? k1)) k1 (d.get? k2)

/-- Move a value of a dictionary (Python `d[k2] = d.pop(k1)`, if there is one). -/
def moveDictValue {β : Type} (d : Dict Nat β) (k1 k2 : Nat) : Dict Nat β :=
  match d.get? k1 with
  | some v => (d.erase k1).set k2 v
  | none => d.erase k1

/-- Two successive copies of rows that read the live tensor (Python `t[i1], t[i2] = t[i2], t[i1]`). -/
def copyRows {α : Type} (t : Nat → α) (i1 i2 : Nat) : Nat → α :=
  let t := Function.update t i1 (t i2)
  Function.update t i2 (t i1)

/-- Exchange two values. -/
def swapValues {α : Type} (t : Nat → α) (i1 i2 : Nat) : Nat → α :=
  Function.update (Function.update t i1 (t i2)) i2 (t i1)

/-- Python `InputBatch._register_add_request`, the index. -/
def newIndex (b : InputBatch) : Nat := b.builder.peekRemoved.getD b.numReqs

/-- The part of `add_request` on sampling parameters. -/
def addSampling (b : InputBatch) (i : Nat) (r : CachedRequestState) (p : SamplingParams) : InputBatch :=
  { b with
    sampling := Function.update b.sampling i (samplingRow b.vocabSize p)
    generators :=
      match r.generator with
      | some g => b.generators.set i g
      | none => b.generators
    hasAllowedTokenIds :=
      if p.allowedTokenIds.isEmpty then b.hasAllowedTokenIds else b.hasAllowedTokenIds.insert r.reqId
    allowedTokenIdsMask :=
      if p.allowedTokenIds.isEmpty then b.allowedTokenIdsMask
      else
        some (Function.update (b.allowedTokenIdsMask.getD fun _ => noMask b.vocabSize) i
          (maskOf b.vocabSize p.allowedTokenIds))
    badWordsTokenIds :=
      if p.badWordsTokenIds.isEmpty then b.badWordsTokenIds
      else b.badWordsTokenIds.set i p.badWordsTokenIds }

/-- The part of `add_request` on sampling or pooling parameters; a pooling request keeps the sampling
columns but for the accepted tokens. -/
def addTask (b : InputBatch) (i : Nat) (r : CachedRequestState) : InputBatch :=
  match r.task with
  | .sample p => b.addSampling i r p
  | .pool p =>
    { b with
      logitsProcessingNeedsTokenIds :=
        Function.update b.logitsProcessingNeedsTokenIds i p.requiresTokenIds
      sampling := Function.update b.sampling i { b.sampling i with numAcceptedTokens := 1 } }

/-- The row written by `add_request`. -/
def addBase (row : BaseRow) (r : CachedRequestState) : BaseRow where
  tokenIds := writeAt (writeAt row.tokenIds 0 r.promptTokenIds) r.promptTokenIds.length r.outputTokenIds
  numTokens := r.numTokens
  numTokensNoSpec := r.numTokens
  numPromptTokens := r.promptTokenIds.length
  numComputedTokens := r.numComputedTokens
  blockTable g := (row.blockTable g).add ((r.blockIds[g]?).getD [])
  loraMapping := r.loraRequest.getD 0

/-- The entry of the log for an added request; pooling requests have none. -/
def addedEntry (i : Nat) (r : CachedRequestState) : List (Nat × SamplingParams × Nat) :=
  match r.task with
  | .sample p => [(i, p, r.outputRef)]
  | .pool _ => []

/-- Python `InputBatch.add_request`. Its assertion that the batch has room is left to the callers. -/
def addRequest (b : InputBatch) (r : CachedRequestState) : InputBatch :=
  let i := b.newIndex
  let b := { b with
    builder := { b.builder.popRemoved with added := b.builder.added ++ addedEntry i r }
    reqIds := if i = b.reqIds.length then b.reqIds ++ [some r.reqId] else b.reqIds.set i (some r.reqId)
    reqIdToIndex := b.reqIdToIndex.set r.reqId i
    base := Function.update b.base i (addBase (b.base i) r)
    owner := Function.update b.owner i (some r) }
  b.addTask i r

/-- Python `InputBatch.remove_request`. -/
def removeRequest (b : InputBatch) (rid : ReqId) : InputBatch :=
  match b.reqIdToIndex.get? rid with
  | none => b
  | some i =>
    let b := { b with
      reqIdToIndex := b.reqIdToIndex.erase rid
      builder := { b.builder with removed := b.builder.removed ++ [i] }
      reqIds := b.reqIds.set i none
      base := Function.update b.base i { b.base i with loraMapping := 0 }
      owner := Function.update b.owner i none }
    if b.isPoolingModel then b
    else
      { b with
        generators := b.generators.erase i
        hasAllowedTokenIds := b.hasAllowedTokenIds.erase rid
        allowedTokenIdsMask := b.allowedTokenIdsMask.map fun m => Function.update m i (noMask b.vocabSize)
        badWordsTokenIds := b.badWordsTokenIds.erase i }

/-- The part of `swap_states` that pooling models skip. -/
def swapSampling (b : InputBatch) (i1 i2 : Nat) : InputBatch :=
  { b with
    builder := { b.builder with moved := b.builder.moved ++ [(i1, i2, .swap)] }
    sampling := swapValues b.sampling i1 i2
    generators := swapDictValues b.generators i1 i2
    badWordsTokenIds := swapDictValues b.badWordsTokenIds i1 i2
    allowedTokenIdsMask := b.allowedTokenIdsMask.map fun m => copyRows m i1 i2 }

/-- Python `InputBatch.swap_states`, on two rows that are filled. -/
def swapStates (b : InputBatch) (i1 i2 : Nat) : InputBatch :=
  match (b.reqIds[i1]?).join, (b.reqIds[i2]?).join with
  | some id1, some id2 =>
    let b := { b with
      reqIds := (b.reqIds.set i1 (some id2)).set i2 (some id1)
      reqIdToIndex :=
        (b.reqIdToIndex.set id1 (b.reqIdToIndex.getD id2 0)).set id2 (b.reqIdToIndex.getD id1 0)
      base := swapValues b.base i1 i2
      owner := swapValues b.owner i1 i2 }
    if b.isPoolingModel then b else b.swapSampling i1 i2
  | _, _ => b

/-- The row `dst` after `src` was moved there: token ids and block tables are copied up to their length. -/
def moveBase (src dst : BaseRow) : BaseRow :=
  { src with
    tokenIds := copyPrefix src.tokenIds dst.tokenIds src.numTokens
    blockTable := fun g => (src.blockTable g).move (dst.blockTable g) }

/-- The part of a move that pooling models skip. -/
def moveSampling (b : InputBatch) (src dst : Nat) : InputBatch :=
  { b with
    builder := { b.builder with moved := b.builder.moved ++ [(src, dst, .unidirectional)] }
    sampling := Function.update b.sampling dst (b.sampling src)
    generators := moveDictValue b.generators src dst
    allowedTokenIdsMask := b.allowedTokenIdsMask.map fun m => Function.update m dst (m src)
    badWordsTokenIds := moveDictValue b.badWordsTokenIds src dst }

/-- The body of the loop of `condense`: move the last request down into the lowest empty row. -/
def moveRow (b : InputBatch) (src dst : Nat) (rid : ReqId) : InputBatch :=
  let b := { b with
    builder := b.builder.popRemoved
    reqIds := (b.reqIds.set dst (some rid)).set src none
    reqIdToIndex := b.reqIdToIndex.set rid dst
    base := Function.update b.base dst (moveBase (b.base src) (b.base dst))
    owner := Function.update (Function.update b.owner dst (b.owner src)) src none }
  if b.isPoolingModel then b else b.moveSampling src dst

/-- The loop of `condense`, with `last + 1` for the index of the last row looked at. -/
def condenseFrom : Nat → InputBatch → InputBatch
  | 0, b => b
  | last + 1, b =>
    match b.builder.peekRemoved with
    | none => b
    | some empty =>
      if last ∈ b.builder.removed then condenseFrom last b
      else if last ≤ empty then b
      else match (b.reqIds[last]?).join with
        | none => b
        | some rid => condenseFrom last (b.moveRow last empty rid)

/-- Python `InputBatch.condense`. -/
def condense (b : InputBatch) : InputBatch :=
  if b.builder.removed.isEmpty then b
  else if b.numReqs = 0 then { b with reqIds := [] }
  else
    let c := b.condenseFrom (b.numReqs + b.builder.removed.length)
    { c with reqIds := c.reqIds.take b.numReqs }

/-- The log is emptied when the metadata is refreshed. -/
def resetLog (b : InputBatch) : InputBatch := { b with builder := {} }

/-- Requests sample or pool, as the model does. -/
def Fits (b : InputBatch) (r : CachedRequestState) : Prop := r.task.isPool = b.isPoolingModel

instance (b : InputBatch) (r : CachedRequestState) : Decidable (b.Fits r) :=
  inferInstanceAs (Decidable (_ = _))

end InputBatch

/-- A call on the batch. -/
inductive Call where
  | remove (rid : ReqId)
  | add (r : CachedRequestState)
  | condense
  | swap (i1 i2 : Nat)
  | refresh
  deriving DecidableEq

/-- How far an update has come. -/
inductive Phase where
  | removing
  | adding
  | swapping
  deriving DecidableEq

/-- The batch between two calls. -/
structure BatchState where
  phase : Phase := .removing
  batch : InputBatch

namespace BatchState

/-- The batch after a call. -/
def next (s : BatchState) : Call → BatchState
  | .remove rid => { s with batch := s.batch.removeRequest rid }
  | .add r => { phase := .adding, batch := s.batch.addRequest r }
  | .condense => { phase := .swapping, batch := s.batch.condense }
  | .swap i1 i2 => { s with batch := s.batch.swapStates i1 i2 }
  | .refresh => { phase := .removing, batch := s.batch.resetLog }

/-- The calls of `_update_states`: removals, then additions of requests that are not in the batch, for
which there is room, then `condense`, then swaps of filled rows, then the refresh. -/
def Allowed (s : BatchState) : Call → Prop
  | .remove _ => s.phase = .removing
  | .add r =>
    s.phase ≠ .swapping ∧ r.reqId ∉ s.batch.reqIdToIndex ∧ s.batch.Fits r ∧
      s.batch.newIndex < s.batch.maxNumReqs
  | .condense => s.phase ≠ .swapping
  | .swap i1 i2 => s.phase = .swapping ∧ i1 < s.batch.numReqs ∧ i2 < s.batch.numReqs
  | .refresh => s.phase = .swapping

instance (s : BatchState) : (c : Call) → Decidable (s.Allowed c)
  | .remove _ => inferInstanceAs (Decidable (_ = _))
  | .add _ => inferInstanceAs (Decidable (_ ∧ _))
  | .condense => inferInstanceAs (Decidable (¬ _))
  | .swap _ _ => inferInstanceAs (Decidable (_ ∧ _))
  | .refresh => inferInstanceAs (Decidable (_ = _))

end BatchState
end Gambit.Worker
