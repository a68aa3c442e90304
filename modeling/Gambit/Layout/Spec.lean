import Gambit.Lib.Dict

/-!
# KV cache specs

Model of `vllm/v1/kv_cache_interface.py`: the specs of a layer's KV cache, their page size and the memory one request
needs at most, how the specs of a group are merged, and the groups, tensors and configurations made of them. A class
without fields of its own shares the fields of `AttentionSpec`. What raises in Python is an error here, with the text
of the source.
-/

namespace Gambit.Layout
open Gambit.Lib

/-- The name of a layer (Python `str`). -/
abbrev LayerName := List Char

/-- What is raised; of the error for too little memory the numbers it names are kept. -/
inductive LayoutError where
  | assertion (text : String)
  | value (text : String)
  | memory (maxModelLen : Nat) (needed available : Int) (estimated : Nat)
  | noMemory
  | notImplemented
  | zeroDivision
  /-- The first element or the minimum of nothing. -/
  | empty
  deriving DecidableEq

/-- Python `assert`. -/
def require (p : Prop) [Decidable p] (text : String) : Except LayoutError Unit :=
  if p then .ok () else .error (.assertion text)

/-- Python `cdiv`. -/
def cdiv (a b : Nat) : Except LayoutError Nat :=
  if b = 0 then .error .zeroDivision else .ok ((a + b - 1) / b)

/-- Python `a // b` for a size `b`. -/
def floorDiv (a : Int) (b : Nat) : Except LayoutError Int :=
  if b = 0 then .error .zeroDivision else .ok (a / b)

/-- The fields of `VllmConfig` the layout depends on. -/
structure LayoutConfig where
  maxModelLen : Nat
  maxNumBatchedTokens : Nat
  maxNumEncoderInputTokens : Nat := 0
  decodeContextParallelSize : Nat := 1
  numGpuBlocksOverride : Option Int := none
  disableHybridKvCacheManager : Bool := false
  deriving DecidableEq

/-- Python `torch.dtype`, with the size of an element (`get_dtype_size`). -/
structure DType where
  name : String
  itemsize : Nat
  deriving DecidableEq

/-- The fields of Python `AttentionSpec`. -/
structure AttentionSpec where
  blockSize : Nat
  numKvHeads : Nat
  headSize : Nat
  dtype : DType
  deriving DecidableEq

/-- The fields of Python `MambaSpec`. -/
structure MambaSpec where
  blockSize : Nat
  shapes : List (List Nat)
  dtypes : List DType
  pageSizePadded : Option Nat := none
  mambaType : String := "mamba2"
  numSpeculativeBlocks : Nat := 0
  deriving DecidableEq

/-- Python `KVCacheSpec`, the classes for one layer. -/
inductive KVCacheSpec where
  | fullAttention (a : AttentionSpec) (slidingWindow attentionChunkSize : Option Nat)
  | mlaAttention (a : AttentionSpec) (slidingWindow attentionChunkSize : Option Nat) (cacheDtypeStr : Option String)
  | chunkedLocalAttention (a : AttentionSpec) (attentionChunkSize : Nat)
  | slidingWindow (a : AttentionSpec) (slidingWindow : Nat)
  | mamba (m : MambaSpec)
  | encoderOnlyAttention (a : AttentionSpec)
  | crossAttention (a : AttentionSpec)
  deriving DecidableEq

/-- The bytes of a block of keys. -/
def AttentionSpec.blockBytes (a : AttentionSpec) : Nat := a.blockSize * a.numKvHeads * a.headSize * a.dtype.itemsize

/-- Python `AttentionSpec.page_size_bytes`. -/
def AttentionSpec.pageSizeBytes (a : AttentionSpec) : Nat :=
  2 * a.blockSize * a.numKvHeads * a.headSize * a.dtype.itemsize

/-- The bytes of the states of a Mamba layer. -/
def MambaSpec.stateBytes (m : MambaSpec) : Nat := ((m.shapes.zip m.dtypes).map fun s => s.1.prod * s.2.itemsize).sum

namespace KVCacheSpec

/-- The block size of a spec. -/
def blockSize : KVCacheSpec → Nat
  | fullAttention a _ _ | mlaAttention a _ _ _ | chunkedLocalAttention a _ | slidingWindow a _
  | encoderOnlyAttention a | crossAttention a => a.blockSize
  | mamba m => m.blockSize

/-- Python `page_size_bytes`. -/
def pageSizeBytes : KVCacheSpec → Except LayoutError Nat
  | fullAttention a _ _ | chunkedLocalAttention a _ | slidingWindow a _ | encoderOnlyAttention a | crossAttention a =>
    .ok a.pageSizeBytes
  | mlaAttention a _ _ cacheDtypeStr => .ok (if cacheDtypeStr = some "fp8_ds_mla" then a.blockSize * 656 else a.blockBytes)
  | mamba m =>
    match m.pageSizePadded with
    | none => .ok m.stateBytes
    | some padded => if m.stateBytes ≤ padded then .ok padded else .error (.assertion "")

/-- The tokens of a request that one rank of a decode context saves. -/
def localModelLen (cfg : LayoutConfig) : Except LayoutError Nat :=
  if 1 < cfg.decodeContextParallelSize then cdiv cfg.maxModelLen cfg.decodeContextParallelSize
  else .ok cfg.maxModelLen

/-- The blocks one request needs at most (the factor of the page size in `max_memory_usage_bytes`). -/
def maxBlocks (cfg : LayoutConfig) : KVCacheSpec → Except LayoutError Nat
  | fullAttention a _ _ | mlaAttention a _ _ _ => do
    let maxModelLen ← localModelLen cfg
    cdiv maxModelLen a.blockSize
  | chunkedLocalAttention a attentionChunkSize =>
    cdiv (min (attentionChunkSize + cfg.maxNumBatchedTokens) cfg.maxModelLen) a.blockSize
  | slidingWindow a window => do
    require (cfg.decodeContextParallelSize = 1) "DCP not support sliding window."
    let n ← cdiv (min (window + cfg.maxNumBatchedTokens - 1) cfg.maxModelLen) a.blockSize
    -- the window may not start at the beginning of a block
    return n + 1
  | mamba m => cdiv cfg.maxModelLen m.blockSize
  | encoderOnlyAttention _ => .ok 0
  | crossAttention a => cdiv cfg.maxNumEncoderInputTokens a.blockSize

/-- Python `max_memory_usage_bytes`. -/
def maxMemoryUsageBytes (cfg : LayoutConfig) (s : KVCacheSpec) : Except LayoutError Nat := do
  let n ← s.maxBlocks cfg
  let page ← s.pageSizeBytes
  return n * page

/-- Python `isinstance(spec, FullAttentionSpec)`. -/
def isFullAttention : KVCacheSpec → Bool
  | fullAttention _ _ _ | mlaAttention _ _ _ _ => true
  | _ => false

/-- Python `isinstance(spec, MLAAttentionSpec)`. -/
def isMla : KVCacheSpec → Bool
  | mlaAttention _ _ _ _ => true
  | _ => false

/-- Python `isinstance(spec, SlidingWindowSpec)`. -/
def isSlidingWindow : KVCacheSpec → Bool
  | slidingWindow _ _ => true
  | _ => false

/-- Python `isinstance(spec, ChunkedLocalAttentionSpec)`. -/
def isChunkedLocal : KVCacheSpec → Bool
  | chunkedLocalAttention _ _ => true
  | _ => false

/-- The fields of `AttentionSpec`, where there are any. -/
def attention? : KVCacheSpec → Option AttentionSpec
  | fullAttention a _ _ | mlaAttention a _ _ _ | chunkedLocalAttention a _ | slidingWindow a _
  | encoderOnlyAttention a | crossAttention a => some a
  | mamba _ => none

/-- `sliding_window` of a full attention spec. -/
def fullWindow? : KVCacheSpec → Option Nat
  | fullAttention _ w _ | mlaAttention _ w _ _ => w
  | _ => none

/-- `attention_chunk_size` of a full attention spec. -/
def fullChunk? : KVCacheSpec → Option Nat
  | fullAttention _ _ c | mlaAttention _ _ c _ => c
  | _ => none

/-- `cache_dtype_str` of an MLA spec. -/
def cacheDtype? : KVCacheSpec → Option String
  | mlaAttention _ _ _ d => d
  | _ => none

/-- Python `FullAttentionSpec.merge_window_sizes`. -/
def mergeWindowSizes (sizes : List Nat) : Except LayoutError (Option Nat) :=
  match sizes with
  | [] => .ok none
  | [w] => .ok (some w)
  | _ => .error (.value "All attention layers in the same KV cache group must have the same window size.")

/-- Python `FullAttentionSpec.merge`; `a` are the fields of the first spec. -/
def mergeFull (a : AttentionSpec) (specs : List KVCacheSpec) : Except LayoutError KVCacheSpec := do
  require (∀ s ∈ specs, s.isFullAttention)
    "All attention layers in the same KV cache group must be FullAttentionSpec."
  require (∀ s ∈ specs, s.isMla = false) "MLAAttentionSpec should be merged in MLAAttentionSpec.merge"
  let window ← mergeWindowSizes (specs.filterMap fullWindow?).dedup
  let chunk ← mergeWindowSizes (specs.filterMap fullChunk?).dedup
  require (∀ s ∈ specs, s.attention? = some a)
    "All attention layers in the same KV cache group must have the same attention spec."
  require (¬ (window.isSome ∧ chunk.isSome))
    "Model with both sliding window layers and chunked local attention layers is not supported."
  return fullAttention a window chunk

/-- Python `MLAAttentionSpec.merge`; only the quantization method is compared. -/
def mergeMla (a : AttentionSpec) (specs : List KVCacheSpec) : Except LayoutError KVCacheSpec := do
  require (∀ s ∈ specs, s.isMla) "All attention layers in the same KV cache group must be MLAAttentionSpec."
  match (specs.map cacheDtype?).dedup with
  | [d] => return mlaAttention a none none d
  | _ => .error (.assertion "All attention layers in the same KV cache group must use the same quantization method.")

/-- Python `KVCacheSpec.merge`. -/
def mergeSame (first : KVCacheSpec) (rest : List KVCacheSpec) : Except LayoutError KVCacheSpec := do
  require (∀ s ∈ rest, s = first) "All layers in the same KV cache group must be the same."
  return first

/-- Python `specs[0].merge(specs)`. -/
def merge : List KVCacheSpec → Except LayoutError KVCacheSpec
  | [] => .error .empty
  | first :: rest =>
    match first with
    | fullAttention a _ _ => mergeFull a (first :: rest)
    | mlaAttention a _ _ _ => mergeMla a (first :: rest)
    | _ => mergeSame first rest

/-- Whether two layers are of one type (the branches of `UniformTypeKVCacheSpecs.is_uniform_type`). -/
def sameType : KVCacheSpec → KVCacheSpec → Bool
  | fullAttention _ _ _, s | mlaAttention _ _ _ _, s => s.isFullAttention
  | crossAttention _, crossAttention _ => true
  | slidingWindow _ w, slidingWindow _ w' => w' = w
  | chunkedLocalAttention _ c, chunkedLocalAttention _ c' => c' = c
  | mamba m, mamba m' => m'.numSpeculativeBlocks = m.numSpeculativeBlocks
  | _, _ => false

end KVCacheSpec

/-- Python `UniformTypeKVCacheSpecs.is_uniform_type`. -/
def isUniformType (specs : Dict LayerName KVCacheSpec) : Except LayoutError Bool :=
  if 1 < (specs.values.map KVCacheSpec.blockSize).dedup.length then .ok false
  else match specs.values with
    | [] => .error .empty
    | .encoderOnlyAttention _ :: _ => .error .notImplemented
    | one :: rest => .ok ((one :: rest).all one.sameType)

/-- The spec of a group: one for all its layers, or Python `UniformTypeKVCacheSpecs`. -/
inductive GroupSpec where
  | merged (s : KVCacheSpec)
  | uniformType (specs : Dict LayerName KVCacheSpec)

namespace GroupSpec

/-- The page size of a group's spec. -/
def pageSizeBytes : GroupSpec → Except LayoutError Nat
  | merged s => s.pageSizeBytes
  | uniformType specs => do return (← specs.values.mapM KVCacheSpec.pageSizeBytes).sum

/-- Python `max_memory_usage_bytes` of a group's spec. -/
def maxMemoryUsageBytes (cfg : LayoutConfig) : GroupSpec → Except LayoutError Nat
  | merged s => s.maxMemoryUsageBytes cfg
  | uniformType specs => do
    let pages ← specs.values.mapM fun s => do
      let bytes ← s.maxMemoryUsageBytes cfg
      let page ← s.pageSizeBytes
      cdiv bytes page
    match pages with
    | [] => .error .empty
    | _ => return pages.foldl max 0 * (← pageSizeBytes (uniformType specs))

end GroupSpec

/-- Python `KVCacheTensor`. -/
structure KVCacheTensor where
  size : Int
  sharedBy : List LayerName

/-- Python `KVCacheGroupSpec`. -/
structure KVCacheGroupSpec where
  layerNames : List LayerName
  kvCacheSpec : GroupSpec

/-- Python `KVCacheConfig`. -/
structure KVCacheConfig where
  numBlocks : Int
  kvCacheTensors : List KVCacheTensor
  kvCacheGroups : List KVCacheGroupSpec

end Gambit.Layout
