import Gambit.Lib.Split
import Gambit.Layout.Spec

/-!
# KV cache configurations

Model of the part of `vllm/v1/core/kv_cache_utils.py` that turns the specs of all layers into the KV cache
configuration of every worker: `get_kv_cache_configs` and what it calls, and `generate_scheduler_kv_cache_config`.

Logging is left out, but `_report_kv_cache_config` computes the maximal concurrency, which can raise. The dictionary
that `unify_hybrid_kv_cache_specs` changes in place is returned. A worker is its specs and its available memory.
-/

namespace Gambit.Layout
open Gambit.Lib

/-- Python `max_memory_usage_bytes`. -/
def maxMemoryUsageBytes (cfg : LayoutConfig) (specs : Dict LayerName KVCacheSpec) : Except LayoutError Nat := do
  return (← specs.values.mapM (KVCacheSpec.maxMemoryUsageBytes cfg)).sum

/-- Python `fits_in_memory`. -/
def fitsInMemory (cfg : LayoutConfig) (specs : Dict LayerName KVCacheSpec) (available : Int) (modelLen : Nat) :
    Except LayoutError Bool := do
  return ((← maxMemoryUsageBytes { cfg with maxModelLen := modelLen } specs : Nat) : Int) ≤ available

/-- The loop of `estimate_max_model_len`; every turn shrinks the interval. -/
def estimateLoop (fits : Nat → Except LayoutError Bool) : Nat → Nat → Nat → Nat → Except LayoutError Nat
  | 0, _, _, result => .ok result
  | fuel + 1, left, right, result =>
    if right < left then .ok result
    else do
      let mid := (left + right) / 2
      if ← fits mid then estimateLoop fits fuel (mid + 1) right mid
      else estimateLoop fits fuel left (mid - 1) result

/-- Python `estimate_max_model_len`. -/
def estimateMaxModelLen (cfg : LayoutConfig) (specs : Dict LayerName KVCacheSpec) (available : Int) :
    Except LayoutError Nat := do
  if ← fitsInMemory cfg specs available 1 then
    estimateLoop (fitsInMemory cfg specs available) cfg.maxModelLen 1 cfg.maxModelLen 1
  else return 0

/-- Python `check_enough_kv_cache_memory`. -/
def checkEnoughKvCacheMemory (cfg : LayoutConfig) (specs : Dict LayerName KVCacheSpec) (available : Int) :
    Except LayoutError Unit :=
  if specs.values = [] then .ok ()
  else if available ≤ 0 then .error .noMemory
  else do
    let needed ← maxMemoryUsageBytes cfg specs
    if available < needed then
      let estimated ← estimateMaxModelLen cfg specs available
      .error (.memory cfg.maxModelLen needed available estimated)
    else return ()

/-- Python `may_override_num_blocks`. -/
def mayOverrideNumBlocks (cfg : LayoutConfig) (numBlocks : Int) : Int := cfg.numGpuBlocksOverride.getD numBlocks

/-- Python `get_num_blocks`. -/
def getNumBlocks (cfg : LayoutConfig) (numLayers : Nat) (available : Int) (pageSize : Nat) : Except LayoutError Int := do
  let numBlocks ← floorDiv (← floorDiv available pageSize) numLayers
  return mayOverrideNumBlocks cfg (max numBlocks 0)

/-- The page sizes of some specs, each once. -/
def pageSizes (specs : Dict LayerName KVCacheSpec) : Except LayoutError (List Nat) := do
  return (← specs.values.mapM KVCacheSpec.pageSizeBytes).dedup

/-- Python `get_uniform_page_size`. -/
def getUniformPageSize (specs : Dict LayerName KVCacheSpec) : Except LayoutError Nat := do
  match ← pageSizes specs with
  | [page] => return page
  | _ => .error (.assertion "")

/-- Python `is_kv_cache_page_size_uniform`. -/
def isKvCachePageSizeUniform (specs : Dict LayerName KVCacheSpec) : Except LayoutError Bool := do
  return (← pageSizes specs).length = 1

/-- Python `is_kv_cache_spec_uniform`: no assertion of `merge` fails. -/
def isKvCacheSpecUniform (specs : Dict LayerName KVCacheSpec) : Except LayoutError Bool :=
  if specs.values = [] then .ok true
  else match KVCacheSpec.merge specs.values with
    | .ok _ => .ok true
    | .error (.assertion _) => .ok false
    | .error e => .error e

/-- One group of `create_kv_cache_group_specs`. -/
def createKvCacheGroupSpec (specs : Dict LayerName KVCacheSpec) (names : List LayerName) :
    Except LayoutError KVCacheGroupSpec := do
  let merged ← KVCacheSpec.merge (names.filterMap specs.get?)
  return { layerNames := names, kvCacheSpec := .merged merged }

/-- Python `create_kv_cache_group_specs`. -/
def createKvCacheGroupSpecs (specs : Dict LayerName KVCacheSpec) (grouped : List (List LayerName)) :
    Except LayoutError (List KVCacheGroupSpec) := grouped.mapM (createKvCacheGroupSpec specs)

/-- The layers of every spec, in the order of the specs' first layers (Python `same_type_layers`). -/
def sameTypeLayers (specs : Dict LayerName KVCacheSpec) : Dict KVCacheSpec (List LayerName) := gather specs.entries

/-- The layers of one spec, in groups of at most `size` layers. -/
def splitLayers (size : Nat) (layers : List LayerName) : List (List LayerName) :=
  let numGroups := (layers.length + size - 1) / size
  (List.range numGroups).map fun i => stride layers i numGroups

/-- Python `_get_kv_cache_groups_uniform_page_size`. -/
def groupsUniformPageSize (specs : Dict LayerName KVCacheSpec) : Except LayoutError (List KVCacheGroupSpec) :=
  match ((sameTypeLayers specs).values.map List.length).min? with
  | none => .error .empty
  | some size => createKvCacheGroupSpecs specs ((sameTypeLayers specs).values.flatMap (splitLayers size))

/-- A spec as one of full attention, if it is one of a window or of chunks. -/
def KVCacheSpec.toFullAttention : KVCacheSpec → KVCacheSpec
  | .slidingWindow a w => .fullAttention a (some w) none
  | .chunkedLocalAttention a c => .fullAttention a none (some c)
  | s => s

/-- Whether the specs are of one type, in one of the two senses. -/
def isUnified (specs : Dict LayerName KVCacheSpec) : Except LayoutError Bool := do
  if ← isKvCacheSpecUniform specs then return true
  isUniformType specs

/-- Python `unify_hybrid_kv_cache_specs`. -/
def unifyHybridKvCacheSpecs (specs : Dict LayerName KVCacheSpec) :
    Except LayoutError (Dict LayerName KVCacheSpec) := do
  if ← isUnified specs then return specs
  let specs' :=
    if specs.values.any (·.isFullAttention) &&
        (specs.values.any (·.isSlidingWindow) || specs.values.any (·.isChunkedLocal)) then
      specs.mapVal fun _ s => s.toFullAttention
    else specs
  if ← isUnified specs' then return specs'
  .error (.value
    "Hybrid KV cache manager is disabled but failed to convert the KV cache specs to one unified type.")

/-- The specs after the first statement of `get_kv_cache_groups`. -/
def specsToGroup (cfg : LayoutConfig) (specs : Dict LayerName KVCacheSpec) :
    Except LayoutError (Dict LayerName KVCacheSpec) :=
  if cfg.disableHybridKvCacheManager then unifyHybridKvCacheSpecs specs else .ok specs

/-- Python `get_kv_cache_groups`. -/
def getKvCacheGroups (cfg : LayoutConfig) (specs : Dict LayerName KVCacheSpec) :
    Except LayoutError (List KVCacheGroupSpec) := do
  let specs ← specsToGroup cfg specs
  if specs.values = [] then return []
  if ← isKvCacheSpecUniform specs then createKvCacheGroupSpecs specs [specs.keys]
  else if ← isUniformType specs then return [{ layerNames := specs.keys, kvCacheSpec := .uniformType specs }]
  else if ← isKvCachePageSizeUniform specs then groupsUniformPageSize specs
  else .error .notImplemented

/-- The tensor of a layer of its own (the branch for `UniformTypeKVCacheSpecs`). -/
def ownTensor (specs : Dict LayerName KVCacheSpec) (numBlocks : Int) (name : LayerName) :
    Except LayoutError KVCacheTensor :=
  match specs.get? name with
  | none => .error .empty
  | some s => do return { size := (← s.pageSizeBytes : Nat) * numBlocks, sharedBy := [name] }

/-- The layers that share the tensor with index `i`: one from each group that has so many. -/
def sharing (groups : List KVCacheGroupSpec) (i : Nat) : List LayerName :=
  column (groups.map KVCacheGroupSpec.layerNames) i

/-- The number of layers of the longest group. -/
def groupSize (groups : List KVCacheGroupSpec) : Nat := (groups.map fun g => g.layerNames.length).foldl max 0

/-- The general case of `get_kv_cache_config_from_groups`. -/
def sharedConfig (cfg : LayoutConfig) (groups : List KVCacheGroupSpec) (specs : Dict LayerName KVCacheSpec)
    (available : Int) : Except LayoutError KVCacheConfig := do
  let pageSize ← getUniformPageSize specs
  require (0 < groupSize groups) "group_size must be greater than 0"
  let numBlocks ← getNumBlocks cfg (groupSize groups) available pageSize
  return {
    numBlocks := numBlocks
    kvCacheTensors := (List.range (groupSize groups)).map fun i =>
      { size := pageSize * numBlocks, sharedBy := sharing groups i }
    kvCacheGroups := groups }

/-- The case of one group with layers of different sizes. -/
def ownConfig (cfg : LayoutConfig) (group : KVCacheGroupSpec) (all : Dict LayerName KVCacheSpec) (available : Int) :
    Except LayoutError KVCacheConfig := do
  let numBlocks ← floorDiv available (← group.kvCacheSpec.pageSizeBytes)
  let numBlocks := mayOverrideNumBlocks cfg numBlocks
  return {
    numBlocks := numBlocks
    kvCacheTensors := ← group.layerNames.mapM (ownTensor all numBlocks)
    kvCacheGroups := [group] }

/-- Python `get_kv_cache_config_from_groups`. -/
def getKvCacheConfigFromGroups (cfg : LayoutConfig) (groups : List KVCacheGroupSpec)
    (specs : Dict LayerName KVCacheSpec) (available : Int) : Except LayoutError KVCacheConfig :=
  match groups with
  | [] => .ok { numBlocks := 1, kvCacheTensors := [], kvCacheGroups := [] }
  | [⟨names, .uniformType all⟩] => ownConfig cfg ⟨names, .uniformType all⟩ all available
  | groups => sharedConfig cfg groups specs available

/-- Python `get_max_concurrency_for_kv_cache_config`. -/
def getMaxConcurrency (cfg : LayoutConfig) (c : KVCacheConfig) : Except LayoutError ℚ :=
  match c.kvCacheGroups with
  | [] => .error .empty
  | group :: _ => do
    let usage ← c.kvCacheGroups.mapM fun g => g.kvCacheSpec.maxMemoryUsageBytes cfg
    let perRequest := groupSize c.kvCacheGroups * usage.sum
    let perBlock := (← group.kvCacheSpec.pageSizeBytes) * groupSize c.kvCacheGroups
    let numBlockPerRequest ← cdiv perRequest perBlock
    if numBlockPerRequest = 0 then .error .zeroDivision else return c.numBlocks / numBlockPerRequest

/-- The specs of all workers in one dictionary; a layer must have the same spec everywhere. -/
def mergeLayer (merged : Dict LayerName KVCacheSpec) (e : LayerName × KVCacheSpec) :
    Except LayoutError (Dict LayerName KVCacheSpec) :=
  match merged.get? e.1 with
  | none => .ok (merged.set e.1 e.2)
  | some s => do
    require (s = e.2)
      "The KV cache specs for the same layer are different across workers. This is not supported yet."
    return merged

/-- The specs of the whole model. -/
def mergeSpecs (specs : List (Dict LayerName KVCacheSpec)) : Except LayoutError (Dict LayerName KVCacheSpec) :=
  (specs.flatMap Dict.entries).foldlM mergeLayer ∅

/-- The part of a group that a worker has. -/
def KVCacheGroupSpec.restrict (g : KVCacheGroupSpec) (specs : Dict LayerName KVCacheSpec) : KVCacheGroupSpec :=
  { g with layerNames := g.layerNames.filter (· ∈ specs) }

/-- The configuration of one worker before all are made equal. -/
def workerConfig (cfg : LayoutConfig) (groups : List KVCacheGroupSpec) (specs : Dict LayerName KVCacheSpec)
    (available : Int) : Except LayoutError KVCacheConfig := do
  let own := groups.map (·.restrict specs)
  require ((own.map fun g => g.layerNames.length).sum = specs.size) "Some layers are not assigned to any group."
  getKvCacheConfigFromGroups cfg own specs available

/-- A tensor for fewer blocks. -/
def shrinkTensor (old new : Int) (t : KVCacheTensor) : Except LayoutError KVCacheTensor :=
  if old = 0 then .error .zeroDivision
  else do
    require (t.size % old = 0) ""
    return { t with size := t.size / old * new }

/-- The configuration of one worker with the common number of blocks. -/
def shrinkConfig (cfg : LayoutConfig) (numBlocks : Int) (c : KVCacheConfig) : Except LayoutError KVCacheConfig := do
  let tensors ← c.kvCacheTensors.mapM (shrinkTensor c.numBlocks numBlocks)
  let c' : KVCacheConfig := { c with numBlocks := numBlocks, kvCacheTensors := tensors }
  if c.kvCacheGroups.isEmpty then return c'
  -- `_report_kv_cache_config`
  let _ ← getMaxConcurrency cfg c'
  return c'

/-- Python `get_kv_cache_configs`. -/
def getKvCacheConfigs (cfg : LayoutConfig) (workers : List (Dict LayerName KVCacheSpec × Int)) :
    Except LayoutError (List KVCacheConfig) := do
  workers.forM fun w => checkEnoughKvCacheMemory cfg w.1 w.2
  let merged ← mergeSpecs (workers.map Prod.fst)
  let groups ← getKvCacheGroups cfg merged
  let configs ← workers.mapM fun w => workerConfig cfg groups w.1 w.2
  match (configs.map KVCacheConfig.numBlocks).min? with
  | none => .error .empty
  | some numBlocks => configs.mapM (shrinkConfig cfg numBlocks)

/-- The group of the scheduler: one layer stands for all. -/
def KVCacheGroupSpec.forScheduler (g : KVCacheGroupSpec) : Except LayoutError KVCacheGroupSpec :=
  match g.kvCacheSpec with
  | .merged _ => .ok g
  | .uniformType specs =>
    match specs.values with
    | [] => .error .empty
    | s :: _ => .ok { g with kvCacheSpec := .merged s }

/-- Python `generate_scheduler_kv_cache_config`. -/
def generateSchedulerKvCacheConfig (configs : List KVCacheConfig) : Except LayoutError KVCacheConfig :=
  match configs with
  | [] => .error .empty
  | c :: rest => do
    require (∀ c' ∈ rest, c'.numBlocks = c.numBlocks) ""
    return { c with kvCacheGroups := ← c.kvCacheGroups.mapM KVCacheGroupSpec.forScheduler }

end Gambit.Layout
