import Gambit.KV.BlockPool
import Gambit.KV.Hash

/-!
# The KV cache manager

Model of `vllm/v1/core/kv_cache_manager.py` with the coordinators and the managers of the groups
(`kv_cache_coordinator.py`, `single_type_kv_cache_manager.py`): full attention, sliding window, chunked
local attention, Mamba and cross attention. A group keeps the block table of each request and how many of its
blocks are cached; the pool is shared by all groups and threaded through their calls in order.

`req_to_blocks` is a `defaultdict`: a request without an entry has the empty table, and reading it makes an entry
(`withEntry`). The blocks found by `find_longest_cache_hit` are computed row by row, one row holding a block for
each group, and handed on as one column per group. What raises is `Except.error`. Block sizes are those of the
groups times the number of context parallel ranks. Left out: statistics and events.
-/

namespace Gambit.KV
open Gambit.Lib Gambit.Sched

/-- Python `cdiv`. -/
def cdiv (a b : Int) : Int := -(-a / b)

/-- The attention of the layers of a group. -/
inductive AttentionSpec where
  | full
  | slidingWindow (window : Nat)
  | chunkedLocal (chunk : Nat)
  | mamba (numSpeculativeBlocks : Nat)
  | crossAttention
  deriving DecidableEq

/-- Python `get_num_skipped_tokens`. -/
def AttentionSpec.getNumSkippedTokens (numComputed : Int) : AttentionSpec → Int
  | .full => 0
  | .slidingWindow window => numComputed - window + 1
  | .chunkedLocal chunk => numComputed / chunk * chunk
  | .mamba _ => 0
  | .crossAttention => 0

/-- Python `SingleTypeKVCacheManager`. -/
structure SingleTypeManager where
  spec : AttentionSpec
  blockSize : Nat
  groupId : Nat
  reqToBlocks : Dict ReqId (List Nat) := ∅
  numCachedBlock : Dict ReqId Nat := ∅

namespace SingleTypeManager
variable {η : Type} [DecidableEq η] (m : SingleTypeManager) (p : BlockPool η)

/-- The block table of a request. -/
def table (rid : ReqId) : List Nat := m.reqToBlocks.getD rid []

/-- The group after a read of `req_to_blocks[request_id]`. -/
def withEntry (rid : ReqId) : SingleTypeManager :=
  if rid ∈ m.reqToBlocks then m else { m with reqToBlocks := m.reqToBlocks.set rid [] }

/-- The number of blocks of a request that are cached. -/
def numCached (rid : ReqId) : Nat := m.numCachedBlock.getD rid 0

/-- The number of blocks that lie before the attention of the next token. -/
def numSkippedBlocks (numComputed : Int) : Nat :=
  (m.spec.getNumSkippedTokens numComputed / m.blockSize).toNat

/-- The loop of `remove_skipped_blocks` over the first `n` entries, from the last one down: the table, and
the blocks taken out of it. -/
def nullOut : Nat → List Nat → List Nat × List Nat
  | 0, t => (t, [])
  | i + 1, t =>
    let b := t.getD i 0
    if b = 0 then (t, [])
    else ((nullOut i (t.set i 0)).1, b :: (nullOut i (t.set i 0)).2)

/-- Python `remove_skipped_blocks`. -/
def removeSkippedBlocks (rid : ReqId) (numComputed : Int) : Except Unit (SingleTypeManager × BlockPool η × Unit) :=
  if m.spec.getNumSkippedTokens numComputed ≤ 0 then .ok (m, p, ())
  -- the first access of the loop is out of range
  else if (m.table rid).length < m.numSkippedBlocks numComputed then .error ()
  else
    let (t, removed) := nullOut (m.numSkippedBlocks numComputed) (m.table rid)
    .ok ({ m with reqToBlocks := m.reqToBlocks.set rid t }, p.freeBlocks removed, ())

/-- The tokens to find slots for: Mamba adds its speculative blocks. -/
def paddedTokens (numTokens : Int) : Int :=
  match m.spec with
  | .mamba numSpeculativeBlocks => numTokens + m.blockSize * numSpeculativeBlocks
  | _ => numTokens

/-- Python `get_num_blocks_to_allocate`. -/
def getNumBlocksToAllocate (rid : ReqId) (numTokens : Int) (newComputed : List Nat) : Int :=
  cdiv (m.paddedTokens numTokens) m.blockSize - newComputed.length - (m.table rid).length +
    newComputed.countP fun b => p.refCnt b = 0 ∧ b ≠ 0

/-- Python `save_new_computed_blocks`. -/
def saveNewComputedBlocks (rid : ReqId) (newComputed : List Nat) : Except Unit SingleTypeManager :=
  if m.spec = .crossAttention then
    if newComputed = [] then .ok m else .error ()
  else if rid ∈ m.numCachedBlock then
    if newComputed = [] then .ok m else .error ()
  else if m.table rid = [] then
    .ok { m with
      reqToBlocks := m.reqToBlocks.set rid newComputed
      numCachedBlock := m.numCachedBlock.set rid newComputed.length }
  else .error ()

/-- Python `allocate_new_blocks`. -/
def allocateNewBlocks (rid : ReqId) (numTokens : Int) : Except Unit (SingleTypeManager × BlockPool η × List Nat) :=
  let numNew := cdiv (m.paddedTokens numTokens) m.blockSize - (m.table rid).length
  if numNew ≤ 0 then .ok (m.withEntry rid, p, [])
  else do
    let (p, new) ← p.getNewBlocks numNew.toNat
    .ok ({ m with reqToBlocks := m.reqToBlocks.set rid (m.table rid ++ new) }, p, new)

/-- Python `cache_blocks`, on the id and the block hashes of the request. -/
def cacheBlocks (rid : ReqId) (hashes : List η) (numTokens : Int) :
    Except Unit (SingleTypeManager × BlockPool η × Unit) :=
  let numFull := (numTokens / m.blockSize).toNat
  if m.spec = .crossAttention then .error ()
  else if numFull ≤ m.numCached rid then .ok (m, p, ())
  else do
    let p ← p.cacheFullBlocks hashes (m.table rid) (m.numCached rid) numFull m.groupId
    .ok ({ m.withEntry rid with numCachedBlock := m.numCachedBlock.set rid numFull }, p, ())

/-- Python `free`. -/
def free (rid : ReqId) : Except Unit (SingleTypeManager × BlockPool η × Unit) :=
  .ok ({ m with
    reqToBlocks := m.reqToBlocks.erase rid
    numCachedBlock := m.numCachedBlock.erase rid }, p.freeBlocks (m.table rid).reverse, ())

/-- Python `get_num_common_prefix_blocks`. -/
def getNumCommonPrefixBlocks (rid : ReqId) : SingleTypeManager × Nat :=
  match m.spec with
  | .full =>
    let m := m.withEntry rid
    (m, ((m.table rid).takeWhile fun b => p.refCnt b = m.reqToBlocks.keys.length).length)
  | _ => (m, 0)

end SingleTypeManager

section Hits
variable {η : Type} [DecidableEq η] (p : BlockPool η) (groupIds : List Nat)

/-- The rows of consecutive hashes that are cached for all groups. -/
def hitRows : List η → List (List Nat)
  | [] => []
  | h :: hs =>
    match p.getCachedBlock h groupIds with
    | some row => row :: hitRows hs
    | none => []

/-- The last match is dropped for an eagle head. -/
def dropEagle (useEagle : Bool) (rows : List (List Nat)) : List (List Nat) :=
  if useEagle then rows.dropLast else rows

/-- Python `FullAttentionManager.find_longest_cache_hit`. -/
def fullAttentionHit (hashes : List η) (maxLength blockSize : Nat) (useEagle : Bool) : List (List Nat) :=
  dropEagle useEagle (hitRows p groupIds (hashes.take (maxLength / blockSize)))

/-- The loop of `SlidingWindowManager.find_longest_cache_hit` over the first blocks, from the last one down;
`need` contiguous hits end it. -/
def slidingWindowRows (hashes : List η) (need : Nat) :
    Nat → Nat → List (List Nat) → Except Unit (List (List Nat))
  | 0, contiguous, rows => .ok (rows.take contiguous)
  | i + 1, contiguous, rows =>
    match hashes[i]? with
    | none => .error ()
    | some h =>
      match p.getCachedBlock h groupIds with
      | some row =>
        if need ≤ contiguous + 1 then .ok ((rows.set i row).take (i + (contiguous + 1)))
        else slidingWindowRows hashes need i (contiguous + 1) (rows.set i row)
      | none => slidingWindowRows hashes need i 0 rows

/-- Python `SlidingWindowManager.find_longest_cache_hit`. -/
def slidingWindowHit (hashes : List η) (maxLength blockSize window : Nat) (useEagle : Bool) :
    Except Unit (List (List Nat)) := do
  let need := (cdiv ((window : Int) - 1) blockSize).toNat + if useEagle then 1 else 0
  let n := maxLength / blockSize
  let rows ← slidingWindowRows p groupIds hashes need n 0 (List.replicate n (groupIds.map fun _ => 0))
  .ok (dropEagle useEagle rows)

/-- Python `ChunkedLocalAttentionManager.find_longest_cache_hit`. -/
def chunkedLocalHit (hashes : List η) (maxLength blockSize chunk : Nat) (useEagle : Bool) :
    Except Unit (List (List Nat)) :=
  let n := maxLength / blockSize
  let start := maxLength / chunk * chunk / blockSize
  let rows := hitRows p groupIds ((hashes.take n).drop start)
  if useEagle then .error ()
  -- the loop runs out of hashes
  else if start < n ∧ hashes.length < n ∧ rows.length = hashes.length - start then .error ()
  else .ok (List.replicate start (groupIds.map fun _ => 0) ++ rows)

/-- Python `MambaManager.find_longest_cache_hit`, with `n` blocks left to look at. -/
def mambaHit (hashes : List η) : Nat → Except Unit (List (List Nat))
  | 0 => .ok []
  | i + 1 =>
    match hashes[i]? with
    | none => .error ()
    | some h =>
      match p.getCachedBlock h groupIds with
      | some row => .ok (List.replicate i (groupIds.map fun _ => 0) ++ [row])
      | none => mambaHit hashes i

/-- Python `find_longest_cache_hit` of the manager of an attention. -/
def findHitRows (spec : AttentionSpec) (hashes : List η) (maxLength blockSize : Nat) (useEagle : Bool) :
    Except Unit (List (List Nat)) :=
  match spec with
  | .full => .ok (fullAttentionHit p groupIds hashes maxLength blockSize useEagle)
  | .slidingWindow window => slidingWindowHit p groupIds hashes maxLength blockSize window useEagle
  | .chunkedLocal chunk => chunkedLocalHit p groupIds hashes maxLength blockSize chunk useEagle
  | .mamba _ => mambaHit p groupIds hashes (maxLength / blockSize)
  | .crossAttention => .error ()

/-- The columns of rows: the blocks of each group. -/
def columns (rows : List (List Nat)) : List (List Nat) :=
  (List.range groupIds.length).map fun j => rows.map fun row => row.getD j 0

end Hits

/-- Python `KVCacheManager`. -/
structure KVCacheManager (η : Type) where
  maxModelLen : Nat
  useEagle : Bool := false
  blockPool : BlockPool η
  managers : List SingleTypeManager

/-- A loop over the managers of the groups, which share the pool. -/
def forManagers {η α : Type} (f : SingleTypeManager → BlockPool η → Except Unit (SingleTypeManager × BlockPool η × α)) :
    List SingleTypeManager → BlockPool η → Except Unit (List SingleTypeManager × BlockPool η × List α)
  | [], p => .ok ([], p, [])
  | m :: ms, p => do
    let (m, p, a) ← f m p
    let (ms, p, as) ← forManagers f ms p
    .ok (m :: ms, p, a :: as)

namespace KVCacheManager
variable {η : Type} [DecidableEq η] (H : Hasher η) (s : KVCacheManager η)

/-- The groups with full attention. -/
def fullAttentionManagers : List SingleTypeManager := s.managers.filter (·.spec = .full)

/-- The other groups. -/
def otherManagers : List SingleTypeManager := s.managers.filter (·.spec ≠ .full)

/-- Python `HybridKVCacheCoordinator.find_longest_cache_hit` for the first groups of the two kinds. -/
def hybridHit (hashes : List η) (maxLength : Nat) (full other : SingleTypeManager) :
    Except Unit (List (List Nat) × Nat) := do
  let fullIds := s.fullAttentionManagers.map SingleTypeManager.groupId
  let otherIds := s.otherManagers.map SingleTypeManager.groupId
  let rows := fullAttentionHit s.blockPool fullIds hashes maxLength full.blockSize s.useEagle
  let others ← findHitRows s.blockPool otherIds other.spec hashes (rows.length * full.blockSize) other.blockSize
    s.useEagle
  let hitLength := others.length * other.blockSize
  if hitLength % full.blockSize ≠ 0 then .error ()
  else
    let hitFull := columns fullIds (rows.take (hitLength / full.blockSize))
    let hitOther := columns otherIds others
    .ok (if full.groupId < other.groupId then hitFull ++ hitOther else hitOther ++ hitFull, hitLength)

/-- Python `find_longest_cache_hit` of the coordinator for the groups there are. -/
def findLongestCacheHit (hashes : List η) (maxLength : Nat) : Except Unit (List (List Nat) × Nat) :=
  match s.managers with
  | [m] => do
    let rows ← findHitRows s.blockPool [m.groupId] m.spec hashes maxLength m.blockSize s.useEagle
    .ok (columns [m.groupId] rows, rows.length * m.blockSize)
  | _ =>
    match s.fullAttentionManagers, s.otherManagers with
    | full :: _, other :: _ => s.hybridHit hashes maxLength full other
    -- the coordinator is not built without both kinds
    | _, _ => .error ()

/-- No computed blocks (Python `empty_kv_cache_blocks`). -/
def emptyBlocks : List (List Nat) := s.managers.map fun _ => []

/-- Python `get_computed_blocks`. -/
def getComputedBlocks (r : Request) : Except Unit (List (List Nat) × Nat) :=
  if s.blockPool.enableCaching = false ∨ r.samplingParams.promptLogprobs ≠ none then .ok (s.emptyBlocks, 0)
  else s.findLongestCacheHit (H.blockHashes r) (r.numTokens - 1)

/-- Python `get_num_blocks_to_allocate` of the coordinator. -/
def getNumBlocksToAllocate (rid : ReqId) (numTokens : Int) (newComputed : List (List Nat)) (numEncoderTokens : Nat) :
    Int :=
  (s.managers.zip newComputed).map (fun e =>
    if e.1.spec = .crossAttention then e.1.getNumBlocksToAllocate s.blockPool rid numEncoderTokens []
    else e.1.getNumBlocksToAllocate s.blockPool rid numTokens e.2) |>.sum

/-- The manager after `req_to_blocks[request_id]` was read in every group. -/
def withEntries (rid : ReqId) : KVCacheManager η := { s with managers := s.managers.map fun m => m.withEntry rid }

/-- Python `remove_skipped_blocks` of the coordinator. -/
def removeSkippedBlocks (rid : ReqId) (numComputed : Int) : Except Unit (KVCacheManager η) := do
  let (ms, p, _) ← forManagers (fun m p => m.removeSkippedBlocks p rid numComputed) s.managers s.blockPool
  .ok { s with managers := ms, blockPool := p }

/-- The computed blocks get a reference and go into the tables. -/
def takeComputedBlocks (rid : ReqId) (newComputed : List (List Nat)) : Except Unit (KVCacheManager η) :=
  if newComputed.all List.isEmpty then .ok s
  else if s.blockPool.enableCaching = false then .error ()
  else do
    let p ← s.blockPool.touch newComputed
    let ms ← (s.managers.zip newComputed).mapM fun e => e.1.saveNewComputedBlocks rid e.2
    .ok { s with blockPool := p, managers := ms }

/-- Python `allocate_new_blocks` of the coordinator. -/
def allocateNewBlocks (rid : ReqId) (numTokens : Int) (numEncoderTokens : Nat) :
    Except Unit (KVCacheManager η × List (List Nat)) := do
  let (ms, p, new) ← forManagers (fun m p =>
    m.allocateNewBlocks p rid (if m.spec = .crossAttention then numEncoderTokens else numTokens)) s.managers s.blockPool
  .ok ({ s with managers := ms, blockPool := p }, new)

/-- Python `cache_blocks`; `num_computed_tokens` counts the tokens to cache. -/
def cacheBlocks (r : Request) (numTokens : Int) : Except Unit (KVCacheManager η) :=
  if s.blockPool.enableCaching then do
    let (ms, p, _) ← forManagers (fun m p => m.cacheBlocks p r.requestId (H.blockHashes r) numTokens) s.managers
      s.blockPool
    .ok { s with managers := ms, blockPool := p }
  else .ok s

/-- Python `allocate_slots`; the new computed blocks are those `get_computed_blocks` found, or none. -/
def allocateSlots (r : Request) (numNew : Int) (numNewComputed : Nat) (newComputed : List (List Nat))
    (lookahead : Nat) (delayCacheBlocks : Bool) (numEncoderTokens : Nat := 0) :
    Except Unit (KVCacheManager η × Option (List (List Nat))) :=
  if numNew = 0 then .error ()
  else do
    let s ← s.removeSkippedBlocks r.requestId r.numComputedTokens
    let numComputed := r.numComputedTokens + numNewComputed
    let numTokens : Int := min (numComputed + numNew + lookahead) s.maxModelLen
    let numBlocks := s.getNumBlocksToAllocate r.requestId numTokens newComputed numEncoderTokens
    let s := s.withEntries r.requestId
    if s.blockPool.getNumFreeBlocks < numBlocks then .ok (s, none)
    else do
      let s ← s.takeComputedBlocks r.requestId newComputed
      let (s, new) ← s.allocateNewBlocks r.requestId numTokens numEncoderTokens
      if delayCacheBlocks then .ok (s, some new)
      else do
        let s ← s.cacheBlocks H r (min (numComputed + numNew) r.numTokens)
        .ok (s, some new)

/-- Python `free`. -/
def free (rid : ReqId) : Except Unit (KVCacheManager η) := do
  let (ms, p, _) ← forManagers (fun m p => m.free p rid) s.managers s.blockPool
  .ok { s with managers := ms, blockPool := p }

/-- Python `reset_prefix_cache`. -/
def resetPrefixCache : KVCacheManager η × Bool :=
  ({ s with blockPool := s.blockPool.resetPrefixCache.1 }, s.blockPool.resetPrefixCache.2)

/-- Python `get_num_common_prefix_blocks`; without caching the coordinator answers without a look. -/
def getNumCommonPrefixBlocks (rid : ReqId) : KVCacheManager η × List Nat :=
  if s.blockPool.enableCaching then
    let counts := s.managers.map fun m => m.getNumCommonPrefixBlocks s.blockPool rid
    ({ s with managers := counts.map Prod.fst }, counts.map Prod.snd)
  else (s, s.managers.map fun _ => 0)

/-- Python `get_blocks`. -/
def getBlocks (rid : ReqId) : List (List Nat) := s.managers.map fun m => m.table rid

end KVCacheManager
end Gambit.KV
