import Gambit.Lib.Dict

/-!
# The block pool

Model of `vllm/v1/core/block_pool.py`: the blocks with their reference counts and hashes, the queue of free
blocks in eviction order, and the map from hashes to cached blocks.

A block is its id; `blocks` gives its metadata, and block 0 is the null block. The doubly linked free list
(`FreeKVCacheBlockQueue`) is the list of its blocks from head to tail, with its own counter
`num_free_blocks`: a block has both links exactly while it is in the list, so `remove` of a block outside it
raises. A hash with a group id is the pair. What raises is `Except.error`. Left out: events, logging and
`get_usage`.
-/

namespace Gambit.KV
open Gambit.Lib

/-- A block hash with the id of a group (Python `BlockHashWithGroupId`). -/
abbrev BlockKey (η : Type) := η × Nat

/-- The metadata of a block (Python `KVCacheBlock`). -/
structure KVCacheBlock (η : Type) where
  refCnt : Int := 0
  blockHash : Option (BlockKey η) := none

/-- The blocks cached under one key: one block, or a dictionary of several. -/
inductive CachedBlocks where
  | one (b : Nat)
  | many (bs : List Nat)
  deriving DecidableEq

/-- The ids cached, in order. -/
def CachedBlocks.ids : CachedBlocks → List Nat
  | .one b => [b]
  | .many bs => bs

/-- Python `BlockHashToBlockMap`. -/
abbrev BlockHashToBlockMap (η : Type) := Dict (BlockKey η) CachedBlocks

namespace BlockHashToBlockMap
variable {η : Type} [DecidableEq η]

/-- Python `get_one_block`. -/
def getOneBlock (c : BlockHashToBlockMap η) (k : BlockKey η) : Option Nat :=
  (Dict.get? c k).bind fun blocks => blocks.ids.head?

/-- Python `insert`. -/
def insert (c : BlockHashToBlockMap η) (k : BlockKey η) (b : Nat) : BlockHashToBlockMap η :=
  match Dict.get? c k with
  | none => c.set k (.one b)
  | some (.one a) => c.set k (.many (if a = b then [a] else [a, b]))
  | some (.many bs) => c.set k (.many (if b ∈ bs then bs else bs ++ [b]))

/-- Python `pop`: the map without the block, and whether it was there. -/
def pop (c : BlockHashToBlockMap η) (k : BlockKey η) (b : Nat) : BlockHashToBlockMap η × Bool :=
  match Dict.get? c k with
  | none => (c, false)
  -- a block that does not match is put back, at the end
  | some (.one a) => if a = b then (c.erase k, true) else ((c.erase k).set k (.one a), false)
  | some (.many bs) =>
    (if bs.erase b = [] then c.erase k else (c.erase k).set k (.many (bs.erase b)), decide (b ∈ bs))

end BlockHashToBlockMap

/-- Python `BlockPool`. -/
structure BlockPool (η : Type) where
  numGpuBlocks : Nat
  enableCaching : Bool
  blocks : Nat → KVCacheBlock η := fun _ => {}
  freeBlockQueue : List Nat
  numFreeBlocks : Int
  cachedBlockHashToBlock : BlockHashToBlockMap η := (∅ : Dict _ _)
  /-- History: the blocks `get_new_blocks` handed out. No function reads it. -/
  handedOut : List Nat := []

/-- What no operation of the pool changes. -/
structure SamePool {η : Type} (p p' : BlockPool η) : Prop where
  numGpuBlocks : p'.numGpuBlocks = p.numGpuBlocks
  enableCaching : p'.enableCaching = p.enableCaching

lemma SamePool.refl {η : Type} (p : BlockPool η) : SamePool p p := ⟨rfl, rfl⟩

lemma SamePool.trans {η : Type} {p p' p'' : BlockPool η} (h : SamePool p p') (h' : SamePool p' p'') :
    SamePool p p'' :=
  ⟨h'.numGpuBlocks.trans h.numGpuBlocks, h'.enableCaching.trans h.enableCaching⟩

namespace BlockPool
variable {η : Type}

/-- Python `BlockPool.__init__`: the first block of the queue becomes the null block. -/
def init (numGpuBlocks : Nat) (enableCaching : Bool) : BlockPool η where
  numGpuBlocks := numGpuBlocks
  enableCaching := enableCaching
  freeBlockQueue := (List.range numGpuBlocks).tail
  numFreeBlocks := (numGpuBlocks : Int) - 1

variable (p : BlockPool η)

/-- The reference count of a block. -/
def refCnt (b : Nat) : Int := (p.blocks b).refCnt

/-- The hash of a block. -/
def blockHash (b : Nat) : Option (BlockKey η) := (p.blocks b).blockHash

/-- Assign the reference count of a block. -/
def setRefCnt (b : Nat) (n : Int) : BlockPool η :=
  { p with blocks := Function.update p.blocks b { p.blocks b with refCnt := n } }

/-- Assign the hash of a block. -/
def setHash (b : Nat) (k : Option (BlockKey η)) : BlockPool η :=
  { p with blocks := Function.update p.blocks b { p.blocks b with blockHash := k } }

@[simp] lemma refCnt_setRefCnt (b : Nat) (n : Int) (x : Nat) :
    (p.setRefCnt b n).refCnt x = if x = b then n else p.refCnt x := by
  by_cases hx : x = b
  · simp [setRefCnt, refCnt, hx]
  · simp [setRefCnt, refCnt, hx]

@[simp] lemma blockHash_setRefCnt (b : Nat) (n : Int) (x : Nat) : (p.setRefCnt b n).blockHash x = p.blockHash x := by
  by_cases hx : x = b
  · simp [setRefCnt, blockHash, hx]
  · simp [setRefCnt, blockHash, hx]

@[simp] lemma blockHash_setHash (b : Nat) (k : Option (BlockKey η)) (x : Nat) :
    (p.setHash b k).blockHash x = if x = b then k else p.blockHash x := by
  by_cases hx : x = b
  · simp [setHash, blockHash, hx]
  · simp [setHash, blockHash, hx]

@[simp] lemma refCnt_setHash (b : Nat) (k : Option (BlockKey η)) (x : Nat) : (p.setHash b k).refCnt x = p.refCnt x := by
  by_cases hx : x = b
  · simp [setHash, refCnt, hx]
  · simp [setHash, refCnt, hx]

variable [DecidableEq η]

/-- Python `get_num_free_blocks`. -/
def getNumFreeBlocks : Int := p.numFreeBlocks

/-- Python `get_cached_block`. -/
def getCachedBlock (h : η) (groupIds : List Nat) : Option (List Nat) :=
  groupIds.mapM fun g => p.cachedBlockHashToBlock.getOneBlock (h, g)

/-- One round of `cache_full_blocks`: a block gets its hash and is cached. -/
def cacheBlock (g : Nat) (p : BlockPool η) (e : Nat × η) : Except Unit (BlockPool η) :=
  match p.blockHash e.1 with
  | some _ => .error ()
  | none =>
    .ok { p.setHash e.1 (some (e.2, g)) with
      cachedBlockHashToBlock := p.cachedBlockHashToBlock.insert (e.2, g) e.1 }

/-- Python `cache_full_blocks`. -/
def cacheFullBlocks (hashes : List η) (blocks : List Nat) (numCached numFull g : Nat) :
    Except Unit (BlockPool η) :=
  if numFull ≤ numCached then .ok p
  else if hashes.length < numFull then .error ()
  else (((blocks.take numFull).drop numCached).zip (hashes.drop numCached)).foldlM (cacheBlock g) p

/-- Python `_maybe_evict_cached_block`. -/
def maybeEvictCachedBlock (b : Nat) : BlockPool η :=
  match p.blockHash b with
  | none => p
  | some k =>
    let (cached, found) := p.cachedBlockHashToBlock.pop k b
    let p := { p with cachedBlockHashToBlock := cached }
    if found then p.setHash b none else p

/-- One round of `get_new_blocks`: a block from the queue gets its first reference. -/
def handOut (p : BlockPool η) (b : Nat) : Except Unit (BlockPool η) :=
  let p := if p.enableCaching then p.maybeEvictCachedBlock b else p
  if p.refCnt b = 0 then .ok { p.setRefCnt b (p.refCnt b + 1) with handedOut := p.handedOut ++ [b] }
  else .error ()

/-- Python `get_new_blocks`, with `popleft_n`. -/
def getNewBlocks (n : Nat) : Except Unit (BlockPool η × List Nat) :=
  if p.getNumFreeBlocks < n then .error ()
  else if p.freeBlockQueue.length < n then .error ()
  else do
    let ret := p.freeBlockQueue.take n
    let p := { p with
      freeBlockQueue := p.freeBlockQueue.drop n
      numFreeBlocks := p.numFreeBlocks - n }
    let p ← ret.foldlM handOut p
    .ok (p, ret)

/-- One round of `touch`. -/
def touchBlock (p : BlockPool η) (b : Nat) : Except Unit (BlockPool η) :=
  if p.refCnt b = 0 ∧ b ≠ 0 then
    if b ∈ p.freeBlockQueue then
      .ok { p.setRefCnt b (p.refCnt b + 1) with
        freeBlockQueue := p.freeBlockQueue.erase b
        numFreeBlocks := p.numFreeBlocks - 1 }
    else .error ()
  else .ok (p.setRefCnt b (p.refCnt b + 1))

/-- Python `touch`. -/
def touch (blocks : List (List Nat)) : Except Unit (BlockPool η) := blocks.flatten.foldlM touchBlock p

/-- The first loop of `free_blocks`. -/
def release (p : BlockPool η) (b : Nat) : BlockPool η := p.setRefCnt b (p.refCnt b - 1)

/-- Python `free_blocks`. -/
def freeBlocks (orderedBlocks : List Nat) : BlockPool η :=
  let p := orderedBlocks.foldl release p
  let freed := orderedBlocks.filter fun b => p.refCnt b = 0 ∧ b ≠ 0
  { p with
    freeBlockQueue := p.freeBlockQueue ++ freed
    numFreeBlocks := p.numFreeBlocks + freed.length }

/-- Python `reset_prefix_cache`. -/
def resetPrefixCache : BlockPool η × Bool :=
  if (p.numGpuBlocks : Int) - p.getNumFreeBlocks ≠ 1 then (p, false)
  else ({ p with
    cachedBlockHashToBlock := (∅ : Dict _ _)
    blocks := fun b => { p.blocks b with blockHash := none } }, true)

end BlockPool
end Gambit.KV
