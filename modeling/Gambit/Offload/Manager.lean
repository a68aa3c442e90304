import Gambit.Lib.Dict
import Gambit.Lib.Machine

/-!
# Offloading managers

Model of `vllm/v1/kv_offload`: `BlockStatus`, `CPUBackend`, `LRUOffloadingManager` and
`ARCOffloadingManager`. Block hashes are of any type with equality.

An operation that can raise returns `Except`, and an error carries the manager as it stands at the
raise. The reference count is the `c_int32` of the source and wraps. The target size of ARC, a float
there, is computed exactly; what is proved about stores is for any other value of it too.

`OffloadingManager` is the abstract class, with what the properties look at. `offloadMachine` drives
any manager and keeps, as history variables, which loads and stores were prepared and not completed.

The block size and the medium of an offloading event, which are those of the backend, are left out.
-/

namespace Gambit.Offload
open Gambit.Lib

/-- Python `CPUBlockStatus`. -/
structure BlockStatus where
  refCnt : Int
  blockId : Nat
  deriving DecidableEq, Repr

namespace BlockStatus

/-- A new block, not ready to be read. -/
def new (blockId : Nat) : BlockStatus := ⟨-1, blockId⟩

/-- Python `BlockStatus.is_ready`. -/
def isReady (b : BlockStatus) : Bool := 0 ≤ b.refCnt

/-- Assignment to the `c_int32` field `ref_cnt`. -/
def setRefCnt (b : BlockStatus) (n : Int) : BlockStatus := { b with refCnt := n.bmod (2 ^ 32) }

end BlockStatus

/-- Python `CPUBackend`. -/
structure CPUBackend where
  numBlocks : Nat
  numAllocatedBlocks : Nat := 0
  allocatedBlocksFreeList : List Nat := []
  deriving DecidableEq, Repr

namespace CPUBackend

/-- Python `CPUBackend.get_num_free_blocks`. -/
def getNumFreeBlocks (b : CPUBackend) : Int :=
  b.allocatedBlocksFreeList.length + b.numBlocks - b.numAllocatedBlocks

/-- Python `CPUBackend.allocate_blocks` for `n` hashes; `none` when its assertion fails. -/
def allocateBlocks (b : CPUBackend) (n : Nat) : Option (CPUBackend × List BlockStatus) :=
  let numFresh := min n (b.numBlocks - b.numAllocatedBlocks)
  let numReused := n - numFresh
  if numReused ≤ b.allocatedBlocksFreeList.length then
    let fresh := (List.range numFresh).map (b.numAllocatedBlocks + ·)
    let reused := b.allocatedBlocksFreeList.reverse.take numReused
    some
      ({ b with
          numAllocatedBlocks := b.numAllocatedBlocks + numFresh
          allocatedBlocksFreeList := b.allocatedBlocksFreeList.rdrop numReused },
        (fresh ++ reused).map .new)
  else none

/-- Python `CPUBackend.free`. -/
def free (b : CPUBackend) (block : BlockStatus) : CPUBackend :=
  { b with allocatedBlocksFreeList := b.allocatedBlocksFreeList ++ [block.blockId] }

end CPUBackend

/-- Python `PrepareStoreOutput`. -/
structure PrepareStoreOutput (η : Type) where
  blockHashesToStore : List η
  storeSpec : List Nat
  blockHashesEvicted : List η
  deriving DecidableEq

/-- Python `OffloadingEvent`. -/
structure OffloadingEvent (η : Type) where
  blockHashes : List η
  removed : Bool
  deriving DecidableEq

/-- `self.events`, if events are enabled, with one more event, unless it would name no block. -/
def appendEvent {η : Type} (events : Option (List (OffloadingEvent η))) (hs : List η) (removed : Bool) :
    Option (List (OffloadingEvent η)) :=
  if hs.isEmpty then events else events.map (· ++ [⟨hs, removed⟩])

/-- Python `OffloadingManager`, over manager states `σ` and hashes `η`. -/
structure OffloadingManager (σ η : Type) where
  backend : σ → CPUBackend
  /-- The entries that hold a block. -/
  live : σ → List (η × BlockStatus)
  lookup : σ → List η → Nat
  prepareLoad : σ → List η → Except σ (σ × List Nat)
  touch : σ → List η → Except σ σ
  completeLoad : σ → List η → Except σ σ
  prepareStore : σ → List η → Except σ (σ × Option (PrepareStoreOutput η))
  completeStore : σ → List η → Bool → Except σ σ
  takeEvents : σ → σ × List (OffloadingEvent η)

variable {η : Type} [DecidableEq η]

/-- The first hashes whose block is there and ready. -/
def countHits (get : η → Option BlockStatus) (hs : List η) : Nat :=
  (hs.takeWhile fun h => (get h).any BlockStatus.isReady).length

/-- How a manager reads the block of a hash and writes it back. -/
structure Slots (σ η : Type) where
  get? : σ → η → Option BlockStatus
  put : σ → η → BlockStatus → σ

namespace Slots
variable {σ : Type} (S : Slots σ η)

/-- Python `lookup`. -/
def lookup (s : σ) (hs : List η) : Nat := countHits (S.get? s) hs

/-- The body of the loop of `prepare_load`. -/
def prepareLoadOne (a : σ × List Nat) (h : η) : Except σ (σ × List Nat) :=
  match S.get? a.1 h with
  | none => .error a.1
  | some b =>
    if b.isReady then .ok (S.put a.1 h (b.setRefCnt (b.refCnt + 1)), a.2 ++ [b.blockId])
    else .error a.1

/-- Python `prepare_load`. -/
def prepareLoad (s : σ) (hs : List η) : Except σ (σ × List Nat) := hs.foldlM S.prepareLoadOne (s, [])

/-- The body of the loop of `complete_load`. -/
def completeLoadOne (s : σ) (h : η) : Except σ σ :=
  match S.get? s h with
  | none => .error s
  | some b => if 0 < b.refCnt then .ok (S.put s h (b.setRefCnt (b.refCnt - 1))) else .error s

/-- Python `complete_load`. -/
def completeLoad (s : σ) (hs : List η) : Except σ σ := hs.foldlM S.completeLoadOne s

end Slots

/-- Python `LRUOffloadingManager`. -/
structure LRU (η : Type) where
  backend : CPUBackend
  blocks : Dict η BlockStatus := ∅
  events : Option (List (OffloadingEvent η)) := none

namespace LRU

/-- Python `LRUOffloadingManager.__init__`. -/
def init (backend : CPUBackend) (enableEvents : Bool) : LRU η where
  backend := backend
  events := if enableEvents then some [] else none

/-- The blocks of `self.blocks`. -/
def slots : Slots (LRU η) η where
  get? s h := s.blocks.get? h
  put s h b := { s with blocks := s.blocks.set h b }

/-- Python `LRUOffloadingManager.lookup`. -/
def lookup (s : LRU η) (hs : List η) : Nat := slots.lookup s hs

/-- Python `LRUOffloadingManager.prepare_load`. -/
def prepareLoad (s : LRU η) (hs : List η) : Except (LRU η) (LRU η × List Nat) := slots.prepareLoad s hs

/-- Python `LRUOffloadingManager.complete_load`. -/
def completeLoad (s : LRU η) (hs : List η) : Except (LRU η) (LRU η) := slots.completeLoad s hs

/-- The body of the loop of `touch`. -/
def touchOne (s : LRU η) (h : η) : Except (LRU η) (LRU η) :=
  match s.blocks.get? h with
  | none => .ok s
  | some _ =>
    match s.blocks.moveToEnd h with
    | none => .error s
    | some blocks => .ok { s with blocks := blocks }

/-- Python `LRUOffloadingManager.touch`. -/
def touch (s : LRU η) (hs : List η) : Except (LRU η) (LRU η) := hs.reverse.foldlM touchOne s

/-- Evict one block. -/
def evictOne (s : LRU η) (h : η) : LRU η :=
  match s.blocks.get? h with
  | none => s
  | some b => { s with backend := s.backend.free b, blocks := s.blocks.erase h }

/-- The blocks to evict, oldest first, or `none` if not enough of them are idle. -/
def victims (s : LRU η) (n : Nat) : Option (List η) :=
  let idle := (s.blocks.entries.filter fun e => e.2.refCnt = 0).map Prod.fst
  if idle.length < n then none else some (idle.take n)

/-- Store new blocks under their hashes. -/
def insertAll (blocks : Dict η BlockStatus) (l : List (η × BlockStatus)) : Dict η BlockStatus :=
  l.foldl (fun d e => d.set e.1 e.2) blocks

/-- Python `LRUOffloadingManager.prepare_store`. -/
def prepareStore (s : LRU η) (hs : List η) :
    Except (LRU η) (LRU η × Option (PrepareStoreOutput η)) :=
  let toStore := hs.filter (· ∉ s.blocks)
  let numToEvict := ((toStore.length : Int) - s.backend.getNumFreeBlocks).toNat
  match s.victims numToEvict with
  | none => .ok (s, none)
  | some toEvict =>
    let s := toEvict.foldl evictOne s
    let s := { s with events := appendEvent s.events toEvict true }
    match s.backend.allocateBlocks toStore.length with
    | none => .error s
    | some (backend, blocks) =>
      .ok ({ s with backend := backend, blocks := insertAll s.blocks (toStore.zip blocks) },
        some
          { blockHashesToStore := toStore
            storeSpec := blocks.map BlockStatus.blockId
            blockHashesEvicted := toEvict })

/-- The body of the loops of `complete_store`; with the manager go the stored hashes. -/
def completeStoreOne (success : Bool) (a : LRU η × List η) (h : η) : Except (LRU η) (LRU η × List η) :=
  match a.1.blocks.get? h with
  | none => .error a.1
  | some b =>
    if b.isReady then .ok a
    else if success then .ok ({ a.1 with blocks := a.1.blocks.set h (b.setRefCnt 0) }, a.2 ++ [h])
    else .ok ({ a.1 with backend := a.1.backend.free b, blocks := a.1.blocks.erase h }, a.2)

/-- Python `LRUOffloadingManager.complete_store`. -/
def completeStore (s : LRU η) (hs : List η) (success : Bool) : Except (LRU η) (LRU η) :=
  (hs.foldlM (completeStoreOne success) (s, [])).map fun a =>
    { a.1 with events := appendEvent a.1.events a.2 false }

/-- Python `LRUOffloadingManager.take_events`, read to its end. -/
def takeEvents (s : LRU η) : LRU η × List (OffloadingEvent η) :=
  ({ s with events := s.events.map fun _ => [] }, s.events.getD [])

/-- LRU as an offloading manager. -/
def manager : OffloadingManager (LRU η) η where
  backend := backend
  live s := s.blocks.entries
  lookup := lookup
  prepareLoad := prepareLoad
  touch := touch
  completeLoad := completeLoad
  prepareStore := prepareStore
  completeStore := completeStore
  takeEvents := takeEvents

end LRU

/-- Python `ARCOffloadingManager`. -/
structure ARC (η : Type) where
  backend : CPUBackend
  /-- A float in the source, not rounded here. -/
  targetT1Size : ℚ := 0
  t1 : Dict η BlockStatus := ∅
  t2 : Dict η BlockStatus := ∅
  b1 : Dict η Unit := ∅
  b2 : Dict η Unit := ∅
  events : Option (List (OffloadingEvent η)) := none
  cacheCapacity : Int

namespace ARC

/-- Python `ARCOffloadingManager.__init__`. -/
def init (backend : CPUBackend) (enableEvents : Bool) : ARC η where
  backend := backend
  events := if enableEvents then some [] else none
  cacheCapacity := backend.getNumFreeBlocks

/-- A manager without events, as is the default. -/
def new (backend : CPUBackend) : ARC η := init backend false

/-- The block of a hash: `t1.get(h) or t2.get(h)`. -/
def get? (s : ARC η) (h : η) : Option BlockStatus := s.t1.get? h <|> s.t2.get? h

/-- Write back the block of a hash, in the list it was found in. -/
def put (s : ARC η) (h : η) (b : BlockStatus) : ARC η :=
  if h ∈ s.t1 then { s with t1 := s.t1.set h b } else { s with t2 := s.t2.set h b }

/-- The blocks of T1 and T2. -/
def slots : Slots (ARC η) η := ⟨get?, put⟩

/-- Python `ARCOffloadingManager.lookup`. -/
def lookup (s : ARC η) (hs : List η) : Nat := slots.lookup s hs

/-- Python `ARCOffloadingManager.prepare_load`. -/
def prepareLoad (s : ARC η) (hs : List η) : Except (ARC η) (ARC η × List Nat) := slots.prepareLoad s hs

/-- Python `ARCOffloadingManager.complete_load`. -/
def completeLoad (s : ARC η) (hs : List η) : Except (ARC η) (ARC η) := slots.completeLoad s hs

/-- The body of the loop of `touch`. -/
def touchOne (s : ARC η) (h : η) : Except (ARC η) (ARC η) :=
  match s.t1.get? h with
  | some b =>
    let s := { s with t1 := s.t1.erase h }
    if b.isReady then .ok { s with t2 := s.t2.set h b }
    else match s.t1.moveToEnd h with
      | none => .error s
      | some t1 => .ok { s with t1 := t1 }
  | none =>
    match s.t2.moveToEnd h with
    | some t2 => .ok { s with t2 := t2 }
    | none =>
      match s.b1.moveToEnd h with
      | some b1 =>
        let delta : ℚ := max 1 ((s.b2.size : ℚ) / s.b1.size)
        .ok { s with targetT1Size := min (s.targetT1Size + delta) s.cacheCapacity, b1 := b1 }
      | none =>
        match s.b2.moveToEnd h with
        | some b2 =>
          let delta : ℚ := max 1 ((s.b1.size : ℚ) / s.b2.size)
          .ok { s with targetT1Size := max (s.targetT1Size - delta) 0, b2 := b2 }
        | none => .ok s

/-- Python `ARCOffloadingManager.touch`. -/
def touch (s : ARC η) (hs : List η) : Except (ARC η) (ARC η) := hs.reverse.foldlM touchOne s

/-- The oldest idle block of a list. -/
def oldestIdle (t : Dict η BlockStatus) : Option (η × BlockStatus) :=
  t.entries.find? fun e => e.2.refCnt = 0

/-- One iteration of the eviction loop: from T1 if it is not below its target, else from T2. -/
def evictOne (s : ARC η) : Option (ARC η × η) :=
  let fromT1 := if ⌊s.targetT1Size⌋ ≤ (s.t1.size : Int) then oldestIdle s.t1 else none
  match fromT1, oldestIdle s.t2 with
  | some (h, b), _ =>
    some ({ s with t1 := s.t1.erase h, b1 := s.b1.set h (), backend := s.backend.free b }, h)
  | none, some (h, b) =>
    some ({ s with t2 := s.t2.erase h, b2 := s.b2.set h (), backend := s.backend.free b }, h)
  | none, none => none

/-- The eviction loop: the manager, what was evicted, and whether it was enough. -/
def evict : Nat → ARC η → List η → ARC η × List η × Bool
  | 0, s, evicted => (s, evicted, true)
  | n + 1, s, evicted =>
    match s.evictOne with
    | none => (s, evicted, false)
    | some (s, h) => evict n s (evicted ++ [h])

/-- Bound the ghost lists. -/
def boundGhosts (s : ARC η) : ARC η :=
  { s with
    b1 := s.b1.dropFirst (s.b1.size - s.cacheCapacity).toNat
    b2 := s.b2.dropFirst (s.b2.size - s.cacheCapacity).toNat }

/-- Insert a new block into T1. -/
def insertOne (s : ARC η) (e : η × BlockStatus) : ARC η :=
  { s with t1 := s.t1.set e.1 e.2, b1 := s.b1.erase e.1, b2 := s.b2.erase e.1 }

/-- Python `ARCOffloadingManager.prepare_store`. -/
def prepareStore (s : ARC η) (hs : List η) :
    Except (ARC η) (ARC η × Option (PrepareStoreOutput η)) :=
  let toStore := hs.filter fun h => h ∉ s.t1 ∧ h ∉ s.t2
  if toStore.isEmpty then .ok (s, some ⟨[], [], []⟩)
  else
    match evict ((toStore.length : Int) - s.backend.getNumFreeBlocks).toNat s [] with
    | (s, _, false) => .ok (s, none)
    | (s, evicted, true) =>
      let s := s.boundGhosts
      let s := { s with events := appendEvent s.events evicted true }
      match s.backend.allocateBlocks toStore.length with
      | none => .error s
      | some (backend, blocks) =>
        .ok ((toStore.zip blocks).foldl insertOne { s with backend := backend },
          some
            { blockHashesToStore := toStore
              storeSpec := blocks.map BlockStatus.blockId
              blockHashesEvicted := evicted })

/-- The body of the loops of `complete_store`; a failed store drops the entry from either list. With the manager go
the stored hashes. -/
def completeStoreOne (success : Bool) (a : ARC η × List η) (h : η) : ARC η × List η :=
  let s := a.1
  match s.get? h with
  | none => a
  | some b =>
    if success then if b.isReady then a else (s.put h (b.setRefCnt 0), a.2 ++ [h])
    else
      let s := if h ∈ s.t1 then { s with t1 := s.t1.erase h } else { s with t2 := s.t2.erase h }
      (if b.isReady then s else { s with backend := s.backend.free b }, a.2)

/-- Python `ARCOffloadingManager.complete_store`. -/
def completeStore (s : ARC η) (hs : List η) (success : Bool) : Except (ARC η) (ARC η) :=
  let (s, stored) := hs.foldl (completeStoreOne success) (s, [])
  .ok { s with events := appendEvent s.events stored false }

/-- Python `ARCOffloadingManager.take_events`, read to its end. -/
def takeEvents (s : ARC η) : ARC η × List (OffloadingEvent η) :=
  ({ s with events := s.events.map fun _ => [] }, s.events.getD [])

/-- ARC as an offloading manager. -/
def manager : OffloadingManager (ARC η) η where
  backend := backend
  live s := s.t1.entries ++ s.t2.entries
  lookup := lookup
  prepareLoad := prepareLoad
  touch := touch
  completeLoad := completeLoad
  prepareStore := prepareStore
  completeStore := completeStore
  takeEvents := takeEvents

end ARC

/-- A manager with the loads and the stores that were prepared and not completed. -/
structure OffloadState (σ η : Type) where
  mgr : σ
  loads : List η := []
  stores : List η := []

/-- The calls of a manager. -/
inductive OffloadEvent (η : Type) where
  | lookup (hs : List η)
  | touch (hs : List η)
  | prepareLoad (hs : List η)
  | completeLoad (hs : List η)
  | prepareStore (hs : List η)
  | completeStore (hs : List η) (success : Bool)
  | takeEvents
  deriving DecidableEq

/-- What a call returns. -/
inductive OffloadOutput (η : Type) where
  | done
  | hits (n : Nat)
  | loadSpec (ids : List Nat)
  | stored (out : Option (PrepareStoreOutput η))
  | events (l : List (OffloadingEvent η))
  | raised
  deriving DecidableEq

/-- The hashes a call evicted. -/
def OffloadOutput.evicted : OffloadOutput η → List η
  | .stored (some out) => out.blockHashesEvicted
  | _ => []

namespace OffloadState
variable {σ : Type} (M : OffloadingManager σ η)

/-- The effect of a call that only may raise. -/
def settle (x : OffloadState σ η) (r : Except σ σ) (loads stores : List η) :
    OffloadState σ η × OffloadOutput η :=
  match r with
  | .ok s => ({ mgr := s, loads := loads, stores := stores }, .done)
  | .error s => ({ x with mgr := s }, .raised)

/-- The effect of a call. -/
def next (x : OffloadState σ η) : OffloadEvent η → OffloadState σ η × OffloadOutput η
  | .lookup hs => (x, .hits (M.lookup x.mgr hs))
  | .touch hs => x.settle (M.touch x.mgr hs) x.loads x.stores
  | .prepareLoad hs =>
    match M.prepareLoad x.mgr hs with
    | .ok (s, ids) => ({ x with mgr := s, loads := x.loads ++ hs }, .loadSpec ids)
    | .error s => ({ x with mgr := s }, .raised)
  | .completeLoad hs => x.settle (M.completeLoad x.mgr hs) (x.loads.diff hs) x.stores
  | .prepareStore hs =>
    match M.prepareStore x.mgr hs with
    | .ok (s, some out) =>
      ({ x with mgr := s, stores := x.stores ++ out.blockHashesToStore }, .stored (some out))
    | .ok (s, none) => ({ x with mgr := s }, .stored none)
    | .error s => ({ x with mgr := s }, .raised)
  | .completeStore hs success =>
    x.settle (M.completeStore x.mgr hs success) x.loads (x.stores.filter (· ∉ hs))
  | .takeEvents => ({ x with mgr := (M.takeEvents x.mgr).1 }, .events (M.takeEvents x.mgr).2)

/-- How the manager is used: loads follow a lookup that reported them, every completion matches a
preparation, and hashes to store are distinct. -/
def Matched (x : OffloadState σ η) : OffloadEvent η → Prop
  | .lookup _ | .touch _ | .takeEvents => True
  | .prepareLoad hs => M.lookup x.mgr hs = hs.length
  | .completeLoad hs => hs.Subperm x.loads
  | .prepareStore hs => hs.Nodup
  | .completeStore hs _ => hs.Nodup ∧ ∀ h ∈ hs, h ∈ x.stores

/-- Preparing a load leaves its reference count in the range of a `c_int32`. -/
def CountFits (x : OffloadState σ η) : OffloadEvent η → Prop
  | .prepareLoad hs => ∀ h ∈ hs, (x.loads ++ hs).count h < 2 ^ 31
  | _ => True

instance (x : OffloadState σ η) : (ev : OffloadEvent η) → Decidable (x.Matched M ev)
  | .lookup _ | .touch _ | .takeEvents => inferInstanceAs (Decidable True)
  | .prepareLoad hs => inferInstanceAs (Decidable (M.lookup x.mgr hs = hs.length))
  | .completeLoad hs => inferInstanceAs (Decidable (hs.Subperm x.loads))
  | .prepareStore hs => inferInstanceAs (Decidable hs.Nodup)
  | .completeStore hs _ => inferInstanceAs (Decidable (hs.Nodup ∧ ∀ h ∈ hs, h ∈ x.stores))

instance (x : OffloadState σ η) : (ev : OffloadEvent η) → Decidable (x.CountFits ev)
  | .prepareLoad hs => inferInstanceAs (Decidable (∀ h ∈ hs, (x.loads ++ hs).count h < 2 ^ 31))
  | .lookup _ | .touch _ | .completeLoad _ | .prepareStore _ | .completeStore _ _ | .takeEvents =>
    inferInstanceAs (Decidable True)

end OffloadState

/-- A manager as a machine. -/
def offloadMachine {σ : Type} (M : OffloadingManager σ η) (s : σ) :
    Machine (OffloadState σ η) (OffloadEvent η) (OffloadOutput η) where
  init := { mgr := s }
  next := OffloadState.next M
  ok _ _ := True

end Gambit.Offload
