import Gambit.Lib.Interleave
import Gambit.Lib.Loop
import Gambit.Worker.InputBatch

/-!
# Slot mapping

Model of `BlockTable` in `vllm/v1/worker/block_table.py`, for a table of any size: its rows, which may split the
blocks of the KV cache into kernel blocks, and the slots it gives to positions, which may be dealt out to the ranks of
a context parallel group. The table is an `int32` array, and what is stored in it or computed from it wraps.

An operation that raises is `none`. `RowOp` are the operations on rows; `RowOp.track` says which physical blocks the
rows are then meant to hold.
-/

namespace Gambit.Worker
open Gambit.Lib

/-- A number as an `int32`. -/
def toInt32 (x : Int) : Int := x.bmod (2 ^ 32)

lemma toInt32_eq {n : Nat} (h : n < 2 ^ 31) : toInt32 n = n := Int.bmod_eq_of_le_mul_two (by omega) (by omega)

/-- Python `BlockTable`. -/
structure BlockTable where
  maxNumReqs : Nat
  maxNumBatchedTokens : Nat
  blockSize : Nat
  blocksPerKvBlock : Nat
  useHybridBlocks : Bool
  maxNumBlocksPerReq : Nat
  blockTable : Nat → Nat → Int
  numBlocksPerRow : Nat → Nat
  dcpWorldSize : Nat
  dcpRank : Nat
  dcpKvCacheInterleaveSize : Nat

namespace BlockTable

/-- Python `BlockTable.__init__`, for a rank of a context parallel group. -/
def init (blockSize maxNumReqs maxNumBlocksPerReq maxNumBatchedTokens kernelBlockSize dcpKvCacheInterleaveSize
    dcpWorldSize dcpRank : Nat) : Option BlockTable :=
  let table (blocksPerKvBlock : Nat) (useHybridBlocks : Bool) : BlockTable :=
    { maxNumReqs := maxNumReqs
      maxNumBatchedTokens := maxNumBatchedTokens
      blockSize := kernelBlockSize
      blocksPerKvBlock := blocksPerKvBlock
      useHybridBlocks := useHybridBlocks
      maxNumBlocksPerReq := maxNumBlocksPerReq * blocksPerKvBlock
      blockTable := fun _ _ => 0
      numBlocksPerRow := fun _ => 0
      dcpWorldSize := dcpWorldSize
      dcpRank := dcpRank
      dcpKvCacheInterleaveSize := dcpKvCacheInterleaveSize }
  if kernelBlockSize = blockSize then some (table 1 false)
  else if kernelBlockSize = 0 ∨ blockSize % kernelBlockSize ≠ 0 then none
  else some (table (blockSize / kernelBlockSize) true)

/-- Python `_map_to_kernel_blocks`. -/
def mapToKernelBlocks (t : BlockTable) (kvManagerBlockIds : List Nat) : List Nat :=
  if !t.useHybridBlocks then kvManagerBlockIds
  else kvManagerBlockIds.flatMap fun b => (List.range t.blocksPerKvBlock).map (b * t.blocksPerKvBlock + ·)

/-- Python `BlockTable.append_row`. A slice that is too short for the blocks raises, except that one block is dropped
by an empty slice. An id from `2 ^ 31` on wraps here, where NumPy raises if the ids are a plain list. -/
def appendRow (t : BlockTable) (blockIds : List Nat) (rowIdx : Nat) : Option BlockTable :=
  if blockIds = [] then some t
  else if t.maxNumReqs ≤ rowIdx then none
  else
    let blockIds := t.mapToKernelBlocks blockIds
    let start := t.numBlocksPerRow rowIdx
    let t := { t with numBlocksPerRow := Function.update t.numBlocksPerRow rowIdx (start + blockIds.length) }
    if start + blockIds.length ≤ t.maxNumBlocksPerReq then
      let row := writeAt (t.blockTable rowIdx) start (blockIds.map fun b : Nat => toInt32 b)
      some { t with blockTable := Function.update t.blockTable rowIdx row }
    else if blockIds.length = 1 then some t
    else none

/-- Python `BlockTable.add_row`. -/
def addRow (t : BlockTable) (blockIds : List Nat) (rowIdx : Nat) : Option BlockTable :=
  if t.maxNumReqs ≤ rowIdx then none
  else { t with numBlocksPerRow := Function.update t.numBlocksPerRow rowIdx 0 }.appendRow blockIds rowIdx

/-- Python `BlockTable.move_row`. -/
def moveRow (t : BlockTable) (src tgt : Nat) : Option BlockTable :=
  if t.maxNumReqs ≤ src ∨ t.maxNumReqs ≤ tgt then none
  else
    let numBlocks := t.numBlocksPerRow src
    some
      { t with
        blockTable := Function.update t.blockTable tgt (copyPrefix (t.blockTable src) (t.blockTable tgt) numBlocks)
        numBlocksPerRow := Function.update t.numBlocksPerRow tgt numBlocks }

/-- Python `BlockTable.swap_row`. -/
def swapRow (t : BlockTable) (src tgt : Nat) : Option BlockTable :=
  if t.maxNumReqs ≤ src ∨ t.maxNumReqs ≤ tgt then none
  else
    some
      { t with
        blockTable := t.blockTable ∘ Equiv.swap src tgt
        numBlocksPerRow := t.numBlocksPerRow ∘ Equiv.swap src tgt }

/-- An element of `block_table.np.ravel()`. -/
def ravel (t : BlockTable) (i : Nat) : Option Int :=
  if i < t.maxNumReqs * t.maxNumBlocksPerReq then
    some (t.blockTable (i / t.maxNumBlocksPerReq) (i % t.maxNumBlocksPerReq))
  else none

/-- The slot of one token in `compute_slot_mapping`. -/
def slotOf (t : BlockTable) (reqIndex position : Nat) : Option Int :=
  if t.dcpWorldSize > 1 then
    let virtualBlockSize := t.blockSize * t.dcpWorldSize
    let blockTableIndex := reqIndex * t.maxNumBlocksPerReq + position / virtualBlockSize
    let virtualBlockOffset := position % virtualBlockSize
    let mask := virtualBlockOffset / t.dcpKvCacheInterleaveSize % t.dcpWorldSize = t.dcpRank
    let blockOffset := virtualBlockOffset / (t.dcpWorldSize * t.dcpKvCacheInterleaveSize) * t.dcpKvCacheInterleaveSize +
      virtualBlockOffset % t.dcpKvCacheInterleaveSize
    (t.ravel blockTableIndex).map fun blockNumber =>
      if mask then toInt32 (blockNumber * t.blockSize) + blockOffset else -1
  else
    let blockTableIndex := reqIndex * t.maxNumBlocksPerReq + position / t.blockSize
    let blockOffset := position % t.blockSize
    (t.ravel blockTableIndex).map fun blockNumber => toInt32 (blockNumber * t.blockSize) + blockOffset

/-- Python `BlockTable.compute_slot_mapping`: the slots it writes. Arrays of different lengths are taken to raise. -/
def computeSlotMapping (t : BlockTable) (reqIndices positions : List Nat) : Option (List Int) :=
  if reqIndices.length = positions.length ∧ reqIndices.length ≤ t.maxNumBatchedTokens then
    (reqIndices.zip positions).mapM fun e => t.slotOf e.1 e.2
  else none

end BlockTable

/-- The operations on rows. -/
inductive RowOp where
  | append (blockIds : List Nat) (rowIdx : Nat)
  | add (blockIds : List Nat) (rowIdx : Nat)
  | move (src tgt : Nat)
  | swap (src tgt : Nat)

namespace RowOp

def apply (t : BlockTable) : RowOp → Option BlockTable
  | append blockIds rowIdx => t.appendRow blockIds rowIdx
  | add blockIds rowIdx => t.addRow blockIds rowIdx
  | move src tgt => t.moveRow src tgt
  | swap src tgt => t.swapRow src tgt

/-- The physical blocks that the rows are meant to hold. -/
def track (rows : Nat → List Nat) : RowOp → Nat → List Nat
  | append blockIds rowIdx => Function.update rows rowIdx (rows rowIdx ++ blockIds)
  | add blockIds rowIdx => Function.update rows rowIdx blockIds
  | move src tgt => Function.update rows tgt (rows src)
  | swap src tgt => rows ∘ Equiv.swap src tgt

end RowOp

section Rows
variable {t t' : BlockTable} {rows : Nat → List Nat} {ids : List Nat} {r j : Nat}

/-- Blocks are split into kernel blocks, at least one each, and only in a hybrid table. -/
structure BlockTable.Splits (t : BlockTable) : Prop where
  pos : 0 < t.blocksPerKvBlock
  direct : t.useHybridBlocks = false → t.blocksPerKvBlock = 1

/-- The kernel blocks of a list of blocks. -/
lemma BlockTable.Splits.mapToKernelBlocks (h : t.Splits) (ids : List Nat) (j : Nat) :
    (t.mapToKernelBlocks ids)[j]? =
      (ids[j / t.blocksPerKvBlock]?).map fun b => b * t.blocksPerKvBlock + j % t.blocksPerKvBlock := by
  unfold BlockTable.mapToKernelBlocks
  cases hh : t.useHybridBlocks with
  | false =>
    rw [h.direct hh]
    simp [Nat.mod_one]
  | true =>
    have hpos := h.pos
    simp only [Bool.not_true, Bool.false_eq_true, if_false]
    generalize t.blocksPerKvBlock = k at hpos
    induction ids generalizing j with
    | nil => simp
    | cons b ids ih =>
      rw [List.flatMap_cons]
      rcases Nat.lt_or_ge j k with hj | hj
      · rw [List.getElem?_append_left (by simpa using hj), Nat.div_eq_of_lt hj, Nat.mod_eq_of_lt hj]
        simp [hj]
      · have hlen : ((List.range k).map (b * k + ·)).length = k := by simp
        rw [List.getElem?_append_right (by rw [hlen]; exact hj), hlen, ih (j - k), Nat.div_eq_sub_div hpos hj,
          List.getElem?_cons_succ, Nat.mod_eq_sub_mod hj]

lemma BlockTable.Splits.length_mapToKernelBlocks (h : t.Splits) (ids : List Nat) :
    (t.mapToKernelBlocks ids).length = ids.length * t.blocksPerKvBlock := by
  unfold BlockTable.mapToKernelBlocks
  cases hh : t.useHybridBlocks with
  | false => simp [h.direct hh]
  | true => simp

/-- The rows of a table hold the kernel blocks of physical blocks, as far as they fit. -/
structure BlockTable.Holds (t : BlockTable) (rows : Nat → List Nat) : Prop where
  num : ∀ r, t.numBlocksPerRow r = (rows r).length * t.blocksPerKvBlock
  entry : ∀ r j b, j < t.maxNumBlocksPerReq → (rows r)[j / t.blocksPerKvBlock]? = some b →
    t.blockTable r j = toInt32 (b * t.blocksPerKvBlock + j % t.blocksPerKvBlock : Nat)

/-- What an operation on rows leaves alone. -/
structure BlockTable.SameShape (t t' : BlockTable) : Prop where
  maxNumReqs : t'.maxNumReqs = t.maxNumReqs
  maxNumBatchedTokens : t'.maxNumBatchedTokens = t.maxNumBatchedTokens
  blockSize : t'.blockSize = t.blockSize
  blocksPerKvBlock : t'.blocksPerKvBlock = t.blocksPerKvBlock
  useHybridBlocks : t'.useHybridBlocks = t.useHybridBlocks
  maxNumBlocksPerReq : t'.maxNumBlocksPerReq = t.maxNumBlocksPerReq
  dcpWorldSize : t'.dcpWorldSize = t.dcpWorldSize
  dcpRank : t'.dcpRank = t.dcpRank
  dcpKvCacheInterleaveSize : t'.dcpKvCacheInterleaveSize = t.dcpKvCacheInterleaveSize

lemma BlockTable.SameShape.refl (t : BlockTable) : t.SameShape t := ⟨rfl, rfl, rfl, rfl, rfl, rfl, rfl, rfl, rfl⟩

lemma BlockTable.SameShape.trans {t'' : BlockTable} (h : t.SameShape t') (h' : t'.SameShape t'') :
    t.SameShape t'' where
  maxNumReqs := h'.maxNumReqs.trans h.maxNumReqs
  maxNumBatchedTokens := h'.maxNumBatchedTokens.trans h.maxNumBatchedTokens
  blockSize := h'.blockSize.trans h.blockSize
  blocksPerKvBlock := h'.blocksPerKvBlock.trans h.blocksPerKvBlock
  useHybridBlocks := h'.useHybridBlocks.trans h.useHybridBlocks
  maxNumBlocksPerReq := h'.maxNumBlocksPerReq.trans h.maxNumBlocksPerReq
  dcpWorldSize := h'.dcpWorldSize.trans h.dcpWorldSize
  dcpRank := h'.dcpRank.trans h.dcpRank
  dcpKvCacheInterleaveSize := h'.dcpKvCacheInterleaveSize.trans h.dcpKvCacheInterleaveSize

lemma BlockTable.SameShape.splits (h : t.SameShape t') (hs : t.Splits) : t'.Splits where
  pos := h.blocksPerKvBlock ▸ hs.pos
  direct hh := h.blocksPerKvBlock.trans (hs.direct (h.useHybridBlocks ▸ hh))

/-- Appending blocks to a row that starts with those of `rows`. -/
lemma BlockTable.Holds.appendRow (h : t.Holds rows) (hs : t.Splits) (ha : t.appendRow ids r = some t') :
    t.SameShape t' ∧ t'.Holds (Function.update rows r (rows r ++ ids)) := by
  unfold BlockTable.appendRow at ha
  by_cases hnil : ids = []
  · rw [if_pos hnil] at ha
    cases ha
    rw [hnil, List.append_nil, Function.update_eq_self]
    exact ⟨.refl t, h⟩
  rw [if_neg hnil] at ha
  by_cases hr : t.maxNumReqs ≤ r
  · rw [if_pos hr] at ha
    cases ha
  rw [if_neg hr] at ha
  dsimp only at ha
  have hlen := hs.length_mapToKernelBlocks ids
  have hpos := hs.pos
  have hnum : ∀ r', Function.update t.numBlocksPerRow r
      (t.numBlocksPerRow r + (t.mapToKernelBlocks ids).length) r' =
        (Function.update rows r (rows r ++ ids) r').length * t.blocksPerKvBlock := by
    intro r'
    rcases eq_or_ne r' r with rfl | hne
    · rw [Function.update_self, Function.update_self, h.num, hlen, List.length_append, Nat.add_mul]
    · rw [Function.update_of_ne hne, Function.update_of_ne hne, h.num]
  -- a column in front of the new ones
  have hold : ∀ j b, j < t.numBlocksPerRow r → (rows r ++ ids)[j / t.blocksPerKvBlock]? = some b →
      (rows r)[j / t.blocksPerKvBlock]? = some b := by
    intro j b hj hb
    rw [h.num] at hj
    rwa [List.getElem?_append_left ((Nat.div_lt_iff_lt_mul hpos).2 hj)] at hb
  by_cases hfit : t.numBlocksPerRow r + (t.mapToKernelBlocks ids).length ≤ t.maxNumBlocksPerReq
  · rw [if_pos hfit] at ha
    cases ha
    refine ⟨⟨rfl, rfl, rfl, rfl, rfl, rfl, rfl, rfl, rfl⟩, hnum, fun r' j b hj hb => ?_⟩
    rcases eq_or_ne r' r with rfl | hne
    · rw [Function.update_self] at hb
      show Function.update t.blockTable r' _ r' j = _
      rw [Function.update_self]
      unfold writeAt
      by_cases hlt : j < t.numBlocksPerRow r'
      · rw [if_pos hlt]
        exact h.entry r' j b hj (hold j b hlt hb)
      · rw [if_neg hlt]
        rw [h.num] at hlt ⊢
        have hge : (rows r').length * t.blocksPerKvBlock ≤ j := Nat.le_of_not_lt hlt
        have hdiv : (rows r').length ≤ j / t.blocksPerKvBlock := (Nat.le_div_iff_mul_le hpos).2 hge
        rw [List.getElem?_append_right hdiv] at hb
        obtain ⟨k, rfl⟩ := Nat.exists_eq_add_of_le hge
        have hk : ((rows r').length * t.blocksPerKvBlock + k) / t.blocksPerKvBlock - (rows r').length =
            k / t.blocksPerKvBlock := by
          rw [Nat.add_comm, Nat.add_mul_div_right _ _ hpos, Nat.add_sub_cancel]
        rw [hk] at hb
        rw [Nat.add_sub_cancel_left, List.getElem?_map, hs.mapToKernelBlocks, hb, Nat.mul_add_mod_self_right,
          Option.map_some, Option.map_some, Option.getD_some]
    · rw [Function.update_of_ne hne] at hb
      show Function.update t.blockTable r _ r' j = _
      rw [Function.update_of_ne hne]
      exact h.entry r' j b hj hb
  · rw [if_neg hfit] at ha
    split at ha
    · cases ha
      refine ⟨⟨rfl, rfl, rfl, rfl, rfl, rfl, rfl, rfl, rfl⟩, hnum, fun r' j b hj hb => ?_⟩
      rcases eq_or_ne r' r with rfl | hne
      · rw [Function.update_self] at hb
        refine h.entry r' j b hj (hold j b ?_ hb)
        next hone =>
        have hj' : j < t.maxNumBlocksPerReq := hj
        omega
      · rw [Function.update_of_ne hne] at hb
        exact h.entry r' j b hj hb
    · cases ha

lemma BlockTable.Holds.addRow (h : t.Holds rows) (hs : t.Splits) (ha : t.addRow ids r = some t') :
    t.SameShape t' ∧ t'.Holds (Function.update rows r ids) := by
  unfold BlockTable.addRow at ha
  split at ha
  · cases ha
  · have hempty : { t with numBlocksPerRow := Function.update t.numBlocksPerRow r 0 }.Holds
        (Function.update rows r []) := by
      refine ⟨fun r' => ?_, fun r' j b hj hb => ?_⟩
      · show Function.update t.numBlocksPerRow r 0 r' = _
        rcases eq_or_ne r' r with rfl | hne
        · rw [Function.update_self, Function.update_self, List.length_nil, Nat.zero_mul]
        · rw [Function.update_of_ne hne, Function.update_of_ne hne, h.num]
      · rcases eq_or_ne r' r with rfl | hne
        · rw [Function.update_self] at hb
          cases hb
        · rw [Function.update_of_ne hne] at hb
          exact h.entry r' j b hj hb
    obtain ⟨hsame, hholds⟩ := hempty.appendRow ⟨hs.pos, hs.direct⟩ ha
    have hcleared : t.SameShape { t with numBlocksPerRow := Function.update t.numBlocksPerRow r 0 } :=
      ⟨rfl, rfl, rfl, rfl, rfl, rfl, rfl, rfl, rfl⟩
    refine ⟨hcleared.trans hsame, ?_⟩
    rwa [Function.update_self, List.nil_append, Function.update_idem] at hholds

lemma BlockTable.Holds.moveRow (h : t.Holds rows) (hs : t.Splits) {src tgt : Nat}
    (ha : t.moveRow src tgt = some t') : t.SameShape t' ∧ t'.Holds (Function.update rows tgt (rows src)) := by
  unfold BlockTable.moveRow at ha
  split at ha
  · cases ha
  · cases ha
    refine ⟨⟨rfl, rfl, rfl, rfl, rfl, rfl, rfl, rfl, rfl⟩, fun r' => ?_, fun r' j b hj hb => ?_⟩
    · show Function.update t.numBlocksPerRow tgt (t.numBlocksPerRow src) r' = _
      rcases eq_or_ne r' tgt with rfl | hne
      · rw [Function.update_self, Function.update_self, h.num]
      · rw [Function.update_of_ne hne, Function.update_of_ne hne, h.num]
    · show Function.update t.blockTable tgt _ r' j = _
      rcases eq_or_ne r' tgt with rfl | hne
      · rw [Function.update_self] at hb ⊢
        unfold copyPrefix
        rw [if_pos]
        · exact h.entry src j b hj hb
        · obtain ⟨hlt, -⟩ := List.getElem?_eq_some_iff.1 hb
          rw [h.num]
          exact (Nat.div_lt_iff_lt_mul hs.pos).1 hlt
      · rw [Function.update_of_ne hne] at hb ⊢
        exact h.entry r' j b hj hb

lemma BlockTable.Holds.swapRow (h : t.Holds rows) {src tgt : Nat} (ha : t.swapRow src tgt = some t') :
    t.SameShape t' ∧ t'.Holds (rows ∘ Equiv.swap src tgt) := by
  unfold BlockTable.swapRow at ha
  split at ha
  · cases ha
  · cases ha
    exact ⟨⟨rfl, rfl, rfl, rfl, rfl, rfl, rfl, rfl, rfl⟩, fun r' => h.num _, fun r' => h.entry _⟩

/-- Every operation on rows. -/
lemma BlockTable.Holds.apply (h : t.Holds rows) (hs : t.Splits) {op : RowOp} (ha : op.apply t = some t') :
    t.SameShape t' ∧ t'.Holds (op.track rows) := by
  cases op with
  | append ids r => exact h.appendRow hs ha
  | add ids r => exact h.addRow hs ha
  | move src tgt => exact h.moveRow hs ha
  | swap src tgt => exact h.swapRow ha

/-- Every sequence of operations on rows. -/
lemma BlockTable.Holds.run (h : t.Holds rows) (hs : t.Splits) {ops : List RowOp}
    (ha : ops.foldlM RowOp.apply t = some t') : t.SameShape t' ∧ t'.Holds (ops.foldl RowOp.track rows) := by
  induction ops generalizing t rows with
  | nil =>
    cases ha
    exact ⟨.refl _, h⟩
  | cons op ops ih =>
    rw [List.foldlM_cons] at ha
    obtain ⟨t1, ha1, ha2⟩ := Option.bind_eq_some_iff.1 ha
    obtain ⟨hsame1, h1⟩ := h.apply hs ha1
    obtain ⟨hsame2, h2⟩ := ih h1 (hsame1.splits hs) ha2
    exact ⟨hsame1.trans hsame2, h2⟩

end Rows

section Slots
variable {t : BlockTable} {rows : Nat → List Nat} {r p b : Nat}

/-- The position of a token lies in the row of its request, in a kernel block that fits. -/
def BlockTable.Inside (t : BlockTable) (rows : Nat → List Nat) (r p : Nat) : Prop :=
  r < t.maxNumReqs ∧ p / (t.blockSize * t.dcpWorldSize) < t.maxNumBlocksPerReq ∧
    p / (t.blockSize * t.dcpWorldSize) < (rows r).length * t.blocksPerKvBlock

/-- The number of the kernel block of a position, with its physical block `b`. -/
def BlockTable.kernelBlock (t : BlockTable) (b p : Nat) : Nat :=
  b * t.blocksPerKvBlock + p / (t.blockSize * t.dcpWorldSize) % t.blocksPerKvBlock

lemma BlockTable.ravel_row (hr : r < t.maxNumReqs) {j : Nat} (hj : j < t.maxNumBlocksPerReq) :
    t.ravel (r * t.maxNumBlocksPerReq + j) = some (t.blockTable r j) := by
  have hlt : r * t.maxNumBlocksPerReq + j < t.maxNumReqs * t.maxNumBlocksPerReq :=
    calc r * t.maxNumBlocksPerReq + j < r * t.maxNumBlocksPerReq + t.maxNumBlocksPerReq := Nat.add_lt_add_left hj _
      _ = (r + 1) * t.maxNumBlocksPerReq := (Nat.succ_mul ..).symm
      _ ≤ t.maxNumReqs * t.maxNumBlocksPerReq := Nat.mul_le_mul_right _ hr
  have hpos : 0 < t.maxNumBlocksPerReq := Nat.zero_lt_of_lt hj
  unfold BlockTable.ravel
  rw [if_pos hlt, Nat.mul_add_mod_self_right, Nat.mod_eq_of_lt hj, Nat.add_comm, Nat.add_mul_div_right _ _ hpos,
    Nat.div_eq_of_lt hj, Nat.zero_add]

/-- The slot of a position: on the rank that the position goes to, it is in the kernel block of the position. -/
lemma BlockTable.Holds.slotOf (h : t.Holds rows) (hs : t.Splits) (hrank : t.dcpRank < t.dcpWorldSize)
    (hsize : 0 < t.blockSize) (hin : t.Inside rows r p)
    (hb : (rows r)[p / (t.blockSize * t.dcpWorldSize) / t.blocksPerKvBlock]? = some b)
    (hfit : (b + 1) * (t.blocksPerKvBlock * t.blockSize) ≤ 2 ^ 31) :
    t.slotOf r p = some
      (if rankOf t.dcpWorldSize t.dcpKvCacheInterleaveSize (p % (t.blockSize * t.dcpWorldSize)) = t.dcpRank then
        ((t.kernelBlock b p * t.blockSize +
          offsetOf t.dcpWorldSize t.dcpKvCacheInterleaveSize (p % (t.blockSize * t.dcpWorldSize)) : Nat) : Int)
      else -1) := by
  obtain ⟨hr, hj, -⟩ := hin
  have hentry := h.entry r _ b hj hb
  have hkernel : t.kernelBlock b p < (b + 1) * t.blocksPerKvBlock := by
    rw [Nat.succ_mul]
    exact Nat.add_lt_add_left (Nat.mod_lt _ hs.pos) _
  -- neither the stored number nor the slot leaves the range of an `int32`
  have hslot : t.kernelBlock b p * t.blockSize < 2 ^ 31 := by
    rw [← Nat.mul_assoc] at hfit
    exact (Nat.mul_lt_mul_of_pos_right hkernel hsize).trans_le hfit
  have hnumber : t.kernelBlock b p < 2 ^ 31 := (Nat.le_mul_of_pos_right _ hsize).trans_lt hslot
  have hstored : toInt32 (t.blockTable r (p / (t.blockSize * t.dcpWorldSize)) * t.blockSize) =
      (t.kernelBlock b p * t.blockSize : Nat) := by
    rw [hentry]
    show toInt32 (toInt32 (t.kernelBlock b p : Nat) * t.blockSize) = _
    rw [toInt32_eq hnumber, ← Nat.cast_mul, toInt32_eq hslot]
  have hravel := t.ravel_row hr hj
  unfold BlockTable.slotOf
  by_cases hw : t.dcpWorldSize > 1
  · rw [if_pos hw]
    dsimp only
    rw [hravel, Option.map_some, hstored, Nat.cast_add]
    rfl
  · -- one rank
    have hone : t.dcpWorldSize = 1 := by omega
    have hzero : t.dcpRank = 0 := by omega
    rw [if_neg hw]
    dsimp only
    rw [hone, Nat.mul_one] at hravel hstored
    rw [hravel, Option.map_some, hstored, hone, hzero, rankOf_one, offsetOf_one, if_pos rfl, Nat.mul_one, Nat.cast_add]

end Slots

section Layout
variable {kb n w i b b' p p' : Nat}

/-- Where position `p` goes with the physical block `b` of `n` kernel blocks: its rank and its slot there. -/
def slotAt (kb n w i b p : Nat) : Nat × Nat :=
  (rankOf w i (p % (kb * w)), (b * n + p / (kb * w) % n) * kb + offsetOf w i (p % (kb * w)))

lemma slotAt_rank_lt (hw : 0 < w) : (slotAt kb n w i b p).1 < w := rankOf_lt hw

/-- The slot is in the physical block. -/
lemma slotAt_inside (hkb : 0 < kb) (hn : 0 < n) (hw : 0 < w) (hi : 0 < i) (hik : i ∣ kb) :
    ∃ o, o < n * kb ∧ (slotAt kb n w i b p).2 = b * (n * kb) + o := by
  have hoff : offsetOf w i (p % (kb * w)) < kb := offsetOf_lt hi hik (Nat.mod_lt _ (Nat.mul_pos hkb hw))
  refine ⟨p / (kb * w) % n * kb + offsetOf w i (p % (kb * w)), ?_, ?_⟩
  · calc p / (kb * w) % n * kb + offsetOf w i (p % (kb * w))
        < (p / (kb * w) % n + 1) * kb := by rw [Nat.succ_mul]; exact Nat.add_lt_add_left hoff _
      _ ≤ n * kb := Nat.mul_le_mul_right _ (Nat.mod_lt _ hn)
  · unfold slotAt
    ring

/-- Two positions in one slot have one physical block and lie at one place of it. -/
lemma slotAt_inj (hkb : 0 < kb) (hn : 0 < n) (hw : 0 < w) (hi : 0 < i) (hik : i ∣ kb)
    (h : slotAt kb n w i b p = slotAt kb n w i b' p') :
    b = b' ∧ p / (kb * w) % n = p' / (kb * w) % n ∧ p % (kb * w) = p' % (kb * w) := by
  have hoff : ∀ p, offsetOf w i (p % (kb * w)) < kb :=
    fun p => offsetOf_lt hi hik (Nat.mod_lt _ (Nat.mul_pos hkb hw))
  obtain ⟨hrank, hslot⟩ := Prod.mk.inj h
  obtain ⟨hnumber, ho⟩ := digits_inj (hoff p) (hoff p') hslot
  obtain ⟨hb, hj⟩ := digits_inj (Nat.mod_lt _ hn) (Nat.mod_lt _ hn) hnumber
  exact ⟨hb, hj, interleave_inj hi hrank ho⟩

/-- In the same physical block at the same index, two positions in one slot are one. -/
lemma slotAt_inj_pos (hkb : 0 < kb) (hn : 0 < n) (hw : 0 < w) (hi : 0 < i) (hik : i ∣ kb)
    (h : slotAt kb n w i b p = slotAt kb n w i b' p') (hidx : p / (n * kb * w) = p' / (n * kb * w)) : p = p' := by
  obtain ⟨-, hj, hm⟩ := slotAt_inj hkb hn hw hi hik h
  have hsplit : ∀ p, p / (kb * w) / n = p / (n * kb * w) := by
    intro p
    rw [Nat.div_div_eq_div_mul]
    exact congrArg (p / ·) (by ring)
  have hq : p / (kb * w) = p' / (kb * w) := by
    rw [← Nat.div_add_mod (p / (kb * w)) n, ← Nat.div_add_mod (p' / (kb * w)) n, hsplit, hsplit, hidx, hj]
  rw [← Nat.div_add_mod p (kb * w), ← Nat.div_add_mod p' (kb * w), hq, hm]

/-- With one rank a block is filled in order. -/
lemma slotAt_one : slotAt kb n 1 i b p = (0, b * (n * kb) + p % (n * kb)) := by
  unfold slotAt
  rw [rankOf_one, offsetOf_one, Nat.mul_one, Nat.mul_comm n kb, Nat.mod_mul]
  exact congrArg _ (by ring)

end Layout

/-- What is expected of the slots of some tokens on all ranks: every token has a slot in the physical block that its
request holds for its position, on one rank; two positions of a request have two slots; the tokens of two requests
share a slot only in a physical block that both hold for them. With one rank a block is filled in order. -/
structure NeverCollide (blockSize w : Nat) (rows : Nat → List Nat) (reqs poss : List Nat)
    (slots : Nat → List Int) : Prop where
  inside : ∀ k r p : Nat, reqs[k]? = some r → poss[k]? = some p → ∃ b rank o : Nat,
    (rows r)[p / (blockSize * w)]? = some b ∧ rank < w ∧ o < blockSize ∧
    (slots rank)[k]? = some ((b * blockSize + o : Nat) : Int) ∧
    ∀ rank', rank' < w → rank' ≠ rank → (slots rank')[k]? = some (-1)
  apart : ∀ (rank k k' r p p' : Nat) (s : Int), rank < w → reqs[k]? = some r → reqs[k']? = some r →
    poss[k]? = some p → poss[k']? = some p' → (slots rank)[k]? = some s → (slots rank)[k']? = some s → s ≠ -1 →
    p = p'
  shared : ∀ (rank k k' r r' p p' : Nat) (s : Int), rank < w → reqs[k]? = some r → reqs[k']? = some r' →
    poss[k]? = some p → poss[k']? = some p' → (slots rank)[k]? = some s → (slots rank)[k']? = some s → s ≠ -1 →
    ∃ b : Nat, (rows r)[p / (blockSize * w)]? = some b ∧ (rows r')[p' / (blockSize * w)]? = some b
  direct : w = 1 → ∀ k r p : Nat, reqs[k]? = some r → poss[k]? = some p → ∃ b : Nat,
    (rows r)[p / blockSize]? = some b ∧ (slots 0)[k]? = some ((b * blockSize + p % blockSize : Nat) : Int)

section Collide
variable {kb n w i : Nat} {rows : Nat → List Nat} {reqs poss : List Nat} {slots : Nat → List Int}

/-- The slots of `slotAt` never collide if the rows hold distinct blocks. -/
lemma neverCollide_slotAt (hkb : 0 < kb) (hn : 0 < n) (hw : 0 < w) (hi : 0 < i) (hik : i ∣ kb)
    (hslots : ∀ rank, rank < w → ∀ k r p : Nat, reqs[k]? = some r → poss[k]? = some p →
      (rows r).Nodup ∧ ∃ b : Nat, (rows r)[p / (n * kb * w)]? = some b ∧
        (slots rank)[k]? = some (if (slotAt kb n w i b p).1 = rank then ((slotAt kb n w i b p).2 : Int) else -1)) :
    NeverCollide (n * kb) w rows reqs poss slots := by
  -- two tokens in one slot of a rank
  have hsame : ∀ (rank k k' r r' p p' : Nat) (s : Int), rank < w → reqs[k]? = some r → reqs[k']? = some r' →
      poss[k]? = some p → poss[k']? = some p' → (slots rank)[k]? = some s → (slots rank)[k']? = some s → s ≠ -1 →
      ∃ b : Nat, (rows r)[p / (n * kb * w)]? = some b ∧ (rows r')[p' / (n * kb * w)]? = some b ∧
        slotAt kb n w i b p = slotAt kb n w i b p' := by
    intro rank k k' r r' p p' s hrank hr hr' hp hp' hs hs' hne
    obtain ⟨-, b, hb, he⟩ := hslots rank hrank k r p hr hp
    obtain ⟨-, b', hb', he'⟩ := hslots rank hrank k' r' p' hr' hp'
    have hs := Option.some.inj (he.symm.trans hs)
    have hs' := Option.some.inj (he'.symm.trans hs')
    split at hs
    · next h1 =>
      split at hs'
      · next h2 =>
        have heq : slotAt kb n w i b p = slotAt kb n w i b' p' :=
          Prod.ext (h1.trans h2.symm) (by omega)
        obtain ⟨rfl, -⟩ := slotAt_inj hkb hn hw hi hik heq
        exact ⟨b, hb, hb', heq⟩
      · exact absurd hs'.symm hne
    · exact absurd hs.symm hne
  refine ⟨?_, ?_, ?_, ?_⟩
  · intro k r p hr hp
    obtain ⟨-, b, hb, -⟩ := hslots 0 hw k r p hr hp
    obtain ⟨o, ho, hslot⟩ := slotAt_inside (b := b) (p := p) hkb hn hw hi hik
    have hall : ∀ rank, rank < w → (slots rank)[k]? =
        some (if (slotAt kb n w i b p).1 = rank then ((slotAt kb n w i b p).2 : Int) else -1) := by
      intro rank hrank
      obtain ⟨-, b', hb', he⟩ := hslots rank hrank k r p hr hp
      cases hb.symm.trans hb'
      exact he
    refine ⟨b, (slotAt kb n w i b p).1, o, hb, slotAt_rank_lt hw, ho, ?_, fun rank' hrank' hne => ?_⟩
    · rw [hall _ (slotAt_rank_lt hw), if_pos rfl, hslot]
    · rw [hall rank' hrank', if_neg (Ne.symm hne)]
  · intro rank k k' r p p' s hrank hr hr' hp hp' hs hs' hne
    obtain ⟨b, hb, hb', heq⟩ := hsame rank k k' r r p p' s hrank hr hr' hp hp' hs hs' hne
    -- a block stands at one index only
    obtain ⟨hnodup, -⟩ := hslots rank hrank k r p hr hp
    obtain ⟨hlt, hget⟩ := List.getElem?_eq_some_iff.1 hb
    obtain ⟨hlt', hget'⟩ := List.getElem?_eq_some_iff.1 hb'
    have hidx : p / (n * kb * w) = p' / (n * kb * w) := (hnodup.getElem_inj_iff).1 (hget.trans hget'.symm)
    exact slotAt_inj_pos hkb hn hw hi hik heq hidx
  · intro rank k k' r r' p p' s hrank hr hr' hp hp' hs hs' hne
    obtain ⟨b, hb, hb', -⟩ := hsame rank k k' r r' p p' s hrank hr hr' hp hp' hs hs' hne
    exact ⟨b, hb, hb'⟩
  · rintro rfl k r p hr hp
    obtain ⟨-, b, hb, he⟩ := hslots 0 Nat.one_pos k r p hr hp
    rw [Nat.mul_one] at hb
    rw [slotAt_one, if_pos rfl] at he
    exact ⟨b, hb, he⟩

end Collide

/-- A new table. -/
lemma BlockTable.init_spec {blockSize kernelBlockSize : Nat} (hsize : 0 < blockSize)
    (hdiv : kernelBlockSize ∣ blockSize) (maxNumReqs maxNumBlocksPerReq maxNumBatchedTokens i w rank : Nat) :
    ∃ t : BlockTable,
    init blockSize maxNumReqs maxNumBlocksPerReq maxNumBatchedTokens kernelBlockSize i w rank = some t ∧
    t.Splits ∧ t.Holds (fun _ => []) ∧ t.SameShape
      { maxNumReqs := maxNumReqs
        maxNumBatchedTokens := maxNumBatchedTokens
        blockSize := kernelBlockSize
        blocksPerKvBlock := blockSize / kernelBlockSize
        useHybridBlocks := t.useHybridBlocks
        maxNumBlocksPerReq := maxNumBlocksPerReq * (blockSize / kernelBlockSize)
        blockTable := t.blockTable
        numBlocksPerRow := t.numBlocksPerRow
        dcpWorldSize := w
        dcpRank := rank
        dcpKvCacheInterleaveSize := i } := by
  have hkb : 0 < kernelBlockSize := Nat.pos_of_dvd_of_pos hdiv hsize
  unfold BlockTable.init
  dsimp only
  by_cases heq : kernelBlockSize = blockSize
  · rw [if_pos heq, heq, Nat.div_self hsize]
    refine ⟨_, rfl, ⟨Nat.one_pos, fun _ => rfl⟩, ⟨fun _ => (Nat.zero_mul 1).symm, nofun⟩, ?_⟩
    exact ⟨rfl, rfl, rfl, rfl, rfl, rfl, rfl, rfl, rfl⟩
  · have hok : ¬ (kernelBlockSize = 0 ∨ blockSize % kernelBlockSize ≠ 0) := by
      rw [Nat.mod_eq_zero_of_dvd hdiv]
      omega
    rw [if_neg heq, if_neg hok]
    refine ⟨_, rfl, ⟨Nat.div_pos (Nat.le_of_dvd hsize hdiv) hkb, nofun⟩, ⟨fun _ => (Nat.zero_mul _).symm, nofun⟩, ?_⟩
    exact ⟨rfl, rfl, rfl, rfl, rfl, rfl, rfl, rfl, rfl⟩

/-- Slots never collide: on the tables of all ranks, after any operations on rows, as long as the rows hold distinct
blocks and slots fit an `int32`. -/
theorem slots_never_collide {blockSize kernelBlockSize maxNumReqs maxNumBlocksPerReq maxNumBatchedTokens i w : Nat}
    (hsize : 0 < blockSize) (hdiv : kernelBlockSize ∣ blockSize) (hw : 0 < w) (hi : 0 < i)
    (hik : i ∣ kernelBlockSize) {ops : List RowOp} {table : Nat → BlockTable}
    (htable : ∀ rank, rank < w → ((BlockTable.init blockSize maxNumReqs maxNumBlocksPerReq maxNumBatchedTokens
      kernelBlockSize i w rank).bind fun t => ops.foldlM RowOp.apply t) = some (table rank))
    {rows : Nat → List Nat} (hrows : ops.foldl RowOp.track (fun _ => []) = rows)
    (hnodup : ∀ r, r < maxNumReqs → (rows r).Nodup)
    (hfit : ∀ r, r < maxNumReqs → ∀ b ∈ rows r, (b + 1) * blockSize ≤ 2 ^ 31)
    {reqs poss : List Nat} (hlen : reqs.length = poss.length) (htokens : reqs.length ≤ maxNumBatchedTokens)
    (hinside : ∀ e ∈ reqs.zip poss, e.1 < maxNumReqs ∧ e.2 < maxNumBlocksPerReq * (blockSize * w) ∧
      e.2 < (rows e.1).length * (blockSize * w)) :
    ∃ slots : Nat → List Int,
      (∀ rank, rank < w → (table rank).computeSlotMapping reqs poss = some (slots rank)) ∧
      NeverCollide blockSize w rows reqs poss slots := by
  obtain ⟨n, rfl⟩ := hdiv
  have hkb : 0 < kernelBlockSize := Nat.pos_of_mul_pos_right hsize
  have hn : 0 < n := Nat.pos_of_mul_pos_left hsize
  have hdivn : kernelBlockSize * n / kernelBlockSize = n := Nat.mul_div_cancel_left _ hkb
  have hcomm : kernelBlockSize * n = n * kernelBlockSize := Nat.mul_comm _ _
  let block (e : Nat × Nat) : Nat := ((rows e.1)[e.2 / (n * kernelBlockSize * w)]?).getD 0
  let slot (rank : Nat) (e : Nat × Nat) : Int :=
    if (slotAt kernelBlockSize n w i (block e) e.2).1 = rank then
      ((slotAt kernelBlockSize n w i (block e) e.2).2 : Int) else -1
  have hblock : ∀ e ∈ reqs.zip poss, (rows e.1)[e.2 / (n * kernelBlockSize * w)]? = some (block e) := by
    intro e he
    obtain ⟨-, -, hp⟩ := hinside e he
    rw [hcomm] at hp
    have hlt := (Nat.div_lt_iff_lt_mul (Nat.mul_pos (Nat.mul_pos hn hkb) hw)).2 hp
    show _ = some (((rows e.1)[e.2 / (n * kernelBlockSize * w)]?).getD 0)
    rw [List.getElem?_eq_getElem hlt, Option.getD_some]
  -- the table of a rank
  have hholds : ∀ rank, rank < w → (table rank).Splits ∧ (table rank).Holds rows ∧
      (table rank).maxNumReqs = maxNumReqs ∧ (table rank).maxNumBatchedTokens = maxNumBatchedTokens ∧
      (table rank).blockSize = kernelBlockSize ∧ (table rank).blocksPerKvBlock = n ∧
      (table rank).maxNumBlocksPerReq = maxNumBlocksPerReq * n ∧ (table rank).dcpWorldSize = w ∧
      (table rank).dcpRank = rank ∧ (table rank).dcpKvCacheInterleaveSize = i := by
    intro rank hrank
    obtain ⟨t, hinit, hsplits, hempty, hshape⟩ := BlockTable.init_spec hsize (Dvd.intro n rfl)
      maxNumReqs maxNumBlocksPerReq maxNumBatchedTokens i w rank
    have hrun := htable rank hrank
    rw [hinit, Option.bind_some] at hrun
    obtain ⟨hsame, hrowsHeld⟩ := hempty.run hsplits hrun
    rw [hrows] at hrowsHeld
    refine ⟨hsame.splits hsplits, hrowsHeld, hsame.maxNumReqs.trans hshape.maxNumReqs.symm,
      hsame.maxNumBatchedTokens.trans hshape.maxNumBatchedTokens.symm, hsame.blockSize.trans hshape.blockSize.symm,
      (hsame.blocksPerKvBlock.trans hshape.blocksPerKvBlock.symm).trans hdivn,
      (hsame.maxNumBlocksPerReq.trans hshape.maxNumBlocksPerReq.symm).trans (congrArg _ hdivn),
      hsame.dcpWorldSize.trans hshape.dcpWorldSize.symm, hsame.dcpRank.trans hshape.dcpRank.symm,
      hsame.dcpKvCacheInterleaveSize.trans hshape.dcpKvCacheInterleaveSize.symm⟩
  have hslot : ∀ rank, rank < w → ∀ e ∈ reqs.zip poss, (table rank).slotOf e.1 e.2 = some (slot rank e) := by
    intro rank hrank e he
    obtain ⟨hsplits, hheld, hreqs, -, hbs, hbpk, hmax, hws, hrk, hint⟩ := hholds rank hrank
    obtain ⟨hr, hp, hp'⟩ := hinside e he
    have hvirtual : 0 < kernelBlockSize * w := Nat.mul_pos hkb hw
    have hin : (table rank).Inside rows e.1 e.2 := by
      unfold BlockTable.Inside
      rw [hreqs, hbs, hws, hmax, hbpk, Nat.div_lt_iff_lt_mul hvirtual, Nat.div_lt_iff_lt_mul hvirtual]
      refine ⟨hr, hp.trans_eq (by ring), hp'.trans_eq (by ring)⟩
    have hb : (rows e.1)[e.2 / ((table rank).blockSize * (table rank).dcpWorldSize) /
        (table rank).blocksPerKvBlock]? = some (block e) := by
      rw [hbs, hws, hbpk, Nat.div_div_eq_div_mul, ← hblock e he]
      exact congrArg (fun m => (rows e.1)[e.2 / m]?) (by ring)
    have hsmall : (block e + 1) * ((table rank).blocksPerKvBlock * (table rank).blockSize) ≤ 2 ^ 31 := by
      rw [hbs, hbpk, Nat.mul_comm n]
      exact hfit e.1 hr _ (List.mem_of_getElem? hb)
    have h := hheld.slotOf hsplits (by rw [hrk, hws]; exact hrank) (by rw [hbs]; exact hkb) hin hb hsmall
    unfold BlockTable.kernelBlock at h
    rw [hbs, hws, hbpk, hint, hrk] at h
    exact h
  refine ⟨fun rank => (reqs.zip poss).map (slot rank), fun rank hrank => ?_, ?_⟩
  · obtain ⟨-, -, -, htok, -⟩ := hholds rank hrank
    unfold BlockTable.computeSlotMapping
    rw [if_pos ⟨hlen, by rw [htok]; exact htokens⟩]
    exact mapM_eq_some_map (hslot rank hrank)
  · rw [hcomm]
    refine neverCollide_slotAt hkb hn hw hi hik fun rank hrank k r p hr hp => ?_
    have hmem : (reqs.zip poss)[k]? = some (r, p) := List.getElem?_zip_eq_some.2 ⟨hr, hp⟩
    have he := List.mem_of_getElem? hmem
    refine ⟨hnodup r (hinside _ he).1, block (r, p), hblock _ he, ?_⟩
    rw [List.getElem?_map, hmem]
    rfl

/-- Two requests on two ranks, with blocks that are split in two. -/
theorem slots_never_collide_two :
    ∃ (table : Nat → BlockTable) (slots : Nat → List Int),
      (∀ rank, rank < 2 → (table rank).computeSlotMapping [0, 0, 1] [0, 9, 3] = some (slots rank)) ∧
      NeverCollide 4 2 ([RowOp.add [3, 1] 0, .append [5] 1].foldl RowOp.track fun _ => []) [0, 0, 1] [0, 9, 3]
        slots :=
  ⟨_, @slots_never_collide 4 2 2 2 4 1 2 (by decide) (by decide) (by decide) (by decide) (by decide) _ _
    (fun _ _ => rfl) _ rfl (by decide) (by decide) _ _ rfl (by decide) (by decide)⟩

/-- Two requests that hold the blocks 5 and 7 in different orders, and so no block at one index, share the slots of
block 5; and the slots of a block from 2 ^ 27 on, of 16 tokens each, wrap. -/
theorem shared_at_other_index_and_wrapped :
    ((((BlockTable.init 16 2 2 2 16 1 1 0).bind fun t =>
        [RowOp.add [5, 7] 0, .add [7, 5] 1].foldlM RowOp.apply t).bind fun t =>
          t.computeSlotMapping [0, 1] [0, 16]) = some [80, 80] ∧ ∀ j < 2, [5, 7][j]? ≠ [7, 5][j]?) ∧
    (((BlockTable.init 16 2 2 2 16 1 1 0).bind fun t => [RowOp.add [2 ^ 27] 0].foldlM RowOp.apply t).bind fun t =>
          t.computeSlotMapping [0] [0]) = some [-2 ^ 31] := by
  decide +kernel

end Gambit.Worker
