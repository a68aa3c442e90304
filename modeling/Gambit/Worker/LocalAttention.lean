import Gambit.Lib.Loop
import Gambit.Lib.Ragged

/-!
# Virtual batches of local attention

Model of `make_local_attention_virtual_batches`. With local attention a query sees the keys of its own chunk of
`attn_chunk_size` positions, up to itself. The batch is broken into virtual batch items, one for each chunk that
a request has queries in, so that ordinary causal attention on the items computes the chunked mask.

The code computes every quantity for the whole batch at once. Each of its vectors is an entry for each request, or
a segment for each request with an entry for each of its items, and is described in that way.

Lengths and positions are integers without a bound; what raises is `none`. The chunk size and the block size are
positive.
-/

namespace Gambit.Worker
open Gambit.Lib

namespace LocalAttention

/-- Python `CommonAttentionMetadata`, with what the items need. -/
structure CommonAttentionMetadata where
  queryStartLoc : List Int
  seqLens : List Int
  numComputedTokens : List Int
  numReqs : Nat
  numActualTokens : Nat
  maxQueryLen : Int
  maxSeqLen : Int
  blockTableTensor : List (List Int)
  slotMapping : List Int
  causal : Bool

/-- `cdiv`: division that rounds up. -/
def cdiv (a b : Int) : Int := -(a.fdiv (-b))

/-- The number of columns of the block table, `block_table.shape[1]`. -/
def columns (table : List (List Int)) : Nat := (table.headD []).length

/-- `block_table[batch, block]`. -/
def lookup (table : List (List Int)) (batch block : Int) : Option Int := do
  let row ← table[(← pyIndex table.length batch)]?
  row[(← pyIndex row.length block)]?

section
variable (attnChunkSize : Int) (m : CommonAttentionMetadata)

/-- Python `q_seqlens`: the tokens of each query. -/
def qSeqlens : List Int := List.zipWith (· - ·) m.queryStartLoc.tail m.queryStartLoc.dropLast

/-- Python `q_tokens_in_first_block`. -/
def qTokensInFirstBlock : List Int :=
  List.zipWith (fun k q => min (attnChunkSize - (k - q).fmod attnChunkSize) q) m.seqLens (qSeqlens m)

/-- Python `tokens_in_last_block`. -/
def tokensInLastBlock : List Int := m.seqLens.map fun k => attnChunkSize + k.fmod (-attnChunkSize)

/-- Python `local_blocks`: how many chunks the query of each request meets. -/
def localBlocks : List Int :=
  List.zipWith (fun q f => 1 + cdiv (q - f) attnChunkSize) (qSeqlens m) (qTokensInFirstBlock attnChunkSize m)

/-- The batched arange: `[2, 4, 2]` gives `[0, 1, 0, 1, 2, 3, 0, 1]`. -/
def batchedArange (localBlocks : List Int) : Option (List Int) := do
  let cuNumBlocks := cumsum localBlocks
  let virtualBatches ← cuNumBlocks.getLast?
  let blockOffsets ← repeatEach (List.zipWith (· - ·) cuNumBlocks localBlocks) localBlocks
  some (List.zipWith (· - ·) (arange virtualBatches) blockOffsets)

/-- The query lengths of the items, where the first and the last of a request may be partial. -/
def seqlensQLocal (arange : List Int) : Option (List Int) := do
  let rest ← repeatEach (List.zipWith (· - ·) (qSeqlens m) (qTokensInFirstBlock attnChunkSize m))
    (localBlocks attnChunkSize m)
  let seqlens ← maskAssign (arange.map fun a => a = 0) rest (qTokensInFirstBlock attnChunkSize m)
  let others := List.zipWith (fun s a => min (s - attnChunkSize * (a - 1)) attnChunkSize) seqlens arange
  maskAssign (arange.map fun a => 0 < a) seqlens (maskSelect (arange.map fun a => 0 < a) others)

/-- The key lengths of the items: whole chunks, but for the last of a request. -/
def seqlensKLocal : Option (List Int) := do
  let cuNumBlocks := cumsum (localBlocks attnChunkSize m)
  assignAt (List.replicate (← cuNumBlocks.getLast?).toNat attnChunkSize) (cuNumBlocks.map (· - 1))
    (tokensInLastBlock attnChunkSize m)

/-- The positions at which the keys of the items start. -/
def kSeqstartsAbsolute (arange : List Int) : Option (List Int) := do
  let blocks := localBlocks attnChunkSize m
  let rarange := List.zipWith (fun n a => n - a - 1) (← repeatEach blocks blocks) arange
  let last ← repeatEach (tokensInLastBlock attnChunkSize m) blocks
  some (List.zipWith (· - ·) (← repeatEach m.seqLens blocks)
    (List.zipWith (fun r t => r * attnChunkSize + t) rarange last))

/-- The block table of the items. -/
def blockTableLocal (blockSize : Int) (kSeqstarts : List Int) : Option (List (List Int)) := do
  let blockStarts := kSeqstarts.map fun k => k.fdiv blockSize
  let pagesPerLocalBatch := attnChunkSize.fdiv blockSize
  let blockIndices := (blockStarts.flatMap fun s => (arange pagesPerLocalBatch).map (s + ·)).map
    fun i => min i ((columns m.blockTableTensor : Int) - 1)
  let batchIndices ← repeatEach (arange m.seqLens.length)
    ((localBlocks attnChunkSize m).map (· * pagesPerLocalBatch))
  let flat ← (List.zip batchIndices blockIndices).mapM fun e => lookup m.blockTableTensor e.1 e.2
  view flat kSeqstarts.length

end

/-- `make_local_attention_virtual_batches`. -/
def makeLocalAttentionVirtualBatches (attnChunkSize : Int) (m : CommonAttentionMetadata) (blockSize : Int) :
    Option CommonAttentionMetadata := do
  let arange ← batchedArange (localBlocks attnChunkSize m)
  let seqlensQ ← seqlensQLocal attnChunkSize m arange
  let seqlensK ← seqlensKLocal attnChunkSize m
  let kSeqstarts ← kSeqstartsAbsolute attnChunkSize m arange
  if blockSize = 0 ∨ attnChunkSize.fmod blockSize ≠ 0 then none
  else
    some {
      queryStartLoc := 0 :: cumsum seqlensQ
      seqLens := seqlensK
      numComputedTokens := List.zipWith (· - ·) seqlensK seqlensQ
      numReqs := seqlensK.length
      numActualTokens := m.numActualTokens
      maxQueryLen := ← seqlensQ.max?
      maxSeqLen := ← seqlensK.max?
      blockTableTensor := ← blockTableLocal attnChunkSize m blockSize kSeqstarts
      slotMapping := m.slotMapping
      causal := true }

section
variable {c q k : Int}

/-- The first position of the chunk `j` chunks after that of the first query. -/
def chunkStart (c q k : Int) (j : Nat) : Int := ((k - q) / c + j) * c

/-- Where the queries of a request are cut. -/
def cut (c q k : Int) (j : Nat) : Int := max (k - q) (min k (chunkStart c q k j))

/-- The number of chunks that a request has queries in. -/
def chunks (c q k : Int) : Nat := ((k - 1) / c - (k - q) / c + 1).toNat

/-- Rounding up, by division that rounds down. -/
lemma cdiv_eq (hc : 0 < c) (a : Int) : cdiv a c = (a - 1) / c + 1 := by
  have h : (-a) / c = -((a - 1) / c) - 1 := by
    have hd := Int.emod_add_mul_ediv (a - 1) c
    have h0 := Int.emod_nonneg (a - 1) (Int.ne_of_gt hc)
    have h1 := Int.emod_lt_of_pos (a - 1) hc
    apply (Int.ediv_emod_unique (r := c - 1 - (a - 1) % c) hc).mpr _ |>.1
    refine ⟨?_, by omega, by omega⟩
    linear_combination -hd
  have hneg := Int.neg_fdiv_neg (-a) c
  rw [Int.neg_neg] at hneg
  rw [cdiv, hneg, Int.fdiv_eq_ediv_of_nonneg _ (Int.le_of_lt hc), h]
  ring

/-- The next chunk starts one chunk size further. -/
lemma chunkStart_succ (c q k : Int) (j : Nat) : chunkStart c q k (j + 1) = chunkStart c q k j + c := by
  unfold chunkStart
  push_cast
  ring

/-- Later chunks start later. -/
lemma chunkStart_mono (hc : 0 < c) {i j : Nat} (h : i ≤ j) : chunkStart c q k i ≤ chunkStart c q k j := by
  induction h with
  | refl => exact le_refl _
  | step _ ih => rw [chunkStart_succ]; omega

/-- The first query is in the first chunk. -/
lemma first_chunk (hc : 0 < c) (q k : Int) : chunkStart c q k 0 ≤ k - q ∧ k - q < chunkStart c q k 1 := by
  have hd := Int.emod_add_mul_ediv (k - q) c
  have h0 := Int.emod_nonneg (k - q) (Int.ne_of_gt hc)
  have h1 := Int.emod_lt_of_pos (k - q) hc
  have hs : chunkStart c q k 0 = c * ((k - q) / c) := by
    unfold chunkStart
    push_cast
    ring
  rw [chunkStart_succ, hs]
  omega

/-- A query meets a chunk. -/
lemma chunks_pos (hc : 0 < c) (hq : 1 ≤ q) : 0 < chunks c q k := by
  have : (k - q) / c ≤ (k - 1) / c := Int.ediv_le_ediv hc (by omega)
  unfold chunks
  omega

/-- The last query is in the last chunk. -/
lemma last_chunk (hc : 0 < c) (hq : 1 ≤ q) : chunkStart c q k (chunks c q k - 1) ≤ k - 1 ∧
    k - 1 < chunkStart c q k (chunks c q k) ∧ (k - 1) / c * c = chunkStart c q k (chunks c q k - 1) := by
  have hle : (k - q) / c ≤ (k - 1) / c := Int.ediv_le_ediv hc (by omega)
  have hd := Int.emod_add_mul_ediv (k - 1) c
  have h0 := Int.emod_nonneg (k - 1) (Int.ne_of_gt hc)
  have h1 := Int.emod_lt_of_pos (k - 1) hc
  have hn : ((chunks c q k - 1 : Nat) : Int) = (k - 1) / c - (k - q) / c := by
    unfold chunks
    omega
  have hs : chunkStart c q k (chunks c q k - 1) = c * ((k - 1) / c) := by
    unfold chunkStart
    rw [hn]
    ring
  have hnext : chunkStart c q k (chunks c q k) = c * ((k - 1) / c) + c := by
    rw [← hs, ← chunkStart_succ, Nat.sub_add_cancel (chunks_pos hc hq)]
  refine ⟨?_, ?_, ?_⟩
  · omega
  · omega
  · rw [hs]
    ring

/-- The first cut is at the first query token. -/
lemma cut_zero (hc : 0 < c) : cut c q k 0 = k - q := by
  have := (first_chunk hc q k).1
  unfold cut
  omega

/-- The last cut is behind the last token. -/
lemma cut_last (hc : 0 < c) (hq : 1 ≤ q) : cut c q k (chunks c q k) = k := by
  have := (last_chunk (k := k) hc hq).2.1
  unfold cut
  omega

/-- The queries of an item: they are in its chunk, from its start unless it is the first, to its end unless it is
the last. -/
lemma cut_step (hc : 0 < c) (hq : 1 ≤ q) {j : Nat} (hj : j < chunks c q k) :
    chunkStart c q k j ≤ cut c q k j ∧ cut c q k j < cut c q k (j + 1) ∧
      cut c q k (j + 1) ≤ chunkStart c q k (j + 1) ∧ k - q ≤ cut c q k j ∧ cut c q k (j + 1) ≤ k := by
  have h0 := first_chunk hc q k
  have h1 := last_chunk (k := k) hc hq
  have h2 : chunkStart c q k 1 ≤ chunkStart c q k (j + 1) := chunkStart_mono hc (Nat.le_add_left 1 j)
  have h3 : chunkStart c q k j ≤ chunkStart c q k (chunks c q k - 1) := chunkStart_mono hc (Nat.le_sub_one_of_lt hj)
  have h4 := chunkStart_succ c q k j
  unfold cut
  omega

/-- The query tokens in the first chunk. -/
lemma tokensInFirst_eq (hc : 0 < c) (hq : 1 ≤ q) : min (c - (k - q).fmod c) q = cut c q k 1 - cut c q k 0 := by
  have hd := Int.emod_add_mul_ediv (k - q) c
  have hs : chunkStart c q k 1 = c * ((k - q) / c) + c := by
    unfold chunkStart
    push_cast
    ring
  have h1 := (first_chunk hc q k).2
  rw [cut_zero hc, Int.fmod_eq_emod_of_nonneg _ (Int.le_of_lt hc)]
  unfold cut
  omega

/-- The keys in the last chunk. -/
lemma tokensInLast_eq (hc : 0 < c) (hq : 1 ≤ q) :
    c + k.fmod (-c) = k - chunkStart c q k (chunks c q k - 1) := by
  have h := cdiv_eq hc k
  rw [cdiv] at h
  rw [← (last_chunk hc hq).2.2, Int.fmod_def]
  have : k.fdiv (-c) = -((k - 1) / c) - 1 := by omega
  rw [this]
  ring

/-- The number of chunks that the code computes. -/
lemma localBlocks_eq (hc : 0 < c) (hq : 1 ≤ q) :
    1 + cdiv (q - (cut c q k 1 - cut c q k 0)) c = (chunks c q k : Int) := by
  have h0 := first_chunk hc q k
  have hle : (k - q) / c ≤ (k - 1) / c := Int.ediv_le_ediv hc (by omega)
  have hn : (chunks c q k : Int) = (k - 1) / c - (k - q) / c + 1 := by
    unfold chunks
    omega
  have hs : chunkStart c q k 1 = ((k - q) / c + 1) * c := by
    unfold chunkStart
    push_cast
    ring
  rw [cdiv_eq hc, cut_zero hc, hn]
  by_cases hlt : k ≤ chunkStart c q k 1
  · -- a single chunk, and no query outside it
    have hcut : cut c q k 1 = k := by
      unfold cut
      omega
    have hsame : (k - 1) / c = (k - q) / c := by
      apply Int.le_antisymm _ hle
      apply Int.lt_add_one_iff.mp
      apply Int.ediv_lt_of_lt_mul hc
      rw [← hs]
      omega
    have hm : (q - (k - (k - q)) - 1) / c = -1 := by
      rw [show q - (k - (k - q)) - 1 = -1 by ring]
      exact Int.ediv_eq_neg_one_of_neg_of_le (by omega) (by omega)
    rw [hcut, hm, hsame]
    ring
  · have hcut : cut c q k 1 = chunkStart c q k 1 := by
      unfold cut
      omega
    have he : q - (cut c q k 1 - (k - q)) - 1 = (k - 1) + -((k - q) / c + 1) * c := by
      rw [hcut, hs]
      ring
    rw [he, Int.add_mul_ediv_right _ _ (Int.ne_of_gt hc)]
    ring

/-- The query length of an item that is not the first. -/
lemma seqlenQ_eq (hc : 0 < c) (hq : 1 ≤ q) {j : Nat} (h0 : 0 < j) (hj : j < chunks c q k) :
    min (q - (cut c q k 1 - cut c q k 0) - c * ((j : Int) - 1)) c = cut c q k (j + 1) - cut c q k j := by
  have hfirst := first_chunk hc q k
  have hlast := last_chunk (k := k) hc hq
  have h1 : chunkStart c q k 1 ≤ chunkStart c q k j := chunkStart_mono hc h0
  have h3 : chunkStart c q k j ≤ chunkStart c q k (chunks c q k - 1) := chunkStart_mono hc (Nat.le_sub_one_of_lt hj)
  have h4 := chunkStart_succ c q k j
  have hs : chunkStart c q k j = chunkStart c q k 1 + c * ((j : Int) - 1) := by
    unfold chunkStart
    push_cast
    ring
  rw [cut_zero hc]
  unfold cut
  omega

/-- The key length of an item. -/
lemma seqlenK_eq (hc : 0 < c) (hq : 1 ≤ q) {j : Nat} (hj : j < chunks c q k) :
    (if j + 1 = chunks c q k then k - chunkStart c q k (chunks c q k - 1) else c) =
      cut c q k (j + 1) - chunkStart c q k j := by
  have hfirst := first_chunk hc q k
  have hlast := last_chunk (k := k) hc hq
  have h4 := chunkStart_succ c q k j
  by_cases he : j + 1 = chunks c q k
  · rw [if_pos he, he, cut_last hc hq, ← he, Nat.add_sub_cancel]
  · have h1 : chunkStart c q k 1 ≤ chunkStart c q k (j + 1) := chunkStart_mono hc (Nat.le_add_left 1 j)
    have h3 : chunkStart c q k (j + 1) ≤ chunkStart c q k (chunks c q k - 1) := chunkStart_mono hc (by omega)
    rw [if_neg he]
    unfold cut
    omega

/-- Where the keys of an item start. -/
lemma kSeqstart_eq {j : Nat} (hj : j < chunks c q k) :
    k - (((chunks c q k : Int) - j - 1) * c + (k - chunkStart c q k (chunks c q k - 1))) = chunkStart c q k j := by
  have hn : ((chunks c q k - 1 : Nat) : Int) = (chunks c q k : Int) - 1 := by omega
  unfold chunkStart
  rw [hn]
  ring

/-- The cuts up to an item sum up. -/
lemma sum_cut (c q k : Int) (j : Nat) :
    ∑ l ∈ Finset.range j, (cut c q k (l + 1) - cut c q k l) = cut c q k j - cut c q k 0 :=
  Finset.sum_range_sub (cut c q k) j

/-- All positions of an item are in its chunk. -/
lemma chunk_of_mem (hc : 0 < c) {j : Nat} {p : Int} (h : chunkStart c q k j ≤ p) (h' : p < chunkStart c q k (j + 1)) :
    p / c * c = chunkStart c q k j := by
  have h1 : (k - q) / c + j ≤ p / c := Int.le_ediv_of_mul_le hc h
  have h2 : p / c < (k - q) / c + j + 1 := by
    apply Int.ediv_lt_of_lt_mul hc
    rw [chunkStart_succ] at h'
    unfold chunkStart at h'
    linarith
  have : p / c = (k - q) / c + j := by omega
  rw [this]
  rfl

end

section
variable (c : Int) (m : CommonAttentionMetadata)

/-- The query length of a request. -/
def queryLen (b : Nat) : Int := m.queryStartLoc.getD (b + 1) 0 - m.queryStartLoc.getD b 0

/-- The sequence length of a request. -/
def seqLen (b : Nat) : Int := m.seqLens.getD b 0

/-- The items of a request. -/
def items (b : Nat) : Nat := chunks c (queryLen m b) (seqLen m b)

/-- The shapes of the tensors of a batch: query starts from zero on, and a row of the block table for each request. -/
structure WellShaped : Prop where
  starts : m.queryStartLoc.length = m.seqLens.length + 1
  zero : m.queryStartLoc[0]? = some 0
  rows : m.seqLens.length ≤ m.blockTableTensor.length
  shape : ∀ row ∈ m.blockTableTensor, row.length = columns m.blockTableTensor
  nonempty : 0 < columns m.blockTableTensor

/-- Every request has queries, and keys for them. -/
def HasQueries : Prop := ∀ b < m.seqLens.length, 1 ≤ queryLen m b ∧ queryLen m b ≤ seqLen m b

end

section
variable {c : Int} {m : CommonAttentionMetadata}

/-- The key lengths as a table. -/
lemma seqLens_eq (m : CommonAttentionMetadata) : m.seqLens = tab m.seqLens.length (seqLen m) := by
  apply eq_tab rfl
  intro b hb
  simp [seqLen, hb]

/-- The query lengths as a table. -/
lemma qSeqlens_eq (hm : WellShaped m) : qSeqlens m = tab m.seqLens.length (queryLen m) := by
  have hs := hm.starts
  apply eq_tab
  · simp [qSeqlens, hs]
  · intro b hb
    have h0 : b < m.queryStartLoc.length := by omega
    have h1 : b + 1 < m.queryStartLoc.length := by omega
    have hd : b < m.queryStartLoc.length - 1 := by omega
    unfold qSeqlens queryLen
    rw [List.getElem?_zipWith, List.getElem?_tail, List.getElem?_dropLast, if_pos hd, List.getD_eq_getElem?_getD,
      List.getD_eq_getElem?_getD, List.getElem?_eq_getElem h0, List.getElem?_eq_getElem h1]
    rfl

/-- The query tokens in the first chunks as a table. -/
lemma qTokensInFirstBlock_eq (hc : 0 < c) (hm : WellShaped m) (hr : HasQueries m) :
    qTokensInFirstBlock c m = tab m.seqLens.length fun b =>
      cut c (queryLen m b) (seqLen m b) 1 - cut c (queryLen m b) (seqLen m b) 0 := by
  unfold qTokensInFirstBlock
  rw [qSeqlens_eq hm]
  nth_rewrite 1 [seqLens_eq m]
  rw [zipWith_tab]
  apply tab_congr
  intro b hb
  exact tokensInFirst_eq hc (hr b hb).1

/-- The keys in the last chunks as a table. -/
lemma tokensInLastBlock_eq (hc : 0 < c) (hr : HasQueries m) :
    tokensInLastBlock c m = tab m.seqLens.length fun b =>
      seqLen m b - chunkStart c (queryLen m b) (seqLen m b) (items c m b - 1) := by
  unfold tokensInLastBlock
  nth_rewrite 1 [seqLens_eq m]
  rw [map_tab]
  apply tab_congr
  intro b hb
  exact tokensInLast_eq hc (hr b hb).1

/-- The numbers of chunks as a table. -/
lemma localBlocks_tab (hc : 0 < c) (hm : WellShaped m) (hr : HasQueries m) :
    localBlocks c m = tab m.seqLens.length fun b => (items c m b : Int) := by
  unfold localBlocks
  rw [qSeqlens_eq hm, qTokensInFirstBlock_eq hc hm hr, zipWith_tab]
  apply tab_congr
  intro b hb
  exact localBlocks_eq hc (hr b hb).1

/-- Every request has a virtual batch item. -/
lemma items_pos (hc : 0 < c) (hr : HasQueries m) : ∀ b < m.seqLens.length, 0 < items c m b :=
  fun b hb => chunks_pos hc (hr b hb).1

/-- The batched arange counts through the items of each request. -/
lemma batchedArange_tab {n : Nat → Nat} {B : Nat} (hB : 0 < B) :
    batchedArange (tab B fun b => (n b : Int)) = some (ragged n B fun _ j => (j : Int)) := by
  have hoff : (tab B fun b => (offset n (b + 1) : Int) - n b) = tab B fun b => (offset n b : Int) := by
    apply tab_congr
    intro b _
    rw [offset_succ]
    omega
  simp only [batchedArange, cumsum_length, getLast?_tab hB, Nat.sub_add_cancel hB, zipWith_tab, hoff, repeatEach_tab,
    arange_offset, zipWith_ragged, Option.bind_eq_bind, Option.bind_some]
  congr 1
  apply ragged_congr
  intro b _ j _
  omega

/-- The query lengths of the items are the distances of the cuts. -/
lemma seqlensQLocal_eq (hc : 0 < c) (hm : WellShaped m) (hr : HasQueries m) :
    seqlensQLocal c m (ragged (items c m) m.seqLens.length fun _ j => (j : Int)) =
      some (ragged (items c m) m.seqLens.length fun b j =>
        cut c (queryLen m b) (seqLen m b) (j + 1) - cut c (queryLen m b) (seqLen m b) j) := by
  have hfirst : (ragged (items c m) m.seqLens.length fun _ j => (j : Int)).map (fun a => decide (a = 0)) =
      ragged (items c m) m.seqLens.length fun _ j => decide (j = 0) := by
    rw [map_ragged]
    apply ragged_congr
    intro b _ j _
    simp
  -- the first item of a request, and the tokens that are left after it in the others
  have h1 := maskAssign_first (items_pos hc hr)
    (fun b _ => queryLen m b - (cut c (queryLen m b) (seqLen m b) 1 - cut c (queryLen m b) (seqLen m b) 0))
    (fun b => cut c (queryLen m b) (seqLen m b) 1 - cut c (queryLen m b) (seqLen m b) 0)
  have h2 : ∀ (F G : Nat → Nat → Int),
      maskAssign ((ragged (items c m) m.seqLens.length fun _ j => (j : Int)).map fun a => decide (0 < a))
        (ragged (items c m) m.seqLens.length F)
        (maskSelect ((ragged (items c m) m.seqLens.length fun _ j => (j : Int)).map fun a => decide (0 < a))
          (ragged (items c m) m.seqLens.length G)) =
      some (ragged (items c m) m.seqLens.length fun b j => if 0 < j then G b j else F b j) := by
    intro F G
    have h := maskAssign_select (fun e : Nat × Nat => decide (0 < e.2)) (fun e => F e.1 e.2) (fun e => G e.1 e.2)
      (ragged (items c m) m.seqLens.length fun b j => (b, j))
    simpa only [map_ragged, Nat.cast_pos, decide_eq_true_eq] using h
  simp only [seqlensQLocal, localBlocks_tab hc hm hr, qSeqlens_eq hm, qTokensInFirstBlock_eq hc hm hr, zipWith_tab,
    repeatEach_tab, hfirst, h1, zipWith_ragged, h2, Option.bind_eq_bind, Option.bind_some]
  congr 1
  apply ragged_congr
  intro b hb j hj
  by_cases h0 : 0 < j
  · rw [if_pos h0, if_neg (Nat.ne_of_gt h0)]
    exact seqlenQ_eq hc (hr b hb).1 h0 hj
  · cases Nat.eq_zero_of_not_pos h0
    simp

/-- The key lengths of the items count from the starts of their chunks. -/
lemma seqlensKLocal_eq (hc : 0 < c) (hm : WellShaped m) (hr : HasQueries m) (h0 : 0 < m.seqLens.length) :
    seqlensKLocal c m = some (ragged (items c m) m.seqLens.length fun b j =>
      cut c (queryLen m b) (seqLen m b) (j + 1) - chunkStart c (queryLen m b) (seqLen m b) j) := by
  have hfull : List.replicate (offset (items c m) m.seqLens.length) c =
      ragged (items c m) m.seqLens.length fun _ _ => c := by
    apply List.ext_getElem?
    intro v
    by_cases hv : v < offset (items c m) m.seqLens.length
    · obtain ⟨b, hb, j, hj, rfl⟩ := exists_of_lt_offset hv
      rw [getElem?_ragged hb hj, List.getElem?_replicate, if_pos hv]
    · rw [List.getElem?_eq_none (by simpa using hv), List.getElem?_eq_none (by simpa using hv)]
  simp only [seqlensKLocal, localBlocks_tab hc hm hr, cumsum_length, getLast?_tab h0, Nat.sub_add_cancel h0,
    Option.bind_eq_bind, Option.bind_some, Int.toNat_natCast, hfull, map_tab, tokensInLastBlock_eq hc hr,
    assignAt_last (items_pos hc hr)]
  congr 1
  apply ragged_congr
  intro b hb j hj
  exact seqlenK_eq hc (hr b hb).1 hj

/-- The items begin where their chunks do. -/
lemma kSeqstartsAbsolute_eq (hc : 0 < c) (hm : WellShaped m) (hr : HasQueries m) :
    kSeqstartsAbsolute c m (ragged (items c m) m.seqLens.length fun _ j => (j : Int)) =
      some (ragged (items c m) m.seqLens.length fun b j => chunkStart c (queryLen m b) (seqLen m b) j) := by
  have hk := repeatEach_tab (n := items c m) (B := m.seqLens.length) (seqLen m)
  rw [← seqLens_eq] at hk
  simp only [kSeqstartsAbsolute, localBlocks_tab hc hm hr, tokensInLastBlock_eq hc hr, repeatEach_tab, zipWith_ragged,
    hk, Option.bind_eq_bind, Option.bind_some]
  congr 1
  apply ragged_congr
  intro b _ j hj
  exact kSeqstart_eq hj

/-- An index in range is taken as it is. -/
lemma pyIndex_of_lt {length : Nat} {i : Int} (h0 : 0 ≤ i) (h1 : i < length) : pyIndex length i = some i.toNat :=
  if_pos ⟨h0, h1⟩

/-- A block of a request is found in its row, the last one in place of those outside. -/
lemma lookup_min (hm : WellShaped m) {b : Nat} (hb : b < m.seqLens.length) {i : Int} (hi : 0 ≤ i) :
    ∃ row, m.blockTableTensor[b]? = some row ∧ ∃ e,
      lookup m.blockTableTensor b (min i ((columns m.blockTableTensor : Int) - 1)) = some e ∧
      (i < columns m.blockTableTensor → row[i.toNat]? = some e) := by
  have hlt : b < m.blockTableTensor.length := Nat.lt_of_lt_of_le hb hm.rows
  have hrow := hm.shape _ (List.getElem_mem hlt)
  have hpos := hm.nonempty
  refine ⟨m.blockTableTensor[b], List.getElem?_eq_getElem hlt, ?_⟩
  have hb' : pyIndex m.blockTableTensor.length b = some b := by
    rw [pyIndex_of_lt (by omega) (by omega), Int.toNat_natCast]
  have hi' : pyIndex m.blockTableTensor[b].length (min i ((columns m.blockTableTensor : Int) - 1)) =
      some (min i ((columns m.blockTableTensor : Int) - 1)).toNat := pyIndex_of_lt (by omega) (by omega)
  have hin : (min i ((columns m.blockTableTensor : Int) - 1)).toNat < m.blockTableTensor[b].length := by omega
  refine ⟨m.blockTableTensor[b][(min i ((columns m.blockTableTensor : Int) - 1)).toNat], ?_, ?_⟩
  · simp only [lookup, hb', hi', Option.bind_eq_bind, Option.bind_some, List.getElem?_eq_getElem hlt,
      List.getElem?_eq_getElem hin]
  · intro h
    rw [← List.getElem?_eq_getElem hin]
    congr 1
    omega

/-- The row of an item has the blocks of its chunk, as far as there are columns. -/
lemma blockTableLocal_spec {bs : Int} (hc : 0 < c) (hbs : 0 < bs) (hdvd : bs ∣ c) (hm : WellShaped m)
    (hr : HasQueries m) (h0 : 0 < m.seqLens.length) :
    ∃ table, blockTableLocal c m bs (ragged (items c m) m.seqLens.length fun b j =>
        chunkStart c (queryLen m b) (seqLen m b) j) = some table ∧
      ∀ b < m.seqLens.length, ∀ j < items c m b, ∃ row, table[offset (items c m) b + j]? = some row ∧
        ∃ blocks, m.blockTableTensor[b]? = some blocks ∧ ∀ i : Nat, (i : Int) < c / bs →
          chunkStart c (queryLen m b) (seqLen m b) j / bs + i < columns m.blockTableTensor →
          row[i]? = blocks[(chunkStart c (queryLen m b) (seqLen m b) j / bs + i).toNat]? := by
  obtain ⟨P, hP⟩ := Int.eq_ofNat_of_zero_le (Int.ediv_nonneg (Int.le_of_lt hc) (Int.le_of_lt hbs))
  have hP0 : 0 < P := by
    have := Int.ediv_pos_of_pos_of_dvd hc (Int.le_of_lt hbs) hdvd
    omega
  have hpages : c.fdiv bs = P := by rw [Int.fdiv_eq_ediv_of_nonneg _ (Int.le_of_lt hbs), hP]
  have hstart : ∀ b < m.seqLens.length, ∀ j, 0 ≤ chunkStart c (queryLen m b) (seqLen m b) j / bs := by
    intro b hb j
    have h1 := (hr b hb).2
    have h2 : 0 ≤ (seqLen m b - queryLen m b) / c := Int.ediv_nonneg (by omega) (Int.le_of_lt hc)
    apply Int.ediv_nonneg _ (Int.le_of_lt hbs)
    exact Int.mul_nonneg (by omega) (Int.le_of_lt hc)
  -- the indices of the pages of every item
  let F : Nat → Nat → Int × Int := fun b i => ((b : Int),
    min (chunkStart c (queryLen m b) (seqLen m b) (i / P) / bs + (i % P : Nat)) ((columns m.blockTableTensor : Int) - 1))
  have hrepeat : repeatEach (arange m.seqLens.length)
      (tab m.seqLens.length fun b => (items c m b : Int) * P) =
        some (ragged (fun b => items c m b * P) m.seqLens.length fun b _ => (b : Int)) := by
    have h := repeatEach_tab (n := fun b => items c m b * P) (B := m.seqLens.length) fun b => (b : Int)
    simpa only [arange_natCast, Nat.cast_mul] using h
  have hindices : List.zip (ragged (fun b => items c m b * P) m.seqLens.length fun b _ => (b : Int))
      (((ragged (items c m) m.seqLens.length fun b j => (chunkStart c (queryLen m b) (seqLen m b) j).fdiv bs).flatMap
        fun s => (arange P).map (s + ·)).map fun i => min i ((columns m.blockTableTensor : Int) - 1)) =
        ragged (fun b => items c m b * P) m.seqLens.length F := by
    have hmap : ∀ s : Int, (arange P).map (s + ·) = (List.range P).map fun k : Nat => s + (k : Int) := by
      intro s
      rw [arange_natCast, map_tab]
      rfl
    simp only [map_ragged, hmap, flatMap_ragged hP0 (fun (s : Int) (k : Nat) => s + (k : Int)), List.zip, zipWith_ragged,
      Int.fdiv_eq_ediv_of_nonneg _ (Int.le_of_lt hbs)]
    rfl
  have hlookup : ∀ e ∈ ragged (fun b => items c m b * P) m.seqLens.length F,
      lookup m.blockTableTensor e.1 e.2 = some ((lookup m.blockTableTensor e.1 e.2).getD 0) := by
    intro e he
    obtain ⟨b, hb, i, -, rfl⟩ := mem_ragged he
    obtain ⟨-, -, e, h, -⟩ := lookup_min hm hb (Int.add_nonneg (hstart b hb (i / P)) (Int.natCast_nonneg (i % P)))
    rw [h]
    rfl
  have hoff : 0 < offset (items c m) m.seqLens.length := by
    have h1 := items_pos hc hr 0 h0
    have h2 : offset (items c m) 1 ≤ offset (items c m) m.seqLens.length := offset_mono h0
    rw [offset_succ] at h2
    omega
  obtain ⟨rows, hview, -, hrows⟩ := view_ragged (P := P)
    (K := fun b i => (lookup m.blockTableTensor (F b i).1 (F b i).2).getD 0) hoff
  refine ⟨rows, ?_, ?_⟩
  · simp only [blockTableLocal, hpages, localBlocks_tab hc hm hr, map_tab, hrepeat, hindices, Option.bind_eq_bind,
      Option.bind_some, mapM_eq_some_map hlookup, map_ragged, length_ragged, hview]
  · intro b hb j hj
    have hlt : b < m.blockTableTensor.length := Nat.lt_of_lt_of_le hb hm.rows
    refine ⟨_, hrows b hb j hj, m.blockTableTensor[b], List.getElem?_eq_getElem hlt, ?_⟩
    intro i hi hcol
    have hi' : i < P := by omega
    rw [getElem?_tab hi']
    have hdiv : (j * P + i) / P = j := by
      rw [Nat.mul_comm, Nat.mul_add_div hP0, Nat.div_eq_of_lt hi', Nat.add_zero]
    have hmod : (j * P + i) % P = i := by
      rw [Nat.mul_comm, Nat.mul_add_mod, Nat.mod_eq_of_lt hi']
    obtain ⟨row, hrow, e, he, hmin⟩ := lookup_min hm hb (Int.add_nonneg (hstart b hb j) (Int.natCast_nonneg i))
    rw [List.getElem?_eq_getElem hlt] at hrow
    cases hrow
    rw [hmin hcol]
    simp only [F, hdiv, hmod, he, Option.getD_some]

/-- Causal attention of `q` queries and `k` keys with the last query at the last key: does query `i` see key `j`? -/
def Visible (q k i j : Int) : Prop := 0 ≤ j ∧ j < k ∧ j + (q - 1 - i) ≤ k - 1

/-- Item `v` has the queries of request `b` from position `lo` to `hi`. Its keys go from the start of their chunk to
`hi`, so that each query sees the keys of its chunk up to itself, and its row of the block table leads to the blocks
of the request that hold them. -/
structure LocalItem (c bs : Int) (m m' : CommonAttentionMetadata) (v b : Nat) (lo hi : Int) : Prop where
  request : b < m.seqLens.length
  inside : seqLen m b - queryLen m b ≤ lo ∧ lo ≤ hi ∧ hi < seqLen m b
  first : m'.queryStartLoc[v]? = some (m.queryStartLoc.getD b 0 + (lo - (seqLen m b - queryLen m b)))
  last : m'.queryStartLoc[v + 1]? = some (m.queryStartLoc.getD b 0 + (hi + 1 - (seqLen m b - queryLen m b)))
  keys : m'.seqLens[v]? = some (hi + 1 - lo / c * c)
  lengths : 1 ≤ hi + 1 - lo ∧ hi + 1 - lo ≤ c ∧ 1 ≤ hi + 1 - lo / c * c ∧ hi + 1 - lo / c * c ≤ c
  mask : ∀ p, lo ≤ p → p ≤ hi → p / c * c = lo / c * c ∧
    ∀ x, (∃ j, Visible (hi + 1 - lo) (hi + 1 - lo / c * c) (p - lo) j ∧ x = lo / c * c + j) ↔ p / c * c ≤ x ∧ x ≤ p
  blocks : ∃ row blocks, m'.blockTableTensor[v]? = some row ∧ m.blockTableTensor[b]? = some blocks ∧
    ∀ j, 0 ≤ j → j < hi + 1 - lo / c * c →
      (lo / c * c + j) % bs = j % bs ∧ ((lo / c * c + j) / bs < columns m.blockTableTensor →
        row[(j / bs).toNat]? = blocks[((lo / c * c + j) / bs).toNat]?)

/-- The items cut the queries of the batch, in order, into pieces that are each of one request. -/
structure LocalBatches (c bs : Int) (m m' : CommonAttentionMetadata) : Prop where
  numReqs : m'.numReqs = m'.seqLens.length
  starts : m'.queryStartLoc.length = m'.seqLens.length + 1
  first : m'.queryStartLoc[0]? = m.queryStartLoc[0]?
  last : m'.queryStartLoc[m'.seqLens.length]? = m.queryStartLoc[m.seqLens.length]?
  items : ∀ v < m'.seqLens.length, ∃ b lo hi, LocalItem c bs m m' v b lo hi

/-- The queries before an item are those of the requests before, and those of the items before of its request. -/
lemma queryStart_eq (hc : 0 < c) (hm : WellShaped m) (hr : HasQueries m) {b j : Nat} (hb : b < m.seqLens.length)
    (hj : j ≤ items c m b) :
    (0 :: cumsum (ragged (items c m) m.seqLens.length fun b j =>
        cut c (queryLen m b) (seqLen m b) (j + 1) - cut c (queryLen m b) (seqLen m b) j))[offset (items c m) b + j]? =
      some (m.queryStartLoc.getD b 0 + (cut c (queryLen m b) (seqLen m b) j - (seqLen m b - queryLen m b))) := by
  have hle : offset (items c m) b + j ≤ offset (items c m) m.seqLens.length := by
    have h1 : offset (items c m) (b + 1) ≤ offset (items c m) m.seqLens.length := offset_mono hb
    rw [offset_succ] at h1
    omega
  have hbefore : (∑ i ∈ Finset.range b, ∑ l ∈ Finset.range (items c m i),
      (cut c (queryLen m i) (seqLen m i) (l + 1) - cut c (queryLen m i) (seqLen m i) l)) =
        m.queryStartLoc.getD b 0 := by
    calc _ = ∑ i ∈ Finset.range b, (m.queryStartLoc.getD (i + 1) 0 - m.queryStartLoc.getD i 0) := by
          apply Finset.sum_congr rfl
          intro i hi
          have hi := (hr i (Nat.lt_trans (Finset.mem_range.mp hi) hb)).1
          rw [sum_cut, items, cut_last hc hi, cut_zero hc, queryLen]
          ring
      _ = m.queryStartLoc.getD b 0 - m.queryStartLoc.getD 0 0 :=
          Finset.sum_range_sub (fun i => m.queryStartLoc.getD i 0) b
      _ = m.queryStartLoc.getD b 0 := by
          have hz : m.queryStartLoc.getD 0 0 = 0 := by rw [List.getD_eq_getElem?_getD, hm.zero, Option.getD_some]
          rw [hz, sub_zero]
  rw [getElem?_cumsum _ (by rw [length_ragged]; exact hle), sum_take_ragged _ hb hj, hbefore, sum_cut, cut_zero hc]

/-- Within its chunk a query sees just the keys up to itself. -/
lemma visible_iff {lo hi start p x : Int} (h : p ≤ hi) :
    (∃ j, Visible (hi + 1 - lo) (hi + 1 - start) (p - lo) j ∧ x = start + j) ↔ start ≤ x ∧ x ≤ p := by
  unfold Visible
  constructor
  · rintro ⟨j, ⟨h3, h4, h5⟩, rfl⟩
    omega
  · intro hx
    exact ⟨x - start, by omega, by omega⟩

/-- What the arrays say about one virtual batch item. -/
lemma local_item {bs : Int} (hc : 0 < c) (hbs : 0 < bs) (hdvd : bs ∣ c) (hm : WellShaped m) (hr : HasQueries m)
    {m' : CommonAttentionMetadata} {b j : Nat} (hb : b < m.seqLens.length) (hj : j < items c m b)
    (hstart : m'.queryStartLoc = 0 :: cumsum (ragged (items c m) m.seqLens.length fun b j =>
      cut c (queryLen m b) (seqLen m b) (j + 1) - cut c (queryLen m b) (seqLen m b) j))
    (hkeys : m'.seqLens = ragged (items c m) m.seqLens.length fun b j =>
      cut c (queryLen m b) (seqLen m b) (j + 1) - chunkStart c (queryLen m b) (seqLen m b) j)
    (hrow : ∃ row, m'.blockTableTensor[offset (items c m) b + j]? = some row ∧
      ∃ blocks, m.blockTableTensor[b]? = some blocks ∧ ∀ i : Nat, (i : Int) < c / bs →
        chunkStart c (queryLen m b) (seqLen m b) j / bs + i < columns m.blockTableTensor →
        row[i]? = blocks[(chunkStart c (queryLen m b) (seqLen m b) j / bs + i).toNat]?) :
    LocalItem c bs m m' (offset (items c m) b + j) b (cut c (queryLen m b) (seqLen m b) j)
      (cut c (queryLen m b) (seqLen m b) (j + 1) - 1) := by
  have hstep := cut_step hc (hr b hb).1 hj
  have hsucc := chunkStart_succ c (queryLen m b) (seqLen m b) j
  have hchunk : ∀ p, cut c (queryLen m b) (seqLen m b) j ≤ p → p ≤ cut c (queryLen m b) (seqLen m b) (j + 1) - 1 →
      p / c * c = chunkStart c (queryLen m b) (seqLen m b) j := by
    intro p h1 h2
    exact chunk_of_mem hc (by omega) (by omega)
  have hlo := hchunk _ (le_refl _) (by omega)
  have hdvd' : bs ∣ chunkStart c (queryLen m b) (seqLen m b) j := Dvd.dvd.mul_left hdvd _
  refine ⟨hb, by omega, ?_, ?_, ?_, by omega, ?_, ?_⟩
  · rw [hstart]
    exact queryStart_eq hc hm hr hb (Nat.le_of_lt hj)
  · rw [hstart, Nat.add_assoc, queryStart_eq hc hm hr hb hj]
    congr 1
    ring
  · rw [hkeys, getElem?_ragged hb hj, hlo]
    congr 1
    ring
  · intro p h1 h2
    rw [hlo, hchunk p h1 h2]
    exact ⟨rfl, fun x => visible_iff h2⟩
  · obtain ⟨row, h1, blocks, h2, h3⟩ := hrow
    refine ⟨row, blocks, h1, h2, ?_⟩
    intro i hi0 hi
    rw [hlo] at hi ⊢
    have hmod : (chunkStart c (queryLen m b) (seqLen m b) j + i) % bs = i % bs := by
      obtain ⟨t, ht⟩ := hdvd'
      rw [ht, Int.mul_add_emod_self_left]
    have hdiv : (chunkStart c (queryLen m b) (seqLen m b) j + i) / bs =
        chunkStart c (queryLen m b) (seqLen m b) j / bs + i / bs := Int.add_ediv_of_dvd_left hdvd'
    refine ⟨hmod, ?_⟩
    rw [hdiv]
    intro hcol
    have hpage : i / bs < c / bs := by
      apply Int.ediv_lt_of_lt_mul hbs
      rw [Int.ediv_mul_cancel hdvd]
      omega
    obtain ⟨k, hk⟩ := Int.eq_ofNat_of_zero_le (Int.ediv_nonneg hi0 (Int.le_of_lt hbs))
    rw [hk] at hcol hpage ⊢
    exact h3 k hpage hcol

/-- Local attention is causal attention on virtual batches. For every batch of requests with queries the function
returns items that cut its queries in order, and on each of them causal attention with the last query at the last key
is the chunked mask. -/
theorem local_attention_batches (c bs : Int) (m : CommonAttentionMetadata) (hc : 0 < c) (hbs : 0 < bs) (hdvd : bs ∣ c)
    (hm : WellShaped m) (hr : HasQueries m) :
    (m.seqLens ≠ [] → ∃ m', makeLocalAttentionVirtualBatches c m bs = some m') ∧
      ∀ m', makeLocalAttentionVirtualBatches c m bs = some m' → LocalBatches c bs m m' := by
  by_cases h0 : m.seqLens = []
  · refine ⟨fun h => absurd h0 h, ?_⟩
    intro m' h
    have hnone : batchedArange (localBlocks c m) = none := by
      rw [localBlocks_tab hc hm hr, h0]
      rfl
    simp [makeLocalAttentionVirtualBatches, hnone] at h
  have hB : 0 < m.seqLens.length := List.length_pos_of_ne_nil h0
  obtain ⟨table, htable, hblocks⟩ := blockTableLocal_spec hc hbs hdvd hm hr hB
  have hoff : 0 < offset (items c m) m.seqLens.length := by
    have h1 := items_pos hc hr 0 hB
    have h2 : offset (items c m) 1 ≤ offset (items c m) m.seqLens.length := offset_mono hB
    rw [offset_succ] at h2
    omega
  have hmax : ∀ F : Nat → Nat → Int, ∃ x, (ragged (items c m) m.seqLens.length F).max? = some x := by
    intro F
    apply Option.isSome_iff_exists.mp
    rw [List.isSome_max?_iff]
    intro e
    have := congrArg List.length e
    rw [length_ragged] at this
    exact Nat.ne_of_gt hoff this
  obtain ⟨maxQ, hmaxQ⟩ := hmax fun b j =>
    cut c (queryLen m b) (seqLen m b) (j + 1) - cut c (queryLen m b) (seqLen m b) j
  obtain ⟨maxK, hmaxK⟩ := hmax fun b j =>
    cut c (queryLen m b) (seqLen m b) (j + 1) - chunkStart c (queryLen m b) (seqLen m b) j
  have hguard : ¬(bs = 0 ∨ c.fmod bs ≠ 0) := by
    rintro (h | h)
    · omega
    · exact h (Int.fmod_eq_zero_of_dvd hdvd)
  have hrun : makeLocalAttentionVirtualBatches c m bs = some {
      queryStartLoc := 0 :: cumsum (ragged (items c m) m.seqLens.length fun b j =>
        cut c (queryLen m b) (seqLen m b) (j + 1) - cut c (queryLen m b) (seqLen m b) j)
      seqLens := ragged (items c m) m.seqLens.length fun b j =>
        cut c (queryLen m b) (seqLen m b) (j + 1) - chunkStart c (queryLen m b) (seqLen m b) j
      numComputedTokens := ragged (items c m) m.seqLens.length fun b j =>
        cut c (queryLen m b) (seqLen m b) (j + 1) - chunkStart c (queryLen m b) (seqLen m b) j -
          (cut c (queryLen m b) (seqLen m b) (j + 1) - cut c (queryLen m b) (seqLen m b) j)
      numReqs := offset (items c m) m.seqLens.length
      numActualTokens := m.numActualTokens
      maxQueryLen := maxQ
      maxSeqLen := maxK
      blockTableTensor := table
      slotMapping := m.slotMapping
      causal := true } := by
    have harange := batchedArange_tab (n := items c m) hB
    rw [← localBlocks_tab hc hm hr] at harange
    simp only [makeLocalAttentionVirtualBatches, harange, seqlensQLocal_eq hc hm hr, seqlensKLocal_eq hc hm hr hB,
      kSeqstartsAbsolute_eq hc hm hr, if_neg hguard, hmaxQ, hmaxK, htable, zipWith_ragged, length_ragged,
      Option.bind_eq_bind, Option.bind_some]
  refine ⟨fun _ => ⟨_, hrun⟩, ?_⟩
  intro m' h
  rw [hrun] at h
  cases h
  refine ⟨?_, ?_, ?_, ?_, ?_⟩
  · simp
  · simp [length_cumsum]
  · rw [hm.zero]
    rfl
  · -- the last cut is where the last item of the last request ends
    have hlast : m.seqLens.length - 1 < m.seqLens.length := Nat.sub_lt hB Nat.one_pos
    have hcut := queryStart_eq hc hm hr hlast (le_refl _)
    have hend : offset (items c m) (m.seqLens.length - 1) + items c m (m.seqLens.length - 1) =
        offset (items c m) m.seqLens.length := by
      rw [← offset_succ, Nat.sub_add_cancel hB]
    have hget : m.queryStartLoc[m.seqLens.length]? = some (m.queryStartLoc.getD m.seqLens.length 0) := by
      have hlt : m.seqLens.length < m.queryStartLoc.length := by
        rw [hm.starts]
        exact Nat.lt_succ_self _
      rw [List.getD_eq_getElem?_getD, List.getElem?_eq_getElem hlt, Option.getD_some]
    rw [length_ragged, ← hend, hcut, hget, items, cut_last hc (hr _ hlast).1]
    have hq : queryLen m (m.seqLens.length - 1) =
        m.queryStartLoc.getD m.seqLens.length 0 - m.queryStartLoc.getD (m.seqLens.length - 1) 0 := by
      rw [queryLen, Nat.sub_add_cancel hB]
    congr 1
    omega
  · intro v hv
    rw [length_ragged] at hv
    obtain ⟨b, hb, j, hj, rfl⟩ := exists_of_lt_offset hv
    exact ⟨b, _, _, local_item hc hbs hdvd hm hr hb hj rfl rfl (hblocks b hb j hj)⟩

/-- The batch of the comment in the source. -/
def exampleBatch : CommonAttentionMetadata where
  queryStartLoc := [0, 4, 14, 19]
  seqLens := [6, 17, 9]
  numComputedTokens := [2, 7, 4]
  numReqs := 3
  numActualTokens := 19
  maxQueryLen := 10
  maxSeqLen := 17
  blockTableTensor :=
    [[0, 1, 2, 3, 4, 5, 6, 7, 8, 9], [10, 11, 12, 13, 14, 15, 16, 17, 18, 19], [20, 21, 22, 23, 24, 25, 26, 27, 28, 29]]
  slotMapping := List.replicate 19 0
  causal := true

/-- Three requests in chunks of four tokens. -/
theorem local_attention_batches_example :
    ∃ m', makeLocalAttentionVirtualBatches 4 exampleBatch 2 = some m' ∧ LocalBatches 4 2 exampleBatch m' ∧
      m'.seqLens = [4, 2, 4, 4, 4, 1, 4, 1] := by
  have h := local_attention_batches 4 2 exampleBatch (by decide) (by decide) (by decide)
    ⟨rfl, rfl, by decide, by decide, by decide⟩ (by unfold HasQueries; decide)
  obtain ⟨m', hm'⟩ := h.1 (by decide)
  refine ⟨m', hm', h.2 m' hm', ?_⟩
  have hs : (makeLocalAttentionVirtualBatches 4 exampleBatch 2).map (·.seqLens) = some [4, 2, 4, 4, 4, 1, 4, 1] := by
    decide
  rw [hm'] at hs
  exact Option.some.inj hs

end

end LocalAttention

end Gambit.Worker
