import Gambit.KV.Accounts

/-!
# The books of the pool in any run

`Accounts` says that the null block is never cached, which not every run keeps: a skipped block that was not cached
yet is replaced by the null block, and `cache_blocks` caches the null block in its place. Nothing else goes wrong with
the pool. A `Twin` of a pool is the same pool up to the null block, and `Books` says that a pool has a twin with
accounts; every operation that does not raise keeps it.
-/

namespace Gambit.KV
open Gambit.Lib

variable {η : Type} [DecidableEq η]

/-- Two pools that differ in the hash of the null block and in what it is cached under only. -/
structure Twin (p p₀ : BlockPool η) : Prop where
  pool : SamePool p p₀
  freeBlockQueue : p₀.freeBlockQueue = p.freeBlockQueue
  numFreeBlocks : p₀.numFreeBlocks = p.numFreeBlocks
  refCnt : ∀ b, p₀.refCnt b = p.refCnt b
  blockHash : ∀ b, b ≠ 0 → p₀.blockHash b = p.blockHash b
  stored : ∀ b, b ≠ 0 → ∀ k, Stored p₀.cachedBlockHashToBlock k b ↔ Stored p.cachedBlockHashToBlock k b
  wf : MapWf p.cachedBlockHashToBlock

section Twins
variable {p p₀ p₀' : BlockPool η} {held : Nat → Nat} {b : Nat}

/-- Counting references does not look at hashes. -/
lemma Twin.setRefCnt (h : Twin p p₀) (b : Nat) (n : Int) : Twin (p.setRefCnt b n) (p₀.setRefCnt b n) where
  pool := ⟨h.pool.numGpuBlocks, h.pool.enableCaching⟩
  freeBlockQueue := h.freeBlockQueue
  numFreeBlocks := h.numFreeBlocks
  refCnt x := by rw [BlockPool.refCnt_setRefCnt, BlockPool.refCnt_setRefCnt, h.refCnt]
  blockHash x h0 := by rw [BlockPool.blockHash_setRefCnt, BlockPool.blockHash_setRefCnt, h.blockHash x h0]
  stored := h.stored
  wf := h.wf

/-- A block that is touched in one pool is touched in the other. -/
lemma Twin.touchBlock (h : Twin p p₀) (hok : BlockPool.touchBlock p₀ b = .ok p₀') :
    ∃ p', BlockPool.touchBlock p b = .ok p' ∧ Twin p' p₀' ∧ (∀ x, p'.blockHash x = p.blockHash x) ∧
      p'.cachedBlockHashToBlock = p.cachedBlockHashToBlock := by
  have hset := h.setRefCnt b (p.refCnt b + 1)
  have hhash : ∀ x, (p.setRefCnt b (p.refCnt b + 1)).blockHash x = p.blockHash x :=
    fun x => BlockPool.blockHash_setRefCnt p b _ x
  unfold BlockPool.touchBlock at hok ⊢
  rw [h.refCnt, h.freeBlockQueue, h.numFreeBlocks] at hok
  split at hok
  · next hfree =>
    rw [if_pos hfree]
    split at hok
    · next hm =>
      cases hok
      rw [if_pos hm]
      exact ⟨_, rfl, ⟨⟨h.pool.numGpuBlocks, h.pool.enableCaching⟩, rfl, rfl, hset.refCnt, hset.blockHash, hset.stored, hset.wf⟩, hhash, rfl⟩
    · cases hok
  · next hfree =>
    cases hok
    rw [if_neg hfree]
    exact ⟨_, rfl, hset, hhash, rfl⟩

lemma Twin.touch {bs : List (List Nat)} (h : Twin p p₀) (hok : p₀.touch bs = .ok p₀') :
    ∃ p', p.touch bs = .ok p' ∧ Twin p' p₀' ∧ (∀ x, p'.blockHash x = p.blockHash x) ∧
      p'.cachedBlockHashToBlock = p.cachedBlockHashToBlock := by
  unfold BlockPool.touch at hok ⊢
  generalize bs.flatten = l at hok ⊢
  induction l generalizing p p₀ with
  | nil =>
    cases hok
    exact ⟨p, rfl, h, fun _ => rfl, rfl⟩
  | cons b l ih =>
    rw [List.foldlM_cons] at hok
    cases hb : BlockPool.touchBlock p₀ b with
    | error e =>
      rw [hb] at hok
      cases hok
    | ok q₀ =>
      rw [hb] at hok
      obtain ⟨q, hq, ht, hhash, hcache⟩ := h.touchBlock hb
      obtain ⟨p', hp', ht', hhash', hcache'⟩ := ih ht hok
      refine ⟨p', ?_, ht', fun x => (hhash' x).trans (hhash x), hcache'.trans hcache⟩
      rw [List.foldlM_cons, hq]
      exact hp'

/-- Evicting a block other than the null block. -/
lemma Twin.maybeEvict {q : List Nat} (h : Twin p p₀) (ha : Accounts (p₀.withQueue q) held) (h0 : b ≠ 0) :
    Twin (p.maybeEvictCachedBlock b) (p₀.maybeEvictCachedBlock b) ∧
      ∀ k, Stored (p.maybeEvictCachedBlock b).cachedBlockHashToBlock k 0 → Stored p.cachedBlockHashToBlock k 0 := by
  unfold BlockPool.maybeEvictCachedBlock
  rw [h.blockHash b h0]
  cases hk : p.blockHash b with
  | none => exact ⟨h, fun _ => id⟩
  | some k =>
    have wf₀ : MapWf p₀.cachedBlockHashToBlock := ha.wf
    have hs₀ : Stored p₀.cachedBlockHashToBlock k b := (ha.stored b k).1 ((h.blockHash b h0).trans hk)
    have hs : Stored p.cachedBlockHashToBlock k b := (h.stored b h0 k).1 hs₀
    simp only [BlockHashToBlockMap.pop_found.2 hs, BlockHashToBlockMap.pop_found.2 hs₀, if_true]
    refine ⟨⟨⟨h.pool.numGpuBlocks, h.pool.enableCaching⟩, h.freeBlockQueue, h.numFreeBlocks, fun x => ?_,
      fun x hx => ?_, fun x hx k' => ?_, BlockHashToBlockMap.wf_pop h.wf⟩, fun k' hst => ?_⟩
    · rw [BlockPool.refCnt_setHash, BlockPool.refCnt_setHash]
      exact h.refCnt x
    · rw [BlockPool.blockHash_setHash, BlockPool.blockHash_setHash]
      split
      · rfl
      · exact h.blockHash x hx
    · show Stored (p₀.cachedBlockHashToBlock.pop k b).1 k' x ↔ Stored (p.cachedBlockHashToBlock.pop k b).1 k' x
      rw [BlockHashToBlockMap.stored_pop wf₀, BlockHashToBlockMap.stored_pop h.wf, h.stored x hx]
    · exact ((BlockHashToBlockMap.stored_pop h.wf).1 hst).1

/-- A block that is handed out from one pool is handed out from the other. -/
lemma Twin.handOut {q : List Nat} (h : Twin p p₀) (ha : Accounts (p₀.withQueue q) held) (h0 : b ≠ 0)
    (hok : BlockPool.handOut p₀ b = .ok p₀') :
    ∃ p', BlockPool.handOut p b = .ok p' ∧ Twin p' p₀' ∧
      ∀ k, Stored p'.cachedBlockHashToBlock k 0 → Stored p.cachedBlockHashToBlock k 0 := by
  have hfinish : ∀ {q q₀ : BlockPool η}, Twin q q₀ →
      (if q₀.refCnt b = 0 then
        Except.ok { q₀.setRefCnt b (q₀.refCnt b + 1) with handedOut := q₀.handedOut ++ [b] } else .error ()) =
          (.ok p₀' : Except Unit (BlockPool η)) →
      ∃ p', (if q.refCnt b = 0 then
          Except.ok { q.setRefCnt b (q.refCnt b + 1) with handedOut := q.handedOut ++ [b] } else .error ()) =
            (.ok p' : Except Unit (BlockPool η)) ∧ Twin p' p₀' ∧
        p'.cachedBlockHashToBlock = q.cachedBlockHashToBlock := by
    intro q q₀ ht hq
    have hset := ht.setRefCnt b (q.refCnt b + 1)
    rw [ht.refCnt] at hq
    split at hq
    · next hz =>
      cases hq
      rw [if_pos hz]
      exact ⟨_, rfl, ⟨⟨ht.pool.numGpuBlocks, ht.pool.enableCaching⟩, hset.freeBlockQueue, hset.numFreeBlocks,
        hset.refCnt, hset.blockHash, hset.stored, hset.wf⟩, rfl⟩
    · cases hq
  unfold BlockPool.handOut at hok ⊢
  rw [h.pool.enableCaching] at hok
  cases hc : p.enableCaching with
  | true =>
    obtain ⟨ht, hst⟩ := h.maybeEvict ha h0
    rw [hc] at hok
    obtain ⟨p', hp', ht', hcache⟩ := hfinish ht hok
    exact ⟨p', hp', ht', fun k hk => hst k (hcache ▸ hk)⟩
  | false =>
    rw [hc] at hok
    obtain ⟨p', hp', ht', hcache⟩ := hfinish h hok
    exact ⟨p', hp', ht', fun k hk => hcache ▸ hk⟩

/-- A list of blocks at the head of the queue is handed out from both pools. -/
lemma Twin.handOutAll {l q : List Nat} (h : Twin p p₀) (ha : Accounts (p₀.withQueue (l ++ q)) held) :
    ∃ p' p₀', l.foldlM BlockPool.handOut p = .ok p' ∧ l.foldlM BlockPool.handOut p₀ = .ok p₀' ∧ Twin p' p₀' ∧
      ∀ k, Stored p'.cachedBlockHashToBlock k 0 → Stored p.cachedBlockHashToBlock k 0 := by
  induction l generalizing p p₀ held with
  | nil => exact ⟨p, p₀, rfl, rfl, h, fun _ => id⟩
  | cons b l ih =>
    obtain ⟨q₀, hq₀, ha', -⟩ := ha.handOut
    obtain ⟨q', hq', ht, hst⟩ := h.handOut ha (ha.ne_zero_of_mem List.mem_cons_self) hq₀
    obtain ⟨p', p₀', hp', hp₀', ht', hst'⟩ := ih ht ha'
    refine ⟨p', p₀', ?_, ?_, ht', fun k hk => hst k (hst' k hk)⟩
    · rw [List.foldlM_cons, hq']
      exact hp'
    · rw [List.foldlM_cons, hq₀]
      exact hp₀'

/-- Blocks that one pool hands out are handed out by the other. -/
lemma Twin.getNewBlocks {n : Nat} (h : Twin p p₀) (ha : Accounts p₀ held) (hn : n ≤ p.freeBlockQueue.length) :
    ∃ p' p₀', p.getNewBlocks n = .ok (p', p.freeBlockQueue.take n) ∧
      p₀.getNewBlocks n = .ok (p₀', p.freeBlockQueue.take n) ∧ Twin p' p₀' ∧
      ∀ k, Stored p'.cachedBlockHashToBlock k 0 → Stored p.cachedBlockHashToBlock k 0 := by
  have hlen : p₀.numFreeBlocks = p₀.freeBlockQueue.length := ha.numFree
  have hcheck : ¬ p.getNumFreeBlocks < n ∧ ¬ p₀.getNumFreeBlocks < n := by
    rw [BlockPool.getNumFreeBlocks, BlockPool.getNumFreeBlocks, ← h.numFreeBlocks, hlen, h.freeBlockQueue]
    omega
  have hdrop : (p₀.freeBlockQueue.drop n).length = p₀.numFreeBlocks - n := by
    rw [List.length_drop, hlen, h.freeBlockQueue]
    omega
  -- the pools after `popleft_n`
  have htwin : Twin
      { p with freeBlockQueue := p.freeBlockQueue.drop n, numFreeBlocks := p.numFreeBlocks - n }
      { p₀ with freeBlockQueue := p₀.freeBlockQueue.drop n, numFreeBlocks := p₀.numFreeBlocks - n } :=
    ⟨⟨h.pool.numGpuBlocks, h.pool.enableCaching⟩, by rw [h.freeBlockQueue], by rw [h.numFreeBlocks], h.refCnt,
      h.blockHash, h.stored, h.wf⟩
  have hacc : Accounts (BlockPool.withQueue
      { p₀ with freeBlockQueue := p₀.freeBlockQueue.drop n, numFreeBlocks := p₀.numFreeBlocks - n }
      (p.freeBlockQueue.take n ++ p.freeBlockQueue.drop n)) held := by
    rw [List.take_append_drop, ← h.freeBlockQueue, BlockPool.withQueue, ← hlen]
    exact ha
  obtain ⟨p', p₀', hp', hp₀', ht, hst⟩ := htwin.handOutAll hacc
  refine ⟨p', p₀', ?_, ?_, ht, hst⟩
  · unfold BlockPool.getNewBlocks
    rw [if_neg hcheck.1, if_neg (by omega)]
    dsimp only
    rw [hp']
    rfl
  · unfold BlockPool.getNewBlocks
    rw [if_neg hcheck.2, h.freeBlockQueue, if_neg (by omega)]
    rw [h.freeBlockQueue] at hp₀'
    dsimp only
    rw [hp₀']
    rfl

/-- Blocks are given back to both pools. -/
lemma Twin.freeBlocks (h : Twin p p₀) (bs : List Nat) : Twin (p.freeBlocks bs) (p₀.freeBlocks bs) := by
  have hrel : Twin (bs.foldl BlockPool.release p) (bs.foldl BlockPool.release p₀) := by
    induction bs generalizing p p₀ with
    | nil => exact h
    | cons b bs ih =>
      rw [List.foldl_cons, List.foldl_cons]
      apply ih
      unfold BlockPool.release
      rw [h.refCnt]
      exact h.setRefCnt b _
  unfold BlockPool.freeBlocks
  generalize bs.foldl BlockPool.release p = q at hrel
  generalize bs.foldl BlockPool.release p₀ = q₀ at hrel
  have hfreed : (bs.filter fun b => q₀.refCnt b = 0 ∧ b ≠ 0) = bs.filter fun b => q.refCnt b = 0 ∧ b ≠ 0 := by
    simp only [hrel.refCnt]
  refine ⟨⟨hrel.pool.numGpuBlocks, hrel.pool.enableCaching⟩, ?_, ?_, hrel.refCnt, hrel.blockHash, hrel.stored, hrel.wf⟩
  · show q₀.freeBlockQueue ++ _ = q.freeBlockQueue ++ _
    rw [hfreed, hrel.freeBlockQueue]
  · show q₀.numFreeBlocks + _ = q.numFreeBlocks + _
    rw [hfreed, hrel.numFreeBlocks]

/-- Both pools are reset or none. -/
lemma Twin.resetPrefixCache (h : Twin p p₀) : Twin p.resetPrefixCache.1 p₀.resetPrefixCache.1 ∧
    ∀ k, Stored p.resetPrefixCache.1.cachedBlockHashToBlock k 0 → Stored p.cachedBlockHashToBlock k 0 := by
  have hempty : ∀ k b, ¬ Stored ((∅ : Dict (BlockKey η) CachedBlocks)) k b := by
    rintro k b ⟨e, he, -⟩
    cases he
  have hcond : ((p₀.numGpuBlocks : Int) - p₀.getNumFreeBlocks ≠ 1) = ((p.numGpuBlocks : Int) - p.getNumFreeBlocks ≠ 1) := by
    rw [BlockPool.getNumFreeBlocks, BlockPool.getNumFreeBlocks, h.pool.numGpuBlocks, h.numFreeBlocks]
  unfold BlockPool.resetPrefixCache
  simp only [hcond]
  split
  · exact ⟨h, fun _ => id⟩
  · refine ⟨⟨⟨h.pool.numGpuBlocks, h.pool.enableCaching⟩, h.freeBlockQueue, h.numFreeBlocks, h.refCnt, fun _ _ => rfl,
      fun x _ k => Iff.rfl, fun k e he => (by cases he)⟩, fun k hk => absurd hk (hempty k 0)⟩

/-- A block that gets its hash in one pool gets it in the other; the null block gets it in the first only. -/
lemma Twin.cacheBlock {p' : BlockPool η} {k : η} {g : Nat} (h : Twin p p₀) (ha : Accounts p₀ held)
    (hc : p.enableCaching = true) (hheld : b ≠ 0 → 0 < held b) (hok : BlockPool.cacheBlock g p (b, k) = .ok p') :
    p.blockHash b = none ∧ p' = { p.setHash b (some (k, g)) with
        cachedBlockHashToBlock := p.cachedBlockHashToBlock.insert (k, g) b } ∧
      ∃ p₀', Twin p' p₀' ∧ Accounts p₀' held := by
  unfold BlockPool.cacheBlock at hok
  dsimp only at hok
  cases hn : p.blockHash b with
  | some k' =>
    rw [hn] at hok
    cases hok
  | none =>
    rw [hn] at hok
    cases hok
    refine ⟨rfl, rfl, ?_⟩
    have hwf : MapWf (p.cachedBlockHashToBlock.insert (k, g) b) := BlockHashToBlockMap.wf_insert h.wf
    by_cases h0 : b = 0
    · subst h0
      refine ⟨p₀, ⟨⟨h.pool.numGpuBlocks, h.pool.enableCaching⟩, h.freeBlockQueue, h.numFreeBlocks, fun x => ?_,
        fun x hx => ?_, fun x hx k' => ?_, hwf⟩, ha⟩
      · exact (h.refCnt x).trans (BlockPool.refCnt_setHash p 0 _ x).symm
      · refine (h.blockHash x hx).trans (Eq.symm ?_)
        exact (BlockPool.blockHash_setHash p 0 _ x).trans (if_neg hx)
      · rw [h.stored x hx, BlockHashToBlockMap.stored_insert]
        exact ⟨.inr, fun hst => hst.resolve_left fun he => hx he.2⟩
    · have hn₀ : p₀.blockHash b = none := (h.blockHash b h0).trans hn
      have hok₀ : BlockPool.cacheBlock g p₀ (b, k) = .ok { p₀.setHash b (some (k, g)) with
          cachedBlockHashToBlock := p₀.cachedBlockHashToBlock.insert (k, g) b } := by
        unfold BlockPool.cacheBlock
        rw [hn₀]
      obtain ⟨p₀', hp₀, ha', -⟩ := ha.cacheBlock (k := k) (g := g) (h.pool.enableCaching.trans hc) h0 (hheld h0) hn₀
      rw [hok₀] at hp₀
      obtain rfl := Except.ok.inj hp₀
      refine ⟨{ p₀.setHash b (some (k, g)) with
          cachedBlockHashToBlock := p₀.cachedBlockHashToBlock.insert (k, g) b }, ⟨⟨h.pool.numGpuBlocks, h.pool.enableCaching⟩, h.freeBlockQueue, h.numFreeBlocks, fun x => ?_,
        fun x hx => ?_, fun x hx k' => ?_, hwf⟩, ha'⟩
      · exact (BlockPool.refCnt_setHash p₀ b _ x).trans ((h.refCnt x).trans (BlockPool.refCnt_setHash p b _ x).symm)
      · refine (BlockPool.blockHash_setHash p₀ b _ x).trans (Eq.trans ?_ (BlockPool.blockHash_setHash p b _ x).symm)
        rw [h.blockHash x hx]
      · rw [BlockHashToBlockMap.stored_insert, BlockHashToBlockMap.stored_insert, h.stored x hx]

end Twins

/-- The books of a pool while the tables hold `held b` references to each block: the accounts of a twin. -/
def Books (p : BlockPool η) (held : Nat → Nat) : Prop := ∃ p₀, Accounts p₀ held ∧ Twin p p₀

section Operations
variable {p p' : BlockPool η} {held held' : Nat → Nat} {b : Nat}

/-- Accounts are books. -/
lemma Accounts.books (h : Accounts p held) : Books p held :=
  ⟨p, h, ⟨.refl p, rfl, rfl, fun _ => rfl, fun _ _ => rfl, fun _ _ _ => Iff.rfl, h.wf⟩⟩

lemma Books.congr (h : Books p held) (heq : ∀ b, b ≠ 0 → held' b = held b) : Books p held' := by
  obtain ⟨p₀, ha, ht⟩ := h
  exact ⟨p₀, ha.congr heq, ht⟩

lemma Books.nodup (h : Books p held) : p.freeBlockQueue.Nodup := by
  obtain ⟨p₀, ha, ht⟩ := h
  rw [← ht.freeBlockQueue]
  exact ha.nodup

lemma Books.mem_queue (h : Books p held) (b : Nat) :
    b ∈ p.freeBlockQueue ↔ b ≠ 0 ∧ b < p.numGpuBlocks ∧ held b = 0 := by
  obtain ⟨p₀, ha, ht⟩ := h
  rw [← ht.freeBlockQueue, ← ht.pool.numGpuBlocks]
  exact ha.mem_queue b

lemma Books.numFree (h : Books p held) : p.numFreeBlocks = p.freeBlockQueue.length := by
  obtain ⟨p₀, ha, ht⟩ := h
  rw [← ht.numFreeBlocks, ← ht.freeBlockQueue]
  exact ha.numFree

lemma Books.refCnt (h : Books p held) (h0 : b ≠ 0) : p.refCnt b = held b := by
  obtain ⟨p₀, ha, ht⟩ := h
  rw [← ht.refCnt]
  exact ha.refCnt b h0

lemma Books.stored (h : Books p held) (h0 : b ≠ 0) (k : BlockKey η) :
    p.blockHash b = some k ↔ Stored p.cachedBlockHashToBlock k b := by
  obtain ⟨p₀, ha, ht⟩ := h
  rw [← ht.blockHash b h0, ← ht.stored b h0]
  exact ha.stored b k

/-- A block without hash has one holder at most. -/
lemma Books.single (h : Books p held) (h0 : b ≠ 0) (hn : p.blockHash b = none) : held b ≤ 1 := by
  obtain ⟨p₀, ha, ht⟩ := h
  exact ha.single b h0 ((ht.blockHash b h0).trans hn)

/-- `touch` on cached blocks and the null block. -/
lemma Books.touch {bs : List (List Nat)} (h : Books p held) (hb : ∀ b ∈ bs.flatten, b = 0 ∨ p.blockHash b ≠ none) :
    ∃ p', p.touch bs = .ok p' ∧ Books p' (fun x => held x + bs.flatten.count x) ∧ SamePool p p' ∧
      (∀ x, p'.blockHash x = p.blockHash x) ∧ p'.cachedBlockHashToBlock = p.cachedBlockHashToBlock ∧
      p.freeBlockQueue.length ≤ p'.freeBlockQueue.length + bs.flatten.countP (fun x => p.refCnt x = 0 ∧ x ≠ 0) := by
  obtain ⟨p₀, ha, ht⟩ := h
  have hb₀ : ∀ b ∈ bs.flatten, b = 0 ∨ p₀.blockHash b ≠ none := by
    intro b hm
    by_cases h0 : b = 0
    · exact .inl h0
    · rw [ht.blockHash b h0]
      exact hb b hm
  obtain ⟨p₀', hok, ha', hs, -, -, hroom⟩ := ha.touch hb₀
  obtain ⟨p', hok', ht', hhash, hcache⟩ := ht.touch hok
  refine ⟨p', hok', ⟨p₀', ha', ht'⟩, ?_, hhash, hcache, ?_⟩
  · exact ⟨(ht'.pool.numGpuBlocks.symm.trans hs.numGpuBlocks).trans ht.pool.numGpuBlocks,
      (ht'.pool.enableCaching.symm.trans hs.enableCaching).trans ht.pool.enableCaching⟩
  · rw [← ht.freeBlockQueue, ← ht'.freeBlockQueue]
    simp only [← ht.refCnt]
    exact hroom

/-- `get_new_blocks` hands out the first blocks of the queue, without their hashes. -/
lemma Books.getNewBlocks {n : Nat} (h : Books p held) (hn : n ≤ p.freeBlockQueue.length) :
    ∃ p', p.getNewBlocks n = .ok (p', p.freeBlockQueue.take n) ∧
      Books p' (fun x => held x + (p.freeBlockQueue.take n).count x) ∧ SamePool p p' ∧
      p'.freeBlockQueue = p.freeBlockQueue.drop n ∧
      (∀ x, x ≠ 0 → p'.blockHash x = if x ∈ p.freeBlockQueue.take n then none else p.blockHash x) ∧
      ∀ k, Stored p'.cachedBlockHashToBlock k 0 → Stored p.cachedBlockHashToBlock k 0 := by
  obtain ⟨p₀, ha, ht⟩ := h
  obtain ⟨p', p₀', hok, hok₀, ht', hst⟩ := ht.getNewBlocks ha hn
  obtain ⟨p₁, hok₁, ha', hs, hq, -, hhash⟩ := ha.getNewBlocks (n := n) (by rw [ht.freeBlockQueue]; exact hn)
  rw [ht.freeBlockQueue] at hok₁ ha' hq hhash
  rw [hok₀] at hok₁
  cases hok₁
  refine ⟨p', hok, ⟨p₀', ha', ht'⟩, ?_, ht'.freeBlockQueue.symm.trans hq, fun x h0 => ?_, hst⟩
  · exact ⟨(ht'.pool.numGpuBlocks.symm.trans hs.numGpuBlocks).trans ht.pool.numGpuBlocks,
      (ht'.pool.enableCaching.symm.trans hs.enableCaching).trans ht.pool.enableCaching⟩
  · rw [← ht'.blockHash x h0, hhash, ht.blockHash x h0]

/-- `free_blocks` gives back one reference per block. -/
lemma Books.freeBlocks {bs : List Nat} (h : Books p fun x => held x + bs.count x)
    (hone : ∀ b, b ≠ 0 → bs.count b ≤ 1) :
    Books (p.freeBlocks bs) held ∧ SamePool p (p.freeBlocks bs) ∧
      (∀ x, (p.freeBlocks bs).blockHash x = p.blockHash x) ∧
      (p.freeBlocks bs).cachedBlockHashToBlock = p.cachedBlockHashToBlock := by
  obtain ⟨p₀, ha, ht⟩ := h
  obtain ⟨-, hhash, hrel⟩ := BlockPool.foldl_release bs p
  refine ⟨⟨p₀.freeBlocks bs, (ha.freeBlocks hone).1, ht.freeBlocks bs⟩, ?_, hhash, ?_⟩
  · unfold BlockPool.freeBlocks
    rw [hrel]
    exact ⟨rfl, rfl⟩
  · unfold BlockPool.freeBlocks
    rw [hrel]

/-- Blocks that are held, or null, get their hashes. -/
lemma Books.cacheAll {g : Nat} {l : List (Nat × η)} (h : Books p held) (hc : p.enableCaching = true)
    (hheld : ∀ e ∈ l, e.1 ≠ 0 → 0 < held e.1) (hok : l.foldlM (BlockPool.cacheBlock g) p = .ok p') :
    Books p' held ∧ SamePool p p' ∧
      (∀ x, p'.blockHash x = p.blockHash x ∨ p.blockHash x = none ∧ ∃ k, (x, k) ∈ l ∧ p'.blockHash x = some (k, g)) ∧
      ∀ k, Stored p'.cachedBlockHashToBlock k 0 →
        Stored p.cachedBlockHashToBlock k 0 ∨ k.2 = g ∧ (0 : Nat) ∈ l.map Prod.fst := by
  induction l generalizing p with
  | nil =>
    cases hok
    exact ⟨h, .refl _, fun _ => .inl rfl, fun _ => .inl⟩
  | cons e l ih =>
    obtain ⟨b, k⟩ := e
    rw [List.foldlM_cons] at hok
    cases hq : BlockPool.cacheBlock g p (b, k) with
    | error e =>
      rw [hq] at hok
      cases hok
    | ok q =>
      rw [hq] at hok
      obtain ⟨p₀, ha, ht⟩ := h
      obtain ⟨hn, rfl, p₀', ht', ha'⟩ := ht.cacheBlock ha hc (hheld _ List.mem_cons_self) hq
      obtain ⟨hbooks, hs, hhash, hst⟩ := ih ⟨p₀', ha', ht'⟩ hc (fun e he => hheld e (List.mem_cons_of_mem _ he)) hok
      refine ⟨hbooks, ⟨hs.numGpuBlocks, hs.enableCaching⟩, fun x => ?_, fun k' hk' => ?_⟩
      · have hset : BlockPool.blockHash { p.setHash b (some (k, g)) with
            cachedBlockHashToBlock := p.cachedBlockHashToBlock.insert (k, g) b } x =
              if x = b then some (k, g) else p.blockHash x := BlockPool.blockHash_setHash p b _ x
        have hx := hhash x
        rw [hset] at hx
        by_cases hxb : x = b
        · subst hxb
          rw [if_pos rfl] at hx
          refine .inr ⟨hn, ?_⟩
          rcases hx with hx | ⟨hx, -⟩
          · exact ⟨k, List.mem_cons_self, hx⟩
          · cases hx
        · rw [if_neg hxb] at hx
          exact hx.imp id fun ⟨hx, k', hm, hk⟩ => ⟨hx, k', List.mem_cons_of_mem _ hm, hk⟩
      · rcases hst k' hk' with hst | ⟨hg, hm⟩
        · rcases BlockHashToBlockMap.stored_insert.1 hst with ⟨rfl, h0⟩ | hst
          · exact .inr ⟨rfl, List.mem_map.2 ⟨_, List.mem_cons_self, h0.symm⟩⟩
          · exact .inl hst
        · exact .inr ⟨hg, List.mem_cons_of_mem _ hm⟩

/-- `cache_full_blocks` on a table. -/
lemma Books.cacheFullBlocks {hashes : List η} {t : List Nat} {numCached numFull g : Nat} (h : Books p held)
    (hc : p.enableCaching = true) (hheld : ∀ b ∈ t, b ≠ 0 → 0 < held b)
    (hok : p.cacheFullBlocks hashes t numCached numFull g = .ok p') :
    Books p' held ∧ SamePool p p' ∧
      (∀ x, p'.blockHash x = p.blockHash x ∨
        p.blockHash x = none ∧ ∃ (i : Nat) (k : η), t[i]? = some x ∧ hashes[i]? = some k ∧ p'.blockHash x = some (k, g)) ∧
      ∀ k, Stored p'.cachedBlockHashToBlock k 0 → Stored p.cachedBlockHashToBlock k 0 ∨ k.2 = g ∧ 0 ∈ t := by
  unfold BlockPool.cacheFullBlocks at hok
  split at hok
  · cases hok
    exact ⟨h, .refl p, fun _ => .inl rfl, fun _ => .inl⟩
  split at hok
  · cases hok
  -- an entry to cache is one of the table, with the hash of its position
  have hmem : ∀ e ∈ ((t.take numFull).drop numCached).zip (hashes.drop numCached),
      ∃ i : Nat, t[i]? = some e.1 ∧ hashes[i]? = some e.2 := by
    intro e he
    obtain ⟨j, hj⟩ := List.mem_iff_getElem?.1 he
    obtain ⟨hj1, hj2⟩ := List.getElem?_zip_eq_some.1 hj
    rw [List.getElem?_drop] at hj1 hj2
    rw [List.getElem?_take] at hj1
    split at hj1
    · exact ⟨_, hj1, hj2⟩
    · cases hj1
  obtain ⟨hbooks, hs, hhash, hst⟩ := h.cacheAll hc (fun e he => by
    obtain ⟨i, hi, -⟩ := hmem e he
    exact hheld _ (List.mem_of_getElem? hi)) hok
  refine ⟨hbooks, hs, fun x => (hhash x).imp id fun ⟨hn, k, hm, hk⟩ => ?_, fun k hk => (hst k hk).imp id fun ⟨hg, hm⟩ => ?_⟩
  · obtain ⟨i, hi, hi'⟩ := hmem _ hm
    exact ⟨hn, i, k, hi, hi', hk⟩
  · obtain ⟨e, he, h0⟩ := List.mem_map.1 hm
    obtain ⟨i, hi, -⟩ := hmem e he
    exact ⟨hg, h0 ▸ List.mem_of_getElem? hi⟩

/-- Resetting keeps the books. -/
lemma Books.reset (h : Books p held) :
    Books p.resetPrefixCache.1 held ∧ SamePool p p.resetPrefixCache.1 ∧
      (∀ x, x ≠ 0 → p.resetPrefixCache.1.blockHash x = p.blockHash x ∨ p.resetPrefixCache.1.blockHash x = none) ∧
      ∀ k, Stored p.resetPrefixCache.1.cachedBlockHashToBlock k 0 → Stored p.cachedBlockHashToBlock k 0 := by
  obtain ⟨p₀, ha, ht⟩ := h
  obtain ⟨ht', hst⟩ := ht.resetPrefixCache
  refine ⟨⟨p₀.resetPrefixCache.1, ha.reset.1, ht'⟩, ?_, fun x _ => ?_, hst⟩
  · unfold BlockPool.resetPrefixCache
    split
    · exact .refl p
    · exact ⟨rfl, rfl⟩
  · unfold BlockPool.resetPrefixCache
    split
    · exact .inl rfl
    · exact .inr rfl

end Operations
end Gambit.KV
