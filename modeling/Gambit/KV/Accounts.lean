import Gambit.KV.BlockPool
import Gambit.Lib.Loop

/-!
# The accounts of the block pool

`Accounts p held` is what the pool keeps while block tables hold `held b` references to the block `b`: the
free queue is the blocks nobody holds, a reference count is the number of holders, and the map of cached
blocks is the inverse of the hashes. Every operation is specified by how it changes `held` and the hashes.
-/

namespace Gambit.KV
open Gambit.Lib

variable {η : Type} [DecidableEq η]

/-- A block is stored under a key. -/
def Stored (c : BlockHashToBlockMap η) (k : BlockKey η) (b : Nat) : Prop :=
  ∃ e, Dict.get? c k = some e ∧ b ∈ e.ids

/-- No entry of the map is empty or has a block twice. -/
def MapWf (c : BlockHashToBlockMap η) : Prop :=
  ∀ k e, Dict.get? c k = some e → e.ids ≠ [] ∧ e.ids.Nodup

namespace BlockHashToBlockMap
variable {c : BlockHashToBlockMap η} {k k' : BlockKey η} {b b' : Nat}

/-- The blocks under a key after an assignment. -/
lemma stored_set {e : CachedBlocks} :
    Stored (c.set k e) k' b' ↔ k' = k ∧ b' ∈ e.ids ∨ k' ≠ k ∧ Stored c k' b' := by
  unfold Stored
  rw [Dict.get?_set]
  by_cases hk : k' = k
  · simp [hk]
  · simp [hk]

/-- The blocks under a key after a deletion. -/
lemma stored_erase : Stored (c.erase k) k' b' ↔ k' ≠ k ∧ Stored c k' b' := by
  unfold Stored
  rw [Dict.get?_erase]
  by_cases hk : k' = k
  · simp [hk]
  · simp [hk]

/-- An assignment of a nonempty entry keeps the map well formed. -/
lemma wf_set {e : CachedBlocks} (h : ∀ k', k' ≠ k → ∀ e', Dict.get? c k' = some e' → e'.ids ≠ [] ∧ e'.ids.Nodup)
    (he : e.ids ≠ []) (nd : e.ids.Nodup) : MapWf (c.set k e) := by
  intro k' e' hk'
  rw [Dict.get?_set] at hk'
  split at hk'
  · cases hk'
    exact ⟨he, nd⟩
  · next hne => exact h k' hne e' hk'

/-- What `insert` stores. -/
lemma stored_insert : Stored (c.insert k b) k' b' ↔ k' = k ∧ b' = b ∨ Stored c k' b' := by
  have hold : ∀ e, Dict.get? c k = some e → (Stored c k b' ↔ b' ∈ e.ids) := by
    intro e he
    unfold Stored
    rw [he]
    simp
  unfold insert
  split
  · next hn =>
    have hnone : ¬ Stored c k b' := by
      rintro ⟨e, he, -⟩
      rw [hn] at he
      cases he
    rw [stored_set]
    by_cases hk : k' = k
    · subst hk
      simp [CachedBlocks.ids, hnone]
    · simp [hk]
  · next a ha =>
    rw [stored_set]
    by_cases hk : k' = k
    · subst hk
      have hst := hold _ ha
      rw [hst]
      by_cases hab : a = b
      · simp [CachedBlocks.ids, hab]
      · simp [CachedBlocks.ids, hab, or_comm]
    · simp [hk]
  · next bs hbs =>
    rw [stored_set]
    by_cases hk : k' = k
    · subst hk
      have hst := hold _ hbs
      rw [hst]
      by_cases hb : b ∈ bs
      · simp only [CachedBlocks.ids, hb, if_true, true_and, ne_eq, not_true_eq_false, false_and, or_false]
        exact ⟨.inr, fun h => h.elim (fun h => h ▸ hb) id⟩
      · simp [CachedBlocks.ids, hb, or_comm]
    · simp [hk]

/-- `insert` keeps the map well formed. -/
lemma wf_insert (h : MapWf c) : MapWf (c.insert k b) := by
  have hother : ∀ k', k' ≠ k → ∀ e', Dict.get? c k' = some e' → e'.ids ≠ [] ∧ e'.ids.Nodup :=
    fun k' _ e' he => h k' e' he
  unfold insert
  split
  · exact wf_set hother (List.cons_ne_nil _ _) (List.nodup_singleton _)
  · next a ha =>
    refine wf_set hother ?_ ?_
    · by_cases hab : a = b <;> simp [CachedBlocks.ids, hab]
    · by_cases hab : a = b <;> simp [CachedBlocks.ids, hab]
  · next bs hbs =>
    obtain ⟨hne, hnd⟩ := h k _ hbs
    refine wf_set hother ?_ ?_
    · by_cases hb : b ∈ bs
      · simpa [CachedBlocks.ids, hb] using hne
      · simp [CachedBlocks.ids, hb]
    · by_cases hb : b ∈ bs
      · simpa [CachedBlocks.ids, hb] using hnd
      · simp only [CachedBlocks.ids, hb, if_false]
        exact List.nodup_append.2 ⟨hnd, List.nodup_singleton _, fun x hx y hy he =>
          hb (List.mem_singleton.1 hy ▸ he ▸ hx)⟩

/-- `pop` finds a block exactly if it is stored. -/
lemma pop_found : (c.pop k b).2 = true ↔ Stored c k b := by
  unfold pop Stored
  split
  · next hn => simp [hn]
  · next a ha =>
    rw [ha]
    by_cases hab : a = b
    · simp [hab, CachedBlocks.ids]
    · simp [hab, CachedBlocks.ids, Ne.symm hab]
  · next bs hbs =>
    rw [hbs]
    simp [CachedBlocks.ids]

/-- `pop` takes the block out and nothing else. -/
lemma stored_pop (h : MapWf c) : Stored (c.pop k b).1 k' b' ↔ Stored c k' b' ∧ ¬ (k' = k ∧ b' = b) := by
  have hold : ∀ e, Dict.get? c k = some e → (Stored c k b' ↔ b' ∈ e.ids) := by
    intro e he
    unfold Stored
    rw [he]
    simp
  unfold pop
  split
  · next hn =>
    refine ⟨fun hs => ⟨hs, ?_⟩, fun hs => hs.1⟩
    rintro ⟨rfl, rfl⟩
    obtain ⟨e, he, -⟩ := hs
    rw [hn] at he
    cases he
  · next a ha =>
    by_cases hk : k' = k
    · subst hk
      have hst := hold _ ha
      rw [hst]
      by_cases hab : a = b
      · simp [hab, stored_erase, CachedBlocks.ids]
      · rw [if_neg hab]
        simp only [stored_set, CachedBlocks.ids, List.mem_singleton, true_and, ne_eq, not_true_eq_false,
          false_and, or_false]
        exact ⟨fun h => ⟨h, fun he => hab (h ▸ he)⟩, fun h => h.1⟩
    · by_cases hab : a = b
      · simp [hab, stored_erase, hk]
      · simp [hab, stored_set, stored_erase, hk]
  · next bs hbs =>
    obtain ⟨-, hnd⟩ := h k _ hbs
    by_cases hk : k' = k
    · subst hk
      have hst := hold _ hbs
      rw [hst]
      have hmem : b' ∈ bs.erase b ↔ b' ≠ b ∧ b' ∈ bs := List.Nodup.mem_erase_iff hnd
      by_cases he : bs.erase b = []
      · rw [if_pos he]
        rw [he] at hmem
        simp only [stored_erase, ne_eq, not_true_eq_false, false_and, CachedBlocks.ids, true_and, false_iff]
        exact fun hb => absurd (hmem.2 ⟨hb.2, hb.1⟩) List.not_mem_nil
      · rw [if_neg he]
        simp only [stored_set, CachedBlocks.ids, true_and, ne_eq, not_true_eq_false, false_and, or_false]
        rw [hmem, and_comm]
    · by_cases he : bs.erase b = []
      · simp [he, stored_erase, hk]
      · simp [he, stored_set, stored_erase, hk]

/-- `pop` keeps the map well formed. -/
lemma wf_pop (h : MapWf c) : MapWf (c.pop k b).1 := by
  have herase : ∀ k' e', Dict.get? (c.erase k) k' = some e' → e'.ids ≠ [] ∧ e'.ids.Nodup := by
    intro k' e' he
    rw [Dict.get?_erase] at he
    split at he
    · cases he
    · exact h k' e' he
  have hother : ∀ k', k' ≠ k → ∀ e', Dict.get? (c.erase k) k' = some e' → e'.ids ≠ [] ∧ e'.ids.Nodup :=
    fun k' _ e' he => herase k' e' he
  unfold pop
  split
  · exact h
  · next a ha =>
    by_cases hab : a = b
    · rw [if_pos hab]
      exact herase
    · rw [if_neg hab]
      exact wf_set hother (List.cons_ne_nil _ _) (List.nodup_singleton _)
  · next bs hbs =>
    dsimp only
    by_cases he : bs.erase b = []
    · rw [if_pos he]
      exact herase
    · rw [if_neg he]
      exact wf_set hother he ((h k _ hbs).2.erase b)

/-- A block found under a key is stored under it. -/
lemma stored_of_getOneBlock (h : c.getOneBlock k = some b) : Stored c k b := by
  obtain ⟨e, he, hb⟩ := Option.bind_eq_some_iff.1 h
  exact ⟨e, he, List.mem_of_mem_head? hb⟩

end BlockHashToBlockMap

/-- The pool while the block tables hold `held b` references to each block `b`. -/
structure Accounts (p : BlockPool η) (held : Nat → Nat) : Prop where
  nodup : p.freeBlockQueue.Nodup
  mem_queue : ∀ b, b ∈ p.freeBlockQueue ↔ b ≠ 0 ∧ b < p.numGpuBlocks ∧ held b = 0
  numFree : p.numFreeBlocks = p.freeBlockQueue.length
  refCnt : ∀ b, b ≠ 0 → p.refCnt b = held b
  range : ∀ b, b ≠ 0 → 0 < held b → b < p.numGpuBlocks
  wf : MapWf p.cachedBlockHashToBlock
  stored : ∀ b k, p.blockHash b = some k ↔ Stored p.cachedBlockHashToBlock k b
  hashRange : ∀ b k, p.blockHash b = some k → b ≠ 0 ∧ b < p.numGpuBlocks
  single : ∀ b, b ≠ 0 → p.blockHash b = none → held b ≤ 1
  plain : p.enableCaching = false → ∀ b, p.blockHash b = none
  handedOut : 0 ∉ p.handedOut

section Operations
variable {p p' : BlockPool η} {held held' : Nat → Nat} {b : Nat}

/-- Only the numbers of holders matter. -/
lemma Accounts.congr (h : Accounts p held) (heq : ∀ b, b ≠ 0 → held' b = held b) : Accounts p held' where
  nodup := h.nodup
  mem_queue b := by
    rw [h.mem_queue]
    constructor
    · rintro ⟨h0, h1, h2⟩
      exact ⟨h0, h1, (heq b h0).trans h2⟩
    · rintro ⟨h0, h1, h2⟩
      exact ⟨h0, h1, (heq b h0).symm.trans h2⟩
  numFree := h.numFree
  refCnt b h0 := by rw [heq b h0, h.refCnt b h0]
  range b h0 hb := h.range b h0 (heq b h0 ▸ hb)
  wf := h.wf
  stored := h.stored
  hashRange := h.hashRange
  single b h0 hb := heq b h0 ▸ h.single b h0 hb
  plain := h.plain
  handedOut := h.handedOut

/-- A block in the queue has no holders. -/
lemma Accounts.held_of_mem (h : Accounts p held) (hb : b ∈ p.freeBlockQueue) : held b = 0 :=
  ((h.mem_queue b).1 hb).2.2

lemma Accounts.ne_zero_of_mem (h : Accounts p held) (hb : b ∈ p.freeBlockQueue) : b ≠ 0 :=
  ((h.mem_queue b).1 hb).1

/-- The null block has no hash. -/
lemma Accounts.null (h : Accounts p held) : p.blockHash 0 = none := by
  cases hk : p.blockHash 0 with
  | none => rfl
  | some k => exact absurd rfl (h.hashRange 0 k hk).1

/-- A new pool. -/
lemma Accounts.init {n : Nat} (hn : 0 < n) (caching : Bool) :
    Accounts (BlockPool.init n caching : BlockPool η) fun _ => 0 where
  nodup := (List.nodup_range).sublist (List.tail_sublist _)
  mem_queue b := by
    obtain ⟨m, rfl⟩ : ∃ m, n = m + 1 := ⟨n - 1, by omega⟩
    rw [BlockPool.init, List.range_succ_eq_map, List.tail_cons]
    simp only [List.mem_map, List.mem_range, and_true]
    constructor
    · rintro ⟨a, ha, rfl⟩
      exact ⟨Nat.succ_ne_zero a, Nat.succ_lt_succ ha⟩
    · rintro ⟨h0, hb⟩
      exact ⟨b - 1, by omega, by omega⟩
  numFree := by
    simp only [BlockPool.init, List.length_tail, List.length_range]
    omega
  refCnt _ _ := rfl
  range _ _ h := absurd h (lt_irrefl 0)
  wf k e h := by cases h
  stored b k := by
    constructor
    · intro h
      cases h
    · rintro ⟨e, he, -⟩
      cases he
  hashRange b k h := by cases h
  single _ _ _ := Nat.zero_le 1
  plain _ _ := rfl
  handedOut := List.not_mem_nil

/-- The pool with another queue. -/
def BlockPool.withQueue (p : BlockPool η) (q : List Nat) : BlockPool η :=
  { p with freeBlockQueue := q, numFreeBlocks := q.length }

/-- Evicting a block that is cached takes its hash away, in the map too. -/
lemma Accounts.maybeEvict (h : Accounts p held) (hb : held b = 0) :
    Accounts (p.maybeEvictCachedBlock b) held ∧ SamePool p (p.maybeEvictCachedBlock b) ∧
      (p.maybeEvictCachedBlock b).handedOut = p.handedOut ∧
      (p.maybeEvictCachedBlock b).freeBlockQueue = p.freeBlockQueue ∧
      ∀ x, (p.maybeEvictCachedBlock b).blockHash x = if x = b then none else p.blockHash x := by
  unfold BlockPool.maybeEvictCachedBlock
  split
  · next hn =>
    refine ⟨h, .refl p, rfl, rfl, fun x => ?_⟩
    by_cases hx : x = b
    · rw [if_pos hx, hx, hn]
    · rw [if_neg hx]
  · next k hk =>
    have hs : Stored p.cachedBlockHashToBlock k b := (h.stored b k).1 hk
    have hfound : (p.cachedBlockHashToBlock.pop k b).2 = true := BlockHashToBlockMap.pop_found.2 hs
    simp only [hfound, if_true]
    refine ⟨⟨h.nodup, h.mem_queue, h.numFree, fun x h0 => ?_, h.range, BlockHashToBlockMap.wf_pop h.wf,
      fun x k' => ?_, fun x k' hx => ?_, fun x h0 hx => ?_, fun hc x => ?_, h.handedOut⟩, ⟨rfl, rfl⟩, rfl, rfl,
      fun x => BlockPool.blockHash_setHash _ b none x⟩
    · rw [BlockPool.refCnt_setHash]
      exact h.refCnt x h0
    · rw [BlockPool.blockHash_setHash]
      change _ ↔ Stored (p.cachedBlockHashToBlock.pop k b).1 k' x
      rw [BlockHashToBlockMap.stored_pop h.wf, ← h.stored]
      by_cases hx : x = b
      · subst hx
        rw [if_pos rfl, hk]
        simp [eq_comm]
      · rw [if_neg hx]
        simp [hx, BlockPool.blockHash]
    · rw [BlockPool.blockHash_setHash] at hx
      split at hx
      · cases hx
      · exact h.hashRange x k' hx
    · rw [BlockPool.blockHash_setHash] at hx
      by_cases hxb : x = b
      · rw [hxb, hb]
        exact Nat.zero_le 1
      · rw [if_neg hxb] at hx
        exact h.single x h0 hx
    · rw [BlockPool.blockHash_setHash]
      split
      · rfl
      · exact h.plain hc x

/-- Eviction does not look at the queue. -/
lemma BlockPool.maybeEvict_withQueue (p : BlockPool η) (q : List Nat) (b : Nat) :
    (p.withQueue q).maybeEvictCachedBlock b = (p.maybeEvictCachedBlock b).withQueue q := by
  unfold BlockPool.maybeEvictCachedBlock
  have hh : (p.withQueue q).blockHash b = p.blockHash b := rfl
  rw [hh]
  cases p.blockHash b with
  | none => rfl
  | some k =>
    dsimp only [BlockPool.withQueue]
    split
    · rfl
    · rfl

/-- A new reference to a block nobody holds. -/
lemma Accounts.firstReference {q : List Nat} (h : Accounts (p.withQueue (b :: q)) held)
    (hn : p.blockHash b = none) :
    Accounts (({ p.setRefCnt b (p.refCnt b + 1) with handedOut := p.handedOut ++ [b] } : BlockPool η).withQueue q)
      fun x => held x + [b].count x := by
  have hb : b ∈ (p.withQueue (b :: q)).freeBlockQueue := List.mem_cons_self
  obtain ⟨h0, hlt, hheld⟩ := (h.mem_queue b).1 hb
  obtain ⟨hbq, hq⟩ := List.nodup_cons.1 h.nodup
  have hcount : ∀ x, x ≠ b → [b].count x = 0 := fun x hx =>
    List.count_eq_zero.2 fun hm => hx (List.mem_singleton.1 hm)
  refine ⟨hq, fun x => ?_, rfl, fun x hx0 => ?_, fun x hx0 hx => ?_, h.wf, fun x k => ?_, fun x k hx => ?_,
    fun x hx0 hx => ?_, fun hc x => ?_, ?_⟩
  · by_cases hxb : x = b
    · subst hxb
      simp only [List.count_singleton_self]
      exact iff_of_false hbq fun hx => absurd hx.2.2 (Nat.succ_ne_zero _)
    · have hx := h.mem_queue x
      rw [BlockPool.withQueue] at hx
      simp only [List.mem_cons, hxb, false_or] at hx
      simp only [hcount x hxb, Nat.add_zero]
      exact hx
  · change (p.setRefCnt b (p.refCnt b + 1)).refCnt x = _
    have hx := h.refCnt x hx0
    rw [BlockPool.refCnt_setRefCnt]
    by_cases hxb : x = b
    · subst hxb
      change p.refCnt x = _ at hx
      rw [if_pos rfl, hx, List.count_singleton_self, Nat.cast_add, Nat.cast_one]
    · rw [if_neg hxb, hcount x hxb, Nat.add_zero]
      exact hx
  · by_cases hxb : x = b
    · rw [hxb]
      exact hlt
    · rw [hcount x hxb, Nat.add_zero] at hx
      exact h.range x hx0 hx
  · change (p.setRefCnt b (p.refCnt b + 1)).blockHash x = _ ↔ _
    rw [BlockPool.blockHash_setRefCnt]
    exact h.stored x k
  · change (p.setRefCnt b (p.refCnt b + 1)).blockHash x = _ at hx
    rw [BlockPool.blockHash_setRefCnt] at hx
    exact h.hashRange x k hx
  · change (p.setRefCnt b (p.refCnt b + 1)).blockHash x = _ at hx
    rw [BlockPool.blockHash_setRefCnt] at hx
    by_cases hxb : x = b
    · subst hxb
      rw [hheld, List.count_singleton_self]
    · rw [hcount x hxb, Nat.add_zero]
      exact h.single x hx0 hx
  · change (p.setRefCnt b (p.refCnt b + 1)).blockHash x = _
    rw [BlockPool.blockHash_setRefCnt]
    exact h.plain hc x
  · change 0 ∉ p.handedOut ++ [b]
    have hout := h.handedOut
    simp only [List.mem_append, List.mem_singleton, not_or]
    exact ⟨hout, fun h => h0 h.symm⟩

/-- The head of the queue is handed out. -/
lemma Accounts.handOut {q : List Nat} (h : Accounts (p.withQueue (b :: q)) held) :
    ∃ p', BlockPool.handOut p b = .ok p' ∧
      Accounts (p'.withQueue q) (fun x => held x + [b].count x) ∧ SamePool p p' ∧
      p'.handedOut = p.handedOut ++ [b] ∧
      ∀ x, p'.blockHash x = if x = b then none else p.blockHash x := by
  have hb : b ∈ (p.withQueue (b :: q)).freeBlockQueue := List.mem_cons_self
  obtain ⟨h0, -, hheld⟩ := (h.mem_queue b).1 hb
  -- the pool after the eviction, if there is one
  obtain ⟨p1, hp1, h1, hsame, hout, hhash⟩ : ∃ p1,
      p1 = (if p.enableCaching then p.maybeEvictCachedBlock b else p) ∧
      Accounts (p1.withQueue (b :: q)) held ∧ SamePool p p1 ∧ p1.handedOut = p.handedOut ∧
      ∀ x, p1.blockHash x = if x = b then none else p.blockHash x := by
    cases hc : p.enableCaching with
    | true =>
      obtain ⟨ha, hs, ho, -, hx⟩ := h.maybeEvict hheld
      rw [BlockPool.maybeEvict_withQueue] at ha hs ho hx
      exact ⟨_, rfl, ha, ⟨hs.numGpuBlocks, hs.enableCaching⟩, ho, hx⟩
    | false =>
      refine ⟨_, rfl, h, .refl p, rfl, fun x => ?_⟩
      have hx : p.blockHash x = none := h.plain hc x
      rw [if_neg Bool.false_ne_true, hx, ite_self]
  have hr : p1.refCnt b = 0 := by
    have hr := h1.refCnt b h0
    rw [hheld] at hr
    exact hr
  refine ⟨_, ?_, h1.firstReference ((hhash b).trans (if_pos rfl)), ⟨hsame.numGpuBlocks, hsame.enableCaching⟩, ?_,
    fun x => ?_⟩
  · unfold BlockPool.handOut
    rw [← hp1]
    exact if_pos hr
  · rw [← hout]
  · rw [← hhash x]
    exact BlockPool.blockHash_setRefCnt p1 b _ x

/-- Handing out does not touch the queue. -/
lemma BlockPool.handOut_queue (h : BlockPool.handOut p b = .ok p') :
    p'.freeBlockQueue = p.freeBlockQueue ∧ p'.numFreeBlocks = p.numFreeBlocks := by
  have hevict : (p.maybeEvictCachedBlock b).freeBlockQueue = p.freeBlockQueue ∧
      (p.maybeEvictCachedBlock b).numFreeBlocks = p.numFreeBlocks := by
    unfold BlockPool.maybeEvictCachedBlock
    split
    · exact ⟨rfl, rfl⟩
    · dsimp only
      split
      · exact ⟨rfl, rfl⟩
      · exact ⟨rfl, rfl⟩
  have hsplit : ∀ {q : BlockPool η}, (if q.refCnt b = 0 then
      Except.ok { q.setRefCnt b (q.refCnt b + 1) with handedOut := q.handedOut ++ [b] } else .error ()) =
        (.ok p' : Except Unit (BlockPool η)) →
      p'.freeBlockQueue = q.freeBlockQueue ∧ p'.numFreeBlocks = q.numFreeBlocks := by
    intro q hq
    split at hq
    · cases hq
      exact ⟨rfl, rfl⟩
    · cases hq
  obtain ⟨hq, hnum⟩ := hsplit h
  cases hc : p.enableCaching with
  | true =>
    simp only [hc, if_true] at hq hnum
    exact ⟨hq.trans hevict.1, hnum.trans hevict.2⟩
  | false =>
    simp only [hc, Bool.false_eq_true, if_false] at hq hnum
    exact ⟨hq, hnum⟩

/-- `get_new_blocks` hands out the first blocks of the queue, without their hashes. -/
lemma Accounts.getNewBlocks {n : Nat} (h : Accounts p held) (hn : n ≤ p.freeBlockQueue.length) :
    ∃ p', p.getNewBlocks n = .ok (p', p.freeBlockQueue.take n) ∧
      Accounts p' (fun x => held x + (p.freeBlockQueue.take n).count x) ∧ SamePool p p' ∧
      p'.freeBlockQueue = p.freeBlockQueue.drop n ∧
      p'.handedOut = p.handedOut ++ p.freeBlockQueue.take n ∧
      ∀ x, p'.blockHash x = if x ∈ p.freeBlockQueue.take n then none else p.blockHash x := by
  have htake : p.freeBlockQueue.take n ++ p.freeBlockQueue.drop n = p.freeBlockQueue := List.take_append_drop ..
  have hnum : (p.freeBlockQueue.drop n).length = p.numFreeBlocks - n := by
    rw [List.length_drop, h.numFree]
    omega
  -- the loop keeps the accounts of the pool with the rest of the popped blocks put back
  obtain ⟨p', hp', hinv⟩ := foldlM_ok (f := BlockPool.handOut) (ε := Unit)
    (fun done (q : BlockPool η) => ∀ rest, p.freeBlockQueue.take n = done ++ rest →
      Accounts (q.withQueue (rest ++ p.freeBlockQueue.drop n)) (fun x => held x + done.count x) ∧ SamePool p q ∧
        q.freeBlockQueue = p.freeBlockQueue.drop n ∧ q.numFreeBlocks = p.numFreeBlocks - n ∧
        q.handedOut = p.handedOut ++ done ∧ ∀ x, q.blockHash x = if x ∈ done then none else p.blockHash x)
    (p.freeBlockQueue.take n)
    (a := { p with freeBlockQueue := p.freeBlockQueue.drop n, numFreeBlocks := p.numFreeBlocks - n })
    (fun rest hrest => by
      have hp : ({ p with freeBlockQueue := p.freeBlockQueue.drop n, numFreeBlocks := p.numFreeBlocks - n } :
          BlockPool η).withQueue (rest ++ p.freeBlockQueue.drop n) = p := by
        rw [← List.nil_append rest, ← hrest, htake, BlockPool.withQueue, ← h.numFree]
      rw [hp]
      refine ⟨h.congr fun b _ => by rw [List.count_nil, Nat.add_zero], ⟨rfl, rfl⟩, rfl, rfl,
        (List.append_nil _).symm, fun x => ?_⟩
      rw [if_neg List.not_mem_nil]
      rfl)
    (fun done x rest q hl hq => by
      obtain ⟨ha, hs, hfq, hnf, hout, hhash⟩ := hq (x :: rest) hl
      obtain ⟨q', hq', ha', hs', hout', hhash'⟩ := ha.handOut
      obtain ⟨hfq', hnf'⟩ := BlockPool.handOut_queue hq'
      refine ⟨q', hq', fun rest' hrest => ?_⟩
      have hrr : rest' = rest := by
        rw [hl, List.append_assoc, List.singleton_append] at hrest
        exact (List.cons.inj (List.append_cancel_left hrest)).2.symm
      subst hrr
      refine ⟨ha'.congr fun b _ => by rw [List.count_append, Nat.add_assoc], hs.trans hs', hfq'.trans hfq,
        hnf'.trans hnf, by rw [hout', hout, List.append_assoc], fun y => ?_⟩
      rw [hhash', hhash]
      by_cases hyx : y = x
      · simp [hyx]
      · simp [hyx])
  obtain ⟨ha, hs, hfq, hnf, hout, hhash⟩ := hinv [] (List.append_nil _).symm
  have hself : p'.withQueue ([] ++ p.freeBlockQueue.drop n) = p' := by
    rw [List.nil_append, ← hfq, BlockPool.withQueue, hfq, hnum, ← hnf, ← hfq]
  rw [hself] at ha
  refine ⟨p', ?_, ha, hs, hfq, hout, hhash⟩
  unfold BlockPool.getNewBlocks
  rw [if_neg (by rw [BlockPool.getNumFreeBlocks, h.numFree]; omega), if_neg (by omega)]
  dsimp only
  rw [hp']
  rfl

lemma count_singleton_of_ne {x : Nat} (h : x ≠ b) : [b].count x = 0 :=
  List.count_eq_zero.2 fun hm => h (List.mem_singleton.1 hm)

/-- A cached block, or the null block, gets one more reference; it leaves the queue if it was free. -/
lemma Accounts.touchBlock (h : Accounts p held) (hb : b = 0 ∨ p.blockHash b ≠ none) :
    ∃ p', BlockPool.touchBlock p b = .ok p' ∧ Accounts p' (fun x => held x + [b].count x) ∧ SamePool p p' ∧
      p'.handedOut = p.handedOut ∧ (∀ x, p'.blockHash x = p.blockHash x) ∧
      p.freeBlockQueue.length ≤ p'.freeBlockQueue.length + [b].countP (fun x => p.refCnt x = 0 ∧ x ≠ 0) := by
  have hhash : ∀ x n, (p.setRefCnt b n).blockHash x = p.blockHash x := fun x n =>
    BlockPool.blockHash_setRefCnt p b n x
  have hsingle : ∀ x, x ≠ 0 → p.blockHash x = none → held x + [b].count x ≤ 1 := by
    intro x h0 hx
    have hxb : x ≠ b := fun he => hb.elim (fun hb => h0 (he.trans hb)) fun hb => hb (he ▸ hx)
    rw [count_singleton_of_ne hxb, Nat.add_zero]
    exact h.single x h0 hx
  have hrange : ∀ x, x ≠ 0 → 0 < held x + [b].count x → x < p.numGpuBlocks := by
    intro x h0 hx
    by_cases hxb : x = b
    · subst hxb
      obtain ⟨k, hk⟩ := Option.ne_none_iff_exists'.1 (hb.resolve_left h0)
      exact (h.hashRange x k hk).2
    · rw [count_singleton_of_ne hxb, Nat.add_zero] at hx
      exact h.range x h0 hx
  have hrefs : ∀ x, x ≠ 0 → (p.setRefCnt b (p.refCnt b + 1)).refCnt x = ((held x + [b].count x : Nat) : Int) := by
    intro x h0
    rw [BlockPool.refCnt_setRefCnt]
    by_cases hxb : x = b
    · subst hxb
      rw [if_pos rfl, h.refCnt x h0, List.count_singleton_self, Nat.cast_add, Nat.cast_one]
    · rw [if_neg hxb, count_singleton_of_ne hxb, Nat.add_zero, h.refCnt x h0]
  unfold BlockPool.touchBlock
  by_cases hfree : p.refCnt b = 0 ∧ b ≠ 0
  · have hheld : held b = 0 := by
      have := h.refCnt b hfree.2
      rw [hfree.1] at this
      exact_mod_cast this.symm
    obtain ⟨k, hk⟩ := Option.ne_none_iff_exists'.1 (hb.resolve_left hfree.2)
    have hmem : b ∈ p.freeBlockQueue := (h.mem_queue b).2 ⟨hfree.2, (h.hashRange b k hk).2, hheld⟩
    rw [if_pos hfree, if_pos hmem]
    refine ⟨_, rfl, ⟨h.nodup.erase b, fun x => ?_, ?_, hrefs, hrange, h.wf, fun x k => ?_, fun x k hx => ?_,
      fun x h0 hx => hsingle x h0 ?_, fun hc x => ?_, h.handedOut⟩, ⟨rfl, rfl⟩, rfl, fun x => hhash x _, ?_⟩
    · change x ∈ p.freeBlockQueue.erase b ↔ x ≠ 0 ∧ x < p.numGpuBlocks ∧ held x + [b].count x = 0
      rw [h.nodup.mem_erase_iff, h.mem_queue]
      by_cases hxb : x = b
      · subst hxb
        simp
      · simp [count_singleton_of_ne hxb, hxb]
    · change p.numFreeBlocks - 1 = ((p.freeBlockQueue.erase b).length : Int)
      have hpos := List.length_pos_of_mem hmem
      rw [List.length_erase_of_mem hmem, h.numFree]
      omega
    · exact (hhash x _).symm ▸ h.stored x k
    · exact h.hashRange x k ((hhash x _).symm.trans hx)
    · exact (hhash x _).symm.trans hx
    · exact (hhash x _).trans (h.plain hc x)
    · change _ ≤ (p.freeBlockQueue.erase b).length + _
      rw [List.length_erase_of_mem hmem, List.countP_singleton]
      simp only [hfree, ne_eq, not_false_eq_true, and_self, decide_true, if_true]
      omega
  · rw [if_neg hfree]
    refine ⟨_, rfl, ⟨h.nodup, fun x => ?_, h.numFree, hrefs, hrange, h.wf, fun x k => ?_, fun x k hx => ?_,
      fun x h0 hx => hsingle x h0 ?_, fun hc x => ?_, h.handedOut⟩, ⟨rfl, rfl⟩, rfl, fun x => hhash x _,
      Nat.le_add_right _ _⟩
    · change x ∈ p.freeBlockQueue ↔ _
      rw [h.mem_queue]
      by_cases hxb : x = b
      · subst hxb
        have hne : ¬ (x ≠ 0 ∧ held x = 0) := by
          rintro ⟨h0, hz⟩
          exact hfree ⟨by rw [h.refCnt x h0, hz]; rfl, h0⟩
        simp only [List.count_singleton_self]
        exact iff_of_false (fun hx => hne ⟨hx.1, hx.2.2⟩) fun hx => Nat.succ_ne_zero _ hx.2.2
      · rw [count_singleton_of_ne hxb, Nat.add_zero]
        exact Iff.rfl
    · exact (hhash x _).symm ▸ h.stored x k
    · exact h.hashRange x k ((hhash x _).symm.trans hx)
    · exact (hhash x _).symm.trans hx
    · exact (hhash x _).trans (h.plain hc x)

/-- `touch` on cached blocks and the null block. -/
lemma Accounts.touch {bs : List (List Nat)} (h : Accounts p held)
    (hb : ∀ b ∈ bs.flatten, b = 0 ∨ p.blockHash b ≠ none) :
    ∃ p', p.touch bs = .ok p' ∧ Accounts p' (fun x => held x + bs.flatten.count x) ∧ SamePool p p' ∧
      p'.handedOut = p.handedOut ∧ (∀ x, p'.blockHash x = p.blockHash x) ∧
      p.freeBlockQueue.length ≤ p'.freeBlockQueue.length + bs.flatten.countP (fun x => p.refCnt x = 0 ∧ x ≠ 0) := by
  refine foldlM_ok (fun done (q : BlockPool η) => Accounts q (fun x => held x + done.count x) ∧ SamePool p q ∧
      q.handedOut = p.handedOut ∧ (∀ x, q.blockHash x = p.blockHash x) ∧
      p.freeBlockQueue.length ≤ q.freeBlockQueue.length + done.countP (fun x => p.refCnt x = 0 ∧ x ≠ 0))
    bs.flatten ⟨h.congr fun b _ => by rw [List.count_nil, Nat.add_zero], .refl p, rfl, fun _ => rfl,
      Nat.le_add_right _ _⟩ ?_
  rintro done x rest q hl ⟨ha, hs, hout, hhash, hlen⟩
  have hx : x = 0 ∨ q.blockHash x ≠ none := by
    rw [hhash]
    exact hb x (hl ▸ by simp)
  obtain ⟨q', hq', ha', hs', hout', hhash', hlen'⟩ := ha.touchBlock hx
  refine ⟨q', hq', ha'.congr fun b _ => by rw [List.count_append, Nat.add_assoc], hs.trans hs', hout'.trans hout,
    fun y => (hhash' y).trans (hhash y), ?_⟩
  -- what is free now was free before
  have hmono : [x].countP (fun x => q.refCnt x = 0 ∧ x ≠ 0) ≤ [x].countP (fun x => p.refCnt x = 0 ∧ x ≠ 0) := by
    refine List.countP_mono_left fun y _ hy => ?_
    obtain ⟨hy0, hyn⟩ := of_decide_eq_true hy
    have hq0 := ha.refCnt y hyn
    rw [hy0] at hq0
    have hz : held y = 0 := by
      have hz : held y + done.count y = 0 := by exact_mod_cast hq0.symm
      omega
    exact decide_eq_true ⟨by rw [h.refCnt y hyn, hz]; rfl, hyn⟩
  rw [List.countP_append]
  omega

omit [DecidableEq η] in
/-- The reference counts after the first loop of `free_blocks`. -/
lemma BlockPool.foldl_release (bs : List Nat) (p : BlockPool η) :
    (∀ x, (bs.foldl BlockPool.release p).refCnt x = p.refCnt x - bs.count x) ∧
      (∀ x, (bs.foldl BlockPool.release p).blockHash x = p.blockHash x) ∧
      bs.foldl BlockPool.release p = { p with blocks := (bs.foldl BlockPool.release p).blocks } := by
  induction bs generalizing p with
  | nil => simp
  | cons b bs ih =>
    obtain ⟨hr, hh, he⟩ := ih (p.release b)
    refine ⟨fun x => ?_, fun x => ?_, ?_⟩
    · rw [List.foldl_cons, hr, BlockPool.release, BlockPool.refCnt_setRefCnt, List.count_cons]
      by_cases hx : x = b
      · subst hx
        simp only [if_true, beq_self_eq_true, Nat.cast_add, Nat.cast_one]
        omega
      · simp [hx, Ne.symm hx]
    · rw [List.foldl_cons, hh, BlockPool.release, BlockPool.blockHash_setRefCnt]
    · rw [List.foldl_cons, he]
      rfl

/-- `free_blocks` gives back one reference per block; blocks nobody holds any more join the queue. -/
lemma Accounts.freeBlocks {bs : List Nat} (h : Accounts p fun x => held x + bs.count x)
    (hone : ∀ b, b ≠ 0 → bs.count b ≤ 1) :
    Accounts (p.freeBlocks bs) held ∧ SamePool p (p.freeBlocks bs) ∧ (p.freeBlocks bs).handedOut = p.handedOut ∧
      ∀ x, (p.freeBlocks bs).blockHash x = p.blockHash x := by
  obtain ⟨hr, hh, he⟩ := BlockPool.foldl_release bs p
  unfold BlockPool.freeBlocks
  generalize bs.foldl BlockPool.release p = q at hr hh he ⊢
  have hrefs : ∀ x, x ≠ 0 → q.refCnt x = held x := by
    intro x h0
    rw [hr, h.refCnt x h0]
    omega
  have hfreed : ∀ x, x ∈ bs.filter (fun b => q.refCnt b = 0 ∧ b ≠ 0) ↔ x ∈ bs ∧ x ≠ 0 ∧ held x = 0 := by
    intro x
    rw [List.mem_filter, decide_eq_true_iff]
    constructor
    · rintro ⟨hx, hz, h0⟩
      rw [hrefs x h0] at hz
      exact ⟨hx, h0, by exact_mod_cast hz⟩
    · rintro ⟨hx, h0, hz⟩
      exact ⟨hx, by rw [hrefs x h0, hz]; rfl, h0⟩
  have hnd : (bs.filter fun b => q.refCnt b = 0 ∧ b ≠ 0).Nodup := by
    refine List.nodup_iff_count_le_one.2 fun x => ?_
    by_cases hx : x ∈ bs.filter fun b => q.refCnt b = 0 ∧ b ≠ 0
    · exact (List.filter_sublist.count_le x).trans (hone x ((hfreed x).1 hx).2.1)
    · rw [List.count_eq_zero.2 hx]
      exact Nat.zero_le 1
  have hgpu : q.numGpuBlocks = p.numGpuBlocks := by rw [he]
  have hen : q.enableCaching = p.enableCaching := by rw [he]
  have hfq : q.freeBlockQueue = p.freeBlockQueue := by rw [he]
  have hnf : q.numFreeBlocks = p.numFreeBlocks := by rw [he]
  have hout : q.handedOut = p.handedOut := by rw [he]
  have hcache : q.cachedBlockHashToBlock = p.cachedBlockHashToBlock := by rw [he]
  have hzero : ∀ {x}, held x + bs.count x = 0 → held x = 0 := fun h => by omega
  refine ⟨⟨?_, fun x => ?_, ?_, hrefs, fun x h0 hx => ?_, hcache ▸ h.wf, fun x k => ?_, fun x k hx => ?_,
    fun x h0 hx => ?_, fun hc x => ?_, hout ▸ h.handedOut⟩, ⟨hgpu, hen⟩, hout, hh⟩
  · refine List.nodup_append.2 ⟨hfq ▸ h.nodup, hnd, fun x hx y hy hxy => ?_⟩
    subst hxy
    have hz := ((h.mem_queue x).1 (hfq ▸ hx)).2.2
    have hc := List.count_pos_iff.2 ((hfreed x).1 hy).1
    omega
  · change x ∈ q.freeBlockQueue ++ _ ↔ x ≠ 0 ∧ x < q.numGpuBlocks ∧ held x = 0
    rw [List.mem_append, hfreed, hfq, h.mem_queue, hgpu]
    constructor
    · rintro (⟨h0, hx, hz⟩ | ⟨hx, h0, hz⟩)
      · exact ⟨h0, hx, hzero hz⟩
      · have hc := List.count_pos_iff.2 hx
        exact ⟨h0, h.range x h0 (by omega), hz⟩
    · rintro ⟨h0, hx, hz⟩
      by_cases hm : x ∈ bs
      · exact .inr ⟨hm, h0, hz⟩
      · exact .inl ⟨h0, hx, by rw [hz, List.count_eq_zero.2 hm]⟩
  · change q.numFreeBlocks + _ = (((q.freeBlockQueue ++ _ : List Nat)).length : Int)
    rw [List.length_append, hfq, hnf, h.numFree, Nat.cast_add]
  · exact hgpu.symm ▸ h.range x h0 (Nat.lt_of_lt_of_le hx (Nat.le_add_right _ _))
  · change q.blockHash x = _ ↔ Stored q.cachedBlockHashToBlock k x
    rw [hh, hcache]
    exact h.stored x k
  · exact hgpu.symm ▸ h.hashRange x k ((hh x).symm.trans hx)
  · exact Nat.le_trans (Nat.le_add_right _ _) (h.single x h0 ((hh x).symm.trans hx))
  · exact (hh x).trans (h.plain (hen ▸ hc) x)

/-- A block without hash is cached. -/
lemma Accounts.cacheBlock {k : η} {g : Nat} (h : Accounts p held) (hc : p.enableCaching = true) (h0 : b ≠ 0)
    (hb : 0 < held b) (hn : p.blockHash b = none) :
    ∃ p', BlockPool.cacheBlock g p (b, k) = .ok p' ∧ Accounts p' held ∧ SamePool p p' ∧
      p'.handedOut = p.handedOut ∧ p'.freeBlockQueue = p.freeBlockQueue ∧
      ∀ x, p'.blockHash x = if x = b then some (k, g) else p.blockHash x := by
  have hhash : ∀ x, (p.setHash b (some (k, g))).blockHash x = if x = b then some (k, g) else p.blockHash x :=
    fun x => BlockPool.blockHash_setHash p b _ x
  unfold BlockPool.cacheBlock
  rw [hn]
  refine ⟨_, rfl, ⟨h.nodup, h.mem_queue, h.numFree, fun x hx => ?_, h.range, BlockHashToBlockMap.wf_insert h.wf,
    fun x k' => ?_, fun x k' hx => ?_, fun x hx0 hx => ?_, fun hc' => ?_, h.handedOut⟩, ⟨rfl, rfl⟩, rfl, rfl, hhash⟩
  · change (p.setHash b (some (k, g))).refCnt x = _
    rw [BlockPool.refCnt_setHash]
    exact h.refCnt x hx
  · change (p.setHash b (some (k, g))).blockHash x = _ ↔ Stored (p.cachedBlockHashToBlock.insert (k, g) b) k' x
    rw [hhash, BlockHashToBlockMap.stored_insert, ← h.stored]
    by_cases hx : x = b
    · subst hx
      simp [hn, eq_comm]
    · simp [hx]
  · change (p.setHash b (some (k, g))).blockHash x = _ at hx
    rw [hhash] at hx
    split at hx
    · next hxb =>
      subst hxb
      exact ⟨h0, h.range x h0 hb⟩
    · exact h.hashRange x k' hx
  · change (p.setHash b (some (k, g))).blockHash x = _ at hx
    rw [hhash] at hx
    split at hx
    · cases hx
    · exact h.single x hx0 hx
  · exact absurd (hc.symm.trans hc') Bool.noConfusion

/-- `cache_full_blocks` on blocks that are held, not null, not cached and pairwise distinct. -/
lemma Accounts.cacheFullBlocks {hashes : List η} {t : List Nat} {numCached numFull g : Nat}
    (h : Accounts p held) (hc : p.enableCaching = true) (hlen : numFull ≤ hashes.length)
    (hnd : ((t.take numFull).drop numCached).Nodup)
    (hb : ∀ b ∈ (t.take numFull).drop numCached, b ≠ 0 ∧ 0 < held b ∧ p.blockHash b = none) :
    ∃ p', p.cacheFullBlocks hashes t numCached numFull g = .ok p' ∧ Accounts p' held ∧ SamePool p p' ∧
      p'.handedOut = p.handedOut ∧ p'.freeBlockQueue = p.freeBlockQueue ∧
      (∀ i b, numCached ≤ i → i < numFull → t[i]? = some b →
        ∃ k, hashes[i]? = some k ∧ p'.blockHash b = some (k, g)) ∧
      ∀ x, x ∉ (t.take numFull).drop numCached → p'.blockHash x = p.blockHash x := by
  unfold BlockPool.cacheFullBlocks
  by_cases hle : numFull ≤ numCached
  · rw [if_pos hle]
    exact ⟨p, rfl, h, .refl p, rfl, rfl, fun i b hi hi' _ => absurd (hi.trans_lt hi') (not_lt.2 hle), fun _ _ => rfl⟩
  rw [if_neg hle, if_neg (not_lt.2 hlen)]
  set bs := (t.take numFull).drop numCached with hbs
  set l := bs.zip (hashes.drop numCached) with hl
  have hfst : l.map Prod.fst = bs := by
    rw [hl, List.map_fst_zip]
    simp only [hbs, List.length_drop, List.length_take]
    omega
  obtain ⟨p', hp', ha, hs, hout, hfq, hin, hother⟩ := foldlM_ok (f := BlockPool.cacheBlock g) (ε := Unit)
    (fun done (q : BlockPool η) => Accounts q held ∧ SamePool p q ∧ q.handedOut = p.handedOut ∧
      q.freeBlockQueue = p.freeBlockQueue ∧ (∀ e ∈ done, q.blockHash e.1 = some (e.2, g)) ∧
      ∀ x, x ∉ done.map Prod.fst → q.blockHash x = p.blockHash x)
    l (a := p) ⟨h, .refl p, rfl, rfl, nofun, fun _ _ => rfl⟩ (by
      rintro done e rest q hsplit ⟨ha, hs, hout, hfq, hin, hother⟩
      have hmem : e.1 ∈ bs := by
        rw [← hfst, hsplit]
        simp
      obtain ⟨h0, hheld, hn⟩ := hb e.1 hmem
      have hnew : e.1 ∉ done.map Prod.fst := by
        have hnd' := hnd
        rw [← hfst, hsplit, List.map_append, List.map_cons] at hnd'
        exact fun hm => (List.nodup_append.1 hnd').2.2 _ hm _ List.mem_cons_self rfl
      obtain ⟨q', hq', ha', hs', hout', hfq', hhash'⟩ :=
        ha.cacheBlock (k := e.2) (g := g) (hs.enableCaching.trans hc) h0 hheld ((hother _ hnew).trans hn)
      refine ⟨q', hq', ha', hs.trans hs', hout'.trans hout, hfq'.trans hfq, fun e' he' => ?_, fun x hx => ?_⟩
      · rw [hhash']
        rcases List.mem_append.1 he' with he' | he'
        · have hne : e'.1 ≠ e.1 := by
            intro heq
            exact hnew (heq ▸ List.mem_map_of_mem he')
          rw [if_neg hne]
          exact hin e' he'
        · rw [List.mem_singleton.1 he', if_pos rfl]
      · rw [List.map_append, List.mem_append, not_or] at hx
        have hne : x ≠ e.1 := by
          intro heq
          exact hx.2 (heq ▸ List.mem_singleton_self _)
        rw [hhash', if_neg hne]
        exact hother x hx.1)
  refine ⟨p', hp', ha, hs, hout, hfq, fun i b hi hi' hget => ?_, fun x hx => hother x (hfst ▸ hx)⟩
  obtain ⟨k, hk⟩ : ∃ k, hashes[i]? = some k := ⟨_, List.getElem?_eq_getElem (by omega)⟩
  refine ⟨k, hk, hin (b, k) ?_⟩
  refine List.mem_of_getElem? (i := i - numCached) ?_
  rw [hl, List.getElem?_zip_eq_some]
  refine ⟨?_, ?_⟩
  · rw [hbs, List.getElem?_drop, Nat.add_sub_of_le hi, List.getElem?_take_of_lt hi', hget]
  · rw [List.getElem?_drop, Nat.add_sub_of_le hi, hk]

/-- In a pool with all blocks free nobody holds a block. -/
lemma Accounts.held_eq_zero (h : Accounts p held) (hall : (p.numGpuBlocks : Int) - p.numFreeBlocks = 1)
    (h0 : b ≠ 0) : held b = 0 := by
  by_contra hb
  have hpos : 0 < held b := Nat.pos_of_ne_zero hb
  have hlt := h.range b h0 hpos
  -- the queue misses the null block and `b`
  have hnd : (0 :: b :: p.freeBlockQueue).Nodup := by
    refine List.nodup_cons.2 ⟨?_, List.nodup_cons.2 ⟨fun hm => hb (h.held_of_mem hm), h.nodup⟩⟩
    rw [List.mem_cons, not_or]
    exact ⟨Ne.symm h0, fun hm => h.ne_zero_of_mem hm rfl⟩
  have hsub : (0 :: b :: p.freeBlockQueue) ⊆ List.range p.numGpuBlocks := by
    intro x hx
    rw [List.mem_range]
    rcases List.mem_cons.1 hx with rfl | hx
    · omega
    · rcases List.mem_cons.1 hx with rfl | hx
      · exact hlt
      · exact ((h.mem_queue x).1 hx).2.1
  have hle := (hnd.subperm hsub).length_le
  rw [List.length_cons, List.length_cons, List.length_range] at hle
  have hnum := h.numFree
  omega

/-- Resetting takes all hashes away, or does nothing. -/
lemma Accounts.reset (h : Accounts p held) :
    Accounts p.resetPrefixCache.1 held ∧ SamePool p p.resetPrefixCache.1 ∧
      p.resetPrefixCache.1.handedOut = p.handedOut ∧
      (p.resetPrefixCache.1 = p ∨ ∀ x, p.resetPrefixCache.1.blockHash x = none) := by
  unfold BlockPool.resetPrefixCache
  split
  · exact ⟨h, .refl p, rfl, .inl rfl⟩
  · next hall =>
    rw [not_not] at hall
    refine ⟨⟨h.nodup, h.mem_queue, h.numFree, h.refCnt, h.range, fun k e he => ?_, fun x k => ?_,
      fun x k hx => (by cases hx), fun x h0 _ => ?_, fun _ _ => rfl, h.handedOut⟩, ⟨rfl, rfl⟩, rfl, .inr fun _ => rfl⟩
    · cases he
    · constructor
      · intro hx
        cases hx
      · rintro ⟨e, he, -⟩
        cases he
    · rw [h.held_eq_zero hall h0]
      exact Nat.zero_le 1

end Operations
end Gambit.KV
