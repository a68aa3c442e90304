import Gambit.KV.Calls
import Gambit.Lib.Machine

/-!
# The block pool over any sequence of calls

The calls of the scheduler drive the KV cache manager; a call that raises ends the run. What the pool must keep is
`Consistent`. It rests on `remove_skipped_blocks` taking only blocks out of a table that are cached: a skipped block
that is not cached yet is replaced by the null block, and `cache_blocks` then caches the null block. Rejected draft
tokens are not cached while accepted ones are computed, so a request can be computed one block further than it is
cached, and a chunk of local attention can end there.
-/

namespace Gambit.KV
open Gambit.Lib Gambit.Sched

variable {η : Type} [DecidableEq η]

/-- What the pool and the block tables keep. -/
structure KVCacheManager.Consistent (s : KVCacheManager η) : Prop where
  mem_queue : ∀ b, b ∈ s.blockPool.freeBlockQueue ↔ b ≠ 0 ∧ b < s.blockPool.numGpuBlocks ∧ s.blockPool.refCnt b = 0
  nodup_queue : s.blockPool.freeBlockQueue.Nodup
  numFreeBlocks : s.blockPool.getNumFreeBlocks = s.blockPool.freeBlockQueue.length
  refCnt : ∀ b, b ≠ 0 → s.blockPool.refCnt b = held s.managers b
  blockHash : ∀ b k, s.blockPool.blockHash b = some k ↔ Stored s.blockPool.cachedBlockHashToBlock k b
  shared : ∀ m ∈ s.managers, ∀ m' ∈ s.managers, ∀ rid rid' b, rid ≠ rid' → b ≠ 0 → b ∈ m.table rid →
    b ∈ m'.table rid' → s.blockPool.blockHash b ≠ none
  null : 0 ∉ s.blockPool.freeBlockQueue ∧ (∀ k, ¬ Stored s.blockPool.cachedBlockHashToBlock k 0) ∧
    0 ∉ s.blockPool.handedOut
  allFree : (∀ m ∈ s.managers, ∀ rid, m.table rid = []) →
    s.blockPool.getNumFreeBlocks = (s.blockPool.numGpuBlocks : Int) - 1

/-- Two holders in two tables are two references. -/
lemma two_le_held {ms : List SingleTypeManager} {m m' : SingleTypeManager} {rid rid' : ReqId} {b : Nat}
    (hm : m ∈ ms) (hm' : m' ∈ ms) (hne : rid ≠ rid') (hb : b ∈ m.table rid) (hb' : b ∈ m'.table rid') :
    2 ≤ held ms b := by
  have hpos : 1 ≤ (m.table rid).count b := List.count_pos_iff.2 hb
  have hpos' : 1 ≤ (m'.table rid').count b := List.count_pos_iff.2 hb'
  induction ms with
  | nil => cases hm
  | cons a ms ih =>
    rw [held_cons]
    rcases List.mem_cons.1 hm with rfl | hms
    · rcases List.mem_cons.1 hm' with rfl | hms'
      · have := m'.count_add_count_le_holds hne b
        omega
      · have h1 := m.count_le_holds rid b
        have h2 := m'.count_le_holds rid' b
        have h3 := holds_le_held hms' b
        omega
    · rcases List.mem_cons.1 hm' with rfl | hms'
      · have h1 := m.count_le_holds rid b
        have h2 := m'.count_le_holds rid' b
        have h3 := holds_le_held hms b
        omega
      · exact (ih hms hms').trans (Nat.le_add_left _ _)

/-- A manager without tables holds nothing. -/
lemma SingleTypeManager.holds_eq_zero {m : SingleTypeManager} (h : ∀ rid, m.table rid = []) (b : Nat) :
    m.holds b = 0 := by
  refine List.sum_eq_zero fun x hx => ?_
  obtain ⟨t, ht, rfl⟩ := List.mem_map.1 hx
  obtain ⟨⟨rid, t⟩, hmem, rfl⟩ := List.mem_map.1 ht
  have htab : m.table rid = t := by
    rw [SingleTypeManager.table, Dict.getD_eq, Dict.get?_eq_some.2 hmem, Option.getD_some]
  rw [← htab, h rid, List.count_nil]

/-- The invariant of the manager gives what the pool must keep. -/
lemma KVCacheManager.Inv.consistent {H : Hasher η} {s : KVCacheManager η} (h : s.Inv H)
    (hpos : 0 < s.blockPool.numGpuBlocks) : s.Consistent where
  mem_queue b := by
    rw [h.accounts.mem_queue]
    refine and_congr_right fun h0 => and_congr_right fun _ => ?_
    rw [h.accounts.refCnt b h0]
    exact Int.natCast_eq_zero.symm
  nodup_queue := h.accounts.nodup
  numFreeBlocks := h.accounts.numFree
  refCnt := h.accounts.refCnt
  blockHash := h.accounts.stored
  shared m hm m' hm' rid rid' b hne h0 hb hb' hnone := by
    have htwo := two_le_held hm hm' hne hb hb'
    have hone := h.accounts.single b h0 hnone
    omega
  null := by
    refine ⟨fun hq => h.accounts.ne_zero_of_mem hq rfl, fun k hst => ?_, h.accounts.handedOut⟩
    exact (h.accounts.hashRange 0 k ((h.accounts.stored 0 k).2 hst)).1 rfl
  allFree hempty := by
    have hheld : ∀ b, held s.managers b = 0 := by
      intro b
      refine List.sum_eq_zero fun x hx => ?_
      obtain ⟨m, hm, rfl⟩ := List.mem_map.1 hx
      exact SingleTypeManager.holds_eq_zero (hempty m hm) b
    -- the queue is a permutation of all blocks but the first
    have hperm : s.blockPool.freeBlockQueue.Perm (List.range s.blockPool.numGpuBlocks).tail := by
      refine (List.perm_ext_iff_of_nodup h.accounts.nodup (List.nodup_range.sublist (List.tail_sublist _))).2 fun b => ?_
      have hinit := (Accounts.init hpos s.blockPool.enableCaching (η := η)).mem_queue b
      rw [h.accounts.mem_queue, hheld b]
      exact hinit.symm
    have hlen := hperm.length_eq
    rw [List.length_tail, List.length_range] at hlen
    have hnum : s.blockPool.getNumFreeBlocks = s.blockPool.freeBlockQueue.length := h.accounts.numFree
    omega

/-- A call of the scheduler on the manager. -/
inductive Call where
  | getComputedBlocks (r : Request)
  | allocateSlots (r : Request) (numNew : Int) (numNewComputed : Nat) (newComputed : List (List Nat)) (lookahead : Nat)
    (delayCacheBlocks : Bool) (numEncoderTokens : Nat := 0)
  | cacheBlocks (r : Request) (numComputed : Nat)
  | getNumCommonPrefixBlocks (rid : ReqId)
  | free (rid : ReqId)
  | resetPrefixCache

namespace KVCacheManager

/-- The manager after a call. -/
def call (H : Hasher η) (s : KVCacheManager η) : Call → Except Unit (KVCacheManager η)
  | .getComputedBlocks r => (s.getComputedBlocks H r).map fun _ => s
  | .allocateSlots r numNew numNewComputed newComputed lookahead delay numEncoderTokens =>
    (s.allocateSlots H r numNew numNewComputed newComputed lookahead delay numEncoderTokens).map Prod.fst
  | .cacheBlocks r numComputed => s.cacheBlocks H r numComputed
  | .getNumCommonPrefixBlocks rid => .ok (s.getNumCommonPrefixBlocks rid).1
  | .free rid => s.free rid
  | .resetPrefixCache => .ok s.resetPrefixCache.1

/-- The calls the scheduler issues: slots are for some tokens, with no computed blocks or those just found for a
request without blocks, and no more tokens are cached than there are. -/
def Issued (H : Hasher η) (s : KVCacheManager η) : Call → Prop
  | .allocateSlots r numNew numNewComputed newComputed _ _ _ => numNew ≠ 0 ∧ Passed H s r numNewComputed newComputed
  | .cacheBlocks r numComputed => numComputed ≤ r.numTokens
  | _ => True

instance (H : Hasher η) (s : KVCacheManager η) : (c : Call) → Decidable (Issued H s c)
  | .getComputedBlocks _ => inferInstanceAs (Decidable True)
  | .allocateSlots .. => inferInstanceAs (Decidable (_ ∧ _))
  | .cacheBlocks .. => inferInstanceAs (Decidable (_ ≤ _))
  | .getNumCommonPrefixBlocks _ => inferInstanceAs (Decidable True)
  | .free _ => inferInstanceAs (Decidable True)
  | .resetPrefixCache => inferInstanceAs (Decidable True)

/-- No block is skipped that is not in the table or, with caching, not cached. -/
def SafeCall (s : KVCacheManager η) : Call → Prop
  | .allocateSlots r _ _ _ _ _ _ => s.Safe r.requestId r.numComputedTokens
  | _ => True

instance (s : KVCacheManager η) : (c : Call) → Decidable (s.SafeCall c)
  | .getComputedBlocks _ => inferInstanceAs (Decidable True)
  | .allocateSlots .. => inferInstanceAs (Decidable (s.Safe _ _))
  | .cacheBlocks .. => inferInstanceAs (Decidable True)
  | .getNumCommonPrefixBlocks _ => inferInstanceAs (Decidable True)
  | .free _ => inferInstanceAs (Decidable True)
  | .resetPrefixCache => inferInstanceAs (Decidable True)

/-- Python `KVCacheManager.__init__`, with the groups of the configuration. -/
def init (maxModelLen : Nat) (useEagle : Bool) (numGpuBlocks : Nat) (enableCaching : Bool)
    (groups : List (AttentionSpec × Nat)) : KVCacheManager η where
  maxModelLen := maxModelLen
  useEagle := useEagle
  blockPool := .init numGpuBlocks enableCaching
  managers := groups.mapIdx fun i g => { spec := g.1, blockSize := g.2, groupId := i }

/-- A call keeps the invariant and does not raise. -/
lemma Inv.call {H : Hasher η} {s : KVCacheManager η} {c : Call} (h : s.Inv H) (inj : H.Injective)
    (hissued : Issued H s c) (hsafe : s.SafeCall c) :
    ∃ s', s.call H c = .ok s' ∧ s'.Inv H ∧ SameShape s s' := by
  cases c with
  | getComputedBlocks r =>
    obtain ⟨cols, len, hok, -⟩ := h.shaped.getComputedBlocks r
    refine ⟨s, ?_, h, .refl s⟩
    rw [KVCacheManager.call, hok]
    rfl
  | allocateSlots r numNew numNewComputed newComputed lookahead delay numEncoderTokens =>
    rcases h.allocateSlots lookahead delay numEncoderTokens inj hissued.1 hissued.2 hsafe with
      ⟨s', hok, h', hsk⟩ | ⟨s', new, hok, h', ⟨hg⟩⟩
    · refine ⟨s', ?_, h', hsk.shape⟩
      rw [KVCacheManager.call, hok]
      rfl
    · refine ⟨s', ?_, h', ?_⟩
      · rw [KVCacheManager.call, hok]
        rfl
      · have hshape := (hg.hskipped.shape.trans hg.htaken.shape).trans hg.hextended.shape
        rcases hg.hregistered with ⟨-, -, hreg⟩ | ⟨-, he⟩
        · exact hshape.trans hreg.shape
        · rw [he]
          exact hshape
  | cacheBlocks r numComputed =>
    cases hc : s.blockPool.enableCaching with
    | true =>
      obtain ⟨s', hok, h', hreg⟩ := h.cacheBlocks (r := r) hc (Int.ofNat_le.2 hissued)
      exact ⟨s', hok, h', hreg.shape⟩
    | false =>
      refine ⟨s, ?_, h, .refl s⟩
      rw [KVCacheManager.call, KVCacheManager.cacheBlocks, hc]
      rfl
  | getNumCommonPrefixBlocks rid =>
    obtain ⟨h', hshape⟩ := h.getNumCommonPrefixBlocks rid
    exact ⟨_, rfl, h', hshape⟩
  | free rid =>
    obtain ⟨s', hok, h', hf⟩ := h.free rid
    exact ⟨s', hok, h', hf.shape⟩
  | resetPrefixCache =>
    obtain ⟨h', hshape⟩ := h.resetPrefixCache
    exact ⟨_, rfl, h', hshape⟩

/-- A new manager keeps the invariant. -/
lemma Inv.init {H : Hasher η} {maxModelLen numGpuBlocks : Nat} {useEagle enableCaching : Bool}
    {groups : List (AttentionSpec × Nat)} (hpos : 0 < numGpuBlocks)
    (hshape : (KVCacheManager.init maxModelLen useEagle numGpuBlocks enableCaching groups : KVCacheManager η).Shaped H) :
    (KVCacheManager.init maxModelLen useEagle numGpuBlocks enableCaching groups : KVCacheManager η).Inv H := by
  have htable : ∀ m ∈ (KVCacheManager.init maxModelLen useEagle numGpuBlocks enableCaching groups : KVCacheManager η).managers,
      ∀ rid, m.table rid = [] := by
    intro m hm rid
    obtain ⟨i, hi, rfl⟩ := List.mem_mapIdx.1 hm
    rfl
  refine ⟨hshape, (Accounts.init hpos enableCaching).congr fun b _ => ?_, fun m hm => ⟨fun rid b _ => ?_, ?_⟩,
    fun rid => ⟨0, fun m hm => ?_⟩⟩
  · refine List.sum_eq_zero fun x hx => ?_
    obtain ⟨m, hm, rfl⟩ := List.mem_map.1 hx
    exact SingleTypeManager.holds_eq_zero (htable m hm) b
  · rw [htable m hm]
    exact Nat.zero_le 1
  · intro _ rid i b _ hget
    rw [htable m hm] at hget
    cases hget
  · rw [htable m hm]
    exact (cdiv_zero _).symm

end KVCacheManager

/-- The manager driven by calls; nothing follows a call that raised. -/
def kvMachine (H : Hasher η) (s : KVCacheManager η) : Machine (Except Unit (KVCacheManager η)) Call Unit where
  init := .ok s
  next t c := (t.bind fun s => s.call H c, ())
  ok _ _ := True

/-- A condition on a call and the manager it meets, if there is one. -/
def OnManager (P : KVCacheManager η → Call → Prop) : Except Unit (KVCacheManager η) → Call → Prop
  | .ok s, c => P s c
  | .error _, _ => True

instance (P : KVCacheManager η → Call → Prop) [∀ s c, Decidable (P s c)] :
    (t : Except Unit (KVCacheManager η)) → (c : Call) → Decidable (OnManager P t c)
  | .ok s, c => inferInstanceAs (Decidable (P s c))
  | .error _, _ => inferInstanceAs (Decidable True)

/-- A run of issued calls that skip only cached blocks does not raise and keeps the invariant. -/
lemma KVCacheManager.Inv.run {H : Hasher η} {s₀ : KVCacheManager η} (h : s₀.Inv H) (inj : H.Injective)
    {calls : List Call} {o : List Unit} {t : Except Unit (KVCacheManager η)} (run : (kvMachine H s₀).Runs calls o t)
    (issued : (kvMachine H s₀).Along (OnManager (KVCacheManager.Issued H)) calls)
    (safe : (kvMachine H s₀).Along (OnManager KVCacheManager.SafeCall) calls) :
    ∃ s, t = .ok s ∧ s.Inv H ∧ KVCacheManager.SameShape s₀ s := by
  induction run with
  | init => exact ⟨s₀, rfl, h, .refl s₀⟩
  | step run _ ih =>
    obtain ⟨issued, hi⟩ := run.along_concat_iff.1 issued
    obtain ⟨safe, hs⟩ := run.along_concat_iff.1 safe
    obtain ⟨s, rfl, h', hshape⟩ := ih issued safe
    obtain ⟨s', hok, h'', hshape'⟩ := h'.call inj hi hs
    exact ⟨s', hok, h'', hshape.trans hshape'⟩

/-- In every run of calls the scheduler issues, while only cached blocks are skipped, no call raises and the pool and
the block tables stay consistent. -/
theorem consistent_of_run {H : Hasher η} (inj : H.Injective) {maxModelLen numGpuBlocks : Nat}
    {useEagle enableCaching : Bool} {groups : List (AttentionSpec × Nat)} (hpos : 0 < numGpuBlocks)
    (hshape : (KVCacheManager.init maxModelLen useEagle numGpuBlocks enableCaching groups : KVCacheManager η).Shaped H)
    {calls : List Call} {o : List Unit} {t : Except Unit (KVCacheManager η)}
    (run : (kvMachine H (.init maxModelLen useEagle numGpuBlocks enableCaching groups)).Runs calls o t)
    (issued : (kvMachine H (.init maxModelLen useEagle numGpuBlocks enableCaching groups)).Along
      (OnManager (KVCacheManager.Issued H)) calls)
    (safe : (kvMachine H (.init maxModelLen useEagle numGpuBlocks enableCaching groups)).Along
      (OnManager KVCacheManager.SafeCall) calls) :
    ∃ s, t = .ok s ∧ s.Consistent := by
  obtain ⟨s, ht, h, hs⟩ := (KVCacheManager.Inv.init hpos hshape).run inj run issued safe
  exact ⟨s, ht, h.consistent (hs.pool.numGpuBlocks ▸ hpos)⟩

/-- A full and a chunked local group with chunks of one block. -/
lemma shaped_chunked : (KVCacheManager.init 100 false 8 true [(.full, 4), (.chunkedLocal 4, 4)] :
    KVCacheManager BlockChain).Shaped (.chain 4) where
  groupIds := rfl
  blockSize_pos := by decide
  blockSize _ := by decide
  eagle he := by cases he
  attention := by
    intro m hm
    fin_cases hm <;> exact ⟨nofun, nofun⟩
  kinds _ := by
    refine .inr ⟨[{ spec := .full, blockSize := 4, groupId := 0 }],
      [{ spec := .chunkedLocal 4, blockSize := 4, groupId := 1 }], ?_, ?_, ?_, ?_, .inl rfl⟩
    · exact List.cons_ne_nil _ _
    · exact List.cons_ne_nil _ _
    · decide
    · decide

/-- A prompt of two chunks, one step after another. -/
theorem consistent_of_run_chunked :
    let H := Hasher.chain 4
    let r : Request := { requestId := ['a'], promptTokenIds := [1, 1, 1, 1, 1, 1] }
    let calls : List Call := [.getComputedBlocks r, .allocateSlots r 6 0 [[], []] 0 false,
      .allocateSlots { r with outputTokenIds := [2], numComputedTokens := 6 } 1 0 [[], []] 0 false,
      .free ['a'], .allocateSlots { r with requestId := ['b'] } 2 4 [[1], [0]] 0 false]
    ∃ s, ((kvMachine H (.init 100 false 8 true [(.full, 4), (.chunkedLocal 4, 4)])).exec calls).2 = .ok s ∧
      s.Consistent := by
  intro H r calls
  refine consistent_of_run (Hasher.injective_chain 4) (by decide) shaped_chunked (Machine.Runs.of_exec ?_) ?_ ?_
  · exact ⟨trivial, trivial, trivial, trivial, trivial, trivial⟩
  · decide
  · decide

/-- Three tokens are computed at once, of which two were drafts when the slots were allocated: then the second block
is full but not cached, the next call skips it, and the null block is cached in its place. -/
theorem null_block_cached :
    let H := Hasher.chain 4
    let M := kvMachine H (.init 100 false 8 true [(.full, 4), (.chunkedLocal 4, 4)])
    let r : Request := { requestId := ['a'], promptTokenIds := [1, 1, 1, 1, 1, 1] }
    let calls : List Call := [.getComputedBlocks r, .allocateSlots r 6 0 [[], []] 0 false,
      .allocateSlots { r with outputTokenIds := [2], specTokenIds := [3, 4], numComputedTokens := 6 } 3 0 [[], []] 0
        false,
      .allocateSlots { r with outputTokenIds := [2, 3, 4, 5], numComputedTokens := 9 } 1 0 [[], []] 0 false]
    H.Injective ∧
      (KVCacheManager.init 100 false 8 true [(.full, 4), (.chunkedLocal 4, 4)] : KVCacheManager BlockChain).Shaped H ∧
      M.Along (OnManager (KVCacheManager.Issued H)) calls ∧
      ∃ o s, M.Runs calls o (.ok s) ∧ ¬ s.Consistent := by
  intro H M r calls
  have run : M.Runs calls (M.exec calls).1 (M.exec calls).2 :=
    Machine.Runs.of_exec ⟨trivial, trivial, trivial, trivial, trivial⟩
  have hend : (M.exec calls).2.map (fun s => Dict.get? s.blockPool.cachedBlockHashToBlock
      (.next (.first [1, 1, 1, 1] []) [1, 1, 2, 3] [], 1)) = .ok (some (.one 0)) := by
    decide
  cases hs : (M.exec calls).2 with
  | error _ =>
    rw [hs] at hend
    cases hend
  | ok s =>
    rw [hs] at run hend
    refine ⟨Hasher.injective_chain 4, shaped_chunked, by decide, _, s, run, fun h => ?_⟩
    exact h.null.2.1 _ ⟨.one 0, Except.ok.inj hend, List.mem_singleton_self 0⟩

end Gambit.KV
