import Gambit.KV.Safety
import Gambit.KV.Sound
import Gambit.Lib.Loop

/-!
# The blocks behind the computed tokens

A request may be computed as far as its tables reach, and with caching as far as its full blocks have their
hashes (`Backed`). Then the blocks that `remove_skipped_blocks` takes out of the tables are those it may take
(`Backed.safe`), and slots that were granted back the tokens they were granted for (`Granted.backed`). A call
about one request touches no other one (`allocateSlots_untouched`).
-/

namespace Gambit.KV
open Gambit.Lib Gambit.Sched SingleTypeManager

variable {η : Type} [DecidableEq η]

/-- A group in which a request was left alone. -/
structure SingleTypeManager.Untouched (x : ReqId) (m m' : SingleTypeManager) : Prop where
  group : SameGroup m m'
  table : m'.table x = m.table x
  cached : m'.numCachedBlock.get? x = m.numCachedBlock.get? x

namespace SingleTypeManager
variable {x rid : ReqId} {m m' m'' : SingleTypeManager} {p p' : BlockPool η}

lemma Untouched.refl (x : ReqId) (m : SingleTypeManager) : Untouched x m m := ⟨.refl m, rfl, rfl⟩

lemma Untouched.trans (h : Untouched x m m') (h' : Untouched x m' m'') : Untouched x m m'' :=
  ⟨h.group.trans h'.group, h'.table.trans h.table, h'.cached.trans h.cached⟩

/-- The number of cached blocks of the request. -/
lemma Untouched.numCached (h : Untouched x m m') : m'.numCached x = m.numCached x := by
  rw [SingleTypeManager.numCached, SingleTypeManager.numCached, Dict.getD_eq, Dict.getD_eq, h.cached]

lemma untouched_setTable (hx : x ≠ rid) (m : SingleTypeManager) (t : List Nat) : Untouched x m (m.setTable rid t) :=
  ⟨⟨rfl, rfl, rfl⟩, by rw [table_setTable, if_neg hx], rfl⟩

lemma untouched_setCached (hx : x ≠ rid) (m : SingleTypeManager) (n : Nat) : Untouched x m (m.setCached rid n) := by
  refine ⟨⟨rfl, rfl, rfl⟩, rfl, ?_⟩
  rw [setCached, Dict.get?_set, if_neg hx]

lemma untouched_withEntry (x : ReqId) (m : SingleTypeManager) (rid : ReqId) : Untouched x m (m.withEntry rid) :=
  ⟨m.sameGroup_withEntry rid, m.table_withEntry rid x, by rw [numCachedBlock_withEntry]⟩

lemma untouched_dropTable (hx : x ≠ rid) (m : SingleTypeManager) : Untouched x m (m.dropTable rid) := by
  refine ⟨⟨rfl, rfl, rfl⟩, by rw [table_dropTable, if_neg hx], ?_⟩
  rw [dropTable, Dict.get?_erase, if_neg hx]

omit [DecidableEq η] in
lemma removeSkippedBlocks_untouched {n : Int} {a : Unit} (hx : x ≠ rid)
    (hok : m.removeSkippedBlocks p rid n = .ok (m', p', a)) : Untouched x m m' := by
  unfold SingleTypeManager.removeSkippedBlocks at hok
  split at hok
  · cases hok
    exact .refl x m
  split at hok
  · cases hok
  · cases hok
    exact untouched_setTable hx m _

lemma allocateNewBlocks_untouched {n : Int} {a : List Nat} (hx : x ≠ rid)
    (hok : m.allocateNewBlocks p rid n = .ok (m', p', a)) : Untouched x m m' := by
  unfold SingleTypeManager.allocateNewBlocks at hok
  dsimp only at hok
  split at hok
  · cases hok
    exact untouched_withEntry x m rid
  · obtain ⟨⟨q, new⟩, -, hrest⟩ := bind_eq_ok.1 hok
    cases hrest
    exact untouched_setTable hx m _

lemma cacheBlocks_untouched {hashes : List η} {n : Int} {a : Unit} (hx : x ≠ rid)
    (hok : m.cacheBlocks p rid hashes n = .ok (m', p', a)) : Untouched x m m' := by
  unfold SingleTypeManager.cacheBlocks at hok
  dsimp only at hok
  split at hok
  · cases hok
  split at hok
  · cases hok
    exact .refl x m
  · obtain ⟨q, -, hrest⟩ := bind_eq_ok.1 hok
    cases hrest
    refine (untouched_withEntry x m rid).trans ⟨⟨rfl, rfl, rfl⟩, rfl, ?_⟩
    rw [numCachedBlock_withEntry, Dict.get?_set, if_neg hx]

lemma saveNewComputedBlocks_untouched {col : List Nat} (hx : x ≠ rid)
    (hok : m.saveNewComputedBlocks rid col = .ok m') : Untouched x m m' := by
  unfold SingleTypeManager.saveNewComputedBlocks at hok
  split_ifs at hok
  · cases hok
    exact .refl x m
  · cases hok
    exact .refl x m
  · cases hok
    exact (untouched_setTable hx m col).trans (untouched_setCached hx (m.setTable rid col) _)

end SingleTypeManager

omit [DecidableEq η] in
/-- The rule for loops over the groups that look at one group at a time. -/
lemma forManagers_forall₂ {α : Type}
    {f : SingleTypeManager → BlockPool η → Except Unit (SingleTypeManager × BlockPool η × α)}
    {R : SingleTypeManager → SingleTypeManager → Prop} {ms ms' : List SingleTypeManager} {p p' : BlockPool η}
    {as : List α} (hok : forManagers f ms p = .ok (ms', p', as))
    (hf : ∀ m p m' p' a, f m p = .ok (m', p', a) → R m m') : List.Forall₂ R ms ms' := by
  induction ms generalizing p ms' as with
  | nil =>
    cases hok
    exact .nil
  | cons m ms ih =>
    rw [forManagers] at hok
    obtain ⟨⟨m₁, p₁, a⟩, h₁, hok⟩ := bind_eq_ok.1 hok
    obtain ⟨⟨ms₁, p₂, as₁⟩, h₂, hok⟩ := bind_eq_ok.1 hok
    cases hok
    exact .cons (hf m p m₁ p₁ a h₁) (ih h₂)

namespace KVCacheManager
variable {H : Hasher η} {s s' s'' : KVCacheManager η} {x rid : ReqId} {r : Request}

/-- A manager in which a request was left alone. -/
def Untouched (x : ReqId) (s s' : KVCacheManager η) : Prop :=
  List.Forall₂ (SingleTypeManager.Untouched x) s.managers s'.managers

omit [DecidableEq η] in
lemma Untouched.refl (x : ReqId) (s : KVCacheManager η) : s.Untouched x s :=
  List.forall₂_same.2 fun m _ => .refl x m

omit [DecidableEq η] in
lemma Untouched.trans (h : s.Untouched x s') (h' : s'.Untouched x s'') : s.Untouched x s'' :=
  forall₂_trans (fun _ _ _ hab hbc => hab.trans hbc) h h'

omit [DecidableEq η] in
lemma Freed.untouched (h : Freed rid s s') (hx : x ≠ rid) : s.Untouched x s' := by
  rw [Untouched, h.managers, List.forall₂_map_right_iff, List.forall₂_same]
  exact fun m _ => untouched_dropTable hx m

omit [DecidableEq η] in
lemma Skipped.untouched (h : Skipped rid s s') (hx : x ≠ rid) : s.Untouched x s' :=
  h.groups.imp fun _ _ hm => ⟨hm.group, hm.other x hx, by rw [hm.numCachedBlock]⟩

/-- Computed blocks go to their request. -/
lemma saveAll_untouched {ms ms' : List SingleTypeManager} {cols : List (List Nat)} (hx : x ≠ rid)
    (hlen : ms.length ≤ cols.length)
    (hok : (ms.zip cols).mapM (fun e => e.1.saveNewComputedBlocks rid e.2) = .ok ms') :
    List.Forall₂ (SingleTypeManager.Untouched x) ms ms' := by
  induction ms generalizing cols ms' with
  | nil =>
    cases hok
    exact .nil
  | cons m ms ih =>
    cases cols with
    | nil => exact absurd hlen (Nat.not_succ_le_zero _)
    | cons col cols =>
      rw [List.zip_cons_cons, List.mapM_cons] at hok
      obtain ⟨m₁, h₁, hok⟩ := bind_eq_ok.1 hok
      obtain ⟨ms₁, h₂, hok⟩ := bind_eq_ok.1 hok
      cases hok
      exact .cons (saveNewComputedBlocks_untouched hx h₁) (ih (Nat.le_of_succ_le_succ hlen) h₂)

omit [DecidableEq η] in
/-- Skipped blocks leave the tables of their request. -/
lemma untouched_of_skip {n : Int} (hx : x ≠ rid) (hok : s.removeSkippedBlocks rid n = .ok s') :
    s.Untouched x s' := by
  unfold KVCacheManager.removeSkippedBlocks at hok
  obtain ⟨⟨ms, p, as⟩, hf, hok⟩ := bind_eq_ok.1 hok
  cases hok
  exact forManagers_forall₂ hf fun m p m' p' a h => removeSkippedBlocks_untouched hx h

omit [DecidableEq η] in
/-- Computed blocks go into the tables of their request. -/
lemma untouched_of_take {cols : List (List Nat)} (hx : x ≠ rid) (hlen : s.managers.length ≤ cols.length)
    (hok : s.takeComputedBlocks rid cols = .ok s') : s.Untouched x s' := by
  unfold KVCacheManager.takeComputedBlocks at hok
  split at hok
  · cases hok
    exact .refl x s
  split at hok
  · cases hok
  · obtain ⟨p, -, hok⟩ := bind_eq_ok.1 hok
    obtain ⟨ms, hms, hok⟩ := bind_eq_ok.1 hok
    cases hok
    exact saveAll_untouched hx hlen hms

/-- New blocks go into the tables of their request. -/
lemma untouched_of_extend {n : Int} {enc : Nat} {new : List (List Nat)} (hx : x ≠ rid)
    (hok : s.allocateNewBlocks rid n enc = .ok (s', new)) : s.Untouched x s' := by
  unfold KVCacheManager.allocateNewBlocks at hok
  obtain ⟨⟨ms, p, as⟩, hf, hok⟩ := bind_eq_ok.1 hok
  cases hok
  exact forManagers_forall₂ hf fun m p m' p' a h => allocateNewBlocks_untouched hx h

/-- Full blocks are counted for their request. -/
lemma untouched_of_cache {n : Int} (hx : x ≠ r.requestId) (hok : s.cacheBlocks H r n = .ok s') :
    s.Untouched x s' := by
  unfold KVCacheManager.cacheBlocks at hok
  split at hok
  · obtain ⟨⟨ms, p, as⟩, hf, hok⟩ := bind_eq_ok.1 hok
    cases hok
    exact forManagers_forall₂ hf fun m p m' p' a h => cacheBlocks_untouched hx h
  · cases hok
    exact .refl x s

/-- Slots are about their request. -/
lemma allocateSlots_untouched {numNew : Int} {numNewComputed lookahead enc : Nat} {cols : List (List Nat)}
    {delay : Bool} {new : Option (List (List Nat))} (hx : x ≠ r.requestId)
    (hlen : s.managers.length ≤ cols.length)
    (hok : s.allocateSlots H r numNew numNewComputed cols lookahead delay enc = .ok (s', new)) :
    s.Untouched x s' := by
  obtain ⟨-, skipped, hsk, hrest⟩ := stages_of_ok hok
  have h₁ : s.Untouched x (skipped.withEntries r.requestId) :=
    (untouched_of_skip hx hsk).trans
      (List.forall₂_map_right_iff.2 (List.forall₂_same.2 fun m _ => untouched_withEntry x m r.requestId))
  rcases hrest with ⟨-, rfl, -⟩ | ⟨-, taken, extended, blocks, htk, hex, -, hend⟩
  · exact h₁
  have hlen' : (skipped.withEntries r.requestId).managers.length ≤ cols.length := by
    rw [← List.Forall₂.length_eq h₁]
    exact hlen
  have h₂ : s.Untouched x extended :=
    (h₁.trans (untouched_of_take hx hlen' htk)).trans (untouched_of_extend hx hex)
  rcases hend with ⟨-, rfl⟩ | ⟨-, hca⟩
  · exact h₂
  · exact h₂.trans (untouched_of_cache hx hca)

omit [DecidableEq η] in
/-- A request that was left alone stays unknown. -/
lemma Unknown.untouched (h : s.Unknown x) (hu : s.Untouched x s') : s'.Unknown x := by
  intro m' hm'
  obtain ⟨m, hm, hmm⟩ := exists_left_of_forall₂ hu hm'
  obtain ⟨ht, hc⟩ := h m hm
  refine ⟨hmm.table.trans ht, ?_⟩
  rw [← Dict.get?_eq_none, hmm.cached, Dict.get?_eq_none]
  exact hc

omit [DecidableEq η] in
/-- A request that was freed is unknown. -/
lemma Freed.unknown (h : Freed rid s s') : s'.Unknown rid := by
  intro m' hm'
  rw [h.managers] at hm'
  obtain ⟨m, -, rfl⟩ := List.mem_map.1 hm'
  refine ⟨by rw [table_dropTable, if_pos rfl], fun hm => ?_⟩
  exact (Dict.mem_erase.1 hm).1 rfl

/-- The tables of a request reach over its first `n` tokens, and where the attention skips blocks the full ones
among them have their hashes. -/
def Backed (s : KVCacheManager η) (rid : ReqId) (n : Int) : Prop :=
  ∀ m ∈ s.managers, cdiv n m.blockSize ≤ (m.table rid).length ∧
    (s.blockPool.enableCaching = true → m.spec ≠ .full → n / m.blockSize ≤ m.numCached rid)

/-- Sliding windows are not empty. -/
def Windowed (s : KVCacheManager η) : Prop := ∀ m ∈ s.managers, ∀ w, m.spec = .slidingWindow w → 0 < w

omit [DecidableEq η] in
lemma Windowed.congr (h : s.Windowed) (hs : SameShape s s') : s'.Windowed := by
  intro m' hm' w hw
  obtain ⟨m, hm, hg⟩ := exists_left_of_forall₂ hs.groups hm'
  exact h m hm w (hg.spec ▸ hw)

omit [DecidableEq η] in
/-- A request that was left alone stays backed. -/
lemma Backed.untouched {n : Int} (h : s.Backed x n) (hu : s.Untouched x s') (hs : SameShape s s') :
    s'.Backed x n := by
  intro m' hm'
  obtain ⟨m, hm, hmm⟩ := exists_left_of_forall₂ hu hm'
  obtain ⟨h₁, h₂⟩ := h m hm
  rw [hmm.group.blockSize, hmm.table, hmm.group.spec, hmm.numCached, hs.pool.enableCaching]
  exact ⟨h₁, h₂⟩

omit [DecidableEq η] in
/-- Fewer tokens are backed as well. -/
lemma Backed.mono {n n' : Int} (h : s.Backed x n) (hpos : ∀ m ∈ s.managers, 0 < m.blockSize) (hle : n' ≤ n) :
    s.Backed x n' := by
  intro m hm
  obtain ⟨h₁, h₂⟩ := h m hm
  have hb : (0 : Int) < m.blockSize := by exact_mod_cast hpos m hm
  have h₃ := cdiv_mono hb hle
  have h₄ := Int.ediv_le_ediv hb hle
  exact ⟨by omega, fun hc hne => h₄.trans (h₂ hc hne)⟩

omit [DecidableEq η] in
/-- Tables keep their lengths when blocks are skipped. -/
lemma Backed.skipped {n : Int} (h : s.Backed x n) (hsk : Skipped rid s s') : s'.Backed x n := by
  intro m' hm'
  obtain ⟨m, hm, hmm⟩ := exists_left_of_forall₂ hsk.groups hm'
  obtain ⟨h₁, h₂⟩ := h m hm
  have hc : m'.numCached x = m.numCached x := by
    rw [SingleTypeManager.numCached, SingleTypeManager.numCached, hmm.numCachedBlock]
  rw [hmm.group.blockSize, hmm.length_table, hmm.group.spec, hc, hsk.shape.pool.enableCaching]
  exact ⟨h₁, h₂⟩

omit [DecidableEq η] in
/-- Nothing is skipped of a request the manager does not know. -/
lemma Unknown.skipped (h : s.Unknown x) (hsk : Skipped rid s s') : s'.Unknown x := by
  intro m' hm'
  obtain ⟨m, hm, hmm⟩ := exists_left_of_forall₂ hsk.groups hm'
  obtain ⟨ht, hc⟩ := h m hm
  refine ⟨?_, hmm.numCachedBlock ▸ hc⟩
  rw [← List.length_eq_zero_iff, hmm.length_table, ht, List.length_nil]

omit [DecidableEq η] in
/-- No tokens need no blocks. -/
lemma backed_zero (s : KVCacheManager η) (rid : ReqId) : s.Backed rid 0 := by
  intro m hm
  rw [cdiv_zero, Int.zero_ediv]
  exact ⟨Int.natCast_nonneg _, fun _ _ => Int.natCast_nonneg _⟩

omit [DecidableEq η] in
/-- No attention skips more tokens than there are. -/
lemma getNumSkippedTokens_le (hwin : s.Windowed) {m : SingleTypeManager} (hm : m ∈ s.managers) {n : Int} (hn : 0 ≤ n) :
    m.spec.getNumSkippedTokens n ≤ n := by
  cases hs : m.spec with
  | full => exact hn
  | slidingWindow w =>
    have := hwin m hm w hs
    unfold AttentionSpec.getNumSkippedTokens
    dsimp only
    omega
  | chunkedLocal c =>
    rcases Nat.eq_zero_or_pos c with rfl | hc
    · simpa [AttentionSpec.getNumSkippedTokens] using hn
    · exact Int.ediv_mul_le n (by exact_mod_cast hc.ne')
  | mamba k => exact hn
  | crossAttention => exact hn

lemma ediv_le_cdiv (n : Int) {b : Int} (hb : 0 < b) : n / b ≤ cdiv n b := by
  have h₁ := Int.ediv_mul_le n hb.ne'
  have h₂ := Int.ediv_mul_le (-n) hb.ne'
  have h₃ : (n / b + -n / b) * b ≤ 0 := by
    rw [Int.add_mul]
    omega
  have h₄ : n / b + -n / b ≤ 0 := by
    by_contra hpos
    have := Int.mul_pos (not_le.1 hpos) hb
    omega
  unfold cdiv
  omega

/-- The tokens of `cdiv` blocks. -/
lemma le_cdiv_mul (n : Int) {b : Int} (hb : 0 < b) : n ≤ cdiv n b * b := by
  have h := Int.ediv_mul_le (-n) hb.ne'
  unfold cdiv
  rw [Int.neg_mul]
  omega

omit [DecidableEq η] in
/-- The blocks before the attention of the next token of a backed request may be taken. -/
lemma Backed.safe {n : Int} (h : s.Backed rid n) (hs : s.Shaped H) (hwin : s.Windowed) (hn : 0 ≤ n) : s.Safe rid n := by
  intro m hm
  obtain ⟨h₁, h₂⟩ := h m hm
  have hb : (0 : Int) < m.blockSize := by exact_mod_cast hs.blockSize_pos m hm
  have hskip := Int.ediv_le_ediv hb (getNumSkippedTokens_le hwin hm hn)
  have hup := ediv_le_cdiv n hb
  refine ⟨?_, fun hc => ?_⟩
  · exact Int.toNat_le.2 (hskip.trans (hup.trans h₁))
  · by_cases hfull : m.spec = .full
    · unfold SingleTypeManager.numSkippedBlocks
      rw [hfull]
      simp [AttentionSpec.getNumSkippedTokens]
    · exact Int.toNat_le.2 (hskip.trans (h₂ hc hfull))

/-- Granting slots keeps the shape. -/
lemma Granted.shape {numTokens numToCache : Int} {cols : List (List Nat)} {delay : Bool}
    (hg : Granted H r numTokens numToCache cols delay s s') : SameShape s s' := by
  have h := (hg.hskipped.shape.trans hg.htaken.shape).trans hg.hextended.shape
  rcases hg.hregistered with ⟨-, -, hreg⟩ | ⟨-, he⟩
  · exact h.trans hreg.shape
  · rw [he]
    exact h

/-- Granted slots back the tokens they were granted for, as far as these are cached where it matters. -/
lemma Granted.backed {numTokens numToCache n : Int} {cols : List (List Nat)}
    (hg : Granted H r numTokens numToCache cols false s s') (hs : s.Shaped H) (hn : n ≤ numTokens)
    (hcache : (∀ m ∈ s.managers, m.spec = .full) ∨ n ≤ numToCache) : s'.Backed r.requestId n := by
  have htaken : SameShape s hg.taken := hg.hskipped.shape.trans hg.htaken.shape
  have hext : SameShape s hg.extended := htaken.trans hg.hextended.shape
  have hshaped := hs.congr htaken
  -- the tables after the new blocks
  have hreach : ∀ m ∈ hg.extended.managers, cdiv n m.blockSize ≤ (m.table r.requestId).length := by
    intro m' hm'
    obtain ⟨m, hm, hmm⟩ := exists_left_of_forall₂ hg.hextended.groups hm'
    obtain ⟨new, htab, hlen⟩ := hmm.table
    have hb : (0 : Int) < m.blockSize := by exact_mod_cast hshaped.blockSize_pos m hm
    have hmono := cdiv_mono hb hn
    rw [SingleTypeManager.numNewBlocks, hshaped.paddedTokens hm] at hlen
    rw [htab, List.length_append, hlen, hmm.group.blockSize]
    omega
  rcases hg.hregistered with ⟨-, hc, hreg⟩ | ⟨hoff, he⟩
  · intro m' hm'
    obtain ⟨m, hm, hmm⟩ := exists_left_of_forall₂ hreg.groups hm'
    have hb : (0 : Int) < m.blockSize := by exact_mod_cast (hs.congr hext).blockSize_pos m hm
    rw [hmm.group.blockSize, hmm.table, hmm.group.spec, hmm.numCached]
    refine ⟨hreach m hm, fun _ hne => ?_⟩
    rcases hcache with hfull | hle
    · obtain ⟨m₀, hm₀, hsame⟩ := exists_left_of_forall₂ hext.groups hm
      exact absurd (hsame.spec.trans (hfull m₀ hm₀)) hne
    · have hdiv := Int.ediv_le_ediv hb hle
      have hfull : (numToCache / m.blockSize) ≤ numFull m numToCache := Int.self_le_toNat _
      push_cast
      omega
  · have hnone : s.blockPool.enableCaching = false := hoff.resolve_left Bool.false_ne_true
    rw [he]
    intro m hm
    refine ⟨hreach m hm, fun hc => ?_⟩
    rw [hext.pool.enableCaching, hnone] at hc
    cases hc

end KVCacheManager
end Gambit.KV
