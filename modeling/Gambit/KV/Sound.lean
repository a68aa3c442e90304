import Gambit.KV.Books
import Gambit.KV.Safety

/-!
# Blocks in their places, in any run

The invariant of the manager over runs of calls that need not be safe: a call may take a block out of a table that is
not cached, and the null block may get cached. As long as no call raises, a block with a hash stands in the tables of
one group only, always at the place of its hash, and the tables of full attention never have the null block.
-/

namespace Gambit.KV
open Gambit.Lib Gambit.Sched SingleTypeManager KVCacheManager

variable {η : Type} [DecidableEq η]

/-- The position of an element that is there once. -/
lemma eq_of_count_le_one {l : List Nat} {b i j : Nat} (hone : l.count b ≤ 1) (hi : l[i]? = some b) (hj : l[j]? = some b) :
    i = j := by
  by_contra hne
  have hdup : l.Duplicate b := by
    obtain ⟨hi', hib⟩ := List.getElem?_eq_some_iff.1 hi
    obtain ⟨hj', hjb⟩ := List.getElem?_eq_some_iff.1 hj
    rw [List.duplicate_iff_exists_distinct_get]
    rcases Nat.lt_or_gt_of_ne hne with hlt | hlt
    · exact ⟨⟨i, hi'⟩, ⟨j, hj'⟩, hlt, hib.symm, hjb.symm⟩
    · exact ⟨⟨j, hj'⟩, ⟨i, hi'⟩, hlt, hjb.symm, hib.symm⟩
  have htwo := List.duplicate_iff_two_le_count.1 hdup
  omega

/-- One group among the others. -/
lemma held_middle (done rest : List SingleTypeManager) (m : SingleTypeManager) (b : Nat) :
    held (done ++ m :: rest) b = m.holds b + held (done ++ rest) b := by
  have hperm := ((@List.perm_middle _ m done rest).map fun m => m.holds b).sum_eq
  exact hperm.trans (held_cons m (done ++ rest) b)

/-- What a call about one request leaves alone in a group. -/
structure KeepsIn (rid : ReqId) (m m' : SingleTypeManager) : Prop where
  group : SameGroup m m'
  other : ∀ x, x ≠ rid → m'.table x = m.table x
  entries : ∀ x, x ∈ m.reqToBlocks → x ∈ m'.reqToBlocks

lemma KeepsIn.refl (rid : ReqId) (m : SingleTypeManager) : KeepsIn rid m m := ⟨.refl m, fun _ _ => rfl, fun _ => id⟩

lemma KeepsIn.trans {rid : ReqId} {m m' m'' : SingleTypeManager} (h : KeepsIn rid m m') (h' : KeepsIn rid m' m'') :
    KeepsIn rid m m'' :=
  ⟨h.group.trans h'.group, fun x hx => (h'.other x hx).trans (h.other x hx), fun x hx => h'.entries x (h.entries x hx)⟩

lemma KeepsIn.setTable (m : SingleTypeManager) (rid : ReqId) (t : List Nat) : KeepsIn rid m (m.setTable rid t) :=
  ⟨⟨rfl, rfl, rfl⟩, fun x hx => by rw [table_setTable, if_neg hx], fun _ hx => Dict.mem_set.2 (.inr hx)⟩

lemma KeepsIn.withEntry (m : SingleTypeManager) (rid : ReqId) : KeepsIn rid m (m.withEntry rid) := by
  refine ⟨m.sameGroup_withEntry rid, fun x _ => m.table_withEntry rid x, fun x hx => ?_⟩
  unfold SingleTypeManager.withEntry
  split
  · exact hx
  · exact Dict.mem_set.2 (.inr hx)

/-- A request has an entry after its table was read. -/
lemma mem_withEntry (m : SingleTypeManager) (rid : ReqId) : rid ∈ (m.withEntry rid).reqToBlocks := by
  unfold SingleTypeManager.withEntry
  split
  · next hm => exact hm
  · exact Dict.mem_set.2 (.inl rfl)

/-- The books of the pool, and the blocks of the tables in their places. -/
structure Sound (H : Hasher η) (ms : List SingleTypeManager) (p : BlockPool η) (extra : Nat → Nat) : Prop where
  books : Books p fun b => held ms b + extra b
  ids : (ms.map SingleTypeManager.groupId).Nodup
  distinct : ∀ m ∈ ms, ∀ rid b, b ≠ 0 → (m.table rid).count b ≤ 1
  placed : ∀ m ∈ ms, ∀ rid (i : Nat) b k, b ≠ 0 → (m.table rid)[i]? = some b → p.blockHash b = some k →
    k.2 = m.groupId ∧ ∃ r, (H.blockHashes r)[i]? = some k.1
  full : ∀ m ∈ ms, m.spec = .full → (∀ rid, 0 ∉ m.table rid) ∧ ∀ h, ¬ Stored p.cachedBlockHashToBlock (h, m.groupId) 0

section Groups
variable {H : Hasher η} {ms ms' done rest : List SingleTypeManager} {m m' : SingleTypeManager} {p p' : BlockPool η}
  {extra extra' : Nat → Nat} {rid : ReqId}

/-- A step of one group. -/
lemma Sound.replace (m' : SingleTypeManager) (h : Sound H (done ++ m :: rest) p extra) (hg : SameGroup m m')
    (hbooks : Books p' fun b => held (done ++ m' :: rest) b + extra' b)
    (hdist : ∀ x b, b ≠ 0 → (m'.table x).count b ≤ 1)
    (hframe : ∀ b, b ≠ 0 → 0 < held (done ++ rest) b → p'.blockHash b = p.blockHash b)
    (hplaced : ∀ x (i : Nat) b k, b ≠ 0 → (m'.table x)[i]? = some b → p'.blockHash b = some k →
      k.2 = m.groupId ∧ ∃ r, (H.blockHashes r)[i]? = some k.1)
    (hfull : m.spec = .full → ∀ x, 0 ∉ m'.table x)
    (hnull : ∀ k, Stored p'.cachedBlockHashToBlock k 0 →
      Stored p.cachedBlockHashToBlock k 0 ∨ k.2 = m.groupId ∧ m.spec ≠ .full) :
    Sound H (done ++ m' :: rest) p' extra' := by
  have hids := h.ids
  rw [List.map_append, List.map_cons, List.nodup_middle] at hids
  have hmem : ∀ x ∈ done ++ m' :: rest, x = m' ∨ x ∈ done ++ rest ∧ x ∈ done ++ m :: rest := by
    intro x hx
    rcases List.mem_append.1 hx with hx | hx
    · exact .inr ⟨List.mem_append_left _ hx, List.mem_append_left _ hx⟩
    · rcases List.mem_cons.1 hx with rfl | hx
      · exact .inl rfl
      · exact .inr ⟨List.mem_append_right _ hx, List.mem_append_right _ (List.mem_cons_of_mem m hx)⟩
  have hm : m ∈ done ++ m :: rest := List.mem_append_right _ List.mem_cons_self
  refine ⟨hbooks, ?_, fun x hx rid b h0 => ?_, fun x hx rid i b k h0 hget hk => ?_, fun x hx hspec => ?_⟩
  · rw [List.map_append, List.map_cons, List.nodup_middle, hg.groupId]
    exact hids
  · rcases hmem x hx with rfl | ⟨-, hx⟩
    · exact hdist rid b h0
    · exact h.distinct x hx rid b h0
  · rcases hmem x hx with rfl | ⟨hother, hx⟩
    · rw [hg.groupId]
      exact hplaced rid i b k h0 hget hk
    · have hpos : 0 < (x.table rid).count b := List.count_pos_iff.2 (List.mem_of_getElem? hget)
      have hheld := hpos.trans_le ((x.count_le_holds rid b).trans (holds_le_held hother b))
      rw [hframe b h0 hheld] at hk
      exact h.placed x hx rid i b k h0 hget hk
  · rcases hmem x hx with rfl | ⟨hother, hx⟩
    · rw [hg.spec] at hspec
      refine ⟨hfull hspec, fun k hst => ?_⟩
      rw [hg.groupId] at hst
      rcases hnull _ hst with hst | ⟨-, hne⟩
      · exact (h.full m hm hspec).2 k hst
      · exact hne hspec
    · refine ⟨(h.full x hx hspec).1, fun k hst => ?_⟩
      rcases hnull _ hst with hst | ⟨hid, -⟩
      · exact (h.full x hx hspec).2 k hst
      · -- the ids of two groups differ
        rw [← List.map_append] at hids
        exact (List.nodup_cons.1 hids).1 (hid ▸ List.mem_map_of_mem hother)

/-- The rule for loops over the groups: `R` is what the call does to a group, `S` what it does to the pool. -/
lemma forManagers_sound {α : Type}
    {f : SingleTypeManager → BlockPool η → Except Unit (SingleTypeManager × BlockPool η × α)}
    (R : SingleTypeManager → SingleTypeManager → Prop) (S : BlockPool η → BlockPool η → Prop)
    (hrefl : ∀ p, S p p) (htrans : ∀ p p' p'', S p p' → S p' p'' → S p p'')
    (hstep : ∀ done m rest q m' q' a, f m q = .ok (m', q', a) → S p q → Sound H (done ++ m :: rest) q extra →
      Sound H (done ++ m' :: rest) q' extra ∧ S q q' ∧ R m m') {as : List α}
    (h : Sound H ms p extra) (hok : forManagers f ms p = .ok (ms', p', as)) :
    Sound H ms' p' extra ∧ S p p' ∧ List.Forall₂ R ms ms' := by
  suffices hgen : ∀ done q, S p q → Sound H (done ++ ms) q extra → forManagers f ms q = .ok (ms', p', as) →
      Sound H (done ++ ms') p' extra ∧ S q p' ∧ List.Forall₂ R ms ms' from hgen [] p (hrefl p) h hok
  clear h hok
  intro done q hs h hok
  induction ms generalizing q done ms' as with
  | nil =>
    cases hok
    exact ⟨h, hrefl _, .nil⟩
  | cons m ms ih =>
    rw [forManagers] at hok
    cases hf : f m q with
    | error e =>
      rw [hf] at hok
      cases hok
    | ok e =>
      obtain ⟨m', q', a⟩ := e
      rw [hf] at hok
      dsimp only [bind, Except.bind] at hok
      cases hfs : forManagers f ms q' with
      | error e =>
        rw [hfs] at hok
        cases hok
      | ok e =>
        obtain ⟨ms'', q'', as'⟩ := e
        rw [hfs] at hok
        cases hok
        obtain ⟨h', hs', hR⟩ := hstep done m ms q m' q' a hf hs h
        have happ : ∀ l, done ++ m' :: l = (done ++ [m']) ++ l := fun l => by simp
        rw [happ] at h'
        obtain ⟨h'', hs'', hRs⟩ := ih (done ++ [m']) q' (htrans _ _ _ hs hs') h' hfs
        rw [happ]
        exact ⟨h'', htrans _ _ _ hs' hs'', .cons hR hRs⟩

/-- A table that loses blocks to the null block, and the blocks freed. -/
lemma Sound.removeSkippedBlocks {numComputed : Int} (h : Sound H (done ++ m :: rest) p fun _ => 0)
    (hok : m.removeSkippedBlocks p rid numComputed = .ok (m', p', ())) :
    Sound H (done ++ m' :: rest) p' (fun _ => 0) ∧
      (SamePool p p' ∧ p'.cachedBlockHashToBlock = p.cachedBlockHashToBlock) ∧ SkippedIn rid m m' ∧ KeepsIn rid m m' := by
  unfold SingleTypeManager.removeSkippedBlocks at hok
  split at hok
  · cases hok
    exact ⟨h, ⟨.refl p, rfl⟩, ⟨.refl m, rfl, fun _ _ => rfl, rfl, fun _ => .inl rfl⟩, .refl rid m⟩
  next hskip =>
  split at hok
  · cases hok
  next hlen =>
  obtain ⟨hlen', hent, hcount, hzero⟩ := nullOut_spec _ _ (not_lt.1 hlen)
  generalize nullOut (m.numSkippedBlocks numComputed) (m.table rid) = e at hok hlen' hent hcount hzero
  obtain ⟨t', removed⟩ := e
  cases hok
  dsimp only at hlen' hent hcount hzero
  have hm : m ∈ done ++ m :: rest := List.mem_append_right _ List.mem_cons_self
  have hone : ∀ b, b ≠ 0 → removed.count b ≤ 1 := fun b h0 => by
    have h1 := hcount b h0
    have h2 := h.distinct m hm rid b h0
    omega
  have hbooks : Books p fun b => (held (done ++ m.setTable rid t' :: rest) b + 0) + removed.count b := by
    refine h.books.congr fun b h0 => ?_
    have h1 := m.holds_setTable rid t' b
    have h2 := hcount b h0
    rw [held_middle, held_middle]
    omega
  obtain ⟨hbooks', hs, hhash, hcache⟩ := hbooks.freeBlocks hone
  have hentry : ∀ i : Nat, t'[i]? = (m.table rid)[i]? ∨ t'[i]? = some 0 := fun i => (hent i).imp id And.right
  refine ⟨h.replace (m.setTable rid t') ⟨rfl, rfl, rfl⟩ hbooks' (fun x b h0 => ?_) (fun b _ _ => hhash b)
    (fun x i b k h0 hget hk => ?_) (fun hspec => ?_) (fun k hk => .inl (hcache ▸ hk)), ⟨hs, hcache⟩,
    ⟨⟨rfl, rfl, rfl⟩, rfl, fun x hx => (m.table_setTable rid t' x).trans (if_neg hx), ?_, fun i => ?_⟩,
    .setTable m rid t'⟩
  · rw [table_setTable]
    split
    · have h1 := hcount b h0
      have h2 := h.distinct m hm rid b h0
      omega
    · exact h.distinct m hm x b h0
  · rw [hhash] at hk
    rw [table_setTable] at hget
    split at hget
    · rcases hentry i with he | he
      · exact h.placed m hm rid i b k h0 (he ▸ hget) hk
      · exact absurd (Option.some.inj (he.symm.trans hget)).symm h0
    · exact h.placed m hm x i b k h0 hget hk
  · -- full attention skips nothing
    rw [hspec] at hskip
    exact absurd le_rfl hskip
  · show ((m.setTable rid t').table rid).length = _
    rw [table_setTable, if_pos rfl, hlen']
  · show ((m.setTable rid t').table rid)[i]? = _ ∨ ((m.setTable rid t').table rid)[i]? = _
    rw [table_setTable, if_pos rfl]
    exact hentry i

omit [DecidableEq η] in
lemma holds_pos_of_getElem? {x : ReqId} {i b : Nat} (hget : (m.table x)[i]? = some b) : 0 < m.holds b :=
  (List.count_pos_iff.2 (List.mem_of_getElem? hget)).trans_le (m.count_le_holds x b)

/-- New blocks are there if `get_new_blocks` returned them. -/
lemma length_of_getNewBlocks {n : Nat} {e : BlockPool η × List Nat} (hok : p.getNewBlocks n = .ok e) :
    n ≤ p.freeBlockQueue.length := by
  unfold BlockPool.getNewBlocks at hok
  split at hok
  · cases hok
  split at hok
  · cases hok
  · next hlen => exact not_lt.1 hlen

/-- A table that gets new blocks at its end. -/
lemma Sound.allocateNewBlocks {numTokens : Int} {new : List Nat} (h : Sound H (done ++ m :: rest) p fun _ => 0)
    (hok : m.allocateNewBlocks p rid numTokens = .ok (m', p', new)) :
    Sound H (done ++ m' :: rest) p' (fun _ => 0) ∧ SamePool p p' ∧ ExtendedIn rid numTokens m m' ∧ KeepsIn rid m m' := by
  have hm : m ∈ done ++ m :: rest := List.mem_append_right _ List.mem_cons_self
  unfold SingleTypeManager.allocateNewBlocks at hok
  dsimp only at hok
  split at hok
  · next hle =>
    cases hok
    have hlen : m.numNewBlocks rid numTokens = 0 := Int.toNat_of_nonpos hle
    refine ⟨h.replace _ (m.sameGroup_withEntry rid) (h.books.congr fun b _ => ?_) (fun x b h0 => ?_) (fun _ _ _ => rfl)
      (fun x i b k h0 hget hk => ?_) (fun hspec x => ?_) (fun k hk => .inl hk), .refl p,
      ⟨m.sameGroup_withEntry rid, m.numCachedBlock_withEntry rid, fun x _ => m.table_withEntry rid x, [], ?_, ?_⟩,
      .withEntry m rid⟩
    · rw [held_middle, held_middle, holds_withEntry]
    · rw [table_withEntry]
      exact h.distinct m hm x b h0
    · rw [table_withEntry] at hget
      exact h.placed m hm x i b k h0 hget hk
    · rw [table_withEntry]
      exact (h.full m hm hspec).1 x
    · rw [table_withEntry, List.append_nil]
    · exact hlen.symm
  · cases hnew : p.getNewBlocks (m.numNewBlocks rid numTokens) with
    | error e =>
      rw [SingleTypeManager.numNewBlocks] at hnew
      rw [hnew] at hok
      cases hok
    | ok e =>
      have hlen := length_of_getNewBlocks hnew
      obtain ⟨q, hq, hbooks, hs, -, hhash, hst⟩ := h.books.getNewBlocks hlen
      rw [hnew] at hq
      cases hq
      rw [SingleTypeManager.numNewBlocks] at hnew
      rw [hnew] at hok
      cases hok
      set new := p.freeBlockQueue.take (m.numNewBlocks rid numTokens) with hnewdef
      have hnd : new.Nodup := h.books.nodup.sublist (List.take_sublist ..)
      -- nobody holds a block of the queue
      have hfree : ∀ b ∈ new, b ≠ 0 ∧ m.holds b = 0 ∧ held (done ++ rest) b = 0 := by
        intro b hb
        obtain ⟨h0, -, hz⟩ := (h.books.mem_queue b).1 ((List.take_sublist ..).subset hb)
        rw [held_middle] at hz
        exact ⟨h0, by omega, by omega⟩
      refine ⟨h.replace (m.setTable rid (m.table rid ++ new)) ⟨rfl, rfl, rfl⟩ (hbooks.congr fun b h0 => ?_)
        (fun x b h0 => ?_) (fun b h0 hheld => ?_) (fun x i b k h0 hget hk => ?_) (fun hspec x => ?_)
        (fun k hk => .inl (hst k hk)), hs, ⟨⟨rfl, rfl, rfl⟩, rfl,
        fun x hx => (m.table_setTable rid _ x).trans (if_neg hx), new, (m.table_setTable rid _ rid).trans (if_pos rfl), ?_⟩,
        .setTable m rid _⟩
      · have hh := m.holds_setTable rid (m.table rid ++ new) b
        rw [List.count_append] at hh
        rw [held_middle, held_middle]
        omega
      · rw [table_setTable]
        split
        · rw [List.count_append]
          by_cases hb : b ∈ new
          · have hz := (hfree b hb).2.1
            have hle := m.count_le_holds rid b
            have h1 := List.nodup_iff_count_le_one.1 hnd b
            omega
          · rw [List.count_eq_zero.2 hb, Nat.add_zero]
            exact h.distinct m hm rid b h0
        · exact h.distinct m hm x b h0
      · rw [hhash b h0, if_neg fun hb => ?_]
        have := (hfree b hb).2.2
        omega
      · rw [hhash b h0] at hk
        split at hk
        · cases hk
        · next hb =>
          rw [table_setTable] at hget
          split at hget
          · rcases Nat.lt_or_ge i (m.table rid).length with hlt | hge
            · rw [List.getElem?_append_left hlt] at hget
              exact h.placed m hm rid i b k h0 hget hk
            · rw [List.getElem?_append_right hge] at hget
              exact absurd (List.mem_of_getElem? hget) hb
          · exact h.placed m hm x i b k h0 hget hk
      · rw [table_setTable]
        split
        · intro hmem
          rcases List.mem_append.1 hmem with hmem | hmem
          · exact (h.full m hm hspec).1 rid hmem
          · exact (hfree 0 hmem).1 rfl
        · exact (h.full m hm hspec).1 x
      · rw [hnewdef, List.length_take]
        omega

/-- What `cache_blocks` does to a group that does not raise. -/
structure CachedIn (rid : ReqId) (numTokens : Int) (m m' : SingleTypeManager) : Prop where
  table : ∀ x, m'.table x = m.table x
  numCached : ∀ x, m'.numCached x = if x = rid then max (m.numCached rid) (numFull m numTokens) else m.numCached x
  known : ∀ x, x ≠ rid → (x ∈ m'.numCachedBlock ↔ x ∈ m.numCachedBlock)

/-- A table whose full blocks get their hashes. -/
lemma Sound.cacheBlocks {r : Request} {numTokens : Int} (h : Sound H (done ++ m :: rest) p fun _ => 0)
    (hc : p.enableCaching = true) (hok : m.cacheBlocks p rid (H.blockHashes r) numTokens = .ok (m', p', ())) :
    Sound H (done ++ m' :: rest) p' (fun _ => 0) ∧ SamePool p p' ∧ CachedIn rid numTokens m m' ∧ KeepsIn rid m m' := by
  have hm : m ∈ done ++ m :: rest := List.mem_append_right _ List.mem_cons_self
  unfold SingleTypeManager.cacheBlocks at hok
  dsimp only at hok
  split at hok
  · cases hok
  split at hok
  · next hle =>
    cases hok
    refine ⟨h, .refl p, ⟨fun _ => rfl, fun x => ?_, fun _ _ => Iff.rfl⟩, .refl rid m⟩
    split
    · next hx => rw [hx, numFull, Nat.max_eq_left hle]
    · rfl
  next hle =>
  cases hq : p.cacheFullBlocks (H.blockHashes r) (m.table rid) (m.numCached rid) (numTokens / m.blockSize).toNat
    m.groupId with
  | error e =>
    rw [hq] at hok
    cases hok
  | ok q =>
    rw [hq] at hok
    cases hok
    have hheld : ∀ b ∈ m.table rid, b ≠ 0 → 0 < held (done ++ m :: rest) b + 0 := by
      intro b hb h0
      exact (List.count_pos_iff.2 hb).trans_le ((m.count_le_holds rid b).trans (holds_le_held hm b))
    obtain ⟨hbooks, hs, hhash, hst⟩ := h.books.cacheFullBlocks hc hheld hq
    set m' := (m.withEntry rid).setCached rid (numTokens / m.blockSize).toNat with hm'
    have htable : ∀ x, m'.table x = m.table x := m.table_withEntry rid
    have hself : ({ m.withEntry rid with numCachedBlock := m.numCachedBlock.set rid (numTokens / m.blockSize).toNat } :
        SingleTypeManager) = m' := by
      rw [hm', SingleTypeManager.setCached, numCachedBlock_withEntry]
    rw [hself]
    have hgroup : SameGroup m m' := (m.sameGroup_withEntry rid).trans ⟨rfl, rfl, rfl⟩
    -- a block that got its hash now has no other holder
    have honly : ∀ b, b ≠ 0 → p.blockHash b = none → m.holds b + held (done ++ rest) b ≤ 1 := by
      intro b h0 hn
      have hone := h.books.single h0 hn
      rw [held_middle] at hone
      exact hone
    refine ⟨h.replace _ hgroup (hbooks.congr fun b _ => ?_) (fun x b h0 => ?_) (fun b h0 hother => ?_)
      (fun x i b k h0 hget hk => ?_) (fun hspec x => ?_)
      (fun k hk => (hst k hk).imp id fun hg => ⟨hg.1, fun hspec => (h.full m hm hspec).1 rid hg.2⟩), hs, ⟨htable, fun x => ?_, fun x hx => ?_⟩, ⟨hgroup, fun x _ => htable x, (KeepsIn.withEntry m rid).entries⟩⟩
    · rw [held_middle, held_middle]
      exact congrArg (· + _ + 0) (m.holds_withEntry rid b)
    · rw [htable]
      exact h.distinct m hm x b h0
    · rcases hhash b with he | ⟨hn, i, k, hi, -⟩
      · exact he
      · have hone := honly b h0 hn
        have hpos := holds_pos_of_getElem? hi
        omega
    · rw [htable] at hget
      rcases hhash b with he | ⟨hn, j, k', hj, hk', he⟩
      · rw [he] at hk
        exact h.placed m hm x i b k h0 hget hk
      · rw [he] at hk
        cases hk
        have hone := honly b h0 hn
        have hpos : 0 < (m.table x).count b := List.count_pos_iff.2 (List.mem_of_getElem? hget)
        have hpos' : 0 < (m.table rid).count b := List.count_pos_iff.2 (List.mem_of_getElem? hj)
        have hx : x = rid := by
          by_contra hx
          have htwo := m.count_add_count_le_holds hx b
          omega
        subst hx
        rw [eq_of_count_le_one (h.distinct m hm x b h0) hget hj]
        exact ⟨rfl, r, hk'⟩
    · rw [htable]
      exact (h.full m hm hspec).1 x
    · rw [hm', numCached_setCached, numCached_withEntry]
      split
      · exact (Nat.max_eq_right (Nat.le_of_not_le hle)).symm
      · rfl
    · show x ∈ (m.withEntry rid).numCachedBlock.set rid _ ↔ _
      rw [numCachedBlock_withEntry, Dict.mem_set]
      exact ⟨fun h => h.resolve_left hx, .inr⟩

/-- A request gives its blocks back. -/
lemma Sound.free (h : Sound H (done ++ m :: rest) p fun _ => 0) (hok : m.free p rid = .ok (m', p', ())) :
    Sound H (done ++ m' :: rest) p' (fun _ => 0) ∧ SamePool p p' ∧ m' = m.dropTable rid := by
  have hm : m ∈ done ++ m :: rest := List.mem_append_right _ List.mem_cons_self
  cases hok
  have hbooks : Books p fun b => (held (done ++ m.dropTable rid :: rest) b + 0) + (m.table rid).reverse.count b := by
    refine h.books.congr fun b _ => ?_
    have hd := m.holds_dropTable rid b
    rw [held_middle, held_middle, List.count_reverse]
    omega
  obtain ⟨hbooks', hs, hhash, hcache⟩ := hbooks.freeBlocks fun b h0 => by
    rw [List.count_reverse]
    exact h.distinct m hm rid b h0
  refine ⟨h.replace (m.dropTable rid) ⟨rfl, rfl, rfl⟩ hbooks' (fun x b h0 => ?_) (fun b _ _ => hhash b)
    (fun x i b k h0 hget hk => ?_) (fun hspec x => ?_) (fun k hk => .inl (hcache ▸ hk)), hs, rfl⟩
  · rw [table_dropTable]
    split
    · exact Nat.zero_le 1
    · exact h.distinct m hm x b h0
  · rw [hhash] at hk
    rw [table_dropTable] at hget
    split at hget
    · cases hget
    · exact h.placed m hm x i b k h0 hget hk
  · rw [table_dropTable]
    split
    · exact List.not_mem_nil
    · exact (h.full m hm hspec).1 x

/-- One group takes its computed blocks, if it does not raise. -/
lemma saveNewComputedBlocks_taken {col : List Nat} (hok : m.saveNewComputedBlocks rid col = .ok m') :
    TakenIn rid col m m' ∧ KeepsIn rid m m' ∧ (col = [] ∨ m.table rid = []) ∧
      ∀ b, m'.holds b = m.holds b + col.count b := by
  unfold SingleTypeManager.saveNewComputedBlocks at hok
  have hsame : col = [] → m' = m → TakenIn rid col m m' ∧ KeepsIn rid m m' ∧ (col = [] ∨ m.table rid = []) ∧
      ∀ b, m'.holds b = m.holds b + col.count b := by
    rintro rfl rfl
    exact ⟨⟨.refl _, fun _ _ => ⟨rfl, rfl⟩, (List.append_nil _).symm, rfl⟩, .refl rid _, .inl rfl, fun b => rfl⟩
  split at hok
  · split at hok
    · next hcol =>
      cases hok
      exact hsame hcol rfl
    · cases hok
  split at hok
  · split at hok
    · next hcol =>
      cases hok
      exact hsame hcol rfl
    · cases hok
  next hn =>
  split at hok
  · next ht =>
    cases hok
    have hz : m.numCached rid = 0 := by
      rw [SingleTypeManager.numCached, Dict.getD_eq, Dict.get?_eq_none.2 hn, Option.getD_none]
    have hkeep := KeepsIn.setTable m rid col
    refine ⟨⟨⟨rfl, rfl, rfl⟩, fun x hx => ⟨hkeep.other x hx, ?_⟩, ?_, ?_⟩, ⟨⟨rfl, rfl, rfl⟩, hkeep.other, hkeep.entries⟩,
      .inr ht, fun b => ?_⟩
    · show ((m.setTable rid col).setCached rid col.length).numCached x = _
      rw [numCached_setCached, if_neg hx]
      rfl
    · rw [ht, List.nil_append]
      exact (m.table_setTable rid col rid).trans (if_pos rfl)
    · show ((m.setTable rid col).setCached rid col.length).numCached rid = _
      rw [numCached_setCached, if_pos rfl, hz, Nat.zero_add]
    · have hh := m.holds_setTable rid col b
      rw [ht, List.count_nil, Nat.add_zero] at hh
      exact hh
  · cases hok

/-- A group whose table becomes a hit, which the pool has counted already. -/
lemma Sound.saveNewComputedBlocks {r : Request} {col : List Nat} (inj : H.Injective)
    (h : Sound H (done ++ m :: rest) p fun b => col.count b + extra b)
    (hcol : ∀ i b, col[i]? = some b → EntryAt p.cachedBlockHashToBlock (H.blockHashes r) m.spec i m.groupId b)
    (hok : m.saveNewComputedBlocks rid col = .ok m') : Sound H (done ++ m' :: rest) p extra := by
  have hm : m ∈ done ++ m :: rest := List.mem_append_right _ List.mem_cons_self
  obtain ⟨htk, hkeep, hempty, hholds⟩ := saveNewComputedBlocks_taken hok
  have htable : ∀ x, m'.table x = m.table x ∨ x = rid ∧ m'.table x = col := by
    intro x
    by_cases hx : x = rid
    · rw [hx, htk.table]
      rcases hempty with he | he
      · exact .inl (by rw [he, List.append_nil])
      · exact .inr ⟨rfl, by rw [he, List.nil_append]⟩
    · exact .inl (htk.other x hx).1
  refine h.replace _ htk.group (h.books.congr fun b _ => ?_) (fun x b h0 => ?_) (fun _ _ _ => rfl)
    (fun x i b k h0 hget hk => ?_) (fun hspec x => ?_) (fun k hk => .inl hk)
  · rw [held_middle, held_middle, hholds]
    omega
  · rcases htable x with he | ⟨-, he⟩
    · rw [he]
      exact h.distinct m hm x b h0
    · rw [he]
      have hhit : HitOk p.cachedBlockHashToBlock (H.blockHashes r) col.length m.groupId col :=
        ⟨rfl, fun i b hi => (hcol i b hi).entryOk⟩
      exact hhit.count_le_one (inj.nodup_blockHashes r) h0 (h.books.stored h0)
  · rcases htable x with he | ⟨-, he⟩
    · rw [he] at hget
      exact h.placed m hm x i b k h0 hget hk
    · rw [he] at hget
      rcases hcol i b hget with ⟨hz, -⟩ | ⟨k', hk', hst⟩
      · exact absurd hz h0
      · rw [(h.books.stored h0 _).2 hst] at hk
        cases hk
        exact ⟨rfl, r, hk'⟩
  · rcases htable x with he | ⟨-, he⟩
    · rw [he]
      exact (h.full m hm hspec).1 x
    · rw [he]
      intro h0
      obtain ⟨i, hi⟩ := List.mem_iff_getElem?.1 h0
      rcases hcol i 0 hi with ⟨-, hne⟩ | ⟨k, -, hst⟩
      · exact hne hspec
      · exact (h.full m hm hspec).2 k hst

/-- All groups take their hits. -/
lemma Sound.saveAll {r : Request} {cols : List (List Nat)} (inj : H.Injective)
    (h : Sound H ms p fun b => cols.flatten.count b)
    (hcols : List.Forall₂ (fun (m : SingleTypeManager) col => ∀ i b, col[i]? = some b →
      EntryAt p.cachedBlockHashToBlock (H.blockHashes r) m.spec i m.groupId b) ms cols)
    (hok : (ms.zip cols).mapM (fun e => e.1.saveNewComputedBlocks rid e.2) = .ok ms') :
    Sound H ms' p (fun _ => 0) ∧
      List.Forall₂ (fun (e : SingleTypeManager × List Nat) m' => TakenIn rid e.2 e.1 m') (ms.zip cols) ms' ∧
      List.Forall₂ (KeepsIn rid) ms ms' := by
  suffices hgen : ∀ done, Sound H (done ++ ms) p (fun b => cols.flatten.count b) → Sound H (done ++ ms') p (fun _ => 0) ∧
      List.Forall₂ (fun (e : SingleTypeManager × List Nat) m' => TakenIn rid e.2 e.1 m') (ms.zip cols) ms' ∧
      List.Forall₂ (KeepsIn rid) ms ms' from hgen [] h
  clear h
  induction hcols generalizing ms' with
  | nil =>
    intro done h
    cases hok
    exact ⟨h, .nil, .nil⟩
  | @cons m col ms cols hcol _ ih =>
    intro done h
    rw [List.zip_cons_cons, List.mapM_cons] at hok
    cases hm' : m.saveNewComputedBlocks rid col with
    | error e =>
      rw [hm'] at hok
      cases hok
    | ok m' =>
      rw [hm'] at hok
      cases hms : (ms.zip cols).mapM (fun e => e.1.saveNewComputedBlocks rid e.2) with
      | error e =>
        rw [hms] at hok
        cases hok
      | ok ms'' =>
        rw [hms] at hok
        cases hok
        have hsplit : Sound H (done ++ m :: ms) p fun b => col.count b + cols.flatten.count b := by
          have hcount : (fun b => (col :: cols).flatten.count b) = fun b => col.count b + cols.flatten.count b := by
            funext b
            rw [List.flatten_cons, List.count_append]
          exact hcount ▸ h
        have h' := hsplit.saveNewComputedBlocks inj hcol hm'
        have happ : ∀ l, done ++ m' :: l = (done ++ [m']) ++ l := fun l => by simp
        rw [happ] at h'
        obtain ⟨h'', hT, hK⟩ := ih hms (done ++ [m']) h'
        obtain ⟨htk, hkeep, -, -⟩ := saveNewComputedBlocks_taken hm'
        rw [happ]
        exact ⟨h'', .cons htk hT, .cons hkeep hK⟩

/-- Reading tables. -/
lemma Sound.read {f : SingleTypeManager → SingleTypeManager} (h : Sound H ms p extra) (rid : ReqId)
    (hf : ∀ m, f m = m ∨ f m = m.withEntry rid) : Sound H (ms.map f) p extra ∧ List.Forall₂ (KeepsIn rid) ms (ms.map f) := by
  have hkeep : ∀ m, KeepsIn rid m (f m) ∧ (∀ x, (f m).table x = m.table x) ∧ ∀ b, (f m).holds b = m.holds b := by
    intro m
    rcases hf m with he | he
    · rw [he]
      exact ⟨.refl rid m, fun _ => rfl, fun _ => rfl⟩
    · rw [he]
      exact ⟨.withEntry m rid, m.table_withEntry rid, m.holds_withEntry rid⟩
  have hheld : ∀ b, held (ms.map f) b = held ms b := by
    intro b
    rw [held, held, List.map_map]
    exact congrArg List.sum (List.map_congr_left fun m _ => (hkeep m).2.2 b)
  have hids : (ms.map f).map SingleTypeManager.groupId = ms.map SingleTypeManager.groupId := by
    rw [List.map_map]
    exact List.map_congr_left fun m _ => (hkeep m).1.group.groupId
  refine ⟨⟨h.books.congr fun b _ => by rw [hheld], hids ▸ h.ids, fun m' hm' x b h0 => ?_,
    fun m' hm' x i b k h0 hget hk => ?_, fun m' hm' hspec => ?_⟩,
    List.forall₂_map_right_iff.2 (List.forall₂_same.2 fun m _ => (hkeep m).1)⟩
  · obtain ⟨m, hm, rfl⟩ := List.mem_map.1 hm'
    rw [(hkeep m).2.1]
    exact h.distinct m hm x b h0
  · obtain ⟨m, hm, rfl⟩ := List.mem_map.1 hm'
    rw [(hkeep m).2.1] at hget
    rw [(hkeep m).1.group.groupId]
    exact h.placed m hm x i b k h0 hget hk
  · obtain ⟨m, hm, rfl⟩ := List.mem_map.1 hm'
    rw [(hkeep m).1.group.spec] at hspec
    rw [(hkeep m).1.group.groupId]
    exact ⟨fun x => (hkeep m).2.1 x ▸ (h.full m hm hspec).1 x, (h.full m hm hspec).2⟩

/-- Resetting the hashes. -/
lemma Sound.reset (h : Sound H ms p extra) : Sound H ms p.resetPrefixCache.1 extra ∧ SamePool p p.resetPrefixCache.1 := by
  obtain ⟨hbooks, hs, hhash, hst⟩ := h.books.reset
  refine ⟨⟨hbooks, h.ids, h.distinct, fun m hm x i b k h0 hget hk => ?_, fun m hm hspec => ?_⟩, hs⟩
  · rcases hhash b h0 with he | he
    · rw [he] at hk
      exact h.placed m hm x i b k h0 hget hk
    · rw [he] at hk
      cases hk
  · exact ⟨(h.full m hm hspec).1, fun k hk => (h.full m hm hspec).2 k (hst _ hk)⟩

end Groups

/-- Lists side by side after a step on the left. -/
lemma forall₂_of_left {α β : Type} {G : α → α → Prop} {R R' : α → β → Prop} {l l' : List α} {c : List β}
    (hg : List.Forall₂ G l l') (h : List.Forall₂ R l c) (himp : ∀ a a' b, G a a' → R a b → R' a' b) :
    List.Forall₂ R' l' c := by
  induction hg generalizing c with
  | nil =>
    cases h
    exact .nil
  | cons hab _ ih =>
    cases h with
    | cons hac hrest => exact .cons (himp _ _ _ hab hac) (ih hrest)

namespace KVCacheManager
variable {H : Hasher η} {s s' : KVCacheManager η} {rid : ReqId} {r : Request}

/-- What a call about one request leaves alone. -/
structure Keeps (rid : ReqId) (s s' : KVCacheManager η) : Prop where
  shape : SameShape s s'
  groups : List.Forall₂ (KeepsIn rid) s.managers s'.managers

omit [DecidableEq η] in
lemma Keeps.refl (rid : ReqId) (s : KVCacheManager η) : Keeps rid s s :=
  ⟨.refl s, List.forall₂_same.2 fun m _ => .refl rid m⟩

omit [DecidableEq η] in
lemma Keeps.trans {s'' : KVCacheManager η} (h : Keeps rid s s') (h' : Keeps rid s' s'') : Keeps rid s s'' :=
  ⟨h.shape.trans h'.shape, forall₂_trans (fun _ _ _ hab hbc => hab.trans hbc) h.groups h'.groups⟩

omit [DecidableEq η] in
/-- What the groups keep is what the manager keeps. -/
lemma Keeps.of_groups {ms : List SingleTypeManager} {p : BlockPool η} (hg : List.Forall₂ (KeepsIn rid) s.managers ms)
    (hs : SamePool s.blockPool p) : Keeps rid s { s with managers := ms, blockPool := p } :=
  ⟨⟨hg.imp fun _ _ h => h.group, hs, rfl, rfl⟩, hg⟩

/-- The blocks of all groups are in their places. -/
def SoundAt (H : Hasher η) (s : KVCacheManager η) : Prop := Sound H s.managers s.blockPool fun _ => 0

/-- A hit for all groups: `n` entries for each, cached for the group or null. -/
def HitFor (H : Hasher η) (s : KVCacheManager η) (r : Request) (n : Nat) (cols : List (List Nat)) : Prop :=
  List.Forall₂ (fun m col => col.length = n ∧
    ∀ i b, col[i]? = some b → EntryAt s.blockPool.cachedBlockHashToBlock (H.blockHashes r) m.spec i m.groupId b)
    s.managers cols

/-- What the scheduler passes is a hit. -/
lemma Laid.passed (hs : s.Laid H) {numNewComputed : Nat} {cols : List (List Nat)} (hp : Passed H s r numNewComputed cols) :
    ∃ n, numNewComputed = n * H.blockSize ∧ (s.blockPool.enableCaching = false → n = 0) ∧
      (n = 0 ∨ s.Unknown r.requestId) ∧ s.HitFor H r n cols := by
  rcases hp with ⟨rfl, rfl⟩ | ⟨hu, hok⟩
  · refine ⟨0, (Nat.zero_mul _).symm, fun _ => rfl, .inl rfl, ?_⟩
    rw [HitFor, emptyBlocks, List.forall₂_map_right_iff, List.forall₂_same]
    exact fun m _ => ⟨rfl, fun i b hi => by simp at hi⟩
  · obtain ⟨n, hn, -, hoff, hcols⟩ := hs.getComputedBlocks hok
    exact ⟨n, hn, hoff, .inr hu, hcols⟩

/-- Skipped blocks leave the tables. -/
lemma SoundAt.removeSkippedBlocks {numComputed : Int} (h : s.SoundAt H)
    (hok : s.removeSkippedBlocks rid numComputed = .ok s') :
    s'.SoundAt H ∧ Keeps rid s s' ∧ List.Forall₂ (SkippedIn rid) s.managers s'.managers ∧
      s'.blockPool.cachedBlockHashToBlock = s.blockPool.cachedBlockHashToBlock := by
  unfold KVCacheManager.removeSkippedBlocks at hok
  cases hf : forManagers (fun m p => m.removeSkippedBlocks p rid numComputed) s.managers s.blockPool with
  | error e =>
    rw [hf] at hok
    cases hok
  | ok e =>
    obtain ⟨ms, p, as⟩ := e
    rw [hf] at hok
    cases hok
    obtain ⟨h', ⟨hs, hcache⟩, hR⟩ := forManagers_sound (fun m m' => SkippedIn rid m m' ∧ KeepsIn rid m m')
      (fun p p' : BlockPool η => SamePool p p' ∧ p'.cachedBlockHashToBlock = p.cachedBlockHashToBlock)
      (fun p => ⟨.refl p, rfl⟩) (fun _ _ _ h h' => ⟨h.1.trans h'.1, h'.2.trans h.2⟩)
      (fun done m rest q m' q' a hf _ h => h.removeSkippedBlocks hf) h hf
    exact ⟨h', .of_groups (hR.imp fun _ _ h => h.2) hs, hR.imp fun _ _ h => h.1, hcache⟩

lemma SoundAt.withEntries (h : s.SoundAt H) (rid : ReqId) :
    (s.withEntries rid).SoundAt H ∧ Keeps rid s (s.withEntries rid) := by
  obtain ⟨h', hg⟩ := Sound.read h rid fun _ => .inr rfl
  exact ⟨h', .of_groups hg (.refl _)⟩

/-- The blocks of a hit can be touched. -/
lemma HitFor.touchable {n : Nat} {cols : List (List Nat)} (h : s.SoundAt H) (hcols : s.HitFor H r n cols) :
    ∀ b ∈ cols.flatten, b = 0 ∨ s.blockPool.blockHash b ≠ none := by
  intro b hb
  obtain ⟨col, hc, hbc⟩ := List.mem_flatten.1 hb
  obtain ⟨m, -, hent⟩ := exists_left_of_forall₂ hcols hc
  obtain ⟨i, hi⟩ := List.mem_iff_getElem?.1 hbc
  by_cases h0 : b = 0
  · exact .inl h0
  · obtain ⟨k, -, hst⟩ := (hent.2 i b hi).entryOk.resolve_left h0
    refine .inr fun hn => ?_
    rw [(h.books.stored h0 _).2 hst] at hn
    cases hn

/-- Hits become tables. -/
lemma SoundAt.takeComputedBlocks {cols : List (List Nat)} {n : Nat} (inj : H.Injective) (h : s.SoundAt H)
    (hcols : s.HitFor H r n cols) (hok : s.takeComputedBlocks rid cols = .ok s') :
    s'.SoundAt H ∧ Keeps rid s s' ∧
      List.Forall₂ (fun (e : SingleTypeManager × List Nat) m' => TakenIn rid e.2 e.1 m') (s.managers.zip cols)
        s'.managers := by
  unfold KVCacheManager.takeComputedBlocks at hok
  split at hok
  · next hall =>
    cases hok
    exact ⟨h, .refl rid s, (takeNothing hcols.length_eq hall).2.groups⟩
  split at hok
  · cases hok
  obtain ⟨p, hp, hbooks, hs, hhash, hcache, -⟩ := h.books.touch (hcols.touchable h)
  rw [hp] at hok
  cases hms : (s.managers.zip cols).mapM (fun e => e.1.saveNewComputedBlocks rid e.2) with
  | error e =>
    dsimp only [bind, Except.bind] at hok
    rw [hms] at hok
    cases hok
  | ok ms =>
    dsimp only [bind, Except.bind] at hok
    rw [hms] at hok
    cases hok
    have htouched : Sound H s.managers p fun b => cols.flatten.count b :=
      ⟨hbooks.congr fun b _ => by omega, h.ids, h.distinct,
        fun m hm x i b k h0 hget hk => h.placed m hm x i b k h0 hget (hhash b ▸ hk),
        fun m hm hspec => ⟨(h.full m hm hspec).1, fun k hk => (h.full m hm hspec).2 k (hcache ▸ hk)⟩⟩
    have hent : List.Forall₂ (fun (m : SingleTypeManager) col => ∀ i b, col[i]? = some b →
        EntryAt p.cachedBlockHashToBlock (H.blockHashes r) m.spec i m.groupId b) s.managers cols := by
      rw [hcache]
      exact hcols.imp fun _ _ h => h.2
    obtain ⟨h', hT, hK⟩ := htouched.saveAll inj hent hms
    exact ⟨h', .of_groups hK hs, hT⟩

/-- New blocks for all groups. -/
lemma SoundAt.allocateNewBlocks {numTokens : Int} {enc : Nat} {new : List (List Nat)} (h : s.SoundAt H)
    (hok : s.allocateNewBlocks rid numTokens enc = .ok (s', new)) :
    s'.SoundAt H ∧ Keeps rid s s' ∧ List.Forall₂ (fun m m' =>
      ExtendedIn rid (if m.spec = .crossAttention then enc else numTokens) m m') s.managers s'.managers := by
  unfold KVCacheManager.allocateNewBlocks at hok
  cases hf : forManagers (fun m p =>
      m.allocateNewBlocks p rid (if m.spec = .crossAttention then (enc : Int) else numTokens)) s.managers s.blockPool with
  | error e =>
    rw [hf] at hok
    cases hok
  | ok e =>
    obtain ⟨ms, p, as⟩ := e
    rw [hf] at hok
    cases hok
    obtain ⟨h', hs, hR⟩ := forManagers_sound
      (fun m m' => ExtendedIn rid (if m.spec = .crossAttention then (enc : Int) else numTokens) m m' ∧ KeepsIn rid m m')
      SamePool .refl (fun _ _ _ h h' => h.trans h') (fun done m rest q m' q' a hf _ h => h.allocateNewBlocks hf) h hf
    exact ⟨h', .of_groups (hR.imp fun _ _ h => h.2) hs, hR.imp fun _ _ h => h.1⟩

/-- Full blocks of all groups get their hashes. -/
lemma SoundAt.cacheBlocks {numTokens : Int} (h : s.SoundAt H) (hok : s.cacheBlocks H r numTokens = .ok s') :
    s'.SoundAt H ∧ Keeps r.requestId s s' ∧ (s.blockPool.enableCaching = false ∧ s' = s ∨
      s.blockPool.enableCaching = true ∧ List.Forall₂ (CachedIn r.requestId numTokens) s.managers s'.managers) := by
  unfold KVCacheManager.cacheBlocks at hok
  split at hok
  · next hc =>
    cases hf : forManagers (fun m p => m.cacheBlocks p r.requestId (H.blockHashes r) numTokens) s.managers
        s.blockPool with
    | error e =>
      rw [hf] at hok
      cases hok
    | ok e =>
      obtain ⟨ms, p, as⟩ := e
      rw [hf] at hok
      cases hok
      obtain ⟨h', hs, hR⟩ := forManagers_sound
        (fun m m' => CachedIn r.requestId numTokens m m' ∧ KeepsIn r.requestId m m')
        SamePool .refl (fun _ _ _ h h' => h.trans h')
        (fun done m rest q m' q' a hf hs h => h.cacheBlocks (hs.enableCaching.trans hc) hf) h hf
      exact ⟨h', .of_groups (hR.imp fun _ _ h => h.2) hs, .inr ⟨hc, hR.imp fun _ _ h => h.1⟩⟩
  · next hc =>
    cases hok
    exact ⟨h, .refl _ _, .inl ⟨by simpa using hc, rfl⟩⟩

/-- A request gives its blocks back in all groups. -/
lemma SoundAt.free (h : s.SoundAt H) (hok : s.free rid = .ok s') :
    s'.SoundAt H ∧ SameShape s s' ∧ s'.managers = s.managers.map fun m => m.dropTable rid := by
  unfold KVCacheManager.free at hok
  cases hf : forManagers (fun m p => m.free p rid) s.managers s.blockPool with
  | error e =>
    rw [hf] at hok
    cases hok
  | ok e =>
    obtain ⟨ms, p, as⟩ := e
    rw [hf] at hok
    cases hok
    obtain ⟨h', hs, hR⟩ := forManagers_sound (fun m m' => m' = m.dropTable rid) SamePool .refl
      (fun _ _ _ h h' => h.trans h') (fun done m rest q m' q' a hf _ h => h.free hf) h hf
    refine ⟨h', ⟨hR.imp fun m m' he => ?_, hs, rfl, rfl⟩, eq_map_of_forall₂ hR⟩
    rw [he]
    exact ⟨rfl, rfl, rfl⟩

/-- The stages of `allocate_slots` that does not raise: the tables are read, and then there is no room, or all groups
take their hits and their new blocks, and full blocks get their hashes. -/
def Stages (H : Hasher η) (s : KVCacheManager η) (r : Request) (numTokens numToCache : Int)
    (cols : List (List Nat)) (enc : Nat) (delayCacheBlocks : Bool) (s' : KVCacheManager η)
    (new : Option (List (List Nat))) : Prop :=
  ∃ skipped, s.removeSkippedBlocks r.requestId r.numComputedTokens = .ok skipped ∧
    (skipped.blockPool.getNumFreeBlocks < skipped.getNumBlocksToAllocate r.requestId numTokens cols enc ∧
        s' = skipped.withEntries r.requestId ∧ new = none ∨
      skipped.getNumBlocksToAllocate r.requestId numTokens cols enc ≤ skipped.blockPool.getNumFreeBlocks ∧
        ∃ taken extended blocks, (skipped.withEntries r.requestId).takeComputedBlocks r.requestId cols = .ok taken ∧
          taken.allocateNewBlocks r.requestId numTokens enc = .ok (extended, blocks) ∧ new = some blocks ∧
          (delayCacheBlocks = true ∧ s' = extended ∨
            delayCacheBlocks = false ∧ extended.cacheBlocks H r numToCache = .ok s'))

/-- The number of tokens `allocate_slots` finds slots for. -/
def slotTokens (s : KVCacheManager η) (r : Request) (numNew : Int) (numNewComputed lookahead : Nat) : Int :=
  min (r.numComputedTokens + numNewComputed + numNew + lookahead) s.maxModelLen

/-- What `allocate_slots` did. -/
lemma stages_of_ok {numNew : Int} {numNewComputed lookahead enc : Nat} {cols : List (List Nat)} {delay : Bool}
    {new : Option (List (List Nat))}
    (hok : s.allocateSlots H r numNew numNewComputed cols lookahead delay enc = .ok (s', new)) :
    numNew ≠ 0 ∧ Stages H s r (s.slotTokens r numNew numNewComputed lookahead)
      (min (r.numComputedTokens + numNewComputed + numNew) r.numTokens) cols enc delay s' new := by
  unfold KVCacheManager.allocateSlots at hok
  split at hok
  · cases hok
  next hnew =>
  refine ⟨hnew, ?_⟩
  cases hsk : s.removeSkippedBlocks r.requestId r.numComputedTokens with
  | error e =>
    rw [hsk] at hok
    cases hok
  | ok skipped =>
    have hmax : skipped.maxModelLen = s.maxModelLen := by
      unfold KVCacheManager.removeSkippedBlocks at hsk
      cases hf : forManagers (fun m p => m.removeSkippedBlocks p r.requestId r.numComputedTokens) s.managers
          s.blockPool with
      | error e =>
        rw [hf] at hsk
        cases hsk
      | ok e =>
        rw [hf] at hsk
        cases hsk
        rfl
    rw [hsk] at hok
    dsimp only [bind, Except.bind] at hok
    rw [hmax] at hok
    refine ⟨skipped, hsk, ?_⟩
    split at hok
    · next hroom =>
      cases hok
      exact .inl ⟨hroom, rfl, rfl⟩
    next hroom =>
    refine .inr ⟨not_lt.1 hroom, ?_⟩
    cases htk : (skipped.withEntries r.requestId).takeComputedBlocks r.requestId cols with
    | error e =>
      rw [htk] at hok
      cases hok
    | ok taken =>
      rw [htk] at hok
      dsimp only at hok
      cases hex : taken.allocateNewBlocks r.requestId (s.slotTokens r numNew numNewComputed lookahead) enc with
      | error e =>
        rw [slotTokens] at hex
        rw [hex] at hok
        cases hok
      | ok e =>
        obtain ⟨extended, blocks⟩ := e
        refine ⟨taken, extended, blocks, rfl, hex, ?_⟩
        rw [slotTokens] at hex
        rw [hex] at hok
        dsimp only at hok
        split at hok
        · next hd =>
          cases hok
          exact ⟨rfl, .inl ⟨hd, rfl⟩⟩
        · next hd =>
          cases hca : extended.cacheBlocks H r (min (r.numComputedTokens + numNewComputed + numNew) r.numTokens) with
          | error e =>
            rw [hca] at hok
            cases hok
          | ok cached =>
            rw [hca] at hok
            cases hok
            exact ⟨rfl, .inr ⟨by simpa using hd, rfl⟩⟩

/-- Slots keep blocks in their places, and every group has an entry for the request. -/
lemma SoundAt.allocateSlots {numTokens numToCache : Int} {enc n : Nat} {cols : List (List Nat)} {delay : Bool}
    {new : Option (List (List Nat))} (inj : H.Injective) (h : s.SoundAt H) (hcols : s.HitFor H r n cols)
    (hst : Stages H s r numTokens numToCache cols enc delay s' new) :
    s'.SoundAt H ∧ Keeps r.requestId s s' ∧ ∀ m ∈ s'.managers, r.requestId ∈ m.reqToBlocks := by
  obtain ⟨skipped, hsk, hrest⟩ := hst
  obtain ⟨h₁, hk₁, -, hcache⟩ := h.removeSkippedBlocks hsk
  obtain ⟨h₂, hk₂⟩ := h₁.withEntries r.requestId
  have hent₂ : ∀ m ∈ (skipped.withEntries r.requestId).managers, r.requestId ∈ m.reqToBlocks := by
    intro m hm
    obtain ⟨m, -, rfl⟩ := List.mem_map.1 hm
    exact mem_withEntry m r.requestId
  have hentries : ∀ {t t' : KVCacheManager η}, Keeps r.requestId t t' → (∀ m ∈ t.managers, r.requestId ∈ m.reqToBlocks) →
      ∀ m ∈ t'.managers, r.requestId ∈ m.reqToBlocks := by
    intro t t' hk ht m' hm'
    obtain ⟨m, hm, hmm⟩ := exists_left_of_forall₂ hk.groups hm'
    exact hmm.entries _ (ht m hm)
  rcases hrest with ⟨-, rfl, -⟩ | ⟨-, taken, extended, blocks, htk, hex, -, hend⟩
  · exact ⟨h₂, hk₁.trans hk₂, hent₂⟩
  have hcols₂ : (skipped.withEntries r.requestId).HitFor H r n cols := by
    refine forall₂_of_left (hk₁.trans hk₂).shape.groups hcols fun m m' col hg hcol => ⟨hcol.1, fun i b hi => ?_⟩
    rw [hg.spec, hg.groupId]
    show EntryAt skipped.blockPool.cachedBlockHashToBlock _ _ _ _ _
    rw [hcache]
    exact hcol.2 i b hi
  obtain ⟨h₃, hk₃, -⟩ := h₂.takeComputedBlocks inj hcols₂ htk
  obtain ⟨h₄, hk₄, -⟩ := h₃.allocateNewBlocks hex
  have hk := ((hk₁.trans hk₂).trans hk₃).trans hk₄
  have hent₄ := hentries hk₄ (hentries hk₃ hent₂)
  rcases hend with ⟨-, rfl⟩ | ⟨-, hca⟩
  · exact ⟨h₄, hk, hent₄⟩
  · obtain ⟨h₅, hk₅, -⟩ := h₄.cacheBlocks hca
    exact ⟨h₅, hk.trans hk₅, hentries hk₅ hent₄⟩

/-- What any run keeps: blocks are in their places, and a request with blocks has an entry in every group. -/
structure Steady (H : Hasher η) (s : KVCacheManager η) : Prop where
  laid : s.Laid H
  sound : s.SoundAt H
  entered : ∀ x, (∃ m ∈ s.managers, m.table x ≠ []) → ∀ m ∈ s.managers, x ∈ m.reqToBlocks

omit [DecidableEq η] in
/-- Entries after a call about one request that has one in every group, or no new blocks. -/
lemma Keeps.entered (hk : Keeps rid s s') (h : ∀ x, (∃ m ∈ s.managers, m.table x ≠ []) → ∀ m ∈ s.managers, x ∈ m.reqToBlocks)
    (hrid : (∀ m ∈ s'.managers, rid ∈ m.reqToBlocks) ∨ List.Forall₂ (fun m m' => m'.table rid = m.table rid) s.managers s'.managers) :
    ∀ x, (∃ m ∈ s'.managers, m.table x ≠ []) → ∀ m ∈ s'.managers, x ∈ m.reqToBlocks := by
  rintro x ⟨m₁, hm₁, hne⟩ m' hm'
  have hold : (∃ m ∈ s.managers, m.table x ≠ []) → x ∈ m'.reqToBlocks := by
    intro hx
    obtain ⟨m, hm, hmm⟩ := exists_left_of_forall₂ hk.groups hm'
    exact hmm.entries x (h x hx m hm)
  by_cases hx : x = rid
  · subst hx
    rcases hrid with hall | hsame
    · exact hall m' hm'
    · obtain ⟨m, hm, he⟩ := exists_left_of_forall₂ hsame hm₁
      exact hold ⟨m, hm, he ▸ hne⟩
  · obtain ⟨m, hm, hmm⟩ := exists_left_of_forall₂ hk.groups hm₁
    exact hold ⟨m, hm, hmm.other x hx ▸ hne⟩

omit [DecidableEq η] in
/-- Counting common blocks reads a table at most. -/
lemma fst_getNumCommonPrefixBlocks (m : SingleTypeManager) (p : BlockPool η) (rid : ReqId) :
    (m.getNumCommonPrefixBlocks p rid).1 = m ∨ (m.getNumCommonPrefixBlocks p rid).1 = m.withEntry rid := by
  unfold SingleTypeManager.getNumCommonPrefixBlocks
  split
  · exact .inr rfl
  · exact .inl rfl

lemma Steady.getNumCommonPrefixBlocks (h : s.Steady H) (rid : ReqId) :
    (s.getNumCommonPrefixBlocks rid).1.Steady H ∧ SameShape s (s.getNumCommonPrefixBlocks rid).1 := by
  unfold KVCacheManager.getNumCommonPrefixBlocks
  split
  · dsimp only
    rw [List.map_map]
    obtain ⟨h', hg⟩ := Sound.read h.sound rid fun m => fst_getNumCommonPrefixBlocks m s.blockPool rid
    have hk := Keeps.of_groups hg (.refl s.blockPool)
    refine ⟨⟨h.laid.congr hk.shape, h', hk.entered h.entered (.inr ?_)⟩, hk.shape⟩
    refine List.forall₂_map_right_iff.2 (List.forall₂_same.2 fun m _ => ?_)
    rcases fst_getNumCommonPrefixBlocks m s.blockPool rid with he | he
    · rw [he]
    · rw [he, table_withEntry]
  · exact ⟨h, .refl s⟩

/-- A call that does not raise keeps the invariant. -/
lemma Steady.call {c : Call} (h : s.Steady H) (inj : H.Injective) (hissued : Issued H s c) (hok : s.call H c = .ok s') :
    s'.Steady H ∧ SameShape s s' := by
  cases c with
  | getComputedBlocks r =>
    rw [KVCacheManager.call] at hok
    cases hg : s.getComputedBlocks H r with
    | error e =>
      rw [hg] at hok
      cases hok
    | ok e =>
      rw [hg] at hok
      cases hok
      exact ⟨h, .refl _⟩
  | allocateSlots r numNew numNewComputed cols lookahead delay enc =>
    rw [KVCacheManager.call] at hok
    cases ha : s.allocateSlots H r numNew numNewComputed cols lookahead delay enc with
    | error e =>
      rw [ha] at hok
      cases hok
    | ok e =>
      obtain ⟨t, new⟩ := e
      rw [ha] at hok
      cases hok
      obtain ⟨n, -, -, -, hcols⟩ := h.laid.passed hissued.2
      obtain ⟨h', hk, hent⟩ := h.sound.allocateSlots inj hcols (stages_of_ok ha).2
      exact ⟨⟨h.laid.congr hk.shape, h', hk.entered h.entered (.inl hent)⟩, hk.shape⟩
  | cacheBlocks r numComputed =>
    obtain ⟨h', hk, hcase⟩ := h.sound.cacheBlocks hok
    have hsame : List.Forall₂ (fun m m' => SingleTypeManager.table m' r.requestId = m.table r.requestId) s.managers
        s'.managers := by
      rcases hcase with ⟨-, rfl⟩ | ⟨-, hc⟩
      · exact List.forall₂_same.2 fun _ _ => rfl
      · exact hc.imp fun _ _ hc => hc.table _
    exact ⟨⟨h.laid.congr hk.shape, h', hk.entered h.entered (.inr hsame)⟩, hk.shape⟩
  | getNumCommonPrefixBlocks rid =>
    cases hok
    exact h.getNumCommonPrefixBlocks rid
  | free rid =>
    obtain ⟨h', hshape, hms⟩ := h.sound.free hok
    refine ⟨⟨h.laid.congr hshape, h', fun x hx m' hm' => ?_⟩, hshape⟩
    rw [hms] at hx hm'
    obtain ⟨m₁, hm₁, hne⟩ := hx
    obtain ⟨m, hm, rfl⟩ := List.mem_map.1 hm'
    obtain ⟨m₂, hm₂, rfl⟩ := List.mem_map.1 hm₁
    rw [table_dropTable] at hne
    split at hne
    · exact absurd rfl hne
    · next hx => exact Dict.mem_erase.2 ⟨hx, h.entered x ⟨m₂, hm₂, hne⟩ m hm⟩
  | resetPrefixCache =>
    cases hok
    obtain ⟨h', hs⟩ := Sound.reset h.sound
    have hshape : SameShape s s.resetPrefixCache.1 := ⟨List.forall₂_same.2 fun m _ => .refl m, hs, rfl, rfl⟩
    exact ⟨⟨h.laid.congr hshape, h', h.entered⟩, hshape⟩

/-- A new manager keeps the invariant. -/
lemma Steady.init {maxModelLen numGpuBlocks : Nat} {useEagle enableCaching : Bool}
    {groups : List (AttentionSpec × Nat)} (hpos : 0 < numGpuBlocks)
    (hlaid : (KVCacheManager.init maxModelLen useEagle numGpuBlocks enableCaching groups : KVCacheManager η).Laid H) :
    (KVCacheManager.init maxModelLen useEagle numGpuBlocks enableCaching groups : KVCacheManager η).Steady H := by
  have htable : ∀ m ∈ (KVCacheManager.init maxModelLen useEagle numGpuBlocks enableCaching groups : KVCacheManager η).managers,
      ∀ rid, m.table rid = [] := by
    intro m hm rid
    obtain ⟨i, hi, rfl⟩ := List.mem_mapIdx.1 hm
    rfl
  refine ⟨hlaid, ⟨(Accounts.init hpos enableCaching).books.congr fun b _ => ?_, ?_, fun m hm x b _ => ?_,
    fun m hm x i b k _ hget => ?_, fun m hm _ => ⟨fun x => ?_, fun k => ?_⟩⟩, fun x hx => ?_⟩
  · refine List.sum_eq_zero fun x hx => ?_
    obtain ⟨m, hm, rfl⟩ := List.mem_map.1 hx
    exact SingleTypeManager.holds_eq_zero (htable m hm) b
  · rw [hlaid.groupIds]
    exact List.nodup_range
  · rw [htable m hm]
    exact Nat.zero_le 1
  · rw [htable m hm] at hget
    cases hget
  · rw [htable m hm]
    exact List.not_mem_nil
  · rintro ⟨e, he, -⟩
    cases he
  · obtain ⟨m, hm, hne⟩ := hx
    exact absurd (htable m hm x) hne

/-- A run of issued calls that does not raise keeps the invariant. -/
lemma Steady.run {s₀ : KVCacheManager η} (h : s₀.Steady H) (inj : H.Injective) {calls : List Call} {o : List Unit}
    (run : (kvMachine H s₀).Runs calls o (.ok s)) (issued : (kvMachine H s₀).Along (OnManager (Issued H)) calls) :
    s.Steady H ∧ SameShape s₀ s := by
  generalize ht : (Except.ok s : Except Unit (KVCacheManager η)) = t at run
  induction run generalizing s with
  | init =>
    cases ht
    exact ⟨h, .refl _⟩
  | @step calls o t c run _ ih =>
    obtain ⟨issued, hi⟩ := run.along_concat_iff.1 issued
    cases t with
    | error e => cases ht
    | ok t =>
      obtain ⟨h', hs⟩ := ih issued rfl
      obtain ⟨h'', hs'⟩ := h'.call inj hi ht.symm
      exact ⟨h'', hs.trans hs'⟩

end KVCacheManager
end Gambit.KV
