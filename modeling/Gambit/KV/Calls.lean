import Gambit.KV.Hits

/-!
# The calls of the KV cache manager

`allocate_slots` is four loops over the groups: skipped blocks leave the tables, computed blocks go into them,
new blocks are appended, full blocks are cached. Each loop is specified by a relation between the managers before
and after it, and keeps the invariant `Inv`: the accounts of the pool, the tables, and that the tables of a
request have in every group the length for one number of tokens, so that the blocks needed in all groups together
are there when there are enough in the sum.
-/

namespace Gambit.KV
open Gambit.Lib Gambit.Sched SingleTypeManager

variable {η : Type} [DecidableEq η]

lemma forall₂_trans {α : Type} {R : α → α → Prop} (htrans : ∀ a b c, R a b → R b c → R a c) {l l' l'' : List α}
    (h : List.Forall₂ R l l') (h' : List.Forall₂ R l' l'') : List.Forall₂ R l l'' := by
  induction h generalizing l'' with
  | nil =>
    cases h'
    exact .nil
  | cons hab _ ih =>
    cases h' with
    | cons hbc hrest => exact .cons (htrans _ _ _ hab hbc) (ih hrest)

/-- An element on the right comes from one on the left. -/
lemma exists_left_of_forall₂ {α β : Type} {R : α → β → Prop} {l : List α} {l' : List β} (h : List.Forall₂ R l l')
    {b : β} (hb : b ∈ l') : ∃ a ∈ l, R a b := by
  induction h with
  | nil => cases hb
  | cons hab _ ih =>
    rcases List.mem_cons.1 hb with rfl | hb
    · exact ⟨_, List.mem_cons_self, hab⟩
    · obtain ⟨a, ha, hr⟩ := ih hb
      exact ⟨a, List.mem_cons_of_mem _ ha, hr⟩

lemma eq_map_of_forall₂ {α β : Type} {f : α → β} {l : List α} {l' : List β}
    (h : List.Forall₂ (fun a b => b = f a) l l') : l' = l.map f := by
  induction h with
  | nil => rfl
  | cons hab _ ih => rw [List.map_cons, hab, ih]

lemma cdiv_mono {a a' b : Int} (hb : 0 < b) (h : a ≤ a') : cdiv a b ≤ cdiv a' b := by
  unfold cdiv
  have := Int.ediv_le_ediv hb (Int.neg_le_neg h)
  omega

lemma cdiv_zero (b : Int) : cdiv 0 b = 0 := by simp [cdiv]

lemma cdiv_mul (n : Nat) {b : Nat} (hb : 0 < b) : cdiv ((n * b : Nat) : Int) b = n := by
  unfold cdiv
  have hb' : (b : Int) ≠ 0 := by exact_mod_cast hb.ne'
  rw [Nat.cast_mul, ← Int.neg_mul, Int.mul_ediv_cancel _ hb', Int.neg_neg]

lemma cdiv_nonpos {a b : Int} (hb : 0 < b) (h : a ≤ 0) : cdiv a b ≤ 0 := by
  have := cdiv_mono hb h
  rwa [cdiv_zero] at this

namespace KVCacheManager

/-- The tables of a request are as long as one number of tokens needs them to be. -/
def Aligned (s : KVCacheManager η) (rid : ReqId) : Prop :=
  ∃ n : Nat, ∀ m ∈ s.managers, ((m.table rid).length : Int) = cdiv n m.blockSize

/-- What the manager keeps. -/
structure Inv (H : Hasher η) (s : KVCacheManager η) : Prop where
  shaped : s.Shaped H
  accounts : Accounts s.blockPool (held s.managers)
  tables : ∀ m ∈ s.managers, TableInv s.blockPool m
  aligned : ∀ rid, s.Aligned rid

/-- What no call changes. -/
structure SameShape (s s' : KVCacheManager η) : Prop where
  groups : List.Forall₂ SameGroup s.managers s'.managers
  pool : SamePool s.blockPool s'.blockPool
  maxModelLen : s'.maxModelLen = s.maxModelLen
  useEagle : s'.useEagle = s.useEagle

variable {H : Hasher η} {s s' : KVCacheManager η} {rid : ReqId} {r : Request}

omit [DecidableEq η] in
lemma SameShape.refl (s : KVCacheManager η) : SameShape s s :=
  ⟨List.forall₂_same.2 fun m _ => .refl m, .refl _, rfl, rfl⟩

omit [DecidableEq η] in
lemma SameShape.trans {s'' : KVCacheManager η} (h : SameShape s s') (h' : SameShape s' s'') : SameShape s s'' :=
  ⟨forall₂_trans (R := SameGroup) (fun _ _ _ hab hbc => hab.trans hbc) h.groups h'.groups, h.pool.trans h'.pool,
    h'.maxModelLen.trans h.maxModelLen, h'.useEagle.trans h.useEagle⟩

omit [DecidableEq η] in
/-- The shape of the groups is what the constructors check. -/
lemma Laid.congr (h : s.Laid H) (hs : SameShape s s') : s'.Laid H := by
  have hlen : s'.managers.length = s.managers.length := hs.groups.length_eq.symm
  have hcaching : s'.blockPool.enableCaching = true → s.blockPool.enableCaching = true := fun hc =>
    hs.pool.enableCaching ▸ hc
  refine ⟨?_, fun m' hm' => ?_, fun hc m' hm' => ?_, fun hc => ?_⟩
  · have hids : s'.managers.map SingleTypeManager.groupId = s.managers.map SingleTypeManager.groupId := by
      have hg := hs.groups
      generalize s.managers = l at hg
      generalize s'.managers = l' at hg
      induction hg with
      | nil => rfl
      | cons hab _ ih => rw [List.map_cons, List.map_cons, ih, hab.groupId]
    rw [hids, h.groupIds, hlen]
  · obtain ⟨m, hm, hg⟩ := exists_left_of_forall₂ hs.groups hm'
    rw [hg.blockSize]
    exact h.blockSize_pos m hm
  · obtain ⟨m, hm, hg⟩ := exists_left_of_forall₂ hs.groups hm'
    rw [hg.blockSize]
    exact h.blockSize (hcaching hc) m hm
  · have hsplit : ∀ a b, s.managers = a ++ b → ∃ a' b', s'.managers = a' ++ b' ∧ List.Forall₂ SameGroup a a' ∧
        List.Forall₂ SameGroup b b' := by
      intro a b hab
      have hg := hs.groups
      rw [hab] at hg
      refine ⟨s'.managers.take a.length, s'.managers.drop a.length, (List.take_append_drop ..).symm, ?_, ?_⟩
      · exact (List.forall₂_take_append _ _ _ hg.flip).flip
      · exact (List.forall₂_drop_append _ _ _ hg.flip).flip
    have hspec : ∀ (P : AttentionSpec → Prop) {a a' : List SingleTypeManager}, List.Forall₂ SameGroup a a' →
        (∀ m ∈ a, P m.spec) → ∀ m ∈ a', P m.spec := by
      intro P a a' hg hP m' hm'
      obtain ⟨m, hm, hsame⟩ := exists_left_of_forall₂ hg hm'
      rw [hsame.spec]
      exact hP m hm
    have hne : ∀ {a a' : List SingleTypeManager}, List.Forall₂ SameGroup a a' → a ≠ [] → a' ≠ [] := by
      intro a a' hg ha he
      subst he
      cases hg
      exact ha rfl
    rcases h.kinds (hcaching hc) with ⟨m, hm⟩ | ⟨fulls, others, hf, ho, hfull, hother, he⟩
    · left
      have hg := hs.groups
      rw [hm] at hg
      generalize s'.managers = l at hg
      cases hg with
      | cons _ hrest =>
        cases hrest
        exact ⟨_, rfl⟩
    · right
      rcases he with he | he
      · obtain ⟨a', b', hab, ha, hb⟩ := hsplit _ _ he
        exact ⟨a', b', hne ha hf, hne hb ho, hspec (· = .full) ha hfull, hspec (· ≠ .full) hb hother, .inl hab⟩
      · obtain ⟨b', a', hab, hb, ha⟩ := hsplit _ _ he
        exact ⟨a', b', hne ha hf, hne hb ho, hspec (· = .full) ha hfull, hspec (· ≠ .full) hb hother, .inr hab⟩

omit [DecidableEq η] in
/-- The shape of the groups is what the searches need. -/
lemma Shaped.congr (h : s.Shaped H) (hs : SameShape s s') : s'.Shaped H := by
  have hl := h.laid.congr hs
  refine ⟨hl.groupIds, hl.blockSize_pos, hl.blockSize, fun he m' hm' c => ?_, fun m' hm' => ?_, hl.kinds⟩
  · obtain ⟨m, hm, hg⟩ := exists_left_of_forall₂ hs.groups hm'
    rw [hg.spec]
    exact h.eagle (hs.useEagle ▸ he) m hm c
  · obtain ⟨m, hm, hg⟩ := exists_left_of_forall₂ hs.groups hm'
    rw [hg.spec]
    exact h.attention m hm

/-- The blocks before the attention of the next token are in the tables of the request and, with caching, cached.
This is what `remove_skipped_blocks` relies on. -/
def Safe (s : KVCacheManager η) (rid : ReqId) (numComputed : Int) : Prop :=
  ∀ m ∈ s.managers, m.numSkippedBlocks numComputed ≤ (m.table rid).length ∧
    (s.blockPool.enableCaching = true → m.numSkippedBlocks numComputed ≤ m.numCached rid)

instance (s : KVCacheManager η) (rid : ReqId) (numComputed : Int) : Decidable (s.Safe rid numComputed) :=
  inferInstanceAs (Decidable (∀ m ∈ s.managers, _))

/-- What `remove_skipped_blocks` does to a group. -/
structure SkippedIn (rid : ReqId) (m m' : SingleTypeManager) : Prop where
  group : SameGroup m m'
  numCachedBlock : m'.numCachedBlock = m.numCachedBlock
  other : ∀ x, x ≠ rid → m'.table x = m.table x
  length : (m'.table rid).length = (m.table rid).length
  entry : ∀ i : Nat, (m'.table rid)[i]? = (m.table rid)[i]? ∨ (m'.table rid)[i]? = some 0

/-- What `remove_skipped_blocks` does. -/
structure Skipped (rid : ReqId) (s s' : KVCacheManager η) : Prop where
  shape : SameShape s s'
  groups : List.Forall₂ (SkippedIn rid) s.managers s'.managers
  handedOut : s'.blockPool.handedOut = s.blockPool.handedOut
  blockHash : ∀ b, s'.blockPool.blockHash b = s.blockPool.blockHash b

/-- A table keeps its length when blocks are skipped. -/
lemma SkippedIn.length_table {m m' : SingleTypeManager} (h : SkippedIn rid m m') (x : ReqId) :
    (m'.table x).length = (m.table x).length := by
  by_cases hx : x = rid
  · rw [hx, h.length]
  · rw [h.other x hx]

lemma Inv.removeSkippedBlocks {numComputed : Int} (h : s.Inv H) (hsafe : s.Safe rid numComputed) :
    ∃ s', s.removeSkippedBlocks rid numComputed = .ok s' ∧ s'.Inv H ∧ Skipped rid s s' := by
  obtain ⟨ms, p, as, hf, ha, ht, hs, -, hT, hS⟩ := forManagers_rule
    (fun m p => m.removeSkippedBlocks p rid numComputed)
    (fun ms p => p.enableCaching = s.blockPool.enableCaching ∧
      ∀ m ∈ ms, m.numSkippedBlocks numComputed ≤ (m.table rid).length ∧
        (s.blockPool.enableCaching = true → m.numSkippedBlocks numComputed ≤ m.numCached rid))
    (fun m m' _ => SkippedIn rid m m')
    (fun p p' : BlockPool η => p'.handedOut = p.handedOut ∧ ∀ b, p'.blockHash b = p.blockHash b)
    (fun _ => ⟨rfl, fun _ => rfl⟩)
    (fun _ _ _ h h' => ⟨h'.1.trans h.1, fun b => (h'.2 b).trans (h.2 b)⟩)
    (fun _ _ _ _ hT _ => hT)
    (fun m ms p other ha ht hpre => by
      obtain ⟨hlen, hcached⟩ := hpre.2 m List.mem_cons_self
      obtain ⟨m', p', hf, hg, hsame, hnum, hother, hlen', hent, hout, hhash⟩ :=
        removeSkippedBlocks_step ha ht hlen fun hc => hcached (hpre.1 ▸ hc)
      exact ⟨m', p', (), hf, hg, ⟨hsame, hnum, hother, hlen', hent⟩, ⟨hout, hhash⟩,
        hg.pool.enableCaching.trans hpre.1, fun x hx => hpre.2 x (List.mem_cons_of_mem m hx)⟩)
    s.managers s.blockPool (fun _ => 0) (h.accounts.congr fun b _ => Nat.zero_add _) h.tables ⟨rfl, hsafe⟩
  have hshape : SameShape s { s with managers := ms, blockPool := p } :=
    ⟨hT.imp fun _ _ hT => hT.group, hs, rfl, rfl⟩
  refine ⟨_, ?_, ⟨h.shaped.congr hshape, ha.congr fun b _ => (Nat.zero_add _).symm, ht, fun x => ?_⟩,
    ⟨hshape, hT, hS.1, hS.2⟩⟩
  · unfold KVCacheManager.removeSkippedBlocks
    rw [hf]
    rfl
  · obtain ⟨n, hn⟩ := h.aligned x
    refine ⟨n, fun m' hm' => ?_⟩
    obtain ⟨m, hm, hT⟩ := exists_left_of_forall₂ hT hm'
    rw [hT.length_table x, hT.group.blockSize]
    exact hn m hm

/-- The manager has no blocks of the request and has not cached any for it. -/
def Unknown (s : KVCacheManager η) (rid : ReqId) : Prop :=
  ∀ m ∈ s.managers, m.table rid = [] ∧ rid ∉ m.numCachedBlock

instance (s : KVCacheManager η) (rid : ReqId) : Decidable (s.Unknown rid) :=
  inferInstanceAs (Decidable (∀ m ∈ s.managers, _))

/-- Proper hits for all groups. -/
def Hits (H : Hasher η) (s : KVCacheManager η) (r : Request) (len : Nat) (cols : List (List Nat)) : Prop :=
  List.Forall₂ (fun m col => HitOk s.blockPool.cachedBlockHashToBlock (H.blockHashes r) len m.groupId col)
    s.managers cols

/-- What taking over computed blocks does to a group: they become the table of the request. -/
structure TakenIn (rid : ReqId) (col : List Nat) (m m' : SingleTypeManager) : Prop where
  group : SameGroup m m'
  other : ∀ x, x ≠ rid → m'.table x = m.table x ∧ m'.numCached x = m.numCached x
  table : m'.table rid = m.table rid ++ col
  numCached : m'.numCached rid = m.numCached rid + col.length

/-- What taking over computed blocks does. -/
structure Taken (rid : ReqId) (cols : List (List Nat)) (s s' : KVCacheManager η) : Prop where
  shape : SameShape s s'
  groups : List.Forall₂ (fun (e : SingleTypeManager × List Nat) m' => TakenIn rid e.2 e.1 m') (s.managers.zip cols)
    s'.managers
  handedOut : s'.blockPool.handedOut = s.blockPool.handedOut
  blockHash : ∀ b, s'.blockPool.blockHash b = s.blockPool.blockHash b
  room : s.blockPool.freeBlockQueue.length ≤ s'.blockPool.freeBlockQueue.length +
    cols.flatten.countP fun b => s.blockPool.refCnt b = 0 ∧ b ≠ 0

/-- One group takes its computed blocks. -/
lemma saveNewComputedBlocks_eq {m : SingleTypeManager} (col : List Nat) (hs : m.spec ≠ .crossAttention)
    (ht : m.table rid = []) (hn : rid ∉ m.numCachedBlock) :
    ∃ m', m.saveNewComputedBlocks rid col = .ok m' ∧ TakenIn rid col m m' ∧
      ∀ b, m'.holds b = m.holds b + col.count b := by
  have hz : m.numCached rid = 0 := by
    rw [SingleTypeManager.numCached, Dict.getD_eq, Dict.get?_eq_none.2 hn, Option.getD_none]
  refine ⟨(m.setTable rid col).setCached rid col.length, ?_, ⟨⟨rfl, rfl, rfl⟩, fun x hx => ⟨?_, ?_⟩, ?_, ?_⟩,
    fun b => ?_⟩
  · unfold SingleTypeManager.saveNewComputedBlocks
    rw [if_neg hs, if_neg hn, if_pos ht]
    rfl
  · exact (m.table_setTable rid col x).trans (if_neg hx)
  · rw [numCached_setCached, if_neg hx]
    rfl
  · rw [ht, List.nil_append]
    exact (m.table_setTable rid col rid).trans (if_pos rfl)
  · rw [numCached_setCached, if_pos rfl, hz, Nat.zero_add]
  · have hh := m.holds_setTable rid col b
    rw [ht, List.count_nil, Nat.add_zero] at hh
    exact hh

/-- All groups take their computed blocks. -/
lemma saveAll_eq (ms : List SingleTypeManager) (cols : List (List Nat)) (hlen : ms.length = cols.length)
    (hs : ∀ m ∈ ms, m.spec ≠ .crossAttention) (hu : ∀ m ∈ ms, m.table rid = [] ∧ rid ∉ m.numCachedBlock) :
    ∃ ms', (ms.zip cols).mapM (fun e => e.1.saveNewComputedBlocks rid e.2) = .ok ms' ∧
      List.Forall₂ (fun (e : SingleTypeManager × List Nat) m' => TakenIn rid e.2 e.1 m') (ms.zip cols) ms' ∧
      ∀ b, held ms' b = held ms b + cols.flatten.count b := by
  induction ms generalizing cols with
  | nil =>
    cases cols with
    | nil => exact ⟨[], rfl, .nil, fun _ => rfl⟩
    | cons _ _ => cases hlen
  | cons m ms ih =>
    cases cols with
    | nil => cases hlen
    | cons col cols =>
      obtain ⟨ht, hn⟩ := hu m List.mem_cons_self
      obtain ⟨m', hm', hT, hh⟩ := saveNewComputedBlocks_eq col (hs m List.mem_cons_self) ht hn
      obtain ⟨ms', hms', hTs, hhs⟩ := ih cols (Nat.succ.inj hlen) (fun x hx => hs x (List.mem_cons_of_mem m hx))
        fun x hx => hu x (List.mem_cons_of_mem m hx)
      refine ⟨m' :: ms', ?_, .cons hT hTs, fun b => ?_⟩
      · rw [List.zip_cons_cons, List.mapM_cons, hm', hms']
        rfl
      · rw [held_cons, held_cons, hh, hhs, List.flatten_cons, List.count_append]
        omega

lemma forall₂_zip_left {α β γ : Type} {R : α → β → Prop} {Q : α × β → γ → Prop} {P : α → γ → Prop} {l : List α}
    {l' : List β} {l'' : List γ} (h : List.Forall₂ R l l') (h' : List.Forall₂ Q (l.zip l') l'')
    (hP : ∀ a b c, R a b → Q (a, b) c → P a c) : List.Forall₂ P l l'' := by
  induction h generalizing l'' with
  | nil =>
    cases h'
    exact .nil
  | cons hab _ ih =>
    cases h' with
    | cons hq hrest => exact .cons (hP _ _ _ hab hq) (ih hrest)

omit [DecidableEq η] in
/-- No computed blocks change nothing. -/
lemma takeNothing {cols : List (List Nat)} (hlen : s.managers.length = cols.length)
    (hempty : cols.all List.isEmpty = true) :
    s.takeComputedBlocks rid cols = .ok s ∧ Taken rid cols s s := by
  have hnil : ∀ col ∈ cols, col = [] := fun col hcol => List.isEmpty_iff.1 (List.all_eq_true.1 hempty col hcol)
  refine ⟨if_pos hempty, .refl s, ?_, rfl, fun _ => rfl, Nat.le_add_right _ _⟩
  generalize s.managers = ms at hlen
  induction ms generalizing cols with
  | nil =>
    cases cols with
    | nil => exact .nil
    | cons _ _ => cases hlen
  | cons m ms ih =>
    cases cols with
    | nil => cases hlen
    | cons col cols =>
      have hcol := hnil col List.mem_cons_self
      subst hcol
      refine .cons ⟨.refl m, fun _ _ => ⟨rfl, rfl⟩, (List.append_nil _).symm, rfl⟩ (ih ?_ ?_ (Nat.succ.inj hlen))
      · exact List.all_eq_true.2 fun x hx => List.all_eq_true.1 hempty x (List.mem_cons_of_mem _ hx)
      · exact fun x hx => hnil x (List.mem_cons_of_mem _ hx)

/-- The computed blocks of a request the manager does not know become its tables. -/
lemma Inv.takeComputedBlocks {len : Nat} {cols : List (List Nat)} (h : s.Inv H) (inj : H.Injective)
    (hu : s.Unknown rid) (hits : Hits H s r len cols) (hoff : s.blockPool.enableCaching = false → len = 0) :
    ∃ s', s.takeComputedBlocks rid cols = .ok s' ∧ s'.Inv H ∧ Taken rid cols s s' := by
  have hlen : s.managers.length = cols.length := hits.length_eq
  by_cases hempty : cols.all List.isEmpty = true
  · obtain ⟨hok, htaken⟩ : s.takeComputedBlocks rid cols = .ok s ∧ Taken rid cols s s := takeNothing hlen hempty
    exact ⟨s, hok, h, htaken⟩
  have hc : s.blockPool.enableCaching = true := by
    cases hcase : s.blockPool.enableCaching with
    | true => rfl
    | false =>
      refine absurd (List.all_eq_true.2 fun col hcol => ?_) hempty
      obtain ⟨m, -, hhit⟩ := exists_left_of_forall₂ hits hcol
      rw [List.isEmpty_iff, ← List.length_eq_zero_iff, hhit.length, hoff hcase]
  have htouch : ∀ b ∈ cols.flatten, b = 0 ∨ s.blockPool.blockHash b ≠ none := by
    intro b hb
    obtain ⟨col, hcol, hbc⟩ := List.mem_flatten.1 hb
    obtain ⟨m, -, hhit⟩ := exists_left_of_forall₂ hits hcol
    obtain ⟨i, hi⟩ := List.getElem?_of_mem hbc
    refine (hhit.entry i b hi).imp id fun ⟨k, _, hst⟩ hnone => ?_
    rw [(h.accounts.stored b _).2 hst] at hnone
    cases hnone
  obtain ⟨p', hp', ha', hs, hout, hhash, hroom⟩ := h.accounts.touch htouch
  obtain ⟨ms', hms', hTs, hheld⟩ := saveAll_eq s.managers cols hlen (fun m hm => (h.shaped.attention m hm).1) hu
  have hT : List.Forall₂ (fun m m' => ∃ col, HitOk s.blockPool.cachedBlockHashToBlock (H.blockHashes r) len m.groupId
      col ∧ TakenIn rid col m m') s.managers ms' :=
    forall₂_zip_left hits hTs fun m col m' hhit htk => ⟨col, hhit, htk⟩
  have hshape : SameShape s { s with blockPool := p', managers := ms' } :=
    ⟨hT.imp fun m m' ⟨_, _, htk⟩ => htk.group, hs, rfl, rfl⟩
  refine ⟨_, ?_, ⟨h.shaped.congr hshape, ha'.congr fun b _ => hheld b, fun m' hm' => ?_, fun x => ?_⟩,
    ⟨hshape, hTs, hout, hhash, hroom⟩⟩
  · unfold KVCacheManager.takeComputedBlocks
    rw [if_neg hempty, if_neg (by rw [hc]; exact Bool.noConfusion), hp', hms']
    rfl
  · obtain ⟨m, hm, col, hhit, htk⟩ := exists_left_of_forall₂ hT hm'
    have ht := h.tables m hm
    obtain ⟨htab, hnum⟩ := hu m hm
    have hz : m.numCached rid = 0 := by
      rw [SingleTypeManager.numCached, Dict.getD_eq, Dict.get?_eq_none.2 hnum, Option.getD_none]
    refine ⟨fun x b h0 => ?_, fun _ x i b hi hget => ?_⟩
    · by_cases hx : x = rid
      · rw [hx, htk.table, htab, List.nil_append]
        exact hhit.count_le_one (inj.nodup_blockHashes r) h0 (h.accounts.stored b)
      · rw [(htk.other x hx).1]
        exact ht.distinct x b h0
    · rw [hhash]
      by_cases hx : x = rid
      · subst hx
        rw [htk.numCached, hz, Nat.zero_add] at hi
        rw [htk.table, htab, List.nil_append, List.getElem?_eq_none hi] at hget
        cases hget
      · rw [(htk.other x hx).1] at hget
        rw [(htk.other x hx).2] at hi
        exact ht.fresh hc x i b hi hget
  · by_cases hx : x = rid
    · subst hx
      refine ⟨len * H.blockSize, fun m' hm' => ?_⟩
      obtain ⟨m, hm, col, hhit, htk⟩ := exists_left_of_forall₂ hT hm'
      have hb : m.blockSize = H.blockSize := h.shaped.blockSize hc m hm
      rw [htk.table, (hu m hm).1, List.nil_append, hhit.length, htk.group.blockSize, hb,
        cdiv_mul len (hb ▸ h.shaped.blockSize_pos m hm)]
    · obtain ⟨n, hn⟩ := h.aligned x
      refine ⟨n, fun m' hm' => ?_⟩
      obtain ⟨m, hm, col, -, htk⟩ := exists_left_of_forall₂ hT hm'
      rw [(htk.other x hx).1, htk.group.blockSize]
      exact hn m hm

/-- What `allocate_new_blocks` does to a group. -/
structure ExtendedIn (rid : ReqId) (numTokens : Int) (m m' : SingleTypeManager) : Prop where
  group : SameGroup m m'
  numCachedBlock : m'.numCachedBlock = m.numCachedBlock
  other : ∀ x, x ≠ rid → m'.table x = m.table x
  table : ∃ new, m'.table rid = m.table rid ++ new ∧ new.length = m.numNewBlocks rid numTokens

/-- What `allocate_new_blocks` does. -/
structure Extended (rid : ReqId) (numTokens : Int) (s s' : KVCacheManager η) : Prop where
  shape : SameShape s s'
  groups : List.Forall₂ (ExtendedIn rid numTokens) s.managers s'.managers
  pool : ∃ l, l ⊆ s.blockPool.freeBlockQueue ∧ s'.blockPool.handedOut = s.blockPool.handedOut ++ l ∧
    ∀ b, s'.blockPool.blockHash b = if b ∈ l then none else s.blockPool.blockHash b

omit [DecidableEq η] in
/-- The groups of the invariant add no speculative blocks. -/
lemma Shaped.paddedTokens (hs : s.Shaped H) {m : SingleTypeManager} (hm : m ∈ s.managers) (numTokens : Int) :
    m.paddedTokens numTokens = numTokens := by
  unfold SingleTypeManager.paddedTokens
  split
  · next n he => exact absurd he ((hs.attention m hm).2 n)
  · rfl

lemma Inv.allocateNewBlocks {numTokens : Int} (enc : Nat) (h : s.Inv H)
    (hroom : (s.managers.map fun m => m.numNewBlocks rid numTokens).sum ≤ s.blockPool.freeBlockQueue.length) :
    ∃ s' new, s.allocateNewBlocks rid numTokens enc = .ok (s', new) ∧ s'.Inv H ∧ Extended rid numTokens s s' := by
  obtain ⟨ms, p, as, hf, ha, ht, hs, -, hT, -, l, hl, hout, hhash⟩ := forManagers_rule
    (fun m p => m.allocateNewBlocks p rid (if m.spec = .crossAttention then enc else numTokens))
    (fun ms p => (∀ m ∈ ms, m ∈ s.managers) ∧
      (ms.map fun m => m.numNewBlocks rid numTokens).sum ≤ p.freeBlockQueue.length)
    (fun m m' _ => ExtendedIn rid numTokens m m')
    (fun p p' : BlockPool η => p'.freeBlockQueue ⊆ p.freeBlockQueue ∧ ∃ l, l ⊆ p.freeBlockQueue ∧
      p'.handedOut = p.handedOut ++ l ∧ ∀ b, p'.blockHash b = if b ∈ l then none else p.blockHash b)
    (fun p => ⟨List.Subset.refl _, [], List.nil_subset _, (List.append_nil _).symm,
      fun b => (if_neg List.not_mem_nil).symm⟩)
    (fun p p' p'' h h' => by
      obtain ⟨hq, l, hl, hout, hhash⟩ := h
      obtain ⟨hq', l', hl', hout', hhash'⟩ := h'
      refine ⟨List.Subset.trans hq' hq, l ++ l', ?_, by rw [hout', hout, List.append_assoc], fun b => ?_⟩
      · exact List.append_subset.2 ⟨hl, List.Subset.trans hl' hq⟩
      · rw [hhash', hhash]
        by_cases hb' : b ∈ l'
        · simp [hb']
        · by_cases hb : b ∈ l
          · simp [hb]
          · simp [hb, hb'])
    (fun _ _ _ _ hT _ => hT)
    (fun m ms p other ha ht hpre => by
      obtain ⟨hmem, hpre⟩ := hpre
      rw [List.map_cons, List.sum_cons] at hpre
      have hcross := (h.shaped.attention m (hmem m List.mem_cons_self)).1
      obtain ⟨m', p', new, hf, hg, hsame, hnum, htab, hlen, hqlen, hq, hnew, hout, hhash⟩ :=
        allocateNewBlocks_step ha ht ((Nat.le_add_right _ _).trans hpre)
      rw [if_neg hcross]
      refine ⟨m', p', new, hf, hg, ⟨hsame, hnum, fun x hx => ?_, new, ?_, hlen⟩, ⟨hq, new, hnew, hout, hhash⟩,
        fun x hx => hmem x (List.mem_cons_of_mem m hx), ?_⟩
      · rw [htab, if_neg hx]
      · rw [htab, if_pos rfl]
      · omega)
    s.managers s.blockPool (fun _ => 0) (h.accounts.congr fun b _ => Nat.zero_add _) h.tables ⟨fun _ hm => hm, hroom⟩
  have hshape : SameShape s { s with managers := ms, blockPool := p } :=
    ⟨hT.imp fun _ _ hT => hT.group, hs, rfl, rfl⟩
  refine ⟨_, as, ?_, ⟨h.shaped.congr hshape, ha.congr fun b _ => (Nat.zero_add _).symm, ht, fun x => ?_⟩,
    ⟨hshape, hT, l, hl, hout, hhash⟩⟩
  · unfold KVCacheManager.allocateNewBlocks
    rw [hf]
    rfl
  · obtain ⟨n, hn⟩ := h.aligned x
    by_cases hx : x = rid
    · subst hx
      refine ⟨max n numTokens.toNat, fun m' hm' => ?_⟩
      obtain ⟨m, hm, hT⟩ := exists_left_of_forall₂ hT hm'
      obtain ⟨new, htab, hlen⟩ := hT.table
      have hb : (0 : Int) < m.blockSize := by exact_mod_cast h.shaped.blockSize_pos m hm
      have hnm := hn m hm
      rw [htab, List.length_append, hlen, hT.group.blockSize, SingleTypeManager.numNewBlocks, h.shaped.paddedTokens hm]
      rcases Nat.le_total n numTokens.toNat with hle | hle
      · rw [Nat.max_eq_right hle]
        by_cases h0 : 0 ≤ numTokens
        · have h1 : ((numTokens.toNat : Nat) : Int) = numTokens := Int.toNat_of_nonneg h0
          have hmono : cdiv n m.blockSize ≤ cdiv numTokens m.blockSize :=
            cdiv_mono hb (by rw [← h1]; exact_mod_cast hle)
          rw [h1]
          omega
        · have h1 : numTokens.toNat = 0 := Int.toNat_of_nonpos (by omega)
          have h2 := cdiv_nonpos hb (le_of_not_ge h0)
          have hn0 : n = 0 := by omega
          rw [h1]
          rw [hn0] at hnm
          omega
      · rw [Nat.max_eq_left hle]
        have hmono : cdiv numTokens m.blockSize ≤ cdiv n m.blockSize := cdiv_mono hb (by omega)
        omega
    · refine ⟨n, fun m' hm' => ?_⟩
      obtain ⟨m, hm, hT⟩ := exists_left_of_forall₂ hT hm'
      rw [hT.other x hx, hT.group.blockSize]
      exact hn m hm

/-- The number of full blocks among a number of tokens. -/
def numFull (m : SingleTypeManager) (numTokens : Int) : Nat := (numTokens / m.blockSize).toNat

/-- A block at a position of the table of a request that becomes full and was not cached. -/
def NewlyFull (rid : ReqId) (numTokens : Int) (m : SingleTypeManager) (i b : Nat) : Prop :=
  m.numCached rid ≤ i ∧ i < numFull m numTokens ∧ (m.table rid)[i]? = some b

/-- What `cache_blocks` does to a group, with the pool after all groups. -/
structure RegisteredIn (H : Hasher η) (r : Request) (numTokens : Int) (p : BlockPool η) (m m' : SingleTypeManager) :
    Prop where
  group : SameGroup m m'
  table : ∀ x, m'.table x = m.table x
  other : ∀ x, x ≠ r.requestId → m'.numCached x = m.numCached x ∧ (x ∈ m'.numCachedBlock ↔ x ∈ m.numCachedBlock)
  numCached : m'.numCached r.requestId = max (m.numCached r.requestId) (numFull m numTokens)
  hashed : ∀ i b, NewlyFull r.requestId numTokens m i b →
    ∃ k, (H.blockHashes r)[i]? = some k ∧ p.blockHash b = some (k, m.groupId)

/-- What `cache_blocks` does. -/
structure Registered (H : Hasher η) (r : Request) (numTokens : Int) (s s' : KVCacheManager η) : Prop where
  shape : SameShape s s'
  groups : List.Forall₂ (RegisteredIn H r numTokens s'.blockPool) s.managers s'.managers
  handedOut : s'.blockPool.handedOut = s.blockPool.handedOut
  blockHash : ∀ b, s'.blockPool.blockHash b = s.blockPool.blockHash b ∨ s.blockPool.blockHash b = none ∧
    ∃ m ∈ s.managers, ∃ i, NewlyFull r.requestId numTokens m i b

lemma Inv.cacheBlocks {numTokens : Int} (h : s.Inv H) (hc : s.blockPool.enableCaching = true)
    (hlen : numTokens ≤ r.numTokens) :
    ∃ s', s.cacheBlocks H r numTokens = .ok s' ∧ s'.Inv H ∧ Registered H r numTokens s s' := by
  have hfull : ∀ m ∈ s.managers, (numTokens / m.blockSize).toNat ≤ (H.blockHashes r).length := by
    intro m hm
    have hb : (0 : Int) < m.blockSize := by exact_mod_cast h.shaped.blockSize_pos m hm
    have hle := Int.ediv_le_ediv hb hlen
    rw [Hasher.length_blockHashes, ← h.shaped.blockSize hc m hm]
    have hcast : ((r.numTokens / m.blockSize : Nat) : Int) = (r.numTokens : Int) / m.blockSize := Int.natCast_ediv ..
    rw [Int.toNat_le, hcast]
    exact hle
  obtain ⟨ms, p, as, hf, ha, ht, hs, -, hT, hout, hhash⟩ := forManagers_rule
    (fun m p => m.cacheBlocks p r.requestId (H.blockHashes r) numTokens)
    (fun ms p => p.enableCaching = true ∧ ∀ m ∈ ms, m ∈ s.managers)
    (fun m m' p => RegisteredIn H r numTokens p m m')
    (fun p p' : BlockPool η => p'.handedOut = p.handedOut ∧ ∀ b, p'.blockHash b = p.blockHash b ∨
      p.blockHash b = none ∧ ∃ m ∈ s.managers, ∃ i, NewlyFull r.requestId numTokens m i b)
    (fun _ => ⟨rfl, fun _ => .inl rfl⟩)
    (fun p p' p'' h h' => by
      refine ⟨h'.1.trans h.1, fun b => ?_⟩
      rcases h.2 b with he | he
      · rcases h'.2 b with he' | he'
        · exact .inl (he'.trans he)
        · exact .inr ⟨he.symm.trans he'.1, he'.2⟩
      · exact .inr he)
    (fun m m' p p' hT hkeep => by
      refine ⟨hT.group, hT.table, hT.other, hT.numCached, fun i b hi => ?_⟩
      obtain ⟨k, hk, hb⟩ := hT.hashed i b hi
      refine ⟨k, hk, (hkeep b ?_).trans hb⟩
      have hpos : 0 < (m.table r.requestId).count b := List.count_pos_iff.2 (List.mem_of_getElem? hi.2.2)
      rw [← hT.table] at hpos
      exact Nat.lt_of_lt_of_le hpos (m'.count_le_holds r.requestId b))
    (fun m ms p other ha ht hpre => by
      have hm := hpre.2 m List.mem_cons_self
      obtain ⟨m', p', hf, hg, hsame, hreq, hnum, hmem, hout, hin, hhash⟩ :=
        cacheBlocks_step ha ht hpre.1 (h.shaped.attention m hm).1 (hfull m hm)
      refine ⟨m', p', (), hf, hg, ⟨hsame, hreq, fun x hx => ⟨?_, hmem x hx⟩, ?_, fun i b hi => hin i b hi.1 hi.2.1 hi.2.2⟩,
        ⟨hout, fun b => (hhash b).imp id fun ⟨hn, i, hi⟩ => ⟨hn, m, hm, i, hi⟩⟩,
        hg.pool.enableCaching.trans hpre.1, fun x hx => hpre.2 x (List.mem_cons_of_mem m hx)⟩
      · rw [hnum, if_neg hx]
      · rw [hnum, if_pos rfl]
        rfl)
    s.managers s.blockPool (fun _ => 0) (h.accounts.congr fun b _ => Nat.zero_add _) h.tables ⟨hc, fun _ hm => hm⟩
  have hshape : SameShape s { s with managers := ms, blockPool := p } :=
    ⟨hT.imp fun _ _ hT => hT.group, hs, rfl, rfl⟩
  refine ⟨_, ?_, ⟨h.shaped.congr hshape, ha.congr fun b _ => (Nat.zero_add _).symm, ht, fun x => ?_⟩,
    ⟨hshape, hT, hout, hhash⟩⟩
  · unfold KVCacheManager.cacheBlocks
    rw [if_pos hc, hf]
    rfl
  · obtain ⟨n, hn⟩ := h.aligned x
    refine ⟨n, fun m' hm' => ?_⟩
    obtain ⟨m, hm, hT⟩ := exists_left_of_forall₂ hT hm'
    rw [hT.table, hT.group.blockSize]
    exact hn m hm

/-- What `free` does. -/
structure Freed (rid : ReqId) (s s' : KVCacheManager η) : Prop where
  shape : SameShape s s'
  managers : s'.managers = s.managers.map fun m => m.dropTable rid
  handedOut : s'.blockPool.handedOut = s.blockPool.handedOut
  blockHash : ∀ b, s'.blockPool.blockHash b = s.blockPool.blockHash b

lemma Inv.free (h : s.Inv H) (rid : ReqId) : ∃ s', s.free rid = .ok s' ∧ s'.Inv H ∧ Freed rid s s' := by
  obtain ⟨ms, p, as, hf, ha, ht, hs, -, hT, hout, hhash⟩ := forManagers_rule
    (fun m p => m.free p rid) (fun _ _ => True) (fun m m' _ => m' = m.dropTable rid)
    (fun p p' : BlockPool η => p'.handedOut = p.handedOut ∧ ∀ b, p'.blockHash b = p.blockHash b)
    (fun _ => ⟨rfl, fun _ => rfl⟩)
    (fun _ _ _ h h' => ⟨h'.1.trans h.1, fun b => (h'.2 b).trans (h.2 b)⟩)
    (fun _ _ _ _ hT _ => hT)
    (fun m ms p other ha ht _ => by
      obtain ⟨p', hf, hg, hout, hhash⟩ := free_step rid ha ht
      exact ⟨_, p', (), hf, hg, rfl, ⟨hout, hhash⟩, trivial⟩)
    s.managers s.blockPool (fun _ => 0) (h.accounts.congr fun b _ => Nat.zero_add _) h.tables trivial
  have hms : ms = s.managers.map fun m => m.dropTable rid := eq_map_of_forall₂ hT
  have hshape : SameShape s { s with managers := ms, blockPool := p } :=
    ⟨hT.imp fun m m' he => he ▸ ⟨rfl, rfl, rfl⟩, hs, rfl, rfl⟩
  refine ⟨_, ?_, ⟨h.shaped.congr hshape, ha.congr fun b _ => (Nat.zero_add _).symm, ht, fun x => ?_⟩,
    ⟨hshape, hms, hout, hhash⟩⟩
  · unfold KVCacheManager.free
    rw [hf]
    rfl
  · by_cases hx : x = rid
    · subst hx
      refine ⟨0, fun m' hm' => ?_⟩
      obtain ⟨m, -, rfl⟩ := exists_left_of_forall₂ hT hm'
      rw [table_dropTable, if_pos rfl]
      exact (cdiv_zero _).symm
    · obtain ⟨n, hn⟩ := h.aligned x
      refine ⟨n, fun m' hm' => ?_⟩
      obtain ⟨m, hm, rfl⟩ := exists_left_of_forall₂ hT hm'
      rw [table_dropTable, if_neg hx]
      exact hn m hm

lemma Inv.resetPrefixCache (h : s.Inv H) : s.resetPrefixCache.1.Inv H ∧ SameShape s s.resetPrefixCache.1 := by
  obtain ⟨ha, hs, -, hreset⟩ := h.accounts.reset
  have hshape : SameShape s s.resetPrefixCache.1 := ⟨List.forall₂_same.2 fun m _ => .refl m, hs, rfl, rfl⟩
  refine ⟨⟨h.shaped.congr hshape, ha, fun m hm => ⟨(h.tables m hm).distinct, fun hc x i b hi hget => ?_⟩, h.aligned⟩,
    hshape⟩
  obtain ⟨h0, hn⟩ := (h.tables m hm).fresh (hs.enableCaching ▸ hc) x i b hi hget
  refine ⟨h0, ?_⟩
  rcases hreset with he | he
  · change s.blockPool.resetPrefixCache.1.blockHash b = none
    rw [he]
    exact hn
  · exact he b

/-- The computed blocks the scheduler passes to `allocate_slots`: none, or those found for a request the manager has
no blocks of. -/
def Passed (H : Hasher η) (s : KVCacheManager η) (r : Request) (numNewComputed : Nat) (newComputed : List (List Nat)) :
    Prop :=
  numNewComputed = 0 ∧ newComputed = s.emptyBlocks ∨
    s.Unknown r.requestId ∧ s.getComputedBlocks H r = .ok (newComputed, numNewComputed)

instance (H : Hasher η) (s : KVCacheManager η) (r : Request) (numNewComputed : Nat) (newComputed : List (List Nat)) :
    Decidable (Passed H s r numNewComputed newComputed) :=
  inferInstanceAs (Decidable (_ ∨ _))

omit [DecidableEq η] in
/-- Reading the tables changes none of them. -/
lemma Skipped.withEntries (h : Skipped rid s s') : Skipped rid s (s'.withEntries rid) := by
  have hgroups : List.Forall₂ (SkippedIn rid) s.managers (s'.withEntries rid).managers := by
    rw [KVCacheManager.withEntries, List.forall₂_map_right_iff]
    refine h.groups.imp fun m m' hm => ⟨hm.group.trans (m'.sameGroup_withEntry rid), ?_, fun x hx => ?_, ?_, fun i => ?_⟩
    · rw [numCachedBlock_withEntry, hm.numCachedBlock]
    · rw [table_withEntry, hm.other x hx]
    · rw [table_withEntry, hm.length]
    · rw [table_withEntry]
      exact hm.entry i
  exact ⟨⟨hgroups.imp fun _ _ hm => hm.group, h.shape.pool, h.shape.maxModelLen, h.shape.useEagle⟩, hgroups,
    h.handedOut, h.blockHash⟩

/-- Reading tables keeps the invariant. -/
lemma Inv.read {f : SingleTypeManager → SingleTypeManager} (h : s.Inv H) (rid : ReqId)
    (hf : ∀ m, f m = m ∨ f m = m.withEntry rid) :
    ({ s with managers := s.managers.map f } : KVCacheManager η).Inv H ∧
      SameShape s { s with managers := s.managers.map f } := by
  have hsame : ∀ m, SameGroup m (f m) ∧ (∀ x, (f m).table x = m.table x) ∧ (∀ b, (f m).holds b = m.holds b) ∧
      ∀ p : BlockPool η, TableInv p m → TableInv p (f m) := by
    intro m
    rcases hf m with he | he
    · rw [he]
      exact ⟨.refl m, fun _ => rfl, fun _ => rfl, fun _ ht => ht⟩
    · rw [he]
      exact ⟨m.sameGroup_withEntry rid, m.table_withEntry rid, m.holds_withEntry rid, fun _ ht => ht.withEntry rid⟩
  have hshape : SameShape s { s with managers := s.managers.map f } :=
    ⟨List.forall₂_map_right_iff.2 (List.forall₂_same.2 fun m _ => (hsame m).1), .refl _, rfl, rfl⟩
  refine ⟨⟨h.shaped.congr hshape, h.accounts.congr fun b _ => ?_, fun m' hm' => ?_, fun x => ?_⟩, hshape⟩
  · rw [held, held, List.map_map]
    exact congrArg List.sum (List.map_congr_left fun m _ => (hsame m).2.2.1 b)
  · obtain ⟨m, hm, rfl⟩ := List.mem_map.1 hm'
    exact (hsame m).2.2.2 _ (h.tables m hm)
  · obtain ⟨n, hn⟩ := h.aligned x
    refine ⟨n, fun m' hm' => ?_⟩
    obtain ⟨m, hm, rfl⟩ := List.mem_map.1 hm'
    rw [(hsame m).2.1, (hsame m).1.blockSize]
    exact hn m hm

lemma Inv.withEntries (h : s.Inv H) (rid : ReqId) : (s.withEntries rid).Inv H :=
  (h.read rid fun _ => .inr rfl).1

lemma Inv.getNumCommonPrefixBlocks (h : s.Inv H) (rid : ReqId) :
    (s.getNumCommonPrefixBlocks rid).1.Inv H ∧ SameShape s (s.getNumCommonPrefixBlocks rid).1 := by
  unfold KVCacheManager.getNumCommonPrefixBlocks
  split
  · dsimp only
    rw [List.map_map]
    refine h.read rid fun m => ?_
    show (m.getNumCommonPrefixBlocks s.blockPool rid).1 = m ∨ (m.getNumCommonPrefixBlocks s.blockPool rid).1 = _
    unfold SingleTypeManager.getNumCommonPrefixBlocks
    split
    · exact .inr rfl
    · exact .inl rfl
  · exact ⟨h, .refl s⟩

omit [DecidableEq η] in
/-- The blocks to allocate depend on the tables only. -/
lemma getNumBlocksToAllocate_withEntries (s : KVCacheManager η) (rid : ReqId) (nt : Int) (cols : List (List Nat))
    (enc : Nat) :
    (s.withEntries rid).getNumBlocksToAllocate rid nt cols enc = s.getNumBlocksToAllocate rid nt cols enc := by
  unfold KVCacheManager.getNumBlocksToAllocate KVCacheManager.withEntries
  generalize s.managers = ms
  induction ms generalizing cols with
  | nil => rfl
  | cons m ms ih =>
    cases cols with
    | nil => rfl
    | cons col cols =>
      have hg := m.sameGroup_withEntry rid
      have hone : ∀ (nt : Int) (col : List Nat), (m.withEntry rid).getNumBlocksToAllocate s.blockPool rid nt col =
          m.getNumBlocksToAllocate s.blockPool rid nt col := by
        intro nt col
        unfold SingleTypeManager.getNumBlocksToAllocate SingleTypeManager.paddedTokens
        rw [table_withEntry, hg.spec, hg.blockSize]
      rw [List.map_cons, List.zip_cons_cons, List.map_cons, List.sum_cons, ih, hg.spec, hone, hone, List.zip_cons_cons,
        List.map_cons, List.sum_cons]

/-- What a granted `allocate_slots` does, loop by loop. -/
structure Granted (H : Hasher η) (r : Request) (numTokens numToCache : Int) (newComputed : List (List Nat))
    (delayCacheBlocks : Bool) (s s' : KVCacheManager η) where
  skipped : KVCacheManager η
  taken : KVCacheManager η
  extended : KVCacheManager η
  hskipped : Skipped r.requestId s skipped
  htaken : Taken r.requestId newComputed skipped taken
  hextended : Extended r.requestId numTokens taken extended
  hinv : extended.Inv H
  hregistered : delayCacheBlocks = false ∧ s.blockPool.enableCaching = true ∧ Registered H r numToCache extended s' ∨
    (delayCacheBlocks = true ∨ s.blockPool.enableCaching = false) ∧ s' = extended

/-- Hits stay hits when blocks are skipped. -/
lemma Hits.skipped {len : Nat} {cols : List (List Nat)} (hits : Hits H s r len cols) (hs : Skipped rid s s')
    (ha : Accounts s.blockPool (held s.managers)) (ha' : Accounts s'.blockPool (held s'.managers)) :
    Hits H s' r len cols := by
  have hentry : ∀ i g b, EntryOk s.blockPool.cachedBlockHashToBlock (H.blockHashes r) i g b →
      EntryOk s'.blockPool.cachedBlockHashToBlock (H.blockHashes r) i g b := by
    rintro i g b (h0 | ⟨k, hk, hst⟩)
    · exact .inl h0
    · refine .inr ⟨k, hk, (ha'.stored b _).1 ?_⟩
      rw [hs.blockHash]
      exact (ha.stored b _).2 hst
  have hg := hs.shape.groups
  unfold Hits at hits ⊢
  generalize s.managers = l at hits hg
  generalize s'.managers = l' at hg
  induction hg generalizing cols with
  | nil =>
    cases hits
    exact .nil
  | cons hab _ ih =>
    cases hits with
    | cons hh hrest =>
      refine .cons ⟨hh.length, fun i b hi => ?_⟩ (ih hrest)
      rw [hab.groupId]
      exact hentry i _ b (hh.entry i b hi)

omit [DecidableEq η] in
/-- The blocks to allocate, counted in the tables with the computed blocks. -/
lemma sum_toAllocate {nt : Int} {p : BlockPool η} {ms ms' : List SingleTypeManager} {cols : List (List Nat)} (enc : Nat)
    (hlen : ms.length = cols.length) (hs : ∀ m ∈ ms, m.spec ≠ .crossAttention)
    (h : List.Forall₂ (fun (e : SingleTypeManager × List Nat) m' => TakenIn rid e.2 e.1 m') (ms.zip cols) ms') :
    ((ms.zip cols).map fun e =>
      if e.1.spec = .crossAttention then e.1.getNumBlocksToAllocate p rid enc []
      else e.1.getNumBlocksToAllocate p rid nt e.2).sum =
      (ms'.map fun m => cdiv (m.paddedTokens nt) m.blockSize - (m.table rid).length).sum +
        ((cols.flatten.countP fun b => p.refCnt b = 0 ∧ b ≠ 0 : Nat) : Int) := by
  induction ms generalizing cols ms' with
  | nil =>
    cases cols with
    | nil =>
      cases h
      rfl
    | cons _ _ => cases hlen
  | cons m ms ih =>
    cases cols with
    | nil => cases hlen
    | cons col cols =>
      cases h with
      | cons hab hrest =>
        rw [List.zip_cons_cons, List.map_cons, List.sum_cons, if_neg (hs m List.mem_cons_self),
          ih (Nat.succ.inj hlen) (fun x hx => hs x (List.mem_cons_of_mem m hx)) hrest, List.map_cons,
          List.sum_cons, List.flatten_cons, List.countP_append, hab.table, hab.group.paddedTokens, hab.group.blockSize,
          List.length_append, SingleTypeManager.getNumBlocksToAllocate]
        push_cast
        omega

omit [DecidableEq η] in
/-- Tables of one number of tokens need new blocks in all groups or in none. -/
lemma Aligned.sum_numNewBlocks (hal : s.Aligned rid) (hpos : ∀ m ∈ s.managers, 0 < m.blockSize) {nt : Int}
    (hpad : ∀ m ∈ s.managers, m.paddedTokens nt = nt) :
    (((s.managers.map fun m => m.numNewBlocks rid nt).sum : Nat) : Int) =
        (s.managers.map fun m => cdiv nt m.blockSize - (m.table rid).length).sum ∨
      (s.managers.map fun m => m.numNewBlocks rid nt).sum = 0 := by
  obtain ⟨n, hn⟩ := hal
  have hmono : ∀ m ∈ s.managers, (n : Int) ≤ nt → 0 ≤ cdiv nt m.blockSize - (m.table rid).length := by
    intro m hm hle
    have hb : (0 : Int) < m.blockSize := by exact_mod_cast hpos m hm
    have h1 := cdiv_mono hb hle
    have h2 := hn m hm
    omega
  have hmono' : ∀ m ∈ s.managers, nt ≤ n → cdiv nt m.blockSize - (m.table rid).length ≤ 0 := by
    intro m hm hle
    have hb : (0 : Int) < m.blockSize := by exact_mod_cast hpos m hm
    have h1 := cdiv_mono hb hle
    have h2 := hn m hm
    omega
  generalize s.managers = ms at hmono hmono' hpad ⊢
  rcases le_total (n : Int) nt with hle | hle
  · left
    induction ms with
    | nil => rfl
    | cons m ms ih =>
      have h0 := hmono m List.mem_cons_self hle
      have hih := ih (fun x hx => hmono x (List.mem_cons_of_mem m hx)) (fun x hx => hmono' x (List.mem_cons_of_mem m hx))
        fun x hx => hpad x (List.mem_cons_of_mem m hx)
      rw [List.map_cons, List.sum_cons, List.map_cons, List.sum_cons, Nat.cast_add, hih, SingleTypeManager.numNewBlocks,
        hpad m List.mem_cons_self, Int.toNat_of_nonneg h0]
  · right
    refine List.sum_eq_zero fun x hx => ?_
    obtain ⟨m, hm, rfl⟩ := List.mem_map.1 hx
    rw [SingleTypeManager.numNewBlocks, hpad m hm]
    exact Int.toNat_of_nonpos (hmono' m hm hle)

/-- The check of `allocate_slots` leaves room for the new blocks. -/
lemma Taken.room_new {nt : Int} {cols : List (List Nat)} (enc : Nat) (htk : Taken rid cols s s') (h : s.Inv H)
    (h' : s'.Inv H) (hlen : s.managers.length = cols.length)
    (hcheck : ¬ s.blockPool.getNumFreeBlocks < s.getNumBlocksToAllocate rid nt cols enc) :
    (s'.managers.map fun m => m.numNewBlocks rid nt).sum ≤ s'.blockPool.freeBlockQueue.length := by
  have hroom := htk.room
  have hfree : s.blockPool.getNumFreeBlocks = s.blockPool.freeBlockQueue.length := h.accounts.numFree
  have hsum : s.getNumBlocksToAllocate rid nt cols enc = _ := sum_toAllocate enc hlen
    (fun m hm => (h.shaped.attention m hm).1) htk.groups
  have hpad : (s'.managers.map fun m => cdiv (m.paddedTokens nt) m.blockSize - (m.table rid).length) =
      s'.managers.map fun m => cdiv nt m.blockSize - (m.table rid).length :=
    List.map_congr_left fun m hm => by rw [h'.shaped.paddedTokens hm nt]
  rw [hpad] at hsum
  rw [hsum, hfree] at hcheck
  rcases (h'.aligned rid).sum_numNewBlocks h'.shaped.blockSize_pos (fun m hm => h'.shaped.paddedTokens hm nt) with
    he | he
  · omega
  · omega

/-- `allocate_slots` refuses, or does its four loops. -/
lemma Inv.allocateSlots {numNew : Int} {numNewComputed : Nat} {cols : List (List Nat)} (h : s.Inv H)
    (lookahead : Nat) (delay : Bool) (enc : Nat) (inj : H.Injective) (hnew : numNew ≠ 0)
    (hpassed : Passed H s r numNewComputed cols) (hsafe : s.Safe r.requestId r.numComputedTokens) :
    (∃ s', s.allocateSlots H r numNew numNewComputed cols lookahead delay enc = .ok (s', none) ∧ s'.Inv H ∧
      Skipped r.requestId s s') ∨
    ∃ s' new, s.allocateSlots H r numNew numNewComputed cols lookahead delay enc = .ok (s', some new) ∧ s'.Inv H ∧
      Nonempty (Granted H r (min (r.numComputedTokens + numNewComputed + numNew + lookahead) s.maxModelLen)
        (min (r.numComputedTokens + numNewComputed + numNew) r.numTokens) cols delay s s') := by
  obtain ⟨s0, h0, inv0, hsk0⟩ := h.removeSkippedBlocks hsafe
  have hmax : s0.maxModelLen = s.maxModelLen := hsk0.shape.maxModelLen
  have inv1 : (s0.withEntries r.requestId).Inv H := inv0.withEntries _
  have hsk : Skipped r.requestId s (s0.withEntries r.requestId) := hsk0.withEntries
  have hsame := fun nt cols => getNumBlocksToAllocate_withEntries s0 r.requestId nt cols enc
  obtain ⟨s1, hs1⟩ : ∃ s1, s1 = s0.withEntries r.requestId := ⟨_, rfl⟩
  rw [← hs1] at inv1 hsk
  simp only [← hs1] at hsame
  have hcaching : s1.blockPool.enableCaching = s.blockPool.enableCaching := hsk.shape.pool.enableCaching
  set numTokens : Int := min (r.numComputedTokens + numNewComputed + numNew + lookahead) s.maxModelLen with hnt
  set numToCache : Int := min (r.numComputedTokens + numNewComputed + numNew) r.numTokens with hntc
  have hrun : s.allocateSlots H r numNew numNewComputed cols lookahead delay enc =
      if s1.blockPool.getNumFreeBlocks < s1.getNumBlocksToAllocate r.requestId numTokens cols enc then .ok (s1, none)
      else (s1.takeComputedBlocks r.requestId cols).bind fun s2 =>
        (s2.allocateNewBlocks r.requestId numTokens enc).bind fun e =>
          if delay then .ok (e.1, some e.2)
          else (e.1.cacheBlocks H r numToCache).bind fun s4 => .ok (s4, some e.2) := by
    unfold KVCacheManager.allocateSlots
    rw [if_neg hnew, h0, hnt, ← hmax, hsame, hs1]
    rfl
  have hlen : s1.managers.length = cols.length := by
    rw [← hsk.groups.length_eq]
    rcases hpassed with ⟨-, rfl⟩ | ⟨-, hget⟩
    · rw [emptyBlocks, List.length_map]
    · obtain ⟨cols', len, hok, hits, -⟩ := h.shaped.getComputedBlocks r
      rw [hok] at hget
      cases hget
      exact hits.length_eq
  by_cases hcheck : s1.blockPool.getNumFreeBlocks < s1.getNumBlocksToAllocate r.requestId numTokens cols enc
  · rw [if_pos hcheck] at hrun
    exact .inl ⟨s1, hrun, inv1, hsk⟩
  rw [if_neg hcheck] at hrun
  obtain ⟨s2, h2, inv2, htk⟩ : ∃ s2, s1.takeComputedBlocks r.requestId cols = .ok s2 ∧ s2.Inv H ∧
      Taken r.requestId cols s1 s2 := by
    rcases hpassed with ⟨-, rfl⟩ | ⟨hu, hget⟩
    · have hempty : s.emptyBlocks.all List.isEmpty = true := by
        rw [emptyBlocks, List.all_map]
        exact List.all_eq_true.2 fun _ _ => rfl
      obtain ⟨hok, htk⟩ : s1.takeComputedBlocks r.requestId s.emptyBlocks = .ok s1 ∧
          Taken r.requestId s.emptyBlocks s1 s1 := takeNothing hlen hempty
      exact ⟨s1, hok, inv1, htk⟩
    · obtain ⟨cols', len, hok, hits, -, hoff⟩ := h.shaped.getComputedBlocks r
      rw [hok] at hget
      cases hget
      have hits1 : Hits H s1 r len cols := Hits.skipped hits hsk h.accounts inv1.accounts
      refine inv1.takeComputedBlocks inj (fun m' hm' => ?_) hits1 fun hc => hoff (hcaching ▸ hc)
      obtain ⟨m, hm, hin⟩ := exists_left_of_forall₂ hsk.groups hm'
      obtain ⟨htab, hnum⟩ := hu m hm
      refine ⟨List.length_eq_zero_iff.1 ?_, by rw [hin.numCachedBlock]; exact hnum⟩
      rw [hin.length, htab, List.length_nil]
  obtain ⟨s3, new, h3, inv3, hext⟩ := inv2.allocateNewBlocks enc (htk.room_new enc inv1 inv2 hlen hcheck)
  have hcaching3 : s3.blockPool.enableCaching = s.blockPool.enableCaching :=
    hext.shape.pool.enableCaching.trans (htk.shape.pool.enableCaching.trans hcaching)
  simp only [h2, h3, Except.bind] at hrun
  right
  cases hd : delay with
  | true =>
    rw [hd, if_pos rfl] at hrun
    exact ⟨s3, new, hrun, inv3, ⟨⟨s1, s2, s3, hsk, htk, hext, inv3, .inr ⟨.inl rfl, rfl⟩⟩⟩⟩
  | false =>
    rw [hd, if_neg Bool.false_ne_true] at hrun
    cases hc : s.blockPool.enableCaching with
    | true =>
      obtain ⟨s4, h4, inv4, hreg⟩ := inv3.cacheBlocks (r := r) (hcaching3.trans hc) (min_le_right _ _ : numToCache ≤ _)
      rw [h4] at hrun
      exact ⟨s4, new, hrun, inv4, ⟨⟨s1, s2, s3, hsk, htk, hext, inv3, .inl ⟨rfl, hc, hreg⟩⟩⟩⟩
    | false =>
      have h4 : s3.cacheBlocks H r numToCache = .ok s3 := by
        unfold KVCacheManager.cacheBlocks
        rw [hcaching3, hc]
        rfl
      rw [h4] at hrun
      exact ⟨s3, new, hrun, inv3, ⟨⟨s1, s2, s3, hsk, htk, hext, inv3, .inr ⟨.inr hc, rfl⟩⟩⟩⟩

end KVCacheManager
end Gambit.KV
