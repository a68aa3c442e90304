import Gambit.KV.Backing

/-!
# What the blocks contain

The device memory behind the blocks, as a batch writes it: every token of a request goes to the slot of its position
in the table of the request, in every group. What is written for a token is a parameter; `KvOf` says what it depends
on. A block of the prefix cache has to contain what its hash promises (`CacheFilled`), and the tables of a request
its computed tokens (`Filled`). `Granted.filled` is the step that matters: the tokens that slots were granted for
overwrite nothing that anybody reads.
-/

namespace Gambit.KV
open Gambit.Lib Gambit.Sched SingleTypeManager

variable {η ν : Type}

/-- The device memory: which group wrote last to a block at an offset, and what. -/
abbrev KvMemory (ν : Type) := Nat → Nat → Option (Nat × ν)

/-- A slot, the group that writes to it, and what is written. -/
abbrev KvWrite (ν : Type) := (Nat × Nat) × (Nat × ν)

/-- Write to one slot. -/
def KvMemory.write (mem : KvMemory ν) (w : KvWrite ν) : KvMemory ν :=
  fun b o => if (b, o) = w.1 then some w.2 else mem b o

/-- Write to slots, one after another. -/
def KvMemory.writeAll (mem : KvMemory ν) (ws : List (KvWrite ν)) : KvMemory ν := ws.foldl KvMemory.write mem

/-- The slot of a position (Python `BlockTable.compute_slot_mapping`). -/
def SingleTypeManager.slot (m : SingleTypeManager) (rid : ReqId) (pos : Nat) : Nat × Nat :=
  ((m.table rid).getD (pos / m.blockSize) 0, pos % m.blockSize)

/-- The tokens of a request in a batch: `numTokens` of them from the position `start` on. -/
structure Job where
  request : Request
  start : Nat
  numTokens : Nat

/-- What the tokens of a request write, group by group. -/
def Job.writes (kv : Request → Nat → ν) (ms : List SingleTypeManager) (j : Job) : List (KvWrite ν) :=
  ms.flatMap fun m => (List.range' j.start j.numTokens).map fun pos =>
    (m.slot j.request.requestId pos, (m.groupId, kv j.request pos))

namespace KvMemory
variable {mem : KvMemory ν} {ws : List (KvWrite ν)}

lemma writeAll_append (mem : KvMemory ν) (ws ws' : List (KvWrite ν)) :
    mem.writeAll (ws ++ ws') = (mem.writeAll ws).writeAll ws' := List.foldl_append

/-- A slot contains something that was written to it, or is as before. -/
lemma writeAll_cases (mem : KvMemory ν) (ws : List (KvWrite ν)) (b o : Nat) :
    (∃ w ∈ ws, w.1 = (b, o) ∧ mem.writeAll ws b o = some w.2) ∨
      (∀ w ∈ ws, w.1 ≠ (b, o)) ∧ mem.writeAll ws b o = mem b o := by
  induction ws using List.reverseRecOn with
  | nil => exact .inr ⟨fun w hw => absurd hw List.not_mem_nil, rfl⟩
  | append_singleton ws w ih =>
    have hval : mem.writeAll (ws ++ [w]) b o = if (b, o) = w.1 then some w.2 else mem.writeAll ws b o := by
      rw [writeAll_append]
      rfl
    rw [hval]
    by_cases hw : (b, o) = w.1
    · rw [if_pos hw]
      exact .inl ⟨w, List.mem_append_right _ (List.mem_singleton_self w), hw.symm, rfl⟩
    · rw [if_neg hw]
      rcases ih with ⟨v, hv, he, hval⟩ | ⟨hnone, hval⟩
      · exact .inl ⟨v, List.mem_append_left _ hv, he, hval⟩
      · refine .inr ⟨fun v hv => ?_, hval⟩
        rcases List.mem_append.1 hv with hv | hv
        · exact hnone v hv
        · rw [List.mem_singleton.1 hv]
          exact fun he => hw he.symm

end KvMemory

namespace Job
variable {kv : Request → Nat → ν} {ms ms' : List SingleTypeManager} {j j' : Job} {w : KvWrite ν}

lemma mem_writes : w ∈ j.writes kv ms ↔ ∃ m ∈ ms, ∃ pos, (j.start ≤ pos ∧ pos < j.start + j.numTokens) ∧
    (m.slot j.request.requestId pos, (m.groupId, kv j.request pos)) = w := by
  simp only [writes, List.mem_flatMap, List.mem_map, List.mem_range'_1]

/-- The tables of the request decide where its tokens go. -/
lemma writes_congr (h : List.Forall₂ (Untouched j.request.requestId) ms ms') : j.writes kv ms' = j.writes kv ms := by
  unfold writes
  induction h with
  | nil => rfl
  | @cons m m' ms ms' hm _ ih =>
    rw [List.flatMap_cons, List.flatMap_cons, ih]
    congr 1
    refine List.map_congr_left fun pos _ => ?_
    rw [slot, slot, hm.table, hm.group.blockSize, hm.group.groupId]

/-- What is computed for the tokens decides what is written. -/
lemma writes_of_eq (hid : j'.request.requestId = j.request.requestId) (hs : j'.start = j.start)
    (hn : j'.numTokens = j.numTokens)
    (hkv : ∀ pos, j.start ≤ pos → pos < j.start + j.numTokens → kv j'.request pos = kv j.request pos) :
    j'.writes kv ms = j.writes kv ms := by
  unfold writes
  rw [hs, hn, hid]
  congr 1
  funext m
  refine List.map_congr_left fun pos hpos => ?_
  obtain ⟨h₁, h₂⟩ := List.mem_range'_1.1 hpos
  rw [hkv pos h₁ h₂]

end Job

/-- A request with more output. -/
structure Extends (r r' : Request) : Prop where
  promptTokenIds : r'.promptTokenIds = r.promptTokenIds
  outputTokenIds : r.outputTokenIds <+: r'.outputTokenIds
  loraRequest : r'.loraRequest = r.loraRequest
  mmFeatures : r'.mmFeatures = r.mmFeatures
  cacheSalt : r'.cacheSalt = r.cacheSalt

lemma Extends.refl (r : Request) : Extends r r := ⟨rfl, List.prefix_rfl, rfl, rfl, rfl⟩

lemma Extends.trans {r r' r'' : Request} (h : Extends r r') (h' : Extends r' r'') : Extends r r'' :=
  ⟨h'.promptTokenIds.trans h.promptTokenIds, h.outputTokenIds.trans h'.outputTokenIds,
    h'.loraRequest.trans h.loraRequest, h'.mmFeatures.trans h.mmFeatures, h'.cacheSalt.trans h.cacheSalt⟩

/-- What the KV of a token depends on, and that the hash of a block covers it. -/
structure KvOf (H : Hasher η) (kv : Request → Nat → ν) : Prop where
  grows : ∀ {r r'}, Extends r r' → ∀ pos < r.numTokens, kv r' pos = kv r pos
  hashed : ∀ {r r' i h}, (H.blockHashes r)[i]? = some h → (H.blockHashes r')[i]? = some h →
    ∀ pos < (i + 1) * H.blockSize, kv r' pos = kv r pos

namespace Hasher
variable {H : Hasher η} {r r' : Request} {i : Nat} {h : η}

/-- A token of a block is the token of the request at its position. -/
lemma getElem?_contentsFrom {n start j o : Nat} {mmIdx : Int} {c : BlockContent}
    (hc : (H.contentsFrom r start mmIdx n)[j]? = some c) (ho : o < H.blockSize) :
    c.1[o]? = r.allTokenIds[start + j * H.blockSize + o]? := by
  induction n generalizing start mmIdx j with
  | zero => cases hc
  | succ n ih =>
    rw [contentsFrom] at hc
    cases j with
    | zero =>
      rw [List.getElem?_cons_zero] at hc
      cases hc
      rw [List.getElem?_take_of_lt ho, List.getElem?_drop, Nat.zero_mul, Nat.add_zero]
    | succ j =>
      rw [List.getElem?_cons_succ] at hc
      rw [ih hc, Nat.succ_mul]
      congr 1
      omega

lemma getElem?_blockContents {j o : Nat} {c : BlockContent} (hc : (H.blockContents r)[j]? = some c)
    (ho : o < H.blockSize) : c.1[o]? = r.allTokenIds[j * H.blockSize + o]? := by
  suffices h : ∀ (ts : List Token) (r : Request), r.outputTokenIds = ts → (H.blockContents r)[j]? = some c →
      c.1[o]? = r.allTokenIds[j * H.blockSize + o]? from h _ r rfl hc
  clear hc
  intro ts
  induction ts using List.reverseRecOn with
  | nil =>
    intro r hr hc
    have hcr : created r = r := by
      rw [created, ← hr]
    rw [blockContents, hr, appendContents, hcr, newContents, Nat.zero_mul] at hc
    rw [getElem?_contentsFrom hc ho, Nat.zero_add]
  | append_singleton ts t ih =>
    intro r hr hc
    have hr' : r = Request.appendOutputTokenId { r with outputTokenIds := ts } t := by
      rw [Request.appendOutputTokenId, ← hr]
    generalize hp : ({ r with outputTokenIds := ts } : Request) = p at hr'
    subst hr'
    rw [blockContents_append] at hc
    have hall : (p.appendOutputTokenId t).allTokenIds = p.allTokenIds ++ [t] := (List.append_assoc ..).symm
    by_cases hj : j < (H.blockContents p).length
    · -- the block was full before the token came
      rw [List.getElem?_append_left hj] at hc
      have hlen : (j + 1) * H.blockSize ≤ p.numTokens := by
        rw [length_blockContents] at hj
        exact (Nat.mul_le_mul_right _ hj).trans (Nat.div_mul_le_self _ _)
      rw [Nat.succ_mul] at hlen
      have hpos : j * H.blockSize + o < p.allTokenIds.length := by
        change j * H.blockSize + o < p.numTokens
        omega
      rw [ih p (by rw [← hp]) hc, hall, List.getElem?_append_left hpos]
    · have hle : (H.blockContents p).length ≤ j := Nat.le_of_not_lt hj
      rw [List.getElem?_append_right hle] at hc
      rw [getElem?_contentsFrom hc ho, ← Nat.add_mul, Nat.add_sub_cancel' hle]

/-- Requests with the same hash have the same tokens up to the end of the block. -/
lemma Injective.tokens (inj : H.Injective) (hi : (H.blockHashes r)[i]? = some h)
    (hi' : (H.blockHashes r')[i]? = some h) {pos : Nat} (hpos : pos < (i + 1) * H.blockSize) :
    r'.allTokenIds[pos]? = r.allTokenIds[pos]? := by
  obtain ⟨-, htake⟩ := inj.blockHashes hi hi'
  have hB : 0 < H.blockSize := Nat.pos_of_mul_pos_left ((Nat.zero_le pos).trans_lt hpos)
  have hj : pos / H.blockSize < i + 1 := Nat.div_lt_of_lt_mul (Nat.mul_comm .. ▸ hpos)
  have hget : ∀ q : Request, (H.blockHashes q)[i]? = some h →
      ∃ c, (H.blockContents q)[pos / H.blockSize]? = some c := by
    intro q hq
    obtain ⟨hlt, -⟩ := List.getElem?_eq_some_iff.1 hq
    rw [blockHashes_eq, length_hashChain] at hlt
    exact ⟨_, List.getElem?_eq_getElem (by omega)⟩
  obtain ⟨c, hc⟩ := hget r hi
  obtain ⟨c', hc'⟩ := hget r' hi'
  have heq : c = c' := by
    have h₁ := List.getElem?_take_of_lt (l := H.blockContents r) hj
    have h₂ := List.getElem?_take_of_lt (l := H.blockContents r') hj
    rw [htake, h₂, hc, hc'] at h₁
    exact (Option.some.inj h₁).symm
  have ho := Nat.mod_lt pos hB
  have hsplit : pos / H.blockSize * H.blockSize + pos % H.blockSize = pos := Nat.div_add_mod' ..
  rw [← hsplit, ← getElem?_blockContents hc ho, ← getElem?_blockContents hc' ho, heq]

end Hasher

/-- The KV of a token may depend on all tokens up to it. -/
lemma KvOf.tokens {H : Hasher η} (inj : H.Injective) : KvOf H fun r pos => r.allTokenIds.take (pos + 1) where
  grows hext pos hlt := by
    obtain ⟨l, hl⟩ := hext.outputTokenIds
    rw [Request.allTokenIds, hext.promptTokenIds, ← hl, ← List.append_assoc]
    exact List.take_append_of_le_length hlt
  hashed hi hi' pos hpos := by
    refine List.ext_getElem? fun j => ?_
    rw [List.getElem?_take, List.getElem?_take]
    split
    · next hj => exact inj.tokens hi hi' (by omega)
    · rfl

namespace KVCacheManager
variable [DecidableEq η] {H : Hasher η} {kv : Request → Nat → ν} {mem mem' : KvMemory ν}
variable {s s' : KVCacheManager η} {r r' : Request} {rid x : ReqId} {n : Int}

/-- Every block of the prefix cache contains what its hash promises. -/
def CacheFilled (H : Hasher η) (kv : Request → Nat → ν) (mem : KvMemory ν) (s : KVCacheManager η) : Prop :=
  ∀ b h g, s.blockPool.blockHash b = some (h, g) → ∀ r i, (H.blockHashes r)[i]? = some h → ∀ o < H.blockSize,
    mem b o = some (g, kv r (i * H.blockSize + o))

/-- The first `n` tokens of a request are in its blocks, but for the null block. -/
def Filled (kv : Request → Nat → ν) (mem : KvMemory ν) (s : KVCacheManager η) (r : Request) (n : Int) : Prop :=
  ∀ m ∈ s.managers, ∀ pos : Nat, (pos : Int) < n → ∀ b, b ≠ 0 →
    (m.table r.requestId)[pos / m.blockSize]? = some b → mem b (pos % m.blockSize) = some (m.groupId, kv r pos)

/-- No block that is not full of the first `n` tokens was cached for the request. -/
def CachedTo (s : KVCacheManager η) (rid : ReqId) (n : Int) : Prop :=
  ∀ m ∈ s.managers, (m.numCached rid : Int) ≤ n / m.blockSize

omit [DecidableEq η] in
/-- A request that was left alone keeps its tokens where nothing is written. -/
lemma Filled.untouched (h : s.Filled kv mem r n) (hu : s.Untouched r.requestId s')
    (hmem : ∀ m ∈ s'.managers, ∀ b, b ≠ 0 → b ∈ m.table r.requestId → ∀ o, mem' b o = mem b o) :
    s'.Filled kv mem' r n := by
  intro m' hm' pos hpos b hb hget
  rw [hmem m' hm' b hb (List.mem_of_getElem? hget)]
  obtain ⟨m, hm, hmm⟩ := exists_left_of_forall₂ hu hm'
  rw [hmm.group.blockSize, hmm.table] at hget
  rw [hmm.group.blockSize, hmm.group.groupId]
  exact h m hm pos hpos b hb hget

omit [DecidableEq η] in
lemma CachedTo.untouched (h : s.CachedTo x n) (hu : s.Untouched x s') : s'.CachedTo x n := by
  intro m' hm'
  obtain ⟨m, hm, hmm⟩ := exists_left_of_forall₂ hu hm'
  rw [hmm.numCached, hmm.group.blockSize]
  exact h m hm

omit [DecidableEq η] in
/-- Skipped blocks are not read again. -/
lemma Filled.skipped (h : s.Filled kv mem r n) (hsk : Skipped rid s s') : s'.Filled kv mem r n := by
  intro m' hm' pos hpos b hb hget
  obtain ⟨m, hm, hmm⟩ := exists_left_of_forall₂ hsk.groups hm'
  rw [hmm.group.blockSize] at hget ⊢
  rw [hmm.group.groupId]
  refine h m hm pos hpos b hb ?_
  by_cases hx : r.requestId = rid
  · rw [hx] at hget ⊢
    rcases hmm.entry (pos / m.blockSize) with he | he
    · exact he.symm.trans hget
    · rw [he] at hget
      exact absurd (Option.some.inj hget).symm hb
  · rw [hmm.other _ hx] at hget
    exact hget

omit [DecidableEq η] in
lemma CachedTo.skipped (h : s.CachedTo x n) (hsk : Skipped rid s s') : s'.CachedTo x n := by
  intro m' hm'
  obtain ⟨m, hm, hmm⟩ := exists_left_of_forall₂ hsk.groups hm'
  rw [SingleTypeManager.numCached, hmm.numCachedBlock, hmm.group.blockSize]
  exact h m hm

omit [DecidableEq η] in
/-- A request with more output. -/
lemma Filled.extends (laws : KvOf H kv) (h : s.Filled kv mem r n) (hid : r'.requestId = r.requestId)
    (hext : Extends r r') (hn : n ≤ r.numTokens) : s.Filled kv mem r' n := by
  intro m hm pos hpos b hb hget
  rw [hid] at hget
  rw [h m hm pos hpos b hb hget, laws.grows hext pos (by omega)]

omit [DecidableEq η] in
lemma Filled.mono {n' : Int} (h : s.Filled kv mem r n) (hn : n' ≤ n) : s.Filled kv mem r n' :=
  fun m hm pos hpos => h m hm pos (lt_of_lt_of_le hpos hn)

omit [DecidableEq η] in
/-- The prefix cache with the same hashes. -/
lemma CacheFilled.congr (h : s.CacheFilled H kv mem)
    (hb : ∀ b k, s'.blockPool.blockHash b = some k → s.blockPool.blockHash b = some k) : s'.CacheFilled H kv mem :=
  fun b k g hbk => h b k g (hb b (k, g) hbk)

/-- Two groups that hold a block are two holders. -/
lemma two_le_held_of_ne {ms : List SingleTypeManager} {m m' : SingleTypeManager} {rid rid' : ReqId} {b : Nat}
    (hm : m ∈ ms) (hm' : m' ∈ ms) (hne : m ≠ m') (hb : b ∈ m.table rid) (hb' : b ∈ m'.table rid') :
    2 ≤ held ms b := by
  have h₁ : 1 ≤ m.holds b := (List.count_pos_iff.2 hb).trans_le (m.count_le_holds rid b)
  have h₂ : 1 ≤ m'.holds b := (List.count_pos_iff.2 hb').trans_le (m'.count_le_holds rid' b)
  induction ms with
  | nil => cases hm
  | cons a ms ih =>
    rw [held_cons]
    rcases List.mem_cons.1 hm with rfl | hms
    · have hms' := (List.mem_cons.1 hm').resolve_left hne.symm
      have h₃ := holds_le_held hms' b
      omega
    · rcases List.mem_cons.1 hm' with rfl | hms'
      · have h₃ := holds_le_held hms b
        omega
      · exact (ih hms hms').trans (Nat.le_add_left _ _)

/-- A block without a hash stands at one place. -/
lemma Inv.place_unique (h : s.Inv H) {m m' : SingleTypeManager} {rid rid' : ReqId} {i i' b : Nat}
    (hm : m ∈ s.managers) (hm' : m' ∈ s.managers) (hb : b ≠ 0) (hnone : s.blockPool.blockHash b = none)
    (hget : (m.table rid)[i]? = some b) (hget' : (m'.table rid')[i']? = some b) : m = m' ∧ rid = rid' ∧ i = i' := by
  have hone := h.accounts.single b hb hnone
  have hmem := List.mem_of_getElem? hget
  have hmem' := List.mem_of_getElem? hget'
  have hm₁ : m = m' := by
    by_contra hne
    have := two_le_held_of_ne hm hm' hne hmem hmem'
    omega
  have hr₁ : rid = rid' := by
    by_contra hne
    have := two_le_held hm hm' hne hmem hmem'
    omega
  subst hm₁ hr₁
  exact ⟨rfl, rfl, eq_of_count_le_one ((h.tables m hm).distinct rid b hb) hget hget'⟩

/-- A block that was not cached for the request has no hash. -/
lemma Inv.blockHash_none (h : s.Inv H) {m : SingleTypeManager} {i b : Nat} (hm : m ∈ s.managers)
    (hi : m.numCached rid ≤ i) (hget : (m.table rid)[i]? = some b) : s.blockPool.blockHash b = none := by
  cases hc : s.blockPool.enableCaching with
  | true => exact ((h.tables m hm).fresh hc rid i b hi hget).2
  | false => exact h.accounts.plain hc b

/-- What a granted allocation does to the table of the request in a group, before blocks are cached. -/
structure Came (rid : ReqId) (col : List Nat) (m e : SingleTypeManager) : Prop where
  group : SameGroup m e
  numCached : e.numCached rid = m.numCached rid + col.length
  table : ∃ old new, e.table rid = old ++ col ++ new ∧ old.length = (m.table rid).length ∧
    ∀ i : Nat, old[i]? = (m.table rid)[i]? ∨ old[i]? = some 0

omit [DecidableEq η] in
lemma numCached_of_eq {m m' : SingleTypeManager} (h : m'.numCachedBlock = m.numCachedBlock) :
    m'.numCached rid = m.numCached rid := by
  rw [SingleTypeManager.numCached, SingleTypeManager.numCached, h]

/-- Every group of a granted allocation comes from one before, with its computed blocks. -/
lemma Granted.came {numTokens numToCache : Int} {cols : List (List Nat)} {delay : Bool}
    {R : SingleTypeManager → List Nat → Prop} (hg : Granted H r numTokens numToCache cols delay s s')
    (hR : List.Forall₂ R s.managers cols) {e : SingleTypeManager} (he : e ∈ hg.extended.managers) :
    ∃ m ∈ s.managers, ∃ col, R m col ∧ Came r.requestId col m e := by
  obtain ⟨t, ht, hext⟩ := exists_left_of_forall₂ hg.hextended.groups he
  obtain ⟨⟨k, col⟩, hkc, htk⟩ := exists_left_of_forall₂ hg.htaken.groups ht
  have hboth : List.Forall₂ (fun k col => ∃ m ∈ s.managers, SkippedIn r.requestId m k ∧ R m col)
      hg.skipped.managers cols := by
    have hin : List.Forall₂ (fun m k => m ∈ s.managers ∧ SkippedIn r.requestId m k) s.managers hg.skipped.managers :=
      List.forall₂_iff_zip.2 ⟨hg.hskipped.groups.length_eq, fun hz =>
        ⟨(List.of_mem_zip hz).1, List.forall₂_zip hg.hskipped.groups hz⟩⟩
    exact forall₂_of_left hin hR fun m k col h hmc => ⟨m, h.1, h.2, hmc⟩
  obtain ⟨m, hm, hsk, hmc⟩ := List.forall₂_zip hboth hkc
  obtain ⟨new, hnew, -⟩ := hext.table
  refine ⟨m, hm, col, hmc, (hsk.group.trans htk.group).trans hext.group, ?_, k.table r.requestId, new, ?_, hsk.length,
    hsk.entry⟩
  · rw [numCached_of_eq hext.numCachedBlock, htk.numCached, numCached_of_eq hsk.numCachedBlock]
  · rw [hnew, htk.table]

/-- The groups after a granted allocation have the tables from before blocks were cached. -/
lemma Granted.tables {numTokens numToCache : Int} {cols : List (List Nat)} {delay : Bool}
    (hg : Granted H r numTokens numToCache cols delay s s') :
    List.Forall₂ (fun e m' => SameGroup e m' ∧ ∀ x, m'.table x = e.table x) hg.extended.managers s'.managers := by
  rcases hg.hregistered with ⟨-, -, hreg⟩ | ⟨-, he⟩
  · exact hreg.groups.imp fun _ _ hm => ⟨hm.group, hm.table⟩
  · have hm : s'.managers = hg.extended.managers := congrArg KVCacheManager.managers he
    rw [hm]
    exact List.forall₂_same.2 fun m _ => ⟨.refl m, fun _ => rfl⟩

/-- What the computed blocks of a group are for an allocation that starts behind `start` tokens: none, or those of a
hit for a request without blocks. -/
structure Starts (H : Hasher η) (kv : Request → Nat → ν) (mem : KvMemory ν) (r : Request) (start : Int)
    (m : SingleTypeManager) (col : List Nat) : Prop where
  reach : ∀ pos : Nat, (pos : Int) < start → pos / m.blockSize < (m.table r.requestId).length + col.length
  numCached : ((m.numCached r.requestId + col.length : Nat) : Int) ≤ start / m.blockSize
  old : ∀ pos : Nat, (pos : Int) < start → ∀ b, b ≠ 0 → (m.table r.requestId)[pos / m.blockSize]? = some b →
    mem b (pos % m.blockSize) = some (m.groupId, kv r pos)
  hit : ∀ pos : Nat, ∀ b, b ≠ 0 → (m.table r.requestId).length ≤ pos / m.blockSize →
    col[pos / m.blockSize - (m.table r.requestId).length]? = some b →
    mem b (pos % m.blockSize) = some (m.groupId, kv r pos)

section Grant
variable {numTokens numToCache start : Int} {cols : List (List Nat)} {numNew : Nat}

/-- A slot that a granted allocation is for: its block has no hash before blocks are cached, and is at one place. -/
lemma Granted.written (hg : Granted H r numTokens numToCache cols false s s') (h0 : 0 ≤ start)
    (hR : List.Forall₂ (Starts H kv mem r start) s.managers cols) (hs : s.Shaped H) {w : KvWrite ν}
    (hw : w ∈ Job.writes kv s'.managers ⟨r, start.toNat, numNew⟩) (hb : w.1.1 ≠ 0) :
    ∃ e ∈ hg.extended.managers, ∃ pos : Nat, start ≤ pos ∧ pos < start + numNew ∧
      (e.table r.requestId)[pos / e.blockSize]? = some w.1.1 ∧ hg.extended.blockPool.blockHash w.1.1 = none ∧
      w.1.2 = pos % e.blockSize ∧ w.2 = (e.groupId, kv r pos) := by
  obtain ⟨m', hm', pos, ⟨hlo, hhi⟩, rfl⟩ := Job.mem_writes.1 hw
  obtain ⟨e, he, hsame, htab⟩ := exists_left_of_forall₂ hg.tables hm'
  obtain ⟨m, hm, col, hst, hcame⟩ := hg.came hR he
  dsimp only [SingleTypeManager.slot] at hb hlo hhi ⊢
  rw [hsame.blockSize, hsame.groupId, htab]
  rw [hsame.blockSize, htab] at hb
  have hget : (e.table r.requestId)[pos / e.blockSize]? = some ((e.table r.requestId).getD (pos / e.blockSize) 0) := by
    rw [List.getD_eq_getElem?_getD] at hb ⊢
    cases hq : (e.table r.requestId)[pos / e.blockSize]? with
    | none =>
      rw [hq] at hb
      exact absurd rfl hb
    | some b => rfl
  have hpos : start ≤ (pos : Int) := by omega
  have hbs : (0 : Int) < e.blockSize := by
    rw [hcame.group.blockSize]
    exact_mod_cast hs.blockSize_pos m hm
  have hcached : e.numCached r.requestId ≤ pos / e.blockSize := by
    have h₁ := hst.numCached
    rw [← hcame.numCached, ← hcame.group.blockSize] at h₁
    have h₂ := Int.ediv_le_ediv hbs hpos
    have h₃ : ((pos / e.blockSize : Nat) : Int) = (pos : Int) / e.blockSize := Int.natCast_ediv ..
    omega
  exact ⟨e, he, pos, hpos, by omega, hget, hg.hinv.blockHash_none he hcached hget, rfl, rfl⟩

/-- What was written for a granted allocation, and nothing else that its request reads. -/
lemma Granted.filled_self (numNew : Nat) (hg : Granted H r numTokens numToCache cols false s s') (h0 : 0 ≤ start)
    (hR : List.Forall₂ (Starts H kv mem r start) s.managers cols) (hs : s.Shaped H) :
    s'.Filled kv (mem.writeAll (Job.writes kv s'.managers ⟨r, start.toNat, numNew⟩)) r (start + numNew) := by
  intro m' hm' pos hpos b hb hget
  obtain ⟨e, he, hsame, htab⟩ := exists_left_of_forall₂ hg.tables hm'
  obtain ⟨m, hm, col, hst, hcame⟩ := hg.came hR he
  rcases KvMemory.writeAll_cases mem (Job.writes kv s'.managers ⟨r, start.toNat, numNew⟩) b (pos % m'.blockSize) with
    ⟨w, hw, hslot, hval⟩ | ⟨hnone, hval⟩
  · -- written: at no other position
    rw [hval]
    have hb' : w.1.1 = b := by rw [hslot]
    have ho' : w.1.2 = pos % m'.blockSize := by rw [hslot]
    obtain ⟨e₁, he₁, pos₁, hlo, hhi, hget₁, hun, ho, hw₂⟩ := hg.written h0 hR hs hw (by rw [hb']; exact hb)
    rw [hb'] at hget₁ hun
    rw [hsame.blockSize, htab] at hget
    obtain ⟨rfl, -, hi⟩ := hg.hinv.place_unique he₁ he hb hun hget₁ hget
    rw [ho', hsame.blockSize] at ho
    have hpe : pos₁ = pos := by
      rw [← Nat.div_add_mod pos₁ e₁.blockSize, ← Nat.div_add_mod pos e₁.blockSize, hi, ho]
    rw [hw₂, hpe, hsame.groupId]
  · rw [hval]
    have hbefore : (pos : Int) < start := by
      by_contra hge
      refine hnone ((m'.slot r.requestId pos), (m'.groupId, kv r pos)) (Job.mem_writes.2
        ⟨m', hm', pos, ⟨by dsimp only; omega, by dsimp only; omega⟩, rfl⟩) ?_
      dsimp only [SingleTypeManager.slot]
      rw [List.getD_eq_getElem?_getD, hget, Option.getD_some]
    obtain ⟨old, new, htable, hlen, hold⟩ := hcame.table
    rw [htab, hsame.blockSize, hcame.group.blockSize, htable] at hget
    rw [hsame.blockSize, hsame.groupId, hcame.group.blockSize, hcame.group.groupId]
    have hreach := hst.reach pos hbefore
    rw [List.getElem?_append_left (by rw [List.length_append, hlen]; exact hreach)] at hget
    by_cases hlt : pos / m.blockSize < old.length
    · rw [List.getElem?_append_left hlt] at hget
      rcases hold (pos / m.blockSize) with ho | ho
      · exact hst.old pos hbefore b hb (ho.symm.trans hget)
      · rw [ho] at hget
        exact absurd (Option.some.inj hget).symm hb
    · rw [List.getElem?_append_right (not_lt.1 hlt), hlen] at hget
      exact hst.hit pos b hb (hlen ▸ not_lt.1 hlt) hget

/-- The tokens of others are not overwritten. -/
lemma Granted.filled_other {n : Int} {r₁ : Request} (hg : Granted H r numTokens numToCache cols false s s')
    (h0 : 0 ≤ start) (hR : List.Forall₂ (Starts H kv mem r start) s.managers cols) (hs : s.Shaped H)
    (hne : r₁.requestId ≠ r.requestId) (hu : s.Untouched r₁.requestId s') (h : s.Filled kv mem r₁ n) :
    s'.Filled kv (mem.writeAll (Job.writes kv s'.managers ⟨r, start.toNat, numNew⟩)) r₁ n := by
  refine h.untouched hu fun m' hm' b hb hmem o => ?_
  rcases KvMemory.writeAll_cases mem (Job.writes kv s'.managers ⟨r, start.toNat, numNew⟩) b o with
    ⟨w, hw, hslot, -⟩ | ⟨-, hval⟩
  · have hb' : w.1.1 = b := by rw [hslot]
    obtain ⟨e₁, he₁, pos₁, -, -, hget₁, hun, -⟩ := hg.written h0 hR hs hw (by rw [hb']; exact hb)
    rw [hb'] at hget₁ hun
    obtain ⟨e, he, -, htab⟩ := exists_left_of_forall₂ hg.tables hm'
    rw [htab] at hmem
    obtain ⟨i, hi⟩ := List.getElem?_of_mem hmem
    exact absurd (hg.hinv.place_unique he₁ he hb hun hget₁ hi).2.1.symm hne
  · exact hval

/-- The prefix cache is not overwritten, and the blocks that are cached are full. -/
lemma Granted.cacheFilled (laws : KvOf H kv) (inj : H.Injective)
    (hg : Granted H r numTokens numToCache cols false s s') (h0 : 0 ≤ start)
    (hR : List.Forall₂ (Starts H kv mem r start) s.managers cols) (hs : s.Shaped H) (hs' : s'.Inv H)
    (hn : numToCache ≤ start + numNew) (h : s.CacheFilled H kv mem) :
    s'.CacheFilled H kv (mem.writeAll (Job.writes kv s'.managers ⟨r, start.toNat, numNew⟩)) := by
  intro b k g hbk r₁ i hri o ho
  have hb : b ≠ 0 := (hs'.accounts.hashRange b (k, g) hbk).1
  -- a block with a hash before blocks were cached
  have hcase : hg.extended.blockPool.blockHash b = some (k, g) →
      mem.writeAll (Job.writes kv s'.managers ⟨r, start.toNat, numNew⟩) b o = some (g, kv r₁ (i * H.blockSize + o)) := by
    intro hhash
    rcases KvMemory.writeAll_cases mem (Job.writes kv s'.managers ⟨r, start.toNat, numNew⟩) b o with
      ⟨w, hw, hslot, -⟩ | ⟨-, hval⟩
    · have hb' : w.1.1 = b := by rw [hslot]
      obtain ⟨-, -, -, -, -, -, hun, -⟩ := hg.written h0 hR hs hw (by rw [hb']; exact hb)
      rw [hb', hhash] at hun
      cases hun
    · rw [hval]
      obtain ⟨l, -, -, hpool⟩ := hg.hextended.pool
      rw [hpool] at hhash
      split at hhash
      · cases hhash
      · rw [hg.htaken.blockHash, hg.hskipped.blockHash] at hhash
        exact h b k g hhash r₁ i hri o ho
  have hself := hg.filled_self numNew h0 hR hs
  rcases hg.hregistered with ⟨-, hc, hreg⟩ | ⟨-, he⟩
  · rcases hreg.blockHash b with hsame | ⟨hnone, e, he, j, hnew⟩
    · exact hcase (hsame ▸ hbk)
    · obtain ⟨m', hm', hmm⟩ := exists_left_of_forall₂ hreg.groups.flip he
      obtain ⟨k', hk', hb'⟩ := hmm.hashed j b hnew
      rw [hbk] at hb'
      obtain ⟨rfl, rfl⟩ := Prod.mk.inj (Option.some.inj hb')
      obtain ⟨hij, -⟩ := inj.blockHashes hri hk'
      subst hij
      have hbs : m'.blockSize = H.blockSize := by
        have hshape := hg.shape
        exact (hs.congr hshape).blockSize (hshape.pool.enableCaching.trans hc) m' hm'
      have hposB : 0 < H.blockSize := hbs ▸ hs'.shaped.blockSize_pos m' hm'
      have hdiv : (i * H.blockSize + o) / H.blockSize = i := by
        rw [Nat.add_comm, Nat.add_mul_div_right _ _ hposB, Nat.div_eq_of_lt ho, Nat.zero_add]
      have hmod : (i * H.blockSize + o) % H.blockSize = o := by
        rw [Nat.add_comm, Nat.add_mul_mod_self_right, Nat.mod_eq_of_lt ho]
      have hfull : (((i * H.blockSize + o : Nat) : Int)) < start + numNew := by
        have h₁ : i < (numToCache / e.blockSize).toNat := hnew.2.1
        rw [← hmm.group.blockSize, hbs] at h₁
        have h₂ : ((i : Int) + 1) ≤ numToCache / H.blockSize := by omega
        have h₃ := (Int.le_ediv_iff_mul_le (by exact_mod_cast hposB)).1 h₂
        push_cast
        have h₄ : ((i : Int) + 1) * H.blockSize = i * H.blockSize + H.blockSize := by ring
        omega
      have hval := hself m' hm' (i * H.blockSize + o) hfull b hb
        (by rw [hbs, hdiv, hmm.table]; exact hnew.2.2)
      rw [hbs, hmod, hmm.group.groupId] at hval
      rw [hval, laws.hashed hk' hri (i * H.blockSize + o) (by rw [Nat.add_mul, Nat.one_mul]; omega)]
  · exact hcase (he ▸ hbk)

/-- Blocks are cached as far as the tokens that slots were granted for. -/
lemma Granted.cachedTo (hg : Granted H r numTokens numToCache cols false s s')
    (hR : List.Forall₂ (Starts H kv mem r start) s.managers cols) (hs : s.Shaped H)
    (hn : numToCache ≤ start + numNew) (h0 : 0 ≤ start) : s'.CachedTo r.requestId (start + numNew) := by
  have hbase : hg.extended.CachedTo r.requestId (start + numNew) := by
    intro e he
    obtain ⟨m, hm, col, hst, hcame⟩ := hg.came hR he
    have hb : (0 : Int) < m.blockSize := by exact_mod_cast hs.blockSize_pos m hm
    have hdiv := Int.ediv_le_ediv hb (show start ≤ start + numNew by omega)
    rw [hcame.numCached, hcame.group.blockSize]
    exact hst.numCached.trans hdiv
  rcases hg.hregistered with ⟨-, -, hreg⟩ | ⟨-, he⟩
  · intro m' hm'
    obtain ⟨e, he, hmm⟩ := exists_left_of_forall₂ hreg.groups hm'
    have hb : (0 : Int) < e.blockSize := by exact_mod_cast hg.hinv.shaped.blockSize_pos e he
    have hdiv := Int.ediv_le_ediv hb hn
    have h₁ := hbase e he
    rw [hmm.group.blockSize, hmm.numCached, numFull]
    have h₂ : 0 ≤ (start + numNew) / (e.blockSize : Int) := Int.ediv_nonneg (by omega) hb.le
    push_cast
    omega
  · rw [he]
    exact hbase

end Grant

omit [DecidableEq η] in
/-- Slots for a running request start behind its computed tokens. -/
lemma starts_running (hs : s.Shaped H) (hb : s.Backed r.requestId n) (h : s.Filled kv mem r n)
    (hc : s.CachedTo r.requestId n) : List.Forall₂ (Starts H kv mem r n) s.managers s.emptyBlocks := by
  have hall : ∀ m ∈ s.managers, Starts H kv mem r n m [] := by
    intro m hm
    refine ⟨fun pos hpos => ?_, hc m hm, fun pos hpos b h0 hget => h m hm pos hpos b h0 hget,
      fun pos b _ _ hget => ?_⟩
    · have hbs : (0 : Int) < m.blockSize := by exact_mod_cast hs.blockSize_pos m hm
      have h₁ := le_cdiv_mul n hbs
      have h₂ := Int.mul_le_mul_of_nonneg_right (hb m hm).1 hbs.le
      have h₃ : pos < (m.table r.requestId).length * m.blockSize := by
        have : (pos : Int) < (m.table r.requestId).length * m.blockSize := by omega
        exact_mod_cast this
      exact Nat.div_lt_of_lt_mul (Nat.mul_comm _ _ ▸ h₃)
    · cases hget
  rw [emptyBlocks, List.forall₂_map_right_iff, List.forall₂_same]
  exact hall

/-- Slots for a request without blocks start behind the tokens of its hit, which the prefix cache contains. -/
lemma starts_waiting {cols : List (List Nat)} {len : Nat} (hs : s.Inv H) (h : s.CacheFilled H kv mem)
    (hu : s.Unknown r.requestId) (hok : s.getComputedBlocks H r = .ok (cols, len)) :
    List.Forall₂ (Starts H kv mem r len) s.managers cols := by
  obtain ⟨cols', k, hok', hits, -, hoff⟩ := hs.shaped.getComputedBlocks r
  rw [hok] at hok'
  cases hok'
  refine List.forall₂_iff_zip.2 ⟨hits.length_eq, fun {m col} hz => ?_⟩
  have hm := (List.of_mem_zip hz).1
  have hit := List.forall₂_zip hits hz
  obtain ⟨htab, hnum⟩ := hu m hm
  have hz₀ : m.numCached r.requestId = 0 := by
    rw [SingleTypeManager.numCached, Dict.getD_eq, Dict.get?_eq_none.2 hnum, Option.getD_none]
  have hpos := hs.shaped.blockSize_pos m hm
  have hbs : k ≠ 0 → m.blockSize = H.blockSize := by
    intro hk
    refine hs.shaped.blockSize ?_ m hm
    cases hc : s.blockPool.enableCaching with
    | true => rfl
    | false => exact absurd (hoff hc) hk
  refine ⟨fun pos hlt => ?_, ?_, fun pos _ b _ hget => ?_, fun pos b h0 _ hget => ?_⟩
  · rw [htab, hit.length, List.length_nil, Nat.zero_add]
    have hk : k ≠ 0 := by
      rintro rfl
      rw [Nat.zero_mul] at hlt
      omega
    have hlt' : pos < k * H.blockSize := by exact_mod_cast hlt
    rw [← hbs hk] at hlt'
    exact Nat.div_lt_of_lt_mul (Nat.mul_comm _ _ ▸ hlt')
  · rw [hz₀, hit.length, Nat.zero_add]
    by_cases hk : k = 0
    · subst hk
      simp
    · rw [← hbs hk]
      push_cast
      rw [Int.mul_ediv_cancel _ (by exact_mod_cast hpos.ne')]
  · rw [htab] at hget
    cases hget
  · rw [htab, List.length_nil, Nat.sub_zero] at hget
    have hk : k ≠ 0 := by
      rintro rfl
      rw [List.length_eq_zero_iff.1 hit.length] at hget
      cases hget
    obtain ⟨x, hx, hst⟩ := (hit.entry _ b hget).resolve_left h0
    have hval := h b x m.groupId ((hs.accounts.stored b _).2 hst) r _ hx (pos % m.blockSize)
      (hbs hk ▸ Nat.mod_lt pos hpos)
    rw [← hbs hk, Nat.div_add_mod'] at hval
    exact hval

end KVCacheManager
end Gambit.KV
