import Gambit.KV.Accounts
import Gambit.KV.Manager

/-!
# Block tables

What the tables of the groups keep, and how each call on a group changes them. The accounts of the pool speak
of all references; a group sees its own (`holds`) beside those of the others. `forManagers_rule` puts the
groups together: a call on one group leaves the blocks that others hold as they are, so the loop keeps what
every round keeps.
-/

namespace Gambit.KV
open Gambit.Lib Gambit.Sched

variable {η : Type} [DecidableEq η]

namespace SingleTypeManager

/-- How many entries of the tables of the group hold a block. -/
def holds (m : SingleTypeManager) (b : Nat) : Nat := (m.reqToBlocks.values.map fun t => t.count b).sum

variable {m : SingleTypeManager} {rid : ReqId} {t : List Nat}

/-- What no call changes. -/
structure SameGroup (m m' : SingleTypeManager) : Prop where
  spec : m'.spec = m.spec
  blockSize : m'.blockSize = m.blockSize
  groupId : m'.groupId = m.groupId

lemma SameGroup.refl (m : SingleTypeManager) : SameGroup m m := ⟨rfl, rfl, rfl⟩

lemma SameGroup.trans {m m' m'' : SingleTypeManager} (h : SameGroup m m') (h' : SameGroup m' m'') :
    SameGroup m m'' :=
  ⟨h'.spec.trans h.spec, h'.blockSize.trans h.blockSize, h'.groupId.trans h.groupId⟩

/-- A group keeps the tokens it finds slots for. -/
lemma SameGroup.paddedTokens {m m' : SingleTypeManager} (h : SameGroup m m') (nt : Int) :
    m'.paddedTokens nt = m.paddedTokens nt := by
  unfold SingleTypeManager.paddedTokens
  rw [h.spec, h.blockSize]

/-- The references of a group are those of one request and those of the others. -/
lemma holds_eq (m : SingleTypeManager) (rid : ReqId) (b : Nat) :
    m.holds b = (m.table rid).count b + (((m.reqToBlocks.erase rid).values.map fun t => t.count b)).sum := by
  unfold holds table
  cases hg : m.reqToBlocks.get? rid with
  | none =>
    rw [Dict.erase_of_not_mem (Dict.get?_eq_none.1 hg), Dict.getD_eq, hg, Option.getD_none, List.count_nil,
      Nat.zero_add]
  | some t =>
    have hperm := (Dict.perm_cons_erase hg).map Prod.snd
    have hsum := (hperm.map fun t => t.count b).sum_eq
    rw [List.map_cons, List.map_cons, List.sum_cons] at hsum
    rw [Dict.getD_eq, hg, Option.getD_some]
    exact hsum

/-- A request that holds a block is among the holders. -/
lemma count_le_holds (m : SingleTypeManager) (rid : ReqId) (b : Nat) : (m.table rid).count b ≤ m.holds b := by
  rw [m.holds_eq rid b]
  exact Nat.le_add_right _ _

/-- Two requests that hold a block are two holders. -/
lemma count_add_count_le_holds (m : SingleTypeManager) {rid rid' : ReqId} (hne : rid ≠ rid') (b : Nat) :
    (m.table rid).count b + (m.table rid').count b ≤ m.holds b := by
  rw [m.holds_eq rid b]
  refine Nat.add_le_add_left ?_ _
  have hle := count_le_holds { m with reqToBlocks := m.reqToBlocks.erase rid } rid' b
  have htab : ({ m with reqToBlocks := m.reqToBlocks.erase rid } : SingleTypeManager).table rid' = m.table rid' := by
    rw [table, table, Dict.getD_eq, Dict.getD_eq, Dict.get?_erase, if_neg (Ne.symm hne)]
  rw [htab] at hle
  exact hle

/-- The group with another table for a request. -/
def setTable (m : SingleTypeManager) (rid : ReqId) (t : List Nat) : SingleTypeManager :=
  { m with reqToBlocks := m.reqToBlocks.set rid t }

lemma table_setTable (m : SingleTypeManager) (rid : ReqId) (t : List Nat) (x : ReqId) :
    (m.setTable rid t).table x = if x = rid then t else m.table x := by
  rw [table, setTable, Dict.getD_eq, Dict.get?_set]
  by_cases hx : x = rid
  · rw [if_pos hx, if_pos hx, Option.getD_some]
  · rw [if_neg hx, if_neg hx]
    rfl

/-- The holders after a request got another table. -/
lemma holds_setTable (m : SingleTypeManager) (rid : ReqId) (t : List Nat) (b : Nat) :
    (m.setTable rid t).holds b + (m.table rid).count b = m.holds b + t.count b := by
  have hnew : (m.setTable rid t).holds b =
      t.count b + ((m.reqToBlocks.erase rid).values.map fun t => t.count b).sum := by
    have hperm := (Dict.perm_set m.reqToBlocks rid t).map Prod.snd
    have hsum := (hperm.map fun t => t.count b).sum_eq
    rw [List.map_cons, List.map_cons, List.sum_cons] at hsum
    exact hsum
  rw [hnew, m.holds_eq rid b]
  omega

/-- Reading a table changes no table. -/
@[simp] lemma table_withEntry (m : SingleTypeManager) (rid x : ReqId) : (m.withEntry rid).table x = m.table x := by
  unfold withEntry
  split
  · rfl
  · next hn =>
    show (m.setTable rid []).table x = m.table x
    rw [table_setTable]
    split
    · next hx => rw [hx, table, Dict.getD_eq, Dict.get?_eq_none.2 hn, Option.getD_none]
    · rfl

@[simp] lemma numCachedBlock_withEntry (m : SingleTypeManager) (rid : ReqId) :
    (m.withEntry rid).numCachedBlock = m.numCachedBlock := by
  unfold withEntry
  split
  · rfl
  · rfl

@[simp] lemma numCached_withEntry (m : SingleTypeManager) (rid x : ReqId) :
    (m.withEntry rid).numCached x = m.numCached x := by
  rw [numCached, numCached, numCachedBlock_withEntry]

/-- An empty table holds nothing. -/
@[simp] lemma holds_withEntry (m : SingleTypeManager) (rid : ReqId) (b : Nat) : (m.withEntry rid).holds b = m.holds b := by
  unfold withEntry
  split
  · rfl
  · next hn =>
    have hh := m.holds_setTable rid [] b
    have ht : m.table rid = [] := by rw [table, Dict.getD_eq, Dict.get?_eq_none.2 hn, Option.getD_none]
    rw [ht, List.count_nil, Nat.add_zero, Nat.add_zero] at hh
    exact hh

lemma sameGroup_withEntry (m : SingleTypeManager) (rid : ReqId) : SameGroup m (m.withEntry rid) := by
  unfold withEntry
  split
  · exact .refl m
  · exact ⟨rfl, rfl, rfl⟩

/-- The group without a request. -/
def dropTable (m : SingleTypeManager) (rid : ReqId) : SingleTypeManager :=
  { m with reqToBlocks := m.reqToBlocks.erase rid, numCachedBlock := m.numCachedBlock.erase rid }

lemma table_dropTable (m : SingleTypeManager) (rid x : ReqId) :
    (m.dropTable rid).table x = if x = rid then [] else m.table x := by
  rw [table, dropTable, Dict.getD_eq, Dict.get?_erase]
  by_cases hx : x = rid
  · rw [if_pos hx, if_pos hx, Option.getD_none]
  · rw [if_neg hx, if_neg hx]
    rfl

lemma numCached_dropTable (m : SingleTypeManager) (rid x : ReqId) :
    (m.dropTable rid).numCached x = if x = rid then 0 else m.numCached x := by
  rw [numCached, dropTable, Dict.getD_eq, Dict.get?_erase]
  by_cases hx : x = rid
  · rw [if_pos hx, if_pos hx, Option.getD_none]
  · rw [if_neg hx, if_neg hx]
    rfl

lemma holds_dropTable (m : SingleTypeManager) (rid : ReqId) (b : Nat) :
    (m.dropTable rid).holds b + (m.table rid).count b = m.holds b := by
  rw [m.holds_eq rid b, Nat.add_comm]
  rfl

/-- The group with another number of cached blocks for a request. -/
def setCached (m : SingleTypeManager) (rid : ReqId) (n : Nat) : SingleTypeManager :=
  { m with numCachedBlock := m.numCachedBlock.set rid n }

lemma numCached_setCached (m : SingleTypeManager) (rid : ReqId) (n : Nat) (x : ReqId) :
    (m.setCached rid n).numCached x = if x = rid then n else m.numCached x := by
  rw [numCached, setCached, Dict.getD_eq, Dict.get?_set]
  by_cases hx : x = rid
  · rw [if_pos hx, if_pos hx, Option.getD_some]
  · rw [if_neg hx, if_neg hx]
    rfl

end SingleTypeManager

open SingleTypeManager

/-- No table has a block twice, and with caching the blocks after the cached ones are not null and have no
hash. -/
structure TableInv (p : BlockPool η) (m : SingleTypeManager) : Prop where
  distinct : ∀ rid b, b ≠ 0 → (m.table rid).count b ≤ 1
  fresh : p.enableCaching = true → ∀ rid i b, m.numCached rid ≤ i → (m.table rid)[i]? = some b →
    b ≠ 0 ∧ p.blockHash b = none

omit [DecidableEq η] in
/-- Only the hashes of the blocks the group holds matter. -/
lemma TableInv.congr {p p' : BlockPool η} {m : SingleTypeManager} (h : TableInv p m) (hs : SamePool p p')
    (hframe : ∀ b, 0 < m.holds b → p'.blockHash b = p.blockHash b) : TableInv p' m := by
  refine ⟨h.distinct, fun hc rid i b hi hget => ?_⟩
  obtain ⟨h0, hn⟩ := h.fresh (hs.enableCaching ▸ hc) rid i b hi hget
  have hpos : 0 < m.holds b :=
    Nat.lt_of_lt_of_le (List.count_pos_iff.2 (List.mem_of_getElem? hget)) (m.count_le_holds rid b)
  exact ⟨h0, (hframe b hpos).trans hn⟩

omit [DecidableEq η] in
lemma TableInv.withEntry {p : BlockPool η} {m : SingleTypeManager} (h : TableInv p m) (rid : ReqId) :
    TableInv p (m.withEntry rid) := by
  refine ⟨fun x b h0 => ?_, fun hc x i b hi hget => ?_⟩
  · rw [table_withEntry]
    exact h.distinct x b h0
  · rw [table_withEntry] at hget
    rw [numCached_withEntry] at hi
    exact h.fresh hc x i b hi hget

/-- The holders of a block in all groups. -/
def held (ms : List SingleTypeManager) (b : Nat) : Nat := (ms.map fun m => m.holds b).sum

lemma held_cons (m : SingleTypeManager) (ms : List SingleTypeManager) (b : Nat) :
    held (m :: ms) b = m.holds b + held ms b := by
  rw [held, List.map_cons, List.sum_cons, held]

lemma holds_le_held {m : SingleTypeManager} {ms : List SingleTypeManager} (hm : m ∈ ms) (b : Nat) :
    m.holds b ≤ held ms b :=
  List.single_le_sum (fun _ _ => Nat.zero_le _) _ (List.mem_map_of_mem hm)

/-- What a call on a group does when the others hold `other b` references to each block. -/
structure GroupStep (other : Nat → Nat) (p : BlockPool η) (m' : SingleTypeManager) (p' : BlockPool η) :
    Prop where
  accounts : Accounts p' fun b => other b + m'.holds b
  tables : TableInv p' m'
  pool : SamePool p p'
  frame : ∀ b, 0 < other b → p'.blockHash b = p.blockHash b

/-- The rule for loops over the groups: `Pre` is what the rest of the loop needs, `T` what the call does to a
group (and later rounds do not undo), `S` what it does to the pool. -/
lemma forManagers_rule {α : Type}
    (f : SingleTypeManager → BlockPool η → Except Unit (SingleTypeManager × BlockPool η × α))
    (Pre : List SingleTypeManager → BlockPool η → Prop)
    (T : SingleTypeManager → SingleTypeManager → BlockPool η → Prop) (S : BlockPool η → BlockPool η → Prop)
    (hrefl : ∀ p, S p p) (htrans : ∀ p p' p'', S p p' → S p' p'' → S p p'')
    (hstable : ∀ m m' p p', T m m' p → (∀ b, 0 < m'.holds b → p'.blockHash b = p.blockHash b) → T m m' p')
    (hstep : ∀ m ms p other, Accounts p (fun b => other b + m.holds b) → TableInv p m → Pre (m :: ms) p →
      ∃ m' p' a, f m p = .ok (m', p', a) ∧ GroupStep other p m' p' ∧ T m m' p' ∧ S p p' ∧ Pre ms p')
    (ms : List SingleTypeManager) (p : BlockPool η) (other : Nat → Nat)
    (ha : Accounts p fun b => other b + held ms b) (ht : ∀ m ∈ ms, TableInv p m) (hpre : Pre ms p) :
    ∃ ms' p' as, forManagers f ms p = .ok (ms', p', as) ∧ Accounts p' (fun b => other b + held ms' b) ∧
      (∀ m ∈ ms', TableInv p' m) ∧ SamePool p p' ∧ (∀ b, 0 < other b → p'.blockHash b = p.blockHash b) ∧
      List.Forall₂ (fun m m' => T m m' p') ms ms' ∧ S p p' := by
  induction ms generalizing p other with
  | nil => exact ⟨[], p, [], rfl, ha, nofun, .refl p, fun _ _ => rfl, .nil, hrefl p⟩
  | cons m ms ih =>
    have hacc : Accounts p fun b => (other b + held ms b) + m.holds b :=
      ha.congr fun b _ => by rw [held_cons]; omega
    obtain ⟨m', p1, a, hf, hg, hT, hS, hpre1⟩ :=
      hstep m ms p (fun b => other b + held ms b) hacc (ht m List.mem_cons_self) hpre
    have hacc1 : Accounts p1 fun b => (other b + m'.holds b) + held ms b :=
      hg.accounts.congr fun b _ => by omega
    have ht1 : ∀ x ∈ ms, TableInv p1 x := fun x hx =>
      (ht x (List.mem_cons_of_mem m hx)).congr hg.pool fun b hb =>
        hg.frame b (Nat.lt_of_lt_of_le (Nat.lt_of_lt_of_le hb (holds_le_held hx b)) (Nat.le_add_left _ _))
    obtain ⟨ms', p', as, hfs, ha', ht', hs', hframe', hT', hS'⟩ :=
      ih p1 (fun b => other b + m'.holds b) hacc1 ht1 hpre1
    -- the later rounds keep what this group holds
    have hkeep : ∀ b, 0 < m'.holds b → p'.blockHash b = p1.blockHash b := fun b hb =>
      hframe' b (Nat.lt_of_lt_of_le hb (Nat.le_add_left _ _))
    refine ⟨m' :: ms', p', a :: as, ?_, ha'.congr fun b _ => by rw [held_cons]; omega, fun x hx => ?_,
      hg.pool.trans hs', fun b hb => ?_, .cons (hstable m m' p1 p' hT hkeep) hT', htrans _ _ _ hS hS'⟩
    · rw [forManagers, hf]
      dsimp only [bind, Except.bind]
      rw [hfs]
    · rcases List.mem_cons.1 hx with rfl | hx
      · exact hg.tables.congr hs' hkeep
      · exact ht' x hx
    · exact (hframe' b (Nat.lt_of_lt_of_le hb (Nat.le_add_right _ _))).trans
        (hg.frame b (Nat.lt_of_lt_of_le hb (Nat.le_add_right _ _)))

/-- The loop of `remove_skipped_blocks` replaces entries of the first `n` by the null block. -/
lemma nullOut_spec (n : Nat) (t : List Nat) (hn : n ≤ t.length) :
    (nullOut n t).1.length = t.length ∧
      (∀ i, (nullOut n t).1[i]? = t[i]? ∨ i < n ∧ (nullOut n t).1[i]? = some 0) ∧
      (∀ b, b ≠ 0 → (nullOut n t).1.count b + (nullOut n t).2.count b = t.count b) ∧
      0 ∉ (nullOut n t).2 := by
  induction n generalizing t with
  | zero => exact ⟨rfl, fun _ => .inl rfl, fun b _ => Nat.add_zero _, List.not_mem_nil⟩
  | succ n ih =>
    rw [nullOut]
    by_cases hb : t.getD n 0 = 0
    · rw [if_pos hb]
      exact ⟨rfl, fun _ => .inl rfl, fun b _ => Nat.add_zero _, List.not_mem_nil⟩
    · rw [if_neg hb]
      have hlt : n < t.length := hn
      have hget : t.getD n 0 = t[n] := by rw [List.getD_eq_getElem?_getD, List.getElem?_eq_getElem hlt, Option.getD_some]
      obtain ⟨hlen, hent, hcount, hzero⟩ := ih (t.set n 0) (by rw [List.length_set]; omega)
      refine ⟨hlen.trans (List.length_set ..), fun i => ?_, fun b h0 => ?_, ?_⟩
      · rcases hent i with hi | ⟨hi, hz⟩
        · by_cases hin : i = n
          · subst hin
            refine .inr ⟨Nat.lt_succ_self i, ?_⟩
            rw [hi, List.getElem?_set_self hlt]
          · refine .inl ?_
            rw [hi, List.getElem?_set_ne (Ne.symm hin)]
        · exact .inr ⟨Nat.lt_succ_of_lt hi, hz⟩
      · have hc := hcount b h0
        rw [List.count_set hlt] at hc
        rw [List.count_cons, hget]
        have hle : (if t[n] == b then 1 else 0) ≤ t.count b := by
          split
          · next he => exact List.count_pos_iff.2 (beq_iff_eq.1 he ▸ List.getElem_mem hlt)
          · exact Nat.zero_le _
        have hz : (if (0 : Nat) == b then 1 else 0) = 0 := if_neg (by simpa using Ne.symm h0)
        rw [hz] at hc
        dsimp only
        omega
      · rw [List.mem_cons, not_or]
        exact ⟨Ne.symm hb, hzero⟩

/-- Blocks that are skipped and cached leave a table. -/
lemma removeSkippedBlocks_step {p : BlockPool η} {m : SingleTypeManager} {other : Nat → Nat} {rid : ReqId}
    {numComputed : Int} (ha : Accounts p fun b => other b + m.holds b) (ht : TableInv p m)
    (hlen : m.numSkippedBlocks numComputed ≤ (m.table rid).length)
    (hcached : p.enableCaching = true → m.numSkippedBlocks numComputed ≤ m.numCached rid) :
    ∃ m' p', m.removeSkippedBlocks p rid numComputed = .ok (m', p', ()) ∧ GroupStep other p m' p' ∧
      SameGroup m m' ∧ m'.numCachedBlock = m.numCachedBlock ∧
      (∀ x, x ≠ rid → m'.table x = m.table x) ∧ (m'.table rid).length = (m.table rid).length ∧
      (∀ i : Nat, (m'.table rid)[i]? = (m.table rid)[i]? ∨ (m'.table rid)[i]? = some 0) ∧
      p'.handedOut = p.handedOut ∧ ∀ x, p'.blockHash x = p.blockHash x := by
  unfold SingleTypeManager.removeSkippedBlocks
  split
  · exact ⟨m, p, rfl, ⟨ha, ht, .refl p, fun _ _ => rfl⟩, .refl m, rfl, fun _ _ => rfl, rfl, fun _ => .inl rfl, rfl,
      fun _ => rfl⟩
  rw [if_neg (not_lt.2 hlen)]
  obtain ⟨hlen', hent, hcount, hzero⟩ := nullOut_spec _ _ hlen
  generalize nullOut (m.numSkippedBlocks numComputed) (m.table rid) = e at hlen' hent hcount hzero
  obtain ⟨t', removed⟩ := e
  dsimp only at hlen' hent hcount hzero ⊢
  have hset : ({ m with reqToBlocks := m.reqToBlocks.set rid t' } : SingleTypeManager) = m.setTable rid t' := rfl
  rw [hset]
  have hacc : Accounts p fun b => (other b + (m.setTable rid t').holds b) + removed.count b := by
    refine ha.congr fun b h0 => ?_
    have h1 := m.holds_setTable rid t' b
    have h2 := hcount b h0
    omega
  have hone : ∀ b, b ≠ 0 → removed.count b ≤ 1 := fun b h0 => by
    have h1 := hcount b h0
    have h2 := ht.distinct rid b h0
    omega
  obtain ⟨ha', hs, hout, hhash⟩ := hacc.freeBlocks hone
  refine ⟨_, _, rfl, ⟨ha', ⟨fun x b h0 => ?_, fun hc x i b hi hget => ?_⟩, hs, fun b _ => hhash b⟩, ⟨rfl, rfl, rfl⟩,
    rfl, fun x hx => ?_, ?_, fun i => ?_, hout, hhash⟩
  · rw [table_setTable]
    split
    · have h1 := hcount b h0
      have h2 := ht.distinct rid b h0
      omega
    · exact ht.distinct x b h0
  · rw [hs.enableCaching] at hc
    rw [hhash]
    rw [table_setTable] at hget
    split at hget
    · next hx =>
      subst hx
      change m.numCached x ≤ i at hi
      rcases hent i with he | ⟨hlt, -⟩
      · exact ht.fresh hc x i b hi (he ▸ hget)
      · exact absurd (hlt.trans_le ((hcached hc).trans hi)) (lt_irrefl i)
    · exact ht.fresh hc x i b hi hget
  · rw [table_setTable, if_neg hx]
  · rw [table_setTable, if_pos rfl, hlen']
  · rw [table_setTable, if_pos rfl]
    exact (hent i).imp id And.right

/-- The number of blocks `allocate_new_blocks` takes. -/
def SingleTypeManager.numNewBlocks (m : SingleTypeManager) (rid : ReqId) (numTokens : Int) : Nat :=
  (cdiv (m.paddedTokens numTokens) m.blockSize - (m.table rid).length).toNat

/-- New blocks at the end of a table. -/
lemma allocateNewBlocks_step {p : BlockPool η} {m : SingleTypeManager} {other : Nat → Nat} {rid : ReqId}
    {numTokens : Int} (ha : Accounts p fun b => other b + m.holds b) (ht : TableInv p m)
    (hroom : m.numNewBlocks rid numTokens ≤ p.freeBlockQueue.length) :
    ∃ m' p' new, m.allocateNewBlocks p rid numTokens = .ok (m', p', new) ∧ GroupStep other p m' p' ∧
      SameGroup m m' ∧ m'.numCachedBlock = m.numCachedBlock ∧
      (∀ x, m'.table x = if x = rid then m.table rid ++ new else m.table x) ∧
      new.length = m.numNewBlocks rid numTokens ∧
      p'.freeBlockQueue.length + m.numNewBlocks rid numTokens = p.freeBlockQueue.length ∧
      p'.freeBlockQueue ⊆ p.freeBlockQueue ∧ new ⊆ p.freeBlockQueue ∧
      p'.handedOut = p.handedOut ++ new ∧ ∀ x, p'.blockHash x = if x ∈ new then none else p.blockHash x := by
  unfold SingleTypeManager.allocateNewBlocks
  dsimp only
  by_cases hle : cdiv (m.paddedTokens numTokens) m.blockSize - (m.table rid).length ≤ 0
  · have h0 : m.numNewBlocks rid numTokens = 0 := Int.toNat_of_nonpos hle
    have ha' : Accounts p fun b => other b + (m.withEntry rid).holds b :=
      ha.congr fun b _ => by rw [holds_withEntry]
    rw [if_pos hle, h0]
    refine ⟨m.withEntry rid, p, [], rfl, ⟨ha', ht.withEntry rid, .refl p, fun _ _ => rfl⟩, m.sameGroup_withEntry rid,
      m.numCachedBlock_withEntry rid, fun x => ?_, rfl, rfl,
      List.Subset.refl _, List.nil_subset _, (List.append_nil _).symm, fun x => (if_neg List.not_mem_nil).symm⟩
    rw [table_withEntry]
    split
    · next hx => rw [hx, List.append_nil]
    · rfl
  · rw [if_neg hle]
    change m.numNewBlocks rid numTokens ≤ _ at hroom
    obtain ⟨p', hp', ha', hs, hfq, hout, hhash⟩ := ha.getNewBlocks hroom
    set new := p.freeBlockQueue.take (m.numNewBlocks rid numTokens) with hnew
    have hnd : new.Nodup := ha.nodup.sublist (List.take_sublist ..)
    have hfree : ∀ b ∈ new, b ≠ 0 ∧ other b + m.holds b = 0 := fun b hb =>
      have hm : b ∈ p.freeBlockQueue := (List.take_sublist ..).subset hb
      ⟨ha.ne_zero_of_mem hm, ha.held_of_mem hm⟩
    have hlen : new.length = m.numNewBlocks rid numTokens := by
      rw [hnew, List.length_take]
      omega
    refine ⟨m.setTable rid (m.table rid ++ new), p', new, ?_, ⟨ha'.congr fun b _ => ?_, ⟨fun x b h0 => ?_,
      fun hc x i b hi hget => ?_⟩, hs, fun b hb => ?_⟩, ⟨rfl, rfl, rfl⟩, rfl, fun x => m.table_setTable rid _ x,
      hlen, ?_, hfq ▸ List.drop_subset _ _, List.take_subset _ _, hout, hhash⟩
    · have hget : p.getNewBlocks (cdiv (m.paddedTokens numTokens) m.blockSize - (m.table rid).length).toNat =
          .ok (p', new) := hp'
      rw [hget]
      rfl
    · have hh := m.holds_setTable rid (m.table rid ++ new) b
      rw [List.count_append] at hh
      omega
    · rw [table_setTable]
      split
      · rw [List.count_append]
        by_cases hb : b ∈ new
        · have hz := (hfree b hb).2
          have hle := m.count_le_holds rid b
          have h1 := List.nodup_iff_count_le_one.1 hnd b
          omega
        · rw [List.count_eq_zero.2 hb, Nat.add_zero]
          exact ht.distinct rid b h0
      · exact ht.distinct x b h0
    · rw [hs.enableCaching] at hc
      change m.numCached x ≤ i at hi
      rw [hhash]
      -- an entry that was there before is not among the free blocks
      have hold : ∀ x i, m.numCached x ≤ i → (m.table x)[i]? = some b →
          b ≠ 0 ∧ (if b ∈ new then none else p.blockHash b) = none := by
        intro x i hi hget
        obtain ⟨h0, hn⟩ := ht.fresh hc x i b hi hget
        exact ⟨h0, by rw [hn, ite_self]⟩
      rw [table_setTable] at hget
      split at hget
      · next hx =>
        subst hx
        by_cases hlt : i < (m.table x).length
        · rw [List.getElem?_append_left hlt] at hget
          exact hold x i hi hget
        · rw [List.getElem?_append_right (not_lt.1 hlt)] at hget
          have hb := List.mem_of_getElem? hget
          exact ⟨(hfree b hb).1, if_pos hb⟩
      · exact hold x i hi hget
    · rw [hhash, if_neg fun hm => ?_]
      have := (hfree b hm).2
      omega
    · rw [hfq, List.length_drop]
      omega

/-- The entries of a list from a place on and before another one. -/
lemma mem_drop_take {l : List Nat} {k n b : Nat} :
    b ∈ (l.take n).drop k ↔ ∃ i, k ≤ i ∧ i < n ∧ l[i]? = some b := by
  rw [List.mem_iff_getElem?]
  constructor
  · rintro ⟨j, hj⟩
    rw [List.getElem?_drop] at hj
    have hlt : k + j < n := by
      by_contra hge
      rw [List.getElem?_take, if_neg hge] at hj
      cases hj
    rw [List.getElem?_take_of_lt hlt] at hj
    exact ⟨_, Nat.le_add_right _ _, hlt, hj⟩
  · rintro ⟨i, hi, hi', hget⟩
    exact ⟨i - k, by rw [List.getElem?_drop, Nat.add_sub_of_le hi, List.getElem?_take_of_lt hi', hget]⟩

omit [DecidableEq η] in
/-- The entries of a table that are not cached yet are blocks in use without a hash, each there once. -/
lemma TableInv.uncached {p : BlockPool η} {m : SingleTypeManager} (ht : TableInv p m) (hc : p.enableCaching = true)
    (other : Nat → Nat) (rid : ReqId) (n : Nat) :
    (∀ b ∈ ((m.table rid).take n).drop (m.numCached rid),
      b ≠ 0 ∧ 0 < other b + m.holds b ∧ p.blockHash b = none) ∧
      (((m.table rid).take n).drop (m.numCached rid)).Nodup := by
  have hbs : ∀ b ∈ ((m.table rid).take n).drop (m.numCached rid),
      b ≠ 0 ∧ 0 < other b + m.holds b ∧ p.blockHash b = none := by
    intro b hb
    obtain ⟨i, hi, -, hget⟩ := mem_drop_take.1 hb
    obtain ⟨h0, hn⟩ := ht.fresh hc rid i b hi hget
    have h1 : 0 < (m.table rid).count b := List.count_pos_iff.2 (List.mem_of_getElem? hget)
    have h2 := m.count_le_holds rid b
    exact ⟨h0, by omega, hn⟩
  refine ⟨hbs, List.nodup_iff_count_le_one.2 fun b => ?_⟩
  by_cases hb : b ∈ ((m.table rid).take n).drop (m.numCached rid)
  · refine le_trans (List.Sublist.count_le b ?_) (ht.distinct rid b (hbs b hb).1)
    exact (List.drop_sublist ..).trans (List.take_sublist ..)
  · rw [List.count_eq_zero.2 hb]
    exact Nat.zero_le 1

/-- Counting entries as cached keeps the tables when only they get a hash. -/
lemma TableInv.setCached {p p' : BlockPool η} {m : SingleTypeManager} {other : Nat → Nat} {rid : ReqId} {n : Nat}
    (ha : Accounts p fun b => other b + m.holds b) (ht : TableInv p m) (hc : p.enableCaching = true)
    (hle : m.numCached rid < n)
    (hother : ∀ b, b ∉ ((m.table rid).take n).drop (m.numCached rid) → p'.blockHash b = p.blockHash b) :
    TableInv p' ((m.withEntry rid).setCached rid n) := by
  have htab : ∀ x, ((m.withEntry rid).setCached rid n).table x = m.table x := m.table_withEntry rid
  refine ⟨fun x => by rw [htab]; exact ht.distinct x, fun _ x i b hi hget => ?_⟩
  rw [htab] at hget
  rw [numCached_setCached, numCached_withEntry] at hi
  by_cases hx : x = rid
  · subst hx
    rw [if_pos rfl] at hi
    obtain ⟨h0, hn⟩ := ht.fresh hc x i b (by omega) hget
    refine ⟨h0, (hother b fun hb => ?_).trans hn⟩
    -- the entry would be twice in the table
    obtain ⟨j, -, hj, hgetj⟩ := mem_drop_take.1 hb
    have h1 := ht.distinct x b h0
    have hlt : i < (m.table x).length := (List.getElem?_eq_some_iff.1 hget).1
    have hji : j < i := by omega
    have htake : 0 < ((m.table x).take i).count b :=
      List.count_pos_iff.2 (List.mem_of_getElem? ((List.getElem?_take_of_lt hji).trans hgetj))
    have hdrop : 0 < ((m.table x).drop i).count b :=
      List.count_pos_iff.2 (List.mem_of_getElem? (by rw [List.getElem?_drop, Nat.add_zero, hget]))
    have hsum : ((m.table x).take i).count b + ((m.table x).drop i).count b = (m.table x).count b := by
      rw [← List.count_append, List.take_append_drop]
    omega
  · rw [if_neg hx] at hi
    obtain ⟨h0, hn⟩ := ht.fresh hc x i b hi hget
    refine ⟨h0, (hother b fun hb => ?_).trans hn⟩
    -- a block without a hash has one holder
    have hbs := (ht.uncached hc other rid n).1 b hb
    obtain ⟨j, -, -, hgetj⟩ := mem_drop_take.1 hb
    have h1 := m.count_add_count_le_holds hx b
    have h2 := ha.single b hbs.1 hbs.2.2
    have h3 : 0 < (m.table rid).count b := List.count_pos_iff.2 (List.mem_of_getElem? hgetj)
    have h4 : 0 < (m.table x).count b := List.count_pos_iff.2 (List.mem_of_getElem? hget)
    omega

/-- The full blocks of a table that are not cached yet are cached. -/
lemma cacheBlocks_step {p : BlockPool η} {m : SingleTypeManager} {other : Nat → Nat} {rid : ReqId}
    {hashes : List η} {numTokens : Int} (ha : Accounts p fun b => other b + m.holds b) (ht : TableInv p m)
    (hc : p.enableCaching = true) (hspec : m.spec ≠ .crossAttention)
    (hlen : (numTokens / m.blockSize).toNat ≤ hashes.length) :
    ∃ m' p', m.cacheBlocks p rid hashes numTokens = .ok (m', p', ()) ∧ GroupStep other p m' p' ∧
      SameGroup m m' ∧ (∀ x, m'.table x = m.table x) ∧
      (∀ x, m'.numCached x =
        if x = rid then max (m.numCached rid) (numTokens / m.blockSize).toNat else m.numCached x) ∧
      (∀ x, x ≠ rid → (x ∈ m'.numCachedBlock ↔ x ∈ m.numCachedBlock)) ∧
      p'.handedOut = p.handedOut ∧
      (∀ i b, m.numCached rid ≤ i → i < (numTokens / m.blockSize).toNat → (m.table rid)[i]? = some b →
        ∃ k, hashes[i]? = some k ∧ p'.blockHash b = some (k, m.groupId)) ∧
      ∀ b, p'.blockHash b = p.blockHash b ∨ p.blockHash b = none ∧ ∃ i, m.numCached rid ≤ i ∧
        i < (numTokens / m.blockSize).toNat ∧ (m.table rid)[i]? = some b := by
  unfold SingleTypeManager.cacheBlocks
  dsimp only
  generalize (numTokens / m.blockSize).toNat = numFull at hlen ⊢
  rw [if_neg hspec]
  by_cases hle : numFull ≤ m.numCached rid
  · rw [if_pos hle]
    refine ⟨m, p, rfl, ⟨ha, ht, .refl p, fun _ _ => rfl⟩, .refl m, fun _ => rfl, fun x => ?_, fun _ _ => Iff.rfl, rfl,
      fun i b hi hi' => absurd (hi.trans_lt hi') (not_lt.2 hle), fun _ => .inl rfl⟩
    split
    · next hx => rw [hx, Nat.max_eq_left hle]
    · rfl
  rw [if_neg hle]
  obtain ⟨hbs, hnd⟩ := ht.uncached hc other rid numFull
  obtain ⟨p', hp', ha', hs, hout, -, hin, hother⟩ := ha.cacheFullBlocks (g := m.groupId) hc hlen hnd hbs
  have htab : ∀ x, ((m.withEntry rid).setCached rid numFull).table x = m.table x := m.table_withEntry rid
  have hholds : ∀ b, ((m.withEntry rid).setCached rid numFull).holds b = m.holds b := m.holds_withEntry rid
  refine ⟨(m.withEntry rid).setCached rid numFull, p', ?_, ⟨ha'.congr fun b _ => by rw [hholds],
      ht.setCached ha hc (not_le.1 hle) hother, hs, fun b hb => ?_⟩,
    (m.sameGroup_withEntry rid).trans ⟨rfl, rfl, rfl⟩, htab, fun x => ?_, fun x hx => ?_, hout, hin, fun b => ?_⟩
  · rw [hp', SingleTypeManager.setCached, numCachedBlock_withEntry]
    rfl
  · -- a block of another group is none that is cached here, which has one holder
    refine hother b fun hm => ?_
    obtain ⟨j, -, -, hgetj⟩ := mem_drop_take.1 hm
    have h2 := ha.single b (hbs b hm).1 (hbs b hm).2.2
    have h3 : 0 < (m.table rid).count b := List.count_pos_iff.2 (List.mem_of_getElem? hgetj)
    have h4 := m.count_le_holds rid b
    omega
  · rw [numCached_setCached, numCached_withEntry]
    split
    · rw [Nat.max_eq_right (Nat.le_of_not_le hle)]
    · rfl
  · change x ∈ (m.withEntry rid).numCachedBlock.set rid numFull ↔ _
    rw [numCachedBlock_withEntry, Dict.mem_set]
    exact ⟨fun h => h.resolve_left hx, .inr⟩
  · by_cases hb : b ∈ ((m.table rid).take numFull).drop (m.numCached rid)
    · exact .inr ⟨(hbs b hb).2.2, mem_drop_take.1 hb⟩
    · exact .inl (hother b hb)

/-- A request gives its blocks back. -/
lemma free_step {p : BlockPool η} {m : SingleTypeManager} {other : Nat → Nat} (rid : ReqId)
    (ha : Accounts p fun b => other b + m.holds b) (ht : TableInv p m) :
    ∃ p', m.free p rid = .ok (m.dropTable rid, p', ()) ∧ GroupStep other p (m.dropTable rid) p' ∧
      p'.handedOut = p.handedOut ∧ ∀ x, p'.blockHash x = p.blockHash x := by
  have hacc : Accounts p fun b => (other b + (m.dropTable rid).holds b) + (m.table rid).reverse.count b := by
    refine ha.congr fun b _ => ?_
    have hd := m.holds_dropTable rid b
    rw [List.count_reverse]
    omega
  have hone : ∀ b, b ≠ 0 → (m.table rid).reverse.count b ≤ 1 := fun b h0 => by
    rw [List.count_reverse]
    exact ht.distinct rid b h0
  obtain ⟨ha', hs, hout, hhash⟩ := hacc.freeBlocks hone
  refine ⟨_, rfl, ⟨ha', ⟨fun x b h0 => ?_, fun hc x i b hi hget => ?_⟩, hs, fun b _ => hhash b⟩, hout, hhash⟩
  · rw [table_dropTable]
    split
    · rw [List.count_nil]
      exact Nat.zero_le 1
    · exact ht.distinct x b h0
  · rw [hs.enableCaching] at hc
    rw [table_dropTable] at hget
    rw [numCached_dropTable] at hi
    rw [hhash]
    split at hget
    · cases hget
    · next hx =>
      rw [if_neg hx] at hi
      exact ht.fresh hc x i b hi hget

end Gambit.KV
