import Gambit.KV.Sound

/-!
# Refused allocations

`allocate_slots` that finds no room has read `req_to_blocks[request_id]` in every group, and reading a `defaultdict`
makes an entry. The entry is an empty table, so nothing but the number of entries tells the manager from the one
before the call; and `get_num_common_prefix_blocks` compares reference counts with that number.
-/

namespace Gambit.KV
open Gambit.Lib Gambit.Sched SingleTypeManager KVCacheManager

variable {η : Type} [DecidableEq η]

/-- The number of entries of a group when the table of a request is read. -/
def SingleTypeManager.entryCount (m : SingleTypeManager) (rid : ReqId) : Nat := (m.withEntry rid).reqToBlocks.keys.length

namespace KVCacheManager
variable {H : Hasher η} {s s' : KVCacheManager η} {rid : ReqId}

/-- A call about a request left no trace: the pool, the tables, what is cached and the common blocks of every other
request are as before, aborting the request is as if the call had not been made (a request that the manager does not
know leaves it as it was), and so is allocating for it again. -/
structure NoTrace (H : Hasher η) (rid : ReqId) (s s' : KVCacheManager η) : Prop where
  pool : s'.blockPool = s.blockPool
  tables : List.Forall₂ (fun m m' => ∀ x, SingleTypeManager.table m' x = m.table x) s.managers s'.managers
  numCachedBlock : List.Forall₂ (fun m m' => SingleTypeManager.numCachedBlock m' = m.numCachedBlock) s.managers s'.managers
  common : ∀ x, x ≠ rid → (s'.getNumCommonPrefixBlocks x).2 = (s.getNumCommonPrefixBlocks x).2
  aborted : s'.free rid = s.free rid
  abortedNew : (∀ m ∈ s.managers, rid ∉ m.reqToBlocks ∧ rid ∉ m.numCachedBlock) → s'.free rid = .ok s
  retried : ∀ r : Request, r.requestId = rid → ∀ numNew numNewComputed cols lookahead delay enc,
    s'.allocateSlots H r numNew numNewComputed cols lookahead delay enc =
      s.allocateSlots H r numNew numNewComputed cols lookahead delay enc

/-- The entry of a refused request is not noticed: there is no caching, or in every group the request has an entry
already or the table of no other request begins with a block of as many references as there are entries, before or
after. -/
def Unnoticed (s : KVCacheManager η) (rid : ReqId) : Prop :=
  s.blockPool.enableCaching = true → ∀ m ∈ s.managers, rid ∉ m.reqToBlocks → ∀ x, x ≠ rid →
    ∀ b, (m.table x).head? = some b → s.blockPool.refCnt b ≠ m.entryCount x ∧ s.blockPool.refCnt b ≠ m.entryCount x + 1

omit [DecidableEq η] in
/-- A loop that changes no group. -/
lemma forManagers_same {α : Type}
    {f : SingleTypeManager → BlockPool η → Except Unit (SingleTypeManager × BlockPool η × α)} {a : α}
    {ms : List SingleTypeManager} {p : BlockPool η} (h : ∀ m ∈ ms, f m p = .ok (m, p, a)) :
    forManagers f ms p = .ok (ms, p, ms.map fun _ => a) := by
  induction ms with
  | nil => rfl
  | cons m ms ih =>
    rw [forManagers, h m List.mem_cons_self]
    dsimp only [bind, Except.bind]
    rw [ih fun x hx => h x (List.mem_cons_of_mem m hx)]
    rfl

omit [DecidableEq η] in
/-- Full attention skips nothing. -/
lemma removeSkippedBlocks_full (hfull : ∀ m ∈ s.managers, m.spec = .full) (rid : ReqId) (numComputed : Int) :
    s.removeSkippedBlocks rid numComputed = .ok s := by
  have hsame : ∀ m ∈ s.managers, m.removeSkippedBlocks s.blockPool rid numComputed = .ok (m, s.blockPool, ()) := by
    intro m hm
    unfold SingleTypeManager.removeSkippedBlocks
    rw [hfull m hm]
    exact if_pos le_rfl
  unfold KVCacheManager.removeSkippedBlocks
  rw [forManagers_same hsame]
  rfl

omit [DecidableEq η] in
lemma full_withEntries (hfull : ∀ m ∈ s.managers, m.spec = .full) (rid : ReqId) :
    ∀ m ∈ (s.withEntries rid).managers, m.spec = .full := by
  intro m hm
  obtain ⟨m, hmem, rfl⟩ := List.mem_map.1 hm
  rw [(m.sameGroup_withEntry rid).spec]
  exact hfull m hmem

/-- A refused call leaves the entries it read. -/
lemma eq_withEntries_of_refused (hfull : ∀ m ∈ s.managers, m.spec = .full) {r : Request} {numNew : Int}
    {numNewComputed lookahead enc : Nat} {cols : List (List Nat)} {delay : Bool}
    (hok : s.allocateSlots H r numNew numNewComputed cols lookahead delay enc = .ok (s', none)) :
    s' = s.withEntries r.requestId := by
  obtain ⟨skipped, hsk, hrest⟩ := (stages_of_ok hok).2
  rw [removeSkippedBlocks_full hfull] at hsk
  cases hsk
  rcases hrest with ⟨-, he, -⟩ | ⟨-, taken, extended, blocks, -, -, hnew, -⟩
  · exact he
  · cases hnew

omit [DecidableEq η] in
lemma withEntry_withEntry (m : SingleTypeManager) (rid : ReqId) : (m.withEntry rid).withEntry rid = m.withEntry rid :=
  if_pos (mem_withEntry m rid)

omit [DecidableEq η] in
lemma withEntries_withEntries (s : KVCacheManager η) (rid : ReqId) :
    (s.withEntries rid).withEntries rid = s.withEntries rid := by
  unfold withEntries
  dsimp only
  rw [List.map_map]
  exact congrArg (fun ms => { s with managers := ms }) (List.map_congr_left fun m _ => withEntry_withEntry m rid)

/-- Allocating again for a request does not see its entries. -/
lemma allocateSlots_withEntries (hfull : ∀ m ∈ s.managers, m.spec = .full) (r : Request) (numNew : Int)
    (numNewComputed : Nat) (cols : List (List Nat)) (lookahead : Nat) (delay : Bool) (enc : Nat) :
    (s.withEntries r.requestId).allocateSlots H r numNew numNewComputed cols lookahead delay enc =
      s.allocateSlots H r numNew numNewComputed cols lookahead delay enc := by
  unfold KVCacheManager.allocateSlots
  rw [removeSkippedBlocks_full hfull, removeSkippedBlocks_full (full_withEntries hfull _)]
  dsimp only [bind, Except.bind]
  rw [getNumBlocksToAllocate_withEntries, withEntries_withEntries]
  rfl

/-- An entry that is erased is as if it had not been made. -/
lemma dropTable_withEntry (m : SingleTypeManager) (rid : ReqId) : (m.withEntry rid).dropTable rid = m.dropTable rid := by
  unfold SingleTypeManager.withEntry
  split
  · rfl
  · next hn =>
    unfold SingleTypeManager.dropTable
    dsimp only
    congr 1
    apply Dict.ext
    show (m.reqToBlocks.set rid []).entries.filter _ = m.reqToBlocks.entries.filter _
    rw [Dict.entries_set_of_not_mem _ hn, List.filter_append]
    simp

omit [DecidableEq η] in
/-- Freeing does not see the entries of the request. -/
lemma free_withEntries (s : KVCacheManager η) (rid : ReqId) : (s.withEntries rid).free rid = s.free rid := by
  have hloop : ∀ (ms : List SingleTypeManager) (p : BlockPool η),
      forManagers (fun m p => m.free p rid) (ms.map fun m => m.withEntry rid) p =
        forManagers (fun m p => m.free p rid) ms p := by
    intro ms
    induction ms with
    | nil => exact fun _ => rfl
    | cons m ms ih =>
      intro p
      have hone : (m.withEntry rid).free p rid = m.free p rid := by
        show Except.ok ((m.withEntry rid).dropTable rid, p.freeBlocks ((m.withEntry rid).table rid).reverse, ()) = _
        rw [dropTable_withEntry, table_withEntry]
        rfl
      have hfree : m.free p rid = .ok (m.dropTable rid, p.freeBlocks (m.table rid).reverse, ()) := rfl
      rw [List.map_cons, forManagers, forManagers, hone, hfree]
      dsimp only [bind, Except.bind]
      rw [ih]
  unfold KVCacheManager.free withEntries
  dsimp only
  rw [hloop]

omit [DecidableEq η] in
/-- Freeing a request without entries does nothing. -/
lemma free_unknown (hu : ∀ m ∈ s.managers, rid ∉ m.reqToBlocks ∧ rid ∉ m.numCachedBlock) : s.free rid = .ok s := by
  have hpool : s.blockPool.freeBlocks [] = s.blockPool := by
    show { s.blockPool with
      freeBlockQueue := s.blockPool.freeBlockQueue ++ []
      numFreeBlocks := s.blockPool.numFreeBlocks + 0 } = s.blockPool
    rw [List.append_nil, Int.add_zero]
  have hsame : ∀ m ∈ s.managers, m.free s.blockPool rid = .ok (m, s.blockPool, ()) := by
    intro m hm
    obtain ⟨ht, hn⟩ := hu m hm
    have htab : m.table rid = [] := by
      rw [SingleTypeManager.table, Dict.getD_eq, Dict.get?_eq_none.2 ht, Option.getD_none]
    unfold SingleTypeManager.free
    rw [htab, Dict.erase_of_not_mem ht, Dict.erase_of_not_mem hn, List.reverse_nil, hpool]
  unfold KVCacheManager.free
  rw [forManagers_same hsame]
  rfl

/-- The lengths of two runs of different elements. -/
lemma length_takeWhile_eq_iff {α : Type} {P Q : α → Bool} (hPQ : ∀ b, P b = true → Q b = false) (l : List α) :
    (l.takeWhile P).length = (l.takeWhile Q).length ↔ ∀ b, l.head? = some b → P b = false ∧ Q b = false := by
  cases l with
  | nil => exact ⟨fun _ b hb => (by cases hb), fun _ => rfl⟩
  | cons a l =>
    have hhead : (∀ b, (a :: l).head? = some b → P b = false ∧ Q b = false) ↔ P a = false ∧ Q a = false :=
      ⟨fun h => h a rfl, fun h b hb => (Option.some.inj hb) ▸ h⟩
    rw [hhead, List.takeWhile_cons, List.takeWhile_cons]
    cases hp : P a with
    | true =>
      rw [hPQ a hp]
      simp
    | false =>
      cases hq : Q a with
      | true => simp
      | false => simp

/-- The entries after a request got one. -/
lemma entryCount_withEntry (m : SingleTypeManager) {rid x : ReqId} (hx : x ≠ rid) (hn : rid ∉ m.reqToBlocks) :
    (m.withEntry rid).entryCount x = m.entryCount x + 1 := by
  have hlen : ∀ (m : SingleTypeManager) (y : ReqId), y ∉ m.reqToBlocks →
      (m.withEntry y).reqToBlocks.keys.length = m.reqToBlocks.keys.length + 1 := by
    intro m y hy
    have hw : m.withEntry y = { m with reqToBlocks := m.reqToBlocks.set y [] } := if_neg hy
    rw [hw, Dict.keys_set_of_not_mem _ hy, List.length_append, List.length_singleton]
  have hmem : x ∈ (m.withEntry rid).reqToBlocks ↔ x ∈ m.reqToBlocks := by
    have hw : m.withEntry rid = { m with reqToBlocks := m.reqToBlocks.set rid [] } := if_neg hn
    rw [hw]
    exact Dict.mem_set.trans ⟨fun h => h.resolve_left hx, .inr⟩
  unfold SingleTypeManager.entryCount
  by_cases hxm : x ∈ m.reqToBlocks
  · have h1 : (m.withEntry rid).withEntry x = m.withEntry rid := if_pos (hmem.2 hxm)
    have h2 : m.withEntry x = m := if_pos hxm
    rw [h1, h2, hlen m rid hn]
  · rw [hlen _ x fun h => hxm (hmem.1 h), hlen m rid hn, hlen m x hxm]

omit [DecidableEq η] in
/-- The common blocks of another request in a group, before and after a request got an entry. -/
lemma common_withEntry_iff {m : SingleTypeManager} (hfull : m.spec = .full) (p : BlockPool η) {rid x : ReqId}
    (hx : x ≠ rid) (hn : rid ∉ m.reqToBlocks) :
    ((m.withEntry rid).getNumCommonPrefixBlocks p x).2 = (m.getNumCommonPrefixBlocks p x).2 ↔
      ∀ b, (m.table x).head? = some b → p.refCnt b ≠ m.entryCount x ∧ p.refCnt b ≠ m.entryCount x + 1 := by
  have hcount : ∀ m : SingleTypeManager, m.spec = .full → (m.getNumCommonPrefixBlocks p x).2 =
      ((m.table x).takeWhile fun b => p.refCnt b = m.entryCount x).length := by
    intro m hm
    rw [SingleTypeManager.getNumCommonPrefixBlocks, hm]
    dsimp only
    rw [table_withEntry]
    rfl
  rw [hcount m hfull, hcount _ ((m.sameGroup_withEntry rid).spec.trans hfull), table_withEntry,
    entryCount_withEntry m hx hn, length_takeWhile_eq_iff]
  · refine forall₂_congr fun b _ => ?_
    rw [decide_eq_false_iff_not, decide_eq_false_iff_not, Nat.cast_add, Nat.cast_one]
    exact and_comm
  · intro b hb
    have hb := of_decide_eq_true hb
    refine decide_eq_false fun he => ?_
    rw [he] at hb
    have := Int.ofNat.inj hb
    omega

omit [DecidableEq η] in
/-- The counts of all groups. -/
lemma snd_getNumCommonPrefixBlocks (s : KVCacheManager η) (x : ReqId) :
    (s.getNumCommonPrefixBlocks x).2 =
      s.managers.map fun m => if s.blockPool.enableCaching then (m.getNumCommonPrefixBlocks s.blockPool x).2 else 0 := by
  unfold KVCacheManager.getNumCommonPrefixBlocks
  cases s.blockPool.enableCaching with
  | false => rfl
  | true =>
    show (s.managers.map fun m => m.getNumCommonPrefixBlocks s.blockPool x).map Prod.snd = _
    rw [List.map_map]
    rfl

omit [DecidableEq η] in
/-- The common blocks of all other requests are as before exactly if the entry is not noticed. -/
lemma common_withEntries_iff (hfull : ∀ m ∈ s.managers, m.spec = .full) (rid : ReqId) :
    (∀ x, x ≠ rid → ((s.withEntries rid).getNumCommonPrefixBlocks x).2 = (s.getNumCommonPrefixBlocks x).2) ↔
      s.Unnoticed rid := by
  have hgroups : ∀ x, ((s.withEntries rid).getNumCommonPrefixBlocks x).2 = (s.getNumCommonPrefixBlocks x).2 ↔
      ∀ m ∈ s.managers, (if s.blockPool.enableCaching then
        ((m.withEntry rid).getNumCommonPrefixBlocks s.blockPool x).2 else 0) =
          if s.blockPool.enableCaching then (m.getNumCommonPrefixBlocks s.blockPool x).2 else 0 := by
    intro x
    rw [snd_getNumCommonPrefixBlocks, snd_getNumCommonPrefixBlocks]
    unfold withEntries
    dsimp only
    rw [List.map_map]
    exact List.map_inj_left
  simp only [hgroups]
  unfold Unnoticed
  cases hc : s.blockPool.enableCaching with
  | false => exact ⟨fun _ h => (by cases h), fun _ _ _ _ _ => rfl⟩
  | true =>
    simp only [if_true]
    constructor
    · intro h _ m hm hn x hx
      exact (common_withEntry_iff (hfull m hm) s.blockPool hx hn).1 (h x hx m hm)
    · intro h x hx m hm
      by_cases hn : rid ∈ m.reqToBlocks
      · have hself : m.withEntry rid = m := if_pos hn
        rw [hself]
      · exact (common_withEntry_iff (hfull m hm) s.blockPool hx hn).2 (h trivial m hm hn x hx)

end KVCacheManager

/-- A refused allocation leaves no trace exactly if the entry of the refused request is not noticed. -/
theorem refused_noTrace_iff {H : Hasher η} {s s' : KVCacheManager η} (hfull : ∀ m ∈ s.managers, m.spec = .full)
    {r : Request} {numNew : Int} {numNewComputed lookahead enc : Nat} {cols : List (List Nat)} {delay : Bool}
    (hok : s.allocateSlots H r numNew numNewComputed cols lookahead delay enc = .ok (s', none)) :
    NoTrace H r.requestId s s' ↔ s.Unnoticed r.requestId := by
  obtain rfl := eq_withEntries_of_refused hfull hok
  refine ⟨fun h => (common_withEntries_iff hfull r.requestId).1 h.common, fun h => ?_⟩
  refine ⟨rfl, ?_, ?_, (common_withEntries_iff hfull r.requestId).2 h, free_withEntries s _, fun hu => ?_,
    fun r' hr' numNew numNewComputed cols lookahead delay enc => ?_⟩
  · exact List.forall₂_map_right_iff.2 (List.forall₂_same.2 fun m _ x => m.table_withEntry _ x)
  · exact List.forall₂_map_right_iff.2 (List.forall₂_same.2 fun m _ => m.numCachedBlock_withEntry _)
  · rw [free_withEntries, free_unknown hu]
  · rw [← hr']
    exact allocateSlots_withEntries hfull r' numNew numNewComputed cols lookahead delay enc

/-- A request with two blocks is refused a third: it has its entry. -/
theorem refused_noTrace_running :
    let H := Hasher.chain 2
    let M := kvMachine H (.init 100 false 4 true [(.full, 2)])
    let r : Request := { requestId := ['a'], promptTokenIds := [1, 1, 2, 2] }
    let calls : List Call := [.allocateSlots r 4 0 [[]] 0 false,
      .allocateSlots { requestId := ['b'], promptTokenIds := [1, 1] } 2 0 [[]] 0 false]
    ∃ s s', (M.exec calls).2 = .ok s ∧ s.getBlocks ['a'] = [[1, 2]] ∧ s.getBlocks ['b'] = [[3]] ∧
      s.allocateSlots H { r with outputTokenIds := [3], numComputedTokens := 4 } 1 0 [[]] 0 false 0 = .ok (s', none) ∧
      NoTrace H ['a'] s s' := by
  intro H M r calls
  let r' : Request := { r with outputTokenIds := [3], numComputedTokens := 4 }
  have hrun : ((M.exec calls).2.bind fun s => (s.allocateSlots H r' 1 0 [[]] 0 false 0).map fun e =>
      (e.2, s.managers.map fun m => (m.spec, m.reqToBlocks.keys))) = .ok (none, [(.full, [['a'], ['b']])]) := by
    decide
  have hblocks : ((M.exec calls).2.map fun s => (s.getBlocks ['a'], s.getBlocks ['b'])) =
      .ok ([[1, 2]], [[3]]) := by
    decide
  cases hs : (M.exec calls).2 with
  | error _ =>
    rw [hs] at hrun
    cases hrun
  | ok s =>
    rw [hs] at hrun hblocks
    obtain ⟨ha, hb⟩ := Prod.mk.inj (Except.ok.inj hblocks)
    cases hal : s.allocateSlots H r' 1 0 [[]] 0 false 0 with
    | error _ =>
      rw [Except.bind, hal] at hrun
      cases hrun
    | ok e =>
      obtain ⟨s', new⟩ := e
      rw [Except.bind, hal] at hrun
      obtain ⟨rfl, hgroups⟩ := Prod.mk.inj (Except.ok.inj hrun)
      have hgroup : ∀ m ∈ s.managers, m.spec = .full ∧ m.reqToBlocks.keys = [['a'], ['b']] := by
        intro m hm
        have hmem := List.mem_map_of_mem (f := fun m : SingleTypeManager => (m.spec, m.reqToBlocks.keys)) hm
        rw [hgroups, List.mem_singleton] at hmem
        exact Prod.mk.inj hmem
      refine ⟨s, s', rfl, ha, hb, hal, ?_⟩
      refine (refused_noTrace_iff (fun m hm => (hgroup m hm).1) hal).2 fun _ m hm hn => absurd ?_ hn
      rw [Dict.mem_def, (hgroup m hm).2]
      exact List.mem_cons_self

/-- A second request is refused: the first one, alone before and after, has no common blocks any more. -/
theorem refused_trace :
    let H := Hasher.chain 2
    let M := kvMachine H (.init 100 false 3 true [(.full, 2)])
    let r : Request := { requestId := ['a'], promptTokenIds := [1, 1, 2, 2] }
    let calls : List Call := [.allocateSlots r 4 0 [[]] 0 false]
    M.Along (OnManager (KVCacheManager.Issued H)) calls ∧ ∃ s s', (M.exec calls).2 = .ok s ∧
      (∀ m ∈ s.managers, m.spec = .full) ∧
      s.allocateSlots H { requestId := ['b'], promptTokenIds := [3, 3] } 2 0 [[]] 0 false 0 = .ok (s', none) ∧
      (s.getNumCommonPrefixBlocks ['a']).2 = [2] ∧ (s'.getNumCommonPrefixBlocks ['a']).2 = [0] ∧
      ¬ NoTrace H ['b'] s s' := by
  intro H M r calls
  let r' : Request := { requestId := ['b'], promptTokenIds := [3, 3] }
  have hrun : ((M.exec calls).2.bind fun s => (s.allocateSlots H r' 2 0 [[]] 0 false 0).map fun e =>
      (e.2, s.managers.map SingleTypeManager.spec, (s.getNumCommonPrefixBlocks ['a']).2,
        (e.1.getNumCommonPrefixBlocks ['a']).2)) = .ok (none, [.full], [2], [0]) := by
    decide
  refine ⟨by decide, ?_⟩
  cases hs : (M.exec calls).2 with
  | error _ =>
    rw [hs] at hrun
    cases hrun
  | ok s =>
    rw [hs] at hrun
    cases ha : s.allocateSlots H r' 2 0 [[]] 0 false 0 with
    | error _ =>
      rw [Except.bind, ha] at hrun
      cases hrun
    | ok e =>
      obtain ⟨s', new⟩ := e
      rw [Except.bind, ha] at hrun
      obtain ⟨rfl, hspecs⟩ := Prod.mk.inj (Except.ok.inj hrun)
      obtain ⟨hspecs, hcounts⟩ := Prod.mk.inj hspecs
      obtain ⟨hbefore, hafter⟩ := Prod.mk.inj hcounts
      refine ⟨s, s', rfl, fun m hm => ?_, ha, hbefore, hafter, fun h => ?_⟩
      · have hmem := List.mem_map_of_mem (f := SingleTypeManager.spec) hm
        rwa [hspecs, List.mem_singleton] at hmem
      · have hsame := h.common ['a'] (by decide)
        rw [hbefore, hafter] at hsame
        exact absurd hsame (by decide)

end Gambit.KV
