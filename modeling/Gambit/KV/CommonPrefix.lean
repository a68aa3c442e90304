import Gambit.KV.Sound

/-!
# The common prefix

`get_num_common_prefix_blocks` takes a block for shared by all requests when its reference count is the number of
entries of `req_to_blocks`. A block with a hash stands only in the tables of its group, at the place of its hash and
once in each; a block without hash has one holder. So as many references as entries are one in every table.
-/

namespace Gambit.KV
open Gambit.Lib Gambit.Sched SingleTypeManager KVCacheManager

variable {η : Type} [DecidableEq η]

/-- Numbers that are one at most and sum up to their count. -/
lemma eq_one_of_sum {α : Type} {f : α → Nat} {l : List α} (hle : ∀ x ∈ l, f x ≤ 1) (hsum : (l.map f).sum = l.length) :
    ∀ x ∈ l, f x = 1 := by
  induction l with
  | nil => nofun
  | cons a l ih =>
    have hl : ∀ x ∈ l, f x ≤ 1 := fun x hx => hle x (List.mem_cons_of_mem a hx)
    have hrest : (l.map f).sum ≤ l.length := by
      have hcard := List.sum_le_card_nsmul (l.map f) 1 fun y hy => by
        obtain ⟨x, hx, rfl⟩ := List.mem_map.1 hy
        exact hl x hx
      rwa [List.length_map, smul_eq_mul, Nat.mul_one] at hcard
    have ha := hle a List.mem_cons_self
    rw [List.map_cons, List.sum_cons, List.length_cons] at hsum
    intro x hx
    rcases List.mem_cons.1 hx with rfl | hx
    · omega
    · exact ih hl (by omega) x hx

/-- The first elements with a property. -/
lemma getElem?_of_lt_takeWhile {α : Type} {P : α → Bool} {l : List α} {i : Nat} (hi : i < (l.takeWhile P).length) :
    ∃ b, l[i]? = some b ∧ P b = true := by
  refine ⟨(l.takeWhile P)[i], ?_, List.mem_takeWhile_imp (List.getElem_mem hi)⟩
  have hget : (l.takeWhile P ++ l.dropWhile P)[i]? = some (l.takeWhile P)[i] := by
    rw [List.getElem?_append_left hi, List.getElem?_eq_getElem hi]
  rwa [List.takeWhile_append_dropWhile] at hget

namespace KVCacheManager
variable {H : Hasher η} {s : KVCacheManager η} {m : SingleTypeManager}

/-- A block with a hash is held in the group of its hash only. -/
lemma SoundAt.held_eq_holds (h : s.SoundAt H) (hm : m ∈ s.managers) {rid : ReqId} {i b : Nat} {k : BlockKey η}
    (h0 : b ≠ 0) (hget : (m.table rid)[i]? = some b) (hk : s.blockPool.blockHash b = some k) :
    held s.managers b = m.holds b := by
  obtain ⟨done, rest, hms⟩ := List.append_of_mem hm
  have hids := h.ids
  rw [hms, List.map_append, List.map_cons, List.nodup_middle, ← List.map_append] at hids
  rw [hms, held_middle]
  have hz : held (done ++ rest) b = 0 := by
    refine List.sum_eq_zero fun x hx => ?_
    obtain ⟨m', hm', rfl⟩ := List.mem_map.1 hx
    have hmem : m' ∈ s.managers := by
      rw [hms]
      rcases List.mem_append.1 hm' with hm' | hm'
      · exact List.mem_append_left _ hm'
      · exact List.mem_append_right _ (List.mem_cons_of_mem m hm')
    refine List.sum_eq_zero fun n hn => ?_
    obtain ⟨t, ht, rfl⟩ := List.mem_map.1 hn
    obtain ⟨⟨x, t⟩, hent, rfl⟩ := List.mem_map.1 ht
    refine List.count_eq_zero.2 fun hb => ?_
    have htab : m'.table x = t := by
      rw [SingleTypeManager.table, Dict.getD_eq, Dict.get?_eq_some.2 hent, Option.getD_some]
    obtain ⟨j, hj⟩ := List.mem_iff_getElem?.1 hb
    -- the groups of two holders are the group of the hash
    have hg := (h.placed m hm rid i b k h0 hget hk).1
    have hg' := (h.placed m' hmem x j b k h0 (htab ▸ hj) hk).1
    exact (List.nodup_cons.1 hids).1 (List.mem_map.2 ⟨m', hm', hg'.symm.trans hg⟩)
  rw [hz, Nat.add_zero]

/-- A block with as many references as there are entries is at one place in all tables of full attention. -/
lemma Steady.shared (h : s.Steady H) (inj : H.Injective) (hm : m ∈ s.managers) (hfull : m.spec = .full) {rid x : ReqId}
    {i b : Nat} (hget : (m.table rid)[i]? = some b)
    (hcount : s.blockPool.refCnt b = m.reqToBlocks.keys.length) (hrid : rid ∈ m.reqToBlocks) (hx : x ∈ m.reqToBlocks) :
    (m.table x)[i]? = some b := by
  have h0 : b ≠ 0 := by
    rintro rfl
    exact (h.sound.full m hm hfull).1 rid (List.mem_of_getElem? hget)
  have hheld : held s.managers b = m.reqToBlocks.keys.length := by
    have href := h.sound.books.refCnt h0
    rw [hcount] at href
    exact (Int.ofNat.inj href).symm
  cases hk : s.blockPool.blockHash b with
  | none =>
    -- there is one entry
    have hone : held s.managers b ≤ 1 := h.sound.books.single h0 hk
    have hx' : x = rid := by
      by_contra hne
      have hsub : [x, rid].Subperm m.reqToBlocks.keys := by
        refine List.Nodup.subperm (by simp [hne]) fun y hy => ?_
        simp only [List.mem_cons, List.not_mem_nil, or_false] at hy
        rcases hy with rfl | rfl
        · exact hx
        · exact hrid
      have hlen := hsub.length_le
      rw [List.length_cons, List.length_singleton] at hlen
      omega
    rw [hx', hget]
  | some k =>
    have hholds := h.sound.held_eq_holds hm h0 hget hk
    have hlen : m.reqToBlocks.values.length = m.reqToBlocks.keys.length := by
      rw [Dict.values, Dict.keys, List.length_map, List.length_map]
    have hent : ∀ t ∈ m.reqToBlocks.values, ∃ y, m.table y = t := by
      intro t ht
      obtain ⟨⟨y, t⟩, hmem, rfl⟩ := List.mem_map.1 ht
      exact ⟨y, by rw [SingleTypeManager.table, Dict.getD_eq, Dict.get?_eq_some.2 hmem, Option.getD_some]⟩
    have hall := eq_one_of_sum (f := fun t : List Nat => t.count b) (l := m.reqToBlocks.values)
      (fun t ht => by
        obtain ⟨y, rfl⟩ := hent t ht
        exact h.sound.distinct m hm y b h0)
      (by rw [hlen, ← hheld, hholds]; rfl)
    have hmem : m.table x ∈ m.reqToBlocks.values := by
      obtain ⟨t, ht⟩ := Dict.mem_iff_get?.1 hx
      rw [SingleTypeManager.table, Dict.getD_eq, ht, Option.getD_some]
      exact List.mem_map_of_mem (Dict.get?_eq_some.1 ht)
    have hb : b ∈ m.table x := List.count_pos_iff.1 (by rw [hall _ hmem]; exact Nat.one_pos)
    obtain ⟨j, hj⟩ := List.mem_iff_getElem?.1 hb
    obtain ⟨-, r, hr⟩ := h.sound.placed m hm rid i b k h0 hget hk
    obtain ⟨-, r', hr'⟩ := h.sound.placed m hm x j b k h0 hj hk
    rw [(inj.blockHashes hr hr').1, hj]

end KVCacheManager

/-- In every run of calls the scheduler issues, the blocks of a request that are counted as common stand at the same
places in the table of every request that holds blocks in any group. -/
theorem common_prefix_shared {H : Hasher η} (inj : H.Injective) {maxModelLen numGpuBlocks : Nat}
    {useEagle enableCaching : Bool} {groups : List (AttentionSpec × Nat)} (hpos : 0 < numGpuBlocks)
    (hlaid : (KVCacheManager.init maxModelLen useEagle numGpuBlocks enableCaching groups : KVCacheManager η).Laid H)
    {calls : List Call} {o : List Unit} {s : KVCacheManager η}
    (run : (kvMachine H (.init maxModelLen useEagle numGpuBlocks enableCaching groups)).Runs calls o (.ok s))
    (issued : (kvMachine H (.init maxModelLen useEagle numGpuBlocks enableCaching groups)).Along
      (OnManager (KVCacheManager.Issued H)) calls)
    (rid : ReqId) {j : Nat} {m : SingleTypeManager} (hm : s.managers[j]? = some m) (hfull : m.spec = .full) {i : Nat}
    (hi : i < (s.getNumCommonPrefixBlocks rid).2.getD j 0) :
    ∃ b, (m.table rid)[i]? = some b ∧ ∀ x, (∃ m' ∈ s.managers, m'.table x ≠ []) → (m.table x)[i]? = some b := by
  obtain ⟨h, -⟩ := (Steady.init hpos hlaid).run inj run issued
  have hmem : m ∈ s.managers := List.mem_of_getElem? hm
  -- the count is that of the group
  have hcount : i < (m.getNumCommonPrefixBlocks s.blockPool rid).2 := by
    unfold KVCacheManager.getNumCommonPrefixBlocks at hi
    split at hi
    · rw [List.getD_eq_getElem?_getD, List.getElem?_map, List.getElem?_map, hm] at hi
      exact hi
    · rw [List.getD_eq_getElem?_getD, List.getElem?_map, hm] at hi
      exact absurd hi (Nat.not_lt_zero i)
  rw [SingleTypeManager.getNumCommonPrefixBlocks, hfull] at hcount
  dsimp only at hcount
  rw [table_withEntry] at hcount
  obtain ⟨b, hget, hb⟩ := getElem?_of_lt_takeWhile hcount
  have hne : m.table rid ≠ [] := by
    intro he
    rw [he] at hget
    cases hget
  have hrid := h.entered rid ⟨m, hmem, hne⟩ m hmem
  have hself : m.withEntry rid = m := if_pos hrid
  rw [hself] at hb
  refine ⟨b, hget, fun x hx => ?_⟩
  exact h.shared inj hmem hfull hget (of_decide_eq_true hb) hrid (h.entered x hx m hmem)

/-- Two prompts with two blocks in common. -/
theorem common_prefix_shared_two :
    let H := Hasher.chain 2
    let M := kvMachine H (.init 100 false 8 true [(.full, 2)])
    let r : Request := { requestId := ['a'], promptTokenIds := [1, 1, 2, 2, 3] }
    let calls : List Call := [.allocateSlots r 5 0 [[]] 0 false,
      .allocateSlots { r with requestId := ['b'], promptTokenIds := [1, 1, 2, 2, 4] } 1 4 [[1, 2]] 0 false]
    ∃ s m, (M.exec calls).2 = .ok s ∧ s.managers = [m] ∧ (s.getNumCommonPrefixBlocks ['a']).2 = [2] ∧
      ∃ b, (m.table ['a'])[1]? = some b ∧ ∀ x, (∃ m' ∈ s.managers, m'.table x ≠ []) → (m.table x)[1]? = some b := by
  intro H M r calls
  have run : M.Runs calls (M.exec calls).1 (M.exec calls).2 := Machine.Runs.of_exec ⟨trivial, trivial, trivial⟩
  have hlaid : (KVCacheManager.init 100 false 8 true [(.full, 2)] : KVCacheManager BlockChain).Laid H :=
    ⟨rfl, by decide, fun _ => by decide, fun _ => .inl ⟨_, rfl⟩⟩
  have hcount : (M.exec calls).2.map (fun s => (s.managers.map SingleTypeManager.spec, (s.getNumCommonPrefixBlocks ['a']).2)) =
      .ok ([.full], [2]) := by
    decide
  cases hs : (M.exec calls).2 with
  | error _ =>
    rw [hs] at hcount
    cases hcount
  | ok s =>
    rw [hs] at run hcount
    obtain ⟨hspec, htwo⟩ := Prod.mk.inj (Except.ok.inj hcount)
    obtain ⟨m, hm⟩ := List.length_eq_one_iff.1 (by simpa using congrArg List.length hspec)
    rw [hm] at hspec
    refine ⟨s, m, rfl, hm, htwo, ?_⟩
    exact common_prefix_shared (Hasher.injective_chain 2) (by decide) hlaid run (by decide) ['a'] (j := 0)
      (by rw [hm]; rfl) (List.cons.inj hspec).1 (by rw [htwo]; decide)

end Gambit.KV
