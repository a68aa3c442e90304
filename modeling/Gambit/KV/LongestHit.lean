import Gambit.KV.Hits
import Mathlib.Order.Bounds.Basic

/-!
# The longest hit of a hybrid model

Full attention is searched from the left and sliding windows from the right, inside the hit of full attention, which is
cut to what the windows allow. `IsHit` says which lengths are hits at all: the blocks up to it are cached for full
attention, and those that the window before it reaches for the sliding windows. `longest_hybrid_hit` says that the
greatest of them is found, with the cached block at each index that a window reaches and the null block at the others.
-/

namespace Gambit.KV
open Gambit.Lib Gambit.Sched

variable {η : Type} [DecidableEq η]

/-- The block that is cached for a group under the hash at an index. -/
def blockAt (p : BlockPool η) (hashes : List η) (g i : Nat) : Option Nat :=
  hashes[i]?.bind fun h => p.cachedBlockHashToBlock.getOneBlock (h, g)

/-- The number of blocks before a token that a window reaches. -/
def windowBlocks (window blockSize : Nat) : Nat := (cdiv ((window : Int) - 1) blockSize).toNat

/-- Does the attention of a group reach back to an index from behind `len` blocks? -/
def AttentionSpec.Reaches (spec : AttentionSpec) (blockSize len i : Nat) : Prop :=
  match spec with
  | .slidingWindow window => len ≤ i + windowBlocks window blockSize
  | _ => True

instance (spec : AttentionSpec) (blockSize len i : Nat) : Decidable (spec.Reaches blockSize len i) := by
  cases spec
  · exact inferInstanceAs (Decidable True)
  · exact inferInstanceAs (Decidable (_ ≤ _))
  · exact inferInstanceAs (Decidable True)
  · exact inferInstanceAs (Decidable True)
  · exact inferInstanceAs (Decidable True)

/-- A length is a hit: it is a number of blocks, and the blocks before it that the attention of a group reaches are
cached for the group. -/
structure IsHit (s : KVCacheManager η) (blockSize : Nat) (hashes : List η) (maxLength len : Nat) : Prop where
  le : len ≤ maxLength
  dvd : blockSize ∣ len
  cached : ∀ m ∈ s.managers, ∀ i < len / blockSize, m.spec.Reaches blockSize (len / blockSize) i →
    (blockAt s.blockPool hashes m.groupId i).isSome

/-- The blocks of a group in a hit. -/
def hitColumn (s : KVCacheManager η) (blockSize : Nat) (hashes : List η) (len : Nat) (m : SingleTypeManager) : List Nat :=
  (List.range (len / blockSize)).map fun i =>
    if m.spec.Reaches blockSize (len / blockSize) i then (blockAt s.blockPool hashes m.groupId i).getD 0 else 0

/-- What the coordinator checks: groups of full attention before or after groups with one window, of one block size. -/
structure Hybrid (s : KVCacheManager η) (blockSize window : Nat) : Prop where
  groupIds : s.managers.map SingleTypeManager.groupId = List.range s.managers.length
  blockSize_pos : 0 < blockSize
  blockSizes : ∀ m ∈ s.managers, m.blockSize = blockSize
  kinds : ∃ fulls windows, fulls ≠ [] ∧ windows ≠ [] ∧ (∀ m ∈ fulls, m.spec = .full) ∧
    (∀ m ∈ windows, m.spec = .slidingWindow window) ∧
    (s.managers = fulls ++ windows ∨ s.managers = windows ++ fulls)
  window : 2 ≤ window
  eagle : s.useEagle = false

section Rows
variable (p : BlockPool η) (hashes : List η) (groupIds : List Nat)

/-- Is the hash at an index cached for all groups? -/
def RowCached (i : Nat) : Prop := ∀ g ∈ groupIds, (blockAt p hashes g i).isSome

/-- The blocks of the groups at an index. -/
def rowAt (i : Nat) : List Nat := groupIds.map fun g => (blockAt p hashes g i).getD 0

/-- Looking a hash up for all groups. -/
lemma getCachedBlock_eq {i : Nat} {h : η} (hi : hashes[i]? = some h) :
    (RowCached p hashes groupIds i → p.getCachedBlock h groupIds = some (rowAt p hashes groupIds i)) ∧
      (¬ RowCached p hashes groupIds i → p.getCachedBlock h groupIds = none) := by
  have hat : ∀ g, blockAt p hashes g i = p.cachedBlockHashToBlock.getOneBlock (h, g) := fun g => by rw [blockAt, hi]; rfl
  unfold RowCached BlockPool.getCachedBlock rowAt
  simp only [hat]
  induction groupIds with
  | nil => exact ⟨fun _ => rfl, fun h => absurd (fun _ hg => nomatch hg) h⟩
  | cons g gs ih =>
    rw [List.mapM_cons]
    cases hg : p.cachedBlockHashToBlock.getOneBlock (h, g) with
    | none =>
      refine ⟨fun hall => ?_, fun _ => rfl⟩
      have := hall g (.head _)
      rw [hg] at this
      cases this
    | some b =>
      constructor
      · intro hall
        rw [List.map_cons, hg, ih.1 fun g' hg' => hall g' (.tail _ hg')]
        rfl
      · intro hnot
        have hrest : ¬ ∀ g' ∈ gs, (p.cachedBlockHashToBlock.getOneBlock (h, g')).isSome := fun hall =>
          hnot (List.forall_mem_cons.2 ⟨by rw [hg]; rfl, hall⟩)
        rw [ih.2 hrest]
        rfl

/-- The columns of rows that are given by index. -/
lemma columns_map (len : Nat) (f : Nat → Nat → Nat) :
    columns groupIds ((List.range len).map fun i => groupIds.map (f i)) =
      groupIds.map fun g => (List.range len).map fun i => f i g := by
  refine List.ext_getElem (by rw [columns, List.length_map, List.length_range, List.length_map]) fun j hj hj' => ?_
  rw [List.length_map] at hj'
  simp only [columns, List.getElem_map, List.getElem_range, List.map_map]
  refine List.map_congr_left fun i _ => ?_
  rw [Function.comp_apply, List.getD_eq_getElem?_getD, List.getElem?_map, List.getElem?_eq_getElem hj']
  rfl

/-- The rows of full attention: the hashes that are cached one after another, as many as there are. -/
lemma hitRows_eq (n k : Nat) : ∃ len, len ≤ n ∧ k + len ≤ max k hashes.length ∧
    hitRows p groupIds ((hashes.drop k).take n) = (List.range' k len).map (rowAt p hashes groupIds) ∧
    (∀ i, k ≤ i → i < k + len → hashes[i]? ≠ none ∧ RowCached p hashes groupIds i) ∧
    (len < n → hashes[k + len]? = none ∨ ¬ RowCached p hashes groupIds (k + len)) := by
  induction n generalizing k with
  | zero => exact ⟨0, le_rfl, by omega, rfl, fun i h₁ h₂ => by omega, fun h => absurd h (Nat.lt_irrefl 0)⟩
  | succ n ih =>
    cases hk : hashes[k]? with
    | none =>
      have hdrop : hashes.drop k = [] := List.drop_eq_nil_iff.2 (List.getElem?_eq_none_iff.1 hk)
      rw [hdrop]
      exact ⟨0, Nat.zero_le _, by omega, rfl, fun i h₁ h₂ => by omega, fun _ => .inl hk⟩
    | some h =>
      obtain ⟨hlt, hget⟩ := List.getElem?_eq_some_iff.1 hk
      have hdrop : hashes.drop k = h :: hashes.drop (k + 1) := by rw [List.drop_eq_getElem_cons hlt, hget]
      obtain ⟨hyes, hno⟩ := getCachedBlock_eq p hashes groupIds hk
      rw [hdrop, List.take_succ_cons, hitRows]
      by_cases hc : RowCached p hashes groupIds k
      · obtain ⟨len, h₁, h₂, h₃, h₄, h₅⟩ := ih (k + 1)
        rw [hyes hc]
        refine ⟨len + 1, Nat.succ_le_succ h₁, by omega, ?_, fun i hi hi' => ?_, fun hl => ?_⟩
        · rw [List.range'_succ, List.map_cons, ← h₃]
        · obtain rfl | hne := Nat.eq_or_lt_of_le hi
          · exact ⟨by rw [hk]; exact Option.some_ne_none h, hc⟩
          · exact h₄ i hne (by omega)
        · rw [show k + (len + 1) = k + 1 + len by omega]
          exact h₅ (Nat.lt_of_succ_lt_succ hl)
      · rw [hno hc]
        exact ⟨0, Nat.zero_le _, by omega, rfl, fun i h₁ h₂ => by omega, fun _ => .inr hc⟩

/-- A number of blocks before which the window finds cached blocks. -/
def WindowHit (p : BlockPool η) (hashes : List η) (groupIds : List Nat) (need len : Nat) : Prop :=
  ∀ i < len, len ≤ i + need → RowCached p hashes groupIds i

/-- The rows of a window hit. -/
def windowRows (p : BlockPool η) (hashes : List η) (groupIds : List Nat) (need len : Nat) : List (List Nat) :=
  (List.range len).map fun i => if len ≤ i + need then rowAt p hashes groupIds i else groupIds.map fun _ => 0

/-- The search from the right, at the first `n` blocks with some hits behind them: it finds the greatest hit. -/
lemma slidingWindowRows_eq {need total : Nat} (hneed : 0 < need) (n : Nat) {contiguous : Nat} {rows : List (List Nat)}
    (hlen : rows.length = total) (hle : n + contiguous ≤ total) (htotal : total ≤ hashes.length)
    (hfew : contiguous < need)
    (hnull : ∀ i < n, rows[i]? = some (groupIds.map fun _ => 0))
    (hrun : ∀ i, n ≤ i → i < n + contiguous → RowCached p hashes groupIds i ∧
      rows[i]? = some (rowAt p hashes groupIds i))
    (hnone : ∀ l, n + contiguous < l → l ≤ total → ¬ WindowHit p hashes groupIds need l) :
    ∃ len, IsGreatest {l | l ≤ total ∧ WindowHit p hashes groupIds need l} len ∧
      slidingWindowRows p groupIds hashes need n contiguous rows = .ok (windowRows p hashes groupIds need len) := by
  have hrows : ∀ (len : Nat) (rows : List (List Nat)), len ≤ rows.length →
      (∀ i < len, rows[i]? = some (if len ≤ i + need then rowAt p hashes groupIds i else groupIds.map fun _ => 0)) →
      rows.take len = windowRows p hashes groupIds need len := by
    intro len rows hl h
    refine List.ext_getElem? fun i => ?_
    rw [windowRows, List.getElem?_map, List.getElem?_take]
    split_ifs with hi
    · rw [h i hi, List.getElem?_range hi]
      rfl
    · rw [List.getElem?_eq_none (by rw [List.length_range]; omega)]
      rfl
  induction n generalizing contiguous rows with
  | zero =>
    refine ⟨contiguous, ⟨⟨by omega, fun i hi _ => (hrun i (Nat.zero_le i) (by omega)).1⟩, fun l hl => ?_⟩, ?_⟩
    · by_contra hlt
      exact hnone l (by omega) hl.1 hl.2
    · rw [slidingWindowRows, hrows contiguous rows (by omega)]
      intro i hi
      rw [if_pos (by omega)]
      exact (hrun i (Nat.zero_le i) (by omega)).2
  | succ n ih =>
    have hn : n < hashes.length := by omega
    have hget := List.getElem?_eq_getElem hn
    obtain ⟨hyes, hno⟩ := getCachedBlock_eq p hashes groupIds hget
    rw [slidingWindowRows, hget]
    by_cases hc : RowCached p hashes groupIds n
    · -- one hit more
      have hset : (rows.set n (rowAt p hashes groupIds n)).length = total := by rw [List.length_set, hlen]
      have hrun' : ∀ i, n ≤ i → i < n + (contiguous + 1) → RowCached p hashes groupIds i ∧
          (rows.set n (rowAt p hashes groupIds n))[i]? = some (rowAt p hashes groupIds i) := by
        intro i hi hi'
        obtain rfl | hne := Nat.eq_or_lt_of_le hi
        · exact ⟨hc, by rw [List.getElem?_set_self (by omega)]⟩
        · rw [List.getElem?_set_ne (by omega)]
          exact hrun i hne (by omega)
      have hnull' : ∀ i < n, (rows.set n (rowAt p hashes groupIds n))[i]? = some (groupIds.map fun _ => 0) := by
        intro i hi
        rw [List.getElem?_set_ne (by omega)]
        exact hnull i (by omega)
      simp only [hyes hc]
      split_ifs with hmany
      · refine ⟨n + (contiguous + 1), ⟨⟨by omega, fun i hi hi' => (hrun' i (by omega) hi).1⟩, fun l hl => ?_⟩, ?_⟩
        · by_contra hlt
          exact hnone l (by omega) hl.1 hl.2
        · rw [hrows _ _ (by omega)]
          intro i hi
          rcases Nat.lt_or_ge i n with hin | hin
          · rw [if_neg (by omega)]
            exact hnull' i hin
          · rw [if_pos (by omega)]
            exact (hrun' i hin hi).2
      · refine ih hset (by omega) (by omega) hnull' hrun' fun l hl hl' => ?_
        exact hnone l (by omega) hl'
    · -- a window that reaches here is no hit
      simp only [hno hc]
      refine ih hlen (by omega) hneed (fun i hi => hnull i (by omega)) (fun i h₁ h₂ => by omega) fun l hl hl' hw => ?_
      rcases Nat.lt_or_ge (n + 1 + contiguous) l with hfar | hnear
      · exact hnone l hfar hl' hw
      · exact hc (hw n (by omega) (by omega))

/-- The columns of a window hit. -/
lemma columns_windowRows (need len : Nat) : columns groupIds (windowRows p hashes groupIds need len) =
    groupIds.map fun g => (List.range len).map fun i => if len ≤ i + need then (blockAt p hashes g i).getD 0 else 0 := by
  have hrow : windowRows p hashes groupIds need len = (List.range len).map fun i => groupIds.map fun g =>
      if len ≤ i + need then (blockAt p hashes g i).getD 0 else 0 := by
    apply List.map_congr_left
    intro i _
    split_ifs
    · rfl
    · rfl
  rw [hrow]
  exact columns_map groupIds len fun i g => if len ≤ i + need then (blockAt p hashes g i).getD 0 else 0

/-- The search of a sliding window, in as many blocks as there are hashes for. -/
lemma slidingWindowHit_eq {window blockSize maxLength : Nat} (hB : 0 < blockSize) (hw : 2 ≤ window)
    (htotal : maxLength / blockSize ≤ hashes.length) :
    ∃ len, IsGreatest {l | l ≤ maxLength / blockSize ∧
        WindowHit p hashes groupIds (windowBlocks window blockSize) l} len ∧
      slidingWindowHit p groupIds hashes maxLength blockSize window false =
        .ok (windowRows p hashes groupIds (windowBlocks window blockSize) len) := by
  have hneed : 0 < windowBlocks window blockSize := by
    have hneg : -((window : Int) - 1) / blockSize < 0 := Int.ediv_neg_of_neg_of_pos (by omega) (by omega)
    rw [windowBlocks, cdiv]
    omega
  obtain ⟨len, hgreat, hrows⟩ := slidingWindowRows_eq p hashes groupIds hneed (maxLength / blockSize)
    (List.length_replicate : (List.replicate (maxLength / blockSize) (groupIds.map fun _ => 0)).length =
      maxLength / blockSize) (Nat.add_zero _).le
    htotal hneed (fun i hi => by rw [List.getElem?_replicate, if_pos hi]) (fun i h₁ h₂ => by omega)
    fun l h₁ h₂ => by omega
  refine ⟨len, hgreat, ?_⟩
  rw [slidingWindowHit]
  show (slidingWindowRows p groupIds hashes (windowBlocks window blockSize + 0) (maxLength / blockSize) 0 _ >>= _) = _
  rw [Nat.add_zero, hrows]
  rfl

end Rows

section Alone
variable (p : BlockPool η) (hashes : List η) (groupIds : List Nat)

/-- A window hit, by its last blocks. -/
lemma windowHit_iff {need len : Nat} : WindowHit p hashes groupIds need len ↔
    ∀ i, len - min len need ≤ i → i < len → RowCached p hashes groupIds i := by
  constructor
  · intro h i h₁ h₂
    exact h i h₂ (by omega)
  · intro h i h₁ h₂
    exact h i (by omega) h₁

/-- The search for a window is exact: each group gets as many blocks as the greatest length before which the window
finds its blocks cached, those blocks at their places, and in front of them null blocks. -/
theorem sliding_window_hit_exact {window blockSize maxLength : Nat} (hB : 0 < blockSize) (hw : 2 ≤ window)
    (hhashes : maxLength / blockSize ≤ hashes.length) :
    ∃ len cols, (slidingWindowHit p groupIds hashes maxLength blockSize window false).map (columns groupIds) = .ok cols ∧
      IsGreatest {l | l ≤ maxLength / blockSize ∧ ∀ i, l - min l (windowBlocks window blockSize) ≤ i → i < l →
        RowCached p hashes groupIds i} len ∧
      cols.length = groupIds.length ∧
      ∀ (j g : Nat) (col : List Nat), groupIds[j]? = some g → cols[j]? = some col → col.length = len ∧ ∀ i < len,
        (len - min len (windowBlocks window blockSize) ≤ i → ∃ b, blockAt p hashes g i = some b ∧ col[i]? = some b) ∧
        (i < len - min len (windowBlocks window blockSize) → col[i]? = some 0 ∨ col[i]? = blockAt p hashes g i) := by
  obtain ⟨len, hgreat, hrows⟩ := slidingWindowHit_eq p hashes groupIds hB hw hhashes
  simp only [windowHit_iff] at hgreat
  refine ⟨len, _, by rw [hrows]; rfl, hgreat, ?_, ?_⟩
  · rw [columns_windowRows, List.length_map]
  · intro j g col hg hcol
    rw [columns_windowRows, List.getElem?_map, hg] at hcol
    cases hcol
    refine ⟨by rw [List.length_map, List.length_range], ?_⟩
    intro i hi
    rw [List.getElem?_map, List.getElem?_range hi, Option.map_some]
    refine ⟨?_, ?_⟩
    · intro hlast
      obtain ⟨b, hb⟩ := Option.isSome_iff_exists.mp (hgreat.1.2 i hlast hi g (List.mem_of_getElem? hg))
      refine ⟨b, hb, ?_⟩
      rw [if_pos (by omega), hb]
      rfl
    · intro hfront
      rw [if_neg (by omega)]
      exact .inl rfl

end Alone

/-- A hit of the groups of both kinds, in blocks. -/
lemma isHit_mul_iff {s : KVCacheManager η} {blockSize window : Nat} (hB : 0 < blockSize)
    {fulls windows : List SingleTypeManager} (hf : ∀ m ∈ fulls, m.spec = .full)
    (hw : ∀ m ∈ windows, m.spec = .slidingWindow window)
    (hm : ∀ m, m ∈ s.managers ↔ m ∈ fulls ∨ m ∈ windows) (hashes : List η) (maxLength k : Nat) :
    IsHit s blockSize hashes maxLength (k * blockSize) ↔ k ≤ maxLength / blockSize ∧
      (∀ i < k, RowCached s.blockPool hashes (fulls.map SingleTypeManager.groupId) i) ∧
      WindowHit s.blockPool hashes (windows.map SingleTypeManager.groupId) (windowBlocks window blockSize) k := by
  have hdiv : k * blockSize / blockSize = k := Nat.mul_div_cancel _ hB
  constructor
  · rintro ⟨hle, -, hcached⟩
    rw [hdiv] at hcached
    refine ⟨(Nat.le_div_iff_mul_le hB).2 hle, fun i hi g hg => ?_, fun i hi hr g hg => ?_⟩
    · obtain ⟨m, hmf, rfl⟩ := List.mem_map.1 hg
      refine hcached m ((hm m).2 (.inl hmf)) i hi ?_
      rw [hf m hmf]
      trivial
    · obtain ⟨m, hmw, rfl⟩ := List.mem_map.1 hg
      refine hcached m ((hm m).2 (.inr hmw)) i hi ?_
      rw [hw m hmw]
      exact hr
  · rintro ⟨hle, hfull, hwin⟩
    refine ⟨(Nat.le_div_iff_mul_le hB).1 hle, Nat.dvd_mul_left _ _, fun m hmem i hi hr => ?_⟩
    rw [hdiv] at hi hr
    rcases (hm m).1 hmem with hmf | hmw
    · exact hfull i hi _ (List.mem_map_of_mem hmf)
    · rw [hw m hmw] at hr
      exact hwin i hi hr _ (List.mem_map_of_mem hmw)

/-- The search over full attention and sliding windows finds the greatest hit, with the cached blocks that the groups
reach and null blocks where a window does not reach. -/
theorem longest_hybrid_hit {s : KVCacheManager η} {blockSize window : Nat} (hs : Hybrid s blockSize window)
    (hashes : List η) (maxLength : Nat) :
    ∃ len, IsGreatest {l | IsHit s blockSize hashes maxLength l} len ∧
      s.findLongestCacheHit hashes maxLength = .ok (s.managers.map (hitColumn s blockSize hashes len), len) := by
  obtain ⟨fulls, windows, hf0, hw0, hf, hw, hsplit⟩ := hs.kinds
  obtain ⟨hfm, hwm⟩ := KVCacheManager.kinds_split hf (fun m hm => by rw [hw m hm]; nofun) hsplit
  have hB := hs.blockSize_pos
  have hm : ∀ m, m ∈ s.managers ↔ m ∈ fulls ∨ m ∈ windows := by
    intro m
    rcases hsplit with he | he
    · rw [he, List.mem_append]
    · rw [he, List.mem_append, or_comm]
  obtain ⟨full, fulls, rfl⟩ := List.exists_cons_of_ne_nil hf0
  obtain ⟨other, windows, rfl⟩ := List.exists_cons_of_ne_nil hw0
  have hfb : full.blockSize = blockSize := hs.blockSizes full ((hm full).2 (.inl (.head _)))
  have hob : other.blockSize = blockSize := hs.blockSizes other ((hm other).2 (.inr (.head _)))
  have hhit := isHit_mul_iff hB hf hw hm hashes maxLength
  set fullIds := (full :: fulls).map SingleTypeManager.groupId with hfullIds
  set otherIds := (other :: windows).map SingleTypeManager.groupId with hotherIds
  -- full attention, from the left
  obtain ⟨total, ht₁, ht₂, hrows, hcached, hend⟩ := hitRows_eq s.blockPool hashes fullIds
    (maxLength / blockSize) 0
  rw [Nat.zero_add, Nat.max_eq_right (Nat.zero_le _)] at ht₂
  rw [List.drop_zero, ← List.range_eq_range'] at hrows
  rw [Nat.zero_add] at hcached hend
  have hreach : ∀ k, (k ≤ maxLength / blockSize ∧ ∀ i < k, RowCached s.blockPool hashes fullIds i) ↔ k ≤ total := by
    intro k
    constructor
    · rintro ⟨hk, hall⟩
      by_contra hlt
      rcases hend (by omega) with hnone | hnot
      · obtain ⟨g, hg⟩ : ∃ g, g ∈ fullIds := ⟨_, List.mem_map_of_mem (.head _)⟩
        have hsome := hall total (by omega) g hg
        rw [blockAt, hnone] at hsome
        cases hsome
      · exact hnot (hall total (by omega))
    · exact fun hk => ⟨hk.trans ht₁, fun i hi => (hcached i (Nat.zero_le i) (by omega)).2⟩
  -- the windows, from the right
  have htotal : total * blockSize / blockSize = total := Nat.mul_div_cancel _ hB
  obtain ⟨k, ⟨⟨hkt, hkw⟩, hmax⟩, hwin⟩ := slidingWindowHit_eq s.blockPool hashes otherIds hB hs.window
    (htotal.trans_le ht₂)
  rw [htotal] at hkt hmax
  refine ⟨k * blockSize, ⟨(hhit k).2 ?_, ?_⟩, ?_⟩
  · obtain ⟨h₁, h₂⟩ := (hreach k).2 hkt
    exact ⟨h₁, h₂, hkw⟩
  · rintro l hl
    obtain ⟨k', rfl⟩ := hl.dvd
    rw [Nat.mul_comm] at hl ⊢
    obtain ⟨h₁, h₂, h₃⟩ := (hhit k').1 hl
    exact Nat.mul_le_mul_right _ (hmax ⟨(hreach k').1 ⟨h₁, h₂⟩, h₃⟩)
  · have hdiv : k * blockSize / blockSize = k := Nat.mul_div_cancel _ hB
    -- the columns of the two kinds
    have hfull : columns fullIds ((List.range k).map (rowAt s.blockPool hashes fullIds)) =
        (full :: fulls).map (hitColumn s blockSize hashes (k * blockSize)) := by
      have h := columns_map fullIds k fun i g => (blockAt s.blockPool hashes g i).getD 0
      refine h.trans ?_
      rw [hfullIds, List.map_map]
      refine List.map_congr_left fun m hmf => ?_
      rw [Function.comp_apply, hitColumn, hdiv]
      refine List.map_congr_left fun i _ => (if_pos ?_).symm
      rw [hf m hmf]
      trivial
    have hother : columns otherIds (windowRows s.blockPool hashes otherIds (windowBlocks window blockSize) k) =
        (other :: windows).map (hitColumn s blockSize hashes (k * blockSize)) := by
      rw [columns_windowRows, hotherIds, List.map_map]
      refine List.map_congr_left fun m hmw => ?_
      rw [Function.comp_apply, hitColumn, hdiv, hw m hmw]
      rfl
    have hlen : (windowRows s.blockPool hashes otherIds (windowBlocks window blockSize) k).length = k := by
      rw [windowRows, List.length_map, List.length_range]
    have htake : ((List.range total).map (rowAt s.blockPool hashes fullIds)).take k =
        (List.range k).map (rowAt s.blockPool hashes fullIds) := by
      rw [← List.map_take, List.take_range, Nat.min_eq_left hkt]
    have hrows' : fullAttentionHit s.blockPool fullIds hashes maxLength blockSize false =
        (List.range total).map (rowAt s.blockPool hashes fullIds) := hrows
    have hspec : other.spec = .slidingWindow window := hw other (.head _)
    rw [KVCacheManager.findLongestCacheHit_eq hfm hwm, KVCacheManager.hybridHit, hfm, hwm, ← hfullIds, ← hotherIds, hfb, hob,
      hs.eagle, hspec]
    simp only [hrows', List.length_map, List.length_range, findHitRows, hwin, bind, Except.bind, hlen, hdiv, htake,
      hfull, hother, Nat.mul_mod_left, ne_eq, not_true_eq_false, if_false]
    rcases hsplit with he | he
    · have h₀ : full.groupId = 0 := KVCacheManager.groupId_of_getElem? hs.groupIds (by rw [he]; rfl)
      have h₁ : other.groupId = (full :: fulls).length := KVCacheManager.groupId_of_getElem? hs.groupIds (by rw [he]; simp)
      rw [if_pos (by rw [h₀, h₁]; exact Nat.succ_pos _), he, List.map_append]
    · have h₀ : other.groupId = 0 := KVCacheManager.groupId_of_getElem? hs.groupIds (by rw [he]; rfl)
      rw [if_neg (by rw [h₀]; exact Nat.not_lt_zero _), he, List.map_append]

/-- A full group and a window group over three cached blocks; the window group has lost the first of them. -/
def windowedManager : KVCacheManager Nat where
  maxModelLen := 100
  blockPool.numGpuBlocks := 8
  blockPool.enableCaching := true
  blockPool.freeBlockQueue := []
  blockPool.numFreeBlocks := 0
  blockPool.cachedBlockHashToBlock :=
    ⟨[((10, 0), .one 1), ((11, 0), .one 2), ((12, 0), .one 3), ((11, 1), .one 4), ((12, 1), .one 5)], by decide⟩
  managers := [{ spec := .full, blockSize := 2, groupId := 0 }, { spec := .slidingWindow 4, blockSize := 2, groupId := 1 }]

/-- Three blocks are hit, the first of them by full attention alone. -/
theorem longest_hybrid_hit_windowed :
    ∃ len, IsGreatest {l | IsHit windowedManager 2 [10, 11, 12, 13] 7 l} len ∧
      windowedManager.findLongestCacheHit [10, 11, 12, 13] 7 =
        .ok (windowedManager.managers.map (hitColumn windowedManager 2 [10, 11, 12, 13] len), len) := by
  refine longest_hybrid_hit ⟨rfl, by decide, by decide, ?_, (by decide : 2 ≤ 4), rfl⟩ [10, 11, 12, 13] 7
  exact ⟨[{ spec := .full, blockSize := 2, groupId := 0 }], [{ spec := .slidingWindow 4, blockSize := 2, groupId := 1 }],
    List.cons_ne_nil _ _, List.cons_ne_nil _ _, List.forall_mem_singleton.2 rfl, List.forall_mem_singleton.2 rfl, .inl rfl⟩

/-- The window of a group finds its two blocks behind one that is not cached. -/
theorem sliding_window_hit_exact_windowed :
    ∃ len cols, (slidingWindowHit windowedManager.blockPool [1] [10, 11, 12, 13] 7 2 4 false).map (columns [1]) =
      .ok cols ∧ IsGreatest {l | l ≤ 7 / 2 ∧ ∀ i, l - min l (windowBlocks 4 2) ≤ i → i < l →
        RowCached windowedManager.blockPool [10, 11, 12, 13] [1] i} len ∧ cols.length = 1 := by
  obtain ⟨len, cols, h₁, h₂, h₃, -⟩ := sliding_window_hit_exact windowedManager.blockPool [10, 11, 12, 13] [1]
    (by decide : 0 < 2) (by decide : 2 ≤ 4) (by decide : 7 / 2 ≤ 4)
  exact ⟨len, cols, h₁, h₂, h₃⟩

example : windowedManager.findLongestCacheHit [10, 11, 12, 13] 7 = .ok ([[1, 2, 3], [0, 4, 5]], 6) := by decide

end Gambit.KV
