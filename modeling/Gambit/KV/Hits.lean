import Gambit.KV.Tables

/-!
# Cache hits

What `get_computed_blocks` finds: for every group a list of blocks of the same length, shorter than the request,
whose entries are the null block or cached under the hash of their position. The three searches keep this row by
row (`RowOk`), and the coordinators put the rows together as columns in the order of the groups.
-/

namespace Gambit.KV
open Gambit.Lib Gambit.Sched

variable {η : Type} [DecidableEq η]

/-- An entry of a hit: the null block, or a block cached for the group under the hash at its position. -/
def EntryOk (c : BlockHashToBlockMap η) (hashes : List η) (i g b : Nat) : Prop :=
  b = 0 ∨ ∃ h, hashes[i]? = some h ∧ Stored c (h, g) b

/-- An entry of a hit of an attention: null only if the attention skips blocks. -/
def EntryAt (c : BlockHashToBlockMap η) (hashes : List η) (spec : AttentionSpec) (i g b : Nat) : Prop :=
  b = 0 ∧ spec ≠ .full ∨ ∃ h, hashes[i]? = some h ∧ Stored c (h, g) b

lemma EntryAt.entryOk {c : BlockHashToBlockMap η} {hashes : List η} {spec : AttentionSpec} {i g b : Nat}
    (h : EntryAt c hashes spec i g b) : EntryOk c hashes i g b := h.imp And.left id

/-- A row has a proper entry for every group. -/
def RowOk (c : BlockHashToBlockMap η) (hashes : List η) (groupIds : List Nat) (i : Nat) (row : List Nat) : Prop :=
  List.Forall₂ (fun g b => EntryOk c hashes i g b) groupIds row

/-- All rows are proper. -/
def RowsOk (c : BlockHashToBlockMap η) (hashes : List η) (groupIds : List Nat) (rows : List (List Nat)) : Prop :=
  ∀ i row, rows[i]? = some row → RowOk c hashes groupIds i row

/-- Rows whose entries are all of one kind, which may depend on the position and on the group. -/
def RowsAre (E : Nat → Nat → Nat → Prop) (groupIds : List Nat) (rows : List (List Nat)) : Prop :=
  ∀ i row, rows[i]? = some row → List.Forall₂ (E i) groupIds row

section Rows
variable {p : BlockPool η} {groupIds : List Nat} {hashes : List η} {rows rows' : List (List Nat)}
  {E : Nat → Nat → Nat → Prop}

/-- A row found for a hash. -/
lemma getCachedBlock_spec {h : η} {row : List Nat} (hr : p.getCachedBlock h groupIds = some row) :
    List.Forall₂ (fun g b => Stored p.cachedBlockHashToBlock (h, g) b) groupIds row := by
  unfold BlockPool.getCachedBlock at hr
  induction groupIds generalizing row with
  | nil =>
    cases hr
    exact .nil
  | cons g gs ih =>
    rw [List.mapM_cons] at hr
    obtain ⟨b, hb, hr⟩ := Option.bind_eq_some_iff.1 hr
    obtain ⟨bs, hbs, hr⟩ := Option.bind_eq_some_iff.1 hr
    cases hr
    exact .cons (BlockHashToBlockMap.stored_of_getOneBlock hb) (ih hbs)

omit [DecidableEq η] in
lemma forall₂_null {i : Nat} (hnull : ∀ g, E i g 0) : List.Forall₂ (E i) groupIds (groupIds.map fun _ => 0) := by
  induction groupIds with
  | nil => exact .nil
  | cons g gs ih => exact .cons (hnull g) ih

omit [DecidableEq η] in
lemma RowsAre.take (h : RowsAre E groupIds rows) (n : Nat) : RowsAre E groupIds (rows.take n) := by
  intro i row hi
  rw [List.getElem?_take] at hi
  split at hi
  · exact h i row hi
  · cases hi

omit [DecidableEq η] in
lemma RowsAre.dropEagle (h : RowsAre E groupIds rows) (useEagle : Bool) :
    RowsAre E groupIds (dropEagle useEagle rows) := by
  unfold KV.dropEagle
  split
  · rw [List.dropLast_eq_take]
    exact h.take _
  · exact h

omit [DecidableEq η] in
lemma RowsAre.replicate (hnull : ∀ i g, E i g 0) (n : Nat) :
    RowsAre E groupIds (List.replicate n (groupIds.map fun _ => 0)) := by
  intro i row hi
  rw [List.getElem?_replicate] at hi
  split at hi
  · cases hi
    exact forall₂_null (hnull i)
  · cases hi

omit [DecidableEq η] in
/-- Rows behind a number of null rows. -/
lemma RowsAre.replicate_append {n : Nat} (hnull : ∀ i g, E i g 0)
    (h : ∀ i row, rows[i]? = some row → List.Forall₂ (E (n + i)) groupIds row) :
    RowsAre E groupIds (List.replicate n (groupIds.map fun _ => 0) ++ rows) := by
  intro i row hi
  by_cases hlt : i < n
  · rw [List.getElem?_append_left (by rwa [List.length_replicate])] at hi
    exact RowsAre.replicate hnull n i row hi
  · rw [List.getElem?_append_right (by rw [List.length_replicate]; omega), List.length_replicate] at hi
    have hrow := h (i - n) row hi
    rwa [Nat.add_sub_of_le (not_lt.1 hlt)] at hrow

lemma length_dropEagle_le (useEagle : Bool) (rows : List (List Nat)) : (dropEagle useEagle rows).length ≤ rows.length := by
  unfold dropEagle
  split
  · rw [List.length_dropLast]
    exact Nat.sub_le _ _
  · exact le_rfl

lemma length_hitRows_le (p : BlockPool η) (groupIds : List Nat) (hs : List η) :
    (hitRows p groupIds hs).length ≤ hs.length := by
  induction hs with
  | nil => exact le_rfl
  | cons h hs ih =>
    rw [hitRows]
    split
    · exact Nat.succ_le_succ ih
    · exact Nat.zero_le _

section Kinds
variable (hhit : ∀ i h g b, hashes[i]? = some h → Stored p.cachedBlockHashToBlock (h, g) b → E i g b)
include hhit

/-- A row found for the hash at a position. -/
lemma forall₂_of_cached {h : η} {row : List Nat} {i : Nat} (hi : hashes[i]? = some h)
    (hr : p.getCachedBlock h groupIds = some row) : List.Forall₂ (E i) groupIds row :=
  (getCachedBlock_spec hr).imp fun g b hs => hhit i h g b hi hs

/-- Consecutive rows from a position on. -/
lemma hitRows_are {hs : List η} (start : Nat) (hstart : ∀ i h, hs[i]? = some h → hashes[start + i]? = some h) :
    ∀ i row, (hitRows p groupIds hs)[i]? = some row → List.Forall₂ (E (start + i)) groupIds row := by
  induction hs generalizing start with
  | nil => exact fun i row hi => by simp [hitRows] at hi
  | cons h hs ih =>
    rw [hitRows]
    split
    · next row hrow =>
      have hrows := ih (start + 1) fun i h' hi => by
        have := hstart (i + 1) h' (by simpa using hi)
        rwa [Nat.add_assoc, Nat.add_comm 1 i]
      intro i row' hi
      cases i with
      | zero =>
        cases hi
        exact forall₂_of_cached hhit (hstart 0 h rfl) hrow
      | succ i =>
        have := hrows i row' (by simpa using hi)
        rwa [Nat.add_assoc, Nat.add_comm 1 i] at this
    · exact fun i row hi => by simp at hi

/-- The search of full attention. -/
lemma fullAttentionHit_are (maxLength blockSize : Nat) (useEagle : Bool) :
    RowsAre E groupIds (fullAttentionHit p groupIds hashes maxLength blockSize useEagle) := by
  refine RowsAre.dropEagle (fun i row hi => ?_) useEagle
  have hrow := hitRows_are hhit 0 (fun i h hi => by
    rw [Nat.zero_add]
    rw [List.getElem?_take] at hi
    split at hi
    · exact hi
    · cases hi) i row hi
  rwa [Nat.zero_add] at hrow

/-- The loop of the sliding window. -/
lemma slidingWindowRows_are {need n contiguous : Nat} (hrows : RowsAre E groupIds rows)
    (hok : slidingWindowRows p groupIds hashes need n contiguous rows = .ok rows') :
    RowsAre E groupIds rows' ∧ rows'.length ≤ rows.length := by
  induction n generalizing contiguous rows with
  | zero =>
    cases hok
    exact ⟨hrows.take _, by rw [List.length_take]; exact Nat.min_le_right _ _⟩
  | succ n ih =>
    rw [slidingWindowRows] at hok
    split at hok
    · cases hok
    next h hget =>
    split at hok
    · next row hrow =>
      have hset : RowsAre E groupIds (rows.set n row) := by
        intro i row' hi
        rw [List.getElem?_set] at hi
        split at hi
        · next hin =>
          split at hi
          · cases hi
            exact hin ▸ forall₂_of_cached hhit hget hrow
          · cases hi
        · exact hrows i row' hi
      split at hok
      · cases hok
        refine ⟨hset.take _, ?_⟩
        rw [List.length_take, List.length_set]
        exact Nat.min_le_right _ _
      · obtain ⟨hare, hlen⟩ := ih hset hok
        exact ⟨hare, by rwa [List.length_set] at hlen⟩
    · exact ih hrows hok

/-- The search of Mamba. -/
lemma mambaHit_are (hnull : ∀ i g, E i g 0) {n : Nat} (hok : mambaHit p groupIds hashes n = .ok rows) :
    RowsAre E groupIds rows ∧ rows.length ≤ n := by
  induction n with
  | zero =>
    cases hok
    exact ⟨fun i row hi => by simp at hi, le_rfl⟩
  | succ n ih =>
    rw [mambaHit] at hok
    split at hok
    · cases hok
    next h hget =>
    split at hok
    · next row hrow =>
      cases hok
      refine ⟨RowsAre.replicate_append hnull fun i row' hi => ?_, by simp⟩
      rw [List.getElem?_singleton] at hi
      split at hi
      · next hz =>
        cases hi
        rw [hz, Nat.add_zero]
        exact forall₂_of_cached hhit hget hrow
      · cases hi
    · obtain ⟨hare, hlen⟩ := ih hok
      exact ⟨hare, Nat.le_succ_of_le hlen⟩

/-- What a search returns: rows of the kind of cached entries, if the null block is of that kind for attention that
skips blocks, and no more of them than fit. -/
lemma findHitRows_are {spec : AttentionSpec} {maxLength blockSize : Nat} {useEagle : Bool}
    (hnull : spec ≠ .full → ∀ i g, E i g 0)
    (hok : findHitRows p groupIds spec hashes maxLength blockSize useEagle = .ok rows) :
    RowsAre E groupIds rows ∧ rows.length ≤ maxLength / blockSize := by
  cases spec with
  | full =>
    cases hok
    refine ⟨fullAttentionHit_are hhit maxLength blockSize useEagle, ?_⟩
    refine (length_dropEagle_le _ _).trans ((length_hitRows_le _ _ _).trans ?_)
    rw [List.length_take]
    exact Nat.min_le_left _ _
  | slidingWindow window =>
    rw [findHitRows, slidingWindowHit] at hok
    generalize hr : slidingWindowRows p groupIds hashes _ _ 0 _ = found at hok
    cases found with
    | error e => cases hok
    | ok found =>
      cases hok
      obtain ⟨hare, hlen⟩ := slidingWindowRows_are hhit (RowsAre.replicate (hnull nofun) _) hr
      rw [List.length_replicate] at hlen
      exact ⟨hare.dropEagle useEagle, (length_dropEagle_le _ _).trans hlen⟩
  | chunkedLocal chunk =>
    rw [findHitRows, chunkedLocalHit] at hok
    split at hok
    · cases hok
    split at hok
    · cases hok
    cases hok
    refine ⟨RowsAre.replicate_append (hnull nofun) (hitRows_are hhit _ fun i h hi => ?_), ?_⟩
    · rw [List.getElem?_drop, List.getElem?_take] at hi
      split at hi
      · exact hi
      · cases hi
    · have hlen := length_hitRows_le p groupIds ((hashes.take (maxLength / blockSize)).drop (maxLength / chunk * chunk / blockSize))
      have hle : maxLength / chunk * chunk / blockSize ≤ maxLength / blockSize :=
        Nat.div_le_div_right (Nat.div_mul_le_self _ _)
      rw [List.length_drop, List.length_take] at hlen
      rw [List.length_append, List.length_replicate]
      omega
  | mamba numSpeculativeBlocks => exact mambaHit_are hhit (hnull nofun) hok
  | crossAttention => cases hok

end Kinds

/-- The loop of the sliding window does not raise on hashes that are there. -/
lemma slidingWindowRows_ok (p : BlockPool η) (groupIds : List Nat) (need contiguous : Nat) {n : Nat}
    (hn : n ≤ hashes.length) (rows : List (List Nat)) :
    ∃ rows', slidingWindowRows p groupIds hashes need n contiguous rows = .ok rows' := by
  induction n generalizing contiguous rows with
  | zero => exact ⟨_, rfl⟩
  | succ n ih =>
    rw [slidingWindowRows, List.getElem?_eq_getElem (l := hashes) hn]
    dsimp only
    split
    · split
      · exact ⟨_, rfl⟩
      · exact ih (contiguous + 1) (Nat.le_of_succ_le hn) _
    · exact ih 0 (Nat.le_of_succ_le hn) _

lemma mambaHit_ok (p : BlockPool η) (groupIds : List Nat) {n : Nat} (hn : n ≤ hashes.length) :
    ∃ rows, mambaHit p groupIds hashes n = .ok rows := by
  induction n with
  | zero => exact ⟨[], rfl⟩
  | succ n ih =>
    rw [mambaHit, List.getElem?_eq_getElem (l := hashes) hn]
    dsimp only
    split
    · exact ⟨_, rfl⟩
    · exact ih (Nat.le_of_succ_le hn)

/-- What every search returns: proper rows, no more than fit. -/
lemma findHitRows_spec (p : BlockPool η) (groupIds : List Nat) (spec : AttentionSpec) (hashes : List η)
    (maxLength blockSize : Nat) (useEagle : Bool) (hn : maxLength / blockSize ≤ hashes.length)
    (he : useEagle = true → ∀ c, spec ≠ .chunkedLocal c) (hx : spec ≠ .crossAttention) :
    ∃ rows', findHitRows p groupIds spec hashes maxLength blockSize useEagle = .ok rows' ∧
      RowsOk p.cachedBlockHashToBlock hashes groupIds rows' ∧ rows'.length ≤ maxLength / blockSize := by
  have hok : ∃ rows', findHitRows p groupIds spec hashes maxLength blockSize useEagle = .ok rows' := by
    cases spec with
    | full => exact ⟨_, rfl⟩
    | slidingWindow window =>
      rw [findHitRows, slidingWindowHit]
      obtain ⟨rows', hr⟩ := slidingWindowRows_ok p groupIds
        ((cdiv ((window : Int) - 1) blockSize).toNat + if useEagle then 1 else 0) 0 hn
        (List.replicate (maxLength / blockSize) (groupIds.map fun _ => 0))
      exact ⟨dropEagle useEagle rows', by rw [hr]; rfl⟩
    | chunkedLocal chunk =>
      have hf : useEagle = false := by
        cases useEagle with
        | false => rfl
        | true => exact absurd rfl (he rfl chunk)
      rw [findHitRows, chunkedLocalHit, hf, if_neg Bool.false_ne_true, if_neg fun hbad => absurd hbad.2.1 (not_lt.2 hn)]
      exact ⟨_, rfl⟩
    | mamba numSpeculativeBlocks => exact mambaHit_ok p groupIds hn
    | crossAttention => exact absurd rfl hx
  obtain ⟨rows', hok⟩ := hok
  obtain ⟨hare, hlen⟩ := findHitRows_are (E := EntryOk p.cachedBlockHashToBlock hashes)
    (fun i h g b hi hs => .inr ⟨h, hi, hs⟩) (fun _ _ _ => .inl rfl) hok
  exact ⟨rows', hok, hare, hlen⟩

/-- The search of full attention. -/
lemma fullAttentionHit_spec (p : BlockPool η) (groupIds : List Nat) (hashes : List η) (maxLength blockSize : Nat)
    (useEagle : Bool) :
    RowsOk p.cachedBlockHashToBlock hashes groupIds
        (fullAttentionHit p groupIds hashes maxLength blockSize useEagle) ∧
      (fullAttentionHit p groupIds hashes maxLength blockSize useEagle).length ≤ maxLength / blockSize :=
  findHitRows_are (E := EntryOk p.cachedBlockHashToBlock hashes)
    (fun _ h _ _ hi hs => .inr ⟨h, hi, hs⟩) (fun _ _ _ => .inl rfl)
    (show findHitRows p groupIds .full hashes maxLength blockSize useEagle = .ok _ from rfl)

end Rows

/-- The hit of a group: `len` entries, each the null block or cached under the hash of its position. -/
structure HitOk (c : BlockHashToBlockMap η) (hashes : List η) (len g : Nat) (col : List Nat) : Prop where
  length : col.length = len
  entry : ∀ i b, col[i]? = some b → EntryOk c hashes i g b

omit [DecidableEq η] in
/-- The columns of rows. -/
lemma RowsAre.columns {E : Nat → Nat → Nat → Prop} {groupIds : List Nat} {rows : List (List Nat)}
    (h : RowsAre E groupIds rows) :
    List.Forall₂ (fun g col => col.length = rows.length ∧ ∀ i b, col[i]? = some b → E i g b) groupIds
      (columns groupIds rows) := by
  rw [List.forall₂_iff_get]
  refine ⟨by rw [KV.columns, List.length_map, List.length_range], fun j hj hj' => ⟨?_, fun i b hi => ?_⟩⟩
  · simp [KV.columns]
  · simp only [KV.columns, List.get_eq_getElem, List.getElem_map, List.getElem_range, List.getElem?_map] at hi
    obtain ⟨row, hrow, hb⟩ := Option.map_eq_some_iff.1 hi
    have hr := h i row hrow
    have hlen := hr.length_eq
    rw [List.forall₂_iff_get] at hr
    have hent := hr.2 j hj (hlen ▸ hj)
    rw [List.getD_eq_getElem?_getD, List.getElem?_eq_getElem (hlen ▸ hj), Option.getD_some] at hb
    rw [← hb]
    exact hent

namespace KVCacheManager

/-- What the constructors check of the groups: positive block sizes, with caching one size, that of the hashes,
and either one group or groups of full attention and of one other kind, not mixed. Group ids are positions. Mamba
and cross attention are not among the groups. -/
structure Shaped (H : Hasher η) (s : KVCacheManager η) : Prop where
  groupIds : s.managers.map SingleTypeManager.groupId = List.range s.managers.length
  blockSize_pos : ∀ m ∈ s.managers, 0 < m.blockSize
  blockSize : s.blockPool.enableCaching = true → ∀ m ∈ s.managers, m.blockSize = H.blockSize
  eagle : s.useEagle = true → ∀ m ∈ s.managers, ∀ c, m.spec ≠ .chunkedLocal c
  attention : ∀ m ∈ s.managers, m.spec ≠ .crossAttention ∧ ∀ n, m.spec ≠ .mamba n
  kinds : s.blockPool.enableCaching = true → (∃ m, s.managers = [m]) ∨
    ∃ fulls others, fulls ≠ [] ∧ others ≠ [] ∧ (∀ m ∈ fulls, m.spec = .full) ∧ (∀ m ∈ others, m.spec ≠ .full) ∧
      (s.managers = fulls ++ others ∨ s.managers = others ++ fulls)

variable {H : Hasher η} {s : KVCacheManager η} {r : Request}

omit [DecidableEq η] in
/-- The two kinds of groups, if there are two. -/
lemma kinds_split {fulls others : List SingleTypeManager} (hf : ∀ m ∈ fulls, m.spec = .full)
    (ho : ∀ m ∈ others, m.spec ≠ .full) (hsplit : s.managers = fulls ++ others ∨ s.managers = others ++ fulls) :
    s.fullAttentionManagers = fulls ∧ s.otherManagers = others := by
  have h1 : fulls.filter (·.spec = .full) = fulls := List.filter_eq_self.2 fun m hm => by simpa using hf m hm
  have h2 : others.filter (·.spec = .full) = [] := List.filter_eq_nil_iff.2 fun m hm => by simpa using ho m hm
  have h3 : fulls.filter (·.spec ≠ .full) = [] := List.filter_eq_nil_iff.2 fun m hm => by simpa using hf m hm
  have h4 : others.filter (·.spec ≠ .full) = others := List.filter_eq_self.2 fun m hm => by simpa using ho m hm
  unfold fullAttentionManagers otherManagers
  rcases hsplit with he | he
  · rw [he, List.filter_append, List.filter_append, h1, h2, h3, h4, List.append_nil, List.nil_append]
    exact ⟨rfl, rfl⟩
  · rw [he, List.filter_append, List.filter_append, h1, h2, h3, h4, List.append_nil, List.nil_append]
    exact ⟨rfl, rfl⟩

/-- What the constructors check of any groups: positive block sizes, with caching one size, that of the hashes, and
either one group or groups of full attention and of one other kind, not mixed. Group ids are positions. -/
structure Laid (H : Hasher η) (s : KVCacheManager η) : Prop where
  groupIds : s.managers.map SingleTypeManager.groupId = List.range s.managers.length
  blockSize_pos : ∀ m ∈ s.managers, 0 < m.blockSize
  blockSize : s.blockPool.enableCaching = true → ∀ m ∈ s.managers, m.blockSize = H.blockSize
  kinds : s.blockPool.enableCaching = true → (∃ m, s.managers = [m]) ∨
    ∃ fulls others, fulls ≠ [] ∧ others ≠ [] ∧ (∀ m ∈ fulls, m.spec = .full) ∧ (∀ m ∈ others, m.spec ≠ .full) ∧
      (s.managers = fulls ++ others ∨ s.managers = others ++ fulls)

omit [DecidableEq η] in
lemma Shaped.laid (hs : s.Shaped H) : s.Laid H := ⟨hs.groupIds, hs.blockSize_pos, hs.blockSize, hs.kinds⟩

/-- A group id is a position. -/
lemma groupId_of_getElem? {ms : List SingleTypeManager}
    (hids : ms.map SingleTypeManager.groupId = List.range ms.length) {i : Nat} {m : SingleTypeManager}
    (hm : ms[i]? = some m) : m.groupId = i := by
  have hget : (ms.map SingleTypeManager.groupId)[i]? = some m.groupId := by
    rw [List.getElem?_map, hm, Option.map_some]
  rw [hids, List.getElem?_eq_some_iff] at hget
  obtain ⟨hlt, he⟩ := hget
  rw [List.getElem_range] at he
  exact he.symm

/-- Lists side by side, with what is known of the elements on the left. -/
lemma forall₂_imp_of_mem {α β : Type} {R S : α → β → Prop} {l : List α} {l' : List β} (h : List.Forall₂ R l l')
    (himp : ∀ a ∈ l, ∀ b, R a b → S a b) : List.Forall₂ S l l' := by
  induction h with
  | nil => exact .nil
  | cons hab _ ih =>
    exact .cons (himp _ List.mem_cons_self _ hab) (ih fun a ha => himp a (List.mem_cons_of_mem _ ha))

omit [DecidableEq η] in
/-- One group, or the two kinds of groups. -/
lemma Laid.cases (hs : s.Laid H) (hc : s.blockPool.enableCaching = true) :
    (∃ m, s.managers = [m]) ∨ ∃ full fulls other others, s.fullAttentionManagers = full :: fulls ∧
      s.otherManagers = other :: others ∧ (s.managers = s.fullAttentionManagers ++ s.otherManagers ∨
        s.managers = s.otherManagers ++ s.fullAttentionManagers) := by
  rcases hs.kinds hc with hm | ⟨fulls, others, hfne, hone, hfull, hother, hsplit⟩
  · exact .inl hm
  · obtain ⟨hfs, hos⟩ := kinds_split hfull hother hsplit
    rw [← hfs, ← hos] at hsplit
    obtain ⟨full, fulls', hf⟩ := List.exists_cons_of_ne_nil (hfs.symm ▸ hfne)
    obtain ⟨other, others', ho⟩ := List.exists_cons_of_ne_nil (hos.symm ▸ hone)
    exact .inr ⟨full, fulls', other, others', hf, ho, hsplit⟩

/-- The search of the coordinator for two kinds of groups. -/
lemma findLongestCacheHit_eq {full other : SingleTypeManager} {fulls others : List SingleTypeManager}
    (hf : s.fullAttentionManagers = full :: fulls) (ho : s.otherManagers = other :: others) (hashes : List η)
    (maxLength : Nat) : s.findLongestCacheHit hashes maxLength = s.hybridHit hashes maxLength full other := by
  unfold KVCacheManager.findLongestCacheHit
  split
  · next m hm =>
    -- one group is not of two kinds
    have hfm : full ∈ s.fullAttentionManagers := hf ▸ List.mem_cons_self
    have hom : other ∈ s.otherManagers := ho ▸ List.mem_cons_self
    obtain ⟨hfm, hfull⟩ := List.mem_filter.1 hfm
    obtain ⟨hom, hother⟩ := List.mem_filter.1 hom
    rw [hm, List.mem_singleton] at hfm hom
    subst hfm hom
    exact absurd (of_decide_eq_true hfull) (of_decide_eq_true hother)
  · rw [hf, ho]

/-- What every search of `get_computed_blocks` gives the groups it is for: no entries where nothing is looked up, and
the columns of the rows that are left. -/
structure SearchRule (H : Hasher η) (s : KVCacheManager η) (r : Request) (R : Nat → SingleTypeManager → List Nat → Prop) :
    Prop where
  empty : ∀ m ∈ s.managers, R 0 m []
  search : s.blockPool.enableCaching = true → ∀ lead ms, lead ∈ s.managers → (∀ m ∈ ms, m ∈ s.managers ∧ (m.spec = .full ↔ lead.spec = .full)) →
    ∀ maxLength rows n, findHitRows s.blockPool (ms.map SingleTypeManager.groupId) lead.spec (H.blockHashes r) maxLength
      H.blockSize s.useEagle = .ok rows → n ≤ rows.length → (n = rows.length ∨ lead.spec = .full) →
    List.Forall₂ (R n) ms (columns (ms.map SingleTypeManager.groupId) (rows.take n))

lemma length_findHitRows_le {p : BlockPool η} {ids : List Nat} {spec : AttentionSpec} {hashes : List η}
    {maxLength blockSize : Nat} {useEagle : Bool} {rows : List (List Nat)}
    (hok : findHitRows p ids spec hashes maxLength blockSize useEagle = .ok rows) : rows.length ≤ maxLength / blockSize :=
  (findHitRows_are (E := fun _ _ _ => True) (fun _ _ _ _ _ _ => trivial) (fun _ _ _ => trivial) hok).2

/-- The search over two kinds of groups. -/
lemma SearchRule.hybridHit {R : Nat → SingleTypeManager → List Nat → Prop} (hR : SearchRule H s r R) (hs : s.Laid H)
    (hc : s.blockPool.enableCaching = true) {maxLength : Nat} {full other : SingleTypeManager}
    {fulls others : List SingleTypeManager} (hf : s.fullAttentionManagers = full :: fulls)
    (ho : s.otherManagers = other :: others)
    (hsplit : s.managers = s.fullAttentionManagers ++ s.otherManagers ∨
      s.managers = s.otherManagers ++ s.fullAttentionManagers) {cols : List (List Nat)} {len : Nat}
    (hok : s.hybridHit (H.blockHashes r) maxLength full other = .ok (cols, len)) :
    ∃ n, len = n * H.blockSize ∧ n ≤ maxLength / H.blockSize ∧ List.Forall₂ (R n) s.managers cols := by
  have hfull : ∀ m ∈ s.fullAttentionManagers, m ∈ s.managers ∧ m.spec = .full := fun m hm =>
    ⟨List.mem_of_mem_filter hm, by simpa using (List.mem_filter.1 hm).2⟩
  have hother : ∀ m ∈ s.otherManagers, m ∈ s.managers ∧ m.spec ≠ .full := fun m hm =>
    ⟨List.mem_of_mem_filter hm, by simpa using (List.mem_filter.1 hm).2⟩
  obtain ⟨hfm, hfs⟩ := hfull full (hf ▸ List.mem_cons_self)
  obtain ⟨hom, hos⟩ := hother other (ho ▸ List.mem_cons_self)
  have hbf : full.blockSize = H.blockSize := hs.blockSize hc full hfm
  have hbo : other.blockSize = H.blockSize := hs.blockSize hc other hom
  have hpos : 0 < H.blockSize := hbf ▸ hs.blockSize_pos full hfm
  unfold KVCacheManager.hybridHit at hok
  rw [hbf, hbo] at hok
  dsimp only at hok
  have hrows : findHitRows s.blockPool (s.fullAttentionManagers.map SingleTypeManager.groupId) full.spec
      (H.blockHashes r) maxLength H.blockSize s.useEagle = .ok (fullAttentionHit s.blockPool
        (s.fullAttentionManagers.map SingleTypeManager.groupId) (H.blockHashes r) maxLength H.blockSize s.useEagle) := by
    rw [hfs]
    rfl
  have hlen := length_findHitRows_le hrows
  generalize fullAttentionHit s.blockPool _ (H.blockHashes r) maxLength H.blockSize s.useEagle = rows at hok hrows hlen
  cases hr : findHitRows s.blockPool (s.otherManagers.map SingleTypeManager.groupId) other.spec (H.blockHashes r)
      (rows.length * H.blockSize) H.blockSize s.useEagle with
  | error e =>
    rw [hr] at hok
    cases hok
  | ok rows' =>
    have hlen' := length_findHitRows_le hr
    rw [Nat.mul_div_cancel _ hpos] at hlen'
    rw [hr] at hok
    dsimp only [bind, Except.bind] at hok
    rw [Nat.mul_mod_left, if_neg (by simp), Nat.mul_div_cancel _ hpos] at hok
    obtain ⟨hcols, rfl⟩ := Prod.mk.inj (Except.ok.inj hok)
    have hcolf := hR.search hc full s.fullAttentionManagers hfm
      (fun m hm => ⟨(hfull m hm).1, iff_of_true (hfull m hm).2 hfs⟩) _ rows _ hrows hlen' (.inr hfs)
    have hcolo := hR.search hc other s.otherManagers hom
      (fun m hm => ⟨(hother m hm).1, iff_of_false (hother m hm).2 hos⟩) _ rows' _ hr le_rfl (.inl rfl)
    rw [List.take_length] at hcolo
    refine ⟨rows'.length, rfl, hlen'.trans hlen, ?_⟩
    rw [← hcols]
    -- the columns stand in the order of the groups
    rcases hsplit with he | he
    · have hlt : full.groupId < other.groupId := by
        have h0 : full.groupId = 0 := groupId_of_getElem? hs.groupIds (by rw [he, hf]; rfl)
        have h1 : other.groupId = (full :: fulls).length := groupId_of_getElem? hs.groupIds (by rw [he, hf, ho]; simp)
        rw [h0, h1]
        exact Nat.succ_pos _
      rw [if_pos hlt, he]
      exact List.rel_append hcolf hcolo
    · have hlt : ¬ full.groupId < other.groupId := by
        have h0 : other.groupId = 0 := groupId_of_getElem? hs.groupIds (by rw [he, ho]; rfl)
        rw [h0]
        exact Nat.not_lt_zero _
      rw [if_neg hlt, he]
      exact List.rel_append hcolo hcolf

/-- What `get_computed_blocks` returns, if it does not raise. -/
lemma SearchRule.getComputedBlocks {R : Nat → SingleTypeManager → List Nat → Prop} (hR : SearchRule H s r R)
    (hs : s.Laid H) {cols : List (List Nat)} {len : Nat} (hok : s.getComputedBlocks H r = .ok (cols, len)) :
    ∃ n, len = n * H.blockSize ∧ n ≤ (r.numTokens - 1) / H.blockSize ∧
      (s.blockPool.enableCaching = false → n = 0) ∧ List.Forall₂ (R n) s.managers cols := by
  unfold KVCacheManager.getComputedBlocks at hok
  by_cases hoff : s.blockPool.enableCaching = false ∨ r.samplingParams.promptLogprobs ≠ none
  · rw [if_pos hoff] at hok
    cases hok
    refine ⟨0, (Nat.zero_mul _).symm, Nat.zero_le _, fun _ => rfl, ?_⟩
    rw [emptyBlocks, List.forall₂_map_right_iff, List.forall₂_same]
    exact hR.empty
  rw [if_neg hoff] at hok
  have hc : s.blockPool.enableCaching = true := by
    cases he : s.blockPool.enableCaching with
    | true => rfl
    | false => exact absurd (.inl he) hoff
  have hfalse : ∀ n : Nat, s.blockPool.enableCaching = false → n = 0 := fun _ h =>
    absurd (hc.symm.trans h) Bool.noConfusion
  rcases hs.cases hc with ⟨m, hm⟩ | ⟨full, fulls, other, others, hf, ho, hsplit⟩
  · have hmem : m ∈ s.managers := hm ▸ List.mem_cons_self
    rw [findLongestCacheHit, hm] at hok
    dsimp only at hok
    rw [hs.blockSize hc m hmem] at hok
    cases hr : findHitRows s.blockPool [m.groupId] m.spec (H.blockHashes r) (r.numTokens - 1) H.blockSize s.useEagle with
    | error e =>
      rw [hr] at hok
      cases hok
    | ok rows =>
      rw [hr] at hok
      obtain ⟨rfl, rfl⟩ := Prod.mk.inj (Except.ok.inj hok)
      refine ⟨rows.length, rfl, length_findHitRows_le hr, hfalse _, ?_⟩
      have hcols := hR.search hc m [m] hmem (fun x hx => by rw [List.mem_singleton.1 hx]; exact ⟨hmem, Iff.rfl⟩) _ rows _ hr
        le_rfl (.inl rfl)
      rw [List.take_length] at hcols
      rw [hm]
      exact hcols
  · rw [findLongestCacheHit_eq hf ho] at hok
    obtain ⟨n, hlen, hle, hcols⟩ := hR.hybridHit hs hc hf ho hsplit hok
    exact ⟨n, hlen, hle, hfalse n, hcols⟩

/-- The entries of what `get_computed_blocks` returns. -/
lemma Laid.getComputedBlocks (hs : s.Laid H) {r : Request} {cols : List (List Nat)} {len : Nat}
    (hok : s.getComputedBlocks H r = .ok (cols, len)) :
    ∃ n, len = n * H.blockSize ∧ n ≤ (r.numTokens - 1) / H.blockSize ∧
      (s.blockPool.enableCaching = false → n = 0) ∧
      List.Forall₂ (fun m col => col.length = n ∧
        ∀ i b, col[i]? = some b → EntryAt s.blockPool.cachedBlockHashToBlock (H.blockHashes r) m.spec i m.groupId b)
        s.managers cols := by
  have hR : SearchRule H s r fun n m col => col.length = n ∧
      ∀ i b, col[i]? = some b → EntryAt s.blockPool.cachedBlockHashToBlock (H.blockHashes r) m.spec i m.groupId b := by
    refine ⟨fun m _ => ⟨rfl, fun i b hi => by simp at hi⟩, fun _ lead ms _ hms maxLength rows n hr hn _ => ?_⟩
    obtain ⟨hrows, -⟩ := findHitRows_are
      (E := fun i g b => EntryAt s.blockPool.cachedBlockHashToBlock (H.blockHashes r) lead.spec i g b)
      (fun i h g b hi hst => .inr ⟨h, hi, hst⟩) (fun hne _ _ => .inl ⟨rfl, hne⟩) hr
    have hcols := (hrows.take n).columns
    rw [List.length_take, Nat.min_eq_left hn, List.forall₂_map_left_iff] at hcols
    -- the entries of one kind are those of each of its groups
    refine forall₂_imp_of_mem hcols fun m hm col hcol => ⟨hcol.1, fun i b hi => ?_⟩
    exact (hcol.2 i b hi).imp (fun h => ⟨h.1, fun he => h.2 ((hms m hm).2.1 he)⟩) id
  exact hR.getComputedBlocks hs hok

/-- The search does not raise on groups of the shape. -/
lemma Shaped.getComputedBlocks_ok (hs : s.Shaped H) (r : Request) : ∃ e, s.getComputedBlocks H r = .ok e := by
  unfold KVCacheManager.getComputedBlocks
  by_cases hoff : s.blockPool.enableCaching = false ∨ r.samplingParams.promptLogprobs ≠ none
  · rw [if_pos hoff]
    exact ⟨_, rfl⟩
  rw [if_neg hoff]
  have hc : s.blockPool.enableCaching = true := by
    cases he : s.blockPool.enableCaching with
    | true => rfl
    | false => exact absurd (.inl he) hoff
  have hn : (r.numTokens - 1) / H.blockSize ≤ (H.blockHashes r).length := by
    rw [Hasher.length_blockHashes]
    exact Nat.div_le_div_right (Nat.sub_le _ _)
  rcases hs.laid.cases hc with ⟨m, hm⟩ | ⟨full, fulls, other, others, hf, ho, -⟩
  · have hmem : m ∈ s.managers := hm ▸ List.mem_cons_self
    obtain ⟨rows, hr, -⟩ := findHitRows_spec s.blockPool [m.groupId] m.spec (H.blockHashes r)
      (r.numTokens - 1) H.blockSize s.useEagle hn (fun he => hs.eagle he m hmem) (hs.attention m hmem).1
    rw [findLongestCacheHit, hm]
    dsimp only
    rw [hs.blockSize hc m hmem, hr]
    exact ⟨_, rfl⟩
  · have hfm : full ∈ s.managers := List.mem_of_mem_filter (hf ▸ List.mem_cons_self : full ∈ s.fullAttentionManagers)
    have hom : other ∈ s.managers := List.mem_of_mem_filter (ho ▸ List.mem_cons_self : other ∈ s.otherManagers)
    have hpos : 0 < H.blockSize := hs.blockSize hc full hfm ▸ hs.blockSize_pos full hfm
    rw [findLongestCacheHit_eq hf ho, KVCacheManager.hybridHit, hs.blockSize hc full hfm, hs.blockSize hc other hom]
    dsimp only
    have hlen := (fullAttentionHit_spec s.blockPool (s.fullAttentionManagers.map SingleTypeManager.groupId)
      (H.blockHashes r) (r.numTokens - 1) H.blockSize s.useEagle).2
    generalize fullAttentionHit s.blockPool _ (H.blockHashes r) (r.numTokens - 1) H.blockSize s.useEagle = rows at hlen ⊢
    obtain ⟨rows', hr, -⟩ := findHitRows_spec s.blockPool (s.otherManagers.map SingleTypeManager.groupId) other.spec
      (H.blockHashes r) (rows.length * H.blockSize) H.blockSize s.useEagle
      (by rw [Nat.mul_div_cancel _ hpos]; exact hlen.trans hn) (fun he => hs.eagle he other hom) (hs.attention other hom).1
    rw [hr]
    dsimp only [bind, Except.bind]
    rw [Nat.mul_mod_left, if_neg (by simp)]
    exact ⟨_, rfl⟩

/-- What `get_computed_blocks` returns. -/
lemma Shaped.getComputedBlocks (hs : s.Shaped H) (r : Request) :
    ∃ cols len, s.getComputedBlocks H r = .ok (cols, len * H.blockSize) ∧
      List.Forall₂ (fun m col => HitOk s.blockPool.cachedBlockHashToBlock (H.blockHashes r) len m.groupId col)
        s.managers cols ∧
      len ≤ (r.numTokens - 1) / H.blockSize ∧ (s.blockPool.enableCaching = false → len = 0) := by
  obtain ⟨⟨cols, len⟩, hok⟩ := hs.getComputedBlocks_ok r
  obtain ⟨n, rfl, hle, hoff, hcols⟩ := hs.laid.getComputedBlocks hok
  exact ⟨cols, n, hok, hcols.imp fun m col hcol => ⟨hcol.1, fun i b hi => (hcol.2 i b hi).entryOk⟩, hle, hoff⟩

end KVCacheManager

/-- No block is at two positions of a hit. -/
lemma HitOk.count_le_one {p : BlockPool η} {hashes : List η} (nd : hashes.Nodup) {len g : Nat} {col : List Nat}
    (h : HitOk p.cachedBlockHashToBlock hashes len g col) {b : Nat} (h0 : b ≠ 0)
    (hb : ∀ k, p.blockHash b = some k ↔ Stored p.cachedBlockHashToBlock k b) : col.count b ≤ 1 := by
  by_contra hcount
  have hdup : col.Duplicate b := List.duplicate_iff_two_le_count.2 (by omega)
  obtain ⟨i, j, hij, hi, hj⟩ := List.duplicate_iff_exists_distinct_get.1 hdup
  have hat : ∀ k : Fin col.length, b = col.get k → hashes[k.1]? = (p.blockHash b).map Prod.fst := by
    intro k hk
    have hget : col[k.1]? = some b := by rw [hk]; exact List.getElem?_eq_getElem k.2
    obtain ⟨x, hx, hst⟩ := (h.entry k.1 b hget).resolve_left h0
    rw [hx, (hb (x, g)).2 hst, Option.map_some]
  have hlen : ∀ k : Fin col.length, b = col.get k → k.1 < hashes.length := by
    intro k hk
    have hget : col[k.1]? = some b := by rw [hk]; exact List.getElem?_eq_getElem k.2
    obtain ⟨x, hx, -⟩ := (h.entry k.1 b hget).resolve_left h0
    exact (List.getElem?_eq_some_iff.1 hx).1
  have heq := (hat i hi).trans (hat j hj).symm
  exact absurd ((List.getElem?_inj (hlen i hi) nd).1 heq) (Fin.val_ne_of_ne (ne_of_lt hij))

end Gambit.KV
