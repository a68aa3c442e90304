import Gambit.KV.CommonPrefix

/-!
# Room for all groups

`allocate_slots` compares the sum of what the groups need with the number of free blocks, and then lets one group
after the other take its blocks. A group that holds more than it needs makes the sum smaller, but gives nothing to
the others. The tables of one request have in every group the length for one number of tokens, so the needs are of
one sign, except in groups of cross attention: their need is that of the encoder tokens, which `schedule` passes in
the first call only.
-/

namespace Gambit.KV
open Gambit.Lib Gambit.Sched SingleTypeManager KVCacheManager

variable {η : Type} [DecidableEq η]

lemma cdiv_nonneg {a b : Int} (hb : 0 < b) (h : 0 ≤ a) : 0 ≤ cdiv a b := by
  have hmono := cdiv_mono hb h
  rwa [cdiv_zero] at hmono

/-- The length of a table with slots for a number of tokens. -/
def SingleTypeManager.slotLength (m : SingleTypeManager) (n : Int) : Int :=
  if n = 0 then 0 else cdiv (m.paddedTokens n) m.blockSize

lemma paddedTokens_mono (m : SingleTypeManager) {n n' : Int} (h : n ≤ n') : m.paddedTokens n ≤ m.paddedTokens n' := by
  unfold SingleTypeManager.paddedTokens
  split
  · omega
  · exact h

lemma le_paddedTokens (m : SingleTypeManager) (n : Int) : n ≤ m.paddedTokens n := by
  unfold SingleTypeManager.paddedTokens
  split
  · next k _ =>
    have hpos : (0 : Int) ≤ ((m.blockSize * k : Nat) : Int) := Int.natCast_nonneg _
    rw [Nat.cast_mul] at hpos
    omega
  · exact le_rfl

lemma slotLength_mono {m : SingleTypeManager} (hb : 0 < m.blockSize) {n n' : Int} (h0 : 0 ≤ n) (h : n ≤ n') :
    m.slotLength n ≤ m.slotLength n' := by
  have hb' : (0 : Int) < m.blockSize := by exact_mod_cast hb
  unfold SingleTypeManager.slotLength
  split
  · split
    · exact le_rfl
    · exact cdiv_nonneg hb' ((h0.trans h).trans (le_paddedTokens m n'))
  · split
    · omega
    · exact cdiv_mono hb' (paddedTokens_mono m h)

/-- Two steps of two lists side by side. -/
lemma forall₂_trans' {α : Type} {R S T : α → α → Prop} {l l' l'' : List α} (h : List.Forall₂ R l l')
    (h' : List.Forall₂ S l' l'') (htrans : ∀ a b c, R a b → S b c → T a c) : List.Forall₂ T l l'' := by
  induction h generalizing l'' with
  | nil =>
    cases h'
    exact .nil
  | cons hab _ ih =>
    cases h' with
    | cons hbc hrest => exact .cons (htrans _ _ _ hab hbc) (ih hrest)

lemma forall₂_and {α : Type} {R S : α → α → Prop} {l l' : List α} (h : List.Forall₂ R l l') (h' : List.Forall₂ S l l') :
    List.Forall₂ (fun a b => R a b ∧ S a b) l l' := by
  induction h with
  | nil => exact .nil
  | cons hab _ ih =>
    cases h' with
    | cons hab' hrest => exact .cons ⟨hab, hab'⟩ (ih hrest)

namespace KVCacheManager
variable {H : Hasher η} {s s' : KVCacheManager η} {rid : ReqId} {r : Request}

/-- The tables of a request, cross attention apart, have slots for one number of tokens. -/
def Level (s : KVCacheManager η) (rid : ReqId) : Prop :=
  ∃ n : Int, 0 ≤ n ∧ ∀ m ∈ s.managers, m.spec ≠ .crossAttention → ((m.table rid).length : Int) = m.slotLength n

/-- What each group needs. -/
def needs (s : KVCacheManager η) (rid : ReqId) (numTokens : Int) (cols : List (List Nat)) (enc : Nat) : List Int :=
  (s.managers.zip cols).map fun e =>
    if e.1.spec = .crossAttention then e.1.getNumBlocksToAllocate s.blockPool rid enc []
    else e.1.getNumBlocksToAllocate s.blockPool rid numTokens e.2

omit [DecidableEq η] in
lemma getNumBlocksToAllocate_eq (s : KVCacheManager η) (rid : ReqId) (numTokens : Int) (cols : List (List Nat)) (enc : Nat) :
    s.getNumBlocksToAllocate rid numTokens cols enc = (s.needs rid numTokens cols enc).sum := rfl

/-- Slots are for new tokens, and within the model length. -/
def Sized (s : KVCacheManager η) : Call → Prop
  | .allocateSlots r numNew numNewComputed _ _ _ _ =>
    0 < numNew ∧ 0 ≤ r.numComputedTokens ∧ r.numComputedTokens + numNewComputed + numNew ≤ s.maxModelLen
  | _ => True

instance (s : KVCacheManager η) : (c : Call) → Decidable (s.Sized c)
  | .getComputedBlocks _ => inferInstanceAs (Decidable True)
  | .allocateSlots .. => inferInstanceAs (Decidable (_ ∧ _))
  | .cacheBlocks .. => inferInstanceAs (Decidable True)
  | .getNumCommonPrefixBlocks _ => inferInstanceAs (Decidable True)
  | .free _ => inferInstanceAs (Decidable True)
  | .resetPrefixCache => inferInstanceAs (Decidable True)

/-- The number of tokens a group finds slots for. -/
def groupTokens (numTokens : Int) (enc : Nat) (m : SingleTypeManager) : Int :=
  if m.spec = .crossAttention then enc else numTokens

/-- New blocks of a group leave the queue. -/
lemma length_queue_of_allocate {m m' : SingleTypeManager} {p p' : BlockPool η} {held : Nat → Nat} {nt : Int}
    {new : List Nat} (h : Books p held) (hok : m.allocateNewBlocks p rid nt = .ok (m', p', new)) :
    p'.freeBlockQueue.length + m.numNewBlocks rid nt = p.freeBlockQueue.length := by
  unfold SingleTypeManager.allocateNewBlocks at hok
  dsimp only at hok
  split at hok
  · next hle =>
    cases hok
    rw [SingleTypeManager.numNewBlocks, Int.toNat_of_nonpos hle, Nat.add_zero]
  · cases hnew : p.getNewBlocks (m.numNewBlocks rid nt) with
    | error e =>
      rw [SingleTypeManager.numNewBlocks] at hnew
      rw [hnew] at hok
      cases hok
    | ok e =>
      have hlen := length_of_getNewBlocks hnew
      obtain ⟨q, hq, -, -, hdrop, -⟩ := h.getNewBlocks hlen
      rw [hnew] at hq
      cases hq
      rw [SingleTypeManager.numNewBlocks] at hnew
      rw [hnew] at hok
      cases hok
      rw [hdrop, List.length_drop]
      omega

/-- One group gets its blocks exactly if they are there. -/
lemma allocate_ok_iff {m : SingleTypeManager} {p : BlockPool η} {held : Nat → Nat} {nt : Int} (h : Books p held) :
    (∃ e, m.allocateNewBlocks p rid nt = .ok e) ↔ m.numNewBlocks rid nt ≤ p.freeBlockQueue.length := by
  constructor
  · rintro ⟨⟨m', p', new⟩, hok⟩
    have := length_queue_of_allocate h hok
    omega
  · intro hle
    unfold SingleTypeManager.allocateNewBlocks
    dsimp only
    split
    · exact ⟨_, rfl⟩
    · obtain ⟨q, hq, -⟩ := h.getNewBlocks hle
      rw [SingleTypeManager.numNewBlocks] at hq
      rw [hq]
      exact ⟨_, rfl⟩

/-- All groups get their blocks exactly if those of all groups together are there. -/
lemma allocateAll_iff (done : List SingleTypeManager) {ms : List SingleTypeManager} {p : BlockPool η}
    (nt : SingleTypeManager → Int) (h : Sound H (done ++ ms) p fun _ => 0) :
    (∃ e, forManagers (fun m p => m.allocateNewBlocks p rid (nt m)) ms p = .ok e) ↔
      (ms.map fun m => m.numNewBlocks rid (nt m)).sum ≤ p.freeBlockQueue.length := by
  induction ms generalizing done p with
  | nil => exact ⟨fun _ => Nat.zero_le _, fun _ => ⟨_, rfl⟩⟩
  | cons m ms ih =>
    rw [forManagers, List.map_cons, List.sum_cons]
    cases hm : m.allocateNewBlocks p rid (nt m) with
    | error e =>
      constructor
      · rintro ⟨e', he⟩
        cases he
      · intro hle
        obtain ⟨e', he⟩ := (allocate_ok_iff h.books).2 (Nat.le_trans (Nat.le_add_right _ _) hle)
        rw [hm] at he
        cases he
    | ok e =>
      obtain ⟨m', p', new⟩ := e
      have hlen := length_queue_of_allocate h.books hm
      have h' := (h.allocateNewBlocks hm).1
      have happ : done ++ m' :: ms = (done ++ [m']) ++ ms := by simp
      rw [happ] at h'
      have hrest := ih (done ++ [m']) h'
      dsimp only [bind, Except.bind]
      constructor
      · rintro ⟨e', he⟩
        have hle := hrest.1 (by
          cases hms : forManagers (fun m p => m.allocateNewBlocks p rid (nt m)) ms p' with
          | error e =>
            rw [hms] at he
            cases he
          | ok e => exact ⟨e, rfl⟩)
        omega
      · intro hle
        obtain ⟨e', he⟩ := hrest.2 (by omega)
        rw [he]
        exact ⟨_, rfl⟩

/-- `allocate_new_blocks` of the coordinator. -/
lemma SoundAt.allocate_iff (h : s.SoundAt H) (rid : ReqId) (numTokens : Int) (enc : Nat) :
    (∃ e, s.allocateNewBlocks rid numTokens enc = .ok e) ↔
      (s.managers.map fun m => m.numNewBlocks rid (groupTokens numTokens enc m)).sum ≤
        s.blockPool.freeBlockQueue.length := by
  rw [← allocateAll_iff (H := H) [] (groupTokens numTokens enc) h]
  unfold KVCacheManager.allocateNewBlocks groupTokens
  constructor
  · rintro ⟨e, he⟩
    cases hf : forManagers (fun m p =>
        m.allocateNewBlocks p rid (if m.spec = .crossAttention then (enc : Int) else numTokens)) s.managers s.blockPool with
    | error e =>
      rw [hf] at he
      cases he
    | ok e => exact ⟨e, rfl⟩
  · rintro ⟨e, he⟩
    rw [he]
    exact ⟨_, rfl⟩

/-- Numbers of one sign. -/
lemma sum_max_zero {l : List Int} (h : (∀ x ∈ l, 0 ≤ x) ∨ ∀ x ∈ l, x ≤ 0) :
    (l.map (max 0)).sum = l.sum ∨ (l.map (max 0)).sum = 0 := by
  rcases h with h | h
  · left
    have hid : l.map (max 0) = l.map id := List.map_congr_left fun x hx => max_eq_right (h x hx)
    rw [hid, List.map_id]
  · right
    refine List.sum_eq_zero fun x hx => ?_
    obtain ⟨y, hy, rfl⟩ := List.mem_map.1 hx
    exact max_eq_left (h y hy)

omit [DecidableEq η] in
/-- Without hits the needs are the new blocks of the groups. -/
lemma needs_of_empty {cols : List (List Nat)} (hlen : s.managers.length = cols.length) (hempty : ∀ col ∈ cols, col = [])
    (rid : ReqId) (numTokens : Int) (enc : Nat) :
    s.needs rid numTokens cols enc = s.managers.map fun m =>
      cdiv (m.paddedTokens (groupTokens numTokens enc m)) m.blockSize - (m.table rid).length := by
  unfold needs
  generalize s.managers = ms at hlen
  induction ms generalizing cols with
  | nil => rfl
  | cons m ms ih =>
    cases cols with
    | nil => cases hlen
    | cons col cols =>
      have hcol := hempty col List.mem_cons_self
      subst hcol
      rw [List.zip_cons_cons, List.map_cons, List.map_cons,
        ih (fun c hc => hempty c (List.mem_cons_of_mem _ hc)) (Nat.succ.inj hlen)]
      congr 1
      unfold groupTokens SingleTypeManager.getNumBlocksToAllocate
      split
      · simp
      · simp

omit [DecidableEq η] in
/-- The new blocks of the groups are their needs, none less than zero. -/
lemma sum_numNewBlocks (s : KVCacheManager η) (rid : ReqId) (numTokens : Int) (enc : Nat) :
    (((s.managers.map fun m => m.numNewBlocks rid (groupTokens numTokens enc m)).sum : Nat) : Int) =
      ((s.managers.map fun m =>
        cdiv (m.paddedTokens (groupTokens numTokens enc m)) m.blockSize - (m.table rid).length).map (max 0)).sum := by
  generalize s.managers = ms
  induction ms with
  | nil => rfl
  | cons m ms ih =>
    rw [List.map_cons, List.sum_cons, Nat.cast_add, ih, List.map_cons, List.map_cons, List.sum_cons,
      SingleTypeManager.numNewBlocks]
    congr 1
    omega

/-- A hit of a request without blocks is taken, and what is free goes down by what was free of the hit at most. -/
lemma SoundAt.takeHit {n : Nat} {cols : List (List Nat)} (h : s.SoundAt H) (hc : s.blockPool.enableCaching = true)
    (hcols : s.HitFor H r n cols) (hu : s.Unknown rid) (hx : ∀ m ∈ s.managers, m.spec ≠ .crossAttention) :
    ∃ taken, s.takeComputedBlocks rid cols = .ok taken ∧
      List.Forall₂ (fun (e : SingleTypeManager × List Nat) m' => TakenIn rid e.2 e.1 m') (s.managers.zip cols)
        taken.managers ∧
      s.blockPool.freeBlockQueue.length ≤ taken.blockPool.freeBlockQueue.length +
        cols.flatten.countP fun b => s.blockPool.refCnt b = 0 ∧ b ≠ 0 := by
  obtain ⟨p, hp, -, -, -, -, hroom⟩ := h.books.touch (hcols.touchable h)
  obtain ⟨ms, hms, hT, -⟩ := saveAll_eq s.managers cols hcols.length_eq hx hu
  unfold KVCacheManager.takeComputedBlocks
  split
  · next hall => exact ⟨s, rfl, (takeNothing hcols.length_eq hall).2.groups, Nat.le_add_right _ _⟩
  · rw [hc, hp]
    dsimp only [bind, Except.bind]
    rw [hms]
    exact ⟨_, rfl, hT, hroom⟩

omit [DecidableEq η] in
/-- A hit has fewer blocks than slots are for. -/
lemma Laid.hit_lt (hs : s.Laid H) {n : Nat} (hn : n ≠ 0) (hoff : s.blockPool.enableCaching = false → n = 0) {nt : Int}
    (hnt : ((n * H.blockSize : Nat) : Int) < nt) :
    s.blockPool.enableCaching = true ∧ ∀ m ∈ s.managers, (n : Int) ≤ cdiv (m.paddedTokens nt) m.blockSize := by
  have hc : s.blockPool.enableCaching = true := by
    cases he : s.blockPool.enableCaching with
    | true => rfl
    | false => exact absurd (hoff he) hn
  refine ⟨hc, fun m hm => ?_⟩
  have hb := hs.blockSize_pos m hm
  have hb' : (0 : Int) < m.blockSize := by exact_mod_cast hb
  have hle : ((n * m.blockSize : Nat) : Int) ≤ m.paddedTokens nt := by
    rw [hs.blockSize hc m hm]
    exact hnt.le.trans (le_paddedTokens m nt)
  have hmono := cdiv_mono hb' hle
  rwa [cdiv_mul n hb] at hmono

/-- A hit stays one when blocks are skipped and tables are read. -/
lemma HitFor.skipped {n : Nat} {cols : List (List Nat)} (hcols : s.HitFor H r n cols) (hk : Keeps rid s s')
    (hcache : s'.blockPool.cachedBlockHashToBlock = s.blockPool.cachedBlockHashToBlock) : s'.HitFor H r n cols := by
  refine forall₂_of_left hk.shape.groups hcols fun m m' col hg hcol => ⟨hcol.1, fun i b hi => ?_⟩
  rw [hg.spec, hg.groupId, hcache]
  exact hcol.2 i b hi

/-- The lengths of the tables of a request after `allocate_slots` that found room. -/
lemma SoundAt.lengths {n enc : Nat} {cols : List (List Nat)} {nt numToCache : Int} {delay : Bool}
    {new : Option (List (List Nat))} {skipped : KVCacheManager η} (inj : H.Injective) (h : s.SoundAt H)
    (hcols : s.HitFor H r n cols) (hsk : s.removeSkippedBlocks r.requestId r.numComputedTokens = .ok skipped)
    (hgrant : ∃ taken extended blocks, (skipped.withEntries r.requestId).takeComputedBlocks r.requestId cols = .ok taken ∧
      taken.allocateNewBlocks r.requestId nt enc = .ok (extended, blocks) ∧ new = some blocks ∧
      (delay = true ∧ s' = extended ∨ delay = false ∧ extended.cacheBlocks H r numToCache = .ok s')) :
    List.Forall₂ (fun m m' => SameGroup m m' ∧ ((m'.table r.requestId).length : Int) =
      max ((m.table r.requestId).length + n : Int) (cdiv (m.paddedTokens (groupTokens nt enc m)) m.blockSize))
      s.managers s'.managers := by
  obtain ⟨h₁, hk₁, hlen₁, hcache⟩ := h.removeSkippedBlocks hsk
  obtain ⟨h₂, hk₂⟩ := h₁.withEntries r.requestId
  obtain ⟨taken, extended, blocks, htk, hex, -, hend⟩ := hgrant
  obtain ⟨h₃, -, hT⟩ := h₂.takeComputedBlocks inj (hcols.skipped (hk₁.trans hk₂) hcache) htk
  obtain ⟨h₄, -, hE⟩ := h₃.allocateNewBlocks hex
  have hread : List.Forall₂ (fun m m' => SameGroup m m' ∧
      (SingleTypeManager.table m' r.requestId).length = (m.table r.requestId).length) s.managers
      (skipped.withEntries r.requestId).managers := by
    refine List.forall₂_map_right_iff.2 (hlen₁.imp fun m m' hm => ⟨hm.group.trans (m'.sameGroup_withEntry _), ?_⟩)
    rw [table_withEntry, hm.length]
  have htaken : List.Forall₂ (fun m m' => SameGroup m m' ∧ (SingleTypeManager.table m' r.requestId).length =
      (m.table r.requestId).length + n) s.managers taken.managers := by
    have hone : List.Forall₂ (fun m m' => SameGroup m m' ∧ (SingleTypeManager.table m' r.requestId).length =
        (m.table r.requestId).length + n) (skipped.withEntries r.requestId).managers taken.managers := by
      refine forall₂_zip_left (hcols.skipped (hk₁.trans hk₂) hcache) hT fun m col m' hcol htk => ⟨htk.group, ?_⟩
      rw [htk.table, List.length_append, hcol.1]
    exact forall₂_trans' hread hone fun m m' m'' hm hm' => ⟨hm.1.trans hm'.1, hm'.2.trans (by rw [hm.2])⟩
  have hextended : List.Forall₂ (fun m m' => SameGroup m m' ∧ ((SingleTypeManager.table m' r.requestId).length : Int) =
      max ((m.table r.requestId).length + n : Int) (cdiv (m.paddedTokens (groupTokens nt enc m)) m.blockSize)) s.managers
      extended.managers := by
    refine forall₂_trans' htaken hE fun m m' m'' hm hm' => ⟨hm.1.trans hm'.group, ?_⟩
    obtain ⟨new, htab, hlen⟩ := hm'.table
    have hg : (if m'.spec = .crossAttention then (enc : Int) else nt) = groupTokens nt enc m := by
      rw [hm.1.spec]
      rfl
    rw [hg, SingleTypeManager.numNewBlocks, hm.1.paddedTokens, hm.1.blockSize] at hlen
    rw [htab, List.length_append, hlen, hm.2]
    omega
  rcases hend with ⟨-, rfl⟩ | ⟨-, hca⟩
  · exact hextended
  · obtain ⟨-, hk₅, hcase⟩ := h₄.cacheBlocks hca
    have hsame : List.Forall₂ (fun m m' => SameGroup m m' ∧ SingleTypeManager.table m' r.requestId = m.table r.requestId)
        extended.managers s'.managers := by
      rcases hcase with ⟨-, rfl⟩ | ⟨-, hc⟩
      · exact List.forall₂_same.2 fun m _ => ⟨.refl m, rfl⟩
      · exact forall₂_and hk₅.shape.groups (hc.imp fun _ _ hc => hc.table _)
    exact forall₂_trans' hextended hsame fun m m' m'' hm hm' => ⟨hm.1.trans hm'.1, by rw [hm'.2]; exact hm.2⟩

omit [DecidableEq η] in
/-- Slots are for at least one token, and for more than those of the hit. -/
lemma slotTokens_bounds {numNew : Int} {numNewComputed lookahead : Nat} {cols : List (List Nat)} {delay : Bool} {enc : Nat}
    (h : s.Sized (.allocateSlots r numNew numNewComputed cols lookahead delay enc)) :
    0 < s.slotTokens r numNew numNewComputed lookahead ∧
      (numNewComputed : Int) < s.slotTokens r numNew numNewComputed lookahead := by
  obtain ⟨h1, h2, h3⟩ := h
  unfold slotTokens
  omega

/-- What runs of sized calls keep. -/
structure Roomy (H : Hasher η) (s : KVCacheManager η) : Prop where
  steady : s.Steady H
  level : ∀ rid, s.Level rid
  apart : s.blockPool.enableCaching = true → ∀ m ∈ s.managers, m.spec ≠ .crossAttention

omit [DecidableEq η] in
/-- Tables of the same lengths. -/
lemma Level.congr (h : s.Level rid) (hg : List.Forall₂ (fun m m' => SameGroup m m' ∧
    (SingleTypeManager.table m' rid).length = (m.table rid).length) s.managers s'.managers) : s'.Level rid := by
  obtain ⟨n, h0, hn⟩ := h
  refine ⟨n, h0, fun m' hm' hx => ?_⟩
  obtain ⟨m, hm, hsame, hlen⟩ := exists_left_of_forall₂ hg hm'
  rw [hlen, hn m hm (hsame.spec ▸ hx), SingleTypeManager.slotLength, SingleTypeManager.slotLength, hsame.paddedTokens,
    hsame.blockSize]

omit [DecidableEq η] in
/-- Other requests keep their tables. -/
lemma Keeps.level {x : ReqId} (hk : Keeps rid s s') (hx : x ≠ rid) (h : s.Level x) : s'.Level x :=
  h.congr (hk.groups.imp fun _ _ hm => ⟨hm.group, by rw [hm.other x hx]⟩)

/-- `allocate_slots` for a number of tokens. -/
lemma Roomy.level_allocate {n enc : Nat} {cols : List (List Nat)} {nt numToCache : Int} {delay : Bool}
    {new : Option (List (List Nat))} (inj : H.Injective) (h : s.Roomy H) (hcols : s.HitFor H r n cols)
    (hoff : s.blockPool.enableCaching = false → n = 0) (hu : n = 0 ∨ s.Unknown r.requestId) (hpos : 0 < nt)
    (hlt : ((n * H.blockSize : Nat) : Int) < nt) (hst : Stages H s r nt numToCache cols enc delay s' new) :
    s'.Level r.requestId := by
  obtain ⟨n₀, h₀, hlevel⟩ := h.level r.requestId
  -- a refused call leaves every length; a granted one raises those that are too short
  have hcase : List.Forall₂ (fun m m' => SameGroup m m' ∧
      (SingleTypeManager.table m' r.requestId).length = (m.table r.requestId).length) s.managers s'.managers ∨
      List.Forall₂ (fun m m' => SameGroup m m' ∧ ((SingleTypeManager.table m' r.requestId).length : Int) =
        max ((m.table r.requestId).length + n : Int) (cdiv (m.paddedTokens (groupTokens nt enc m)) m.blockSize))
        s.managers s'.managers := by
    obtain ⟨skipped, hsk, ⟨-, rfl, -⟩ | ⟨-, hgrant⟩⟩ := hst
    · obtain ⟨-, -, hlen₁, -⟩ := h.steady.sound.removeSkippedBlocks hsk
      refine .inl (List.forall₂_map_right_iff.2 (hlen₁.imp fun m m' hm => ⟨hm.group.trans (m'.sameGroup_withEntry _), ?_⟩))
      rw [table_withEntry, hm.length]
    · exact .inr (h.steady.sound.lengths inj hcols hsk hgrant)
  rcases hcase with hsame | hgrown
  · exact (h.level r.requestId).congr hsame
  have hshape : ∀ m' : SingleTypeManager, m'.slotLength nt = cdiv (m'.paddedTokens nt) m'.blockSize := fun m' =>
    if_neg hpos.ne'
  by_cases hn : n = 0
  · refine ⟨max n₀ nt, h₀.trans (le_max_left _ _), fun m' hm' hx => ?_⟩
    obtain ⟨m, hm, hsame, hm'len⟩ := exists_left_of_forall₂ hgrown hm'
    have hb := h.steady.laid.blockSize_pos m hm
    have hx' : m.spec ≠ .crossAttention := hsame.spec ▸ hx
    have hself : m'.slotLength (max n₀ nt) = m.slotLength (max n₀ nt) := by
      rw [SingleTypeManager.slotLength, SingleTypeManager.slotLength, hsame.paddedTokens, hsame.blockSize]
    rw [hm'len, hlevel m hm hx', hn, groupTokens, if_neg hx', hself, ← hshape m]
    rcases le_total n₀ nt with hle | hle
    · have hmono := slotLength_mono hb h₀ hle
      rw [max_eq_right hle]
      omega
    · have hmono := slotLength_mono hb hpos.le hle
      rw [max_eq_left hle]
      omega
  · obtain ⟨-, hfits⟩ := h.steady.laid.hit_lt hn hoff hlt
    refine ⟨nt, hpos.le, fun m' hm' hx => ?_⟩
    obtain ⟨m, hm, hsame, hm'len⟩ := exists_left_of_forall₂ hgrown hm'
    have hx' : m.spec ≠ .crossAttention := hsame.spec ▸ hx
    have hnil : m.table r.requestId = [] := ((hu.resolve_left hn) m hm).1
    have hle := hfits m hm
    rw [hm'len, hnil, groupTokens, if_neg hx', hshape m', hsame.paddedTokens, hsame.blockSize]
    simp only [List.length_nil, Nat.cast_zero]
    omega

/-- A sized call that does not raise keeps the lengths level. -/
lemma Roomy.call {c : Call} (h : s.Roomy H) (inj : H.Injective) (hissued : Issued H s c) (hsized : s.Sized c)
    (hok : s.call H c = .ok s') : s'.Roomy H ∧ SameShape s s' := by
  obtain ⟨hsteady, hshape⟩ := h.steady.call inj hissued hok
  have hapart : s'.blockPool.enableCaching = true → ∀ m ∈ s'.managers, m.spec ≠ .crossAttention := by
    intro hc m' hm'
    obtain ⟨m, hm, hsame⟩ := exists_left_of_forall₂ hshape.groups hm'
    rw [hsame.spec]
    exact h.apart (hshape.pool.enableCaching ▸ hc) m hm
  refine ⟨⟨hsteady, fun x => ?_, hapart⟩, hshape⟩
  cases c with
  | getComputedBlocks r =>
    rw [KVCacheManager.call] at hok
    cases hg : s.getComputedBlocks H r with
    | error e =>
      rw [hg] at hok
      cases hok
    | ok e =>
      rw [hg] at hok
      cases hok
      exact h.level x
  | allocateSlots r numNew numNewComputed cols lookahead delay enc =>
    rw [KVCacheManager.call] at hok
    cases ha : s.allocateSlots H r numNew numNewComputed cols lookahead delay enc with
    | error e =>
      rw [ha] at hok
      cases hok
    | ok e =>
      obtain ⟨t, new⟩ := e
      rw [ha] at hok
      cases hok
      obtain ⟨n, hn, hoff, hu, hcols⟩ := h.steady.laid.passed hissued.2
      have hst := (stages_of_ok ha).2
      by_cases hx : x = r.requestId
      · obtain ⟨hpos, hlt⟩ := slotTokens_bounds hsized
        rw [hx]
        exact h.level_allocate inj hcols hoff hu hpos (hn ▸ hlt) hst
      · exact (h.steady.sound.allocateSlots inj hcols hst).2.1.level hx (h.level x)
  | cacheBlocks r numComputed =>
    obtain ⟨-, hk, hcase⟩ := h.steady.sound.cacheBlocks hok
    rcases hcase with ⟨-, rfl⟩ | ⟨-, hc⟩
    · exact h.level x
    · exact (h.level x).congr (forall₂_and hk.shape.groups (hc.imp fun _ _ hc => by rw [hc.table x]))
  | getNumCommonPrefixBlocks rid =>
    cases hok
    refine (h.level x).congr (forall₂_and hshape.groups ?_)
    unfold KVCacheManager.getNumCommonPrefixBlocks
    split
    · dsimp only
      rw [List.map_map]
      refine List.forall₂_map_right_iff.2 (List.forall₂_same.2 fun m _ => ?_)
      show ((m.getNumCommonPrefixBlocks s.blockPool rid).1.table x).length = _
      rcases fst_getNumCommonPrefixBlocks m s.blockPool rid with he | he
      · rw [he]
      · rw [he, table_withEntry]
    · exact List.forall₂_same.2 fun _ _ => rfl
  | free rid =>
    obtain ⟨-, -, hms⟩ := h.steady.sound.free hok
    by_cases hx : x = rid
    · refine ⟨0, le_rfl, fun m' hm' _ => ?_⟩
      rw [hms] at hm'
      obtain ⟨m, -, rfl⟩ := List.mem_map.1 hm'
      rw [table_dropTable, if_pos hx, SingleTypeManager.slotLength, if_pos rfl]
      rfl
    · refine (h.level x).congr ?_
      rw [hms]
      refine List.forall₂_map_right_iff.2 (List.forall₂_same.2 fun m _ => ⟨⟨rfl, rfl, rfl⟩, ?_⟩)
      rw [table_dropTable, if_neg hx]
  | resetPrefixCache =>
    cases hok
    exact h.level x

/-- A new manager. -/
lemma Roomy.init {maxModelLen numGpuBlocks : Nat} {useEagle enableCaching : Bool} {groups : List (AttentionSpec × Nat)}
    (hpos : 0 < numGpuBlocks)
    (hlaid : (KVCacheManager.init maxModelLen useEagle numGpuBlocks enableCaching groups : KVCacheManager η).Laid H)
    (hoff : enableCaching = true → ∀ g ∈ groups, g.1 ≠ .crossAttention) :
    (KVCacheManager.init maxModelLen useEagle numGpuBlocks enableCaching groups : KVCacheManager η).Roomy H := by
  refine ⟨.init hpos hlaid, fun rid => ⟨0, le_rfl, fun m hm _ => ?_⟩, fun hc m hm => ?_⟩
  · obtain ⟨i, hi, rfl⟩ := List.mem_mapIdx.1 hm
    rfl
  · obtain ⟨i, hi, rfl⟩ := List.mem_mapIdx.1 hm
    exact hoff hc _ (List.getElem_mem hi)

/-- A run of issued and sized calls that does not raise. -/
lemma Roomy.run {s₀ : KVCacheManager η} (h : s₀.Roomy H) (inj : H.Injective) {calls : List Call} {o : List Unit}
    (run : (kvMachine H s₀).Runs calls o (.ok s)) (issued : (kvMachine H s₀).Along (OnManager (Issued H)) calls)
    (sized : (kvMachine H s₀).Along (OnManager Sized) calls) : s.Roomy H ∧ SameShape s₀ s := by
  generalize ht : (Except.ok s : Except Unit (KVCacheManager η)) = t at run
  induction run generalizing s with
  | init =>
    cases ht
    exact ⟨h, .refl _⟩
  | @step calls o t c run _ ih =>
    obtain ⟨issued, hi⟩ := run.along_concat_iff.1 issued
    obtain ⟨sized, hz⟩ := run.along_concat_iff.1 sized
    cases t with
    | error e => cases ht
    | ok t =>
      obtain ⟨h', hs⟩ := ih issued sized rfl
      obtain ⟨h'', hs'⟩ := h'.call inj hi hz ht.symm
      exact ⟨h'', hs.trans hs'⟩

/-- All groups get their hits and their blocks. -/
def Served (s : KVCacheManager η) (rid : ReqId) (numTokens : Int) (cols : List (List Nat)) (enc : Nat) : Prop :=
  ∃ taken e, (s.withEntries rid).takeComputedBlocks rid cols = .ok taken ∧ taken.allocateNewBlocks rid numTokens enc = .ok e

/-- There are free blocks for all groups, if none gives the others what it has too many of. -/
def RoomForAll (s : KVCacheManager η) (rid : ReqId) (numTokens : Int) (cols : List (List Nat)) (enc : Nat) : Prop :=
  ((s.needs rid numTokens cols enc).map (max 0)).sum ≤ s.blockPool.getNumFreeBlocks

/-- Without a hit the groups are served exactly if there is room for all of them. -/
lemma SoundAt.served_iff {cols : List (List Nat)} (h : s.SoundAt H) (hlen : s.managers.length = cols.length)
    (hempty : ∀ col ∈ cols, col = []) (rid : ReqId) (numTokens : Int) (enc : Nat) :
    s.Served rid numTokens cols enc ↔ s.RoomForAll rid numTokens cols enc := by
  obtain ⟨h', hk⟩ := h.withEntries rid
  have hall : cols.all List.isEmpty = true := List.all_eq_true.2 fun col hc => by rw [hempty col hc]; rfl
  have htake : (s.withEntries rid).takeComputedBlocks rid cols = .ok (s.withEntries rid) := if_pos hall
  have hfree : s.blockPool.getNumFreeBlocks = s.blockPool.freeBlockQueue.length := h.books.numFree
  have hlist : (s.withEntries rid).managers.map (fun m => m.numNewBlocks rid (groupTokens numTokens enc m)) =
      s.managers.map fun m => m.numNewBlocks rid (groupTokens numTokens enc m) := by
    show (s.managers.map fun m => m.withEntry rid).map _ = _
    rw [List.map_map]
    refine List.map_congr_left fun m _ => ?_
    have hg := m.sameGroup_withEntry rid
    show (m.withEntry rid).numNewBlocks rid (groupTokens numTokens enc (m.withEntry rid)) = _
    unfold SingleTypeManager.numNewBlocks groupTokens
    rw [table_withEntry, hg.paddedTokens, hg.blockSize, hg.spec]
  have hserved : s.Served rid numTokens cols enc ↔ ∃ e, (s.withEntries rid).allocateNewBlocks rid numTokens enc = .ok e := by
    constructor
    · rintro ⟨taken, e, ht, he⟩
      rw [htake] at ht
      cases ht
      exact ⟨e, he⟩
    · rintro ⟨e, he⟩
      exact ⟨_, e, htake, he⟩
  rw [hserved, h'.allocate_iff, hlist, RoomForAll, needs_of_empty hlen hempty, ← sum_numNewBlocks, hfree]
  exact Int.ofNat_le.symm

/-- With a hit all groups are served if the check passes. -/
lemma Roomy.served_of_hit {n : Nat} {cols : List (List Nat)} {numTokens : Int} {enc : Nat} (h : s.Roomy H)
    (inj : H.Injective) (hcols : s.HitFor H r n cols) (hn : n ≠ 0) (hoff : s.blockPool.enableCaching = false → n = 0)
    (hu : s.Unknown rid) (hlt : ((n * H.blockSize : Nat) : Int) < numTokens)
    (hcheck : s.getNumBlocksToAllocate rid numTokens cols enc ≤ s.blockPool.getNumFreeBlocks) :
    s.Served rid numTokens cols enc ∧ s.RoomForAll rid numTokens cols enc := by
  obtain ⟨hc, hfits⟩ := h.steady.laid.hit_lt hn hoff hlt
  have hx := h.apart hc
  have hsound := h.steady.sound
  have hfree : s.blockPool.getNumFreeBlocks = s.blockPool.freeBlockQueue.length := hsound.books.numFree
  constructor
  · -- the manager after the tables were read
    obtain ⟨h', hk⟩ := hsound.withEntries rid
    have hx' : ∀ m ∈ (s.withEntries rid).managers, m.spec ≠ .crossAttention := by
      intro m' hm'
      obtain ⟨m, hm, hmm⟩ := exists_left_of_forall₂ hk.groups hm'
      exact hmm.group.spec ▸ hx m hm
    have hu' : (s.withEntries rid).Unknown rid := by
      intro m' hm'
      obtain ⟨m, hm, rfl⟩ := List.mem_map.1 hm'
      rw [table_withEntry, numCachedBlock_withEntry]
      exact hu m hm
    have hcols' := hcols.skipped hk rfl
    obtain ⟨taken, ht, hT, hroom⟩ := h'.takeHit hc hcols' hu' hx'
    have hsum : (s.withEntries rid).getNumBlocksToAllocate rid numTokens cols enc = _ :=
      sum_toAllocate enc hcols'.length_eq hx' hT
    rw [getNumBlocksToAllocate_withEntries] at hsum
    have hsound' := (h'.takeComputedBlocks inj hcols' ht).1
    have hcount : (((taken.managers.map fun m => m.numNewBlocks rid (groupTokens numTokens enc m)).sum : Nat) : Int) =
        (taken.managers.map fun m => cdiv (m.paddedTokens numTokens) m.blockSize - (m.table rid).length).sum := by
      have hzip : List.Forall₂ (fun m m' => SameGroup m m' ∧ SingleTypeManager.table m' rid = m.table rid ++
          SingleTypeManager.table m' rid ∧ ((SingleTypeManager.table m' rid).length = n) ∧ m.spec ≠ .crossAttention)
          (s.withEntries rid).managers taken.managers := by
        have hnil : List.Forall₂ (fun m m' => SameGroup m m' ∧ ∃ col : List Nat, col.length = n ∧
            SingleTypeManager.table m' rid = m.table rid ++ col) (s.withEntries rid).managers taken.managers :=
          forall₂_zip_left hcols' hT fun m col m' hcol htk => ⟨htk.group, col, hcol.1, htk.table⟩
        refine forall₂_imp_of_mem hnil fun m hm m' hmm => ?_
        obtain ⟨hg, col, hlen, htab⟩ := hmm
        have hz := (hu' m hm).1
        rw [hz, List.nil_append] at htab
        exact ⟨hg, by rw [hz, List.nil_append], by rw [htab, hlen], hx' m hm⟩
      rw [sum_numNewBlocks]
      congr 1
      rw [List.map_map]
      refine List.map_congr_left fun m' hm' => ?_
      obtain ⟨m, hm, hg, -, hlen, hxm⟩ := exists_left_of_forall₂ hzip hm'
      obtain ⟨m₀, hm₀, hg₀⟩ := exists_left_of_forall₂ hk.groups hm
      have hle := hfits m₀ hm₀
      rw [← hg₀.group.paddedTokens, ← hg₀.group.blockSize, ← hg.paddedTokens, ← hg.blockSize] at hle
      show max 0 (cdiv (m'.paddedTokens (groupTokens numTokens enc m')) m'.blockSize - (m'.table rid).length) = _
      rw [groupTokens, if_neg (hg.spec ▸ hxm), hlen]
      omega
    have hok := (hsound'.allocate_iff rid numTokens enc).2 (by
      have hpool : (s.withEntries rid).blockPool = s.blockPool := rfl
      rw [hpool] at hroom hsum
      omega)
    obtain ⟨e, he⟩ := hok
    exact ⟨taken, e, ht, he⟩
  · -- no group has more than it needs
    rw [getNumBlocksToAllocate_eq] at hcheck
    unfold RoomForAll
    have hneeds : ∀ x ∈ s.needs rid numTokens cols enc, 0 ≤ x := by
      intro x hmem
      obtain ⟨⟨m, col⟩, he, rfl⟩ := List.mem_map.1 hmem
      have hm := (List.of_mem_zip he).1
      have hcol := (List.forall₂_iff_zip.1 hcols).2 he
      have hle := hfits m hm
      dsimp only
      rw [if_neg (hx m hm), SingleTypeManager.getNumBlocksToAllocate, (hu m hm).1, hcol.1, List.length_nil, Nat.cast_zero]
      omega
    rcases sum_max_zero (.inl hneeds) with he | he
    · rw [he]
      exact hcheck
    · rw [he, hfree]
      exact Int.natCast_nonneg _

omit [DecidableEq η] in
/-- Level tables need blocks in all groups or in none, so the check is enough. -/
lemma Level.roomForAll {cols : List (List Nat)} {numTokens : Int} {enc : Nat} (h : s.Level rid)
    (hb : ∀ m ∈ s.managers, 0 < m.blockSize) (hx : ∀ m ∈ s.managers, m.spec ≠ .crossAttention) (hpos : 0 < numTokens)
    (hlen : s.managers.length = cols.length) (hempty : ∀ col ∈ cols, col = [])
    (hfree : 0 ≤ s.blockPool.getNumFreeBlocks)
    (hcheck : s.getNumBlocksToAllocate rid numTokens cols enc ≤ s.blockPool.getNumFreeBlocks) :
    s.RoomForAll rid numTokens cols enc := by
  obtain ⟨n, h0, hn⟩ := h
  rw [getNumBlocksToAllocate_eq, needs_of_empty hlen hempty] at hcheck
  unfold RoomForAll
  rw [needs_of_empty hlen hempty]
  have hneed : ∀ m ∈ s.managers, cdiv (m.paddedTokens (groupTokens numTokens enc m)) m.blockSize - (m.table rid).length =
      m.slotLength numTokens - m.slotLength n := by
    intro m hm
    have hslot : m.slotLength numTokens = cdiv (m.paddedTokens numTokens) m.blockSize := if_neg hpos.ne'
    rw [hn m hm (hx m hm), groupTokens, if_neg (hx m hm), hslot]
  have hsign : (∀ x ∈ s.managers.map fun m =>
      cdiv (m.paddedTokens (groupTokens numTokens enc m)) m.blockSize - (m.table rid).length, 0 ≤ x) ∨
      ∀ x ∈ s.managers.map fun m =>
        cdiv (m.paddedTokens (groupTokens numTokens enc m)) m.blockSize - (m.table rid).length, x ≤ 0 := by
    rcases le_total n numTokens with hle | hle
    · left
      intro x hmem
      obtain ⟨m, hm, rfl⟩ := List.mem_map.1 hmem
      rw [hneed m hm]
      have hmono := slotLength_mono (hb m hm) h0 hle
      omega
    · right
      intro x hmem
      obtain ⟨m, hm, rfl⟩ := List.mem_map.1 hmem
      rw [hneed m hm]
      have hmono := slotLength_mono (hb m hm) hpos.le hle
      omega
  rcases sum_max_zero hsign with he | he
  · rw [he]
    exact hcheck
  · rw [he]
    exact hfree

end KVCacheManager

/-- In every run of issued and sized calls: when the check of a call passes, the groups are served exactly if there is
room for all of them, and without cross attention there always is. -/
theorem served_iff_of_run {H : Hasher η} (inj : H.Injective) {maxModelLen numGpuBlocks : Nat}
    {useEagle enableCaching : Bool} {groups : List (AttentionSpec × Nat)} (hpos : 0 < numGpuBlocks)
    (hlaid : (KVCacheManager.init maxModelLen useEagle numGpuBlocks enableCaching groups : KVCacheManager η).Laid H)
    (hoff : enableCaching = true → ∀ g ∈ groups, g.1 ≠ .crossAttention)
    {calls : List Call} {o : List Unit} {s skipped : KVCacheManager η}
    (run : (kvMachine H (.init maxModelLen useEagle numGpuBlocks enableCaching groups)).Runs calls o (.ok s))
    (issued : (kvMachine H (.init maxModelLen useEagle numGpuBlocks enableCaching groups)).Along
      (OnManager (KVCacheManager.Issued H)) calls)
    (sized : (kvMachine H (.init maxModelLen useEagle numGpuBlocks enableCaching groups)).Along
      (OnManager KVCacheManager.Sized) calls)
    {r : Request} {numNew : Int} {numNewComputed lookahead enc : Nat} {cols : List (List Nat)} {delay : Bool}
    (hissued : Issued H s (.allocateSlots r numNew numNewComputed cols lookahead delay enc))
    (hsized : s.Sized (.allocateSlots r numNew numNewComputed cols lookahead delay enc))
    (hskipped : s.removeSkippedBlocks r.requestId r.numComputedTokens = .ok skipped)
    (hcheck : skipped.getNumBlocksToAllocate r.requestId (s.slotTokens r numNew numNewComputed lookahead) cols enc ≤
      skipped.blockPool.getNumFreeBlocks) :
    (skipped.Served r.requestId (s.slotTokens r numNew numNewComputed lookahead) cols enc ↔
      skipped.RoomForAll r.requestId (s.slotTokens r numNew numNewComputed lookahead) cols enc) ∧
    ((∀ g ∈ groups, g.1 ≠ .crossAttention) →
      skipped.RoomForAll r.requestId (s.slotTokens r numNew numNewComputed lookahead) cols enc) := by
  obtain ⟨h, hshape⟩ := (Roomy.init hpos hlaid hoff).run inj run issued sized
  obtain ⟨n, hn, hcaching, hu, hcols⟩ := h.steady.laid.passed hissued.2
  obtain ⟨hpos', hlt⟩ := slotTokens_bounds hsized
  -- the manager without the skipped blocks
  obtain ⟨h₁, hk₁, hlen₁, hcache⟩ := h.steady.sound.removeSkippedBlocks hskipped
  have hcols₁ := hcols.skipped hk₁ hcache
  have hx₁ : (∀ m ∈ s.managers, m.spec ≠ .crossAttention) → ∀ m ∈ skipped.managers, m.spec ≠ .crossAttention := by
    intro hx m' hm'
    obtain ⟨m, hm, hmm⟩ := exists_left_of_forall₂ hk₁.groups hm'
    exact hmm.group.spec ▸ hx m hm
  have hgroups : (∀ g ∈ groups, g.1 ≠ .crossAttention) → ∀ m ∈ s.managers, m.spec ≠ .crossAttention := by
    intro hg m' hm'
    obtain ⟨m, hm, hmm⟩ := exists_left_of_forall₂ hshape.groups hm'
    obtain ⟨i, hi, rfl⟩ := List.mem_mapIdx.1 hm
    rw [hmm.spec]
    exact hg _ (List.getElem_mem hi)
  by_cases hz : n = 0
  · have hempty : ∀ col ∈ cols, col = [] := by
      intro col hc
      obtain ⟨m, -, hcol⟩ := exists_left_of_forall₂ hcols₁ hc
      exact List.length_eq_zero_iff.1 (hcol.1.trans hz)
    refine ⟨h₁.served_iff hcols₁.length_eq hempty _ _ _, fun hg => ?_⟩
    have hlevel : skipped.Level r.requestId :=
      (h.level r.requestId).congr (hlen₁.imp fun _ _ hm => ⟨hm.group, hm.length⟩)
    have hfree : skipped.blockPool.getNumFreeBlocks = skipped.blockPool.freeBlockQueue.length := h₁.books.numFree
    exact hlevel.roomForAll (h.steady.laid.congr hk₁.shape).blockSize_pos (hx₁ (hgroups hg)) hpos' hcols₁.length_eq hempty
      (by rw [hfree]; exact Int.natCast_nonneg _) hcheck
  · have hu₁ : skipped.Unknown r.requestId := by
      intro m' hm'
      obtain ⟨m, hm, hmm⟩ := exists_left_of_forall₂ hlen₁ hm'
      obtain ⟨htab, hnum⟩ := (hu.resolve_left hz) m hm
      have hlen := hmm.length
      rw [htab] at hlen
      exact ⟨List.length_eq_zero_iff.1 hlen, hmm.numCachedBlock ▸ hnum⟩
    have hroomy : skipped.Roomy H := by
      have hlaid₁ := h.steady.laid.congr hk₁.shape
      refine ⟨⟨hlaid₁, h₁, hk₁.entered h.steady.entered (.inr ?_)⟩, fun x => ?_, fun hc => ?_⟩
      · refine forall₂_imp_of_mem hlen₁ fun m hm m' hmm => ?_
        have htab := ((hu.resolve_left hz) m hm).1
        have hlen := hmm.length
        rw [htab] at hlen
        rw [htab, List.length_eq_zero_iff.1 hlen]
      · by_cases hx : x = r.requestId
        · rw [hx]
          exact (h.level r.requestId).congr (hlen₁.imp fun _ _ hm => ⟨hm.group, hm.length⟩)
        · exact hk₁.level hx (h.level x)
      · exact hx₁ (h.apart (hk₁.shape.pool.enableCaching ▸ hc))
    obtain ⟨hserved, hroom⟩ := hroomy.served_of_hit inj hcols₁ hz
      (fun hc => hcaching (hk₁.shape.pool.enableCaching ▸ hc)) hu₁ (hn ▸ hlt) hcheck
    exact ⟨iff_of_true hserved hroom, fun _ => hroom⟩

/-- A prompt and then one more token, with full attention and Mamba. -/
theorem served_of_run_mamba :
    let H := Hasher.chain 2
    let M := kvMachine H (.init 100 false 8 false [(.full, 2), (.mamba 1, 2)])
    let r : Request := { requestId := ['a'], promptTokenIds := [1, 1] }
    let calls : List Call := [.allocateSlots r 2 0 [[], []] 0 false 0]
    ∃ s skipped, (M.exec calls).2 = .ok s ∧ s.removeSkippedBlocks ['a'] 2 = .ok skipped ∧
      skipped.Served ['a'] 3 [[], []] 0 := by
  intro H M r calls
  let r' : Request := { r with outputTokenIds := [3], numComputedTokens := 2 }
  have run : M.Runs calls (M.exec calls).1 (M.exec calls).2 := Machine.Runs.of_exec ⟨trivial, trivial⟩
  have hlaid : (KVCacheManager.init 100 false 8 false [(.full, 2), (.mamba 1, 2)] : KVCacheManager BlockChain).Laid H :=
    ⟨rfl, by decide, fun h => absurd h Bool.false_ne_true, fun h => absurd h Bool.false_ne_true⟩
  have hrun : ((M.exec calls).2.bind fun s => (s.removeSkippedBlocks ['a'] 2).map fun skipped =>
      (decide (Issued H s (.allocateSlots r' 1 0 [[], []] 0 false 0)), s.maxModelLen,
        skipped.getNumBlocksToAllocate ['a'] 3 [[], []] 0, skipped.blockPool.getNumFreeBlocks)) =
        .ok (true, 100, 2, 4) := by
    decide
  cases hs : (M.exec calls).2 with
  | error _ =>
    rw [hs] at hrun
    cases hrun
  | ok s =>
    rw [hs] at run hrun
    cases hsk : s.removeSkippedBlocks ['a'] 2 with
    | error _ =>
      rw [Except.bind, hsk] at hrun
      cases hrun
    | ok skipped =>
      rw [Except.bind, hsk] at hrun
      obtain ⟨hissued, hrest⟩ := Prod.mk.inj (Except.ok.inj hrun)
      obtain ⟨hmax, hrest⟩ := Prod.mk.inj hrest
      obtain ⟨hneed, hfree⟩ := Prod.mk.inj hrest
      have htokens : s.slotTokens r' 1 0 0 = 3 := by
        rw [slotTokens, hmax]
        rfl
      have hsized : s.Sized (.allocateSlots r' 1 0 [[], []] 0 false 0) := by
        refine ⟨by decide, by decide, ?_⟩
        rw [hmax]
        decide
      obtain ⟨hiff, hroom⟩ := served_iff_of_run (Hasher.injective_chain 2) (by decide) hlaid
        (fun h => absurd h Bool.false_ne_true) run (by decide) (by decide) (of_decide_eq_true hissued) hsized hsk (by rw [htokens, hneed, hfree]; decide)
      refine ⟨s, skipped, rfl, hsk, ?_⟩
      rw [htokens] at hiff hroom
      exact hiff.2 (hroom (by decide))

/-- Decoding with cross attention: the encoder tokens are passed in the first call only, so the blocks of cross
attention hide that the pool is empty, and `get_new_blocks` raises. -/
theorem cross_attention_not_served :
    let H := Hasher.chain 2
    let M := kvMachine H (.init 100 false 5 false [(.full, 2), (.crossAttention, 2)])
    let r : Request := { requestId := ['a'], promptTokenIds := [1, 1] }
    let calls : List Call := [.allocateSlots r 2 0 [[], []] 0 false 4,
      .allocateSlots { r with outputTokenIds := [3], numComputedTokens := 2 } 1 0 [[], []] 0 false 0,
      .allocateSlots { r with outputTokenIds := [3, 4], numComputedTokens := 3 } 1 0 [[], []] 0 false 0]
    let r' : Request := { r with outputTokenIds := [3, 4, 5], numComputedTokens := 4 }
    M.Along (OnManager (Issued H)) calls ∧ M.Along (OnManager Sized) calls ∧
      ∃ s skipped, (M.exec calls).2 = .ok s ∧ Issued H s (.allocateSlots r' 1 0 [[], []] 0 false 0) ∧
        s.Sized (.allocateSlots r' 1 0 [[], []] 0 false 0) ∧ s.removeSkippedBlocks ['a'] 4 = .ok skipped ∧
        skipped.getNumBlocksToAllocate ['a'] 5 [[], []] 0 ≤ skipped.blockPool.getNumFreeBlocks ∧
        ¬ skipped.Served ['a'] 5 [[], []] 0 := by
  intro H M r calls r'
  have hrun : ((M.exec calls).2.bind fun s => (s.removeSkippedBlocks ['a'] 4).bind fun skipped =>
      ((skipped.withEntries ['a']).takeComputedBlocks ['a'] [[], []]).map fun taken =>
        (decide (Issued H s (.allocateSlots r' 1 0 [[], []] 0 false 0)),
          decide (s.Sized (.allocateSlots r' 1 0 [[], []] 0 false 0)),
          decide (skipped.getNumBlocksToAllocate ['a'] 5 [[], []] 0 ≤ skipped.blockPool.getNumFreeBlocks),
          (taken.allocateNewBlocks ['a'] 5 0).toBool)) = .ok (true, true, true, false) := by
    decide
  refine ⟨by decide, by decide, ?_⟩
  cases hs : (M.exec calls).2 with
  | error _ =>
    rw [hs] at hrun
    cases hrun
  | ok s =>
    rw [hs] at hrun
    cases hsk : s.removeSkippedBlocks ['a'] 4 with
    | error _ =>
      rw [Except.bind, hsk] at hrun
      cases hrun
    | ok skipped =>
      rw [Except.bind, hsk] at hrun
      cases htk : (skipped.withEntries ['a']).takeComputedBlocks ['a'] [[], []] with
      | error _ =>
        rw [Except.bind, htk] at hrun
        cases hrun
      | ok taken =>
        rw [Except.bind, htk] at hrun
        obtain ⟨hissued, hrest⟩ := Prod.mk.inj (Except.ok.inj hrun)
        obtain ⟨hsized, hrest⟩ := Prod.mk.inj hrest
        obtain ⟨hcheck, hfails⟩ := Prod.mk.inj hrest
        refine ⟨s, skipped, rfl, of_decide_eq_true hissued, of_decide_eq_true hsized, hsk, of_decide_eq_true hcheck, ?_⟩
        rintro ⟨taken', e, htk', he⟩
        rw [htk] at htk'
        cases htk'
        rw [he] at hfails
        cases hfails

end Gambit.KV
