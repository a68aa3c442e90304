import Gambit.Offload.Ledger

/-!
# Offloading managers neither lose nor share blocks

Both managers keep the ledger, over any matched sequence of calls: no call raises, the entries and the
free blocks make up the backend, and nothing in use is evicted. ARC touches a block of T1 by popping
it first, and then raises if the block is not ready; its runs are those in which no such touch happens. The
managers are those without events (`enable_events` off).
-/

namespace Gambit.Offload
open Gambit.Lib

variable {η σ : Type} [DecidableEq η] {n : Nat} {loads stores hs : List η} {s : σ}

/-- A manager in a shape of its own, and its ledger. -/
structure Kept (M : OffloadingManager σ η) (Inv : σ → Prop) (n : Nat) (loads stores : List η) (s : σ) :
    Prop where
  inv : Inv s
  ledger : Ledger n (M.backend s) (M.live s) loads stores

/-- Slots read and write one entry. -/
structure Slots.Lawful (S : Slots σ η) (M : OffloadingManager σ η) (Inv : σ → Prop) : Prop where
  entry : ∀ {s h b}, Inv s → S.get? s h = some b → ∃ w, (M.live s).Perm ((h, b) :: w) ∧
    ∀ b', Inv (S.put s h b') ∧ M.backend (S.put s h b') = M.backend s ∧
      (M.live (S.put s h b')).Perm ((h, b') :: w)
  found : ∀ {s h}, Inv s → h ∈ (M.live s).map Prod.fst → ∃ b, S.get? s h = some b

namespace Slots
variable {S : Slots σ η} {M : OffloadingManager σ η} {Inv : σ → Prop}

omit [DecidableEq η] in
/-- A hash that was looked up has a block that is ready. -/
lemma ready_of_lookup (hits : S.lookup s hs = hs.length) {h : η} (hh : h ∈ hs) :
    ∃ b, S.get? s h = some b ∧ b.isReady = true := by
  have heq : hs.takeWhile (fun h => (S.get? s h).any BlockStatus.isReady) = hs :=
    (List.takeWhile_prefix _).eq_of_length hits
  have hany := List.mem_takeWhile_imp (heq.symm ▸ hh)
  simpa [Option.any_eq_true] using hany

/-- Preparing loads of ready blocks does not raise. -/
lemma Lawful.prepareLoad (L : S.Lawful M Inv) (hk : Kept M Inv n loads stores s)
    (hits : S.lookup s hs = hs.length) (fits : ∀ h ∈ hs, (loads ++ hs).count h < 2 ^ 31) :
    ∃ s' ids, S.prepareLoad s hs = .ok (s', ids) ∧ Kept M Inv n (loads ++ hs) stores s' := by
  have hsafe : ∀ h ∈ hs, h ∉ stores ∧ h ∈ (M.live s).map Prod.fst := by
    intro h hh
    obtain ⟨b, hb, hr⟩ := ready_of_lookup hits hh
    obtain ⟨w, hw, -⟩ := L.entry hk.inv hb
    have hm : (h, b) ∈ M.live s := hw.symm.subset List.mem_cons_self
    exact ⟨(hk.ledger.isReady hm).1 hr, List.mem_map_of_mem hm⟩
  suffices H : ∃ a, hs.foldlM S.prepareLoadOne (s, []) = .ok a ∧
      Kept M Inv n (loads ++ hs) stores a.1 ∧ ∀ h ∈ hs, h ∈ (M.live a.1).map Prod.fst by
    obtain ⟨⟨s', ids⟩, he, hk', -⟩ := H
    exact ⟨s', ids, he, hk'⟩
  refine foldlM_ok (fun done (a : σ × List Nat) => Kept M Inv n (loads ++ done) stores a.1 ∧
      ∀ h ∈ hs, h ∈ (M.live a.1).map Prod.fst) hs
    ⟨by rwa [List.append_nil], fun h hh => (hsafe h hh).2⟩ fun done x rest a hl ⟨hk, hlive⟩ => ?_
  have hx : x ∈ hs := by rw [hl]; simp
  obtain ⟨b, hb⟩ := L.found hk.inv (hlive x hx)
  obtain ⟨w, hw, hput⟩ := L.entry hk.inv hb
  have hm : (x, b) ∈ M.live a.1 := hw.symm.subset List.mem_cons_self
  have hready : b.isReady = true := (hk.ledger.isReady hm).2 (hsafe x hx).1
  obtain ⟨hinv, hbe, hperm⟩ := hput (b.setRefCnt (b.refCnt + 1))
  have hcount : (loads ++ (done ++ [x])).count x = (loads ++ done).count x + 1 := by
    simp only [List.count_append, List.count_singleton_self]
    omega
  have hfit : (loads ++ (done ++ [x])).count x < 2 ^ 31 := by
    refine lt_of_le_of_lt ?_ (fits x hx)
    rw [hl]
    simp only [List.count_append, List.count_cons_self, List.count_nil]
    omega
  have href : b.refCnt = (loads ++ done).count x := by
    have := hk.ledger.refCnt _ hm
    rwa [dueCount, if_neg (hsafe x hx).1] at this
  refine ⟨(S.put a.1 x (b.setRefCnt (b.refCnt + 1)), a.2 ++ [b.blockId]), ?_, ⟨hinv, ?_⟩, ?_⟩
  · simp only [prepareLoadOne, hb, hready, if_true]
  · rw [hbe]
    refine Ledger.perm ((hk.ledger.perm hw).write (b.blockId_setRefCnt _) (fun y hy => ?_) ?_ ?_ hfit)
      hperm.symm
    · simp [List.count_append, Ne.symm hy]
    · rw [dueCount, if_neg (hsafe x hx).1, BlockStatus.refCnt_setRefCnt] <;> omega
    · exact fun hst => absurd hst (hsafe x hx).1
  · intro h hh
    have hkeys : (M.live a.1).map Prod.fst ⊆ (M.live (S.put a.1 x (b.setRefCnt (b.refCnt + 1)))).map Prod.fst := by
      intro y hy
      exact (hperm.map Prod.fst).symm.subset ((hw.map Prod.fst).subset hy)
    exact hkeys (hlive h hh)

/-- Completing outstanding loads does not raise. -/
lemma Lawful.completeLoad (L : S.Lawful M Inv) (hk : Kept M Inv n loads stores s)
    (hsub : hs.Subperm loads) :
    ∃ s', S.completeLoad s hs = .ok s' ∧ Kept M Inv n (loads.diff hs) stores s' := by
  refine foldlM_ok (fun done t => Kept M Inv n (loads.diff done) stores t) hs hk
    fun done x rest t hl hk => ?_
  have hmem : x ∈ loads.diff done := by
    have hle : ∀ y, (done ++ x :: rest).count y ≤ loads.count y := fun y => hl ▸ hsub.count_le y
    have hperm : (done ++ loads.diff done).Perm loads :=
      List.subperm_append_diff_self_of_count_le fun y _ =>
        le_trans (by rw [List.count_append]; exact Nat.le_add_right _ _) (hle y)
    have hx := hle x
    rw [← hperm.count_eq x, List.count_append, List.count_append, List.count_cons_self] at hx
    exact List.count_pos_iff.1 (by omega)
  obtain ⟨b, hb⟩ := L.found hk.inv (hk.ledger.live x (.inl hmem))
  obtain ⟨w, hw, hput⟩ := L.entry hk.inv hb
  have hm : (x, b) ∈ M.live t := hw.symm.subset List.mem_cons_self
  have hst : x ∉ stores := fun hst => hk.ledger.apart x hst hmem
  have href : b.refCnt = (loads.diff done).count x := by
    have := hk.ledger.refCnt _ hm
    rwa [dueCount, if_neg hst] at this
  have hpos : 0 < (loads.diff done).count x := List.count_pos_iff.2 hmem
  have hfit := hk.ledger.fits x
  obtain ⟨hinv, hbe, hperm⟩ := hput (b.setRefCnt (b.refCnt - 1))
  have hdiff : loads.diff (done ++ [x]) = (loads.diff done).erase x := by
    rw [List.diff_append, List.diff_cons, List.diff_nil]
  refine ⟨S.put t x (b.setRefCnt (b.refCnt - 1)), ?_, hinv, ?_⟩
  · simp only [completeLoadOne, hb]
    rw [if_pos (by omega)]
  · rw [hbe, hdiff]
    refine Ledger.perm ((hk.ledger.perm hw).write (b.blockId_setRefCnt _) (fun y hy => ?_) ?_ ?_ ?_) hperm.symm
    · exact ⟨List.count_erase_of_ne hy, Iff.rfl⟩
    · rw [dueCount, if_neg hst, BlockStatus.refCnt_setRefCnt, List.count_erase_self] <;> omega
    · exact fun h => absurd h hst
    · rw [List.count_erase_self]
      omega

end Slots

namespace LRU

/-- The slots of LRU are the entries of its dictionary. -/
lemma slots_lawful : (slots (η := η)).Lawful manager fun _ => True where
  entry {s h b} _ hb := by
    refine ⟨(s.blocks.erase h).entries, Dict.perm_cons_erase hb, fun b' => ⟨trivial, rfl, ?_⟩⟩
    exact Dict.perm_set s.blocks h b'
  found {s h} _ hm := Dict.mem_iff_get?.1 hm

variable {s : LRU η}

/-- LRU with its ledger. -/
abbrev Held (n : Nat) (loads stores : List η) (s : LRU η) : Prop :=
  Kept manager (fun _ => True) n loads stores s

/-- A touch reorders. -/
lemma Held.touch (hk : Held n loads stores s) (hs : List η) :
    ∃ s', s.touch hs = .ok s' ∧ Held n loads stores s' := by
  refine foldlM_ok (fun _ t => Held n loads stores t) hs.reverse hk fun _ x _ t _ hk => ?_
  unfold touchOne
  cases hb : t.blocks.get? x with
  | none => exact ⟨t, rfl, hk⟩
  | some b =>
    have hmove : t.blocks.moveToEnd x = some ((t.blocks.erase x).set x b) := by
      rw [Dict.moveToEnd, hb, Option.map_some]
    rw [hmove]
    exact ⟨_, rfl, trivial, hk.ledger.perm (Dict.perm_moveToEnd hmove).symm⟩

/-- Evicting idle blocks frees one block each. -/
lemma Held.evictAll (hk : Held n loads stores s) {l : List η} (hnd : l.Nodup)
    (hidle : ∀ h ∈ l, ∃ b, s.blocks.get? h = some b ∧ b.refCnt = 0) :
    Held n loads stores (l.foldl evictOne s) ∧ (∀ h ∈ (l.foldl evictOne s).blocks, h ∈ s.blocks) ∧
      (l.foldl evictOne s).blocks.entries.length + l.length = s.blocks.entries.length := by
  induction l generalizing s with
  | nil => exact ⟨hk, fun _ => id, rfl⟩
  | cons x l ih =>
    obtain ⟨hx, hnd⟩ := List.nodup_cons.1 hnd
    obtain ⟨b, hb, h0⟩ := hidle x List.mem_cons_self
    have hperm := Dict.perm_cons_erase hb
    have heq : s.evictOne x = { s with backend := s.backend.free b, blocks := s.blocks.erase x } := by
      rw [evictOne, hb]
    rw [List.foldl_cons, heq]
    obtain ⟨hk', hsub, hlen⟩ := ih (s := { s with backend := s.backend.free b, blocks := s.blocks.erase x })
      ⟨trivial, (hk.ledger.perm hperm).evict h0⟩ hnd fun h hh => by
        obtain ⟨b', hb', h0'⟩ := hidle h (List.mem_cons_of_mem _ hh)
        refine ⟨b', ?_, h0'⟩
        rw [Dict.get?_erase, if_neg (ne_of_mem_of_not_mem hh hx)]
        exact hb'
    refine ⟨hk', fun h hh => (Dict.mem_erase.1 (hsub h hh)).2, ?_⟩
    rw [List.length_cons, hperm.length_eq, List.length_cons, ← hlen]
    omega

/-- Preparing a store does not raise, and evicts only idle blocks. -/
lemma Held.prepareStore (hk : Held n loads stores s) (hnd : hs.Nodup) :
    ∃ s' out, s.prepareStore hs = .ok (s', out) ∧
      (out = none → Held n loads stores s') ∧
      ∀ o, out = some o → Held n loads (stores ++ o.blockHashesToStore) s' ∧
        ∀ h ∈ o.blockHashesEvicted, h ∉ loads ∧ h ∉ stores := by
  unfold LRU.prepareStore
  dsimp only
  generalize hto : hs.filter (· ∉ s.blocks) = toStore
  have hfree := hk.ledger.count
  cases hv : s.victims ((toStore.length : Int) - s.backend.getNumFreeBlocks).toNat with
  | none => exact ⟨s, none, rfl, fun _ => hk, nofun⟩
  | some toEvict =>
    unfold victims at hv
    dsimp only at hv
    split at hv
    · cases hv
    next henough =>
    cases hv
    generalize hl : ((s.blocks.entries.filter fun e => e.2.refCnt = 0).map Prod.fst).take
      ((toStore.length : Int) - s.backend.getNumFreeBlocks).toNat = toEvict
    have hlen : toEvict.length = ((toStore.length : Int) - s.backend.getNumFreeBlocks).toNat := by
      rw [← hl, List.length_take]
      omega
    have hidle : ∀ h ∈ toEvict, ∃ b, s.blocks.get? h = some b ∧ b.refCnt = 0 := by
      intro h hh
      rw [← hl] at hh
      obtain ⟨⟨x, b⟩, he, rfl⟩ := List.mem_map.1 (List.mem_of_mem_take hh)
      obtain ⟨hm, h0⟩ := List.mem_filter.1 he
      exact ⟨b, Dict.get?_eq_some.2 hm, of_decide_eq_true h0⟩
    have hnde : toEvict.Nodup := by
      rw [← hl]
      exact (s.blocks.nodup.sublist (List.filter_sublist.map _)).sublist (List.take_sublist _ _)
    obtain ⟨hk', hsub, hlen'⟩ := hk.evictAll hnde hidle
    have hfree' := hk'.ledger.count
    have hroom : (toStore.length : Int) ≤ (toEvict.foldl evictOne s).backend.getNumFreeBlocks := by
      simp only [manager] at hfree hfree'
      omega
    obtain ⟨be', ids, hal, hids, hsize, halloc, hperm⟩ := hk'.ledger.allocateBlocks hroom
    have hal' : (toEvict.foldl evictOne s).backend.allocateBlocks toStore.length =
      some (be', ids.map .new) := hal
    dsimp only
    rw [hal']
    refine ⟨_, _, rfl, nofun, fun o ho => ?_⟩
    cases ho
    have hnew : ∀ h ∈ toStore, h ∉ (toEvict.foldl evictOne s).blocks := by
      intro h hh hm
      rw [← hto, List.mem_filter] at hh
      exact of_decide_eq_true hh.2 (hsub h hm)
    have hndt : toStore.Nodup := hto ▸ hnd.filter _
    refine ⟨⟨trivial, ?_⟩, fun h hh => ?_⟩
    · have hent : (insertAll (toEvict.foldl evictOne s).blocks
          (toStore.zip (ids.map .new))).entries =
          (toEvict.foldl evictOne s).blocks.entries ++ toStore.zip (ids.map .new) := by
        have hfst : (toStore.zip (ids.map BlockStatus.new)).map Prod.fst = toStore :=
          List.map_fst_zip (by rw [List.length_map, hids])
        refine Dict.entries_foldl_set (by rw [hfst]; exact hndt) fun e he => ?_
        exact hnew e.1 (hfst ▸ List.mem_map_of_mem he)
      simp only [manager, hent]
      exact hk'.ledger.store hids hsize halloc hperm hndt hnew
    · obtain ⟨b, hb, h0⟩ := hidle h hh
      exact hk.ledger.idle (Dict.get?_eq_some.1 hb) h0

/-- Completing outstanding stores does not raise. -/
lemma Held.completeStore (hk : Held n loads stores s) (success : Bool) (hnd : hs.Nodup)
    (hst : ∀ h ∈ hs, h ∈ stores) :
    ∃ s', s.completeStore hs success = .ok s' ∧ Held n loads (stores.filter (· ∉ hs)) s' := by
  suffices H : ∃ a, hs.foldlM (completeStoreOne success) (s, []) = .ok a ∧
      Held n loads (stores.filter (· ∉ hs)) a.1 by
    obtain ⟨⟨t, stored⟩, he, hk'⟩ := H
    refine ⟨{ t with events := appendEvent t.events stored false }, ?_, hk'.inv, hk'.ledger⟩
    unfold LRU.completeStore
    rw [he]
    rfl
  refine foldlM_ok (fun done (a : LRU η × List η) => Held n loads (stores.filter (· ∉ done)) a.1) hs
    (by simpa using hk) fun done x rest a hl hk => ?_
  have hx : x ∈ stores.filter (· ∉ done) := by
    have hdone : x ∉ done := fun hd => (List.nodup_append.1 (hl ▸ hnd)).2.2 x hd x List.mem_cons_self rfl
    simp [hst x (by rw [hl]; simp), hdone]
  have hfilter : stores.filter (· ∉ done ++ [x]) = (stores.filter (· ∉ done)).filter (· ≠ x) := by
    rw [List.filter_filter]
    exact List.filter_congr fun y _ => by simp [and_comm]
  obtain ⟨b, hb⟩ := Dict.mem_iff_get?.1 (hk.ledger.live x (.inr hx))
  have hperm := Dict.perm_cons_erase hb
  have hready : ¬ b.isReady = true := fun hr =>
    (hk.ledger.isReady (Dict.get?_eq_some.1 hb)).1 hr hx
  rw [hfilter]
  simp only [completeStoreOne, hb, if_neg hready]
  cases success with
  | true => exact ⟨_, rfl, trivial, ((hk.ledger.perm hperm).stored hx).perm (Dict.perm_set _ _ _).symm⟩
  | false => exact ⟨_, rfl, trivial, (hk.ledger.perm hperm).dropped hx⟩

end LRU

namespace ARC

/-- The four lists of ARC are disjoint and its target is in range. -/
structure Shaped (n : Nat) (s : ARC η) : Prop where
  disjoint : ∀ h ∈ s.t1, h ∉ s.t2
  ghosts : ∀ h, h ∈ s.t1 ∨ h ∈ s.t2 → h ∉ s.b1 ∧ h ∉ s.b2
  ghostsDisjoint : ∀ h ∈ s.b1, h ∉ s.b2
  capacity : s.cacheCapacity = n
  target : 0 ≤ s.targetT1Size ∧ s.targetT1Size ≤ n

/-- ARC with its shape and its ledger. -/
abbrev Held (n : Nat) (loads stores : List η) (s : ARC η) : Prop :=
  Kept manager (Shaped n) n loads stores s

variable {s s' : ARC η} {h : η}

omit [DecidableEq η] in
/-- The events are nothing to the shape. -/
lemma Shaped.withEvents (hs : Shaped n s) (events : Option (List (OffloadingEvent η))) :
    Shaped n { s with events := events } :=
  ⟨hs.disjoint, hs.ghosts, hs.ghostsDisjoint, hs.capacity, hs.target⟩

lemma Held.withEvents (hk : Held n loads stores s) (events : Option (List (OffloadingEvent η))) :
    Held n loads stores { s with events := events } :=
  ⟨hk.inv.withEvents events, hk.ledger⟩

omit [DecidableEq η] in
/-- The shape depends on which hashes are in which list, the capacity and the target. -/
lemma Shaped.of_mem (hs : Shaped n s) (h1 : ∀ h ∈ s'.t1, h ∈ s.t1) (h2 : ∀ h ∈ s'.t2, h ∈ s.t2)
    (hb1 : ∀ h ∈ s'.b1, h ∈ s.b1) (hb2 : ∀ h ∈ s'.b2, h ∈ s.b2)
    (hc : s'.cacheCapacity = s.cacheCapacity) (ht : 0 ≤ s'.targetT1Size ∧ s'.targetT1Size ≤ n) :
    Shaped n s' where
  disjoint h hh hh' := hs.disjoint h (h1 h hh) (h2 h hh')
  ghosts h hh := by
    obtain ⟨g1, g2⟩ := hs.ghosts h (hh.imp (h1 h) (h2 h))
    exact ⟨fun hb => g1 (hb1 h hb), fun hb => g2 (hb2 h hb)⟩
  ghostsDisjoint h hh hh' := hs.ghostsDisjoint h (hb1 h hh) (hb2 h hh')
  capacity := hc.trans hs.capacity
  target := ht

/-- The slots of ARC are the entries of T1 and T2. -/
lemma slots_lawful : (slots (η := η)).Lawful manager (Shaped n) where
  entry {s h b} hinv hb := by
    by_cases hm : h ∈ s.t1
    · have h1 : s.t1.get? h = some b := by
        obtain ⟨b', hb'⟩ := Dict.mem_iff_get?.1 hm
        simpa [slots, ARC.get?, hb'] using hb
      refine ⟨(s.t1.erase h).entries ++ s.t2.entries, (Dict.perm_cons_erase h1).append_right _,
        fun b' => ?_⟩
      have hput : slots.put s h b' = { s with t1 := s.t1.set h b' } := if_pos hm
      rw [hput]
      refine ⟨hinv.of_mem (fun x hx => ?_) (fun _ => id) (fun _ => id) (fun _ => id) rfl hinv.target,
        rfl, (Dict.perm_set s.t1 h b').append_right _⟩
      exact (Dict.mem_set.1 hx).elim (fun he => he ▸ hm) id
    · have h2 : s.t2.get? h = some b := by
        simpa [slots, ARC.get?, Dict.get?_eq_none.2 hm] using hb
      refine ⟨s.t1.entries ++ (s.t2.erase h).entries,
        ((Dict.perm_cons_erase h2).append_left _).trans List.perm_middle, fun b' => ?_⟩
      have hput : slots.put s h b' = { s with t2 := s.t2.set h b' } := if_neg hm
      rw [hput]
      refine ⟨hinv.of_mem (fun _ => id) (fun x hx => ?_) (fun _ => id) (fun _ => id) rfl hinv.target,
        rfl, ((Dict.perm_set s.t2 h b').append_left _).trans List.perm_middle⟩
      exact (Dict.mem_set.1 hx).elim (fun he => he ▸ Dict.mem_of_get? h2) id
  found {s h} _ hm := by
    have hm' : h ∈ s.t1 ∨ h ∈ s.t2 := by
      simpa [manager, Dict.mem_def, Dict.keys] using hm
    rcases hm' with hm | hm
    · obtain ⟨b, hb⟩ := Dict.mem_iff_get?.1 hm
      exact ⟨b, by simp [slots, ARC.get?, hb]⟩
    · obtain ⟨b, hb⟩ := Dict.mem_iff_get?.1 hm
      cases h1 : s.t1.get? h with
      | none => exact ⟨b, by simp [slots, ARC.get?, h1, hb]⟩
      | some b' => exact ⟨b', by simp [slots, ARC.get?, h1]⟩

/-- Moving a ghost to the end keeps the ghosts. -/
lemma mem_moveToEnd {α β : Type} [DecidableEq α] {d d' : Dict α β} {k x : α}
    (h : d.moveToEnd k = some d') : x ∈ d' ↔ x ∈ d :=
  ((Dict.perm_moveToEnd h).map Prod.fst).mem_iff

/-- A touch that pops no block of T1 that is being stored does not raise. -/
lemma Held.touchOne (hk : Held n loads stores s)
    (hready : ∀ b, s.t1.get? h = some b → b.isReady = true) :
    ∃ s', s.touchOne h = .ok s' ∧ Held n loads stores s' ∧ ∀ x b, s'.t1.get? x = some b →
      s.t1.get? x = some b := by
  have hsh := hk.inv
  have hcap : (s.cacheCapacity : ℚ) = n := by rw [hsh.capacity, Int.cast_natCast]
  unfold ARC.touchOne
  cases h1 : s.t1.get? h with
  | some b =>
    dsimp only
    rw [if_pos (hready b h1)]
    have hm1 : h ∈ s.t1 := Dict.mem_of_get? h1
    have hn2 : h ∉ s.t2 := hsh.disjoint h hm1
    refine ⟨_, rfl, ⟨⟨fun x hx hx2 => ?_, fun x hx => hsh.ghosts x ?_, hsh.ghostsDisjoint, hsh.capacity,
      hsh.target⟩, hk.ledger.perm ?_⟩, fun x b' hx => ?_⟩
    · obtain ⟨hne, hx⟩ := Dict.mem_erase.1 hx
      exact hsh.disjoint x hx ((Dict.mem_set.1 hx2).resolve_left hne)
    · rcases hx with hx | hx
      · exact .inl (Dict.mem_erase.1 hx).2
      · rcases Dict.mem_set.1 hx with rfl | hx
        · exact .inl hm1
        · exact .inr hx
    · refine ((Dict.perm_cons_erase h1).append_right _).trans ?_
      simp only [manager]
      rw [Dict.entries_set_of_not_mem b hn2, ← List.append_assoc]
      exact (List.perm_append_singleton _ _).symm
    · rw [Dict.get?_erase] at hx
      split at hx
      · cases hx
      · exact hx
  | none =>
    dsimp only
    cases h2 : s.t2.moveToEnd h with
    | some t2 =>
      refine ⟨_, rfl, ⟨hsh.of_mem (fun _ => id) (fun x hx => (mem_moveToEnd h2).1 hx) (fun _ => id)
        (fun _ => id) rfl hsh.target, hk.ledger.perm ?_⟩, fun _ _ => id⟩
      exact (Dict.perm_moveToEnd h2).symm.append_left _
    | none =>
      dsimp only
      cases h3 : s.b1.moveToEnd h with
      | some b1 =>
        refine ⟨_, rfl, ⟨hsh.of_mem (fun _ => id) (fun _ => id) (fun x hx => (mem_moveToEnd h3).1 hx)
          (fun _ => id) rfl ⟨?_, ?_⟩, hk.ledger⟩, fun _ _ => id⟩
        · have := hsh.target.1
          have hone : (1 : ℚ) ≤ max 1 ((s.b2.size : ℚ) / s.b1.size) := le_max_left _ _
          refine le_min (by linarith) ?_
          rw [hcap]
          exact Nat.cast_nonneg n
        · exact (min_le_right _ _).trans_eq hcap
      | none =>
        dsimp only
        cases h4 : s.b2.moveToEnd h with
        | some b2 =>
          refine ⟨_, rfl, ⟨hsh.of_mem (fun _ => id) (fun _ => id) (fun _ => id)
            (fun x hx => (mem_moveToEnd h4).1 hx) rfl ⟨le_max_right _ _, ?_⟩, hk.ledger⟩, fun _ _ => id⟩
          have := hsh.target.2
          have hone : (1 : ℚ) ≤ max 1 ((s.b1.size : ℚ) / s.b2.size) := le_max_left _ _
          exact max_le (by linarith) (Nat.cast_nonneg n)
        | none => exact ⟨s, rfl, hk, fun _ _ => id⟩

/-- A touch that pops no block of T1 that is being stored does not raise. -/
lemma Held.touch (hk : Held n loads stores s)
    (hready : ∀ h ∈ hs, ∀ b, s.t1.get? h = some b → b.isReady = true) :
    ∃ s', s.touch hs = .ok s' ∧ Held n loads stores s' := by
  suffices H : ∃ s', s.touch hs = .ok s' ∧ Held n loads stores s' ∧
      ∀ x b, s'.t1.get? x = some b → s.t1.get? x = some b by
    obtain ⟨s', he, hk', -⟩ := H
    exact ⟨s', he, hk'⟩
  refine foldlM_ok (fun _ t => Held n loads stores t ∧
    ∀ x b, t.t1.get? x = some b → s.t1.get? x = some b) hs.reverse ⟨hk, fun _ _ => id⟩
    fun done x rest t hl ⟨hk, hsub⟩ => ?_
  have hx : x ∈ hs := by
    rw [← List.mem_reverse, hl]
    simp
  obtain ⟨t', he, hk', hsub'⟩ := hk.touchOne (h := x) fun b hb => hready x hx b (hsub x b hb)
  exact ⟨t', he, hk', fun y b hb => hsub y b (hsub' y b hb)⟩

/-- The oldest idle block of a list is an idle entry of it. -/
lemma oldestIdle_spec {t : Dict η BlockStatus} {b : BlockStatus} (h0 : oldestIdle t = some (h, b)) :
    t.get? h = some b ∧ b.refCnt = 0 :=
  ⟨Dict.get?_eq_some.2 (List.mem_of_find?_eq_some h0), by simpa using List.find?_some h0⟩

/-- One eviction takes one idle entry and frees its block. -/
lemma Held.evictOne (hk : Held n loads stores s) (he : s.evictOne = some (s', h)) :
    Held n loads stores s' ∧ (h ∉ loads ∧ h ∉ stores) ∧ (∀ x, x ∈ s'.t1 ∨ x ∈ s'.t2 → x ∈ s.t1 ∨ x ∈ s.t2) ∧
      (manager.live s').length + 1 = (manager.live s).length := by
  have hsh := hk.inv
  unfold ARC.evictOne at he
  dsimp only at he
  split at he
  · next x b _ hfrom =>
    split at hfrom
    · obtain ⟨hb, h0⟩ := oldestIdle_spec hfrom
      cases he
      have hperm := (Dict.perm_cons_erase hb).append_right s.t2.entries
      have hm1 : h ∈ s.t1 := Dict.mem_of_get? hb
      refine ⟨⟨⟨fun x hx => hsh.disjoint x (Dict.mem_erase.1 hx).2, fun x hx => ?_, fun x hx => ?_,
        hsh.capacity, hsh.target⟩, (hk.ledger.perm hperm).evict h0⟩,
        hk.ledger.idle (List.mem_append_left _ (Dict.get?_eq_some.1 hb)) h0,
        fun x hx => hx.imp_left fun hx => (Dict.mem_erase.1 hx).2, hperm.length_eq.symm⟩
      · have hne : x ≠ h := by
          rintro rfl
          exact hx.elim (fun hx => (Dict.mem_erase.1 hx).1 rfl) (hsh.disjoint x hm1)
        obtain ⟨g1, g2⟩ := hsh.ghosts x (hx.imp_left fun hx => (Dict.mem_erase.1 hx).2)
        exact ⟨fun hx => (Dict.mem_set.1 hx).elim hne g1, g2⟩
      · rcases Dict.mem_set.1 hx with rfl | hx
        · exact (hsh.ghosts x (.inl hm1)).2
        · exact hsh.ghostsDisjoint x hx
    · cases hfrom
  · next x b _ hfrom =>
    obtain ⟨hb, h0⟩ := oldestIdle_spec hfrom
    cases he
    have hperm := ((Dict.perm_cons_erase hb).append_left s.t1.entries).trans List.perm_middle
    have hm2 : h ∈ s.t2 := Dict.mem_of_get? hb
    refine ⟨⟨⟨fun x hx hx2 => hsh.disjoint x hx (Dict.mem_erase.1 hx2).2, fun x hx => ?_, fun x hx => ?_,
      hsh.capacity, hsh.target⟩, (hk.ledger.perm hperm).evict h0⟩,
      hk.ledger.idle (List.mem_append_right _ (Dict.get?_eq_some.1 hb)) h0,
      fun x hx => hx.imp_right fun hx => (Dict.mem_erase.1 hx).2, hperm.length_eq.symm⟩
    · have hne : x ≠ h := by
        rintro rfl
        exact hx.elim (fun hx => hsh.disjoint x hx hm2) fun hx => (Dict.mem_erase.1 hx).1 rfl
      obtain ⟨g1, g2⟩ := hsh.ghosts x (hx.imp_right fun hx => (Dict.mem_erase.1 hx).2)
      exact ⟨g1, fun hx => (Dict.mem_set.1 hx).elim hne g2⟩
    · intro hx2
      rcases Dict.mem_set.1 hx2 with rfl | hx2
      · exact (hsh.ghosts x (.inr hm2)).1 hx
      · exact hsh.ghostsDisjoint x hx hx2
  · cases he

/-- The eviction loop takes idle entries, and if it is enough, as many as asked for. -/
lemma Held.evict (hk : Held n loads stores s) {k : Nat} {l l' : List η} {enough : Bool}
    (he : ARC.evict k s l = (s', l', enough)) (hl : ∀ h ∈ l, h ∉ loads ∧ h ∉ stores) :
    Held n loads stores s' ∧ (∀ h ∈ l', h ∉ loads ∧ h ∉ stores) ∧
      (∀ x, x ∈ s'.t1 ∨ x ∈ s'.t2 → x ∈ s.t1 ∨ x ∈ s.t2) ∧
      (enough = true → (manager.live s').length + k = (manager.live s).length) := by
  induction k generalizing s l with
  | zero =>
    rw [ARC.evict] at he
    cases he
    exact ⟨hk, hl, fun _ => id, fun _ => rfl⟩
  | succ k ih =>
    rw [ARC.evict] at he
    split at he
    · cases he
      exact ⟨hk, hl, fun _ => id, nofun⟩
    · next t x hone =>
      obtain ⟨hk1, hidle, hsub, hlen⟩ := hk.evictOne hone
      obtain ⟨hk2, hl2, hsub2, hlen2⟩ := ih hk1 he fun h hh => by
        rcases List.mem_append.1 hh with hh | hh
        · exact hl h hh
        · rw [List.mem_singleton.1 hh]
          exact hidle
      refine ⟨hk2, hl2, fun x hx => hsub x (hsub2 x hx), fun henough => ?_⟩
      have := hlen2 henough
      omega

/-- Bounding the ghost lists drops ghosts. -/
lemma Held.boundGhosts (hk : Held n loads stores s) : Held n loads stores s.boundGhosts := by
  have hdrop : ∀ (d : Dict η Unit) (k : Nat) (x : η), x ∈ d.dropFirst k → x ∈ d :=
    fun d k x hx => (List.drop_sublist k d.entries).map Prod.fst |>.subset hx
  exact ⟨hk.inv.of_mem (fun _ => id) (fun _ => id) (hdrop _ _) (hdrop _ _) rfl hk.inv.target, hk.ledger⟩

/-- Inserting new hashes appends them to T1 and takes them off the ghost lists. -/
lemma foldl_insertOne {l : List (η × BlockStatus)} (hnd : (l.map Prod.fst).Nodup)
    (hnew : ∀ e ∈ l, e.1 ∉ s.t1 ∧ e.1 ∉ s.t2) (hsh : Shaped n s) :
    Shaped n (l.foldl insertOne s) ∧ (l.foldl insertOne s).t1.entries = s.t1.entries ++ l ∧
      (l.foldl insertOne s).t2 = s.t2 ∧ (l.foldl insertOne s).backend = s.backend := by
  induction l generalizing s with
  | nil => exact ⟨hsh, by simp, rfl, rfl⟩
  | cons e l ih =>
    obtain ⟨hne, hnd⟩ := List.nodup_cons.1 hnd
    obtain ⟨hn1, hn2⟩ := hnew e List.mem_cons_self
    have hsh' : Shaped n (s.insertOne e) := by
      refine ⟨fun x hx => ?_, fun x hx => ?_, fun x hx hx2 => ?_, hsh.capacity, hsh.target⟩
      · rcases Dict.mem_set.1 hx with rfl | hx
        · exact hn2
        · exact hsh.disjoint x hx
      · by_cases hxe : x = e.1
        · exact ⟨fun hb => (Dict.mem_erase.1 hb).1 hxe, fun hb => (Dict.mem_erase.1 hb).1 hxe⟩
        · obtain ⟨g1, g2⟩ := hsh.ghosts x (hx.imp_left fun hx => (Dict.mem_set.1 hx).resolve_left hxe)
          exact ⟨fun hb => g1 (Dict.mem_erase.1 hb).2, fun hb => g2 (Dict.mem_erase.1 hb).2⟩
      · exact hsh.ghostsDisjoint x (Dict.mem_erase.1 hx).2 (Dict.mem_erase.1 hx2).2
    have hnew' : ∀ e' ∈ l, e'.1 ∉ (s.insertOne e).t1 ∧ e'.1 ∉ (s.insertOne e).t2 := by
      intro e' he'
      obtain ⟨g1, g2⟩ := hnew e' (List.mem_cons_of_mem _ he')
      refine ⟨fun hm => ?_, g2⟩
      rcases Dict.mem_set.1 hm with heq | hm
      · exact hne (heq ▸ List.mem_map_of_mem he')
      · exact g1 hm
    obtain ⟨h1, h2, h3, h4⟩ := ih hnd hnew' hsh'
    refine ⟨h1, ?_, h3, h4⟩
    rw [List.foldl_cons, h2]
    simp only [insertOne]
    rw [Dict.entries_set_of_not_mem e.2 hn1, List.append_assoc, List.singleton_append]

/-- Preparing a store does not raise, and evicts only idle blocks. -/
lemma Held.prepareStore (hk : Held n loads stores s) (hnd : hs.Nodup) :
    ∃ s' out, s.prepareStore hs = .ok (s', out) ∧
      (out = none → Held n loads stores s') ∧
      ∀ o, out = some o → Held n loads (stores ++ o.blockHashesToStore) s' ∧
        ∀ h ∈ o.blockHashesEvicted, h ∉ loads ∧ h ∉ stores := by
  unfold ARC.prepareStore
  dsimp only
  generalize hto : hs.filter (fun h => h ∉ s.t1 ∧ h ∉ s.t2) = toStore
  have hfree := hk.ledger.count
  split
  · refine ⟨s, _, rfl, nofun, fun o ho => ?_⟩
    cases ho
    rw [List.append_nil]
    exact ⟨hk, nofun⟩
  rcases hev : ARC.evict ((toStore.length : Int) - s.backend.getNumFreeBlocks).toNat s [] with
    ⟨t, evicted, enough⟩
  obtain ⟨hk1, hidle, hsub, hlen⟩ := hk.evict hev nofun
  cases enough with
  | false => exact ⟨t, none, rfl, fun _ => hk1, nofun⟩
  | true =>
    have hk2 := hk1.boundGhosts
    have hfree' := hk2.ledger.count
    have hlen := hlen rfl
    have hroom : (toStore.length : Int) ≤ t.boundGhosts.backend.getNumFreeBlocks := by
      have hlive : (manager.live t.boundGhosts).length = (manager.live t).length := rfl
      simp only [manager] at hfree hfree' hlen hlive
      omega
    obtain ⟨be', ids, hal, hids, hsize, halloc, hperm⟩ := hk2.ledger.allocateBlocks hroom
    have hal' : t.boundGhosts.backend.allocateBlocks toStore.length = some (be', ids.map .new) := hal
    dsimp only
    rw [hal']
    refine ⟨_, _, rfl, nofun, fun o ho => ?_⟩
    cases ho
    have hndt : toStore.Nodup := hto ▸ hnd.filter _
    have hnew : ∀ h ∈ toStore, h ∉ t.t1 ∧ h ∉ t.t2 := by
      intro h hh
      rw [← hto, List.mem_filter, decide_eq_true_eq] at hh
      have hout : ¬ (h ∈ s.t1 ∨ h ∈ s.t2) := not_or.2 hh.2
      exact not_or.1 fun hm => hout (hsub h hm)
    have hfst : (toStore.zip (ids.map BlockStatus.new)).map Prod.fst = toStore :=
      List.map_fst_zip (by rw [List.length_map, hids])
    obtain ⟨hsh, ht1, ht2, hbe⟩ := foldl_insertOne (n := n) (l := toStore.zip (ids.map .new))
      (s := { t.boundGhosts with backend := be', events := appendEvent t.boundGhosts.events evicted true })
      (by rw [hfst]; exact hndt)
      (fun e he => hnew e.1 (hfst ▸ List.mem_map_of_mem he))
      ⟨hk2.inv.disjoint, hk2.inv.ghosts, hk2.inv.ghostsDisjoint, hk2.inv.capacity, hk2.inv.target⟩
    refine ⟨⟨hsh, ?_⟩, hidle⟩
    simp only [manager, ht1, ht2, hbe]
    have hstore := hk2.ledger.store hids hsize halloc hperm hndt fun h hh => by
      have hout := hnew h hh
      simpa [manager, Dict.mem_def, Dict.keys, ARC.boundGhosts] using hout
    refine hstore.perm ?_
    simp only [manager]
    rw [List.append_assoc, List.append_assoc]
    exact List.perm_append_comm.append_left _

/-- The loop over the stores to complete. -/
lemma Held.completeStores (hk : Held n loads stores s) (success : Bool) (hnd : hs.Nodup)
    (hst : ∀ h ∈ hs, h ∈ stores) (stored : List η) :
    Held n loads (stores.filter (· ∉ hs)) (hs.foldl (completeStoreOne success) (s, stored)).1 := by
  induction hs generalizing s stores stored with
  | nil => simpa using hk
  | cons x hs ih =>
    obtain ⟨hx, hnd⟩ := List.nodup_cons.1 hnd
    have hxs := hst x List.mem_cons_self
    have hfilter : stores.filter (· ∉ x :: hs) = (stores.filter (· ≠ x)).filter (· ∉ hs) := by
      rw [List.filter_filter]
      exact List.filter_congr fun y _ => by simp [Bool.and_comm]
    rw [List.foldl_cons, hfilter]
    refine ih ?_ hnd (fun h hh => ?_) _
    · obtain ⟨b, hb⟩ := slots_lawful.found hk.inv (hk.ledger.live x (.inr hxs))
      have hget : s.get? x = some b := hb
      obtain ⟨w, hw, hput⟩ := slots_lawful.entry hk.inv hb
      have hready : ¬ b.isReady = true := fun hr =>
        (hk.ledger.isReady (hw.symm.subset List.mem_cons_self)).1 hr hxs
      simp only [hget]
      cases success with
      | true =>
        obtain ⟨hinv, hbe, hperm⟩ := hput (b.setRefCnt 0)
        rw [if_pos rfl, if_neg hready]
        refine ⟨hinv, ?_⟩
        have hbe' : manager.backend (s.put x (b.setRefCnt 0)) = manager.backend s := hbe
        rw [hbe']
        exact ((hk.ledger.perm hw).stored hxs).perm hperm.symm
      | false =>
        rw [if_neg nofun, if_neg hready]
        by_cases hm : x ∈ s.t1
        · rw [if_pos hm]
          have h1 : s.t1.get? x = some b := by
            obtain ⟨b', hb'⟩ := Dict.mem_iff_get?.1 hm
            simpa [ARC.get?, hb'] using hget
          have hperm := (Dict.perm_cons_erase h1).append_right s.t2.entries
          refine ⟨hk.inv.of_mem (fun y hy => (Dict.mem_erase.1 hy).2) (fun _ => id) (fun _ => id)
            (fun _ => id) rfl hk.inv.target, ?_⟩
          exact (hk.ledger.perm hperm).dropped hxs
        · rw [if_neg hm]
          have h2 : s.t2.get? x = some b := by
            simpa [ARC.get?, Dict.get?_eq_none.2 hm] using hget
          have hperm := ((Dict.perm_cons_erase h2).append_left s.t1.entries).trans List.perm_middle
          refine ⟨hk.inv.of_mem (fun _ => id) (fun y hy => (Dict.mem_erase.1 hy).2) (fun _ => id)
            (fun _ => id) rfl hk.inv.target, ?_⟩
          exact (hk.ledger.perm hperm).dropped hxs
    · have hne : h ≠ x := ne_of_mem_of_not_mem hh hx
      simp [hst h (List.mem_cons_of_mem _ hh), hne]

/-- Completing outstanding stores. -/
lemma Held.completeStore (hk : Held n loads stores s) (success : Bool) (hnd : hs.Nodup)
    (hst : ∀ h ∈ hs, h ∈ stores) :
    ∃ s', s.completeStore hs success = .ok s' ∧ Held n loads (stores.filter (· ∉ hs)) s' :=
  ⟨_, rfl, (hk.completeStores success hnd hst []).withEvents _⟩

end ARC

/-- A touch names no hash whose block is in T1 and being stored. -/
def ARC.TouchReady (x : OffloadState (ARC η) η) : OffloadEvent η → Prop
  | .touch hs => ∀ h ∈ hs, (x.mgr.t1.get? h).all BlockStatus.isReady
  | _ => True

instance (x : OffloadState (ARC η) η) : (ev : OffloadEvent η) → Decidable (ARC.TouchReady x ev)
  | .touch hs => inferInstanceAs (Decidable (∀ h ∈ hs, (x.mgr.t1.get? h).all BlockStatus.isReady))
  | .lookup _ | .prepareLoad _ | .completeLoad _ | .prepareStore _ | .completeStore _ _ | .takeEvents =>
    inferInstanceAs (Decidable True)

/-- No block is lost or shared: the entries have distinct block ids below `n`, they and the free blocks
make up the backend, and every hash with an outstanding transfer has its entry. -/
structure NoneLost (M : OffloadingManager σ η) (n : Nat) (x : OffloadState σ η) : Prop where
  distinct : ((M.live x.mgr).map fun e => e.2.blockId).Nodup
  below : ∀ e ∈ M.live x.mgr, e.2.blockId < n
  count : ((M.live x.mgr).length : Int) + (M.backend x.mgr).getNumFreeBlocks = n
  held : ∀ h, h ∈ x.loads ∨ h ∈ x.stores → h ∈ (M.live x.mgr).map Prod.fst

/-- What a call allowed by `C` does to a state that is kept: it does not raise, evicts nothing in use
and leaves the state kept. -/
def Serves (M : OffloadingManager σ η) (Inv : σ → Prop) (n : Nat) (x : OffloadState σ η)
    (ev : OffloadEvent η) : Prop :=
  (x.next M ev).2 ≠ .raised ∧ (∀ h ∈ (x.next M ev).2.evicted, h ∉ x.loads ∧ h ∉ x.stores) ∧
    Kept M Inv n (x.next M ev).1.loads (x.next M ev).1.stores (x.next M ev).1.mgr

section Serves
variable {M : OffloadingManager σ η} {Inv : σ → Prop} {x : OffloadState σ η}

/-- A call that only may raise serves if it does not. -/
lemma OffloadState.settle_serves {r : Except σ σ} {loads' stores' : List η}
    (h : ∃ s', r = .ok s' ∧ Kept M Inv n loads' stores' s') :
    (x.settle r loads' stores').2 = .done ∧
      Kept M Inv n (x.settle r loads' stores').1.loads (x.settle r loads' stores').1.stores
        (x.settle r loads' stores').1.mgr := by
  obtain ⟨s', rfl, hk⟩ := h
  exact ⟨rfl, hk⟩

/-- A call whose output is `done` serves if it keeps the state. -/
lemma Serves.of_done {ev : OffloadEvent η} (hd : (x.next M ev).2 = .done)
    (hk : Kept M Inv n (x.next M ev).1.loads (x.next M ev).1.stores (x.next M ev).1.mgr) :
    Serves M Inv n x ev := by
  refine ⟨by rw [hd]; nofun, ?_, hk⟩
  rw [hd]
  exact nofun

/-- Loads serve, for managers that read and write through lawful slots. -/
lemma Serves.prepareLoad {S : Slots σ η} (L : S.Lawful M Inv) (hM : M.prepareLoad = S.prepareLoad)
    (hl : M.lookup = S.lookup) (hk : Kept M Inv n x.loads x.stores x.mgr)
    (hits : x.Matched M (.prepareLoad hs)) (fits : x.CountFits (.prepareLoad hs)) :
    Serves M Inv n x (.prepareLoad hs) := by
  have hlook : S.lookup x.mgr hs = hs.length := by
    rw [← hl]
    exact hits
  obtain ⟨s', ids, he, hk'⟩ := L.prepareLoad hk hlook fits
  unfold Serves OffloadState.next
  simp only [hM, he]
  exact ⟨nofun, nofun, hk'⟩

/-- Preparing a store serves if it does not raise. -/
lemma Serves.prepareStore (h : ∃ s' out, M.prepareStore x.mgr hs = .ok (s', out) ∧
      (out = none → Kept M Inv n x.loads x.stores s') ∧
      ∀ o, out = some o → Kept M Inv n x.loads (x.stores ++ o.blockHashesToStore) s' ∧
        ∀ h ∈ o.blockHashesEvicted, h ∉ x.loads ∧ h ∉ x.stores) :
    Serves M Inv n x (.prepareStore hs) := by
  obtain ⟨s', out, he, hnone, hsome⟩ := h
  unfold Serves OffloadState.next
  cases out with
  | none =>
    simp only [he]
    exact ⟨nofun, nofun, hnone rfl⟩
  | some o =>
    simp only [he]
    exact ⟨nofun, (hsome o rfl).2, (hsome o rfl).1⟩

/-- Over a run whose calls all serve, no call raises and no block is lost. -/
lemma runs_kept {s0 : σ} {C : OffloadState σ η → OffloadEvent η → Prop} (h0 : Kept M Inv n [] [] s0)
    (serve : ∀ {x ev}, Kept M Inv n x.loads x.stores x.mgr → C x ev → Serves M Inv n x ev)
    {h : List (OffloadEvent η)} {o : List (OffloadOutput η)} (run : (offloadMachine M s0).Runs h o x)
    (hc : (offloadMachine M s0).Along C h) :
    (∀ y ∈ o, y ≠ .raised) ∧ Kept M Inv n x.loads x.stores x.mgr := by
  induction run with
  | init => exact ⟨nofun, h0⟩
  | step run _ ih =>
    obtain ⟨hc, hlast⟩ := run.along_concat hc
    obtain ⟨hr, hk⟩ := ih hc
    obtain ⟨hraise, -, hk'⟩ := serve hk hlast
    refine ⟨fun y hy => ?_, hk'⟩
    rcases List.mem_append.1 hy with hy | hy
    · exact hr y hy
    · rw [List.mem_singleton.1 hy]
      exact hraise

/-- The ledger says that no block is lost. -/
lemma Kept.noneLost (hk : Kept M Inv n x.loads x.stores x.mgr) : NoneLost M n x :=
  ⟨hk.ledger.ids_nodup, hk.ledger.id_lt, hk.ledger.count, hk.ledger.live⟩

end Serves

/-- Every matched call of LRU serves. -/
lemma LRU.serves {x : OffloadState (LRU η) η} {ev : OffloadEvent η} (hk : Held n x.loads x.stores x.mgr)
    (hc : x.Matched manager ev ∧ x.CountFits ev) : Serves manager (fun _ => True) n x ev := by
  cases ev with
  | lookup hs => exact ⟨nofun, nofun, hk⟩
  | touch hs =>
    have h := OffloadState.settle_serves (x := x) (hk.touch hs)
    exact .of_done h.1 h.2
  | prepareLoad hs => exact .prepareLoad slots_lawful rfl rfl hk hc.1 hc.2
  | completeLoad hs =>
    have h := OffloadState.settle_serves (x := x) (slots_lawful.completeLoad hk hc.1)
    exact .of_done h.1 h.2
  | prepareStore hs => exact .prepareStore (hk.prepareStore hc.1)
  | completeStore hs success =>
    have h := OffloadState.settle_serves (x := x) (hk.completeStore success hc.1.1 hc.1.2)
    exact .of_done h.1 h.2
  | takeEvents => exact ⟨nofun, nofun, hk.inv, hk.ledger⟩

/-- Every matched call of ARC that touches no block being stored in T1 serves. -/
lemma ARC.serves {x : OffloadState (ARC η) η} {ev : OffloadEvent η} (hk : Held n x.loads x.stores x.mgr)
    (hc : x.Matched manager ev ∧ x.CountFits ev ∧ TouchReady x ev) :
    Serves manager (Shaped n) n x ev := by
  cases ev with
  | lookup hs => exact ⟨nofun, nofun, hk⟩
  | touch hs =>
    have hready : ∀ h ∈ hs, ∀ b, x.mgr.t1.get? h = some b → b.isReady = true := by
      intro h hh b hb
      have hall : (x.mgr.t1.get? h).all BlockStatus.isReady = true := hc.2.2 h hh
      rwa [hb] at hall
    have h := OffloadState.settle_serves (x := x) (hk.touch hready)
    exact .of_done h.1 h.2
  | prepareLoad hs => exact .prepareLoad slots_lawful rfl rfl hk hc.1 hc.2.1
  | completeLoad hs =>
    have h := OffloadState.settle_serves (x := x) (slots_lawful.completeLoad hk hc.1)
    exact .of_done h.1 h.2
  | prepareStore hs => exact .prepareStore (hk.prepareStore hc.1)
  | completeStore hs success =>
    have h := OffloadState.settle_serves (x := x) (hk.completeStore success hc.1.1 hc.1.2)
    exact .of_done h.1 h.2
  | takeEvents => exact ⟨nofun, nofun, hk.withEvents _⟩

/-- A new LRU manager. -/
abbrev lruMachine (η : Type) [DecidableEq η] (n : Nat) :
    Machine (OffloadState (LRU η) η) (OffloadEvent η) (OffloadOutput η) :=
  offloadMachine LRU.manager { backend := { numBlocks := n } }

/-- A new ARC manager. -/
abbrev arcMachine (η : Type) [DecidableEq η] (n : Nat) :
    Machine (OffloadState (ARC η) η) (OffloadEvent η) (OffloadOutput η) :=
  offloadMachine ARC.manager (.new { numBlocks := n })

/-- In every matched run of LRU, and in every matched run of ARC whose touches name no block of T1 that
is being stored, with reference counts in range: no call raises, no block is lost or shared, no entry in
use is evicted, and the lists of ARC stay disjoint with the target in range. The managers record no events. -/
theorem offloaded_blocks_kept {h h' : List (OffloadEvent η)} {o o' : List (OffloadOutput η)}
    {x : OffloadState (LRU η) η} {x' : OffloadState (ARC η) η}
    (run : (lruMachine η n).Runs h o x)
    (hc : (lruMachine η n).Along (fun x ev => x.Matched LRU.manager ev ∧ x.CountFits ev) h)
    (run' : (arcMachine η n).Runs h' o' x')
    (hc' : (arcMachine η n).Along
      (fun x ev => x.Matched ARC.manager ev ∧ x.CountFits ev ∧ ARC.TouchReady x ev) h') :
    ((∀ y ∈ o, y ≠ .raised) ∧ NoneLost LRU.manager n x ∧
      ∀ ev, x.Matched LRU.manager ev ∧ x.CountFits ev →
        ∀ k ∈ (x.next LRU.manager ev).2.evicted, k ∉ x.loads ∧ k ∉ x.stores) ∧
    ((∀ y ∈ o', y ≠ .raised) ∧ NoneLost ARC.manager n x' ∧
      (∀ ev, x'.Matched ARC.manager ev ∧ x'.CountFits ev ∧ ARC.TouchReady x' ev →
        ∀ k ∈ (x'.next ARC.manager ev).2.evicted, k ∉ x'.loads ∧ k ∉ x'.stores) ∧
      x'.mgr.Shaped n) := by
  have hinit : LRU.Held n [] ([] : List η) { backend := { numBlocks := n } } := ⟨trivial, .empty n⟩
  have hinit' : ARC.Held n [] ([] : List η) (.new { numBlocks := n }) := by
    refine ⟨⟨fun _ hm => ?_, fun _ hm => ?_, fun _ hm => ?_, ?_, le_refl 0, Nat.cast_nonneg n⟩, .empty n⟩
    · exact absurd hm Dict.not_mem_empty
    · exact absurd hm (not_or.2 ⟨Dict.not_mem_empty, Dict.not_mem_empty⟩)
    · exact absurd hm Dict.not_mem_empty
    · simp [ARC.new, ARC.init, CPUBackend.getNumFreeBlocks]
  obtain ⟨hr, hk⟩ := runs_kept hinit LRU.serves run hc
  obtain ⟨hr', hk'⟩ := runs_kept hinit' ARC.serves run' hc'
  exact ⟨⟨hr, hk.noneLost, fun ev hev => (LRU.serves hk hev).2.1⟩,
    hr', hk'.noneLost, fun ev hev => (ARC.serves hk' hev).2.1, hk'.inv⟩

instance {σ : Type} (M : OffloadingManager σ η) (s : σ) (h : List (OffloadEvent η)) (ev : OffloadEvent η) :
    Decidable ((offloadMachine M s).ok h ev) :=
  inferInstanceAs (Decidable True)

/-- Two stores, one of which fails, a load, a store that finds nothing idle and one that evicts. -/
def loadAndStore : List (OffloadEvent Nat) :=
  [.prepareStore [0, 1], .completeStore [0] true, .completeStore [1] false, .lookup [0, 1],
    .prepareLoad [0], .touch [0, 5], .prepareStore [2, 3], .completeLoad [0], .prepareStore [2, 3]]

theorem offloaded_blocks_kept_load_and_store :
    (∀ y ∈ ((lruMachine Nat 2).exec loadAndStore).1, y ≠ .raised) ∧
      (((lruMachine Nat 2).exec loadAndStore).1.map OffloadOutput.evicted).flatten = [0] ∧
      (∀ y ∈ ((arcMachine Nat 2).exec loadAndStore).1, y ≠ .raised) ∧
      (((arcMachine Nat 2).exec loadAndStore).1.map OffloadOutput.evicted).flatten = [0] := by
  have hrun : (lruMachine Nat 2).Runs loadAndStore _ _ := .of_exec (by decide +kernel)
  have hrun' : (arcMachine Nat 2).Runs loadAndStore _ _ := .of_exec (by decide +kernel)
  have hkept := offloaded_blocks_kept hrun (by decide +kernel) hrun' (by decide +kernel)
  exact ⟨hkept.1.1, by decide +kernel, hkept.2.1, by decide +kernel⟩

/-- ARC loses a block that is touched while it is being stored: the matched call raises, and afterwards
one of the two blocks is neither free nor in an entry. -/
theorem touch_while_storing_raises :
    (arcMachine Nat 2).Runs [.prepareStore [7], .touch [7]]
        ((arcMachine Nat 2).exec [.prepareStore [7], .touch [7]]).1
        ((arcMachine Nat 2).exec [.prepareStore [7], .touch [7]]).2 ∧
      (arcMachine Nat 2).Along (fun x ev => x.Matched ARC.manager ev) [.prepareStore [7], .touch [7]] ∧
      .raised ∈ ((arcMachine Nat 2).exec [.prepareStore [7], .touch [7]]).1 ∧
      ¬ NoneLost ARC.manager 2 ((arcMachine Nat 2).exec [.prepareStore [7], .touch [7]]).2 := by
  refine ⟨.of_exec (by decide +kernel), by decide +kernel, by decide +kernel, fun h => ?_⟩
  exact absurd h.count (by decide +kernel)

end Gambit.Offload
