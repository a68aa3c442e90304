import Gambit.Offload.Safety

/-!
# Refused stores

A store is to be refused only if the free and the idle blocks are too few for it, and then to leave the manager as
it was. LRU collects its victims before it evicts them and keeps to both. ARC evicts while it searches, and turns from
T1 to T2 but never back: it is right if the evictions it can make (`room`) are enough, or if there are none at all and
the idle blocks of both lists are too few.

The target of ARC is computed in floating point. `anyTargetMachine` leaves open what a call makes of it, so its runs
are those of the source, however it rounds, and those of exact arithmetic.
-/

namespace Gambit.Offload
open Gambit.Lib

variable {η σ : Type} [DecidableEq η]

section Right
variable (M : OffloadingManager σ η) (s : σ) (hs : List η)

/-- How many of the hashes are new. -/
def numNew : Nat := (hs.filter fun h => h ∉ (M.live s).map Prod.fst).length

/-- How many blocks are lacking for the new hashes. -/
def numLacking : Nat := ((numNew M s hs : Int) - (M.backend s).getNumFreeBlocks).toNat

omit [DecidableEq η] in
/-- How many entries have no reference. -/
def numIdle : Nat := (M.live s).countP fun e => e.2.refCnt = 0

/-- A store is refused if and only if it has to be, and a refused one changes nothing. -/
structure RefusesRightly : Prop where
  necessary : (∃ s', M.prepareStore s hs = .ok (s', none)) ↔
    (numNew M s hs : Int) > (M.backend s).getNumFreeBlocks + numIdle M s
  atomic : ∀ s', M.prepareStore s hs = .ok (s', none) → s' = s

end Right

/-- LRU refuses a store if its victims are too few. -/
lemma LRU.victims_eq_none {s : LRU η} {k : Nat} : s.victims k = none ↔ numIdle manager s < k := by
  unfold victims numIdle manager
  dsimp only
  rw [List.length_map, ← List.countP_eq_length_filter]
  split
  · next hfew => exact ⟨fun _ => hfew, fun _ => rfl⟩
  · next henough => exact ⟨nofun, fun hfew => absurd hfew henough⟩

/-- LRU refuses what it has to, and nothing else. -/
lemma LRU.refusesRightly (s : LRU η) (hs : List η) : RefusesRightly manager s hs := by
  have hrefuse : ∀ s', s.prepareStore hs = .ok (s', none) ↔
      numIdle manager s < numLacking manager s hs ∧ s' = s := by
    intro s'
    unfold LRU.prepareStore
    dsimp only
    have hlack : ((hs.filter (· ∉ s.blocks)).length - s.backend.getNumFreeBlocks : Int).toNat =
        numLacking manager s hs := rfl
    rw [hlack]
    cases hv : s.victims (numLacking manager s hs) with
    | none =>
      have hfew := victims_eq_none.1 hv
      constructor
      · intro h
        cases h
        exact ⟨hfew, rfl⟩
      · rintro ⟨-, rfl⟩
        rfl
    | some toEvict =>
      dsimp only
      constructor
      · intro h
        split at h
        · cases h
        · cases h
      · rintro ⟨hfew, -⟩
        rw [victims_eq_none.2 hfew] at hv
        cases hv
  refine ⟨?_, fun s' h => ((hrefuse s').1 h).2⟩
  have hiff : (numNew manager s hs : Int) > (manager.backend s).getNumFreeBlocks + numIdle manager s ↔
      numIdle manager s < numLacking manager s hs := by
    unfold numLacking
    omega
  rw [hiff]
  exact ⟨fun ⟨s', h⟩ => ((hrefuse s').1 h).1, fun h => ⟨s, (hrefuse s).2 ⟨h, rfl⟩⟩⟩

namespace ARC
variable {s s' : ARC η} {h : η} {hs : List η}

omit [DecidableEq η] in
/-- The idle entries of one list. -/
def idleIn (t : Dict η BlockStatus) : Nat := t.entries.countP fun e => e.2.refCnt = 0

omit [DecidableEq η] in
lemma oldestIdle_eq_none {t : Dict η BlockStatus} : oldestIdle t = none ↔ idleIn t = 0 := by
  unfold oldestIdle idleIn
  rw [List.find?_eq_none, List.countP_eq_zero]

/-- An eviction takes one idle entry. -/
lemma idleIn_erase {t : Dict η BlockStatus} {b : BlockStatus} (hb : oldestIdle t = some (h, b)) :
    idleIn (t.erase h) + 1 = idleIn t := by
  obtain ⟨hget, h0⟩ := oldestIdle_spec hb
  unfold idleIn
  rw [(Dict.perm_cons_erase hget).countP_eq, List.countP_cons_of_pos (by simpa using h0)]

lemma size_erase {t : Dict η BlockStatus} {b : BlockStatus} (hb : t.get? h = some b) :
    (t.erase h).size + 1 = t.size := by
  unfold Dict.size
  rw [(Dict.perm_cons_erase hb).length_eq, List.length_cons]

/-- How many entries the eviction loop can take: those of T1 while T1 is not below its target, and those of T2. -/
def room (s : ARC η) : Nat := min (idleIn s.t1) ((s.t1.size : Int) - ⌊s.targetT1Size⌋ + 1).toNat + idleIn s.t2

/-- The loop ends where there is nothing left that it can take. -/
lemma evictOne_eq_none : s.evictOne = none ↔ s.room = 0 := by
  unfold evictOne room
  dsimp only
  by_cases htarget : ⌊s.targetT1Size⌋ ≤ (s.t1.size : Int)
  · rw [if_pos htarget]
    cases h1 : oldestIdle s.t1 with
    | none =>
      have hidle := oldestIdle_eq_none.1 h1
      cases h2 : oldestIdle s.t2 with
      | none =>
        have hidle2 := oldestIdle_eq_none.1 h2
        simp [hidle, hidle2]
      | some e =>
        have hidle2 : idleIn s.t2 ≠ 0 := fun h => by rw [oldestIdle_eq_none.2 h] at h2; cases h2
        simp [hidle2]
    | some e =>
      have hidle : idleIn s.t1 ≠ 0 := fun h => by rw [oldestIdle_eq_none.2 h] at h1; cases h1
      simp only [reduceCtorEq, false_iff]
      omega
  · rw [if_neg htarget]
    cases h2 : oldestIdle s.t2 with
    | none =>
      have hidle2 := oldestIdle_eq_none.1 h2
      simp only [true_iff]
      omega
    | some e =>
      have hidle2 : idleIn s.t2 ≠ 0 := fun h => by rw [oldestIdle_eq_none.2 h] at h2; cases h2
      simp [hidle2]

/-- One eviction takes one entry and frees one block. -/
lemma evictOne_room (he : s.evictOne = some (s', h)) : s'.room + 1 = s.room ∧
    s'.backend.allocatedBlocksFreeList.length = s.backend.allocatedBlocksFreeList.length + 1 := by
  unfold evictOne at he
  dsimp only at he
  split at he
  · next x b _ hfrom =>
    split at hfrom
    · next htarget =>
      cases he
      have hidle := idleIn_erase hfrom
      have hsize := size_erase (oldestIdle_spec hfrom).1
      refine ⟨?_, by simp [CPUBackend.free]⟩
      unfold room
      dsimp only
      omega
    · cases hfrom
  · next x b hfrom hb =>
    cases he
    have hidle := idleIn_erase hb
    refine ⟨?_, by simp [CPUBackend.free]⟩
    unfold room
    dsimp only
    omega
  · cases he

/-- The eviction loop takes what it is asked for, or as much as it can. -/
lemma evict_room (k : Nat) (l : List η) : (ARC.evict k s l).2.2 = decide (k ≤ s.room) ∧
    (ARC.evict k s l).1.backend.allocatedBlocksFreeList.length =
      s.backend.allocatedBlocksFreeList.length + min k s.room := by
  induction k generalizing s l with
  | zero => simp [ARC.evict]
  | succ k ih =>
    rw [ARC.evict]
    cases he : s.evictOne with
    | none =>
      rw [evictOne_eq_none.1 he]
      simp
    | some e =>
      obtain ⟨s', h⟩ := e
      obtain ⟨hroom, hfree⟩ := evictOne_room he
      obtain ⟨h1, h2⟩ := ih (s := s') (l ++ [h])
      refine ⟨h1.trans (decide_eq_decide.2 (by omega)), ?_⟩
      show (ARC.evict k s' (l ++ [h])).1.backend.allocatedBlocksFreeList.length = _
      rw [h2, hfree]
      omega

/-- A refused store leaves the manager as it was if nothing could be evicted. -/
lemma evict_eq_self (k : Nat) (hk : s.room < k) : (ARC.evict k s []).1 = s ↔ s.room = 0 := by
  constructor
  · intro he
    have hlen := (evict_room (s := s) k []).2
    rw [he] at hlen
    omega
  · intro h0
    obtain ⟨k, rfl⟩ := Nat.exists_eq_succ_of_ne_zero (Nat.ne_of_gt (Nat.lt_of_le_of_lt (Nat.zero_le _) hk))
    rw [ARC.evict, evictOne_eq_none.2 h0]

/-- A backend has allocated no more blocks than it has. -/
def Sane (s : ARC η) : Prop := s.backend.numAllocatedBlocks ≤ s.backend.numBlocks

/-- ARC refuses a store if it lacks more blocks than it can evict, after evicting what it can. -/
lemma prepareStore_refused (hsane : s.Sane) : s.prepareStore hs = .ok (s', none) ↔
    s.room < numLacking manager s hs ∧ s' = (ARC.evict (numLacking manager s hs) s []).1 := by
  have hnew : (hs.filter fun h => h ∉ s.t1 ∧ h ∉ s.t2).length = numNew manager s hs := by
    unfold numNew manager
    refine congrArg List.length (List.filter_congr fun h _ => decide_eq_decide.2 ?_)
    rw [List.map_append, List.mem_append, not_or]
    rfl
  have hlack : ((hs.filter fun h => h ∉ s.t1 ∧ h ∉ s.t2).length - s.backend.getNumFreeBlocks : Int).toNat =
      numLacking manager s hs := by
    rw [hnew]
    rfl
  unfold ARC.prepareStore
  dsimp only
  rw [hlack]
  split
  · next hempty =>
    -- nothing is lacking for no hashes
    have hzero : numLacking manager s hs = 0 := by
      unfold Sane at hsane
      rw [← hlack, List.isEmpty_iff.1 hempty, List.length_nil]
      unfold CPUBackend.getNumFreeBlocks
      omega
    constructor
    · intro h
      cases h
    · rintro ⟨hlt, -⟩
      omega
  · have hevict := (evict_room (s := s) (numLacking manager s hs) []).1
    rcases hev : ARC.evict (numLacking manager s hs) s [] with ⟨t, evicted, enough⟩
    rw [hev] at hevict
    cases enough with
    | false =>
      have hlt : s.room < numLacking manager s hs := Nat.lt_of_not_le (of_decide_eq_false hevict.symm)
      constructor
      · intro h
        cases h
        exact ⟨hlt, rfl⟩
      · rintro ⟨-, rfl⟩
        rfl
    | true =>
      have hle : numLacking manager s hs ≤ s.room := of_decide_eq_true hevict.symm
      dsimp only
      constructor
      · intro h
        split at h
        · cases h
        · cases h
      · rintro ⟨hlt, -⟩
        exact absurd hle (Nat.not_le.2 hlt)

/-- All idle entries. -/
lemma numIdle_eq (s : ARC η) : numIdle manager s = idleIn s.t1 + idleIn s.t2 := List.countP_append

/-- When ARC is right about a store. -/
lemma right_iff (hsane : s.Sane) : RefusesRightly manager s hs ↔
    numLacking manager s hs ≤ s.room ∨ s.room = 0 ∧ numIdle manager s < numLacking manager s hs := by
  have hroom : s.room ≤ numIdle manager s := by
    rw [numIdle_eq]
    unfold room
    omega
  have hfew : (numNew manager s hs : Int) > (manager.backend s).getNumFreeBlocks + numIdle manager s ↔
      numIdle manager s < numLacking manager s hs := by
    unfold numLacking
    omega
  have hrefused : (∃ s', manager.prepareStore s hs = .ok (s', none)) ↔ s.room < numLacking manager s hs := by
    constructor
    · exact fun ⟨s', h⟩ => ((prepareStore_refused hsane).1 h).1
    · exact fun h => ⟨_, (prepareStore_refused hsane).2 ⟨h, rfl⟩⟩
  constructor
  · intro h
    by_cases hle : numLacking manager s hs ≤ s.room
    · exact .inl hle
    · have hlt := Nat.lt_of_not_le hle
      refine .inr ⟨(evict_eq_self _ hlt).1 ?_, hfew.1 (h.necessary.1 (hrefused.2 hlt))⟩
      exact h.atomic _ ((prepareStore_refused hsane).2 ⟨hlt, rfl⟩)
  · intro h
    refine ⟨?_, fun s' he => ?_⟩
    · rw [hrefused, hfew]
      omega
    · obtain ⟨hlt, rfl⟩ := (prepareStore_refused hsane).1 he
      exact (evict_eq_self _ hlt).2 (by omega)

/-- What an operation leaves is sane, also when it raises. -/
def SaneResult {α : Type} (f : α → ARC η) : Except (ARC η) α → Prop
  | .ok a => (f a).Sane
  | .error s => s.Sane

omit [DecidableEq η] in
lemma SaneResult.foldlM {α ι : Type} {f : α → ARC η} {g : α → ι → Except (ARC η) α}
    (step : ∀ a x, (f a).Sane → SaneResult f (g a x)) (l : List ι) {a : α} (h : (f a).Sane) :
    SaneResult f (l.foldlM g a) := by
  induction l generalizing a with
  | nil => exact h
  | cons x l ih =>
    have hx := step a x h
    rw [List.foldlM_cons]
    cases hg : g a x with
    | error s =>
      rw [hg] at hx
      exact hx
    | ok b =>
      rw [hg] at hx
      exact ih hx

lemma Sane.put (h : s.Sane) (k : η) (b : BlockStatus) : (s.put k b).Sane := by
  unfold ARC.put
  split
  · exact h
  · exact h

lemma Sane.touchOne (h : s.Sane) (k : η) : SaneResult id (s.touchOne k) := by
  unfold ARC.touchOne
  split
  · dsimp only
    split
    · exact h
    · split
      · exact h
      · exact h
  · split
    · exact h
    · split
      · exact h
      · split
        · exact h
        · exact h

lemma Sane.prepareLoadOne {a : ARC η × List Nat} (h : a.1.Sane) (k : η) :
    SaneResult Prod.fst (slots.prepareLoadOne a k) := by
  unfold Slots.prepareLoadOne
  split
  · exact h
  · split
    · exact h.put k _
    · exact h

lemma Sane.completeLoadOne (h : s.Sane) (k : η) : SaneResult id (slots.completeLoadOne s k) := by
  unfold Slots.completeLoadOne
  split
  · exact h
  · split
    · exact h.put k _
    · exact h

lemma Sane.completeStoreOne {a : ARC η × List η} (success : Bool) (h : a.1.Sane) (k : η) :
    (ARC.completeStoreOne success a k).1.Sane := by
  unfold ARC.completeStoreOne
  dsimp only
  split
  · exact h
  · split
    · split
      · exact h
      · exact h.put k _
    · split
      · split
        · exact h
        · exact h
      · split
        · exact h
        · exact h

lemma Sane.evict (h : s.Sane) (k : Nat) (l : List η) : (ARC.evict k s l).1.Sane := by
  induction k generalizing s l with
  | zero => exact h
  | succ k ih =>
    rw [ARC.evict]
    cases he : s.evictOne with
    | none => exact h
    | some e =>
      refine ih ?_ _
      unfold ARC.evictOne at he
      dsimp only at he
      split at he
      · cases he
        exact h
      · cases he
        exact h
      · cases he

/-- No more is allocated than there is. -/
lemma allocateBlocks_sane {be be' : CPUBackend} {blocks : List BlockStatus} {k : Nat}
    (h : be.numAllocatedBlocks ≤ be.numBlocks) (ha : be.allocateBlocks k = some (be', blocks)) :
    be'.numAllocatedBlocks ≤ be'.numBlocks := by
  unfold CPUBackend.allocateBlocks at ha
  dsimp only at ha
  split at ha
  · cases ha
    dsimp only
    omega
  · cases ha

lemma Sane.insertAll (h : s.Sane) (l : List (η × BlockStatus)) : (l.foldl ARC.insertOne s).Sane := by
  induction l generalizing s with
  | nil => exact h
  | cons e l ih => exact ih h

lemma Sane.prepareStore (h : s.Sane) (hs : List η) : SaneResult Prod.fst (s.prepareStore hs) := by
  unfold ARC.prepareStore
  dsimp only
  split
  · exact h
  · have hevict := h.evict ((hs.filter fun h => h ∉ s.t1 ∧ h ∉ s.t2).length - s.backend.getNumFreeBlocks : Int).toNat []
    revert hevict
    generalize ARC.evict _ s [] = r
    intro hevict
    obtain ⟨t, evicted, enough⟩ := r
    cases enough with
    | false => exact hevict
    | true =>
      have ht : t.Sane := hevict
      dsimp only
      split
      · exact ht
      · next be blocks ha =>
        have hbe : be.numAllocatedBlocks ≤ be.numBlocks := allocateBlocks_sane ht ha
        exact Sane.insertAll (s := { t.boundGhosts with backend := be, events := _ }) hbe _

/-- Every call. -/
lemma Sane.next {x : OffloadState (ARC η) η} (h : x.mgr.Sane) (ev : OffloadEvent η) :
    (x.next manager ev).1.mgr.Sane := by
  have hsettle : ∀ {r : Except (ARC η) (ARC η)} {loads stores : List η}, SaneResult id r →
      (x.settle r loads stores).1.mgr.Sane := by
    intro r loads stores hr
    cases r with
    | ok t => exact hr
    | error t => exact hr
  cases ev with
  | lookup hs => exact h
  | touch hs => exact hsettle (SaneResult.foldlM (fun _ k hk => Sane.touchOne hk k) hs.reverse h)
  | prepareLoad hs =>
    have hr : SaneResult Prod.fst (x.mgr.prepareLoad hs) :=
      SaneResult.foldlM (fun _ k hk => Sane.prepareLoadOne hk k) hs h
    unfold OffloadState.next
    dsimp only
    have hm : manager.prepareLoad x.mgr hs = x.mgr.prepareLoad hs := rfl
    rw [hm]
    revert hr
    cases x.mgr.prepareLoad hs with
    | ok t => exact id
    | error t => exact id
  | completeLoad hs => exact hsettle (SaneResult.foldlM (fun _ k hk => Sane.completeLoadOne hk k) hs h)
  | prepareStore hs =>
    have hr := h.prepareStore hs
    unfold OffloadState.next
    dsimp only
    have hm : manager.prepareStore x.mgr hs = x.mgr.prepareStore hs := rfl
    rw [hm]
    revert hr
    rcases x.mgr.prepareStore hs with t | ⟨t, _ | out⟩
    · exact id
    · exact id
    · exact id
  | completeStore hs success =>
    refine hsettle ?_
    have hfold : ∀ (l : List η) (a : ARC η × List η), a.1.Sane →
        (l.foldl (ARC.completeStoreOne success) a).1.Sane := by
      intro l
      induction l with
      | nil => exact fun _ h => h
      | cons k l ih => exact fun a ha => ih _ (Sane.completeStoreOne success ha k)
    exact hfold hs (x.mgr, []) h
  | takeEvents => exact h

/-- The manager with another target. -/
def retarget (s : ARC η) (target : ℚ) : ARC η := { s with targetT1Size := target }

/-- ARC as a machine in which every call leaves any target. -/
def anyTargetMachine (s : ARC η) : Machine (OffloadState (ARC η) η) (OffloadEvent η × ℚ) (OffloadOutput η) where
  init := { mgr := s }
  next x e :=
    let (y, out) := x.next manager e.1
    ({ y with mgr := y.mgr.retarget e.2 }, out)
  ok _ _ := True

instance (s : ARC η) (h : List (OffloadEvent η × ℚ)) (e : OffloadEvent η × ℚ) :
    Decidable ((anyTargetMachine s).ok h e) :=
  inferInstanceAs (Decidable True)

/-- Every run, whatever becomes of the target. -/
lemma Sane.runs {s : ARC η} (h : s.Sane) {evs : List (OffloadEvent η × ℚ)} {o : List (OffloadOutput η)}
    {x : OffloadState (ARC η) η} (run : (anyTargetMachine s).Runs evs o x) : x.mgr.Sane := by
  induction run with
  | init => exact h
  | @step _ _ x e _ _ ih =>
    have hnext : (x.next manager e.1).1.mgr.Sane := ih.next e.1
    exact hnext

/-- The target that exact arithmetic leaves is one of them. -/
lemma anyTarget_of_exact {s : ARC η} {evs : List (OffloadEvent η)} {o : List (OffloadOutput η)}
    {x : OffloadState (ARC η) η} (run : (offloadMachine manager s).Runs evs o x) :
    ∃ evs', evs'.map Prod.fst = evs ∧ (anyTargetMachine s).Runs evs' o x := by
  induction run with
  | init => exact ⟨[], rfl, .init⟩
  | @step h _ x e _ _ ih =>
    obtain ⟨evs', rfl, run'⟩ := ih
    have hstep := run'.step (e := (e, (x.next manager e).1.mgr.targetT1Size)) trivial
    exact ⟨evs' ++ [(e, (x.next manager e).1.mgr.targetT1Size)], List.map_append, hstep⟩

end ARC

/-- LRU refuses stores rightly in every state. ARC does so in those of the states it reaches, whatever its calls make
of the target, in which the evictions that it can make are enough, or there are none and all idle entries would be too
few. -/
theorem refusesRightly_iff {n : Nat} {ev : Bool} {h : List (OffloadEvent η × ℚ)} {o : List (OffloadOutput η)}
    {x : OffloadState (ARC η) η} (run : (ARC.anyTargetMachine (.init { numBlocks := n } ev)).Runs h o x)
    (s : LRU η) (hs : List η) :
    RefusesRightly LRU.manager s hs ∧
    (RefusesRightly ARC.manager x.mgr hs ↔
      numLacking ARC.manager x.mgr hs ≤ x.mgr.room ∨
        x.mgr.room = 0 ∧ numIdle ARC.manager x.mgr < numLacking ARC.manager x.mgr hs) :=
  have hsane : ARC.Sane (ARC.init (η := η) { numBlocks := n } ev) := Nat.zero_le n
  ⟨s.refusesRightly hs, ARC.right_iff (hsane.runs run)⟩

/-- ARC with two blocks, both of them idle, and a target that was rounded down. -/
def storeTwo : OffloadState (ARC Nat) Nat :=
  ((ARC.anyTargetMachine (.init { numBlocks := 2 } true)).exec
    [(.prepareStore [0, 1], 0), (.completeStore [0, 1] true, 1 - 1 / 2 ^ 53)]).2

theorem refusesRightly_iff_store_two :
    RefusesRightly LRU.manager (LRU.init (η := Nat) { numBlocks := 2 } true) [2] ∧
      RefusesRightly ARC.manager storeTwo.mgr [2] := by
  have run : (ARC.anyTargetMachine (.init { numBlocks := 2 } true)).Runs _ _ storeTwo :=
    .of_exec (by decide +kernel)
  have hiff := refusesRightly_iff run (.init { numBlocks := 2 } true) [2]
  exact ⟨hiff.1, hiff.2.2 (.inl (by decide +kernel))⟩

/-- ARC with two blocks, one of them idle and one being stored. -/
def storeOne : OffloadState (ARC Nat) Nat :=
  ((offloadMachine ARC.manager (.init { numBlocks := 2 } true)).exec
    [.prepareStore [0, 1], .completeStore [0] true]).2

/-- ARC evicts the one idle block and refuses the store of two. -/
theorem arc_evicts_and_refuses :
    (offloadMachine ARC.manager (.init { numBlocks := 2 } true)).Runs
        [.prepareStore [0, 1], .completeStore [0] true]
        ((offloadMachine ARC.manager (.init { numBlocks := 2 } true)).exec
          [.prepareStore [0, 1], .completeStore [0] true]).1 storeOne ∧
      ¬ RefusesRightly ARC.manager storeOne.mgr [2, 3] := by
  have run : (offloadMachine ARC.manager (.init { numBlocks := 2 } true)).Runs _ _ storeOne :=
    .of_exec (by decide +kernel)
  refine ⟨run, fun hright => ?_⟩
  obtain ⟨h, -, run'⟩ := ARC.anyTarget_of_exact run
  have hsane : (ARC.init (η := Nat) { numBlocks := 2 } true).Sane := Nat.zero_le 2
  rw [ARC.right_iff (hsane.runs run')] at hright
  revert hright
  decide +kernel

end Gambit.Offload
