import Gambit.Lib.Loop
import Gambit.Offload.Manager

/-!
# The ledger of offloaded blocks

What the entries of a manager, its backend and the outstanding transfers have to do with each other:
every block id below the number of allocated blocks belongs to one entry or to the free list, and the
reference count of an entry is the number of loads outstanding on it, or -1 while it is being stored.
The entries count up to permutation, so that the ledger does not depend on the order a policy keeps
them in.
-/

namespace Gambit.Offload
open Gambit.Lib

variable {η σ : Type} {n : Nat} {be : CPUBackend} {v w : List (η × BlockStatus)}
  {loads stores loads' stores' : List η} {h : η} {b b' : BlockStatus}

variable [DecidableEq η]

/-- An assignment in range does not wrap. -/
lemma BlockStatus.refCnt_setRefCnt (b : BlockStatus) {k : Int} (h0 : -2 ^ 31 ≤ k) (h1 : k < 2 ^ 31) :
    (b.setRefCnt k).refCnt = k :=
  Int.bmod_eq_of_le_mul_two (by omega) (by omega)

/-- An assignment keeps the block. -/
lemma BlockStatus.blockId_setRefCnt (b : BlockStatus) (k : Int) :
    (b.setRefCnt k).blockId = b.blockId := rfl

/-- The reference count an entry should have. -/
def dueCount (loads stores : List η) (h : η) : Int := if h ∈ stores then -1 else loads.count h

/-- Entries, backend and outstanding transfers agree. -/
structure Ledger (n : Nat) (be : CPUBackend) (v : List (η × BlockStatus)) (loads stores : List η) :
    Prop where
  size : be.numBlocks = n
  keys : (v.map Prod.fst).Nodup
  ids : (v.map (fun e => e.2.blockId) ++ be.allocatedBlocksFreeList).Perm
    (List.range be.numAllocatedBlocks)
  allocated : be.numAllocatedBlocks ≤ n
  refCnt : ∀ e ∈ v, e.2.refCnt = dueCount loads stores e.1
  live : ∀ h, h ∈ loads ∨ h ∈ stores → h ∈ v.map Prod.fst
  apart : ∀ h ∈ stores, h ∉ loads
  fits : ∀ h, loads.count h < 2 ^ 31

namespace Ledger

/-- The ledger of a new backend. -/
lemma empty (n : Nat) : Ledger (η := η) n { numBlocks := n } [] [] [] where
  size := rfl
  keys := List.nodup_nil
  ids := .refl _
  allocated := n.zero_le
  refCnt _ he := by cases he
  live _ he := by simp at he
  apart _ he := by cases he
  fits _ := by simp

/-- The order of the entries does not matter. -/
lemma perm (hl : Ledger n be v loads stores) (hp : v.Perm w) : Ledger n be w loads stores where
  size := hl.size
  keys := (hp.map Prod.fst).nodup_iff.1 hl.keys
  ids := ((hp.map _).append_right _).symm.trans hl.ids
  allocated := hl.allocated
  refCnt e he := hl.refCnt e (hp.mem_iff.2 he)
  live h hh := (hp.map Prod.fst).mem_iff.1 (hl.live h hh)
  apart := hl.apart
  fits := hl.fits

/-- Live entries and free blocks make up the whole backend. -/
lemma count (hl : Ledger n be v loads stores) : (v.length : Int) + be.getNumFreeBlocks = n := by
  have hlen := hl.ids.length_eq
  have hsize := hl.size
  have halloc := hl.allocated
  rw [List.length_append, List.length_map, List.length_range] at hlen
  unfold CPUBackend.getNumFreeBlocks
  omega

/-- The block ids of the entries are distinct. -/
lemma ids_nodup (hl : Ledger n be v loads stores) : (v.map fun e => e.2.blockId).Nodup :=
  (hl.ids.nodup_iff.2 List.nodup_range).of_append_left

/-- The block ids of the entries are below the size. -/
lemma id_lt (hl : Ledger n be v loads stores) : ∀ e ∈ v, e.2.blockId < n := by
  intro e he
  have hm : e.2.blockId ∈ List.range be.numAllocatedBlocks :=
    hl.ids.subset (List.mem_append_left _ (List.mem_map_of_mem he))
  exact (List.mem_range.1 hm).trans_le hl.allocated

/-- An entry is ready unless it is being stored. -/
lemma isReady (hl : Ledger n be v loads stores) (he : (h, b) ∈ v) : b.isReady = true ↔ h ∉ stores := by
  have hr : b.refCnt = dueCount loads stores h := hl.refCnt _ he
  rw [BlockStatus.isReady, decide_eq_true_eq, hr, dueCount]
  split <;> simp_all

/-- An entry with no reference is idle. -/
lemma idle (hl : Ledger n be v loads stores) (he : (h, b) ∈ v) (h0 : b.refCnt = 0) :
    h ∉ loads ∧ h ∉ stores := by
  have hr : b.refCnt = dueCount loads stores h := hl.refCnt _ he
  rw [h0, dueCount] at hr
  split at hr
  · omega
  next hs => exact ⟨List.count_eq_zero.1 (by omega), hs⟩

/-- What an operation on the entry of `h` leaves alone: the transfers of the other hashes. -/
def Others (h : η) (loads stores loads' stores' : List η) : Prop :=
  ∀ x, x ≠ h → loads'.count x = loads.count x ∧ (x ∈ stores' ↔ x ∈ stores)

/-- The other hashes keep their due counts. -/
lemma Others.dueCount {x : η} (ho : Others h loads stores loads' stores') (hx : x ≠ h) :
    dueCount loads' stores' x = dueCount loads stores x := by
  obtain ⟨hc, hs⟩ := ho x hx
  simp only [Offload.dueCount, hc, hs]

/-- The other hashes keep their transfers. -/
lemma Others.mem {x : η} (ho : Others h loads stores loads' stores') (hx : x ≠ h) :
    (x ∈ loads' ↔ x ∈ loads) ∧ (x ∈ stores' ↔ x ∈ stores) := by
  obtain ⟨hc, hs⟩ := ho x hx
  rw [← List.count_pos_iff, ← List.count_pos_iff, hc]
  exact ⟨Iff.rfl, hs⟩

/-- The other entries are under other hashes. -/
lemma ne_of_mem (hl : Ledger n be ((h, b) :: w) loads stores) {e : η × BlockStatus} (he : e ∈ w) :
    e.1 ≠ h := by
  intro heq
  have hnot : h ∉ w.map Prod.fst := (List.nodup_cons.1 hl.keys).1
  exact hnot (heq ▸ List.mem_map_of_mem he)

/-- Write another reference count into one entry. -/
lemma write (hl : Ledger n be ((h, b) :: w) loads stores) (hid : b'.blockId = b.blockId)
    (ho : Others h loads stores loads' stores') (hr : b'.refCnt = Offload.dueCount loads' stores' h)
    (hap : h ∈ stores' → h ∉ loads') (hfit : loads'.count h < 2 ^ 31) :
    Ledger n be ((h, b') :: w) loads' stores' where
  size := hl.size
  keys := hl.keys
  ids := by simpa [hid] using hl.ids
  allocated := hl.allocated
  refCnt e he := by
    rcases List.mem_cons.1 he with rfl | he
    · exact hr
    · rw [ho.dueCount (hl.ne_of_mem he)]
      exact hl.refCnt e (List.mem_cons_of_mem _ he)
  live x hx := by
    by_cases hxh : x = h
    · exact hxh ▸ List.mem_cons_self
    · rw [(ho.mem hxh).1, (ho.mem hxh).2] at hx
      exact hl.live x hx
  apart x hx := by
    by_cases hxh : x = h
    · exact hxh ▸ hap (hxh ▸ hx)
    · rw [(ho.mem hxh).1]
      exact hl.apart x ((ho.mem hxh).2.1 hx)
  fits x := by
    by_cases hxh : x = h
    · exact hxh ▸ hfit
    · rw [(ho x hxh).1]
      exact hl.fits x

/-- Take one entry out and free its block. -/
lemma free (hl : Ledger n be ((h, b) :: w) loads stores) (ho : Others h loads stores loads' stores')
    (hloads : h ∉ loads') (hstores : h ∉ stores') : Ledger n (be.free b) w loads' stores' where
  size := hl.size
  keys := (List.nodup_cons.1 hl.keys).2
  ids := by
    refine List.Perm.trans ?_ hl.ids
    simp only [CPUBackend.free, List.map_cons, List.cons_append]
    rw [← List.append_assoc]
    exact List.perm_append_singleton _ _
  allocated := hl.allocated
  refCnt e he := by
    rw [ho.dueCount (hl.ne_of_mem he)]
    exact hl.refCnt e (List.mem_cons_of_mem _ he)
  live x hx := by
    have hxh : x ≠ h := by
      rintro rfl
      exact hx.elim hloads hstores
    rw [(ho.mem hxh).1, (ho.mem hxh).2] at hx
    exact (List.mem_cons.1 (hl.live x hx)).resolve_left hxh
  apart x hx := by
    have hxh : x ≠ h := by
      rintro rfl
      exact hstores hx
    rw [(ho.mem hxh).1]
    exact hl.apart x ((ho.mem hxh).2.1 hx)
  fits x := by
    by_cases hxh : x = h
    · subst hxh
      rw [List.count_eq_zero.2 hloads]
      exact Nat.two_pow_pos 31
    · rw [(ho x hxh).1]
      exact hl.fits x

/-- Nothing else changes when an idle entry goes. -/
lemma evict (hl : Ledger n be ((h, b) :: w) loads stores) (h0 : b.refCnt = 0) :
    Ledger n (be.free b) w loads stores :=
  have hi := hl.idle List.mem_cons_self h0
  hl.free (fun _ _ => ⟨rfl, Iff.rfl⟩) hi.1 hi.2

/-- The entry of a hash that is being stored, and what completing the store leaves outstanding. -/
lemma others_filter (h : η) : Others h loads stores loads (stores.filter (· ≠ h)) :=
  fun x hx => ⟨rfl, by simp [hx]⟩

/-- A successful store makes the entry ready. -/
lemma stored (hl : Ledger n be ((h, b) :: w) loads stores) (hst : h ∈ stores) :
    Ledger n be ((h, b.setRefCnt 0) :: w) loads (stores.filter (· ≠ h)) := by
  have hnot : h ∉ stores.filter (· ≠ h) := by simp
  have hzero : loads.count h = 0 := List.count_eq_zero.2 (hl.apart h hst)
  refine hl.write (b.blockId_setRefCnt 0) (others_filter h) ?_ (fun hm => absurd hm hnot) (hl.fits h)
  rw [Offload.dueCount, if_neg hnot, hzero]
  rfl

/-- A failed store gives the block back. -/
lemma dropped (hl : Ledger n be ((h, b) :: w) loads stores) (hst : h ∈ stores) :
    Ledger n (be.free b) w loads (stores.filter (· ≠ h)) :=
  hl.free (others_filter h) (hl.apart h hst) (by simp)

/-- The backend hands out as many new blocks as are asked for, if that many are free. -/
lemma allocateBlocks (hl : Ledger n be v loads stores) {k : Nat} (hk : (k : Int) ≤ be.getNumFreeBlocks) :
    ∃ be' ids, be.allocateBlocks k = some (be', ids.map .new) ∧ ids.length = k ∧ be'.numBlocks = n ∧
      be'.numAllocatedBlocks ≤ n ∧
      (v.map (fun e => e.2.blockId) ++ ids ++ be'.allocatedBlocksFreeList).Perm
        (List.range be'.numAllocatedBlocks) := by
  have hsize := hl.size
  have halloc := hl.allocated
  unfold CPUBackend.getNumFreeBlocks at hk
  have hroom : k - min k (be.numBlocks - be.numAllocatedBlocks) ≤ be.allocatedBlocksFreeList.length := by
    omega
  unfold CPUBackend.allocateBlocks
  dsimp only
  rw [if_pos hroom]
  generalize hf : min k (be.numBlocks - be.numAllocatedBlocks) = fresh at hroom ⊢
  refine ⟨_, _, rfl, ?_, hsize, by dsimp only; omega, ?_⟩
  · rw [List.length_append, List.length_map, List.length_range, List.length_take, List.length_reverse]
    omega
  · -- the reused ids come off the end of the free list, the fresh ones follow the allocated ones
    have hfree : (be.allocatedBlocksFreeList.reverse.take (k - fresh) ++
        be.allocatedBlocksFreeList.rdrop (k - fresh)).Perm be.allocatedBlocksFreeList := by
      rw [List.rdrop_eq_reverse_drop_reverse]
      refine ((List.reverse_perm _).append_left _).trans ?_
      rw [List.take_append_drop]
      exact List.reverse_perm _
    have hrange : List.range (be.numAllocatedBlocks + fresh) =
        List.range be.numAllocatedBlocks ++ (List.range fresh).map (be.numAllocatedBlocks + ·) :=
      List.range_add
    dsimp only
    rw [hrange]
    refine List.Perm.trans ?_ (hl.ids.append_right _)
    rw [List.append_assoc, List.append_assoc, List.append_assoc]
    refine List.Perm.append_left _ (List.Perm.trans ?_ List.perm_append_comm)
    exact hfree.append_left _

/-- New hashes get the allocated blocks and are being stored. -/
lemma store (hl : Ledger n be v loads stores) {be' : CPUBackend} {ids : List Nat} {hs : List η}
    (hlen : ids.length = hs.length) (hsize : be'.numBlocks = n) (halloc : be'.numAllocatedBlocks ≤ n)
    (hids : (v.map (fun e => e.2.blockId) ++ ids ++ be'.allocatedBlocksFreeList).Perm
      (List.range be'.numAllocatedBlocks))
    (hnd : hs.Nodup) (hnew : ∀ h ∈ hs, h ∉ v.map Prod.fst) :
    Ledger n be' (v ++ hs.zip (ids.map .new)) loads (stores ++ hs) := by
  have hfst : (hs.zip (ids.map BlockStatus.new)).map Prod.fst = hs :=
    List.map_fst_zip (by rw [List.length_map, hlen])
  have hsnd : (hs.zip (ids.map BlockStatus.new)).map (fun e => e.2.blockId) = ids := by
    have hz : (hs.zip (ids.map BlockStatus.new)).map Prod.snd = ids.map BlockStatus.new :=
      List.map_snd_zip (by rw [List.length_map, hlen])
    have hb : (fun e : η × BlockStatus => e.2.blockId) = BlockStatus.blockId ∘ Prod.snd := rfl
    rw [hb, ← List.map_map, hz, List.map_map]
    exact List.map_id ids
  refine ⟨hsize, ?_, ?_, halloc, fun e he => ?_, fun h hh => ?_, fun h hh hm => ?_, hl.fits⟩
  · rw [List.map_append, hfst]
    exact hl.keys.append hnd fun x hx hx' => hnew x hx' hx
  · rw [List.map_append, hsnd]
    exact hids
  · rcases List.mem_append.1 he with he | he
    · have hne : e.1 ∉ hs := fun hm => hnew e.1 hm (List.mem_map_of_mem he)
      have hdue : dueCount loads (stores ++ hs) e.1 = dueCount loads stores e.1 := by
        simp [Offload.dueCount, hne]
      rw [hdue]
      exact hl.refCnt e he
    · have hm : e.1 ∈ hs := hfst ▸ List.mem_map_of_mem he
      obtain ⟨i, -, hi⟩ := List.mem_map.1 (List.of_mem_zip he).2
      rw [← hi, Offload.dueCount, if_pos (List.mem_append_right _ hm)]
      rfl
  · rw [List.map_append, hfst, List.mem_append]
    rw [List.mem_append] at hh
    rcases hh with hh | hh | hh
    · exact .inl (hl.live h (.inl hh))
    · exact .inl (hl.live h (.inr hh))
    · exact .inr hh
  · rcases List.mem_append.1 hh with hh | hh
    · exact hl.apart h hh hm
    · exact hnew h hh (hl.live h (.inl hm))

end Ledger
end Gambit.Offload
