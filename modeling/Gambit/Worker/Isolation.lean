import Gambit.Lib.Machine
import Gambit.Worker.Sampling

/-!
# Allowed tokens and pooling flags

Two columns do not always move with their request: the rows of the allowed-token mask, which `condense`
leaves behind and `swap_states` copies twice, and the flag of pooling models, which nothing moves. In a
run in which no such row is used (`Clean`), they are those of the request of the row too.
-/

namespace Gambit.Worker
open Gambit.Lib

namespace InputBatch
variable {b : InputBatch} {i j n : Nat} {r : CachedRequestState} {rid : ReqId}

/-- Row `i` of the mask; before the tensor is allocated no row restricts anything. -/
def allowedRow (b : InputBatch) (i : Nat) : List Bool :=
  match b.allowedTokenIdsMask with
  | some m => m i
  | none => noMask b.vocabSize

/-- The request in row `i` has a restriction. -/
def Restricted (b : InputBatch) (i : Nat) (r : CachedRequestState) : Prop :=
  b.owner i = some r ∧ ∃ p, r.task = .sample p ∧ p.allowedTokenIds ≠ []

/-- The mask follows the owners: the ids with a restriction, the rows, and that it is allocated in time. -/
structure Masked (b : InputBatch) : Prop where
  nodup : b.hasAllowedTokenIds.Nodup
  ids : ∀ rid, rid ∈ b.hasAllowedTokenIds ↔ ∃ i r, b.Restricted i r ∧ r.reqId = rid
  rows : ∀ i r p, b.owner i = some r → r.task = .sample p → b.allowedRow i = p.maskRow b.vocabSize
  allocated : b.allowedTokenIdsMask = none → b.hasAllowedTokenIds = []

/-- The mask of the metadata has the rows of the requests. -/
lemma Masked.metadataMask (h : b.Masked) (hr : b.Restricted i r) :
    ∃ m, b.metadataMask = some m ∧
      ∀ j r' p, b.owner j = some r' → r'.task = .sample p → m j = p.maskRow b.vocabSize := by
  have hmem : r.reqId ∈ b.hasAllowedTokenIds := (h.ids _).2 ⟨i, r, hr, rfl⟩
  have hne : b.hasAllowedTokenIds.isEmpty = false := by
    cases hl : b.hasAllowedTokenIds with
    | nil =>
      rw [hl] at hmem
      cases hmem
    | cons a l => rfl
  cases hm : b.allowedTokenIdsMask with
  | none =>
    rw [h.allocated hm] at hmem
    cases hmem
  | some m =>
    refine ⟨m, ?_, fun j r' p ho ht => ?_⟩
    · rw [InputBatch.metadataMask, hne, if_neg (by exact Bool.false_ne_true), hm]
    · have hrow := h.rows j r' p ho ht
      rwa [allowedRow, hm] at hrow

/-- Removing a request clears its row of the mask. -/
lemma Masked.removeRequest (h : b.Masked) (hi : b.Indexed) (ht : b.Tracks) (rid : ReqId) :
    (b.removeRequest rid).Masked := by
  unfold InputBatch.removeRequest
  cases hg : b.reqIdToIndex.get? rid with
  | none => exact h
  | some i =>
    obtain ⟨r, ho, rfl⟩ := Option.map_eq_some_iff.1 ((hi.index rid i).1 hg)
    dsimp only
    have hown : ∀ j r', Function.update b.owner i none j = some r' ↔ j ≠ i ∧ b.owner j = some r' := by
      intro j r'
      rw [Function.update_apply]
      split
      · next hj => simp [hj]
      · next hj => simp [hj]
    split
    · next hb =>
      -- a pooling model has no restrictions
      have hnone : ∀ j r', ¬ b.Restricted j r' := by
        rintro j r' ⟨ho', p, hp, -⟩
        exact (ht.kind j r' ho').not_sample hb p hp
      refine ⟨h.nodup, fun x => ?_, fun j r' p ho' hp => ?_, h.allocated⟩
      · refine (h.ids x).trans ⟨fun ⟨j, r', hr, _⟩ => absurd hr (hnone j r'), ?_⟩
        rintro ⟨j, r', ⟨ho', hp⟩, -⟩
        exact absurd ⟨((hown j r').1 ho').2, hp⟩ (hnone j r')
      · exact absurd hp ((ht.kind j r' ((hown j r').1 ho').2).not_sample hb p)
    · next hb =>
      refine ⟨h.nodup.erase _, fun x => ?_, fun j r' p ho' hp => ?_, fun hm => ?_⟩
      · dsimp only
        rw [h.nodup.mem_erase_iff, h.ids]
        constructor
        · rintro ⟨hx, j, r', ⟨ho', hp⟩, rfl⟩
          refine ⟨j, r', ⟨(hown j r').2 ⟨?_, ho'⟩, hp⟩, rfl⟩
          rintro rfl
          rw [ho] at ho'
          cases ho'
          exact hx rfl
        · rintro ⟨j, r', ⟨ho', hp⟩, rfl⟩
          obtain ⟨hj, ho'⟩ := (hown j r').1 ho'
          exact ⟨fun he => hj (hi.inj ho' ho he), j, r', ⟨ho', hp⟩, rfl⟩
      · obtain ⟨hj, ho'⟩ := (hown j r').1 ho'
        rw [← h.rows j r' p ho' hp]
        unfold allowedRow
        dsimp only
        cases b.allowedTokenIdsMask with
        | none => rfl
        | some m => exact Function.update_of_ne hj _ _
      · dsimp only at hm ⊢
        rw [h.allocated (Option.map_eq_none_iff.1 hm)]
        rfl

/-- Adding a request with a restriction writes its row; one without needs a clean row. -/
lemma Masked.addRequest (h : b.Masked) (hwf : b.Wf)
    (hclean : ∀ p, r.task = .sample p → p.allowedTokenIds = [] →
      b.allowedRow b.newIndex = noMask b.vocabSize) : (b.addRequest r).Masked := by
  obtain ⟨-, hnone⟩ := hwf.newIndex_le
  obtain ⟨-, -, hown, -⟩ := addRequest_rows b r
  have hown' : ∀ j r', (b.addRequest r).owner j = some r' ↔
      (j = b.newIndex ∧ r' = r) ∨ (j ≠ b.newIndex ∧ b.owner j = some r') := by
    intro j r'
    rw [hown, Function.update_apply]
    split
    · next hj => simp [hj, eq_comm]
    · next hj => simp [hj]
  have hold : ∀ j r', b.owner j = some r' → (b.addRequest r).owner j = some r' := by
    intro j r' ho
    refine (hown' j r').2 (.inr ⟨?_, ho⟩)
    rintro rfl
    rw [hnone] at ho
    cases ho
  -- the restricted requests are those from before, and the new one if it is restricted
  have hres : ∀ x, (∃ j r', (b.addRequest r).Restricted j r' ∧ r'.reqId = x) ↔
      (∃ j r', b.Restricted j r' ∧ r'.reqId = x) ∨
        ((∃ p, r.task = .sample p ∧ p.allowedTokenIds ≠ []) ∧ r.reqId = x) := by
    intro x
    constructor
    · rintro ⟨j, r', ⟨ho, hp⟩, rfl⟩
      rcases (hown' j r').1 ho with ⟨-, rfl⟩ | ⟨-, ho⟩
      · exact .inr ⟨hp, rfl⟩
      · exact .inl ⟨j, r', ⟨ho, hp⟩, rfl⟩
    · rintro (⟨j, r', ⟨ho, hp⟩, rfl⟩ | ⟨hp, rfl⟩)
      · exact ⟨j, r', ⟨hold j r' ho, hp⟩, rfl⟩
      · exact ⟨b.newIndex, r, ⟨(hown' _ _).2 (.inl ⟨rfl, rfl⟩), hp⟩, rfl⟩
  have hsame : (b.addRequest r).hasAllowedTokenIds = b.hasAllowedTokenIds →
      (b.addRequest r).allowedTokenIdsMask = b.allowedTokenIdsMask →
      (b.addRequest r).vocabSize = b.vocabSize → (∀ p, r.task = .sample p → p.allowedTokenIds = []) →
      (b.addRequest r).Masked := by
    intro hids hmask hvoc hfree
    have hrow : (b.addRequest r).allowedRow = b.allowedRow := by
      funext j
      rw [allowedRow, allowedRow, hmask, hvoc]
    refine ⟨hids ▸ h.nodup, fun x => ?_, fun j r' p ho hp => ?_, fun hm => ?_⟩
    · rw [hids, h.ids, hres]
      refine ⟨.inl, fun hx => hx.resolve_right ?_⟩
      rintro ⟨⟨p, hp, hne⟩, -⟩
      exact hne (hfree p hp)
    · rw [hrow, hvoc]
      rcases (hown' j r').1 ho with ⟨rfl, rfl⟩ | ⟨-, ho⟩
      · rw [hclean p hp (hfree p hp), SamplingParams.maskRow, hfree p hp]
        rfl
      · exact h.rows j r' p ho hp
    · rw [hids]
      exact h.allocated (hmask ▸ hm)
  cases ht : r.task with
  | pool p =>
    refine hsame ?_ ?_ ?_ (fun q hq => by rw [ht] at hq; cases hq) <;>
      simp only [InputBatch.addRequest, addTask, ht]
  | sample p =>
    by_cases hp : p.allowedTokenIds = []
    · refine hsame ?_ ?_ ?_ (fun q hq => by rw [ht] at hq; cases hq; exact hp) <;>
        simp [InputBatch.addRequest, addTask, addSampling, ht, hp]
    · have hemp : p.allowedTokenIds.isEmpty = false := by simpa using hp
      have hids : (b.addRequest r).hasAllowedTokenIds = b.hasAllowedTokenIds.insert r.reqId := by
        simp [InputBatch.addRequest, addTask, addSampling, ht, hemp]
      have hmask : (b.addRequest r).allowedTokenIdsMask =
          some (Function.update (b.allowedTokenIdsMask.getD fun _ => noMask b.vocabSize) b.newIndex
            (maskOf b.vocabSize p.allowedTokenIds)) := by
        simp [InputBatch.addRequest, addTask, addSampling, ht, hemp]
      have hvoc : (b.addRequest r).vocabSize = b.vocabSize := by
        simp [InputBatch.addRequest, addTask, addSampling, ht]
      refine ⟨hids ▸ h.nodup.insert, fun x => ?_, fun j r' q ho hq => ?_, fun hm => ?_⟩
      · rw [hids, List.mem_insert_iff, h.ids, hres]
        constructor
        · rintro (rfl | hx)
          · exact .inr ⟨⟨p, ht, hp⟩, rfl⟩
          · exact .inl hx
        · rintro (hx | ⟨-, rfl⟩)
          · exact .inr hx
          · exact .inl rfl
      · rw [allowedRow, hmask, hvoc]
        dsimp only
        rcases (hown' j r').1 ho with ⟨rfl, rfl⟩ | ⟨hj, ho⟩
        · rw [Function.update_self]
          rw [ht] at hq
          cases hq
          rw [SamplingParams.maskRow, hemp]
          rfl
        · rw [Function.update_of_ne hj, ← h.rows j r' q ho hq, allowedRow]
          cases b.allowedTokenIdsMask <;> rfl
      · rw [hmask] at hm
        cases hm

/-- The mask after its rows were permuted or copied along with the owners. -/
lemma Masked.congr {c : InputBatch} (h : b.Masked) (σ : Nat → Nat)
    (hids : c.hasAllowedTokenIds = b.hasAllowedTokenIds) (hvoc : c.vocabSize = b.vocabSize)
    (hmask : c.allowedTokenIdsMask = none → b.allowedTokenIdsMask = none)
    (hown : ∀ j r, c.owner j = some r → b.owner (σ j) = some r)
    (hrow : ∀ j r p, c.owner j = some r → r.task = .sample p → c.allowedRow j = b.allowedRow (σ j))
    (hall : ∀ i r, b.owner i = some r → ∃ j, c.owner j = some r) : c.Masked := by
  refine ⟨hids ▸ h.nodup, fun x => ?_, fun j r p ho hp => ?_, fun hm => ?_⟩
  · rw [hids, h.ids]
    constructor
    · rintro ⟨i, r, ⟨ho, hp⟩, rfl⟩
      obtain ⟨j, hj⟩ := hall i r ho
      exact ⟨j, r, ⟨hj, hp⟩, rfl⟩
    · rintro ⟨j, r, ⟨ho, hp⟩, rfl⟩
      exact ⟨σ j, r, ⟨hown j r ho, hp⟩, rfl⟩
  · rw [hrow j r p ho hp, hvoc]
    exact h.rows _ r p (hown j r ho) hp
  · rw [hids]
    exact h.allocated (hmask hm)

/-- Where the request of a row was before a move. -/
lemma owner_moveRow_some {src dst : Nat} (ho : (b.moveRow src dst rid).owner j = some r) :
    j ≠ src ∧ b.owner (if j = dst then src else j) = some r := by
  rw [owner_moveRow] at ho
  by_cases hj : j = src
  · rw [if_pos hj] at ho
    cases ho
  · rw [if_neg hj] at ho
    refine ⟨hj, ?_⟩
    split at ho
    · next hd => rw [if_pos hd, ho]
    · next hd => rw [if_neg hd, ho]

/-- Moving a request down copies its row of the mask. -/
lemma Masked.moveRow {src dst : Nat} (h : b.Masked) (ht : b.Tracks) (hdn : b.owner dst = none)
    (hlt : dst < src) : (b.moveRow src dst rid).Masked := by
  obtain ⟨hpool, hvoc⟩ := moveRow_model b src dst rid
  have hids : (b.moveRow src dst rid).hasAllowedTokenIds = b.hasAllowedTokenIds := by
    unfold InputBatch.moveRow
    dsimp only
    split <;> rfl
  refine h.congr (fun j => if j = dst then src else j) hids hvoc (fun hm => ?_)
    (fun j r ho => (owner_moveRow_some ho).2) (fun j r p ho hp => ?_) (fun i r ho => ?_)
  · unfold InputBatch.moveRow at hm
    dsimp only at hm
    split at hm
    · exact hm
    · exact Option.map_eq_none_iff.1 hm
  · have hb : b.isPoolingModel ≠ true := fun hb =>
      (ht.kind _ r (owner_moveRow_some ho).2).not_sample hb p hp
    unfold InputBatch.moveRow moveSampling
    rw [if_neg hb]
    unfold allowedRow
    dsimp only
    cases b.allowedTokenIdsMask with
    | none => rfl
    | some m =>
      by_cases hjd : j = dst
      · rw [if_pos hjd, hjd]
        exact Function.update_self _ _ _
      · rw [if_neg hjd]
        exact Function.update_of_ne hjd _ _
  · by_cases hi : i = src
    · refine ⟨dst, ?_⟩
      rw [owner_moveRow, if_neg (by omega), if_pos rfl, ← hi, ho]
    · refine ⟨i, ?_⟩
      have hid : i ≠ dst := by
        rintro rfl
        rw [hdn] at ho
        cases ho
      rw [owner_moveRow, if_neg hi, if_neg hid, ho]

/-- Swapping two filled rows makes both rows of the mask the second one: harmless if they are equal. -/
lemma Masked.swapStates {i1 i2 : Nat} {r1 r2 : CachedRequestState} (h : b.Masked) (hi : b.Indexed)
    (ht : b.Tracks) (h1 : b.owner i1 = some r1) (h2 : b.owner i2 = some r2)
    (hclean : b.isPoolingModel = false → b.allowedRow i1 = b.allowedRow i2) :
    (b.swapStates i1 i2).Masked := by
  obtain ⟨-, hvoc, -⟩ := swapStates_model hi h1 h2
  obtain ⟨-, -, hown, -⟩ := swapStates_rows hi h1 h2
  have e1 : (b.reqIds[i1]?).join = some r1.reqId := by rw [hi.ids, h1, Option.map_some]
  have e2 : (b.reqIds[i2]?).join = some r2.reqId := by rw [hi.ids, h2, Option.map_some]
  have hfrom : ∀ j, (b.swapStates i1 i2).owner j = b.owner (Equiv.swap i1 i2 j) := by
    intro j
    rw [hown, swapValues_eq]
  have hids : (b.swapStates i1 i2).hasAllowedTokenIds = b.hasAllowedTokenIds := by
    unfold InputBatch.swapStates
    rw [e1, e2]
    dsimp only
    split <;> rfl
  refine h.congr (Equiv.swap i1 i2) hids hvoc (fun hm => ?_) (fun j r ho => (hfrom j).symm.trans ho)
    (fun j r p ho hp => ?_) (fun i r ho => ⟨Equiv.swap i1 i2 i, ?_⟩)
  · unfold InputBatch.swapStates at hm
    rw [e1, e2] at hm
    dsimp only at hm
    split at hm
    · exact hm
    · exact Option.map_eq_none_iff.1 hm
  · rw [hfrom] at ho
    have hb : b.isPoolingModel = false := by
      cases hb : b.isPoolingModel with
      | false => rfl
      | true => exact absurd hp ((ht.kind _ r ho).not_sample hb p)
    have hrows := hclean hb
    unfold InputBatch.swapStates swapSampling
    rw [e1, e2]
    dsimp only
    rw [if_neg (by simp [hb])]
    unfold allowedRow at hrows ⊢
    dsimp only
    cases hm : b.allowedTokenIdsMask with
    | none => rfl
    | some m =>
      rw [hm] at hrows
      dsimp only at hrows
      rw [Option.map_some]
      simp only [copyRows, Function.update_apply, Equiv.swap_apply_def]
      split_ifs <;> simp_all
  · rw [hfrom, Equiv.swap_apply_self, ho]

/-- The flags follow the owners. -/
def Flagged (b : InputBatch) : Prop :=
  ∀ i r p, b.owner i = some r → r.task = .pool p → b.logitsProcessingNeedsTokenIds i = p.requiresTokenIds

/-- The moves of the loop of `condense`. -/
def condenseMoves : Nat → InputBatch → List (Nat × Nat)
  | 0, _ => []
  | last + 1, b =>
    match b.builder.peekRemoved with
    | none => []
    | some empty =>
      if last ∈ b.builder.removed then condenseMoves last b
      else if last ≤ empty then []
      else match (b.reqIds[last]?).join with
        | none => []
        | some rid => (last, empty) :: condenseMoves last (b.moveRow last empty rid)

/-- Each move finds in its target row the flag of the request it moves. -/
def FlagsAgree (n : Nat) (b : InputBatch) : Prop :=
  ∀ mv ∈ condenseMoves n b, b.logitsProcessingNeedsTokenIds mv.1 = b.logitsProcessingNeedsTokenIds mv.2

instance (n : Nat) (b : InputBatch) : Decidable (b.FlagsAgree n) :=
  inferInstanceAs (Decidable (∀ mv ∈ condenseMoves n b, _ = _))

/-- Nothing but `add_request` writes a flag. -/
lemma flags_removeRequest (b : InputBatch) (rid : ReqId) :
    (b.removeRequest rid).logitsProcessingNeedsTokenIds = b.logitsProcessingNeedsTokenIds := by
  unfold InputBatch.removeRequest
  split
  · rfl
  · dsimp only
    split <;> rfl

lemma flags_moveRow (b : InputBatch) (src dst : Nat) (rid : ReqId) :
    (b.moveRow src dst rid).logitsProcessingNeedsTokenIds = b.logitsProcessingNeedsTokenIds := by
  unfold InputBatch.moveRow
  dsimp only
  split <;> rfl

lemma flags_swapStates (b : InputBatch) (i1 i2 : Nat) :
    (b.swapStates i1 i2).logitsProcessingNeedsTokenIds = b.logitsProcessingNeedsTokenIds := by
  unfold InputBatch.swapStates
  split
  · dsimp only
    split <;> rfl
  · rfl

/-- Removing a request keeps the flags of the others. -/
lemma Flagged.removeRequest (h : b.Flagged) (rid : ReqId) : (b.removeRequest rid).Flagged := by
  intro j r p ho hp
  rw [flags_removeRequest]
  rcases removeRequest_cases b rid with ⟨-, he⟩ | ⟨i, -, -, -, hown, -⟩
  · exact h j r p (he ▸ ho) hp
  · rw [hown, Function.update_apply] at ho
    split at ho
    · cases ho
    · exact h j r p ho hp

/-- A request that pools writes its flag. -/
lemma Flagged.addRequest (h : b.Flagged) : (b.addRequest r).Flagged := by
  obtain ⟨-, -, hown, -⟩ := addRequest_rows b r
  intro j r' p ho hp
  rw [hown, Function.update_apply] at ho
  split at ho
  · next hj =>
    cases ho
    simp [InputBatch.addRequest, addTask, hp, hj]
  · next hj =>
    rw [← h j r' p ho hp]
    unfold InputBatch.addRequest addTask
    dsimp only
    split
    · rfl
    · exact Function.update_of_ne hj _ _

/-- A request that pools is there for a pooling model. -/
lemma Fits.isPoolingModel {p : PoolingParams} (h : b.Fits r) (hp : r.task = .pool p) :
    b.isPoolingModel = true := by
  rw [Fits, hp] at h
  exact h.symm

/-- A move keeps the flags right if the target row has the flag of the request. -/
lemma Flagged.moveRow {src dst : Nat} (h : b.Flagged) (ht : b.Tracks)
    (hflag : b.isPoolingModel = true →
      b.logitsProcessingNeedsTokenIds src = b.logitsProcessingNeedsTokenIds dst) :
    (b.moveRow src dst rid).Flagged := by
  intro j r p ho hp
  obtain ⟨-, ho⟩ := owner_moveRow_some ho
  have hb := (ht.kind _ r ho).isPoolingModel hp
  rw [flags_moveRow]
  split at ho
  · next hj =>
    rw [hj, ← hflag hb]
    exact h src r p ho hp
  · exact h j r p ho hp

/-- A swap keeps the flags right if they are equal. -/
lemma Flagged.swapStates {i1 i2 : Nat} {r1 r2 : CachedRequestState} (h : b.Flagged) (hi : b.Indexed)
    (ht : b.Tracks) (h1 : b.owner i1 = some r1) (h2 : b.owner i2 = some r2)
    (hflag : b.isPoolingModel = true →
      b.logitsProcessingNeedsTokenIds i1 = b.logitsProcessingNeedsTokenIds i2) :
    (b.swapStates i1 i2).Flagged := by
  obtain ⟨-, -, hown, -⟩ := swapStates_rows hi h1 h2
  intro j r p ho hp
  rw [hown, swapValues_apply] at ho
  rw [flags_swapStates]
  split at ho
  · next hj =>
    rw [hj, ← hflag ((ht.kind i1 r ho).isPoolingModel hp)]
    exact h i1 r p ho hp
  · split at ho
    · next hj =>
      rw [hj, hflag ((ht.kind i2 r ho).isPoolingModel hp)]
      exact h i2 r p ho hp
    · exact h j r p ho hp

/-- The first move of the loop is clean, and so is the rest of it. -/
lemma FlagsAgree.moveRow {last dst : Nat} (h : b.FlagsAgree (last + 1)) (hc : b.Condensing (last + 1))
    (hd : b.builder.peekRemoved = some dst) (ho : b.owner last = some r) (hlt : dst < last) :
    b.logitsProcessingNeedsTokenIds last = b.logitsProcessingNeedsTokenIds dst ∧
      (b.moveRow last dst r.reqId).FlagsAgree last := by
  have hmoves : condenseMoves (last + 1) b =
      (last, dst) :: condenseMoves last (b.moveRow last dst r.reqId) := by
    have hnot : last ∉ b.builder.removed := by
      intro hm
      rw [hc.empty last hm] at ho
      cases ho
    have hid : (b.reqIds[last]?).join = some r.reqId := by rw [hc.ids, ho, Option.map_some]
    rw [condenseMoves, hd]
    dsimp only
    rw [if_neg hnot, if_neg (by omega), hid]
  rw [FlagsAgree, hmoves] at h
  refine ⟨h _ List.mem_cons_self, fun mv hmv => ?_⟩
  rw [flags_moveRow]
  exact h mv (List.mem_cons_of_mem _ hmv)

/-- Skipping an empty row leaves the moves as they are. -/
lemma FlagsAgree.skip {last : Nat} (h : b.FlagsAgree (last + 1)) (hm : last ∈ b.builder.removed) :
    b.FlagsAgree last := by
  have hmoves : condenseMoves (last + 1) b = condenseMoves last b := by
    rw [condenseMoves]
    cases hd : b.builder.peekRemoved with
    | none =>
      rw [List.min?_eq_none_iff.1 hd] at hm
      cases hm
    | some dst => simp only [if_pos hm]
  rwa [FlagsAgree, hmoves] at h

end InputBatch

/-- The request samples without a restriction. -/
def Task.isUnrestricted : Task → Bool
  | .sample p => p.allowedTokenIds.isEmpty
  | .pool _ => false

/-- The rows a call uses have no state of another request that is not moved with it: a request without
allowed tokens is added to a row that restricts nothing, two rows that are swapped have the same mask, and
in a pooling model a request is moved or swapped into a row with its flag. -/
def BatchState.Clean (s : BatchState) : Call → Prop
  | .add r =>
    r.task.isUnrestricted = true → s.batch.allowedRow s.batch.newIndex = noMask s.batch.vocabSize
  | .condense =>
    s.batch.isPoolingModel = true → s.batch.FlagsAgree (s.batch.numReqs + s.batch.builder.removed.length)
  | .swap i1 i2 =>
    if s.batch.isPoolingModel then
      s.batch.logitsProcessingNeedsTokenIds i1 = s.batch.logitsProcessingNeedsTokenIds i2
    else s.batch.allowedRow i1 = s.batch.allowedRow i2
  | .remove _ | .refresh => True

instance (s : BatchState) : (c : Call) → Decidable (s.Clean c)
  | .add _ => inferInstanceAs (Decidable (_ → _))
  | .condense => inferInstanceAs (Decidable (_ → _))
  | .swap i1 i2 =>
    inferInstanceAs (Decidable (if s.batch.isPoolingModel then
      s.batch.logitsProcessingNeedsTokenIds i1 = s.batch.logitsProcessingNeedsTokenIds i2
      else s.batch.allowedRow i1 = s.batch.allowedRow i2))
  | .remove _ | .refresh => inferInstanceAs (Decidable True)

/-- Every row has the state of its request. -/
structure InputBatch.Own (b : InputBatch) : Prop where
  tracks : b.Tracks
  masked : b.Masked
  flagged : b.Flagged

/-- The state of a row does not depend on the list of ids and the log. -/
lemma InputBatch.Own.congr {b : InputBatch} (h : b.Own) (ids : List (Option ReqId))
    (log : BatchUpdateBuilder) : InputBatch.Own { b with reqIds := ids, builder := log } :=
  ⟨⟨h.tracks.kind, h.tracks.lora, h.tracks.view, h.tracks.fresh⟩,
    ⟨h.masked.nodup, h.masked.ids, h.masked.rows, h.masked.allocated⟩, h.flagged⟩

/-- An empty batch. -/
lemma InputBatch.Own.init {b : InputBatch} (ho : ∀ i, b.owner i = none) (hg : b.generators = ∅)
    (hw : b.badWordsTokenIds = ∅) (ha : b.hasAllowedTokenIds = []) : b.Own := by
  have hnone : ∀ i r, b.owner i ≠ some r := by
    intro i r h
    rw [ho] at h
    cases h
  refine ⟨⟨fun i r h => absurd h (hnone i r), fun i r h => absurd h (hnone i r),
    fun i r p h => absurd h (hnone i r), fun i _ => ?_⟩,
    ⟨ha ▸ List.nodup_nil, fun rid => ?_, fun i r p h => absurd h (hnone i r), fun _ => ha⟩,
    fun i r p h => absurd h (hnone i r)⟩
  · rw [hg, hw]
    exact ⟨rfl, rfl⟩
  · rw [ha]
    exact ⟨nofun, fun ⟨i, r, hr, _⟩ => absurd hr.1 (hnone i r)⟩

/-- `condense` keeps the state of the rows, if it moves no pooling request into a row with another flag. -/
lemma InputBatch.Own.condense {b : InputBatch} (h : b.Own) (hwf : b.Wf)
    (hflags : b.isPoolingModel = true → b.FlagsAgree (b.numReqs + b.builder.removed.length)) :
    b.condense.Own := by
  obtain ⟨-, m, c, ids, ⟨hown, -⟩, he⟩ := hwf.condense
    (P := fun n c => c.Own ∧ (c.isPoolingModel = true → c.FlagsAgree n)) ⟨h, hflags⟩
    (fun hm hP => ⟨hP.1, fun hb => (hP.2 hb).skip hm⟩)
    (fun {c last dst r} hc hd ho hlt hP => by
      have hdn : c.owner dst = none := hc.empty dst (List.min?_eq_some_iff.1 hd).1
      have hagree := fun hb => (hP.2 hb).moveRow hc hd ho hlt
      refine ⟨⟨hP.1.tracks.moveRow hdn hlt, hP.1.masked.moveRow hP.1.tracks hdn hlt,
        hP.1.flagged.moveRow hP.1.tracks fun hb => (hagree hb).1⟩, fun hb => ?_⟩
      rw [(moveRow_model c last dst r.reqId).1] at hb
      exact (hagree hb).2)
  rw [he]
  exact hown.congr ids c.builder

/-- Every clean call keeps the state of the rows. -/
lemma BatchState.own_next {s : BatchState} {c : Call} (h : s.batch.Own) (hwf : s.Wf) (ha : s.Allowed c)
    (hc : s.Clean c) : (s.next c).batch.Own := by
  cases c with
  | remove rid =>
    exact ⟨h.tracks.removeRequest rid, h.masked.removeRequest hwf.indexed h.tracks rid,
      h.flagged.removeRequest rid⟩
  | add r =>
    refine ⟨h.tracks.addRequest (hwf.wf ha.1) ha.2.2.1, h.masked.addRequest (hwf.wf ha.1) fun p hp hn => ?_,
      h.flagged.addRequest⟩
    exact hc (by rw [hp, Task.isUnrestricted, hn, List.isEmpty_nil])
  | condense => exact h.condense (hwf.wf ha) hc
  | swap i1 i2 =>
    have hp := hwf.packed ha.1
    obtain ⟨r1, h1⟩ := Option.isSome_iff_exists.1 ((hp.full i1).2 ha.2.1)
    obtain ⟨r2, h2⟩ := Option.isSome_iff_exists.1 ((hp.full i2).2 ha.2.2)
    simp only [BatchState.Clean] at hc
    refine ⟨h.tracks.swapStates hp.toIndexed h1 h2,
      h.masked.swapStates hp.toIndexed h.tracks h1 h2 fun hb => ?_,
      h.flagged.swapStates hp.toIndexed h.tracks h1 h2 fun hb => ?_⟩
    · rwa [if_neg (by simp [hb])] at hc
    · rwa [if_pos hb] at hc
  | refresh => exact h.congr s.batch.reqIds {}

/-- The batch of a new worker. -/
abbrev batchMachine (isPoolingModel : Bool) (vocabSize maxNumReqs : Nat) : Machine BatchState Call Unit where
  init := { batch := { isPoolingModel := isPoolingModel, vocabSize := vocabSize, maxNumReqs := maxNumReqs } }
  next s c := (s.next c, ())
  ok _ _ := True

/-- The request last added under an id. -/
def lastAdded (h : List Call) (rid : ReqId) : Option CachedRequestState :=
  h.foldl (fun o c => match c with
    | .add r => if r.reqId = rid then some r else o
    | _ => o) none

/-- The last addition decides. -/
lemma lastAdded_add (h : List Call) (r : CachedRequestState) (rid : ReqId) :
    lastAdded (h ++ [.add r]) rid = if r.reqId = rid then some r else lastAdded h rid := by
  rw [lastAdded, List.foldl_append]
  rfl

/-- The request in a row: the one last added under the id of the row. -/
def rowRequest (h : List Call) (b : InputBatch) (i : Nat) : Option CachedRequestState :=
  (b.reqIds[i]?).join.bind (lastAdded h)

/-- The rows of the batch have the sampling state of their own requests. -/
structure SamplingStateOwn (h : List Call) (b : InputBatch) : Prop where
  lora : ∀ i r, rowRequest h b i = some r → (b.base i).loraMapping = r.loraRequest.getD 0
  view : ∀ i r p, rowRequest h b i = some r → r.task = .sample p → b.view i = InputBatch.viewOf b.vocabSize r p
  mask : ∀ i r p, rowRequest h b i = some r → r.task = .sample p →
    (∃ j r' p', rowRequest h b j = some r' ∧ r'.task = .sample p' ∧ p'.allowedTokenIds ≠ []) →
    b.metadataMask.map (fun m => m i) = some (p.maskRow b.vocabSize)
  flag : ∀ i r p, rowRequest h b i = some r → r.task = .pool p →
    b.logitsProcessingNeedsTokenIds i = p.requiresTokenIds

section Runs
variable {pooling : Bool} {vocabSize maxNumReqs : Nat} {h : List Call} {o : List Unit} {s : BatchState}

/-- A request in the batch after a call was there before it, or is added by it. -/
lemma BatchState.owner_next {c : Call} {j : Nat} {r : CachedRequestState} (hwf : s.Wf) (ha : s.Allowed c)
    (ho : (s.next c).batch.owner j = some r) : (∃ i, s.batch.owner i = some r) ∨ c = .add r := by
  cases c with
  | remove rid =>
    rcases InputBatch.removeRequest_cases s.batch rid with ⟨-, he⟩ | ⟨i, -, -, -, hown, -⟩
    · exact .inl ⟨j, he ▸ ho⟩
    · have ho : (s.batch.removeRequest rid).owner j = some r := ho
      rw [hown, Function.update_apply] at ho
      split at ho
      · cases ho
      · exact .inl ⟨j, ho⟩
  | add r' =>
    have ho : (s.batch.addRequest r').owner j = some r := ho
    rw [(InputBatch.addRequest_rows s.batch r').2.2.1, Function.update_apply] at ho
    split at ho
    · cases ho
      exact .inr rfl
    · exact .inl ⟨j, ho⟩
  | condense =>
    obtain ⟨-, m, c, ids, hold, he⟩ := (hwf.wf ha).condense
      (P := fun _ c => ∀ j r, c.owner j = some r → ∃ i, s.batch.owner i = some r)
      (fun j r ho => ⟨j, ho⟩) (fun _ hP => hP)
      (fun _ _ _ _ hP j r ho => hP _ r (InputBatch.owner_moveRow_some ho).2)
    have ho : s.batch.condense.owner j = some r := ho
    rw [he] at ho
    exact .inl (hold j r ho)
  | swap i1 i2 =>
    have hp := hwf.packed ha.1
    obtain ⟨r1, h1⟩ := Option.isSome_iff_exists.1 ((hp.full i1).2 ha.2.1)
    obtain ⟨r2, h2⟩ := Option.isSome_iff_exists.1 ((hp.full i2).2 ha.2.2)
    have ho : (s.batch.swapStates i1 i2).owner j = some r := ho
    rw [(InputBatch.swapStates_rows hp.toIndexed h1 h2).2.2.1, InputBatch.swapValues_eq] at ho
    exact .inl ⟨_, ho⟩
  | refresh => exact .inl ⟨j, ho⟩

/-- The owner of a row is the request last added under its id. -/
lemma lastAdded_owner (run : (batchMachine pooling vocabSize maxNumReqs).Runs h o s)
    (hc : (batchMachine pooling vocabSize maxNumReqs).Along BatchState.Allowed h) :
    s.Wf ∧ ∀ i r, s.batch.owner i = some r → lastAdded h r.reqId = some r := by
  induction run with
  | init => exact ⟨.init rfl (fun _ => rfl) rfl rfl rfl, fun i r ho => nomatch ho⟩
  | @step h o s c run _ ih =>
    obtain ⟨hc, ha⟩ := run.along_concat hc
    obtain ⟨hwf, hlast⟩ := ih hc
    refine ⟨hwf.next ha, fun i r ho => ?_⟩
    rcases BatchState.owner_next hwf ha ho with ⟨j, hj⟩ | rfl
    · cases c with
      | add r' =>
        have hne : r'.reqId ≠ r.reqId := by
          intro he
          refine ha.2.1 (Dict.mem_of_get? ((hwf.indexed.index r'.reqId j).2 ?_))
          rw [hj, Option.map_some, he]
        rw [lastAdded_add, if_neg hne]
        exact hlast j r hj
      | remove _ | condense | swap _ _ | refresh =>
        rw [lastAdded, List.foldl_append]
        exact hlast j r hj
    · rw [lastAdded_add, if_pos rfl]

/-- The request of a row is its owner. -/
lemma rowRequest_eq (hwf : s.Wf) (hlast : ∀ i r, s.batch.owner i = some r → lastAdded h r.reqId = some r)
    (i : Nat) : rowRequest h s.batch i = s.batch.owner i := by
  rw [rowRequest, hwf.indexed.ids]
  cases ho : s.batch.owner i with
  | none => rfl
  | some r => exact hlast i r ho

/-- In every run of calls none of which uses a row with a mask or flag that another request left there, the
rows below `num_reqs` are filled when the metadata is refreshed, and every row has at all times the
sampling state of its own request. -/
theorem sampling_state_own (run : (batchMachine pooling vocabSize maxNumReqs).Runs h o s)
    (hc : (batchMachine pooling vocabSize maxNumReqs).Along (fun s c => s.Allowed c ∧ s.Clean c) h) :
    SamplingStateOwn h s.batch ∧
      (s.phase = .swapping → ∀ i, (rowRequest h s.batch i).isSome ↔ i < s.batch.numReqs) := by
  obtain ⟨hwf, hlast⟩ := lastAdded_owner run (hc.mono fun _ _ h => h.1)
  have hrow := rowRequest_eq hwf hlast
  have hown : s.batch.Own := by
    induction run with
    | init => exact .init (fun _ => rfl) rfl rfl rfl
    | step run _ ih =>
      obtain ⟨hc, ha, hclean⟩ := run.along_concat hc
      obtain ⟨hwf, hlast⟩ := lastAdded_owner run (hc.mono fun _ _ h => h.1)
      exact BatchState.own_next (ih hc hwf hlast (rowRequest_eq hwf hlast)) hwf ha hclean
  refine ⟨⟨fun i r hr => ?_, fun i r p hr hp => ?_, fun i r p hr hp hres => ?_, fun i r p hr hp => ?_⟩,
    fun hp i => ?_⟩
  · exact hown.tracks.lora i r (hrow i ▸ hr)
  · exact hown.tracks.view i r p (hrow i ▸ hr) hp
  · obtain ⟨j, r', p', hr', hp', hne⟩ := hres
    obtain ⟨m, hm, hrows⟩ := hown.masked.metadataMask (⟨hrow j ▸ hr', p', hp', hne⟩)
    rw [hm, Option.map_some, hrows i r p (hrow i ▸ hr) hp]
  · exact hown.flagged i r p (hrow i ▸ hr) hp
  · rw [hrow]
    exact (hwf.packed hp).full i

end Runs

instance (pooling : Bool) (vocabSize maxNumReqs : Nat) (h : List Call) (c : Call) :
    Decidable ((batchMachine pooling vocabSize maxNumReqs).ok h c) :=
  inferInstanceAs (Decidable True)

/-- A request that may only sample the given tokens. -/
def allowing (rid : ReqId) (allowed : List Token) : CachedRequestState :=
  { reqId := rid, task := .sample { allowedTokenIds := allowed } }

/-- A request that pools. -/
def needing (rid : ReqId) (tokenIds : Bool) : CachedRequestState :=
  { reqId := rid, task := .pool { requiresTokenIds := tokenIds } }

/-- A request is replaced in its row, the last one is moved down, and two of the same kind are swapped. -/
def replaceAndMove : List Call :=
  [.add (allowing ['a'] []), .add (allowing ['b'] [1]), .add (allowing ['c'] [0]), .condense, .refresh,
    .remove ['a'], .remove ['b'], .add (allowing ['d'] [0]), .condense, .swap 0 1]

theorem sampling_state_own_replace_and_move :
    SamplingStateOwn replaceAndMove ((batchMachine false 2 4).exec replaceAndMove).2.batch ∧
      ((batchMachine false 2 4).exec replaceAndMove).2.batch.reqIds = [some ['c'], some ['d']] := by
  have hrun : (batchMachine false 2 4).Runs replaceAndMove _ _ := .of_exec (by decide +kernel)
  exact ⟨(sampling_state_own hrun (by decide +kernel)).1, by decide +kernel⟩

/-- A request without allowed tokens gets the row that another one left when it was moved down. -/
def addToVacatedRow : List Call :=
  [.add (allowing ['a'] []), .add (allowing ['b'] [0]), .condense, .refresh,
    .remove ['a'], .condense, .refresh, .add (allowing ['c'] []), .condense]

/-- Two rows are swapped, one of them restricted. -/
def swapRestricted : List Call := [.add (allowing ['a'] [0]), .add (allowing ['b'] []), .condense, .swap 0 1]

/-- A pooling request is moved into a row with another flag. -/
def moveFlag : List Call :=
  [.add (needing ['a'] false), .add (needing ['b'] true), .condense, .refresh, .remove ['a'], .condense]

/-- Allowed calls leak: an unrestricted request may only sample the token of another one, a swap frees a
restricted request, and a pooling request gets the flag of the one that was in its row. -/
theorem sampling_state_leaks :
    ((batchMachine false 2 2).Along BatchState.Allowed addToVacatedRow ∧
      ¬ SamplingStateOwn addToVacatedRow ((batchMachine false 2 2).exec addToVacatedRow).2.batch) ∧
    ((batchMachine false 2 2).Along BatchState.Allowed swapRestricted ∧
      ¬ SamplingStateOwn swapRestricted ((batchMachine false 2 2).exec swapRestricted).2.batch) ∧
    ((batchMachine true 2 2).Along BatchState.Allowed moveFlag ∧
      ¬ SamplingStateOwn moveFlag ((batchMachine true 2 2).exec moveFlag).2.batch) := by
  refine ⟨⟨by decide +kernel, fun h => ?_⟩, ⟨by decide +kernel, fun h => ?_⟩, by decide +kernel, fun h => ?_⟩
  · have hm := h.mask 1 (allowing ['c'] []) _ (by decide +kernel) rfl
      ⟨0, allowing ['b'] [0], _, by decide +kernel, rfl, by decide⟩
    exact absurd hm (by decide +kernel)
  · have hm := h.mask 1 (allowing ['a'] [0]) _ (by decide +kernel) rfl
      ⟨1, allowing ['a'] [0], _, by decide +kernel, rfl, by decide⟩
    exact absurd hm (by decide +kernel)
  · have hm := h.flag 0 (needing ['b'] true) _ (by decide +kernel) rfl
    exact absurd hm (by decide +kernel)

end Gambit.Worker
