import Gambit.Lib.Loop
import Gambit.Lib.Machine
import Gambit.Worker.Rows

/-!
# Sampling state does not leak between requests

Through every update of the batch the sampling state of a filled row is that of its own request. Two
columns are not always moved with the request: the rows of the allowed-token mask, which `condense` leaves
behind and `swap_states` copies twice, and the flag of pooling models, which nothing moves. Their part is
shown for the runs in which no such row is used.
-/

namespace Gambit.Worker
open Gambit.Lib

/-- The mask row of a request. -/
def SamplingParams.maskRow (vocabSize : Nat) (p : SamplingParams) : List Bool :=
  if p.allowedTokenIds.isEmpty then noMask vocabSize else maskOf vocabSize p.allowedTokenIds

/-- The entry of a request in `bad_words_token_ids`. -/
def SamplingParams.badWords (p : SamplingParams) : Option (List (List Token)) :=
  if p.badWordsTokenIds.isEmpty then none else some p.badWordsTokenIds

namespace InputBatch
variable {b : InputBatch} {i j k1 k2 : Nat} {r : CachedRequestState} {rid : ReqId} 

/-- The mask of `_make_sampling_metadata`: only there if some request has a restriction. -/
def metadataMask (b : InputBatch) : Option (Nat → List Bool) :=
  if b.hasAllowedTokenIds.isEmpty then none else b.allowedTokenIdsMask

lemma get?_putOrPop {β : Type} (d : Dict Nat β) (v : Option β) :
    (putOrPop d i v).get? j = if j = i then v else d.get? j := by
  cases v with
  | some v => exact Dict.get?_set d i j v
  | none => exact Dict.get?_erase d i j

lemma get?_swapDictValues {β : Type} (d : Dict Nat β) :
    (swapDictValues d k1 k2).get? j = swapValues d.get? k1 k2 j := by
  rw [swapDictValues, get?_putOrPop, get?_putOrPop, swapValues_apply]
  by_cases h1 : j = k1
  · by_cases h2 : j = k2
    · rw [if_pos h1, if_pos h2, ← h1, ← h2]
    · rw [if_pos h1, if_neg h2, if_pos h1]
  · rw [if_neg h1, if_neg h1]

lemma get?_moveDictValue {β : Type} (d : Dict Nat β) (hne : k1 ≠ k2) (hnone : d.get? k2 = none) :
    (moveDictValue d k1 k2).get? j = if j = k1 then none else if j = k2 then d.get? k1 else d.get? j := by
  unfold moveDictValue
  cases hv : d.get? k1 with
  | none =>
    rw [Dict.get?_erase]
    by_cases h1 : j = k1
    · rw [if_pos h1, if_pos h1]
    · rw [if_neg h1, if_neg h1]
      by_cases h2 : j = k2
      · rw [if_pos h2, h2, hnone]
      · rw [if_neg h2]
  | some v =>
    rw [Dict.get?_set, Dict.get?_erase]
    by_cases h2 : j = k2
    · rw [if_pos h2, if_neg (h2 ▸ Ne.symm hne), if_pos h2]
    · rw [if_neg h2, if_neg h2]

/-- The sampling state of a row, without the mask and the pooling flag. -/
structure RowView where
  sampling : SamplingRow
  generator : Option Int
  badWords : Option (List (List Token))
  lora : Nat

/-- The sampling state of a row. -/
def view (b : InputBatch) (i : Nat) : RowView where
  sampling := b.sampling i
  generator := b.generators.get? i
  badWords := b.badWordsTokenIds.get? i
  lora := (b.base i).loraMapping

/-- What the view of a filled row should be: the parameters of its request. -/
def viewOf (vocabSize : Nat) (r : CachedRequestState) (p : SamplingParams) : RowView where
  sampling := samplingRow vocabSize p
  generator := r.generator
  badWords := p.badWords
  lora := r.loraRequest.getD 0

/-- The columns that always move follow the owners, and empty rows have no entries. -/
structure Tracks (b : InputBatch) : Prop where
  kind : ∀ i r, b.owner i = some r → b.Fits r
  lora : ∀ i r, b.owner i = some r → (b.base i).loraMapping = r.loraRequest.getD 0
  view : ∀ i r p, b.owner i = some r → r.task = .sample p → b.view i = viewOf b.vocabSize r p
  fresh : ∀ i, b.isPoolingModel = true ∨ b.owner i = none →
    b.generators.get? i = none ∧ b.badWordsTokenIds.get? i = none

/-- A model that samples has requests that sample. -/
lemma Fits.sample (h : b.Fits r) (hb : b.isPoolingModel = false) : ∃ p, r.task = .sample p := by
  unfold Fits at h
  cases ht : r.task with
  | sample p => exact ⟨p, rfl⟩
  | pool p =>
    rw [ht, hb] at h
    cases h

/-- A pooling model has requests that pool. -/
lemma Fits.pool (h : b.Fits r) (hb : b.isPoolingModel = true) : ∃ p, r.task = .pool p := by
  unfold Fits at h
  cases ht : r.task with
  | pool p => exact ⟨p, rfl⟩
  | sample p =>
    rw [ht, hb] at h
    cases h

/-- A pooling model has no requests that sample. -/
lemma Fits.not_sample (h : b.Fits r) (hb : b.isPoolingModel = true) (p : SamplingParams) :
    r.task ≠ .sample p := by
  obtain ⟨q, hq⟩ := h.pool hb
  rw [hq]
  exact nofun

/-- Whether a request fits depends on the model only. -/
lemma Fits.congr {c : InputBatch} (h : b.Fits r) (hc : c.isPoolingModel = b.isPoolingModel) : c.Fits r :=
  h.trans hc.symm

/-- Removing a request keeps the other rows and clears its own. -/
lemma Tracks.removeRequest (h : b.Tracks) (rid : ReqId) : (b.removeRequest rid).Tracks := by
  unfold InputBatch.removeRequest
  cases hi : b.reqIdToIndex.get? rid with
  | none => exact h
  | some i =>
    dsimp only
    have hlora : ∀ j r, Function.update b.owner i none j = some r →
        (Function.update b.base i { b.base i with loraMapping := 0 } j).loraMapping =
          r.loraRequest.getD 0 := by
      intro j r ho
      by_cases hj : j = i
      · rw [hj, Function.update_self] at ho
        cases ho
      · rw [Function.update_of_ne hj] at ho ⊢
        exact h.lora j r ho
    have hkind : ∀ j r, Function.update b.owner i none j = some r → b.Fits r := by
      intro j r ho
      by_cases hj : j = i
      · rw [hj, Function.update_self] at ho
        cases ho
      · rw [Function.update_of_ne hj] at ho
        exact h.kind j r ho
    split
    · next hb =>
      refine ⟨hkind, hlora, fun j r p ho ht => ?_, fun j _ => h.fresh j (.inl hb)⟩
      exact absurd ht ((hkind j r ho).not_sample hb p)
    · next hb =>
      refine ⟨hkind, hlora, fun j r p ho ht => ?_, fun j hj => ?_⟩
      · dsimp only at ho
        have hji : j ≠ i := by
          rintro rfl
          rw [Function.update_self] at ho
          cases ho
        have ho' : b.owner j = some r := by
          rw [← ho]
          exact (Function.update_of_ne hji _ _).symm
        rw [← h.view j r p ho' ht]
        simp only [InputBatch.view, Dict.get?_erase, if_neg hji, Function.update_of_ne hji]
      · dsimp only at hj ⊢
        rw [Dict.get?_erase, Dict.get?_erase]
        by_cases hji : j = i
        · rw [if_pos hji, if_pos hji]
          exact ⟨rfl, rfl⟩
        · rw [if_neg hji, if_neg hji]
          rw [Function.update_of_ne hji] at hj
          exact h.fresh j hj

/-- The kind of the model is fixed. -/
lemma isPoolingModel_removeRequest (b : InputBatch) (rid : ReqId) :
    (b.removeRequest rid).isPoolingModel = b.isPoolingModel := by
  unfold InputBatch.removeRequest
  split
  · rfl
  · dsimp only
    split <;> rfl

lemma isPoolingModel_addRequest (b : InputBatch) (r : CachedRequestState) :
    (b.addRequest r).isPoolingModel = b.isPoolingModel := by
  unfold InputBatch.addRequest addTask
  dsimp only
  split <;> rfl

/-- Adding a request of the right kind fills its row and keeps the others. -/
lemma Tracks.addRequest (h : b.Tracks) (hwf : b.Wf) (hfit : b.Fits r) : (b.addRequest r).Tracks := by
  obtain ⟨-, hnone⟩ := hwf.newIndex_le
  obtain ⟨hgen, hbad⟩ := h.fresh b.newIndex (.inr hnone)
  obtain ⟨-, -, hown, -⟩ := addRequest_rows b r
  have hbase : (b.addRequest r).base = Function.update b.base b.newIndex (addBase (b.base b.newIndex) r) := by
    unfold InputBatch.addRequest addTask
    dsimp only
    split <;> rfl
  have hpool := isPoolingModel_addRequest b r
  have hvoc : (b.addRequest r).vocabSize = b.vocabSize := by
    unfold InputBatch.addRequest addTask
    dsimp only
    split <;> rfl
  have howner : ∀ j r', (b.addRequest r).owner j = some r' →
      (j = b.newIndex ∧ r' = r) ∨ (j ≠ b.newIndex ∧ b.owner j = some r') := by
    intro j r' ho
    rw [hown] at ho
    by_cases hj : j = b.newIndex
    · rw [hj, Function.update_self] at ho
      exact .inl ⟨hj, (Option.some.inj ho).symm⟩
    · rw [Function.update_of_ne hj] at ho
      exact .inr ⟨hj, ho⟩
  have hview : ∀ j, j ≠ b.newIndex → (b.addRequest r).view j = b.view j := by
    intro j hj
    have hl : (b.addRequest r).base j = b.base j := by rw [hbase, Function.update_of_ne hj]
    unfold InputBatch.view
    rw [hl]
    unfold InputBatch.addRequest addTask addSampling
    dsimp only
    split
    · simp only [Function.update_of_ne hj, RowView.mk.injEq, and_true, true_and]
      constructor
      · split
        · rw [Dict.get?_set, if_neg hj]
        · rfl
      · split
        · rfl
        · rw [Dict.get?_set, if_neg hj]
    · simp only [Function.update_of_ne hj]
  refine ⟨fun j r' ho => ?_, fun j r' ho => ?_, fun j r' p ho ht => ?_, fun j hj => ?_⟩
  · refine Fits.congr ?_ hpool
    rcases howner j r' ho with ⟨-, rfl⟩ | ⟨-, ho⟩
    · exact hfit
    · exact h.kind j r' ho
  · rcases howner j r' ho with ⟨rfl, rfl⟩ | ⟨hj, ho⟩
    · rw [hbase, Function.update_self]
      rfl
    · rw [hbase, Function.update_of_ne hj]
      exact h.lora j r' ho
  · rw [hvoc]
    rcases howner j r' ho with ⟨rfl, rfl⟩ | ⟨hj, ho⟩
    · unfold InputBatch.view
      rw [hbase, Function.update_self]
      unfold InputBatch.addRequest addTask addSampling
      dsimp only
      rw [ht]
      dsimp only
      rw [Function.update_self, viewOf]
      congr 1
      · cases hg : r'.generator with
        | none => exact hgen
        | some g => rw [Dict.get?_set, if_pos rfl]
      · unfold SamplingParams.badWords
        split
        · exact hbad
        · rw [Dict.get?_set, if_pos rfl]
    · rw [hview j hj]
      exact h.view j r' p ho ht
  · rw [hpool, hown] at hj
    by_cases hjn : j = b.newIndex
    · rcases hj with hj | hj
      · obtain ⟨q, hq⟩ := hfit.pool hj
        unfold InputBatch.addRequest addTask
        dsimp only
        rw [hq]
        exact h.fresh j (.inl hj)
      · rw [hjn, Function.update_self] at hj
        cases hj
    · rw [Function.update_of_ne hjn] at hj
      have hv := hview j hjn
      simp only [InputBatch.view, RowView.mk.injEq] at hv
      rw [hv.2.1, hv.2.2.1]
      exact h.fresh j hj

/-- What a move does to the views. -/
lemma view_moveRow {src dst : Nat} (h : b.Tracks) (hdn : b.owner dst = none) (hlt : dst < src)
    (hb : b.isPoolingModel = false) (hj : j ≠ src) :
    (b.moveRow src dst rid).view j = if j = dst then b.view src else b.view j := by
  obtain ⟨hgen, hbad⟩ := h.fresh dst (.inr hdn)
  have hne : src ≠ dst := by omega
  unfold InputBatch.view moveRow moveSampling
  rw [if_neg (by simp [hb])]
  dsimp only
  rw [get?_moveDictValue _ hne hgen, get?_moveDictValue _ hne hbad, if_neg hj, if_neg hj]
  by_cases hjd : j = dst
  · simp only [hjd, if_true, Function.update_self]
    rfl
  · simp only [if_neg hjd, Function.update_of_ne hjd]

/-- The kind of the model and the vocabulary are fixed. -/
lemma moveRow_model (b : InputBatch) (src dst : Nat) (rid : ReqId) :
    (b.moveRow src dst rid).isPoolingModel = b.isPoolingModel ∧
      (b.moveRow src dst rid).vocabSize = b.vocabSize := by
  unfold moveRow
  dsimp only
  split <;> exact ⟨rfl, rfl⟩

lemma isPoolingModel_condense (hwf : b.Wf) : b.condense.isPoolingModel = b.isPoolingModel := by
  obtain ⟨-, m, c, ids, hc, he⟩ := hwf.condense (P := fun _ c => c.isPoolingModel = b.isPoolingModel) rfl
    (fun _ hP => hP) (fun {c last dst r} _ _ _ _ hP => (moveRow_model c last dst r.reqId).1.trans hP)
  rw [he]
  exact hc

/-- Moving a request down moves its row. -/
lemma Tracks.moveRow {src dst : Nat} (h : b.Tracks) (hdn : b.owner dst = none) (hlt : dst < src) :
    (b.moveRow src dst rid).Tracks := by
  obtain ⟨hpool, hvoc⟩ := moveRow_model b src dst rid
  have hown := owner_moveRow b src dst rid
  -- an owned row of the result is an owned row from before
  have hfrom : ∀ j r, (b.moveRow src dst rid).owner j = some r →
      j ≠ src ∧ b.owner (if j = dst then src else j) = some r := by
    intro j r ho
    rw [hown] at ho
    by_cases hj : j = src
    · rw [if_pos hj] at ho
      cases ho
    · rw [if_neg hj] at ho
      refine ⟨hj, ?_⟩
      split at ho
      · next hd => rw [if_pos hd, ho]
      · next hd => rw [if_neg hd, ho]
  refine ⟨fun j r ho => ?_, fun j r ho => ?_, fun j r p ho ht => ?_, fun j hj => ?_⟩
  · exact (h.kind _ r (hfrom j r ho).2).congr hpool
  · obtain ⟨hj, ho⟩ := hfrom j r ho
    have hbase : (b.moveRow src dst rid).base =
        Function.update b.base dst (moveBase (b.base src) (b.base dst)) := by
      unfold InputBatch.moveRow
      dsimp only
      split <;> rfl
    rw [← h.lora _ r ho, hbase]
    by_cases hjd : j = dst
    · rw [if_pos hjd, hjd, Function.update_self]
      rfl
    · rw [if_neg hjd, Function.update_of_ne hjd]
  · obtain ⟨hj, ho⟩ := hfrom j r ho
    cases hb : b.isPoolingModel with
    | true => exact absurd ht ((h.kind _ r ho).not_sample hb p)
    | false =>
      rw [view_moveRow h hdn hlt hb hj, hvoc, ← h.view _ r p ho ht]
      split <;> rfl
  · rw [hpool, hown] at hj
    cases hb : b.isPoolingModel with
    | true =>
      unfold InputBatch.moveRow
      rw [if_pos (by simpa using hb)]
      exact h.fresh j (.inl hb)
    | false =>
      obtain ⟨hgen, hbad⟩ := h.fresh dst (.inr hdn)
      have hne : src ≠ dst := by omega
      unfold InputBatch.moveRow moveSampling
      rw [if_neg (by simp [hb])]
      dsimp only
      rw [get?_moveDictValue _ hne hgen, get?_moveDictValue _ hne hbad]
      by_cases hjs : j = src
      · rw [if_pos hjs, if_pos hjs]
        exact ⟨rfl, rfl⟩
      · rw [if_neg hjs, if_neg hjs]
        rw [if_neg hjs, hb] at hj
        have hj' := hj.resolve_left nofun
        by_cases hjd : j = dst
        · rw [if_pos hjd, if_pos hjd]
          rw [if_pos hjd] at hj'
          exact h.fresh src (.inr hj')
        · rw [if_neg hjd, if_neg hjd]
          rw [if_neg hjd] at hj'
          exact h.fresh j (.inr hj')

/-- A swap exchanges the views. -/
lemma view_swapStates {i1 i2 : Nat} {r1 r2 : CachedRequestState} (h : b.Indexed)
    (h1 : b.owner i1 = some r1) (h2 : b.owner i2 = some r2) (hb : b.isPoolingModel = false) :
    (b.swapStates i1 i2).view j = swapValues b.view i1 i2 j := by
  have e1 : (b.reqIds[i1]?).join = some r1.reqId := by rw [h.ids, h1, Option.map_some]
  have e2 : (b.reqIds[i2]?).join = some r2.reqId := by rw [h.ids, h2, Option.map_some]
  unfold swapStates InputBatch.view
  rw [e1, e2]
  dsimp only
  rw [if_neg (by simp [hb])]
  unfold swapSampling
  dsimp only
  rw [get?_swapDictValues, get?_swapDictValues]
  simp only [swapValues_apply]
  split
  · rfl
  · split <;> rfl

/-- The kind of the model and the vocabulary are fixed, and a swap exchanges the columns of every model. -/
lemma swapStates_model {i1 i2 : Nat} {r1 r2 : CachedRequestState} (h : b.Indexed)
    (h1 : b.owner i1 = some r1) (h2 : b.owner i2 = some r2) :
    (b.swapStates i1 i2).isPoolingModel = b.isPoolingModel ∧
      (b.swapStates i1 i2).vocabSize = b.vocabSize ∧
      (b.swapStates i1 i2).base = swapValues b.base i1 i2 := by
  have e1 : (b.reqIds[i1]?).join = some r1.reqId := by rw [h.ids, h1, Option.map_some]
  have e2 : (b.reqIds[i2]?).join = some r2.reqId := by rw [h.ids, h2, Option.map_some]
  unfold swapStates
  rw [e1, e2]
  dsimp only
  split <;> exact ⟨rfl, rfl, rfl⟩

/-- Swapping two filled rows swaps their state. -/
lemma Tracks.swapStates {i1 i2 : Nat} {r1 r2 : CachedRequestState} (h : b.Tracks) (hi : b.Indexed)
    (h1 : b.owner i1 = some r1) (h2 : b.owner i2 = some r2) : (b.swapStates i1 i2).Tracks := by
  obtain ⟨hpool, hvoc, hbase⟩ := swapStates_model hi h1 h2
  obtain ⟨-, -, hown, -⟩ := swapStates_rows hi h1 h2
  have hfrom : ∀ j, (b.swapStates i1 i2).owner j = b.owner (Equiv.swap i1 i2 j) := by
    intro j
    rw [hown, swapValues_eq]
  refine ⟨fun j r ho => ?_, fun j r ho => ?_, fun j r p ho ht => ?_, fun j hj => ?_⟩
  · rw [hfrom] at ho
    exact (h.kind _ r ho).congr hpool
  · rw [hfrom] at ho
    rw [hbase, swapValues_eq]
    exact h.lora _ r ho
  · rw [hfrom] at ho
    cases hb : b.isPoolingModel with
    | true => exact absurd ht ((h.kind _ r ho).not_sample hb p)
    | false =>
      rw [view_swapStates hi h1 h2 hb, hvoc, swapValues_eq]
      exact h.view _ r p ho ht
  · rw [hpool, hfrom] at hj
    cases hb : b.isPoolingModel with
    | true =>
      have e1 : (b.reqIds[i1]?).join = some r1.reqId := by rw [hi.ids, h1, Option.map_some]
      have e2 : (b.reqIds[i2]?).join = some r2.reqId := by rw [hi.ids, h2, Option.map_some]
      unfold InputBatch.swapStates
      rw [e1, e2]
      dsimp only
      rw [if_pos hb]
      exact h.fresh j (.inl hb)
    | false =>
      have hv := view_swapStates hi h1 h2 hb (j := j)
      rw [swapValues_eq] at hv
      simp only [InputBatch.view, RowView.mk.injEq] at hv
      rw [hv.2.1, hv.2.2.1]
      exact h.fresh _ hj

end InputBatch
end Gambit.Worker
