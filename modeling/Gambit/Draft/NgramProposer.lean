import Gambit.Draft.Matcher
import Mathlib.Data.List.Forall2
import Mathlib.Data.List.Perm.Subperm

/-!
# Drafts for a batch

Model of `NgramProposer` in `vllm/v1/spec_decode/ngram_proposer.py`. The requests that need drafts are collected in
a list; the results are written to the buffers by the position in this list and read by the index of the request in
the batch. So a request reads its own drafts if those before it in the batch need drafts too, and else those of
another request or what an earlier call left in the buffers.

Buffers and arrays are lists of rows; an index out of range is `none`. The arrays may have more rows than the batch has
requests, as those of the model runner have. The number of threads is left out.
-/

namespace Gambit.Draft
open Gambit.Lib

/-- Python `NgramProposer`, with its buffers. -/
structure NgramProposer (α : Type) where
  minN : Nat
  maxN : Nat
  k : Nat
  maxModelLen : Nat
  validNgramDraft : List (List α)
  validNgramNumDrafts : List Nat

/-- The arguments of `propose`. -/
structure Batch (α κ : Type) where
  sampledTokenIds : List (List α)
  reqIds : List κ
  numTokensNoSpec : List Nat
  tokenIdsCpu : List (List α)
  specDecodeUnsupportedReqs : List κ

namespace NgramProposer
variable {α κ : Type} [DecidableEq α] [DecidableEq κ]

/-- Does a request need drafts? -/
def needsDrafts (p : NgramProposer α) (b : Batch α κ) (i : Nat) : Bool :=
  (b.sampledTokenIds[i]?).any (!·.isEmpty) && (b.reqIds[i]?).any (· ∉ b.specDecodeUnsupportedReqs) &&
    (b.numTokensNoSpec[i]?).any (· < p.maxModelLen)

/-- The indices of the requests that need drafts. -/
def validNgramRequests (p : NgramProposer α) (b : Batch α κ) : List Nat :=
  (List.range b.sampledTokenIds.length).filter fun i => p.needsDrafts b i

/-- The drafts for a request of the batch, from its own tokens. -/
def ownDrafts (p : NgramProposer α) (b : Batch α κ) (i : Nat) : Option (List α) := do
  let numTokens ← b.numTokensNoSpec[i]?
  let row ← b.tokenIdsCpu[i]?
  findLongestMatchedNgramAndProposeTokens (row.take numTokens) p.minN p.maxN p.maxModelLen p.k

/-- The buffers after drafts were written to a row. -/
def writeRow (p : NgramProposer α) (i : Nat) (drafts : List α) : NgramProposer α :=
  { p with
    validNgramNumDrafts := p.validNgramNumDrafts.set i drafts.length
    validNgramDraft :=
      if drafts = [] then p.validNgramDraft else p.validNgramDraft.modify i (drafts ++ ·.drop drafts.length) }

/-- Python `batch_propose_numba`: the result for a request goes to the row of its place among the valid ones. -/
def batchProposeNumba (p : NgramProposer α) (valid : List Nat) (b : Batch α κ) : Option (NgramProposer α) :=
  valid.zipIdx.foldlM (fun p e => (p.ownDrafts b e.1).map (p.writeRow e.2)) p

/-- The drafts in a row. -/
def readRow (p : NgramProposer α) (i : Nat) : Option (List α) := do
  let numDrafts ← p.validNgramNumDrafts[i]?
  let row ← p.validNgramDraft[i]?
  some (row.take numDrafts)

/-- Python `batch_propose`. -/
def batchPropose (p : NgramProposer α) (numRequests : Nat) (valid : List Nat) (b : Batch α κ) :
    Option (NgramProposer α × List (List α)) := do
  let p ← (if valid = [] then some p else p.batchProposeNumba valid b)
  let draftTokenIds ← (List.range numRequests).mapM fun i => if i ∈ valid then p.readRow i else some []
  some (p, draftTokenIds)

/-- Python `propose`. -/
def propose (p : NgramProposer α) (b : Batch α κ) : Option (NgramProposer α × List (List α)) :=
  p.batchPropose b.sampledTokenIds.length (p.validNgramRequests b) b

section Rows
variable {p p' : NgramProposer α} {b : Batch α κ} {i j : Nat} {drafts : List α}

/-- The settings of two proposers are the same, and their buffers have the same number of rows. -/
structure SameSettings (p p' : NgramProposer α) : Prop where
  minN : p'.minN = p.minN
  maxN : p'.maxN = p.maxN
  k : p'.k = p.k
  maxModelLen : p'.maxModelLen = p.maxModelLen
  draftRows : p'.validNgramDraft.length = p.validNgramDraft.length
  numRows : p'.validNgramNumDrafts.length = p.validNgramNumDrafts.length

omit [DecidableEq α] in
lemma SameSettings.refl (p : NgramProposer α) : SameSettings p p := ⟨rfl, rfl, rfl, rfl, rfl, rfl⟩

omit [DecidableEq α] in
lemma SameSettings.trans {p'' : NgramProposer α} (h : SameSettings p p') (h' : SameSettings p' p'') :
    SameSettings p p'' :=
  ⟨h'.minN.trans h.minN, h'.maxN.trans h.maxN, h'.k.trans h.k, h'.maxModelLen.trans h.maxModelLen,
    h'.draftRows.trans h.draftRows, h'.numRows.trans h.numRows⟩

omit [DecidableEq κ] in
lemma SameSettings.ownDrafts (h : SameSettings p p') (b : Batch α κ) (i : Nat) :
    p'.ownDrafts b i = p.ownDrafts b i := by
  unfold NgramProposer.ownDrafts
  rw [h.minN, h.maxN, h.k, h.maxModelLen]

omit [DecidableEq α] in
lemma sameSettings_writeRow (p : NgramProposer α) (i : Nat) (drafts : List α) :
    SameSettings p (p.writeRow i drafts) := by
  refine ⟨rfl, rfl, rfl, rfl, ?_, List.length_set⟩
  unfold writeRow
  dsimp only
  split
  · rfl
  · exact List.length_modify ..

omit [DecidableEq α] in
/-- A row that was written. -/
lemma readRow_writeRow_self (hd : i < p.validNgramDraft.length) (hn : i < p.validNgramNumDrafts.length) :
    (p.writeRow i drafts).readRow i = some drafts := by
  unfold readRow writeRow
  dsimp only
  rw [List.getElem?_set_self hn]
  by_cases he : drafts = []
  · rw [if_pos he, List.getElem?_eq_getElem hd, he]
    rfl
  · rw [if_neg he, List.getElem?_modify_eq, List.getElem?_eq_getElem hd]
    show some (List.take drafts.length (drafts ++ _)) = _
    rw [List.take_left]

omit [DecidableEq α] in
/-- A row that was not written. -/
lemma readRow_writeRow_ne (hij : i ≠ j) : (p.writeRow i drafts).readRow j = p.readRow j := by
  unfold readRow writeRow
  dsimp only
  rw [List.getElem?_set_ne hij]
  split
  · rfl
  · rw [List.getElem?_modify_ne _ _ hij]

omit [DecidableEq κ] in
/-- The loop over the requests that need drafts: each writes its drafts to the row of its place. -/
lemma batchProposeNumba_spec (valid : List Nat) (start : Nat) (hd : start + valid.length ≤ p.validNgramDraft.length)
    (hn : start + valid.length ≤ p.validNgramNumDrafts.length) (hown : ∀ i ∈ valid, (p.ownDrafts b i).isSome) :
    ∃ p', (valid.zipIdx start).foldlM (fun p e => (p.ownDrafts b e.1).map (p.writeRow e.2)) p = some p' ∧
      SameSettings p p' ∧ (∀ j i, valid[j]? = some i → p'.readRow (start + j) = p.ownDrafts b i) ∧
      ∀ j, j < start ∨ start + valid.length ≤ j → p'.readRow j = p.readRow j := by
  induction valid generalizing p start with
  | nil => exact ⟨p, rfl, .refl p, fun j i hj => by simp at hj, fun _ _ => rfl⟩
  | cons v valid ih =>
    rw [List.length_cons] at hd hn
    obtain ⟨drafts, hv⟩ := Option.isSome_iff_exists.1 (hown v List.mem_cons_self)
    have hw := sameSettings_writeRow p start drafts
    obtain ⟨p', hp', hs, hrows, hkeep⟩ := ih (p := p.writeRow start drafts) (start + 1)
      (by rw [hw.draftRows]; omega) (by rw [hw.numRows]; omega) (fun i hi => by
        rw [hw.ownDrafts]
        exact hown i (List.mem_cons_of_mem v hi))
    refine ⟨p', ?_, hw.trans hs, fun j i hj => ?_, fun j hj => ?_⟩
    · rw [List.zipIdx_cons, List.foldlM_cons, hv]
      exact hp'
    · cases j with
      | zero =>
        obtain rfl : v = i := Option.some.inj hj
        rw [Nat.add_zero, hkeep start (.inl (Nat.lt_succ_self start)), hv]
        exact readRow_writeRow_self (by omega) (by omega)
      | succ j =>
        rw [show start + (j + 1) = start + 1 + j by omega, hrows j i hj, hw.ownDrafts]
    · rw [List.length_cons] at hj
      rw [hkeep j (by omega), readRow_writeRow_ne (by omega)]

end Rows

/-- The arrays and the buffers have a row for every request at least, rows of tokens are as long as the model allows,
and rows of drafts as there are drafts. -/
structure Fits (p : NgramProposer α) (b : Batch α κ) : Prop where
  reqIds : b.sampledTokenIds.length ≤ b.reqIds.length
  numTokens : b.sampledTokenIds.length ≤ b.numTokensNoSpec.length
  tokenIds : b.sampledTokenIds.length ≤ b.tokenIdsCpu.length
  rowLength : ∀ row ∈ b.tokenIdsCpu, row.length = p.maxModelLen
  withinRow : ∀ n ∈ b.numTokensNoSpec, n ≤ p.maxModelLen
  draftRows : b.sampledTokenIds.length ≤ p.validNgramDraft.length
  numRows : b.sampledTokenIds.length ≤ p.validNgramNumDrafts.length
  draftLength : ∀ row ∈ p.validNgramDraft, row.length = p.k
  numDrafts : ∀ n ∈ p.validNgramNumDrafts, n ≤ p.k
  minN : 1 ≤ p.minN
  maxN : p.minN ≤ p.maxN
  k : 1 ≤ p.k

/-- Every request gets the drafts of its own tokens if it needs drafts, and none else; none outgrows the model. -/
def ProposesOwn (p : NgramProposer α) (b : Batch α κ) : Prop :=
  ∃ p' out, p.propose b = some (p', out) ∧ out.length = b.sampledTokenIds.length ∧
    ∀ i (drafts : List α), out[i]? = some drafts →
      (if i ∈ p.validNgramRequests b then p.ownDrafts b i else some []) = some drafts ∧
        ∀ n, b.numTokensNoSpec[i]? = some n → n + drafts.length ≤ p.maxModelLen

/-- Every request that needs drafts finds its own in its row: those of the request at this place among the ones that
need drafts, or what the buffers had before. -/
def RowsMatch (p : NgramProposer α) (b : Batch α κ) : Prop :=
  ∀ i ∈ p.validNgramRequests b, p.ownDrafts b i =
    match (p.validNgramRequests b)[i]? with
    | some j => p.ownDrafts b j
    | none => p.readRow i

section Batches
variable {p : NgramProposer α} {b : Batch α κ} {i : Nat}

omit [DecidableEq α] in
lemma mem_validNgramRequests :
    i ∈ p.validNgramRequests b ↔ i < b.sampledTokenIds.length ∧ p.needsDrafts b i = true := by
  rw [validNgramRequests, List.mem_filter, List.mem_range]

/-- The requests that need drafts come first: all find their own. -/
lemma rowsMatch_of_range {m : Nat} (h : p.validNgramRequests b = List.range m) : p.RowsMatch b := by
  intro i hi
  rw [h] at hi ⊢
  rw [List.getElem?_range (List.mem_range.1 hi)]

omit [DecidableEq κ] in
/-- The drafts for a request are there and fit in the model. -/
lemma Fits.ownDrafts (h : p.Fits b) (hi : i < b.sampledTokenIds.length) :
    ∃ drafts n, p.ownDrafts b i = some drafts ∧ b.numTokensNoSpec[i]? = some n ∧ n ≤ p.maxModelLen ∧
      n + drafts.length ≤ p.maxModelLen := by
  have hn : i < b.numTokensNoSpec.length := hi.trans_le h.numTokens
  have ht : i < b.tokenIdsCpu.length := hi.trans_le h.tokenIds
  have hle := h.withinRow _ (List.getElem_mem hn)
  obtain ⟨drafts, hdrafts, hfit⟩ := find_longest_matched_fits (b.tokenIdsCpu[i].take b.numTokensNoSpec[i]) h.minN h.maxN
    p.maxModelLen p.k
  refine ⟨drafts, b.numTokensNoSpec[i], ?_, List.getElem?_eq_getElem hn, hle, ?_⟩
  · unfold NgramProposer.ownDrafts
    rw [List.getElem?_eq_getElem hn, List.getElem?_eq_getElem ht]
    exact hdrafts
  · rw [List.length_take, h.rowLength _ (List.getElem_mem ht), Nat.min_eq_left hle] at hfit
    obtain rfl | ⟨-, hfit⟩ := hfit
    · exact hle
    · exact_mod_cast hfit

omit [DecidableEq α] in
/-- A row of the buffers can be read. -/
lemma readRow_isSome (hd : i < p.validNgramDraft.length) (hn : i < p.validNgramNumDrafts.length) :
    (p.readRow i).isSome := by
  unfold readRow
  rw [List.getElem?_eq_getElem hn, List.getElem?_eq_getElem hd]
  rfl

/-- A loop whose body returns. -/
lemma mapM_forall₂ {β γ : Type} {f : β → Option γ} {l : List β} (h : ∀ x ∈ l, (f x).isSome) :
    ∃ out, l.mapM f = some out ∧ List.Forall₂ (fun x y => f x = some y) l out := by
  induction l with
  | nil => exact ⟨[], rfl, .nil⟩
  | cons x l ih =>
    obtain ⟨y, hy⟩ := Option.isSome_iff_exists.1 (h x List.mem_cons_self)
    obtain ⟨out, hout, hall⟩ := ih fun z hz => h z (List.mem_cons_of_mem x hz)
    refine ⟨y :: out, ?_, .cons hy hall⟩
    rw [List.mapM_cons, hy, hout]
    rfl

/-- What `propose` returns for a request. -/
lemma Fits.propose (h : p.Fits b) :
    ∃ p' out, p.propose b = some (p', out) ∧ out.length = b.sampledTokenIds.length ∧
      ∀ i, i < b.sampledTokenIds.length → out[i]? =
        if i ∈ p.validNgramRequests b then
          match (p.validNgramRequests b)[i]? with
          | some j => p.ownDrafts b j
          | none => p.readRow i
        else some [] := by
  have hlen : (p.validNgramRequests b).length ≤ b.sampledTokenIds.length := by
    have hle := List.length_filter_le (fun i => p.needsDrafts b i) (List.range b.sampledTokenIds.length)
    rwa [List.length_range] at hle
  obtain ⟨p', hp', hs, hrows, hkeep⟩ := batchProposeNumba_spec (p := p) (b := b) (p.validNgramRequests b)
    0 (by rw [Nat.zero_add]; exact hlen.trans h.draftRows) (by rw [Nat.zero_add]; exact hlen.trans h.numRows)
    (fun i hi => by
      obtain ⟨drafts, -, hd, -⟩ := h.ownDrafts (mem_validNgramRequests.1 hi).1
      rw [hd]
      rfl)
  have hread : ∀ i, p'.readRow i = match (p.validNgramRequests b)[i]? with
      | some j => p.ownDrafts b j
      | none => p.readRow i := by
    intro i
    split
    · next j hj =>
      rw [← Nat.zero_add i]
      exact hrows i j hj
    · next hi =>
      rw [List.getElem?_eq_none_iff] at hi
      exact hkeep i (.inr (by omega))
  obtain ⟨out, hout, hall⟩ := mapM_forall₂ (f := fun i => if i ∈ p.validNgramRequests b then p'.readRow i else some [])
    (l := List.range b.sampledTokenIds.length) (by
      intro i hi
      rw [List.mem_range] at hi
      split
      · exact readRow_isSome (by rw [hs.draftRows]; exact hi.trans_le h.draftRows)
          (by rw [hs.numRows]; exact hi.trans_le h.numRows)
      · rfl)
  refine ⟨p', out, ?_, ?_, fun i hi => ?_⟩
  · have hnumba : (if p.validNgramRequests b = [] then some p else p.batchProposeNumba (p.validNgramRequests b) b) =
        some p' := by
      rw [← hp']
      split
      · next he => rw [he]; rfl
      · rfl
    unfold NgramProposer.propose batchPropose
    rw [hnumba]
    dsimp only [Option.bind_eq_bind, Option.bind_some]
    rw [hout]
    rfl
  · rw [← hall.length_eq, List.length_range]
  · have hi' : i < out.length := by rw [← hall.length_eq, List.length_range]; exact hi
    rw [← hread, List.getElem?_eq_getElem hi']
    have hget := (List.forall₂_iff_get.1 hall).2 i (by rw [List.length_range]; exact hi) hi'
    rw [List.get_eq_getElem, List.getElem_range] at hget
    exact hget.symm

/-- What `propose` returns is right exactly if every row that is read has the drafts of the request that reads it. -/
lemma Fits.proposesOwn (h : p.Fits b) : p.ProposesOwn b ↔ p.RowsMatch b := by
  obtain ⟨p', out, hout, hlen, hget⟩ := h.propose
  constructor
  · rintro ⟨p'', out', hout', -, hown⟩ i hi
    rw [hout] at hout'
    obtain ⟨rfl, rfl⟩ := Prod.mk.inj (Option.some.inj hout')
    have hlt := (mem_validNgramRequests.1 hi).1
    have hdrafts := List.getElem?_eq_getElem (l := out) (hlen.symm ▸ hlt)
    have hrow := hget i hlt
    have hself := (hown i _ hdrafts).1
    rw [if_pos hi] at hself hrow
    rw [hself, ← hrow, hdrafts]
  · intro hrows
    refine ⟨p', out, hout, hlen, fun i drafts hi => ?_⟩
    have hlt : i < b.sampledTokenIds.length := by
      rw [← hlen]
      exact (List.getElem?_eq_some_iff.1 hi).1
    obtain ⟨own, n, hown, hn, hle, hfit⟩ := h.ownDrafts hlt
    have hrow := hget i hlt
    rw [hi] at hrow
    split at hrow
    · next hmem =>
      rw [← hrows i hmem, hown] at hrow
      rw [if_pos hmem, hown, hrow]
      refine ⟨rfl, fun m hm => ?_⟩
      rw [hn] at hm
      cases hm
      rw [Option.some.inj hrow]
      exact hfit
    · next hmem =>
      rw [if_neg hmem, ← hrow]
      refine ⟨rfl, fun m hm => ?_⟩
      rw [hn] at hm
      cases hm
      rw [Option.some.inj hrow]
      exact hle

/-- The proposer with something else left in a row. -/
def leaveRow (p : NgramProposer α) (i : Nat) (row : List α) (n : Nat) : NgramProposer α :=
  { p with
    validNgramDraft := p.validNgramDraft.set i row
    validNgramNumDrafts := p.validNgramNumDrafts.set i n }

omit [DecidableEq α] in
lemma sameSettings_leaveRow (p : NgramProposer α) (i : Nat) (row : List α) (n : Nat) :
    SameSettings p (p.leaveRow i row n) :=
  ⟨rfl, rfl, rfl, rfl, List.length_set, List.length_set⟩

omit [DecidableEq α] in
lemma SameSettings.validNgramRequests {p' : NgramProposer α} (h : SameSettings p p') (b : Batch α κ) :
    p'.validNgramRequests b = p.validNgramRequests b := by
  unfold NgramProposer.validNgramRequests needsDrafts
  rw [h.maxModelLen]

omit [DecidableEq α] [DecidableEq κ] in
lemma Fits.leaveRow {row : List α} {n : Nat} (h : p.Fits b) (hrow : row.length = p.k) (hn : n ≤ p.k) :
    (p.leaveRow i row n).Fits b := by
  have hs := sameSettings_leaveRow p i row n
  refine { h with
    draftRows := h.draftRows.trans hs.draftRows.ge
    numRows := h.numRows.trans hs.numRows.ge
    draftLength := fun r hr => ?_
    numDrafts := fun m hm => ?_ }
  · obtain hr | rfl := List.mem_or_eq_of_mem_set hr
    · exact h.draftLength r hr
    · exact hrow
  · obtain hm | rfl := List.mem_or_eq_of_mem_set hm
    · exact h.numDrafts m hm
    · exact hn

/-- A request behind as many others as need drafts reads what was left in its row. -/
lemma Fits.lt_of_always (h : p.Fits b) (hall : ∀ p', SameSettings p p' → p'.Fits b → p'.ProposesOwn b)
    (hi : i ∈ p.validNgramRequests b) : i < (p.validNgramRequests b).length := by
  by_contra hge
  obtain ⟨hlt, hneeds⟩ := mem_validNgramRequests.1 hi
  obtain ⟨own, -, hown, -⟩ := h.ownDrafts hlt
  -- there is a token, since the request has sampled one
  have hsampled : b.sampledTokenIds[i] ≠ [] := by
    unfold needsDrafts at hneeds
    rw [List.getElem?_eq_getElem hlt] at hneeds
    simp only [Option.any_some, Bool.and_eq_true, Bool.not_eq_true', List.isEmpty_eq_false_iff] at hneeds
    exact hneeds.1.1
  obtain ⟨t, -, -⟩ := List.exists_cons_of_ne_nil hsampled
  let n := if own = [] then 1 else 0
  have hn : n ≤ p.k := by
    dsimp only [n]
    split
    · exact h.k
    · exact Nat.zero_le _
  have hs := sameSettings_leaveRow p i (List.replicate p.k t) n
  have hfits := h.leaveRow (i := i) (n := n) (List.length_replicate (a := t)) hn
  have hrows := hfits.proposesOwn.1 (hall _ hs hfits) i (by rw [hs.validNgramRequests]; exact hi)
  have hread : (p.leaveRow i (List.replicate p.k t) n).readRow i = some ((List.replicate p.k t).take n) := by
    unfold readRow NgramProposer.leaveRow
    dsimp only
    rw [List.getElem?_set_self (hlt.trans_le h.numRows), List.getElem?_set_self (hlt.trans_le h.draftRows)]
    rfl
  rw [hs.validNgramRequests, List.getElem?_eq_none (Nat.le_of_not_lt hge), hs.ownDrafts, hown] at hrows
  dsimp only at hrows
  rw [hread] at hrows
  have hlen : own.length = n := by
    rw [Option.some.inj hrows, List.length_take, List.length_replicate, Nat.min_eq_left hn]
  dsimp only [n] at hlen
  split at hlen
  · next he =>
    rw [he] at hlen
    cases hlen
  · next he => exact he (List.length_eq_zero_iff.1 hlen)

omit [DecidableEq α] in
/-- If they all stand before the place behind them, the requests that need drafts are the first ones. -/
lemma validNgramRequests_eq_range (hlt : ∀ i ∈ p.validNgramRequests b, i < (p.validNgramRequests b).length) :
    p.validNgramRequests b = List.range (p.validNgramRequests b).length := by
  have hsorted : (p.validNgramRequests b).Pairwise (· < ·) :=
    List.pairwise_lt_range.sublist List.filter_sublist
  have hperm : (p.validNgramRequests b).Perm (List.range (p.validNgramRequests b).length) := by
    refine (List.Nodup.subperm (hsorted.imp Nat.ne_of_lt) fun i hi => ?_).perm_of_length_le ?_
    · exact List.mem_range.2 (hlt i hi)
    · rw [List.length_range]
  exact hperm.eq_of_pairwise (fun i j _ _ hij hji => absurd hij (Nat.lt_asymm hji)) hsorted List.pairwise_lt_range

end Batches
end NgramProposer

/-- Whatever earlier calls left in the buffers, every request gets the drafts of its own tokens: exactly if the requests
that need drafts are the first of the batch. -/
theorem proposes_own_iff {α κ : Type} [DecidableEq α] [DecidableEq κ] {p : NgramProposer α} {b : Batch α κ}
    (h : p.Fits b) : (∀ p', p.SameSettings p' → p'.Fits b → p'.ProposesOwn b) ↔
      ∃ m, p.validNgramRequests b = List.range m := by
  constructor
  · intro hall
    exact ⟨_, NgramProposer.validNgramRequests_eq_range fun i hi => h.lt_of_always hall hi⟩
  · rintro ⟨m, hm⟩ p' hs hfits
    refine hfits.proposesOwn.2 (NgramProposer.rowsMatch_of_range (m := m) ?_)
    rw [hs.validNgramRequests, hm]

/-- Two requests that need drafts before one that sampled nothing, in arrays with a row more, and with drafts of an
earlier call in the buffers. -/
theorem proposes_own_both :
    let p : NgramProposer Nat := ⟨1, 3, 2, 6, [[9, 9], [9, 9], [9, 9]], [2, 1, 2]⟩
    let b : Batch Nat Nat :=
      ⟨[[2], [5], []], [10, 11, 12], [5, 3, 1, 0],
        [[1, 2, 3, 1, 2, 0], [5, 4, 5, 0, 0, 0], [8, 0, 0, 0, 0, 0], [0, 0, 0, 0, 0, 0]], []⟩
    p.ProposesOwn b := by
  intro p b
  have hfits : p.Fits b :=
    ⟨by decide, by decide, by decide, by decide, by decide, by decide, by decide, by decide, by decide, by decide,
      by decide, by decide⟩
  exact (proposes_own_iff hfits).2 ⟨2, by decide⟩ p (.refl p) hfits

/-- The first of two requests has sampled nothing: the second one gets no drafts, though it needs some and has them. -/
theorem skipped_request_shifts_drafts :
    let p : NgramProposer Nat := ⟨1, 3, 2, 6, [[0, 0], [0, 0]], [0, 0]⟩
    let b : Batch Nat Nat := ⟨[[], [5]], [10, 11], [5, 3], [[1, 2, 3, 1, 2, 0], [5, 4, 5, 0, 0, 0]], []⟩
    p.Fits b ∧ (p.propose b).map Prod.snd = some [[], []] ∧ p.ownDrafts b 1 = some [4, 5] ∧ ¬ p.ProposesOwn b := by
  intro p b
  have hout : (p.propose b).map Prod.snd = some [[], []] := by decide
  have hown : p.ownDrafts b 1 = some [4, 5] := by decide
  refine ⟨⟨by decide, by decide, by decide, by decide, by decide, by decide, by decide, by decide, by decide, by decide,
    by decide, by decide⟩, hout, hown, ?_⟩
  rintro ⟨p', out, hp, -, hall⟩
  rw [hp] at hout
  obtain rfl : out = [[], []] := Option.some.inj hout
  have hdrafts := (hall 1 [] rfl).1
  rw [if_pos (by decide), hown] at hdrafts
  exact absurd hdrafts (by decide)

end Gambit.Draft
