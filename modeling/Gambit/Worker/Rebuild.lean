import Gambit.Worker.Replay

/-!
# Updating a logits processor is rebuilding it

The log of an update, replayed on the requests of the rows before it, gives the requests of the rows after
it. The state of each processor is a column of values computed from the requests, so updating it from the
log gives what building it from the batch would give.

The processor of `min_p` looks at the rounded value in the row where it asks whether there was one, and at that of the
request where it asks whether there is one. It loses count of a value that is rounded to zero
(`tiny_min_p_miscounted`).
-/

namespace Gambit.Worker
open Gambit.Lib

/-- What the log records of a request: its parameters and its output list. -/
def CachedRequestState.logged (r : CachedRequestState) : Option (SamplingParams × Nat) :=
  match r.task with
  | .sample p => some (p, r.outputRef)
  | .pool _ => none

namespace InputBatch
variable {b : InputBatch} {r : CachedRequestState} {f : Nat → Option (SamplingParams × Nat)}

/-- The column of the requests. -/
def column (b : InputBatch) (i : Nat) : Option (SamplingParams × Nat) :=
  (b.owner i).bind CachedRequestState.logged

/-- The log leads from the column `f` to that of the batch. -/
structure Logged (f : Nat → Option (SamplingParams × Nat)) (b : InputBatch) : Prop where
  replay : replay none some b.builder f = b.column
  apart : ∀ mv ∈ b.builder.moved, mv.2.2 = .unidirectional → mv.1 ≠ mv.2.1

/-- A removed row becomes empty. -/
lemma Logged.removeRequest (h : b.Logged f) (hm : b.builder.moved = []) (rid : ReqId) :
    (b.removeRequest rid).Logged f ∧ (b.removeRequest rid).builder.moved = [] := by
  rcases removeRequest_cases b rid with ⟨-, he⟩ | ⟨i, -, -, -, hown, hlog⟩
  · rw [he]
    exact ⟨h, hm⟩
  · refine ⟨⟨?_, ?_⟩, ?_⟩
    · have hrep := h.replay
      unfold Worker.replay at hrep ⊢
      rw [hlog]
      dsimp only
      rw [hm] at hrep ⊢
      rw [List.foldl_nil] at hrep ⊢
      rw [replayRemoved, List.foldl_append]
      rw [replayRemoved] at hrep
      rw [hrep]
      funext j
      simp only [List.foldl_cons, List.foldl_nil, column, hown, Function.update_apply]
      split <;> rfl
    · rw [hlog]
      exact h.apart
    · rw [hlog]
      exact hm

/-- An added request is in its row, which is no hole any more. -/
lemma Logged.addRequest (h : b.Logged f) (hwf : b.Wf) (hm : b.builder.moved = [])
    (hs : ∃ p, r.task = .sample p) :
    (b.addRequest r).Logged f ∧ (b.addRequest r).builder.moved = [] := by
  obtain ⟨p, hp⟩ := hs
  obtain ⟨-, -, hown, hlog⟩ := addRequest_rows b r
  have hpop : b.builder.popRemoved.moved = [] := by
    rw [← hm, BatchUpdateBuilder.popRemoved]
    split <;> rfl
  have hmoved : (b.addRequest r).builder.moved = [] := by
    rw [hlog]
    exact hpop
  refine ⟨⟨?_, fun mv hmv => ?_⟩, hmoved⟩
  · have hrep := h.replay
    unfold Worker.replay at hrep ⊢
    rw [hmoved, List.foldl_nil]
    rw [hm, List.foldl_nil] at hrep
    have hadded : replayAdded some (b.addRequest r).builder.added f =
        Function.update (replayAdded some b.builder.added f) b.newIndex (some (p, r.outputRef)) := by
      rw [hlog]
      simp only [addedEntry, hp, replayAdded, List.foldl_append, List.foldl_cons, List.foldl_nil]
    have hremoved : ∀ j, j ∈ (b.addRequest r).builder.removed ↔ j ≠ b.newIndex ∧ j ∈ b.builder.removed := by
      intro j
      rw [hlog]
      dsimp only
      rcases hwf.newIndex_cases with ⟨hnil, -, hpop⟩ | ⟨-, -, hpop⟩
      · rw [hpop, hnil]
        simp
      · rw [hpop, hwf.nodup.mem_erase_iff]
    funext j
    have hj := congrFun hrep j
    rw [replayRemoved_apply] at hj ⊢
    rw [hadded, Function.update_apply]
    unfold column at hj ⊢
    rw [hown, Function.update_apply]
    by_cases hji : j = b.newIndex
    · rw [if_pos hji, if_pos hji, if_neg fun hmem => ((hremoved j).1 hmem).1 hji]
      simp [CachedRequestState.logged, hp]
    · rw [if_neg hji, if_neg hji, ← hj]
      have hiff : j ∈ (b.addRequest r).builder.removed ↔ j ∈ b.builder.removed := by simp [hremoved, hji]
      simp only [hiff]
  · rw [hmoved] at hmv
    cases hmv

/-- The rows of a move are not holes any more. -/
def MovesFilled (b : InputBatch) : Prop :=
  ∀ mv ∈ b.builder.moved, mv.1 ∉ b.builder.removed ∧ mv.2.1 ∉ b.builder.removed

/-- A move fills a hole that the log no longer clears. -/
lemma Logged.moveRow {last dst : Nat} (h : b.Logged f) (hf : b.MovesFilled) (hb : b.isPoolingModel = false)
    (hc : b.Condensing (last + 1)) (hd : b.builder.peekRemoved = some dst) (ho : b.owner last = some r)
    (hlt : dst < last) :
    (b.moveRow last dst r.reqId).Logged f ∧ (b.moveRow last dst r.reqId).MovesFilled := by
  obtain ⟨-, -, -, hlog⟩ := moveRow_rows b last dst r.reqId
  rw [if_neg (by simp [hb])] at hlog
  have hrem := removed_moveRow b last r.reqId hd
  have hdm : dst ∈ b.builder.removed := (List.min?_eq_some_iff.1 hd).1
  have hmoved : (b.moveRow last dst r.reqId).builder.moved =
      b.builder.moved ++ [(last, dst, .unidirectional)] := by rw [hlog]
  have hadded : (b.moveRow last dst r.reqId).builder.added = b.builder.added := by
    rw [hlog]
    unfold BatchUpdateBuilder.popRemoved
    split <;> rfl
  have hlast : last ∉ b.builder.removed := by
    intro hm
    rw [hc.empty last hm] at ho
    cases ho
  refine ⟨⟨?_, fun mv hmv => ?_⟩, fun mv hmv => ?_⟩
  · have hrep := h.replay
    unfold Worker.replay at hrep ⊢
    rw [hmoved, hadded, hrem, List.foldl_append]
    generalize replayAdded some b.builder.added f = g at hrep ⊢
    -- before this move the log cleared the row `dst`, which no earlier move touches
    have hclear : replayRemoved none b.builder.removed g =
        Function.update (replayRemoved none (b.builder.removed.erase dst) g) dst none := by
      funext j
      rw [Function.update_apply, replayRemoved_apply, replayRemoved_apply]
      by_cases hj : j = dst
      · rw [if_pos hj, if_pos (hj ▸ hdm)]
      · rw [if_neg hj]
        simp only [hc.nodup.mem_erase_iff, ne_eq, hj, not_false_eq_true, true_and]
    rw [hclear, foldl_replayMove_update fun mv hmv =>
      ⟨fun he => (hf mv hmv).1 (he ▸ hdm), fun he => (hf mv hmv).2 (he ▸ hdm)⟩] at hrep
    generalize List.foldl (replayMove none) (replayRemoved none (b.builder.removed.erase dst) g)
      b.builder.moved = k at hrep ⊢
    have hk : ∀ j, j ≠ dst → k j = b.column j := by
      intro j hj
      rw [← hrep, Function.update_of_ne hj]
    funext j
    simp only [List.foldl_cons, List.foldl_nil, replayMove, Function.update_apply, column, owner_moveRow]
    by_cases hjd : j = dst
    · rw [if_pos hjd, if_neg (by omega), if_pos hjd]
      exact hk last (by omega)
    · rw [if_neg hjd, if_neg hjd]
      by_cases hjl : j = last
      · rw [if_pos hjl, if_pos hjl]
        rfl
      · rw [if_neg hjl, if_neg hjl]
        exact hk j hjd
  · rw [hmoved, List.mem_append, List.mem_singleton] at hmv
    rcases hmv with hmv | rfl
    · exact h.apart mv hmv
    · intro _
      dsimp only
      omega
  · rw [hrem]
    rw [hmoved, List.mem_append, List.mem_singleton] at hmv
    rcases hmv with hmv | rfl
    · exact ⟨fun hm => (hf mv hmv).1 (List.mem_of_mem_erase hm),
        fun hm => (hf mv hmv).2 (List.mem_of_mem_erase hm)⟩
    · exact ⟨fun hm => hlast (List.mem_of_mem_erase hm), fun hm => (hc.nodup.mem_erase_iff.1 hm).1 rfl⟩

/-- `condense` moves what its log says. -/
lemma Logged.condense (h : b.Logged f) (hwf : b.Wf) (hm : b.builder.moved = [])
    (hb : b.isPoolingModel = false) : b.condense.Logged f := by
  obtain ⟨-, m, c, ids, ⟨hlog, -, -⟩, he⟩ := hwf.condense
    (P := fun _ c => c.Logged f ∧ c.MovesFilled ∧ c.isPoolingModel = false)
    ⟨h, (by rw [MovesFilled, hm]; exact nofun), hb⟩ (fun _ hP => hP)
    (fun {c last dst r} hc hd ho hlt hP => by
      obtain ⟨hlog, hfill, hpool⟩ := hP
      obtain ⟨hlog', hfill'⟩ := hlog.moveRow hfill hpool hc hd ho hlt
      exact ⟨hlog', hfill', (moveRow_model c last dst r.reqId).1.trans hpool⟩)
  rw [he]
  exact ⟨hlog.replay, hlog.apart⟩

/-- A swap exchanges the requests. -/
lemma Logged.swapStates {i1 i2 : Nat} {r1 r2 : CachedRequestState} (h : b.Logged f) (hi : b.Indexed)
    (h1 : b.owner i1 = some r1) (h2 : b.owner i2 = some r2) (hb : b.isPoolingModel = false) :
    (b.swapStates i1 i2).Logged f := by
  obtain ⟨-, -, hown, hlog⟩ := swapStates_rows hi h1 h2
  rw [if_neg (by simp [hb])] at hlog
  refine ⟨?_, fun mv hmv => ?_⟩
  · have hrep := h.replay
    unfold Worker.replay at hrep ⊢
    rw [hlog]
    dsimp only
    rw [List.foldl_append, hrep]
    funext j
    simp only [List.foldl_cons, List.foldl_nil, replayMove, column, hown, swapValues_eq]
  · rw [hlog] at hmv
    dsimp only at hmv
    rw [List.mem_append, List.mem_singleton] at hmv
    rcases hmv with hmv | rfl
    · exact h.apart mv hmv
    · intro hdir
      cases hdir

/-- The added requests of the log have a `min_p` that is not lost. -/
def Kept (b : InputBatch) : Prop := ∀ e ∈ b.builder.added, e.2.1.minP = 0 ∨ 1 / 2 ^ 150 < e.2.1.minP

lemma Kept.congr {c : InputBatch} (h : b.Kept) (hc : c.builder.added = b.builder.added) : c.Kept := by
  unfold Kept
  rw [hc]
  exact h

lemma Kept.removeRequest (h : b.Kept) (rid : ReqId) : (b.removeRequest rid).Kept := by
  refine h.congr ?_
  rcases removeRequest_cases b rid with ⟨-, he⟩ | ⟨i, -, -, -, -, hlog⟩
  · rw [he]
  · rw [hlog]

lemma Kept.addRequest (h : b.Kept) (hr : r.task.minP = 0 ∨ 1 / 2 ^ 150 < r.task.minP) : (b.addRequest r).Kept := by
  obtain ⟨-, -, -, hlog⟩ := addRequest_rows b r
  intro e he
  rw [hlog] at he
  rcases List.mem_append.1 he with he | he
  · exact h e he
  · unfold addedEntry at he
    split at he
    · next p hp =>
      rw [List.mem_singleton.1 he]
      rw [hp] at hr
      exact hr
    · cases he

lemma Kept.condense (h : b.Kept) (hwf : b.Wf) : b.condense.Kept := by
  obtain ⟨-, m, c, ids, hadded, he⟩ := hwf.condense (P := fun _ c => c.builder.added = b.builder.added) rfl
    (fun _ hP => hP) (fun {c last dst r} _ _ _ _ hP => by
      obtain ⟨-, -, -, hlog⟩ := moveRow_rows c last dst r.reqId
      have hpop : c.builder.popRemoved.added = c.builder.added := by
        unfold BatchUpdateBuilder.popRemoved
        split <;> rfl
      rw [hlog, ← hP]
      split
      · exact hpop
      · exact hpop)
  rw [he]
  exact h.congr hadded

lemma Kept.swapStates {i1 i2 : Nat} {r1 r2 : CachedRequestState} (h : b.Kept) (hi : b.Indexed)
    (h1 : b.owner i1 = some r1) (h2 : b.owner i2 = some r2) : (b.swapStates i1 i2).Kept := by
  obtain ⟨-, -, -, hlog⟩ := swapStates_rows hi h1 h2
  refine h.congr ?_
  rw [hlog]
  split
  · rfl
  · rfl

end InputBatch

/-- The column of biases. -/
def biasOf (x : Option (SamplingParams × Nat)) : Option (List (Token × ℚ)) := x.bind fun e => newBias e.1 e.2

/-- The column of minimum tokens, for the present lengths of the output lists. -/
def minTokensOf (outLen : Nat → Nat) (x : Option (SamplingParams × Nat)) : Option MinTokensEntry :=
  x.bind fun e => newMinTokens outLen e.1 e.2

/-- The column of `min_p`. -/
def minPOf : Option (SamplingParams × Nat) → ℚ
  | some e => MinP.rowValue e.1.minP
  | none => 0

/-- An empty log changes no column. -/
lemma replay_of_get_eq_none {α : Type} {z : α} {put : SamplingParams × Nat → α} {log : BatchUpdateBuilder}
    (h : log.get = none) (f : Nat → α) : replay z put log f = f := by
  unfold BatchUpdateBuilder.get at h
  split at h
  · next hnil =>
    obtain ⟨hr, hm, ha⟩ := hnil
    rw [replay, List.isEmpty_iff.1 hr, List.isEmpty_iff.1 hm, List.isEmpty_iff.1 ha]
    rfl
  · cases h

/-- A log that is not empty is handed out as it is. -/
lemma get_eq_some {log u : BatchUpdateBuilder} (h : log.get = some u) : u = log := by
  unfold BatchUpdateBuilder.get at h
  split at h
  · cases h
  · exact (Option.some.inj h).symm

/-- A sparse processor replays the log, empty or not. -/
lemma get?_processDictUpdates_get {T : Type} {newState : SamplingParams → Nat → Option T} (d : Dict Nat T)
    (log : BatchUpdateBuilder) :
    (processDictUpdates d log.get newState).get? = replay none (fun e => newState e.1 e.2) log d.get? := by
  cases hg : log.get with
  | none => rw [replay_of_get_eq_none hg, processDictUpdates]
  | some u =>
    rw [get?_processDictUpdates, get_eq_some hg]

/-- Entries that have attained their minimum. -/
def pruneMinTokens (outLen : Nat → Nat) (x : Option MinTokensEntry) : Option MinTokensEntry :=
  x.filter fun e => outLen e.outputRef < e.minTokens

/-- The processor of minimum tokens drops the entries that have attained theirs. -/
lemma get?_updateMinTokens (outLen : Nat → Nat) (d : Dict Nat MinTokensEntry)
    (u : Option BatchUpdateBuilder) (j : Nat) :
    (updateMinTokens outLen d u).get? j =
      pruneMinTokens outLen ((processDictUpdates d u (newMinTokens outLen)).get? j) := by
  unfold updateMinTokens
  dsimp only
  generalize processDictUpdates d u (newMinTokens outLen) = d
  have herase : ∀ (l : List Nat) (d : Dict Nat MinTokensEntry),
      (l.foldl (fun d i => d.erase i) d).get? j = if j ∈ l then none else d.get? j := by
    intro l
    induction l with
    | nil => simp
    | cons i l ih =>
      intro d
      rw [List.foldl_cons, ih, Dict.get?_erase]
      by_cases hj : j ∈ l
      · rw [if_pos hj, if_pos (List.mem_cons_of_mem _ hj)]
      · rw [if_neg hj]
        by_cases hji : j = i
        · rw [if_pos hji, if_pos (hji ▸ List.mem_cons_self)]
        · rw [if_neg hji, if_neg (by simp [hji, hj])]
  rw [herase]
  have hmem : j ∈ (d.entries.filter fun e => e.2.minTokens ≤ outLen e.2.outputRef).map Prod.fst ↔
      ∃ e, d.get? j = some e ∧ e.minTokens ≤ outLen e.outputRef := by
    rw [List.mem_map]
    constructor
    · rintro ⟨⟨i, e⟩, he, rfl⟩
      obtain ⟨hm, hle⟩ := List.mem_filter.1 he
      exact ⟨e, Dict.get?_eq_some.2 hm, by simpa using hle⟩
    · rintro ⟨e, he, hle⟩
      exact ⟨(j, e), List.mem_filter.2 ⟨Dict.get?_eq_some.1 he, by simpa using hle⟩, rfl⟩
  cases hg : d.get? j with
  | none => simp [hmem, hg, pruneMinTokens]
  | some e =>
    by_cases hle : e.minTokens ≤ outLen e.outputRef
    · rw [if_pos (hmem.2 ⟨e, hg, hle⟩)]
      rw [pruneMinTokens, Option.filter_some, if_neg (by simpa using hle)]
    · rw [if_neg (fun hm => ?_)]
      · rw [pruneMinTokens, Option.filter_some, if_pos (by simpa using hle)]
      · obtain ⟨e', he', hle'⟩ := hmem.1 hm
        rw [hg] at he'
        cases he'
        exact hle hle'

/-- Dropping attained entries brings a column up to date. -/
lemma pruneMinTokens_comp {len0 len : Nat → Nat} (hlen : ∀ i, len0 i ≤ len i)
    (x : Option (SamplingParams × Nat)) : pruneMinTokens len (minTokensOf len0 x) = minTokensOf len x := by
  cases x with
  | none => rfl
  | some e =>
    have hle := hlen e.2
    simp only [minTokensOf, Option.bind_some, newMinTokens]
    by_cases h1 : e.1.minTokens = 0 ∨ e.1.minTokens ≤ len0 e.2
    · rw [if_pos h1, if_pos (by omega)]
      rfl
    · rw [if_neg h1]
      by_cases h2 : e.1.minTokens = 0 ∨ e.1.minTokens ≤ len e.2
      · rw [if_pos h2, pruneMinTokens, Option.filter_some, if_neg]
        simp only [decide_eq_true_eq, not_lt]
        omega
      · rw [if_neg h2, pruneMinTokens, Option.filter_some, if_pos]
        simp only [decide_eq_true_eq]
        omega

/-- The processors hold the values of the column `f`, and the log leads from there to the batch. -/
structure ProcState.Synced (f : Nat → Option (SamplingParams × Nat)) (s : ProcState) : Prop where
  logged : s.calls.batch.Logged f
  biases : s.biases.get? = biasOf ∘ f
  minToks : ∃ len0, (∀ i, len0 i ≤ s.outLen i) ∧ s.minToks.get? = minTokensOf len0 ∘ f
  minP : s.minP.cpu = minPOf ∘ f
  counts : s.minP.Counts

/-- Refreshing the metadata brings the processors up to date. -/
lemma ProcState.Synced.refresh {s : ProcState} {f : Nat → Option (SamplingParams × Nat)} (h : s.Synced f)
    (hb : s.calls.batch.isPoolingModel = false) (hk : s.calls.batch.Kept) :
    (s.next (.call .refresh)).Synced s.calls.batch.column ∧
      (s.next (.call .refresh)).minToks.get? = minTokensOf s.outLen ∘ s.calls.batch.column := by
  have hrep := h.logged.replay
  obtain ⟨len0, hlen, htok⟩ := h.minToks
  have hbias : (processDictUpdates s.biases s.calls.batch.builder.get newBias).get? =
      biasOf ∘ s.calls.batch.column := by
    rw [get?_processDictUpdates_get, h.biases, ← hrep, replay_comp]
    rfl
  have htoks : (updateMinTokens s.outLen s.minToks s.calls.batch.builder.get).get? =
      minTokensOf s.outLen ∘ s.calls.batch.column := by
    have hprune : (updateMinTokens s.outLen s.minToks s.calls.batch.builder.get).get? =
        pruneMinTokens s.outLen ∘
          replay none (fun e => newMinTokens s.outLen e.1 e.2) s.calls.batch.builder s.minToks.get? := by
      rw [← get?_processDictUpdates_get]
      funext j
      exact get?_updateMinTokens _ _ _ j
    have hnew : (pruneMinTokens s.outLen ∘ fun e : SamplingParams × Nat => newMinTokens s.outLen e.1 e.2) =
        minTokensOf s.outLen ∘ some := by
      funext e
      exact pruneMinTokens_comp (fun _ => le_rfl) (some e)
    have hold : pruneMinTokens s.outLen ∘ minTokensOf len0 ∘ f = minTokensOf s.outLen ∘ f := by
      funext j
      exact pruneMinTokens_comp hlen (f j)
    rw [hprune, replay_comp, htok, hnew, hold, ← hrep, replay_comp]
    rfl
  have hminP : (s.minP.updateState s.calls.batch.builder.get).Counts ∧
      (s.minP.updateState s.calls.batch.builder.get).cpu = minPOf ∘ s.calls.batch.column := by
    have hcol : replay 0 (fun e => MinP.rowValue e.1.minP) s.calls.batch.builder s.minP.cpu =
        minPOf ∘ s.calls.batch.column := by
      rw [h.minP, ← hrep, replay_comp]
      rfl
    cases hg : s.calls.batch.builder.get with
    | none =>
      rw [replay_of_get_eq_none hg] at hcol
      exact ⟨h.counts, hcol⟩
    | some u =>
      have hu := get_eq_some hg
      subst hu
      rw [← hcol]
      exact h.counts.updateState hk h.logged.apart
  have hnext : s.next (.call .refresh) = { s.refreshMetadata with calls := s.calls.next .refresh } := rfl
  rw [hnext, refreshMetadata, if_neg (by simp [hb])]
  exact ⟨⟨⟨rfl, nofun⟩, hbias, ⟨s.outLen, fun _ => le_rfl, htoks⟩, hminP.2, hminP.1⟩, htoks⟩

/-- What holds between two events. -/
structure ProcState.Inv (s : ProcState) : Prop where
  sampling : s.calls.batch.isPoolingModel = false
  moved : s.calls.phase ≠ .swapping → s.calls.batch.builder.moved = []
  kind : ∀ i r, s.calls.batch.owner i = some r →
    (∃ p, r.task = .sample p) ∧ (r.task.minP = 0 ∨ 1 / 2 ^ 150 < r.task.minP)
  synced : ∃ f, s.Synced f
  kept : s.calls.batch.Kept

/-- A call other than the refresh leaves the processors behind, but the log knows. -/
lemma ProcState.Synced.call {s s' : ProcState} {f : Nat → Option (SamplingParams × Nat)} (h : s.Synced f)
    (hl : s'.calls.batch.Logged f) (hb : s'.biases = s.biases) (ht : s'.minToks = s.minToks)
    (hm : s'.minP = s.minP) (ho : ∀ i, s.outLen i ≤ s'.outLen i) : s'.Synced f := by
  obtain ⟨len0, hlen, htok⟩ := h.minToks
  refine ⟨hl, hb ▸ h.biases, ⟨len0, fun i => (hlen i).trans (ho i), ht ▸ htok⟩, hm ▸ h.minP, hm ▸ h.counts⟩

/-- Every event keeps the invariant. -/
lemma ProcState.Inv.next {s : ProcState} {e : ProcEvent} (h : s.Inv) (hwf : s.calls.Wf) (ha : s.Allowed e)
    (hp : s.MinPKept e) : (s.next e).Inv := by
  obtain ⟨f, hs⟩ := h.synced
  cases e with
  | append ref n =>
    refine ⟨h.sampling, h.moved, h.kind, ⟨f, hs.call hs.logged rfl rfl rfl fun i => ?_⟩, h.kept⟩
    simp only [ProcState.next, Function.update_apply]
    split
    · next hi =>
      rw [hi]
      omega
    · exact le_rfl
  | call c =>
    have hkind : ∀ i r, (s.calls.next c).batch.owner i = some r →
        (∃ p, r.task = .sample p) ∧ (r.task.minP = 0 ∨ 1 / 2 ^ 150 < r.task.minP) := by
      intro i r ho
      rcases BatchState.owner_next hwf ha ho with ⟨j, hj⟩ | rfl
      · exact h.kind j r hj
      · have hadd : s.calls.Allowed (.add r) := ha
        exact ⟨hadd.2.2.1.sample h.sampling, hp⟩
    cases c with
    | remove rid =>
      have hphase : s.calls.phase ≠ .swapping := by
        have hrem : s.calls.phase = .removing := ha
        rw [hrem]
        nofun
      obtain ⟨hl, hm⟩ := hs.logged.removeRequest (h.moved hphase) rid
      refine ⟨?_, fun _ => hm, hkind, ⟨f, hs.call hl rfl rfl rfl fun _ => le_rfl⟩, h.kept.removeRequest rid⟩
      exact (InputBatch.isPoolingModel_removeRequest _ rid).trans h.sampling
    | add r =>
      obtain ⟨hl, hm⟩ := hs.logged.addRequest (hwf.wf ha.1) (h.moved ha.1) (ha.2.2.1.sample h.sampling)
      refine ⟨?_, fun _ => hm, hkind, ⟨f, hs.call hl rfl rfl rfl fun _ => le_rfl⟩, h.kept.addRequest hp⟩
      exact (InputBatch.isPoolingModel_addRequest _ r).trans h.sampling
    | condense =>
      have hl := hs.logged.condense (hwf.wf ha) (h.moved ha) h.sampling
      refine ⟨?_, fun hp => absurd rfl hp, hkind, ⟨f, hs.call hl rfl rfl rfl fun _ => le_rfl⟩,
        h.kept.condense (hwf.wf ha)⟩
      exact (InputBatch.isPoolingModel_condense (hwf.wf ha)).trans h.sampling
    | swap i1 i2 =>
      have hpacked := hwf.packed ha.1
      obtain ⟨r1, h1⟩ := Option.isSome_iff_exists.1 ((hpacked.full i1).2 ha.2.1)
      obtain ⟨r2, h2⟩ := Option.isSome_iff_exists.1 ((hpacked.full i2).2 ha.2.2)
      have hl := hs.logged.swapStates hpacked.toIndexed h1 h2 h.sampling
      refine ⟨?_, fun hp => absurd ha.1 hp, hkind, ⟨f, hs.call hl rfl rfl rfl fun _ => le_rfl⟩,
        h.kept.swapStates hpacked.toIndexed h1 h2⟩
      exact (InputBatch.swapStates_model hpacked.toIndexed h1 h2).1.trans h.sampling
    | refresh => exact ⟨h.sampling, fun _ => rfl, hkind, ⟨_, (hs.refresh h.sampling h.kept).1⟩, nofun⟩

/-- A worker that samples, with its processors. -/
abbrev procMachine (wide : Bool) (vocabSize maxNumReqs : Nat) : Machine ProcState ProcEvent Unit where
  init :=
    { calls := { batch := { vocabSize := vocabSize, maxNumReqs := maxNumReqs } }
      minP := { wide := wide } }
  next s e := (s.next e, ())
  ok _ _ := True

/-- The calls of a run. -/
def callsOf (h : List ProcEvent) : List Call :=
  h.filterMap fun e => match e with
    | .call c => some c
    | .append _ _ => none

section Runs
variable {wide : Bool} {vocabSize maxNumReqs : Nat} {h : List ProcEvent} {o : List Unit} {s : ProcState}

/-- The batch runs on its own. -/
lemma runs_calls (run : (procMachine wide vocabSize maxNumReqs).Runs h o s)
    (hc : (procMachine wide vocabSize maxNumReqs).Along ProcState.Allowed h) :
    ∃ o', (batchMachine false vocabSize maxNumReqs).Runs (callsOf h) o' s.calls ∧
      (batchMachine false vocabSize maxNumReqs).Along BatchState.Allowed (callsOf h) := by
  induction run with
  | init => exact ⟨[], .init, trivial⟩
  | @step h o s e run _ ih =>
    obtain ⟨hc, ha⟩ := run.along_concat hc
    obtain ⟨o', run', hc'⟩ := ih hc
    cases e with
    | append ref n =>
      have hcalls : callsOf (h ++ [.append ref n]) = callsOf h := by
        simp [callsOf]
      rw [hcalls]
      exact ⟨o', run', hc'⟩
    | call c =>
      have hcalls : callsOf (h ++ [.call c]) = callsOf h ++ [c] := by
        simp [callsOf]
      have hnext : (s.next (.call c)).calls = s.calls.next c := by
        cases c <;> rfl
      rw [hcalls]
      refine ⟨o' ++ [()], ?_, run'.along_concat_iff.2 ⟨hc', ha⟩⟩
      rw [hnext]
      exact run'.step trivial

/-- The invariant holds in every run. -/
lemma runs_inv (run : (procMachine wide vocabSize maxNumReqs).Runs h o s)
    (hc : (procMachine wide vocabSize maxNumReqs).Along (fun s e => s.Allowed e ∧ s.MinPKept e) h) : s.Inv := by
  induction run with
  | init =>
    refine ⟨rfl, fun _ => rfl, fun i r ho => (nomatch ho), ⟨fun _ => none, ⟨rfl, nofun⟩, rfl,
      ⟨fun _ => 0, fun _ => le_rfl, rfl⟩, rfl, fun _ => MinP.rowValue_zero, ∅, fun i => ?_, rfl⟩, nofun⟩
    simp
  | step run _ ih =>
    obtain ⟨hc, ha⟩ := run.along_concat hc
    obtain ⟨o', run', hc'⟩ := runs_calls run (hc.mono fun _ _ h => h.1)
    exact (ih hc).next (lastAdded_owner run' hc').1 ha.1 ha.2

/-- The `min_p` of the request of a row. -/
def rowMinP (h : List ProcEvent) (b : InputBatch) (i : Nat) : ℚ :=
  ((rowRequest (callsOf h) b i).map fun r => r.task.minP).getD 0

/-- The count is the number of rows whose request has a `min_p`. -/
def MinPCounted (h : List ProcEvent) (s : ProcState) : Prop :=
  s.minP.count = ((List.range s.calls.batch.numReqs).filter fun i => rowMinP h s.calls.batch i ≠ 0).length

instance (h : List ProcEvent) (s : ProcState) : Decidable (MinPCounted h s) :=
  inferInstanceAs (Decidable (s.minP.count = _))

/-- After each refresh the state of the processors is what building it from the batch gives: for every row
below `num_reqs` and its request the bias if there is one, the minimum of tokens if it is not yet reached,
and `min_p`; the other rows have no entries, and the count is the number of rows with a `min_p`. This is for
requests whose `min_p` is not lost where it is stored. -/
theorem update_state_eq_rebuild
    (run : (procMachine wide vocabSize maxNumReqs).Runs (h ++ [.call .refresh]) o s)
    (hc : (procMachine wide vocabSize maxNumReqs).Along (fun s e => s.Allowed e ∧ s.MinPKept e)
      (h ++ [.call .refresh])) :
    (∀ i < s.calls.batch.numReqs, ∃ r p,
      rowRequest (callsOf (h ++ [.call .refresh])) s.calls.batch i = some r ∧ r.task = .sample p ∧
        s.biases.get? i = (if p.logitBias = [] then none else some p.logitBias) ∧
        s.minToks.get? i = (if s.outLen r.outputRef < p.minTokens then
          some { minTokens := p.minTokens, outputRef := r.outputRef, stopTokenIds := p.allStopTokenIds }
          else none) ∧
        s.minP.cpu i = MinP.rowValue p.minP) ∧
    (∀ i, s.calls.batch.numReqs ≤ i → s.biases.get? i = none ∧ s.minToks.get? i = none) ∧
    MinPCounted (h ++ [.call .refresh]) s := by
  have hall : (procMachine wide vocabSize maxNumReqs).Along ProcState.Allowed (h ++ [.call .refresh]) :=
    hc.mono fun _ _ h => h.1
  obtain ⟨o1, run1, hc1⟩ := runs_calls run hall
  obtain ⟨hwf', hlast⟩ := lastAdded_owner run1 hc1
  have hrow := rowRequest_eq hwf' hlast
  obtain ⟨o0, s0, run0, -, rfl, -⟩ := run.concat
  obtain ⟨hc0, ha⟩ := run0.along_concat hc
  have hinv := runs_inv run0 hc0
  obtain ⟨o2, run2, hc2⟩ := runs_calls run0 (hc0.mono fun _ _ h => h.1)
  have hpacked : s0.calls.batch.Packed := (lastAdded_owner run2 hc2).1.packed ha.1
  obtain ⟨f, hs⟩ := hinv.synced
  obtain ⟨hsync, htok⟩ := hs.refresh hinv.sampling hinv.kept
  have hbias : ∀ i, (s0.next (.call .refresh)).biases.get? i = biasOf (s0.calls.batch.column i) :=
    congrFun hsync.biases
  have htok : ∀ i, (s0.next (.call .refresh)).minToks.get? i =
      minTokensOf s0.outLen (s0.calls.batch.column i) := congrFun htok
  have hminP : ∀ i, (s0.next (.call .refresh)).minP.cpu i = minPOf (s0.calls.batch.column i) :=
    congrFun hsync.minP
  have hlen : (s0.next (.call .refresh)).outLen = s0.outLen := by
    simp only [ProcState.next, ProcState.refreshMetadata]
    split <;> rfl
  have hempty : ∀ i, s0.calls.batch.numReqs ≤ i → s0.calls.batch.column i = none := by
    intro i hi
    cases ho : s0.calls.batch.owner i with
    | none => rw [InputBatch.column, ho, Option.bind_none]
    | some r =>
      have := (hpacked.full i).1 (by rw [ho]; rfl)
      omega
  refine ⟨fun i hi => ?_, fun i hi => ?_, ?_⟩
  · obtain ⟨r, ho⟩ := Option.isSome_iff_exists.1 ((hpacked.full i).2 hi)
    obtain ⟨⟨p, hp⟩, -⟩ := hinv.kind i r ho
    have hcol : s0.calls.batch.column i = some (p, r.outputRef) := by
      rw [InputBatch.column, ho, Option.bind_some, CachedRequestState.logged, hp]
    refine ⟨r, p, (hrow i).trans ho, hp, ?_, ?_, ?_⟩
    · rw [hbias, hcol]
      simp only [biasOf, newBias, Option.bind_some, List.isEmpty_iff]
    · rw [htok, hcol]
      simp only [minTokensOf, newMinTokens, Option.bind_some]
      rw [hlen]
      by_cases hlt : s0.outLen r.outputRef < p.minTokens
      · rw [if_pos hlt, if_neg (by omega)]
      · rw [if_neg hlt, if_pos (by omega)]
    · rw [hminP, hcol]
      rfl
  · have hi : s0.calls.batch.numReqs ≤ i := hi
    rw [hbias, htok, hempty i hi]
    exact ⟨rfl, rfl⟩
  · obtain ⟨t, ht, hcard⟩ := hsync.counts.count
    have hset : t = ((List.range s0.calls.batch.numReqs).filter
        fun i => rowMinP (h ++ [.call .refresh]) (s0.next (.call .refresh)).calls.batch i ≠ 0).toFinset := by
      ext i
      rw [ht, List.mem_toFinset, List.mem_filter, List.mem_range, decide_eq_true_iff, hminP]
      by_cases hi : i < s0.calls.batch.numReqs
      · obtain ⟨r, ho⟩ := Option.isSome_iff_exists.1 ((hpacked.full i).2 hi)
        obtain ⟨⟨p, hp⟩, hkept⟩ := hinv.kind i r ho
        have hcol : s0.calls.batch.column i = some (p, r.outputRef) := by
          rw [InputBatch.column, ho, Option.bind_some, CachedRequestState.logged, hp]
        rw [hp] at hkept
        have hrowp : rowMinP (h ++ [.call .refresh]) (s0.next (.call .refresh)).calls.batch i = p.minP := by
          have hr : rowRequest (callsOf (h ++ [.call .refresh])) (s0.next (.call .refresh)).calls.batch i = some r :=
            (hrow i).trans ho
          rw [rowMinP, hr, Option.map_some, Option.getD_some, hp]
          rfl
        rw [hcol, hrowp]
        exact ⟨fun hne => ⟨hi, mt (MinP.rowValue_eq_zero_iff hkept).2 hne⟩,
          fun hne => mt (MinP.rowValue_eq_zero_iff hkept).1 hne.2⟩
      · rw [hempty i (Nat.le_of_not_lt hi)]
        exact ⟨fun hne => absurd rfl hne, fun hlt => absurd hlt.1 hi⟩
    unfold MinPCounted
    rw [hcard, hset, List.toFinset_card_of_nodup (List.nodup_range.filter _)]
    rfl

end Runs

instance (wide : Bool) (vocabSize maxNumReqs : Nat) (h : List ProcEvent) (e : ProcEvent) :
    Decidable ((procMachine wide vocabSize maxNumReqs).ok h e) :=
  inferInstanceAs (Decidable True)

/-- Three requests, one of which reaches its minimum and is moved down when another one leaves. -/
def reachAndMove : List ProcEvent :=
  [.call (.add { reqId := ['a'], task := .sample { minP := 1 / 2 } }),
    .call (.add { reqId := ['b'], task := .sample { logitBias := [(3, 1)] }, outputRef := 1 }),
    .call (.add { reqId := ['c'], task := .sample { minTokens := 2, minP := 1 / 4 }, outputRef := 2 }),
    .call .condense, .call .refresh, .append 2 2, .call (.remove ['a']), .call .condense, .call (.swap 0 1)]

theorem update_state_eq_rebuild_reach_and_move :
    let s := ((procMachine true 8 4).exec (reachAndMove ++ [.call .refresh])).2
    s.calls.batch.numReqs = 2 ∧ s.biases.get? 0 = some [(3, 1)] ∧ s.minP.count = 1 ∧
      MinPCounted (reachAndMove ++ [.call .refresh]) s := by
  have hrun : (procMachine true 8 4).Runs (reachAndMove ++ [.call .refresh]) _ _ := .of_exec (by decide +kernel)
  have hstate := update_state_eq_rebuild hrun (by decide +kernel)
  exact ⟨by decide +kernel, by decide +kernel, by decide +kernel, hstate.2.2⟩

/-- A request whose `min_p` is stored as zero comes and leaves. -/
def tinyMinP : List ProcEvent :=
  [.call (.add { reqId := ['a'], task := .sample { minP := 1 / 10 ^ 50 } }), .call .condense, .call .refresh,
    .call (.remove ['a']), .call .condense]

/-- Compared in double precision, it is counted and never discounted. Compared in single precision, it is not counted
though it is there. -/
theorem tiny_min_p_miscounted :
    ((procMachine true 8 4).Along ProcState.Allowed (tinyMinP ++ [.call .refresh]) ∧
      ¬ MinPCounted (tinyMinP ++ [.call .refresh])
        ((procMachine true 8 4).exec (tinyMinP ++ [.call .refresh])).2) ∧
    (procMachine false 8 4).Along ProcState.Allowed (tinyMinP.take 3) ∧
      ¬ MinPCounted (tinyMinP.take 3) ((procMachine false 8 4).exec (tinyMinP.take 3)).2 :=
  ⟨⟨by decide +kernel, by decide +kernel⟩, by decide +kernel, by decide +kernel⟩

end Gambit.Worker
