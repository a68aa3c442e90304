import Gambit.Engine.Desk

/-!
# Token counters

The step boundaries of a trace depend on the tokens sampled for it alone. `progress` computes the counters of a
trace from the batches sampled so far, and in every reachable state the counters of a live trace are those
(`counted_of_runs`). So the requests that a step finds at a boundary are given by the token stream
(`triggered_of_runs`).
-/

namespace Gambit.Lib

lemma Dict.getD_set {α β : Type*} [DecidableEq α] (d : Dict α β) (k x : α) (v w : β) :
    (d.set k v).getD x w = if x = k then v else d.getD x w := by
  rw [Dict.getD_eq, Dict.getD_eq, Dict.get?_set]
  split
  · rfl
  · rfl

end Gambit.Lib

namespace Gambit.Engine
open Gambit.Lib Gambit.Sched Gambit.Trace

variable (cfg : VllmConfig)

/-- The tokens of a trace and how many there were at its last stride, after some more tokens. -/
def tally (p : Nat × Nat) (n : Nat) : Nat × Nat :=
  (p.1 + n,
    if 0 < cfg.gambit.scoringStride ∧ cfg.gambit.scoringStride ≤ ((p.1 + n : Nat) : Int) - p.2 then p.1 + n
    else p.2)

/-- The counters of a trace after one batch. -/
def tallyBatch (rid : ReqId) (p : Nat × Nat) (mo : ModelRunnerOutput) : Nat × Nat :=
  (mo.get? rid).elim p fun ts => tally cfg p ts.length

/-- The counters of a trace after some batches. -/
def progress (rid : ReqId) (past : List ModelRunnerOutput) : Nat × Nat :=
  past.foldl (tallyBatch cfg rid) (0, 0)

/-- Whether sampled tokens put a trace with these counters at a step boundary. -/
def crosses (p : Nat × Nat) (sampled : List Token) : Bool :=
  if 0 < cfg.gambit.scoringStride then
    cfg.gambit.scoringStride ≤ ((p.1 + sampled.length : Nat) : Int) - p.2
  else EngineCore.hitsBoundary cfg sampled

/-- The requests of a batch at a step boundary. -/
def boundaries (past : List ModelRunnerOutput) (mo : ModelRunnerOutput) : List ReqId :=
  (mo.entries.filter fun o => crosses cfg (progress cfg o.1 past) o.2).map Prod.fst

variable {cfg}

lemma tallyBatch_of_not_mem {rid : ReqId} {p : Nat × Nat} {mo : ModelRunnerOutput} (h : rid ∉ mo) :
    tallyBatch cfg rid p mo = p := by
  unfold tallyBatch
  rw [Dict.get?_eq_none.2 h]
  rfl

lemma progress_concat (rid : ReqId) (past : List ModelRunnerOutput) (mo : ModelRunnerOutput) :
    progress cfg rid (past ++ [mo]) = tallyBatch cfg rid (progress cfg rid past) mo :=
  List.foldl_concat ..

/-- A trace that was never in a batch has no tokens. -/
lemma progress_of_not_mem {rid : ReqId} {past : List ModelRunnerOutput} (h : ∀ mo ∈ past, rid ∉ mo) :
    progress cfg rid past = (0, 0) := by
  induction past using List.reverseRecOn with
  | nil => rfl
  | append_singleton past mo ih =>
    rw [progress_concat, tallyBatch_of_not_mem (h mo (List.mem_append_right _ List.mem_cons_self))]
    exact ih fun mo' hm => h mo' (List.mem_append_left _ hm)

namespace EngineCore
variable {μ β : Type} {ops : Caches μ β} {i : StepInput} {e e' e₀ : EngineCore μ}
variable {added : List ReqId} {so : SchedulerOutput β} {parent : ReqId}

/-- The counters of a trace. -/
def counters (e : EngineCore μ) (rid : ReqId) : Nat × Nat := (e.tokenCount rid, e.strideLastTrigger.getD rid 0)

lemma counters_congr {x : ReqId} (ht : e'.traceTokenCounts.get? x = e.traceTokenCounts.get? x)
    (hs : e'.strideLastTrigger.get? x = e.strideLastTrigger.get? x) : e'.counters x = e.counters x := by
  unfold counters tokenCount
  rw [Dict.getD_eq, Dict.getD_eq, Dict.getD_eq, Dict.getD_eq, ht, hs]

lemma counters_of_not_mem {x : ReqId} (ht : x ∉ e.traceTokenCounts) (hs : x ∉ e.strideLastTrigger) :
    e.counters x = (0, 0) := by
  unfold counters tokenCount
  rw [Dict.getD_eq, Dict.getD_eq, Dict.get?_eq_none.2 ht, Dict.get?_eq_none.2 hs]
  rfl

lemma boundary_eq (e : EngineCore μ) (rid : ReqId) (sampled : List Token) :
    boundary cfg e rid sampled = crosses cfg (e.counters rid) sampled := rfl

/-- One iteration of the trigger loop, on the counters. -/
lemma counters_detectTrigger (p : EngineCore μ × List ReqId) (o : ReqId × List Token) (x : ReqId) :
    (detectTrigger cfg p o).1.counters x =
      if x = o.1 then tally cfg (p.1.counters x) o.2.length else p.1.counters x := by
  unfold detectTrigger counters tally tokenCount
  dsimp only
  by_cases hs : 0 < cfg.gambit.scoringStride
  · simp only [hs, if_true, true_and]
    split
    · next hle =>
      by_cases hx : x = o.1
      · subst hx
        rw [if_pos rfl, if_pos hle, Dict.getD_set, Dict.getD_set, if_pos rfl, if_pos rfl]
      · rw [if_neg hx, Dict.getD_set, Dict.getD_set, if_neg hx, if_neg hx]
    · next hle =>
      by_cases hx : x = o.1
      · subst hx
        rw [if_pos rfl, if_neg hle, Dict.getD_set, if_pos rfl]
      · rw [if_neg hx, Dict.getD_set, if_neg hx]
  · simp only [hs, if_false, false_and]
    by_cases hx : x = o.1
    · subst hx
      rw [if_pos rfl]
      split
      · rw [Dict.getD_set, if_pos rfl]
      · rw [Dict.getD_set, if_pos rfl]
    · rw [if_neg hx]
      split
      · rw [Dict.getD_set, if_neg hx]
      · rw [Dict.getD_set, if_neg hx]

/-- The trigger loop, on the counters. -/
lemma counters_foldl_detectTrigger (l : List (ReqId × List Token)) (nd : (l.map Prod.fst).Nodup)
    (p : EngineCore μ × List ReqId) (x : ReqId) :
    (l.foldl (detectTrigger cfg) p).1.counters x =
      ((l.find? fun o => o.1 = x).map Prod.snd).elim (p.1.counters x) fun ts => tally cfg (p.1.counters x) ts.length := by
  induction l generalizing p with
  | nil => rfl
  | cons o l ih =>
    obtain ⟨hn, nd⟩ := List.nodup_cons.1 nd
    rw [List.foldl_cons, ih nd, counters_detectTrigger]
    by_cases hx : x = o.1
    · subst hx
      have hhead : (o :: l).find? (fun o' => o'.1 = o.1) = some o := List.find?_cons_of_pos (decide_eq_true rfl)
      rw [if_pos rfl, hhead]
      have hnone : l.find? (fun o' => o'.1 = o.1) = none := by
        apply List.find?_eq_none.2
        intro o' ho' he
        exact hn (List.mem_map.2 ⟨o', ho', of_decide_eq_true he⟩)
      rw [hnone]
      rfl
    · have hskip : (o :: l).find? (fun o' => o'.1 = x) = l.find? (fun o' => o'.1 = x) :=
        List.find?_cons_of_neg fun he => hx (of_decide_eq_true he).symm
      rw [if_neg hx, hskip]

/-- The counters after the trigger phase. -/
lemma counters_detectTriggers (mo : ModelRunnerOutput) (x : ReqId) :
    (e.detectTriggers cfg mo).counters x = tallyBatch cfg x (e.counters x) mo :=
  counters_foldl_detectTrigger mo.entries mo.nodup (e, []) x

/-- The counters while a step scores and decides: those of the ids it started from stay, and a branch starts
with none. -/
structure Counts (added : List ReqId) (e₀ e : EngineCore μ) : Prop where
  keeps : ∀ x, e₀.Known added x → e.Known added x ∧ e.counters x = e₀.counters x
  fresh : ∀ x ∈ e.scheduler.requests, x ∈ e₀.scheduler.requests ∨ ¬ e₀.Known added x ∧ e.counters x = (0, 0)
  counted : ∀ x, x ∈ e.traceTokenCounts ∨ x ∈ e.strideLastTrigger → e.Known added x

/-- A state with the same counters and no new request. -/
lemma Counts.congr (h : Counts added e₀ e) (ht : e'.traceTokenCounts = e.traceTokenCounts)
    (hs : e'.strideLastTrigger = e.strideLastTrigger)
    (hr : ∀ x ∈ e'.scheduler.requests, x ∈ e.scheduler.requests)
    (hn : e.traceTree.branchCounter ≤ e'.traceTree.branchCounter) : Counts added e₀ e' := by
  have hc : ∀ x, e'.counters x = e.counters x := fun x => counters_congr (by rw [ht]) (by rw [hs])
  have hk : ∀ x, e.Known added x → e'.Known added x := fun x hx => hx.mono (fun _ => id) hn
  constructor
  · intro x hx
    exact ⟨hk x (h.keeps x hx).1, (hc x).trans (h.keeps x hx).2⟩
  · intro x hx
    rw [hc]
    exact h.fresh x (hr x hx)
  · rw [ht, hs]
    exact fun x hx => hk x (h.counted x hx)

/-- Only a branch touches counters, those of the child. -/
lemma Counts.branch (hb : Base cfg added e) (h : Counts added e₀ e) (hn : e.traceTree.branchCounter ≤
    (e.createBranch cfg i parent).1.traceTree.branchCounter) : Counts added e₀ (e.createBranch cfg i parent).1 := by
  rcases createBranch_cases cfg i e parent with heq | ⟨t, -, -, heq⟩ | ⟨r, t, c, -, -, ht, hcr, heq⟩
  · rw [heq]
    exact h
  · rw [heq] at hn ⊢
    exact h.congr rfl rfl (fun _ => id) hn
  · obtain ⟨ts, ss, cs, hadopt, -⟩ := adoptChild_eq cfg e t parent c r.allTokenIds
    obtain ⟨hid, -⟩ := createChildRequest_eq hcr
    have hnew : ¬ e.Known added c.requestId := by
      rw [hid]
      exact hb.not_known parent
    rw [heq, hadopt] at hn ⊢
    set e1 : EngineCore μ := { e with
      traceTree := t
      scheduler := e.scheduler.addRequest cfg.policy c
      traceScores := ts
      traceScoreSums := ss
      traceScoreCounts := cs
      traceTokenCounts := e.traceTokenCounts.set c.requestId 0
      strideLastTrigger := e.strideLastTrigger.set c.requestId 0
      seqHsToCopy := e.seqHsToCopy ++ [(parent, c.requestId)]
      gambitOutputTokenIds := e.gambitOutputTokenIds.set c.requestId (e.gambitOutputTokenIds.getD parent [])
      record := { e.record with
        decisions := e.record.decisions ++ [.branch parent c.requestId r.allTokenIds] } } with he1
    have hk : ∀ x, e.Known added x → e1.Known added x := fun x hx => hx.mono (fun _ => id) hn
    have hchild : e1.Known added c.requestId := by
      refine .inr ⟨e.traceTree.branchCounter, parent, ?_, hid⟩
      have hcnt : e1.traceTree.branchCounter = e.traceTree.branchCounter + 1 := (TraceTree.addBranch_frame ht).1
      omega
    have hother : ∀ x, x ≠ c.requestId → e1.counters x = e.counters x := by
      intro x hx
      apply counters_congr
      · exact (Dict.get?_set ..).trans (if_neg hx)
      · exact (Dict.get?_set ..).trans (if_neg hx)
    constructor
    · intro x hx
      obtain ⟨hx1, hx2⟩ := h.keeps x hx
      have hne : x ≠ c.requestId := fun he => hnew (he ▸ hx1)
      exact ⟨hk x hx1, (hother x hne).trans hx2⟩
    · intro x hx
      by_cases hxc : x = c.requestId
      · refine .inr ⟨fun hx₀ => hnew (hxc ▸ (h.keeps x hx₀).1), ?_⟩
        show (e.traceTokenCounts.set c.requestId 0 |>.getD x 0, e.strideLastTrigger.set c.requestId 0 |>.getD x 0) = _
        rw [Dict.getD_set, Dict.getD_set, if_pos hxc, if_pos hxc]
      · rw [hother x hxc]
        exact h.fresh x ((Scheduler.mem_addRequest.1 hx).resolve_left hxc)
    · intro x hx
      by_cases hxc : x = c.requestId
      · rw [hxc]
        exact hchild
      · apply hk
        apply h.counted
        rcases hx with hx | hx
        · exact .inl ((Dict.mem_set.1 hx).resolve_left hxc)
        · exact .inr ((Dict.mem_set.1 hx).resolve_left hxc)

/-- The scoring phases keep the counters. -/
lemma scoringRules_counts : ScoringRules (μ := μ) cfg i added so (Counts added e₀) where
  label e scores _ h :=
    h.congr rfl rfl (fun x hx => (Scheduler.relabels_updateTraceScores e.scheduler scores).mem.1 hx) le_rfl
  move e e' avgs hb h _ ha hm := by
    have hn := (hb.move ha hm).2.2
    cases hm with
    | count | register | pruneTested | pruneRanked | forceStop | round => exact h.congr rfl rfl (fun _ => id) hn
    | flush =>
      unfold flushHistories
      split
      · exact h
      · exact h.congr rfl rfl (fun _ => id) le_rfl
    | branch parent => exact h.branch hb hn
  absorb e e' reply _ h _ habs _ := by
    obtain ⟨_, _, _, _, _, rfl, -⟩ := habs
    exact h.congr rfl rfl (fun _ => id) le_rfl
  submit e e' _ h _ hs := by
    obtain ⟨_, _, _, rfl, -⟩ := hs
    exact h.congr rfl rfl (fun _ => id) le_rfl
  drop e ids _ h := h.congr rfl rfl (fun _ => id) le_rfl

/-- The invariant: the counters of the live traces are those of the batches `past`. -/
structure Counted (cfg : VllmConfig) (added : List ReqId) (past : List ModelRunnerOutput) (e : EngineCore μ) : Prop where
  sampled : ∀ mo ∈ past, ∀ x ∈ mo, e.Known added x
  counted : ∀ x, x ∈ e.traceTokenCounts ∨ x ∈ e.strideLastTrigger → e.Known added x
  live : ∀ x ∈ e.scheduler.requests, e.counters x = progress cfg x past

variable {past : List ModelRunnerOutput}

/-- The phases of a step up to the boundaries. -/
lemma Counted.scored (hb : Base cfg added e) (h : Counted cfg added past e) :
    Base cfg added (e.scored ops cfg i) ∧ Counts added (e.afterSchedule ops cfg i).1 (e.scored ops cfg i) := by
  obtain ⟨hb₀, hso⟩ := hb.afterSchedule ops i
  have hc₀ : Counts added (e.afterSchedule ops cfg i).1 (e.afterSchedule ops cfg i).1 :=
    ⟨fun x hx => ⟨hx, rfl⟩, fun x hx => .inl hx, h.counted⟩
  have hmid : Mid cfg added (e.afterSchedule ops cfg i).2 (Counts added (e.afterSchedule ops cfg i).1)
      (e.scored ops cfg i) := scoringRules_counts.stages.scoringPhases ⟨hb₀, hc₀, hso⟩
  exact ⟨hmid.1, hmid.2.1⟩

/-- A scheduled trace has the counters of the batches before it. -/
lemma Counted.counters_scored (hb : Base cfg added e) (h : Counted cfg added past e) {x : ReqId}
    (hx : x ∈ (e.afterSchedule ops cfg i).2.numScheduledTokens) :
    (e.scored ops cfg i).counters x = progress cfg x past ∧ e.counters x = progress cfg x past := by
  have hs : Scheduler.ScheduleSpec ops cfg e.scheduler (e.scheduler.schedule ops cfg i.grammarReady).1
      (e.scheduler.schedule ops cfg i.grammarReady).2 := hb.wf.schedule i.grammarReady
  have hlive := h.live x (hs.scheduled x hx)
  have hk : (e.afterSchedule ops cfg i).1.Known added x := (hb.afterSchedule ops i).2 x hx
  exact ⟨((h.scored hb).2.keeps x hk).2.trans hlive, hlive⟩

/-- The boundaries of a step are given by the batches. -/
lemma Counted.triggers (hb : Base cfg added e) (h : Counted cfg added past e) :
    triggers cfg (e.scored ops cfg i) (modelOutput i (e.afterSchedule ops cfg i).2) =
      boundaries cfg past (modelOutput i (e.afterSchedule ops cfg i).2) := by
  refine congrArg (List.map Prod.fst) (List.filter_congr fun o ho => ?_)
  have hx : o.1 ∈ (e.afterSchedule ops cfg i).2.numScheduledTokens :=
    mem_modelOutput.1 (List.mem_map_of_mem (f := Prod.fst) ho)
  rw [boundary_eq, (h.counters_scored hb hx).1]

/-- The phases after the scores: the boundaries are counted. -/
lemma gambitPhases_counts (e : EngineCore μ) (i : StepInput) (so : SchedulerOutput β)
    (hen : cfg.gambit.enable = true) (mo : ModelRunnerOutput) :
    let e₁ := (e.gambitPhases cfg i so mo).1
    (∀ x, e₁.counters x = tallyBatch cfg x ((e.scoringPhases cfg i so).counters x) mo) ∧
      (∀ x, x ∈ e₁.scheduler.requests → x ∈ (e.scoringPhases cfg i so).scheduler.requests) ∧
      e₁.traceTree = (e.scoringPhases cfg i so).traceTree ∧
      ∀ x, x ∈ e₁.traceTokenCounts ∨ x ∈ e₁.strideLastTrigger →
        x ∈ mo ∨ x ∈ (e.scoringPhases cfg i so).traceTokenCounts ∨ x ∈ (e.scoringPhases cfg i so).strideLastTrigger := by
  unfold gambitPhases
  rw [if_pos hen]
  dsimp only
  generalize e.scoringPhases cfg i so = e
  obtain ⟨tc, sl, heq, hout⟩ := detectTriggers_eq cfg e mo
  have hc : ∀ x, (e.detectTriggers cfg mo).counters x = tallyBatch cfg x (e.counters x) mo :=
    counters_detectTriggers mo
  have hmem : ∀ x, x ∈ tc ∨ x ∈ sl → x ∈ mo ∨ x ∈ e.traceTokenCounts ∨ x ∈ e.strideLastTrigger := by
    intro x hx
    by_cases hm : x ∈ mo
    · exact .inl hm
    · obtain ⟨h1, h2⟩ := hout x hm
      rw [Dict.mem_iff_get?, Dict.mem_iff_get?, h1, h2, ← Dict.mem_iff_get?, ← Dict.mem_iff_get?] at hx
      exact .inr hx
  split
  · obtain ⟨s, low, force, mo', hinj, hs, -⟩ := injectEos_eq (e.detectTriggers cfg mo) mo
    rw [hinj]
    refine ⟨hc, fun x hx => ?_, ?_, ?_⟩
    · have hx' := hs.mem.1 hx
      rw [heq] at hx'
      exact hx'
    · rw [heq]
    · rw [heq]
      exact hmem
  · refine ⟨hc, ?_, ?_, ?_⟩
    · rw [heq]
      exact fun _ => id
    · rw [heq]
    · rw [heq]
      exact hmem

/-- A step keeps the invariant, with its batch. -/
lemma Counted.step (hen : cfg.gambit.enable = true) (hb : Base cfg added e) (h : Counted cfg added past e)
    (hreq : e.scheduler.hasRequests = true) :
    Counted cfg added (past ++ [modelOutput i (e.afterSchedule ops cfg i).2]) (e.step ops cfg i) := by
  obtain ⟨e₁, mo', fin, hb₁, -, hf₁, hso₁, -, hgam, -, hfin, -⟩ := hb.step_rule ops (i := i) hreq phaseRules_true trivial
  obtain ⟨hc, hr, ht, hm⟩ := gambitPhases_counts (e.afterSchedule ops cfg i).1 i (e.afterSchedule ops cfg i).2 hen
    (modelOutput i (e.afterSchedule ops cfg i).2)
  have hcs : Counts added (e.afterSchedule ops cfg i).1 (e.scored ops cfg i) := (h.scored hb).2
  rw [← hgam] at hc hr ht hm
  set mo := modelOutput i (e.afterSchedule ops cfg i).2 with hmo
  have hscored : (e.afterSchedule ops cfg i).1.scoringPhases cfg i (e.afterSchedule ops cfg i).2 = e.scored ops cfg i := rfl
  rw [hscored] at hc hr ht hm
  have hcnt : (e.step ops cfg i).traceTree.branchCounter = e₁.traceTree.branchCounter :=
    hfin.tree (fun t => t.branchCounter = e₁.traceTree.branchCounter)
      (fun t rid _ score tokens ht => (onRequestFinished_frame t rid score tokens).1.trans ht) rfl
  have hk : ∀ x, (e.scored ops cfg i).Known added x → (e.step ops cfg i).Known added x := by
    intro x hx
    rw [Known, hcnt, ht]
    exact hx
  have hbatch : ∀ x ∈ mo, (e.scored ops cfg i).Known added x := by
    intro x hx
    exact (hcs.keeps x ((hb.afterSchedule ops i).2 x (mem_modelOutput.1 hx))).1
  have hstart : ∀ x, e.Known added x → (e.scored ops cfg i).Known added x := fun x hx => (hcs.keeps x hx).1
  constructor
  · intro b hbm x hx
    rcases List.mem_append.1 hbm with hbm | hbm
    · exact hk x (hstart x (h.sampled b hbm x hx))
    · rw [List.mem_singleton.1 hbm] at hx
      exact hk x (hbatch x hx)
  · intro x hx
    have hx₁ : x ∈ e₁.traceTokenCounts ∨ x ∈ e₁.strideLastTrigger := by
      rcases hx with hx | hx
      · exact .inl (mem_of_get?_eq_ite (hfin.finalized.traceTokenCounts x) hx).2
      · exact .inr (mem_of_get?_eq_ite (hfin.finalized.strideLastTrigger x) hx).2
    rcases hm x hx₁ with hx | hx
    · exact hk x (hbatch x hx)
    · exact hk x (hcs.counted x hx)
  · intro x hx
    have hlive₁ := hfin.live hx
    have hnf : x ∉ fin := fun hf => (hfin.live_of_fin hf₁ hf).2.2 hx
    have hcx : (e.step ops cfg i).counters x = e₁.counters x := by
      apply counters_congr
      · rw [hfin.finalized.traceTokenCounts, if_neg hnf]
      · rw [hfin.finalized.strideLastTrigger, if_neg hnf]
    rw [hcx, hc, progress_concat]
    rcases hcs.fresh x (hr x hlive₁) with hx₀ | ⟨hx₀, hzero⟩
    · have hs : Scheduler.ScheduleSpec ops cfg e.scheduler (e.scheduler.schedule ops cfg i.grammarReady).1
          (e.scheduler.schedule ops cfg i.grammarReady).2 := hb.wf.schedule i.grammarReady
      have hx₀' : x ∈ e.scheduler.requests := hs.evolves.mem hx₀
      rw [(hcs.keeps x (hb.live x hx₀')).2, ← h.live x hx₀']
      rfl
    · have hpast : progress cfg x past = (0, 0) :=
        progress_of_not_mem fun b hbm hxb => hx₀ (h.sampled b hbm x hxb)
      rw [hzero, hpast]

/-- A state with the same counters and no new request, after a batch of nothing. -/
lemma Counted.quiet {added' : List ReqId} (h : Counted cfg added past e) (ht : e'.traceTokenCounts = e.traceTokenCounts)
    (hs : e'.strideLastTrigger = e.strideLastTrigger) (hk : ∀ x, e.Known added x → e'.Known added' x)
    (hr : ∀ x ∈ e'.scheduler.requests, x ∈ e.scheduler.requests ∨ ¬ e.Known added x) :
    Counted cfg added' (past ++ [∅]) e' := by
  constructor
  · intro b hb x hx
    rcases List.mem_append.1 hb with hb | hb
    · exact hk x (h.sampled b hb x hx)
    · rw [List.mem_singleton.1 hb] at hx
      exact absurd hx Dict.not_mem_empty
  · rw [ht, hs]
    exact fun x hx => hk x (h.counted x hx)
  · intro x hx
    have hc : e'.counters x = e.counters x := counters_congr (by rw [ht]) (by rw [hs])
    rw [hc, progress_concat, tallyBatch_of_not_mem Dict.not_mem_empty]
    rcases hr x hx with hx | hx
    · exact h.live x hx
    · have hpast : progress cfg x past = (0, 0) := progress_of_not_mem fun b hb hxb => hx (h.sampled b hb x hxb)
      rw [hpast]
      exact counters_of_not_mem (fun hm => hx (h.counted x (.inl hm))) fun hm => hx (h.counted x (.inr hm))

/-- An idle step samples nothing. -/
lemma Counted.idle (ops : Caches μ β) (h : Counted cfg added past e) (hreq : e.scheduler.hasRequests = false) :
    Counted cfg added (past ++ [∅]) (e.step ops cfg i) ∧ (e.step ops cfg i).record.sampled = ∅ ∧
      (e.step ops cfg i).record.scheduled = ∅ ∧ (e.step ops cfg i).record.triggered = [] := by
  rw [EngineCore.step, if_neg (Bool.eq_false_iff.1 hreq)]
  unfold idleCleanup
  split
  · refine ⟨h.quiet rfl rfl (fun x hx => ?_) fun x hx => .inl hx, rfl, rfl, rfl⟩
    rw [Known]
    dsimp only
    rw [(TraceTree.foldl_markPruned_frame _ _).1]
    exact hx
  · exact ⟨h.quiet rfl rfl (fun x hx => hx) fun x hx => .inl hx, rfl, rfl, rfl⟩

/-- What the record of an event says about its batch. -/
structure Batched (cfg : VllmConfig) (past : List ModelRunnerOutput) (rec : StepRecord) : Prop where
  mem : ∀ x, x ∈ rec.sampled ↔ x ∈ rec.scheduled
  triggered : rec.triggered = boundaries cfg past rec.sampled

lemma batched_empty : Batched cfg past {} := ⟨fun _ => Iff.rfl, rfl⟩

/-- Every event keeps the invariant, with the batch it sampled. -/
lemma Counted.handle {h : List Event} {ev : Event} (hen : cfg.gambit.enable = true)
    (hb : Base cfg (h.filterMap Event.added) e) (hc : Counted cfg (h.filterMap Event.added) past e)
    (hok : Event.Ok h ev) :
    Counted cfg ((h ++ [ev]).filterMap Event.added) (past ++ [(e.handle ops cfg ev).record.sampled])
        (e.handle ops cfg ev) ∧ Batched cfg past (e.handle ops cfg ev).record := by
  cases ev with
  | addRequest r =>
    rw [List.filterMap_append]
    refine ⟨hc.quiet ?_ ?_ ?_ ?_, batched_empty⟩
    · unfold EngineCore.handle EngineCore.addRequest
      dsimp only
      split
      · rfl
      · rfl
    · unfold EngineCore.handle EngineCore.addRequest
      dsimp only
      split
      · rfl
      · rfl
    · intro x hx
      apply hx.mono (List.subset_append_left _ _)
      unfold EngineCore.handle EngineCore.addRequest
      dsimp only
      split
      · split
        · exact le_rfl
        · exact le_rfl
      · exact le_rfl
    · intro x hx
      have hx' : x ∈ (e.scheduler.addRequest cfg.policy r).requests := by
        unfold EngineCore.handle EngineCore.addRequest at hx
        dsimp only at hx
        split at hx
        · exact hx
        · exact hx
      rcases Scheduler.mem_addRequest.1 hx' with rfl | hx'
      · exact .inr (not_issued_of_ok hok)
      · exact .inl hx'
  | abortRequests rids =>
    have hs := hb.wf.finishRequests ops rids .finishedAborted
    rw [filterMap_added_of_none rfl]
    exact ⟨hc.quiet rfl rfl (fun x hx => hx) fun x hx => .inl (hs.mem hx), batched_empty⟩
  | postStep drafts =>
    have hs := Scheduler.relabels_updateDraftTokenIds e.scheduler drafts
    rw [filterMap_added_of_none rfl]
    exact ⟨hc.quiet rfl rfl (fun x hx => hx) fun x hx => .inl (hs.mem.1 hx), batched_empty⟩
  | step i =>
    rw [filterMap_added_of_none rfl]
    show Counted cfg _ (past ++ [(e.step ops cfg i).record.sampled]) (e.step ops cfg i) ∧
      Batched cfg past (e.step ops cfg i).record
    cases hreq : e.scheduler.hasRequests with
    | true =>
      obtain ⟨h1, h2, -⟩ := hb.record_step ops (i := i) hreq
      rw [h2]
      refine ⟨hc.step hen hb hreq, fun x => ?_, ?_⟩
      · rw [h1, h2]
        exact mem_modelOutput
      · rw [h2]
        exact (congrArg Desk.triggered (desk_step ops hen hreq)).trans (hc.triggers hb)
    | false =>
      obtain ⟨h1, h2, h3, h4⟩ := hc.idle ops hreq
      rw [h2]
      refine ⟨h1, fun x => ?_, ?_⟩
      · rw [h2, h3]
        exact ⟨fun hx => absurd hx Dict.not_mem_empty, fun hx => absurd hx Dict.not_mem_empty⟩
      · rw [h2, h4]
        rfl

lemma Counted.init (cfg : VllmConfig) (m : μ) : Counted cfg [] [] (EngineCore.init cfg m) where
  sampled _ h := absurd h List.not_mem_nil
  counted _ h := h.elim (fun h => absurd h Dict.not_mem_empty) fun h => absurd h Dict.not_mem_empty
  live _ h := absurd h Dict.not_mem_empty

end EngineCore

variable {μ β : Type} {ops : Caches μ β} {m : μ} {h : List Event} {os : List StepRecord} {e : EngineCore μ}

/-- In every reachable state the counters of a live trace are those of the batches sampled so far. -/
theorem counted_of_runs (hen : cfg.gambit.enable = true) (run : (engineMachine ops cfg m).Runs h os e) :
    EngineCore.Counted cfg (h.filterMap Event.added) (os.map StepRecord.sampled) e := by
  induction run with
  | init => exact .init cfg m
  | step run hok ih =>
    rw [List.map_append]
    exact (ih.handle hen (base_of_runs run) hok).1

/-- The records of a run: what was sampled was scheduled, and the boundaries are those of the token stream. -/
theorem batched_of_runs (hen : cfg.gambit.enable = true) (run : (engineMachine ops cfg m).Runs h os e) {k : Nat}
    {rec : StepRecord} (hk : os[k]? = some rec) :
    EngineCore.Batched cfg ((os.take k).map StepRecord.sampled) rec := by
  induction run with
  | init => cases hk
  | @step h os e ev run hok ih =>
    rcases Nat.lt_trichotomy k os.length with hlt | rfl | hgt
    · rw [List.getElem?_append_left hlt] at hk
      rw [List.take_append_of_le_length hlt.le]
      exact ih hk
    · rw [List.getElem?_concat_length] at hk
      cases hk
      rw [List.take_left]
      exact ((counted_of_runs hen run).handle hen (base_of_runs run) hok).2
    · rw [List.getElem?_eq_none] at hk
      · cases hk
      · rw [List.length_append, List.length_singleton]
        exact hgt

/-- The boundaries of a run are given by its token stream. -/
theorem triggered_of_runs (hen : cfg.gambit.enable = true) (run : (engineMachine ops cfg m).Runs h os e)
    {cfg' : VllmConfig} (hg : cfg'.gambit = cfg.gambit) {μ' β' : Type} {ops' : Caches μ' β'} {m' : μ'} {h' : List Event}
    {os' : List StepRecord} {e' : EngineCore μ'} (run' : (engineMachine ops' cfg' m').Runs h' os' e')
    (hs : os'.map StepRecord.sampled = os.map StepRecord.sampled) :
    os'.map StepRecord.triggered = os.map StepRecord.triggered := by
  have hen' : cfg'.gambit.enable = true := by rw [hg, hen]
  have hcross : ∀ past mo, boundaries cfg' past mo = boundaries cfg past mo := by
    intro past mo
    unfold boundaries progress tallyBatch tally crosses EngineCore.hitsBoundary
    rw [hg]
  have hlen : os'.length = os.length := by
    have hl := congrArg List.length hs
    rwa [List.length_map, List.length_map] at hl
  apply List.ext_getElem?
  intro k
  rw [List.getElem?_map, List.getElem?_map]
  cases hk : os[k]? with
  | none =>
    rw [List.getElem?_eq_none (hlen ▸ List.getElem?_eq_none_iff.1 hk)]
  | some rec =>
    have hsk := congrArg (fun l => l[k]?) hs
    rw [List.getElem?_map, List.getElem?_map, hk] at hsk
    obtain ⟨rec', hk', hrec⟩ := Option.map_eq_some_iff.1 hsk
    have htake : (os'.take k).map StepRecord.sampled = (os.take k).map StepRecord.sampled := by
      rw [List.map_take, List.map_take, hs]
    have h1 := (batched_of_runs hen run hk).triggered
    have h2 := (batched_of_runs hen' run' hk').triggered
    rw [hk', Option.map_some, Option.map_some, h1, h2, hcross, htake, hrec]

/-- The boundaries of every step of a run, and the counters of the live traces at its end, are those of the tokens
sampled so far. -/
theorem boundaries_of_tokens (hen : cfg.gambit.enable = true) (run : (engineMachine ops cfg m).Runs h os e) :
    (∀ (k : Nat) (rec : StepRecord), os[k]? = some rec →
      rec.triggered = boundaries cfg ((os.take k).map StepRecord.sampled) rec.sampled) ∧
    ∀ rid ∈ e.scheduler.requests, e.traceTokenCounts.getD rid 0 = (progress cfg rid (os.map StepRecord.sampled)).1 := by
  constructor
  · intro k rec hk
    exact (batched_of_runs hen run hk).triggered
  · intro rid hrid
    exact congrArg Prod.fst ((counted_of_runs hen run).live rid hrid)

/-- Scores that neither prune nor branch, in both modes of the scorer. -/
def scorerSample (async : Bool) : VllmConfig where
  gambit :=
    { enable := true
      doubleNewLineTokenId := some [7]
      tournamentMode := false }
  scheduler := {}
  asyncScorer := async

/-- A step that samples the same token for every trace. -/
def sampling (t : Token) : Event := .step (.ofSamples (fun _ => [t]) fun _ => 1 / 2)

/-- One root, and the tokens it samples. -/
def oneRoot (ts : List Token) : List Event :=
  .addRequest
    { requestId := "0_1".toList
      promptTokenIds := [1, 2, 3]
      eosTokenId := some 9
      samplingParams := {} } :: ts.map sampling

/-- What the steps of `oneRoot` record. -/
def oneRootRecords (async : Bool) (ts : List Token) : List StepRecord :=
  ((engineMachine .unbounded (scorerSample async) ()).exec (oneRoot ts)).1

lemma runs_oneRoot (async : Bool) {ts : List Token}
    (hok : (engineMachine .unbounded (scorerSample async) ()).OkFrom [] (oneRoot ts)) :
    (engineMachine .unbounded (scorerSample async) ()).Runs (oneRoot ts) (oneRootRecords async ts)
      ((engineMachine .unbounded (scorerSample async) ()).exec (oneRoot ts)).2 := Machine.Runs.of_exec hok

/-- Three tokens, the first two of them boundaries. -/
theorem boundaries_of_tokens_oneRoot :
    (oneRootRecords false [7, 7, 5])[2]?.map StepRecord.triggered = some ["0_1".toList] ∧
      ((engineMachine .unbounded (scorerSample false) ()).exec
        (oneRoot [7, 7, 5])).2.traceTokenCounts.getD "0_1".toList 0 = 3 := by
  have hok : (engineMachine .unbounded (scorerSample false) ()).OkFrom [] (oneRoot [7, 7, 5]) := by decide +kernel
  obtain ⟨hbound, hcount⟩ := boundaries_of_tokens rfl (runs_oneRoot false hok)
  constructor
  · have hlen : 2 < (oneRootRecords false [7, 7, 5]).length := by decide +kernel
    have hval : ∀ rec ∈ (oneRootRecords false [7, 7, 5])[2]?,
        boundaries (scorerSample false) (((oneRootRecords false [7, 7, 5]).take 2).map StepRecord.sampled) rec.sampled =
          ["0_1".toList] := by decide +kernel
    have hk := List.getElem?_eq_getElem hlen
    rw [hk, Option.map_some, hbound 2 _ hk, hval _ hk]
  · have hlive : "0_1".toList ∈ ((engineMachine .unbounded (scorerSample false) ()).exec
        (oneRoot [7, 7, 5])).2.scheduler.requests := by decide +kernel
    rw [hcount _ hlive]
    decide +kernel

end Gambit.Engine
