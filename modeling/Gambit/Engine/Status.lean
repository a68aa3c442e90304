import Gambit.Engine.Invariant

/-!
# One status per trace

Every node of the trace tree is active, completed or pruned, and only one of these. The finalisation
looks at the flags before it completes a node, the ranking and the forced stop before they prune one,
and the idle branch prunes active nodes. The hard floor and the threshold test do not look: they
prune whatever has a low average. With the synchronous scorer a completed trace has no average. With
the asynchronous one its last scores can arrive after it finished, and `LateSafe` asks that these do
not pass the prune test.
-/

namespace Gambit.Engine
open Gambit.Lib Gambit.Sched Gambit.Trace

namespace EngineCore
variable {μ β : Type} {ops : Caches μ β} {cfg : VllmConfig} {i : StepInput} {e e' : EngineCore μ}
variable {added : List ReqId} {so : SchedulerOutput β} {avgs : Dict ReqId ℚ}

/-- A move completes nothing and takes no status back. -/
lemma Base.move_status (hb : Base cfg added e) (hm : Move cfg i avgs e e') :
    FlagsLE e.traceTree e'.traceTree ∧ KeepsNotDone e.traceTree e'.traceTree ∧
      e'.traceTree.getCompletedCount = e.traceTree.getCompletedCount := by
  cases hm with
  | count => exact ⟨.refl _, .refl _, rfl⟩
  | register =>
    rename_i s _
    unfold registerScore
    dsimp only
    split
    · exact ⟨(flagsLE_ensureRoot _ _).trans (flagsLE_recordScore _ _ _),
        (keepsNotDone_ensureRoot _ _).trans (keepsNotDone_recordScore _ _ _),
        (getCompletedCount_recordScore _ _ _).trans (getCompletedCount_ensureRoot _ _)⟩
    · exact ⟨flagsLE_ensureRoot _ _, keepsNotDone_ensureRoot _ _, getCompletedCount_ensureRoot _ _⟩
  | pruneTested | pruneRanked | forceStop =>
    exact ⟨flagsLE_markPruned _ _, keepsNotDone_markPruned _ _, getCompletedCount_markPruned _ _⟩
  | round => exact ⟨.refl _, .refl _, rfl⟩
  | flush =>
    unfold flushHistories
    split <;> exact ⟨.refl _, .refl _, rfl⟩
  | branch parent =>
    have hc := hb.not_mem_tree parent
    rcases createBranch_cases cfg i e parent with
      heq | ⟨t, -, ht, heq⟩ | ⟨r, t, c, -, -, ht, -, heq⟩
    · rw [heq]; exact ⟨.refl _, .refl _, rfl⟩
    · rw [heq]
      exact ⟨flagsLE_removeTrace_addBranch ht hc, keepsNotDone_removeTrace_addBranch ht hc,
        getCompletedCount_removeTrace_addBranch ht hc⟩
    · obtain ⟨ts, ss, cs, hadopt, -⟩ := adoptChild_eq cfg e t parent c r.allTokenIds
      rw [heq, hadopt]
      exact ⟨flagsLE_addBranch ht hc, keepsNotDone_addBranch ht hc, getCompletedCount_addBranch ht hc⟩

/-- A move touches neither the scores nor the token count of a trace that exists. -/
lemma Base.move_scores (hb : Base cfg added e) (hm : Move cfg i avgs e e') {x : ReqId}
    (hx : e.Known added x) :
    e'.traceScores.get? x = e.traceScores.get? x ∧
      e'.traceScoreSums.get? x = e.traceScoreSums.get? x ∧
      e'.traceScoreCounts.get? x = e.traceScoreCounts.get? x ∧
      e'.traceTokenCounts.get? x = e.traceTokenCounts.get? x := by
  cases hm with
  | count | register | pruneTested | pruneRanked | forceStop | round => exact ⟨rfl, rfl, rfl, rfl⟩
  | flush =>
    unfold flushHistories
    split <;> exact ⟨rfl, rfl, rfl, rfl⟩
  | branch parent =>
    rcases createBranch_cases cfg i e parent with
      heq | ⟨t, -, -, heq⟩ | ⟨r, t, c, -, -, -, hcr, heq⟩
    · rw [heq]; exact ⟨rfl, rfl, rfl, rfl⟩
    · rw [heq]; exact ⟨rfl, rfl, rfl, rfl⟩
    · obtain ⟨hid, -⟩ := createChildRequest_eq hcr
      obtain ⟨ts, ss, cs, hadopt, hget⟩ := adoptChild_eq cfg e t parent c r.allTokenIds
      have hne : x ≠ c.requestId := by
        intro hxc
        rw [hid] at hxc
        exact hb.not_known parent (hxc ▸ hx)
      obtain ⟨h1, h2, h3⟩ := hget x hne
      rw [heq, hadopt]
      exact ⟨h1, h2, h3, by dsimp only; rw [Dict.get?_set, if_neg hne]⟩

instance (cfg : VllmConfig) (e : EngineCore μ) (rid : ReqId) (avg : ℚ) :
    Decidable (e.pruneTest cfg rid avg) := by
  unfold pruneTest
  infer_instance

/-- No completed trace passes the prune test with the scores in `e`. -/
def Safe (cfg : VllmConfig) (e : EngineCore μ) : Prop :=
  e.shouldStopAfterCompleted cfg = false → ∀ s ∈ (e.traceAvgScores cfg).entries,
    (e.traceTree.getNode s.1).any (·.isCompleted) = true → ¬ e.pruneTest cfg s.1 s.2

/-- No completed trace will pass the prune test once the reply in flight is taken in. -/
def LateSafe (cfg : VllmConfig) (e : EngineCore μ) : Prop :=
  cfg.asyncScorer = true → e.shouldStopAfterCompleted cfg = false → ∀ reply ∈ e.asyncScorerFuture,
    ∀ s ∈ ((e.recordScores cfg (mergeScores reply)).traceAvgScores cfg).entries,
      (e.traceTree.getNode s.1).any (·.isCompleted) = true → ¬ e.pruneTest cfg s.1 s.2

instance (cfg : VllmConfig) (e : EngineCore μ) : Decidable (e.LateSafe cfg) := by
  unfold LateSafe
  infer_instance

/-- The statuses between two events. -/
structure Status (cfg : VllmConfig) (e : EngineCore μ) : Prop where
  flags : OneFlags e.traceTree
  live : ∀ rid ∈ e.scheduler.requests, NotDone e.traceTree rid
  scored : cfg.asyncScorer = false → ∀ rid, rid ∈ e.traceScores ∨ rid ∈ e.traceScoreCounts →
    NotDone e.traceTree rid

/-- The statuses during a step with output `so`. -/
def StatusMid (cfg : VllmConfig) (so : SchedulerOutput β) (e : EngineCore μ) : Prop :=
  Status cfg e ∧ ∀ rid ∈ so.numScheduledTokens, NotDone e.traceTree rid

/-- The same tree, no more requests and scores. -/
lemma Status.congr (h : Status cfg e) (ht : e'.traceTree = e.traceTree)
    (hl : ∀ x ∈ e'.scheduler.requests, x ∈ e.scheduler.requests)
    (hs : cfg.asyncScorer = false → ∀ x, x ∈ e'.traceScores ∨ x ∈ e'.traceScoreCounts →
      NotDone e.traceTree x) : Status cfg e' where
  flags := ht ▸ h.flags
  live x hx := ht ▸ h.live x (hl x hx)
  scored ha x hx := ht ▸ hs ha x hx

/-- A completed node is not `NotDone`. -/
lemma not_notDone {t : TraceTree} {rid : ReqId}
    (h : (t.getNode rid).any (·.isCompleted) = true) : ¬ NotDone t rid := by
  intro hn
  cases hg : t.getNode rid with
  | none => simp [hg] at h
  | some n =>
    rw [hg] at h
    simp only [Option.any_some] at h
    rw [hn n hg] at h
    cases h

/-- A trace that is not `NotDone` has a completed node. -/
lemma any_of_not_notDone {t : TraceTree} {rid : ReqId} (h : ¬ NotDone t rid) :
    (t.getNode rid).any (·.isCompleted) = true := by
  unfold NotDone at h
  push Not at h
  obtain ⟨n, hn, hc⟩ := h
  simp [hn, hc]

/-- A move keeps the invariant when no completed trace passes the prune test. -/
lemma StatusMid.move (h : StatusMid cfg so e) (hb : Base cfg added e) (hs : Safe cfg e)
    (ha : AvgsOf cfg e avgs) (hm : Move cfg i avgs e e') : StatusMid cfg so e' := by
  obtain ⟨⟨hflags, hlive, hscored⟩, hsched⟩ := h
  obtain ⟨-, hkeep, -⟩ := hb.move_status hm
  have hlive' : ∀ rid ∈ e'.scheduler.requests, NotDone e'.traceTree rid := by
    intro rid hr
    cases hm with
    | count | register | pruneTested | pruneRanked | forceStop | round =>
      exact hkeep rid (hlive rid hr)
    | flush =>
      unfold flushHistories at hr hkeep ⊢
      split at hr <;> exact hkeep rid (hlive rid hr)
    | branch parent =>
      rcases createBranch_cases cfg i e parent with
        heq | ⟨t, -, -, heq⟩ | ⟨r, t, c, -, -, -, hcr, heq⟩
      · rw [heq] at hr hkeep ⊢; exact hkeep rid (hlive rid hr)
      · rw [heq] at hr hkeep ⊢; exact hkeep rid (hlive rid hr)
      · obtain ⟨hid, -⟩ := createChildRequest_eq hcr
        obtain ⟨ts, ss, cs, hadopt, -⟩ := adoptChild_eq cfg e t parent c r.allTokenIds
        rw [heq, hadopt] at hr hkeep ⊢
        rcases Scheduler.mem_addRequest.1 hr with rfl | hr
        · refine hkeep _ fun n hn => ?_
          rw [hid] at hn
          exact absurd (TraceTree.mem_of_getNode hn) (hb.not_mem_tree parent)
        · exact hkeep rid (hlive rid hr)
  have hscored' : cfg.asyncScorer = false → ∀ rid,
      rid ∈ e'.traceScores ∨ rid ∈ e'.traceScoreCounts → NotDone e'.traceTree rid := by
    intro hasync rid hr
    by_cases hk : e.Known added rid
    · obtain ⟨h1, -, h3, -⟩ := hb.move_scores hm hk
      rw [Dict.mem_iff_get?, Dict.mem_iff_get?, h1, h3, ← Dict.mem_iff_get?, ← Dict.mem_iff_get?] at hr
      exact hkeep rid (hscored hasync rid hr)
    · refine hkeep rid fun n hn => absurd (hb.tree rid (TraceTree.mem_of_getNode hn)) hk
  refine ⟨⟨?_, hlive', hscored'⟩, fun rid hr => hkeep rid (hsched rid hr)⟩
  cases hm with
  | count => exact hflags
  | register =>
    unfold registerScore
    dsimp only
    split
    · exact (hflags.ensureRoot _).recordScore _ _
    · exact hflags.ensureRoot _
  | pruneTested =>
    rename_i rid avg hget htest hstop
    refine hflags.markPruned ?_
    by_contra hn
    have hmem := Dict.get?_eq_some.1 (ha rid avg hget)
    exact hs hstop (rid, avg) hmem (any_of_not_notDone hn) htest
  | pruneRanked =>
    rename_i rid n _ hget hf
    refine hflags.markPruned fun n' hn' => ?_
    rw [hget] at hn'
    cases hn'
    exact (hflags rid n hget).not_completed hf
  | forceStop =>
    rename_i rid n hget hact
    refine hflags.markPruned fun n' hn' => ?_
    rw [hget] at hn'
    cases hn'
    exact (hflags rid n hget).not_completed (.inl hact)
  | round => exact hflags
  | flush =>
    unfold flushHistories
    split <;> exact hflags
  | branch parent =>
    have hc := hb.not_mem_tree parent
    rcases createBranch_cases cfg i e parent with
      heq | ⟨t, -, ht, heq⟩ | ⟨r, t, c, -, -, ht, -, heq⟩
    · rw [heq]; exact hflags
    · rw [heq]; exact hflags.removeTrace_addBranch ht hc
    · obtain ⟨ts, ss, cs, hadopt, -⟩ := adoptChild_eq cfg e t parent c r.allTokenIds
      rw [heq, hadopt]; exact hflags.addBranch ht hc

/-- A move makes no completed trace pass the prune test. -/
lemma Safe.move (hs : Safe cfg e) (hb : Base cfg added e) (hm : Move cfg i avgs e e') :
    Safe cfg e' := by
  obtain ⟨-, hkeep, hcount⟩ := hb.move_status hm
  intro hstop s hmem hdone
  have hdone' : (e.traceTree.getNode s.1).any (·.isCompleted) = true :=
    any_of_not_notDone fun hn => not_notDone hdone (hkeep s.1 hn)
  have hknown : e.Known added s.1 := by
    refine hb.tree s.1 (TraceTree.mem_iff_getNode.2 ?_)
    cases hg : e.traceTree.getNode s.1 with
    | none => simp [hg] at hdone'
    | some n => exact ⟨n, rfl⟩
  obtain ⟨h1, h2, h3, h4⟩ := hb.move_scores hm hknown
  have havg : (e.traceAvgScores cfg).get? s.1 = some s.2 := by
    rw [← get?_traceAvgScores_congr h1 h2 h3]
    exact Dict.get?_eq_some.2 hmem
  have htok : e'.tokenCount s.1 = e.tokenCount s.1 := by
    rw [tokenCount, tokenCount, Dict.getD_eq, Dict.getD_eq, h4]
  have := hs (by rw [← hstop]; exact (shouldStopAfterCompleted_congr hcount).symm) s
    (Dict.get?_eq_some.1 havg) hdone'
  rwa [pruneTest, htok]

/-- With the synchronous scorer no completed trace has a score. -/
lemma Status.safe (h : Status cfg e) (hsync : cfg.asyncScorer = false) : Safe cfg e := by
  intro _ s hs hdone
  have hm : s.1 ∈ e.traceAvgScores cfg := List.mem_map_of_mem (f := Prod.fst) hs
  exact absurd (h.scored hsync s.1 (mem_traceAvgScores hm)) (not_notDone hdone)

/-- The phases keep the invariant. -/
lemma phaseStages_status : PhaseStages (μ := μ) cfg i added so
    (fun e => StatusMid cfg so e ∧ LateSafe cfg e) (fun e => StatusMid cfg so e ∧ Safe cfg e)
    (StatusMid cfg so) where
  label e scores _ h := by
    have hrel := Scheduler.relabels_updateTraceScores e.scheduler scores
    obtain ⟨⟨hst, hsched⟩, hsafe⟩ := h
    exact ⟨⟨hst.congr rfl (fun x hx => hrel.mem.1 hx) hst.scored, hsched⟩, hsafe⟩
  move e e' avgs hb h _ ha hm := ⟨h.1.move hb h.2 ha hm, h.2.move hb hm⟩
  start _ _ h _ := h.1
  absorbAsync e e' reply hb h hasync hfut habs _ := by
    obtain ⟨hs, pend, fut, recorded, evaluated, rfl, -⟩ := habs
    obtain ⟨⟨hst, hsched⟩, hlate⟩ := h
    refine ⟨⟨hst.congr rfl (fun _ => id) fun hsync => ?_, hsched⟩, fun hstop => ?_⟩
    · rw [hasync] at hsync; cases hsync
    · exact hlate hasync hstop reply hfut
  absorbSync e e' reply hb h hsync hans habs _ := by
    obtain ⟨hs, pend, fut, recorded, evaluated, rfl, -⟩ := habs
    obtain ⟨hst, hsched⟩ := h
    have hnew : Status cfg ({ e with
        traceScores := (e.recordScores cfg (mergeScores reply)).traceScores
        traceScoreSums := (e.recordScores cfg (mergeScores reply)).traceScoreSums
        traceScoreCounts := (e.recordScores cfg (mergeScores reply)).traceScoreCounts
        traceHiddenStateLast := hs
        pendingHsClassification := pend
        asyncScorerFuture := fut
        record := { e.record with recorded := recorded, evaluated := evaluated } } :
          EngineCore μ) := by
      refine hst.congr rfl (fun _ => id) fun _ x hx => ?_
      have hx' : (x ∈ e.traceScores ∨ x ∈ e.traceScoreCounts) ∨ x ∈ mergeScores reply := by
        rcases hx with hx | hx
        · exact (mem_recordScores.1 hx).imp_left .inl
        · exact (mem_recordScores.2.2 hx).imp_left .inr
      rcases hx' with hx | hx
      · exact hst.scored hsync x hx
      · exact hsched x (hans x (mem_mergeScores.1 hx)).2
    exact ⟨⟨hnew, hsched⟩, hnew.safe hsync⟩
  settle _ _ h _ := h.1
  submit e e' _ h _ hs := by
    obtain ⟨_, _, _, rfl, -⟩ := hs
    exact ⟨h.1.congr rfl (fun _ => id) h.1.scored, h.2⟩
  drop e ids _ h := ⟨h.1.congr rfl (fun _ => id) h.1.scored, h.2⟩
  skip _ _ h := h.1
  trigger e mo _ h _ := by
    obtain ⟨tc, sl, heq, -⟩ := detectTriggers_eq cfg e mo
    rw [heq]
    exact ⟨h.1.congr rfl (fun _ => id) h.1.scored, h.2⟩
  inject e mo _ h := by
    obtain ⟨s, low, force, mo', heq, hs, -⟩ := injectEos_eq e mo
    rw [heq]
    exact ⟨h.1.congr rfl (fun x hx => hs.mem.1 hx) h.1.scored, h.2⟩

/-- A finished trace gets one flag, and no flag is taken back. -/
lemma onRequestFinished_flags {t : TraceTree} (rid : ReqId) (score : Option ℚ)
    (tokens : Option (List Token)) :
    FlagsLE t (onRequestFinished t rid score tokens) ∧
      (OneFlags t → OneFlags (onRequestFinished t rid score tokens)) ∧
      ∀ x, x ≠ rid → NotDone t x → NotDone (onRequestFinished t rid score tokens) x := by
  have hroot := keepsNotDone_ensureRoot t rid
  unfold onRequestFinished
  dsimp only
  split
  · refine ⟨(flagsLE_ensureRoot t rid).trans (flagsLE_setOutput _ _ _),
      fun h => (h.ensureRoot rid).setOutput _ _, fun x hx hn => ?_⟩
    intro n hget
    rw [TraceTree.getNode_setOutput, if_neg hx] at hget
    exact hroot x hn n hget
  · next hp =>
    refine ⟨(flagsLE_ensureRoot t rid).trans (flagsLE_markCompleted _ _ _), fun h => ?_,
      fun x hx hn => ?_⟩
    · refine (h.ensureRoot rid).markCompleted _ fun n hn => ?_
      rw [hn] at hp
      simpa using hp
    · intro n hget
      rw [TraceTree.getNode_markCompleted, if_neg hx] at hget
      exact hroot x hn n hget

/-- The end of a step keeps the invariant. -/
lemma Status.finish {mo : ModelRunnerOutput} {fin : List ReqId} (h : Status cfg e)
    (hf : e.scheduler.finishedReqIds = []) (hfin : Finishes cfg so mo fin e e') :
    Status cfg e' := by
  have hkeep : ∀ x, x ∉ fin → NotDone e.traceTree x → NotDone e'.traceTree x := by
    intro x hx
    refine hfin.tree (fun t => NotDone t x) fun t rid hr score tokens ht => ?_
    exact (onRequestFinished_flags rid score tokens).2.2 x (fun he => hx (he ▸ hr)) ht
  refine ⟨?_, fun x hx => ?_, fun hsync x hx => ?_⟩
  · exact hfin.tree OneFlags (fun t rid _ score tokens ht =>
      (onRequestFinished_flags rid score tokens).2.1 ht) h.flags
  · exact hkeep x (fun hm => (hfin.live_of_fin hf hm).2.2 hx) (h.live x (hfin.live hx))
  · rcases hx with hx | hx
    · obtain ⟨hn, hx⟩ := mem_of_get?_eq_ite (hfin.finalized.traceScores x) hx
      exact hkeep x hn (h.scored hsync x (.inl hx))
    · obtain ⟨hn, hx⟩ := mem_of_get?_eq_ite (hfin.finalized.traceScoreCounts x) hx
      exact hkeep x hn (h.scored hsync x (.inr hx))

/-- The averages depend on the score state. -/
lemma traceAvgScores_congr (ht : e'.traceScores = e.traceScores)
    (hs : e'.traceScoreSums = e.traceScoreSums) (hc : e'.traceScoreCounts = e.traceScoreCounts) :
    e'.traceAvgScores cfg = e.traceAvgScores cfg := by
  unfold traceAvgScores
  rw [ht, hs, hc]

/-- Scheduling does not make a late score pass the prune test. -/
lemma LateSafe.afterSchedule (ops : Caches μ β) (h : LateSafe cfg e) :
    LateSafe cfg (e.afterSchedule ops cfg i).1 := by
  intro hasync hstop reply hreply s hs
  obtain ⟨h1, h2, h3⟩ := recordScores_congr cfg e (e.afterSchedule ops cfg i).1 (mergeScores reply)
    rfl rfl rfl
  rw [traceAvgScores_congr h1 h2 h3] at hs
  exact h hasync hstop reply hreply s hs

/-- A step keeps the invariant when no late score passes the prune test. -/
lemma Status.step (ops : Caches μ β) (h : Status cfg e) (hb : Base cfg added e)
    (hlate : e.scheduler.hasRequests = true → LateSafe cfg e) : Status cfg (e.step ops cfg i) := by
  cases hreq : e.scheduler.hasRequests with
  | true =>
    have hsched : Scheduler.ScheduleSpec ops cfg e.scheduler
        (e.scheduler.schedule ops cfg i.grammarReady).1
        (e.scheduler.schedule ops cfg i.grammarReady).2 := hb.wf.schedule i.grammarReady
    have hstart : StatusMid cfg (e.afterSchedule ops cfg i).2 (e.afterSchedule ops cfg i).1 :=
      ⟨h.congr rfl (fun x hx => hsched.evolves.mem hx) h.scored,
        fun x hx => h.live x (hsched.scheduled x hx)⟩
    obtain ⟨e1, mo, fin, -, hst, hf1, -, -, -, -, hfin, -⟩ :=
      hb.step_stages ops hreq phaseStages_status ⟨hstart, (hlate hreq).afterSchedule ops⟩
    exact hst.1.finish hf1 hfin
  | false =>
    rw [EngineCore.step, if_neg (by simp [hreq])]
    unfold idleCleanup
    split
    · refine ⟨h.flags.foldl_markPruned fun x hx => ?_, fun x hx => ?_, fun hsync x hx => ?_⟩
      · obtain ⟨s, hs, rfl⟩ := List.mem_map.1 hx
        obtain ⟨hm, hact⟩ := List.mem_filter.1 hs
        have hget : e.traceTree.getNode s.1 = some s.2 := Dict.get?_eq_some.2 hm
        intro n hn
        rw [hget] at hn
        cases hn
        exact (h.flags s.1 s.2 hget).not_completed (.inl hact)
      · exact keepsNotDone_foldl_markPruned _ _ x (h.live x hx)
      · exact keepsNotDone_foldl_markPruned _ _ x (h.scored hsync x hx)
    · exact h.congr rfl (fun _ => id) h.scored

/-- Adding a request keeps the invariant. -/
lemma Status.addRequest {h : List Event} {r : Request} (hs : Status cfg e)
    (hb : Base cfg (h.filterMap Event.added) e) (hok : Event.Ok h (.addRequest r)) :
    Status cfg { e.addRequest cfg r with record := {} } := by
  have hnew : r.requestId ∉ e.traceTree := fun hm => not_issued_of_ok hok (hb.tree _ hm)
  have hlive : ∀ x ∈ (e.scheduler.addRequest cfg.policy r).requests, NotDone e.traceTree x := by
    intro x hx
    rcases Scheduler.mem_addRequest.1 hx with rfl | hx
    · exact fun n hn => absurd (TraceTree.mem_of_getNode hn) hnew
    · exact hs.live x hx
  unfold EngineCore.addRequest
  dsimp only
  split
  · have htree : (if r.requestId ∉ e.traceTree ∧ isSamplingChild r.requestId = true then
        e.traceTree.addRoot r.requestId else e.traceTree) = e.traceTree ∨
        (if r.requestId ∉ e.traceTree ∧ isSamplingChild r.requestId = true then
          e.traceTree.addRoot r.requestId else e.traceTree) =
          e.traceTree.ensureRoot r.requestId := by
      split
      · exact .inr (by rw [TraceTree.ensureRoot, if_neg hnew])
      · exact .inl rfl
    rcases htree with ht | ht <;> rw [ht]
    · exact ⟨hs.flags, hlive, hs.scored⟩
    · have hk := keepsNotDone_ensureRoot e.traceTree r.requestId
      exact ⟨hs.flags.ensureRoot _, fun x hx => hk x (hlive x hx),
        fun hsync x hx => hk x (hs.scored hsync x hx)⟩
  · exact ⟨hs.flags, hlive, hs.scored⟩

/-- Every event keeps the invariant. -/
lemma Status.handle {h : List Event} {ev : Event} (hs : Status cfg e)
    (hb : Base cfg (h.filterMap Event.added) e) (hok : Event.Ok h ev)
    (hlate : ∀ i, ev = .step i → e.scheduler.hasRequests = true → LateSafe cfg e) :
    Status cfg (e.handle ops cfg ev) := by
  cases ev with
  | addRequest r => exact hs.addRequest hb hok
  | abortRequests rids =>
    have hf := hb.wf.finishRequests ops rids .finishedAborted
    exact hs.congr rfl (fun x hx => hf.mem hx) hs.scored
  | postStep drafts =>
    have hr := Scheduler.relabels_updateDraftTokenIds e.scheduler drafts
    exact hs.congr rfl (fun x hx => hr.mem.1 hx) hs.scored
  | step i => exact hs.step ops hb (hlate i rfl)

/-- No event takes a status back. -/
lemma Base.flagsLE_handle {h : List Event} {ev : Event} (hb : Base cfg (h.filterMap Event.added) e)
    (hok : Event.Ok h ev) : FlagsLE e.traceTree (e.handle ops cfg ev).traceTree := by
  cases ev with
  | addRequest r =>
    have hnew : r.requestId ∉ e.traceTree := fun hm => not_issued_of_ok hok (hb.tree _ hm)
    unfold EngineCore.handle EngineCore.addRequest
    dsimp only
    split
    · dsimp only
      split
      · exact flagsLE_addRoot hnew
      · exact .refl _
    · exact .refl _
  | abortRequests rids => exact .refl _
  | postStep drafts => exact .refl _
  | step i =>
    cases hreq : e.scheduler.hasRequests with
    | true =>
      have hrules : PhaseRules cfg i (h.filterMap Event.added) (e.afterSchedule ops cfg i).2
          (fun e' : EngineCore μ => FlagsLE e.traceTree e'.traceTree) := by
        refine ⟨⟨⟨fun _ _ _ h => h, fun e1 e2 avgs hb1 h1 _ _ hm => ?_⟩, ?_, ?_, fun _ _ _ h => h⟩,
          ?_, ?_⟩
        · exact h1.trans (hb1.move_status hm).1
        · intro e1 e2 reply _ h1 _ habs _
          obtain ⟨_, _, _, _, _, rfl, -⟩ := habs
          exact h1
        · intro e1 e2 _ h1 _ hs
          obtain ⟨_, _, _, rfl, -⟩ := hs
          exact h1
        · intro e1 mo _ h1 _
          obtain ⟨tc, sl, heq, -⟩ := detectTriggers_eq cfg e1 mo
          rw [heq]; exact h1
        · intro e1 mo _ h1
          obtain ⟨s, low, force, mo', heq, -⟩ := injectEos_eq e1 mo
          rw [heq]; exact h1
      obtain ⟨e1, mo, fin, -, h1, -, -, -, -, -, hfin, -⟩ := hb.step_rule ops hreq hrules (.refl _)
      exact hfin.tree (fun t => FlagsLE e.traceTree t) (fun t rid _ score tokens ht =>
        ht.trans (onRequestFinished_flags rid score tokens).1) h1
    | false =>
      rw [EngineCore.handle, EngineCore.step, if_neg (by simp [hreq])]
      unfold idleCleanup
      split
      · exact flagsLE_foldl_markPruned _ _
      · exact .refl _

end EngineCore

section Runs
variable {μ β : Type} {ops : Caches μ β} {cfg : VllmConfig} {m : μ} {h : List Event}
variable {o : List StepRecord} {e : EngineCore μ}

/-- No step of the run meets a late score that passes the prune test. -/
def NoLatePrune (cfg : VllmConfig) (e : EngineCore μ) (ev : Event) : Prop :=
  match ev with
  | .step _ => e.scheduler.hasRequests = true → e.LateSafe cfg
  | _ => True

instance (cfg : VllmConfig) (e : EngineCore μ) : (ev : Event) → Decidable (NoLatePrune cfg e ev)
  | .step _ => inferInstanceAs (Decidable (_ → _))
  | .addRequest _ | .abortRequests _ | .postStep _ => inferInstanceAs (Decidable True)

/-- The invariant along runs without late prunes. -/
lemma status_of_runs (run : (engineMachine ops cfg m).Runs h o e)
    (hlate : (engineMachine ops cfg m).Along (NoLatePrune cfg) h) : EngineCore.Status cfg e := by
  induction run with
  | init =>
    refine ⟨fun rid n hn => ?_, fun rid hr => absurd hr Dict.not_mem_empty, fun _ rid hr => ?_⟩
    · exact absurd (TraceTree.mem_of_getNode hn) (EngineCore.not_mem_init cfg m rid)
    · rcases hr with hr | hr <;> exact absurd hr Dict.not_mem_empty
  | step run hok ih =>
    obtain ⟨hl, hlast⟩ := run.along_concat hlate
    refine (ih hl).handle (base_of_runs run) hok fun i hi => ?_
    subst hi
    exact hlast

/-- One status per trace: along every run without late prunes, each node has exactly one of the three
flags, the counts of `get_stats` add up, and a trace that was completed or pruned in an earlier state
of the run is so, and only so, in every later one. -/
theorem one_status (run : (engineMachine ops cfg m).Runs h o e)
    (hlate : (engineMachine ops cfg m).Along (NoLatePrune cfg) h) :
    OneFlags e.traceTree ∧
      e.traceTree.getStats.activeCount + e.traceTree.getStats.completedCount +
        e.traceTree.getStats.prunedCount = e.traceTree.getStats.totalNodes ∧
      ∀ h' o' e', (engineMachine ops cfg m).Runs h' o' e' → h' <+: h →
        ∀ rid n', e'.traceTree.getNode rid = some n' →
          ∃ n, e.traceTree.getNode rid = some n ∧
            (n'.isCompleted = true →
              n.isCompleted = true ∧ n.isPruned = false ∧ n.isActive = false) ∧
            (n'.isPruned = true →
              n.isPruned = true ∧ n.isCompleted = false ∧ n.isActive = false) := by
  have hst := status_of_runs run hlate
  refine ⟨hst.flags, hst.flags.counts, fun h' o' e' run' hpre rid n' hn' => ?_⟩
  have hle : FlagsLE e'.traceTree e.traceTree :=
    run.relate (R := fun s s' : EngineCore μ => FlagsLE s.traceTree s'.traceTree) run' hpre
      (fun s => .refl _) (fun h1 h2 => h1.trans h2)
      (fun run hok => (base_of_runs run).flagsLE_handle hok)
  obtain ⟨n, hn, hf⟩ := hle rid n' hn'
  have hone := (hst.flags rid n hn).exclusive
  exact ⟨n, hn, fun hc => ⟨hf.completed hc, hone.1 (hf.completed hc)⟩,
    fun hp => ⟨hf.pruned hp, hone.2 (hf.pruned hp)⟩⟩

end Runs

/-- A tournament without warm-up, with the asynchronous scorer. -/
def asyncSample : VllmConfig where
  gambit :=
    { enable := true
      enableBranching := true
      doubleNewLineTokenId := some [7]
      tournamentWarmupTokens := 0
      tournamentCapacity := 2 }
  scheduler := {}
  asyncScorer := true

/-- The first of two roots reaches a boundary and finishes in the step that submits it to the scorer;
its score arrives one step later. -/
def lateScoreEvents (score : ℚ) : List Event :=
  [.addRequest { requestId := "0_1".toList, promptTokenIds := [1, 2, 3], eosTokenId := some 9 },
    .addRequest { requestId := "1_1".toList, promptTokenIds := [1, 2, 3], eosTokenId := some 9 },
    .step (.ofSamples (fun rid => if rid = "0_1".toList then [7] else [5]) fun _ => score),
    .step (.ofSamples (fun rid => if rid = "0_1".toList then [9] else [5]) fun _ => score),
    .step (.ofSamples (fun _ => [5]) fun _ => score)]

/-- A late score above the floor leaves the completed trace completed. -/
theorem one_status_late_score :
    OneFlags ((engineMachine .unbounded asyncSample ()).exec (lateScoreEvents 1)).2.traceTree ∧
      ∃ n, ((engineMachine .unbounded asyncSample ()).exec (lateScoreEvents 1)).2.traceTree.getNode
        "0_1".toList = some n ∧ n.isCompleted = true ∧ n.isPruned = false := by
  have hlate : (engineMachine .unbounded asyncSample ()).Along (NoLatePrune asyncSample)
      (lateScoreEvents 1) := by decide +kernel
  have hone := (one_status (Machine.Runs.of_exec (by decide +kernel)) hlate).1
  refine ⟨hone, ?_⟩
  have hdone : (((engineMachine .unbounded asyncSample ()).exec
      (lateScoreEvents 1)).2.traceTree.getNode "0_1".toList).any (·.isCompleted) = true := by
    decide +kernel
  cases hn : ((engineMachine .unbounded asyncSample ()).exec (lateScoreEvents 1)).2.traceTree.getNode
      "0_1".toList with
  | none => rw [hn] at hdone; cases hdone
  | some n =>
    rw [hn] at hdone
    exact ⟨n, rfl, hdone, ((hone _ n hn).exclusive.1 hdone).1⟩

/-- A late score below the floor makes the completed trace pruned as well. -/
theorem completed_and_pruned :
    (engineMachine .unbounded asyncSample ()).Runs (lateScoreEvents 0)
        ((engineMachine .unbounded asyncSample ()).exec (lateScoreEvents 0)).1
        ((engineMachine .unbounded asyncSample ()).exec (lateScoreEvents 0)).2 ∧
      (((engineMachine .unbounded asyncSample ()).exec (lateScoreEvents 0)).2.traceTree.getNode
        "0_1".toList).any (fun n => n.isCompleted && n.isPruned) = true ∧
      ¬ OneFlags ((engineMachine .unbounded asyncSample ()).exec (lateScoreEvents 0)).2.traceTree := by
  have hboth : (((engineMachine .unbounded asyncSample ()).exec
      (lateScoreEvents 0)).2.traceTree.getNode "0_1".toList).any
        (fun n => n.isCompleted && n.isPruned) = true := by decide +kernel
  refine ⟨Machine.Runs.of_exec (by decide +kernel), hboth, fun hone => ?_⟩
  cases hn : ((engineMachine .unbounded asyncSample ()).exec (lateScoreEvents 0)).2.traceTree.getNode
      "0_1".toList with
  | none => rw [hn] at hboth; cases hboth
  | some n =>
    rw [hn] at hboth
    simp only [Option.any_some, Bool.and_eq_true] at hboth
    have := ((hone _ n hn).exclusive.1 hboth.1).1
    rw [hboth.2] at this
    cases this

end Gambit.Engine
