import Gambit.Engine.AsyncScorer
import Gambit.Engine.Coverage
import Gambit.Engine.ScoreModes
import Gambit.Engine.Forest

/-!
# The books on a finished trace

A request that finishes in `update_from_output` is finalised in the same step: its scores, counters, pending stops and
captured tokens are deleted and its node is closed. `Closed` says that this is so, and it survives every event
(`finished_leave_books`). Two things can be left behind. The mark of a boundary that the trace reached in its last step
stays pending, as `pending_hs_classification` is only cleared of the requests that finished before. The reply of the
asynchronous scorer for a trace that finished in the step of its submission comes in one step later and opens the score
books again. `finished_stays_marked_iff` and `finished_scored_iff` say when exactly.
-/

namespace Gambit.Engine
open Gambit.Lib Gambit.Sched Gambit.Trace

/-- What `_finalize_scores` deletes: the scores, counters, pending stops and captured tokens of every trace. -/
structure Books where
  traceScores : Dict ReqId (List ℚ)
  traceScoreSums : Dict ReqId ℚ
  traceScoreCounts : Dict ReqId Nat
  traceTokenCounts : Dict ReqId Nat
  strideLastTrigger : Dict ReqId Nat
  pendingLowScoreStops : List ReqId
  pendingForceStops : List ReqId
  gambitOutputTokenIds : Dict ReqId (List Token)

/-- Nothing is kept on a trace. -/
structure Books.Off (b : Books) (rid : ReqId) : Prop where
  traceScores : rid ∉ b.traceScores
  traceScoreSums : rid ∉ b.traceScoreSums
  traceScoreCounts : rid ∉ b.traceScoreCounts
  traceTokenCounts : rid ∉ b.traceTokenCounts
  strideLastTrigger : rid ∉ b.strideLastTrigger
  pendingLowScoreStops : rid ∉ b.pendingLowScoreStops
  pendingForceStops : rid ∉ b.pendingForceStops
  gambitOutputTokenIds : rid ∉ b.gambitOutputTokenIds

namespace EngineCore
variable {μ β : Type} {ops : Caches μ β} {cfg : VllmConfig} {i : StepInput} {e e' : EngineCore μ}
variable {added : List ReqId} {so : SchedulerOutput β} {avgs : Dict ReqId ℚ} {rid : ReqId}

/-- Nodes that come from nodes with the same flags, or are not active, or not pruned. -/
lemma PrunedInactive.of_back {t t' : TraceTree} (h : PrunedInactive t)
    (hb : ∀ x n', t'.getNode x = some n' → n'.isPruned = true → n'.isActive = false ∨
      ∃ n, t.getNode x = some n ∧ n.isPruned = n'.isPruned ∧ n.isActive = n'.isActive) :
    PrunedInactive t' := by
  intro x n' hn' hp
  rcases hb x n' hn' hp with ha | ⟨n, hn, h1, h2⟩
  · exact ha
  · rw [← h2]
    exact h x n hn (h1.trans hp)

/-- In every tree of a run pruned traces are not active. -/
lemma treeRules_prunedInactive (cfg : VllmConfig) : TreeRules cfg PrunedInactive := by
  refine ⟨fun t h => h, ?_, ?_, ?_, ?_, ?_, ?_⟩
  · intro t rid h
    apply h.of_back
    intro x n' hn' hp
    rw [TraceTree.getNode_ensureRoot] at hn'
    split at hn'
    · cases hn'
      cases hp
    · exact .inr ⟨n', hn', rfl, rfl⟩
  · intro t rid q h
    apply h.of_back
    intro x n' hn' _
    rw [TraceTree.getNode_recordScore] at hn'
    split at hn'
    · obtain ⟨n, hn, rfl⟩ := Option.map_eq_some_iff.1 hn'
      exact .inr ⟨n, hn, rfl, rfl⟩
    · exact .inr ⟨n', hn', rfl, rfl⟩
  · intro t rid h
    apply h.of_back
    intro x n' hn' _
    rw [TraceTree.getNode_markPruned] at hn'
    split at hn'
    · obtain ⟨n, hn, rfl⟩ := Option.map_eq_some_iff.1 hn'
      exact .inl rfl
    · exact .inr ⟨n', hn', rfl, rfl⟩
  · intro t t' parent child len _ hc hb h
    obtain ⟨p, hp, hget⟩ := TraceTree.getNode_addBranch hb hc
    apply h.of_back
    intro x n' hn' hpr
    rw [hget] at hn'
    split at hn'
    · cases hn'
      cases hpr
    · split at hn'
      · next he =>
        cases hn'
        exact .inr ⟨p, he ▸ hp, rfl, rfl⟩
      · exact .inr ⟨n', hn', rfl, rfl⟩
  · intro t t' parent child len _ hc hb h
    obtain ⟨p, hp, hget⟩ := TraceTree.getNode_removeTrace_addBranch hb hc
    apply h.of_back
    intro x n' hn' _
    rw [hget] at hn'
    split at hn'
    · next he =>
      cases hn'
      exact .inr ⟨p, he ▸ hp, rfl, rfl⟩
    · exact .inr ⟨n', hn', rfl, rfl⟩
  · exact fun t rid score tokens h => (onRequestFinished_inactive h rid score tokens).1

/-- The books of an engine. -/
def books (e : EngineCore μ) : Books where
  traceScores := e.traceScores
  traceScoreSums := e.traceScoreSums
  traceScoreCounts := e.traceScoreCounts
  traceTokenCounts := e.traceTokenCounts
  strideLastTrigger := e.strideLastTrigger
  pendingLowScoreStops := e.pendingLowScoreStops
  pendingForceStops := e.pendingForceStops
  gambitOutputTokenIds := e.gambitOutputTokenIds

/-- A trace that left: it has a node that is not active, and the scheduler does not know it. -/
structure Departed (e : EngineCore μ) (rid : ReqId) : Prop where
  live : rid ∉ e.scheduler.requests
  node : ∃ n, e.traceTree.getNode rid = some n ∧ n.isActive = false

/-- The books on a trace are closed for good: no reply in flight speaks of it. -/
structure Closed (e : EngineCore μ) (rid : ReqId) : Prop extends Books.Off e.books rid, Departed e rid where
  inFlight : ∀ reply, e.asyncScorerFuture = some reply → ¬ Answers reply rid

lemma Departed.known (h : Departed e rid) (hb : Base cfg added e) : e.Known added rid := by
  obtain ⟨n, hn, -⟩ := h.node
  exact hb.tree rid (TraceTree.mem_of_getNode hn)

/-- No request comes back, and no flag is taken back. -/
lemma Departed.congr (h : Departed e rid) (hl : rid ∈ e'.scheduler.requests → rid ∈ e.scheduler.requests)
    (ht : FlagsLE e.traceTree e'.traceTree) : Departed e' rid := by
  obtain ⟨n, hn, hin⟩ := h.node
  obtain ⟨n', hn', hle⟩ := ht rid n hn
  exact ⟨fun hm => h.live (hl hm), n', hn', hle.inactive hin⟩

/-- A move makes no known request live. -/
lemma Move.live (hm : Move cfg i avgs e e') (hb : Base cfg added e) (hk : e.Known added rid)
    (hr : rid ∈ e'.scheduler.requests) : rid ∈ e.scheduler.requests := by
  cases hm with
  | count | register | pruneTested | pruneRanked | forceStop | round => exact hr
  | flush =>
    unfold flushHistories at hr
    split at hr
    · exact hr
    · exact hr
  | branch parent =>
    rcases createBranch_cases cfg i e parent with heq | ⟨t, -, -, heq⟩ | ⟨r, t, c, -, -, -, hcr, heq⟩
    · rw [heq] at hr
      exact hr
    · rw [heq] at hr
      exact hr
    · obtain ⟨hid, -⟩ := createChildRequest_eq hcr
      obtain ⟨ts, ss, cs, hadopt, -⟩ := adoptChild_eq cfg e t parent c r.allTokenIds
      rw [heq, hadopt] at hr
      apply (Scheduler.mem_addRequest.1 hr).resolve_left
      intro he
      exact hb.not_known parent (hid ▸ he ▸ hk)

lemma Departed.move (h : Departed e rid) (hb : Base cfg added e) (hm : Move cfg i avgs e e') : Departed e' rid :=
  h.congr (hm.live hb (h.known hb)) (hb.move_status hm).1

variable (i so) in
/-- The phases of a step bring no trace back. -/
lemma phaseRules_departed (rid : ReqId) : PhaseRules (μ := μ) cfg i added so (fun e => e.Departed rid) where
  absorb e e' reply _ h _ habs _ := by
    obtain ⟨_, _, _, _, _, rfl, -⟩ := habs
    exact h.congr id (.refl _)
  submit e e' _ h _ hs := by
    obtain ⟨_, _, _, rfl, -⟩ := hs
    exact h.congr id (.refl _)
  label e scores _ h := h.congr (Scheduler.relabels_updateTraceScores e.scheduler scores).mem.1 (.refl _)
  move e e' avgs hb h _ _ hm := h.move hb hm
  drop e ids _ h := h.congr id (.refl _)
  trigger e mo _ h _ := by
    obtain ⟨tc, sl, heq, -⟩ := detectTriggers_eq cfg e mo
    rw [heq]
    exact h.congr id (.refl _)
  inject e mo _ h := by
    obtain ⟨s, low, force, mo', heq, hs, -⟩ := injectEos_eq e mo
    rw [heq]
    exact h.congr hs.mem.1 (.refl _)

/-- Neither does the end of the step. -/
lemma Departed.finish {mo : ModelRunnerOutput} {fin : List ReqId} (h : Departed e rid)
    (hfin : Finishes cfg so mo fin e e') : Departed e' rid :=
  h.congr hfin.live (hfin.tree (fun t => FlagsLE e.traceTree t)
    (fun _ x _ score tokens ht => ht.trans (onRequestFinished_flags x score tokens).1) (.refl _))

/-- A trace that left is not scheduled. -/
lemma Departed.not_scheduled (ops : Caches μ β) (hb : Base cfg added e) (h : Departed e rid) :
    rid ∉ (e.afterSchedule ops cfg i).2.numScheduledTokens ∧ Departed (e.afterSchedule ops cfg i).1 rid := by
  have hsched : Scheduler.ScheduleSpec ops cfg e.scheduler (e.scheduler.schedule ops cfg i.grammarReady).1
      (e.scheduler.schedule ops cfg i.grammarReady).2 := hb.wf.schedule i.grammarReady
  exact ⟨fun hx => h.live (hsched.scheduled rid hx), h.congr hsched.evolves.mem (.refl _)⟩

/-- No event brings a trace back. -/
lemma Departed.handle {h : List Event} {ev : Event} (hb : Base cfg (h.filterMap Event.added) e)
    (hok : Event.Ok h ev) (hd : Departed e rid) : Departed (e.handle ops cfg ev) rid := by
  have hflags : FlagsLE e.traceTree (e.handle ops cfg ev).traceTree := hb.flagsLE_handle hok
  cases ev with
  | addRequest r =>
    apply hd.congr _ hflags
    intro hx
    have hm : rid ∈ (e.scheduler.addRequest cfg.policy r).requests := by
      unfold EngineCore.handle EngineCore.addRequest at hx
      dsimp only at hx
      split at hx
      · exact hx
      · exact hx
    apply (Scheduler.mem_addRequest.1 hm).resolve_left
    intro he
    exact not_issued_of_ok hok (he ▸ hd.known hb)
  | abortRequests rids => exact hd.congr (hb.wf.finishRequests ops rids .finishedAborted).mem hflags
  | postStep drafts => exact hd.congr (Scheduler.relabels_updateDraftTokenIds e.scheduler drafts).mem.1 hflags
  | step i =>
    cases hreq : e.scheduler.hasRequests with
    | true =>
      obtain ⟨e1, mo, fin, -, hd1, -, -, -, -, -, hfin, -⟩ :=
        hb.step_rule ops hreq (phaseRules_departed i _ rid) (hd.not_scheduled ops hb).2
      exact hd1.finish hfin
    | false =>
      apply hd.congr _ hflags
      rw [EngineCore.handle, EngineCore.step, if_neg (by simp [hreq])]
      unfold idleCleanup
      split
      · exact id
      · exact id

/-- A move opens no books on a trace that left and has no scores. -/
lemma off_move (h : e.books.Off rid) (hd : Departed e rid) (hb : Base cfg added e) (ha : AvgsOf cfg e avgs)
    (hm : Move cfg i avgs e e') : e'.books.Off rid := by
  have hk := hd.known hb
  obtain ⟨h1, h2, h3, h4⟩ := hb.move_scores hm hk
  have hunscored : rid ∉ avgs := by
    intro hx
    obtain ⟨q, hq⟩ := Dict.mem_iff_get?.1 hx
    rcases mem_traceAvgScores (Dict.mem_of_get? (ha rid q hq)) with hs | hs
    · exact h.traceScores hs
    · exact h.traceScoreCounts hs
  have hscores : rid ∉ e'.traceScores ∧ rid ∉ e'.traceScoreSums ∧ rid ∉ e'.traceScoreCounts ∧
      rid ∉ e'.traceTokenCounts := by
    rw [← Dict.get?_eq_none, ← Dict.get?_eq_none, ← Dict.get?_eq_none, ← Dict.get?_eq_none, h1, h2, h3, h4,
      Dict.get?_eq_none, Dict.get?_eq_none, Dict.get?_eq_none, Dict.get?_eq_none]
    exact ⟨h.traceScores, h.traceScoreSums, h.traceScoreCounts, h.traceTokenCounts⟩
  have hrest : rid ∉ e'.strideLastTrigger ∧ rid ∉ e'.pendingLowScoreStops ∧ rid ∉ e'.pendingForceStops ∧
      rid ∉ e'.gambitOutputTokenIds := by
    cases hm with
    | count | register | round =>
      exact ⟨h.strideLastTrigger, h.pendingLowScoreStops, h.pendingForceStops, h.gambitOutputTokenIds⟩
    | flush =>
      unfold flushHistories
      split
      · exact ⟨h.strideLastTrigger, h.pendingLowScoreStops, h.pendingForceStops, h.gambitOutputTokenIds⟩
      · exact ⟨h.strideLastTrigger, h.pendingLowScoreStops, h.pendingForceStops, h.gambitOutputTokenIds⟩
    | pruneTested hget =>
      -- only scored traces are pruned
      refine ⟨h.strideLastTrigger, fun hx => ?_, h.pendingForceStops, h.gambitOutputTokenIds⟩
      rcases List.mem_insert_iff.1 hx with rfl | hx
      · exact hunscored (Dict.mem_of_get? hget)
      · exact h.pendingLowScoreStops hx
    | pruneRanked hmem =>
      refine ⟨h.strideLastTrigger, fun hx => ?_, h.pendingForceStops, h.gambitOutputTokenIds⟩
      rcases List.mem_insert_iff.1 hx with rfl | hx
      · exact hunscored hmem
      · exact h.pendingLowScoreStops hx
    | forceStop hget hact =>
      -- only active traces are stopped
      refine ⟨h.strideLastTrigger, h.pendingLowScoreStops, fun hx => ?_, h.gambitOutputTokenIds⟩
      rcases List.mem_insert_iff.1 hx with rfl | hx
      · obtain ⟨n, hn, hin⟩ := hd.node
        rw [hget] at hn
        cases hn
        rw [hin] at hact
        cases hact
      · exact h.pendingForceStops hx
    | branch parent =>
      rcases createBranch_cases cfg i e parent with heq | ⟨t, -, -, heq⟩ | ⟨r, t, c, -, -, -, hcr, heq⟩
      · rw [heq]
        exact ⟨h.strideLastTrigger, h.pendingLowScoreStops, h.pendingForceStops, h.gambitOutputTokenIds⟩
      · rw [heq]
        exact ⟨h.strideLastTrigger, h.pendingLowScoreStops, h.pendingForceStops, h.gambitOutputTokenIds⟩
      · obtain ⟨hid, -⟩ := createChildRequest_eq hcr
        obtain ⟨ts, ss, cs, hadopt, -⟩ := adoptChild_eq cfg e t parent c r.allTokenIds
        have hne : rid ≠ c.requestId := by
          intro he
          exact hb.not_known parent (hid ▸ he ▸ hk)
        rw [heq, hadopt]
        refine ⟨fun hx => ?_, h.pendingLowScoreStops, h.pendingForceStops, fun hx => ?_⟩
        · exact h.strideLastTrigger ((Dict.mem_set.1 hx).resolve_left hne)
        · exact h.gambitOutputTokenIds ((Dict.mem_set.1 hx).resolve_left hne)
  exact ⟨hscores.1, hscores.2.1, hscores.2.2.1, hscores.2.2.2, hrest.1, hrest.2.1, hrest.2.2.1, hrest.2.2.2⟩

/-- The phases of a step that does not run a trace open no books on it. -/
lemma phaseRules_closed (rid : ReqId) :
    PhaseRules (μ := μ) cfg i added so (fun e => e.Closed rid ∧ rid ∉ so.numScheduledTokens) where
  absorb e e' reply hb h hr habs hnone := by
    obtain ⟨hc, hso⟩ := h
    have hans : ¬ Answers reply rid := by
      rcases hr with ⟨-, hf⟩ | ⟨-, hdue⟩
      · exact hc.inFlight reply hf
      · exact fun ha => hso (hdue rid ha).2
    have hno : rid ∉ mergeScores reply := fun hm => hans (mem_mergeScores.1 hm)
    have hd := (phaseRules_departed i so rid).absorb e e' reply hb hc.toDeparted hr habs hnone
    refine ⟨⟨?_, hd, fun reply' hf => ?_⟩, hso⟩
    · obtain ⟨_, _, _, _, _, rfl, -⟩ := habs
      exact { hc.toOff with
        traceScores := fun hx => (mem_recordScores.1 hx).elim hc.traceScores hno
        traceScoreSums := fun hx => (mem_recordScores.2.1 hx).elim hc.traceScoreSums hno
        traceScoreCounts := fun hx => (mem_recordScores.2.2 hx).elim hc.traceScoreCounts hno }
    · rw [hnone] at hf
      cases hf
  submit e e' hb h ha hs := by
    obtain ⟨hc, hso⟩ := h
    have hd := (phaseRules_departed i so rid).submit e e' hb hc.toDeparted ha hs
    obtain ⟨reply, collect, ids, rfl, hsub, hdue⟩ := hs
    refine ⟨⟨hc.toOff, hd, fun reply' hf => ?_⟩, hso⟩
    cases hf
    exact fun ha => hso (hdue rid (hsub rid ha)).2
  label e scores hb h := by
    obtain ⟨hc, hso⟩ := h
    have hd := (phaseRules_departed i so rid).label e scores hb hc.toDeparted
    exact ⟨⟨hc.toOff, hd, hc.inFlight⟩, hso⟩
  move e e' avgs hb h _ ha hm := by
    obtain ⟨hc, hso⟩ := h
    refine ⟨⟨off_move hc.toOff hc.toDeparted hb ha hm, hc.toDeparted.move hb hm, ?_⟩, hso⟩
    have hf : e'.asyncScorerFuture = e.asyncScorerFuture := congrArg Desk.future hm.desk
    rw [hf]
    exact hc.inFlight
  drop e ids hb h := by
    obtain ⟨hc, hso⟩ := h
    have hd := (phaseRules_departed i so rid).drop e ids hb hc.toDeparted
    exact ⟨⟨hc.toOff, hd, hc.inFlight⟩, hso⟩
  trigger e mo hb h hmo := by
    obtain ⟨hc, hso⟩ := h
    have hd := (phaseRules_departed i so rid).trigger e mo hb hc.toDeparted hmo
    obtain ⟨tc, sl, heq, hout⟩ := detectTriggers_eq cfg e mo
    obtain ⟨h1, h2⟩ := hout rid fun hm => hso (hmo rid hm)
    have htc : rid ∉ tc := by
      rw [← Dict.get?_eq_none, h1, Dict.get?_eq_none]
      exact hc.traceTokenCounts
    have hsl : rid ∉ sl := by
      rw [← Dict.get?_eq_none, h2, Dict.get?_eq_none]
      exact hc.strideLastTrigger
    rw [heq] at hd ⊢
    exact ⟨⟨{ hc.toOff with traceTokenCounts := htc, strideLastTrigger := hsl }, hd, hc.inFlight⟩, hso⟩
  inject e mo hb h := by
    obtain ⟨hc, hso⟩ := h
    have hd := (phaseRules_departed i so rid).inject e mo hb hc.toDeparted
    obtain ⟨s, low, force, mo', heq, hs, -, hlow, hforce, -⟩ := injectEos_eq e mo
    rw [heq] at hd ⊢
    refine ⟨⟨?_, hd, hc.inFlight⟩, hso⟩
    exact { hc.toOff with
      pendingLowScoreStops := fun hx => hc.pendingLowScoreStops ((hlow rid).1 hx).1
      pendingForceStops := fun hx => hc.pendingForceStops ((hforce rid).1 hx).1 }

/-- Finalising deletes entries and adds none but for captured tokens. -/
lemma Finalized.off {l : List ReqId} (h : Finalized cfg l e e') (hb : e.books.Off rid) : e'.books.Off rid where
  traceScores hx := hb.traceScores (mem_of_get?_eq_ite (h.traceScores rid) hx).2
  traceScoreSums hx := hb.traceScoreSums (mem_of_get?_eq_ite (h.traceScoreSums rid) hx).2
  traceScoreCounts hx := hb.traceScoreCounts (mem_of_get?_eq_ite (h.traceScoreCounts rid) hx).2
  traceTokenCounts hx := hb.traceTokenCounts (mem_of_get?_eq_ite (h.traceTokenCounts rid) hx).2
  strideLastTrigger hx := hb.strideLastTrigger (mem_of_get?_eq_ite (h.strideLastTrigger rid) hx).2
  pendingLowScoreStops hx := by
    have hx : rid ∈ e'.pendingLowScoreStops := hx
    rw [h.pendingLowScoreStops] at hx
    exact hb.pendingLowScoreStops (mem_of_mem_foldl_erase hx)
  pendingForceStops hx := by
    have hx : rid ∈ e'.pendingForceStops := hx
    rw [h.pendingForceStops] at hx
    exact hb.pendingForceStops (mem_of_mem_foldl_erase hx)
  gambitOutputTokenIds hx := hb.gambitOutputTokenIds (mem_of_get?_eq_ite (h.gambitOutputTokenIds rid) hx).2

/-- A capture of other requests. -/
lemma not_mem_captured {mo : ModelRunnerOutput} (h : rid ∉ e.gambitOutputTokenIds) (hmo : rid ∉ mo) :
    rid ∉ captured cfg e mo := by
  unfold captured
  split
  · exact fun hx => (mem_captureTokens hx).elim h hmo
  · exact h

/-- The end of a step that does not run a trace opens no books on it. -/
lemma Closed.finish {mo : ModelRunnerOutput} {fin : List ReqId} (h : Closed e rid) (hmo : rid ∉ mo)
    (hfin : Finishes cfg so mo fin e e') : Closed e' rid := by
  have hz := hfin.finalized
  refine ⟨hz.off { h.toOff with gambitOutputTokenIds := not_mem_captured h.gambitOutputTokenIds hmo },
    h.toDeparted.finish hfin, ?_⟩
  rw [hz.asyncScorerFuture]
  exact h.inFlight

/-- Every event keeps the books on a trace closed. -/
lemma Closed.handle {h : List Event} {ev : Event} (hb : Base cfg (h.filterMap Event.added) e) (hok : Event.Ok h ev)
    (hc : Closed e rid) : Closed (e.handle ops cfg ev) rid := by
  have hd : Departed (e.handle ops cfg ev) rid := hc.toDeparted.handle hb hok
  cases ev with
  | addRequest r =>
    have hne : rid ≠ r.requestId := by
      intro he
      exact not_issued_of_ok hok (he ▸ hc.toDeparted.known hb)
    have hout : rid ∉ (e.handle ops cfg (.addRequest r)).gambitOutputTokenIds := by
      intro hx
      unfold EngineCore.handle EngineCore.addRequest at hx
      dsimp only at hx
      split at hx
      · dsimp only at hx
        split at hx
        · exact hc.gambitOutputTokenIds hx
        · exact hc.gambitOutputTokenIds ((Dict.mem_set.1 hx).resolve_left hne)
      · exact hc.gambitOutputTokenIds hx
    have hrest : (e.handle ops cfg (.addRequest r)).books =
        { e.books with gambitOutputTokenIds := (e.handle ops cfg (.addRequest r)).gambitOutputTokenIds } ∧
        (e.handle ops cfg (.addRequest r)).asyncScorerFuture = e.asyncScorerFuture := by
      unfold EngineCore.handle EngineCore.addRequest
      dsimp only
      split
      · exact ⟨rfl, rfl⟩
      · exact ⟨rfl, rfl⟩
    refine ⟨?_, hd, fun reply hf => hc.inFlight reply (hrest.2 ▸ hf)⟩
    rw [hrest.1]
    exact { hc.toOff with gambitOutputTokenIds := hout }
  | abortRequests rids => exact ⟨hc.toOff, hd, hc.inFlight⟩
  | postStep drafts => exact ⟨hc.toOff, hd, hc.inFlight⟩
  | step i =>
    cases hreq : e.scheduler.hasRequests with
    | true =>
      obtain ⟨hso, hstart⟩ := hc.toDeparted.not_scheduled ops hb (i := i)
      obtain ⟨e1, mo, fin, -, hc1, -, -, hmo, -, -, hfin, -⟩ :=
        hb.step_rule ops hreq (phaseRules_closed (i := i) rid) ⟨⟨hc.toOff, hstart, hc.inFlight⟩, hso⟩
      exact hc1.1.finish (fun hx => hso ((hmo rid).1 hx)) hfin
    | false =>
      rw [EngineCore.handle, EngineCore.step, if_neg (by simp [hreq])] at hd ⊢
      unfold idleCleanup at hd ⊢
      split at hd
      · next hg =>
        rw [if_pos hg]
        refine ⟨?_, hd, hc.inFlight⟩
        exact { hc.toOff with
          pendingLowScoreStops := fun hx => hc.pendingLowScoreStops (mem_removeIds.1 hx).1
          pendingForceStops := fun hx => hc.pendingForceStops (mem_removeIds.1 hx).1 }
      · next hg =>
        rw [if_neg hg]
        exact ⟨hc.toOff, hd, hc.inFlight⟩

/-- What is in flight after a step answers what the step handed over. -/
lemma hand_of_future {d : Desk} (hf : cfg.asyncScorer = false → d.future = none)
    {reply : List (Dict ReqId Payload)} (hr : (d.run cfg i).future = some reply) :
    cfg.asyncScorer = true ∧ reply = d.handReply cfg i := by
  unfold Desk.run at hr
  cases h : cfg.asyncScorer with
  | true =>
    refine ⟨rfl, ?_⟩
    rw [h, if_pos rfl] at hr
    unfold Desk.submit at hr
    split at hr
    · cases hr
    · cases hr
      rfl
  | false =>
    rw [h, if_neg Bool.false_ne_true] at hr
    unfold Desk.score at hr
    split at hr
    · rw [hf h] at hr
      cases hr
    · have hnone : d.future = some reply := hr
      rw [hf h] at hnone
      cases hnone

/-- What is in flight after a step is the reply to what it evaluated. -/
lemma Base.future_step (ops : Caches μ β) (hb : Base cfg added e) (hen : cfg.gambit.enable = true)
    (hreq : e.scheduler.hasRequests = true) {reply : List (Dict ReqId Payload)}
    (hr : (e.step ops cfg i).asyncScorerFuture = some reply) :
    cfg.asyncScorer = true ∧
      reply = i.scorer cfg.gambit.collectHiddenStatesForMining (e.step ops cfg i).record.evaluated := by
  have hd := desk_step (i := i) ops hen hreq
  have hf : cfg.asyncScorer = false → (e.afterSchedule ops cfg i).1.desk.future = none := hb.sync
  have heval : (e.step ops cfg i).record.evaluated = (e.afterSchedule ops cfg i).1.desk.hand i :=
    (congrArg Desk.evaluated hd).trans (Desk.evaluated_run hf rfl)
  have hfut : ((e.afterSchedule ops cfg i).1.desk.run cfg i).future = some reply :=
    (congrArg Desk.future hd).symm.trans hr
  obtain ⟨hasync, hreply⟩ := hand_of_future hf hfut
  rw [heval]
  exact ⟨hasync, hreply⟩

/-- The pending stops of a batch are gone once the EOS tokens are in. -/
lemma stops_gambitPhases (hen : cfg.gambit.enable = true) (hg : gambitEnabled cfg = true) {x : ReqId}
    (hx : x ∈ so.numScheduledTokens) :
    x ∉ (e.gambitPhases cfg i so (modelOutput i so)).1.pendingLowScoreStops ∧
      x ∉ (e.gambitPhases cfg i so (modelOutput i so)).1.pendingForceStops := by
  unfold gambitPhases
  rw [if_pos hen]
  dsimp only
  rw [if_pos hg]
  obtain ⟨s, low, force, mo', heq, -, -, hlow, hforce, -⟩ :=
    injectEos_eq ((e.scoringPhases cfg i so).detectTriggers cfg (modelOutput i so)) (modelOutput i so)
  rw [heq]
  exact ⟨fun h => ((hlow x).1 h).2 (mem_modelOutput.2 hx), fun h => ((hforce x).1 h).2 (mem_modelOutput.2 hx)⟩

/-- A step closes the books on what finishes in it, up to the reply in flight. -/
lemma Base.off_step (ops : Caches μ β) (hb : Base cfg added e) (hen : cfg.gambit.enable = true)
    (hg : gambitEnabled cfg = true) (hp : PrunedInactive e.traceTree)
    (hfin : rid ∈ (e.step ops cfg i).record.finished) :
    e.scheduler.hasRequests = true ∧ rid ∈ (e.afterSchedule ops cfg i).2.numScheduledTokens ∧
      (e.step ops cfg i).books.Off rid ∧ Departed (e.step ops cfg i) rid := by
  cases hreq : e.scheduler.hasRequests with
  | true =>
    obtain ⟨e1, mo, fin, -, hp1, hf1, -, -, hgam, -, hfin1, -⟩ :=
      hb.step_rule ops hreq ((treeRules_prunedInactive cfg).phaseRules (i := i)) hp
    obtain ⟨outs, hrec⟩ := hfin1.record
    rw [hrec] at hfin
    have hx : rid ∈ fin := (hfin1.mem_fin rid).2 hfin
    obtain ⟨hso, -, hgone⟩ := hfin1.live_of_fin hf1 hx
    have he1 : e1 = ((e.afterSchedule ops cfg i).1.gambitPhases cfg i (e.afterSchedule ops cfg i).2
        (modelOutput i (e.afterSchedule ops cfg i).2)).1 := congrArg Prod.fst hgam
    obtain ⟨hlow, hforce⟩ := stops_gambitPhases (e := (e.afterSchedule ops cfg i).1) (i := i) hen hg hso
    rw [← he1] at hlow hforce
    have hz := hfin1.finalized
    refine ⟨rfl, hso, ⟨?_, ?_, ?_, ?_, ?_, fun hm => ?_, fun hm => ?_, ?_⟩, hgone, (hfin1.nodes hg hp1).2.1 rid hx⟩
    · exact fun hm => (mem_of_get?_eq_ite (hz.traceScores rid) hm).1 hx
    · exact fun hm => (mem_of_get?_eq_ite (hz.traceScoreSums rid) hm).1 hx
    · exact fun hm => (mem_of_get?_eq_ite (hz.traceScoreCounts rid) hm).1 hx
    · exact fun hm => (mem_of_get?_eq_ite (hz.traceTokenCounts rid) hm).1 hx
    · exact fun hm => (mem_of_get?_eq_ite (hz.strideLastTrigger rid) hm).1 hx
    · have hm : rid ∈ (e.step ops cfg i).pendingLowScoreStops := hm
      rw [hz.pendingLowScoreStops] at hm
      exact hlow (mem_of_mem_foldl_erase hm)
    · have hm : rid ∈ (e.step ops cfg i).pendingForceStops := hm
      rw [hz.pendingForceStops] at hm
      exact hforce (mem_of_mem_foldl_erase hm)
    · exact fun hm => (mem_of_get?_eq_ite (hz.gambitOutputTokenIds rid) hm).1 ⟨hg, hx⟩
  | false =>
    have hrec : (e.step ops cfg i).record = {} := by
      rw [EngineCore.step, if_neg (by simp [hreq])]
      unfold idleCleanup
      split
      · rfl
      · rfl
    rw [hrec] at hfin
    cases hfin

/-- A step closes the books on what finishes in it and was not submitted in it. -/
lemma Base.closed_step (ops : Caches μ β) (hb : Base cfg added e) (hen : cfg.gambit.enable = true)
    (hg : gambitEnabled cfg = true) (hp : PrunedInactive e.traceTree)
    (hfin : rid ∈ (e.step ops cfg i).record.finished)
    (hlate : ¬ (cfg.asyncScorer = true ∧ rid ∈ (e.step ops cfg i).record.evaluated)) :
    Closed (e.step ops cfg i) rid := by
  obtain ⟨hreq, -, hoff, hd⟩ := hb.off_step ops hen hg hp hfin
  refine ⟨hoff, hd, fun reply hr ha => ?_⟩
  obtain ⟨hasync, heq⟩ := hb.future_step ops hen hreq hr
  obtain ⟨w, hw, hx⟩ := heq ▸ ha
  exact hlate ⟨hasync, i.scorer_subset _ _ w hw rid hx⟩

/-- The averages once the reply in flight is in. -/
def settledAvgs (cfg : VllmConfig) (e : EngineCore μ) : Dict ReqId ℚ :=
  match e.asyncScorerFuture with
  | none => e.traceAvgScores cfg
  | some reply => e.avgsWith cfg reply

/-- The number of scores that the averages of a trace are taken over. -/
def numScores (cfg : VllmConfig) (e : EngineCore μ) (rid : ReqId) : Nat :=
  if cfg.gambit.recordScoreHistory then (e.traceScores.getD rid []).length else e.traceScoreCounts.getD rid 0

/-- A trace has an average if it has a score. -/
lemma mem_traceAvgScores_iff : rid ∈ e.traceAvgScores cfg ↔ e.numScores cfg rid ≠ 0 := by
  unfold traceAvgScores numScores
  split
  · rw [Dict.mem_filterMap, Dict.getD_eq]
    cases e.traceScores.get? rid with
    | none => simp
    | some buf => cases buf <;> simp
  · rw [Dict.mem_filterMap, Dict.getD_eq (d := e.traceScoreCounts)]
    cases e.traceScoreCounts.get? rid with
    | none => simp
    | some c => cases c <;> simp

/-- A reply adds its scores. -/
lemma numScores_recordScores (scores : Dict ReqId (List ℚ)) :
    (e.recordScores cfg scores).numScores cfg rid = e.numScores cfg rid + (scores.getD rid []).length := by
  obtain ⟨h1, -, h3⟩ := get?_recordScores cfg e scores rid
  unfold numScores
  split
  · next hrec =>
    rw [Dict.getD_eq, Dict.getD_eq, Dict.getD_eq, h1]
    cases scores.get? rid with
    | none => rfl
    | some qs => simp [recordedScores, hrec]
  · next hrec =>
    rw [Dict.getD_eq, Dict.getD_eq, Dict.getD_eq, h3]
    cases scores.get? rid with
    | none => rfl
    | some qs => cases qs <;> simp [recordedCount, hrec]

/-- A reply gives an average to whoever had one and whoever it scores. -/
lemma mem_avgsWith_iff {reply : List (Dict ReqId Payload)} :
    rid ∈ e.avgsWith cfg reply ↔ rid ∈ e.traceAvgScores cfg ∨ (mergeScores reply).getD rid [] ≠ [] := by
  rw [avgsWith, mem_traceAvgScores_iff, mem_traceAvgScores_iff, numScores_recordScores]
  rw [ne_eq, Nat.add_eq_zero_iff, not_and_or, List.length_eq_zero_iff]

/-- Who has an average once the reply in flight is in. -/
lemma mem_settledAvgs_iff : rid ∈ e.settledAvgs cfg ↔ rid ∈ e.traceAvgScores cfg ∨ e.desk.inFlight rid ≠ [] := by
  have hfly : e.desk.inFlight rid = match e.asyncScorerFuture with
    | none => []
    | some reply => (mergeScores reply).getD rid [] := rfl
  rw [hfly]
  unfold settledAvgs
  split
  · exact (or_iff_left fun h => h rfl).symm
  · exact mem_avgsWith_iff

/-- The phases of scoring keep what is or will be scored, when it left. -/
lemma stageRules_settledAvgs (rid : ReqId) : StageRules (μ := μ) cfg i added so
    (fun e => e.Departed rid ∧ rid ∈ e.settledAvgs cfg)
    (fun e => e.Departed rid ∧ rid ∈ e.traceAvgScores cfg)
    (fun e => e.Departed rid ∧ rid ∈ e.traceAvgScores cfg) where
  start e hb h hno := by
    refine ⟨h.1, ?_⟩
    have hnone : e.asyncScorerFuture = none := hno.elim hb.sync id
    have hs := h.2
    unfold settledAvgs at hs
    rw [hnone] at hs
    exact hs
  absorbAsync e e' reply hb h hasync hf habs hnone := by
    refine ⟨(phaseRules_departed i so rid).absorb e e' reply hb h.1 (.inl ⟨hasync, hf⟩) habs hnone, ?_⟩
    have hs := h.2
    unfold settledAvgs at hs
    rw [hf] at hs
    obtain ⟨_, _, _, _, _, rfl, -⟩ := habs
    exact hs
  absorbSync e e' reply hb h hsync hans habs hnone := by
    refine ⟨(phaseRules_departed i so rid).absorb e e' reply hb h.1 (.inr ⟨hsync, hans⟩) habs hnone, ?_⟩
    have hs : rid ∈ e.avgsWith cfg reply := mem_avgsWith_iff.2 (.inl h.2)
    obtain ⟨_, _, _, _, _, rfl, -⟩ := habs
    exact hs
  settle _ _ h _ := h
  submit e e' hb h ha hs := by
    refine ⟨(phaseRules_departed i so rid).submit e e' hb h.1 ha hs, ?_⟩
    obtain ⟨_, _, _, rfl, -⟩ := hs
    exact h.2
  drop e ids hb h := ⟨(phaseRules_departed i so rid).drop e ids hb h.1, h.2⟩
  label e scores hb h := ⟨(phaseRules_departed i so rid).label e scores hb h.1, h.2⟩
  move e e' avgs hb h _ _ hm := by
    obtain ⟨h1, h2, h3, -⟩ := hb.move_scores hm (h.1.known hb)
    exact ⟨h.1.move hb hm, (mem_traceAvgScores_congr h1 h2 h3).2 h.2⟩

/-- The scores after the phases of a step are those after its scoring. -/
lemma scores_gambitPhases (hen : cfg.gambit.enable = true) (mo : ModelRunnerOutput) :
    (e.gambitPhases cfg i so mo).1.traceAvgScores cfg = (e.scoringPhases cfg i so).traceAvgScores cfg := by
  unfold gambitPhases
  rw [if_pos hen]
  dsimp only
  generalize e.scoringPhases cfg i so = e
  obtain ⟨tc, sl, heq, -⟩ := detectTriggers_eq cfg e mo
  rw [heq]
  split
  · obtain ⟨s, low, force, mo', hinj, -⟩ := injectEos_eq ({ e with
      traceTokenCounts := tc
      strideLastTrigger := sl
      pendingHsClassification := addAll e.pendingHsClassification (triggers cfg e mo)
      record := { e.record with triggered := triggers cfg e mo } } : EngineCore μ) mo
    rw [hinj]
    rfl
  · rfl

/-- Finalising other traces keeps an average. -/
lemma Finishes.mem_traceAvgScores_iff {mo : ModelRunnerOutput} {fin : List ReqId} (h : Finishes cfg so mo fin e e') (hx : rid ∉ fin) :
    rid ∈ e'.traceAvgScores cfg ↔ rid ∈ e.traceAvgScores cfg := by
  have hz := h.finalized
  apply mem_traceAvgScores_congr
  · rw [hz.traceScores, if_neg hx]
  · rw [hz.traceScoreSums, if_neg hx]
  · rw [hz.traceScoreCounts, if_neg hx]

/-- An event keeps what is or will be scored, when it left. -/
lemma settledAvgs_handle {h : List Event} {ev : Event} (hen : cfg.gambit.enable = true)
    (hb : Base cfg (h.filterMap Event.added) e) (hd : Departed e rid) (hs : rid ∈ e.settledAvgs cfg) :
    rid ∈ (e.handle ops cfg ev).settledAvgs cfg := by
  rw [mem_settledAvgs_iff] at hs ⊢
  cases ev with
  | addRequest r =>
    have hrest : (e.handle ops cfg (.addRequest r)).traceAvgScores cfg = e.traceAvgScores cfg ∧
        (e.handle ops cfg (.addRequest r)).desk.inFlight rid = e.desk.inFlight rid := by
      unfold EngineCore.handle EngineCore.addRequest
      dsimp only
      split
      · exact ⟨rfl, rfl⟩
      · exact ⟨rfl, rfl⟩
    rw [hrest.1, hrest.2]
    exact hs
  | abortRequests rids => exact hs
  | postStep drafts => exact hs
  | step i =>
    cases hreq : e.scheduler.hasRequests with
    | true =>
      obtain ⟨hb₀, hso⟩ := hb.afterSchedule ops i
      obtain ⟨hout, hd₀⟩ := hd.not_scheduled ops hb (i := i)
      have hs₀ : rid ∈ (e.afterSchedule ops cfg i).1.settledAvgs cfg := mem_settledAvgs_iff.2 hs
      obtain ⟨-, hscored, -⟩ := (stageRules_settledAvgs (i := i) rid).scoringPhases ⟨hb₀, ⟨hd₀, hs₀⟩, hso⟩
      obtain ⟨e1, mo, fin, -, -, hf1, -, -, hgam, -, hfin, -⟩ :=
        hb.step_rule ops hreq (phaseRules_true (i := i)) trivial
      have he1 : e1 = ((e.afterSchedule ops cfg i).1.gambitPhases cfg i (e.afterSchedule ops cfg i).2
          (modelOutput i (e.afterSchedule ops cfg i).2)).1 := congrArg Prod.fst hgam
      have hx : rid ∉ fin := fun hm => hout (hfin.live_of_fin hf1 hm).1
      have havg : rid ∈ (e.step ops cfg i).traceAvgScores cfg := by
        rw [hfin.mem_traceAvgScores_iff hx, he1, scores_gambitPhases hen]
        exact hscored.2
      exact .inl havg
    | false =>
      rw [EngineCore.handle, EngineCore.step, if_neg (by simp [hreq])]
      unfold idleCleanup
      split
      · exact hs
      · exact hs

/-- A full reply scores whom it answers. -/
lemma scores_of_answered {reply : List (Dict ReqId Payload)} (hfull : FullReply reply) (ha : Answers reply rid) :
    (mergeScores reply).getD rid [] ≠ [] := by
  obtain ⟨qs, hqs⟩ := Dict.mem_iff_get?.1 (mem_mergeScores.2 ha)
  rw [Dict.getD_eq, hqs]
  exact mergeScores_ne_nil hfull (rid, qs) (Dict.get?_eq_some.1 hqs)

/-- A step that submits a trace to the asynchronous scorer and finishes it leaves a score for it in flight. -/
lemma Base.settledAvgs_step (ops : Caches μ β) (hb : Base cfg added e) (hen : cfg.gambit.enable = true)
    (hreq : e.scheduler.hasRequests = true) (hasync : cfg.asyncScorer = true)
    (hans : ∀ ids, ∀ x ∈ ids, Answers (i.scorer cfg.gambit.collectHiddenStatesForMining ids) x)
    (hfull : ∀ ids, FullReply (i.scorer cfg.gambit.collectHiddenStatesForMining ids))
    (hev : rid ∈ (e.step ops cfg i).record.evaluated) : rid ∈ (e.step ops cfg i).settledAvgs cfg := by
  have hd := desk_step (i := i) ops hen hreq
  have hf : cfg.asyncScorer = false → (e.afterSchedule ops cfg i).1.desk.future = none := hb.sync
  have heval : (e.step ops cfg i).record.evaluated = (e.afterSchedule ops cfg i).1.desk.hand i :=
    (congrArg Desk.evaluated hd).trans (Desk.evaluated_run hf rfl)
  have hfut : (e.step ops cfg i).asyncScorerFuture ≠ none := by
    have hrun : ((e.afterSchedule ops cfg i).1.desk.run cfg i).future = (e.step ops cfg i).asyncScorerFuture :=
      (congrArg Desk.future hd).symm
    rw [← hrun]
    generalize (e.afterSchedule ops cfg i).1.desk = d at heval
    have hdue : d.consume.due i = d.hand i := rfl
    unfold Desk.run
    rw [hasync, if_pos rfl]
    unfold Desk.submit
    rw [hdue, ← heval]
    split
    · next hemp =>
      rw [List.isEmpty_iff.1 hemp] at hev
      cases hev
    · exact Option.some_ne_none _
  obtain ⟨reply, hr⟩ := Option.ne_none_iff_exists'.1 hfut
  obtain ⟨-, heq⟩ := hb.future_step ops hen hreq hr
  have hscores : (mergeScores reply).getD rid [] ≠ [] := by
    rw [heq]
    exact scores_of_answered (hfull _) (hans _ rid hev)
  have hfly : (e.step ops cfg i).desk.inFlight rid = (mergeScores reply).getD rid [] := by
    show (match (e.step ops cfg i).asyncScorerFuture with
      | none => []
      | some reply => (mergeScores reply).getD rid []) = _
    rw [hr]
  rw [mem_settledAvgs_iff, hfly]
  exact .inr hscores

end EngineCore

section Runs
variable {μ β : Type} {ops : Caches μ β} {cfg : VllmConfig} {m : μ} {h : List Event} {os : List StepRecord}
variable {e : EngineCore μ} {rid : ReqId} {rec : StepRecord} {j : Nat}

lemma prunedInactive_of_runs (run : (engineMachine ops cfg m).Runs h os e) :
    EngineCore.PrunedInactive e.traceTree := by
  apply tree_of_runs (EngineCore.treeRules_prunedInactive cfg) _ run
  intro x n hn
  exact absurd (TraceTree.mem_of_getNode hn) (EngineCore.not_mem_init cfg m x)

/-- What a step that finishes a trace gives and every event keeps holds from then on. -/
lemma finished_induct {C : Event → Prop} {P : EngineCore μ → StepRecord → Prop}
    (run : (engineMachine ops cfg m).Runs h os e) (hj : os[j]? = some rec) (hfin : rid ∈ rec.finished)
    (hc : ∀ ev ∈ h, C ev)
    (give : ∀ h os e i, (engineMachine ops cfg m).Runs h os e → C (.step i) →
      rid ∈ (e.step ops cfg i).record.finished → P (e.step ops cfg i) (e.step ops cfg i).record)
    (keep : ∀ h os e ev rec, (engineMachine ops cfg m).Runs h os e → Event.Ok h ev → P e rec →
      P (e.handle ops cfg ev) rec) : P e rec := by
  induction run with
  | init => cases hj
  | @step h os e ev run hok ih =>
    rw [List.getElem?_append] at hj
    split at hj
    · exact keep h os e ev rec run hok (ih hj fun ev' hev' => hc ev' (List.mem_append_left _ hev'))
    · have hrec : rec = (e.handle ops cfg ev).record := List.mem_singleton.1 (List.mem_of_getElem? hj)
      have hlast : C ev := hc ev (List.mem_append_right _ List.mem_cons_self)
      rw [hrec] at hfin ⊢
      cases ev with
      | step i => exact give h os e i run hlast hfin
      | addRequest r => cases hfin
      | abortRequests rids => cases hfin
      | postStep drafts => cases hfin

/-- One worker that answers with one score each. -/
lemma ofSamples_full (sampled : ReqId → List Token) (score : ReqId → ℚ) (collect : Bool) (ids : List ReqId) :
    FullReply ((StepInput.ofSamples sampled score).scorer collect ids) := by
  intro w hw p hp
  rw [List.mem_singleton.1 hw] at hp
  obtain ⟨x, hx, rfl⟩ := List.mem_map.1 hp
  obtain ⟨rid, -, rfl⟩ := List.mem_map.1 hx
  exact List.cons_ne_nil _ _

/-- Finished traces leave the books: from the step on in which a request finishes, it has no scores, counters, pending
stops or captured tokens, no place in the scheduler and no reply in flight, and its node is not active; in the
asynchronous mode if the trace was not submitted to the scorer in that step. -/
theorem finished_leave_books (hen : cfg.gambit.enable = true) (hg : EngineCore.gambitEnabled cfg = true)
    (run : (engineMachine ops cfg m).Runs h os e) (hj : os[j]? = some rec) (hfin : rid ∈ rec.finished)
    (hlate : ¬ (cfg.asyncScorer = true ∧ rid ∈ rec.evaluated)) : e.Closed rid := by
  have hclosed : ¬ (cfg.asyncScorer = true ∧ rid ∈ rec.evaluated) → e.Closed rid :=
    finished_induct (C := fun _ => True)
      (P := fun e rec => ¬ (cfg.asyncScorer = true ∧ rid ∈ rec.evaluated) → e.Closed rid) run hj hfin
      (fun _ _ => trivial)
      (fun h os e i run _ hfin hlate =>
        (base_of_runs run).closed_step ops hen hg (prunedInactive_of_runs run) hfin hlate)
      fun h os e ev rec run hok hc hlate => (hc hlate).handle (base_of_runs run) hok
  exact hclosed hlate

/-- The tournament of two roots, in both modes of the scorer. -/
def bookSample (async : Bool) : VllmConfig := { asyncSample with asyncScorer := async }

/-- A root that is scored and finishes in one step, with the synchronous scorer. -/
theorem finished_leave_books_scored :
    ((engineMachine .unbounded (bookSample false) ()).exec (lateScoreEvents 1)).2.Closed "0_1".toList := by
  have hok : (engineMachine .unbounded (bookSample false) ()).OkFrom [] (lateScoreEvents 1) := by decide +kernel
  have hlen : 3 < ((engineMachine .unbounded (bookSample false) ()).exec (lateScoreEvents 1)).1.length := by
    decide +kernel
  have hfin : ∀ rec ∈ ((engineMachine .unbounded (bookSample false) ()).exec (lateScoreEvents 1)).1[3]?,
      "0_1".toList ∈ rec.finished := by decide +kernel
  have hj := List.getElem?_eq_getElem hlen
  exact finished_leave_books rfl rfl (Machine.Runs.of_exec hok) hj (hfin _ hj) fun h => Bool.false_ne_true h.1

/-- A trace that finished is in no later batch. -/
lemma not_scheduled_of_finished (hen : cfg.gambit.enable = true) (hg : EngineCore.gambitEnabled cfg = true)
    (run : (engineMachine ops cfg m).Runs h os e) (hj : os[j]? = some rec) (hfin : rid ∈ rec.finished) :
    e.Departed rid ∧ rid ∈ rec.scheduled ∧ ∀ l, j < l → ∀ rec', os[l]? = some rec' → rid ∉ rec'.scheduled := by
  induction run with
  | init => cases hj
  | @step h os e ev run hok ih =>
    have hb := base_of_runs run
    rw [List.getElem?_append] at hj
    split at hj
    · next hlt =>
      obtain ⟨hd, hrec, hout⟩ := ih hj
      refine ⟨hd.handle hb hok, hrec, fun l hl rec' hl' => ?_⟩
      rw [List.getElem?_append] at hl'
      split at hl'
      · exact hout l hl rec' hl'
      · have hrec' : rec' = (e.handle ops cfg ev).record := List.mem_singleton.1 (List.mem_of_getElem? hl')
        rw [hrec']
        cases ev with
        | step i =>
          cases hreq : e.scheduler.hasRequests with
          | true =>
            have hs := (hb.record_step (i := i) ops hreq).1
            show rid ∉ (e.step ops cfg i).record.scheduled
            rw [hs]
            exact (hd.not_scheduled ops hb).1
          | false =>
            have hidle : (e.step ops cfg i).record.scheduled = ∅ :=
              congrArg Desk.scheduled (EngineCore.desk_idle hreq)
            show rid ∉ (e.step ops cfg i).record.scheduled
            rw [hidle]
            exact Dict.not_mem_empty
        | addRequest r => exact Dict.not_mem_empty
        | abortRequests rids => exact Dict.not_mem_empty
        | postStep drafts => exact Dict.not_mem_empty
    · next hge =>
      have hrec : rec = (e.handle ops cfg ev).record := List.mem_singleton.1 (List.mem_of_getElem? hj)
      have hlast : j = os.length := by
        have hsome := (List.getElem?_eq_some_iff.1 hj).1
        simp only [List.length_singleton] at hsome
        omega
      rw [hrec] at hfin ⊢
      cases ev with
      | step i =>
        obtain ⟨hreq, hso, -, hd⟩ := hb.off_step ops hen hg (prunedInactive_of_runs run) hfin
        refine ⟨hd, ?_, fun l hl rec' hl' => ?_⟩
        · have hs := (hb.record_step (i := i) ops hreq).1
          show rid ∈ (e.step ops cfg i).record.scheduled
          rw [hs]
          exact hso
        · have hlen := (List.getElem?_eq_some_iff.1 hl').1
          rw [List.length_append, List.length_singleton] at hlen
          omega
      | addRequest r => cases hfin
      | abortRequests rids => cases hfin
      | postStep drafts => cases hfin

/-- The mark that a finished trace leaves behind, exactly: in every run whose scorer answers, a finished trace stays
pending for classification, once the reply in flight is in, if and only if it reached a boundary in the step in which it
finished and was not itself submitted to the asynchronous scorer in that step. -/
theorem finished_stays_marked_iff (hen : cfg.gambit.enable = true) (hg : EngineCore.gambitEnabled cfg = true)
    (run : (engineMachine ops cfg m).Runs h os e)
    (hans : ∀ ev ∈ h, ev.Answering cfg.gambit.collectHiddenStatesForMining) (hj : os[j]? = some rec)
    (hfin : rid ∈ rec.finished) :
    rid ∈ e.desk.settled ↔ rid ∈ rec.triggered ∧ ¬ (cfg.asyncScorer = true ∧ rid ∈ rec.evaluated) := by
  obtain ⟨-, hso, hout⟩ := not_scheduled_of_finished hen hg run hj hfin
  have hh := handing_of_runs hen run hans
  obtain ⟨ev, hev⟩ := roundsOf_get run hj
  have hpresent : ∀ {n : Nat} {rec : StepRecord}, os[n]? = some rec → (rid ∈ rec.sampled.keys ↔ rid ∈ rec.scheduled) :=
    fun hn => (batched_of_runs hen run hn).mem rid
  have hids : (Round.handed cfg.asyncScorer [] (roundsOf h os))[j]? = some rec.evaluated := by
    rw [← hh.evaluated, List.getElem?_map, hj]
    rfl
  rw [hh.settled]
  apply Round.mem_marks_of_left hev ((hpresent hj).2 hso) hids
  intro l hl r hr
  unfold roundsOf at hr
  rw [List.getElem?_zipWith_eq_some] at hr
  obtain ⟨ev', rec', -, hrec', rfl⟩ := hr
  have hno := hout l hl rec' hrec'
  exact ⟨fun hm => hno ((hpresent hrec').1 hm), fun hm => hno (scheduled_of_triggered hen run hrec' hm)⟩

/-- Two roots, the first of which stops at a boundary. -/
def lastBoundaryEvents : List Event :=
  [.addRequest { requestId := "0_1".toList, promptTokenIds := [1, 2, 3], eosTokenId := some 7 },
    .addRequest { requestId := "1_1".toList, promptTokenIds := [1, 2, 3], eosTokenId := some 9 },
    .step (.ofSamples (fun rid => if rid = "0_1".toList then [7] else [5]) fun _ => 1),
    .step (.ofSamples (fun _ => [5]) fun _ => 1)]

/-- A trace whose last token is a boundary stays marked. -/
theorem finished_stays_marked_last_boundary :
    "0_1".toList ∈ ((engineMachine .unbounded (bookSample false) ()).exec lastBoundaryEvents).2.desk.settled := by
  have hok : (engineMachine .unbounded (bookSample false) ()).OkFrom [] lastBoundaryEvents := by decide +kernel
  have hlen : 2 < ((engineMachine .unbounded (bookSample false) ()).exec lastBoundaryEvents).1.length := by
    decide +kernel
  have hrec : ∀ rec ∈ ((engineMachine .unbounded (bookSample false) ()).exec lastBoundaryEvents).1[2]?,
      "0_1".toList ∈ rec.finished ∧ "0_1".toList ∈ rec.triggered := by decide +kernel
  have hans : ∀ ev ∈ lastBoundaryEvents, ev.Answering false := by
    intro ev hev
    simp only [lastBoundaryEvents, List.mem_cons, List.not_mem_nil, or_false] at hev
    rcases hev with rfl | rfl | rfl | rfl
    · trivial
    · trivial
    · exact fun ids => ofSamples_answers _ _ false ids
    · exact fun ids => ofSamples_answers _ _ false ids
  have hj := List.getElem?_eq_getElem hlen
  have hmark := finished_stays_marked_iff rfl rfl (Machine.Runs.of_exec hok) hans hj (hrec _ hj).1
  exact hmark.2 ⟨(hrec _ hj).2, fun h => Bool.false_ne_true h.1⟩

/-- The scores that a finished trace leaves behind, exactly: in every run whose scorer answers with scores, a finished
trace has an average, once the reply in flight is in, if and only if the scorer is asynchronous and the trace was
submitted to it in the step in which it finished. -/
theorem finished_scored_iff (hen : cfg.gambit.enable = true) (hg : EngineCore.gambitEnabled cfg = true)
    (run : (engineMachine ops cfg m).Runs h os e)
    (hans : ∀ ev ∈ h, ev.Answering cfg.gambit.collectHiddenStatesForMining)
    (hfull : ∀ ev ∈ h, ev.FullReplies) (hj : os[j]? = some rec) (hfin : rid ∈ rec.finished) :
    rid ∈ e.settledAvgs cfg ↔ cfg.asyncScorer = true ∧ rid ∈ rec.evaluated := by
  have hstate : e.Departed rid ∧ (cfg.asyncScorer = true ∧ rid ∈ rec.evaluated → rid ∈ e.settledAvgs cfg) ∧
      (¬ (cfg.asyncScorer = true ∧ rid ∈ rec.evaluated) → e.Closed rid) :=
    finished_induct
      (C := fun ev => ev.Answering cfg.gambit.collectHiddenStatesForMining ∧ ev.FullReplies)
      (P := fun e rec => e.Departed rid ∧
        (cfg.asyncScorer = true ∧ rid ∈ rec.evaluated → rid ∈ e.settledAvgs cfg) ∧
        (¬ (cfg.asyncScorer = true ∧ rid ∈ rec.evaluated) → e.Closed rid))
      run hj hfin (fun ev hev => ⟨hans ev hev, hfull ev hev⟩)
      (fun h os e i run hc hfin => by
        have hb := base_of_runs run
        have hp := prunedInactive_of_runs run
        obtain ⟨hreq, -, -, hd⟩ := hb.off_step ops hen hg hp hfin
        exact ⟨hd, fun hlate => hb.settledAvgs_step ops hen hreq hlate.1 hc.1 (hc.2 _) hlate.2,
          fun hlate => hb.closed_step ops hen hg hp hfin hlate⟩)
      (fun h os e ev rec run hok hs =>
        ⟨hs.1.handle (base_of_runs run) hok,
          fun hlate => EngineCore.settledAvgs_handle hen (base_of_runs run) hs.1 (hs.2.1 hlate),
          fun hlate => (hs.2.2 hlate).handle (base_of_runs run) hok⟩)
  constructor
  · intro hs
    by_contra hlate
    have hc : e.Closed rid := hstate.2.2 hlate
    rcases EngineCore.mem_settledAvgs_iff.1 hs with havg | hfly
    · exact (EngineCore.mem_traceAvgScores havg).elim hc.traceScores hc.traceScoreCounts
    · apply hfly
      unfold Desk.inFlight
      split
      · rfl
      · next reply hr =>
        rw [Dict.getD_eq, Dict.get?_eq_none.2 fun hm => hc.inFlight reply hr (mem_mergeScores.1 hm)]
        rfl
  · exact hstate.2.1

/-- A trace that finishes in the step of its submission is scored after it finished. -/
theorem finished_scored_late :
    "0_1".toList ∈ ((engineMachine .unbounded (bookSample true) ()).exec (lateScoreEvents 1)).2.settledAvgs
      (bookSample true) := by
  have hok : (engineMachine .unbounded (bookSample true) ()).OkFrom [] (lateScoreEvents 1) := by decide +kernel
  have hlen : 3 < ((engineMachine .unbounded (bookSample true) ()).exec (lateScoreEvents 1)).1.length := by
    decide +kernel
  have hrec : ∀ rec ∈ ((engineMachine .unbounded (bookSample true) ()).exec (lateScoreEvents 1)).1[3]?,
      "0_1".toList ∈ rec.finished ∧ "0_1".toList ∈ rec.evaluated := by decide +kernel
  have hans : ∀ ev ∈ lateScoreEvents 1, ev.Answering false := by
    intro ev hev
    simp only [lateScoreEvents, List.mem_cons, List.not_mem_nil, or_false] at hev
    rcases hev with rfl | rfl | rfl | rfl | rfl
    · trivial
    · trivial
    · exact fun ids => ofSamples_answers _ _ false ids
    · exact fun ids => ofSamples_answers _ _ false ids
    · exact fun ids => ofSamples_answers _ _ false ids
  have hfull : ∀ ev ∈ lateScoreEvents 1, ev.FullReplies := by
    intro ev hev
    simp only [lateScoreEvents, List.mem_cons, List.not_mem_nil, or_false] at hev
    rcases hev with rfl | rfl | rfl | rfl | rfl
    · trivial
    · trivial
    · exact ofSamples_full _ _
    · exact ofSamples_full _ _
    · exact ofSamples_full _ _
  have hj := List.getElem?_eq_getElem hlen
  have hscored := finished_scored_iff rfl rfl (Machine.Runs.of_exec hok) hans hfull hj (hrec _ hj).1
  exact hscored.2 ⟨rfl, (hrec _ hj).2⟩

end Runs
end Gambit.Engine
