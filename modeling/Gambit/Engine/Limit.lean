import Gambit.Engine.Forest

/-!
# The completion limit

With `stop_after_completed_traces` set, a decision step that finds enough completed traces force-stops
all active ones. From then on the number of completed traces stays at the limit or above, so no branch
is created any more, and a force-stopped trace is pruned for good: `_gambit_on_request_finished`
never completes a pruned trace.
-/

namespace Gambit.Engine
open Gambit.Lib Gambit.Sched Gambit.Trace

/-- The trace is pruned, and neither active nor completed. -/
def Stopped (t : TraceTree) (rid : ReqId) : Prop :=
  ∃ n, t.getNode rid = some n ∧ n.isPruned = true ∧ n.isActive = false ∧ n.isCompleted = false

/-- The trace is active and not completed. -/
def Running (t : TraceTree) (rid : ReqId) : Prop :=
  ∃ n, t.getNode rid = some n ∧ n.isActive = true ∧ n.isCompleted = false

/-- No node but those of `S` is a branch. -/
def BranchesIn (S : ReqId → Prop) (t : TraceTree) : Prop :=
  ∀ rid n, t.getNode rid = some n → n.parentId ≠ none → S rid

namespace EngineCore
variable {μ β : Type} {ops : Caches μ β} {cfg : VllmConfig} {i : StepInput} {e e' : EngineCore μ}
variable {added : List ReqId} {so : SchedulerOutput β} {avgs : Dict ReqId ℚ} {rid : ReqId}

/-- The completed traces never get fewer. -/
lemma treeRules_completed (cfg : VllmConfig) (n : Nat) :
    TreeRules cfg (fun t => n ≤ t.getCompletedCount) where
  incrementStep _ h := h
  ensureRoot t rid h := by rwa [getCompletedCount_ensureRoot]
  recordScore t rid q h := by rwa [getCompletedCount_recordScore]
  markPruned t rid h := by rwa [getCompletedCount_markPruned]
  addBranch t t' _ _ _ _ hc hb h := by rwa [getCompletedCount_addBranch hb hc]
  removeTrace t t' _ _ _ _ hc hb h := by rwa [getCompletedCount_removeTrace_addBranch hb hc]
  finished t rid score tokens h := by
    rw [← getCompletedCount_ensureRoot t rid] at h
    unfold onRequestFinished
    dsimp only
    split
    · exact h.trans (getCompletedCount_setOutput _ _ _).ge
    · exact h.trans (le_getCompletedCount_markCompleted _ _ _)

/-- At the limit no branch is added. -/
lemma treeRules_branches (cfg : VllmConfig) (S : ReqId → Prop) (c : Nat) :
    TreeRules cfg (fun t => limitReached cfg t = true ∧ BranchesIn S t ∧ t.branchCounter = c) := by
  -- a tree that grew without branches
  have grows : ∀ {t t' : TraceTree}, GrowsClosed (fun _ => True) t t' → BranchesIn S t →
      BranchesIn S t' := by
    intro t t' hg h rid n' hn' hp
    rcases hg.1.back trivial hn' with hnone | ⟨n, hn, hpar, -⟩
    · exact absurd hnone hp
    · exact h rid n hn (hpar ▸ hp)
  have count : ∀ {t t' : TraceTree}, t.getCompletedCount ≤ t'.getCompletedCount →
      limitReached cfg t = true → limitReached cfg t' = true := by
    intro t t' hle h
    unfold limitReached at h ⊢
    split at h
    · cases h
    · next hpos =>
      rw [if_neg hpos]
      simp only [decide_eq_true_eq] at h ⊢
      omega
  refine ⟨fun t h => h, ?_, ?_, ?_, ?_, ?_, ?_⟩
  · exact fun t rid h => ⟨count (getCompletedCount_ensureRoot t rid).ge h.1,
      grows (growsClosed_ensureRoot t rid) h.2.1, (t.ensureRoot_frame rid).1.trans h.2.2⟩
  · exact fun t rid q h => ⟨count (getCompletedCount_recordScore t rid q).ge h.1,
      grows (growsClosed_recordScore t rid q) h.2.1, h.2.2⟩
  · exact fun t rid h => ⟨count (getCompletedCount_markPruned t rid).ge h.1,
      grows (growsClosed_markPruned t rid) h.2.1, h.2.2⟩
  · exact fun t t' _ _ _ hlim _ _ h => absurd h.1 (by simp [hlim])
  · exact fun t t' _ _ _ hlim _ _ h => absurd h.1 (by simp [hlim])
  · exact fun t rid score tokens h =>
      ⟨count ((treeRules_completed cfg _).finished t rid score tokens le_rfl) h.1,
        grows (growsClosed_onRequestFinished t rid score tokens) h.2.1,
        (onRequestFinished_frame t rid score tokens).1.trans h.2.2⟩

/-- A stopped trace stays stopped. -/
lemma treeRules_stopped (cfg : VllmConfig) (rid : ReqId) :
    TreeRules cfg (fun t => Stopped t rid) where
  incrementStep _ h := h
  ensureRoot t x h := by
    obtain ⟨n, hn, hf⟩ := h
    refine ⟨n, ?_, hf⟩
    rw [TraceTree.getNode_ensureRoot, if_neg]
    · exact hn
    · rintro ⟨rfl, hx⟩
      exact hx (TraceTree.mem_of_getNode hn)
  recordScore t x q h := by
    obtain ⟨n, hn, hf⟩ := h
    rw [Stopped, TraceTree.getNode_recordScore, hn]
    split
    · exact ⟨_, rfl, hf⟩
    · exact ⟨n, rfl, hf⟩
  markPruned t x h := by
    obtain ⟨n, hn, hf⟩ := h
    rw [Stopped, TraceTree.getNode_markPruned, hn]
    split
    · exact ⟨_, rfl, rfl, rfl, hf.2.2⟩
    · exact ⟨n, rfl, hf⟩
  addBranch t t' parent child len _ hc hb h := by
    obtain ⟨n, hn, hf⟩ := h
    obtain ⟨p, hp, hget⟩ := TraceTree.getNode_addBranch hb hc
    have hne : rid ≠ child := fun he => hc (he ▸ TraceTree.mem_of_getNode hn)
    rw [Stopped, hget, if_neg hne]
    split
    · next he =>
      subst he
      rw [hn] at hp
      cases hp
      exact ⟨_, rfl, hf⟩
    · exact ⟨n, hn, hf⟩
  removeTrace t t' parent child len _ hc hb h := by
    obtain ⟨n, hn, hf⟩ := h
    obtain ⟨p, hp, hget⟩ := TraceTree.getNode_removeTrace_addBranch hb hc
    rw [Stopped, hget]
    split
    · next he =>
      subst he
      rw [hn] at hp
      cases hp
      exact ⟨_, rfl, hf⟩
    · exact ⟨n, hn, hf⟩
  finished t x score tokens h := by
    obtain ⟨n, hn, hf⟩ := h
    have hroot : (t.ensureRoot x).getNode rid = some n := by
      rw [TraceTree.getNode_ensureRoot, if_neg]
      · exact hn
      · rintro ⟨rfl, hx⟩
        exact hx (TraceTree.mem_of_getNode hn)
    unfold onRequestFinished
    dsimp only
    split
    · rw [Stopped, TraceTree.getNode_setOutput, hroot]
      split
      · exact ⟨_, rfl, hf⟩
      · exact ⟨n, rfl, hf⟩
    · next hpr =>
      have hne : rid ≠ x := by
        rintro rfl
        rw [hroot] at hpr
        exact hpr hf.1
      exact ⟨n, by rw [TraceTree.getNode_markCompleted, if_neg hne]; exact hroot, hf⟩

/-- An active trace is not completed. -/
def ActiveClean (t : TraceTree) : Prop :=
  ∀ rid n, t.getNode rid = some n → n.isActive = true → n.isCompleted = false

/-- Nodes that come from nodes with more flags, or are not completed. -/
lemma ActiveClean.of_back {t t' : TraceTree} (h : ActiveClean t)
    (hb : ∀ x n', t'.getNode x = some n' → n'.isActive = true → n'.isCompleted = false ∨
      ∃ n, t.getNode x = some n ∧ n.isActive = n'.isActive ∧ n.isCompleted = n'.isCompleted) :
    ActiveClean t' := by
  intro x n' hn' ha
  rcases hb x n' hn' ha with hc | ⟨n, hn, h1, h2⟩
  · exact hc
  · rw [← h2]
    exact h x n hn (h1.trans ha)

/-- In every tree of a run active traces are not completed. -/
lemma treeRules_activeClean (cfg : VllmConfig) : TreeRules cfg ActiveClean := by
  have root : ∀ t rid, ActiveClean t → ActiveClean (t.ensureRoot rid) := by
    intro t rid h
    refine h.of_back fun x n' hn' _ => ?_
    rw [TraceTree.getNode_ensureRoot] at hn'
    split at hn'
    · cases hn'; exact .inl rfl
    · exact .inr ⟨n', hn', rfl, rfl⟩
  refine ⟨fun t h => h, root, ?_, ?_, ?_, ?_, ?_⟩
  · intro t rid q h
    refine h.of_back fun x n' hn' _ => ?_
    rw [TraceTree.getNode_recordScore] at hn'
    split at hn'
    · obtain ⟨n, hn, rfl⟩ := Option.map_eq_some_iff.1 hn'
      exact .inr ⟨n, hn, rfl, rfl⟩
    · exact .inr ⟨n', hn', rfl, rfl⟩
  · intro t rid h
    refine h.of_back fun x n' hn' ha => ?_
    rw [TraceTree.getNode_markPruned] at hn'
    split at hn'
    · obtain ⟨n, hn, rfl⟩ := Option.map_eq_some_iff.1 hn'
      cases ha
    · exact .inr ⟨n', hn', rfl, rfl⟩
  · intro t t' parent child len _ hc hb h
    obtain ⟨p, hp, hget⟩ := TraceTree.getNode_addBranch hb hc
    refine h.of_back fun x n' hn' _ => ?_
    rw [hget] at hn'
    split at hn'
    · cases hn'; exact .inl rfl
    · split at hn'
      · next he => cases hn'; exact .inr ⟨p, he ▸ hp, rfl, rfl⟩
      · exact .inr ⟨n', hn', rfl, rfl⟩
  · intro t t' parent child len _ hc hb h
    obtain ⟨p, hp, hget⟩ := TraceTree.getNode_removeTrace_addBranch hb hc
    refine h.of_back fun x n' hn' _ => ?_
    rw [hget] at hn'
    split at hn'
    · next he => cases hn'; exact .inr ⟨p, he ▸ hp, rfl, rfl⟩
    · exact .inr ⟨n', hn', rfl, rfl⟩
  · intro t rid score tokens h
    refine (root t rid h).of_back fun x n' hn' ha => ?_
    unfold onRequestFinished at hn'
    dsimp only at hn'
    split at hn'
    · rw [TraceTree.getNode_setOutput] at hn'
      split at hn'
      · obtain ⟨n, hn, rfl⟩ := Option.map_eq_some_iff.1 hn'
        exact .inr ⟨n, hn, rfl, rfl⟩
      · exact .inr ⟨n', hn', rfl, rfl⟩
    · rw [TraceTree.getNode_markCompleted] at hn'
      split at hn'
      · obtain ⟨n, hn, rfl⟩ := Option.map_eq_some_iff.1 hn'
        cases ha
      · exact .inr ⟨n', hn', rfl, rfl⟩

/-- Force-stopped traces that still wait for their EOS token are not active. -/
def ForcedInactive (e : EngineCore μ) : Prop :=
  ∀ rid ∈ e.pendingForceStops, ∃ n, e.traceTree.getNode rid = some n ∧ n.isActive = false

/-- Flags that are not taken back keep inactive traces inactive. -/
lemma ForcedInactive.congr (h : ForcedInactive e) (ht : FlagsLE e.traceTree e'.traceTree)
    (hp : ∀ x ∈ e'.pendingForceStops, x ∈ e.pendingForceStops) : ForcedInactive e' := by
  intro x hx
  obtain ⟨n, hn, hin⟩ := h x (hp x hx)
  obtain ⟨n', hn', hle⟩ := ht x n hn
  exact ⟨n', hn', hle.inactive hin⟩

/-- A move keeps force-stopped traces inactive. -/
lemma ForcedInactive.move (h : ForcedInactive e) (hb : Base cfg added e)
    (hm : Move cfg i avgs e e') : ForcedInactive e' := by
  have ht := (hb.move_status hm).1
  cases hm with
  | count | register | pruneTested | pruneRanked | round => exact h.congr ht fun _ => id
  | flush => unfold flushHistories; split <;> exact h
  | forceStop =>
    rename_i x n hget _
    intro y hy
    rcases List.mem_insert_iff.1 hy with rfl | hy
    · refine ⟨{ n with isActive := false, isPruned := true }, ?_, rfl⟩
      rw [show (e.forceStopTrace y).traceTree = e.traceTree.markPruned y from rfl,
        TraceTree.getNode_markPruned, if_pos rfl, hget]
      rfl
    · obtain ⟨n', hn', hin⟩ := h y hy
      obtain ⟨n'', hn'', hle⟩ := ht y n' hn'
      exact ⟨n'', hn'', hle.inactive hin⟩
  | branch parent =>
    refine h.congr ht fun x hx => ?_
    rcases createBranch_cases cfg i e parent with heq | ⟨t, -, -, heq⟩ | ⟨r, t, c, -, -, -, -, heq⟩
    · rw [heq] at hx; exact hx
    · rw [heq] at hx; exact hx
    · obtain ⟨ts, ss, cs, hadopt, -⟩ := adoptChild_eq cfg e t parent c r.allTokenIds
      rw [heq, hadopt] at hx
      exact hx

/-- The phases keep force-stopped traces inactive. -/
lemma phaseRules_forcedInactive : PhaseRules (μ := μ) cfg i added so ForcedInactive where
  absorb e e' reply _ h _ habs _ := by
    obtain ⟨_, _, _, _, _, rfl, -⟩ := habs
    exact h
  submit e e' _ h _ hs := by
    obtain ⟨_, _, _, rfl, -⟩ := hs
    exact h
  label e scores _ h := h
  move e e' avgs hb h _ _ hm := h.move hb hm
  drop e ids _ h := h
  trigger e mo _ h _ := by
    obtain ⟨tc, sl, heq, -⟩ := detectTriggers_eq cfg e mo
    rw [heq]; exact h
  inject e mo _ h := by
    obtain ⟨s, low, force, mo', heq, -, -, -, hforce, -⟩ := injectEos_eq e mo
    rw [heq]
    exact h.congr (.refl _) fun x hx => ((hforce x).1 hx).1

/-- Registering scores does not touch the force-stop marks, the completed count or a running trace, and
a scored trace without a node becomes a running one. -/
lemma registered_running (cfg : VllmConfig) (e : EngineCore μ) (avgs : Dict ReqId ℚ) :
    (e.registered cfg avgs).pendingForceStops = e.pendingForceStops ∧
      (e.registered cfg avgs).traceTree.getCompletedCount = e.traceTree.getCompletedCount ∧
      FlagsLE e.traceTree (e.registered cfg avgs).traceTree ∧
      ∀ rid, Running e.traceTree rid ∨ rid ∈ avgs ∧ rid ∉ e.traceTree →
        Running (e.registered cfg avgs).traceTree rid := by
  have one : ∀ (e : EngineCore μ) (s : ReqId × ℚ) (rid : ReqId),
      Running e.traceTree rid ∨ rid = s.1 ∧ rid ∉ e.traceTree →
      Running (registerScore cfg e s).traceTree rid := by
    intro e s rid h
    have hroot : Running (e.traceTree.ensureRoot s.1) rid := by
      rcases h with ⟨n, hn, hf⟩ | ⟨rfl, hm⟩
      · refine ⟨n, ?_, hf⟩
        rw [TraceTree.getNode_ensureRoot, if_neg]
        · exact hn
        · rintro ⟨rfl, hx⟩
          exact hx (TraceTree.mem_of_getNode hn)
      · refine ⟨{ reqId := s.1, createdAtStep := e.traceTree.currentStep }, ?_, rfl, rfl⟩
        rw [TraceTree.getNode_ensureRoot, if_pos ⟨rfl, hm⟩]
    unfold registerScore
    dsimp only
    split
    · obtain ⟨n, hn, hf⟩ := hroot
      rw [Running, TraceTree.getNode_recordScore, hn]
      split
      · exact ⟨_, rfl, hf⟩
      · exact ⟨n, rfl, hf⟩
    · exact hroot
  have flags : ∀ (e : EngineCore μ) (s : ReqId × ℚ),
      (registerScore cfg e s).traceTree.getCompletedCount = e.traceTree.getCompletedCount ∧
        FlagsLE e.traceTree (registerScore cfg e s).traceTree := by
    intro e s
    unfold registerScore
    dsimp only
    split
    · exact ⟨(getCompletedCount_recordScore _ _ _).trans (getCompletedCount_ensureRoot _ _),
        (flagsLE_ensureRoot _ _).trans (flagsLE_recordScore _ _ _)⟩
    · exact ⟨getCompletedCount_ensureRoot _ _, flagsLE_ensureRoot _ _⟩
  have fold : ∀ (l : List (ReqId × ℚ)) (e : EngineCore μ),
      (l.foldl (registerScore cfg) e).pendingForceStops = e.pendingForceStops ∧
        (l.foldl (registerScore cfg) e).traceTree.getCompletedCount =
          e.traceTree.getCompletedCount ∧
        FlagsLE e.traceTree (l.foldl (registerScore cfg) e).traceTree ∧
        ∀ rid, Running e.traceTree rid ∨ rid ∈ l.map Prod.fst ∧ rid ∉ e.traceTree →
          Running (l.foldl (registerScore cfg) e).traceTree rid := by
    intro l
    induction l with
    | nil =>
      intro e
      exact ⟨rfl, rfl, .refl _, fun rid h => h.elim id fun h => by cases h.1⟩
    | cons s l ih =>
      intro e
      obtain ⟨h1, h2, h3, h4⟩ := ih (registerScore cfg e s)
      obtain ⟨g2, g3⟩ := flags e s
      refine ⟨h1, h2.trans g2, g3.trans h3, fun rid h => ?_⟩
      rw [List.foldl_cons]
      rcases h with h | ⟨hm, hn⟩
      · exact h4 rid (.inl (one e s rid (.inl h)))
      · by_cases hs : rid = s.1
        · exact h4 rid (.inl (one e s rid (.inr ⟨hs, hn⟩)))
        · rw [List.map_cons, List.mem_cons] at hm
          refine h4 rid (.inr ⟨hm.resolve_left hs, fun hx => ?_⟩)
          exact (mem_registerScore.1 hx).elim hs hn
  exact fold avgs.entries e.countRound

/-- The tree after forcing traces to stop. -/
lemma traceTree_foldl_forceStop (l : List ReqId) (e : EngineCore μ) :
    (l.foldl forceStopTrace e).traceTree = l.foldl TraceTree.markPruned e.traceTree := by
  induction l generalizing e with
  | nil => rfl
  | cons x l ih => exact ih _

/-- At the limit a decision step stops every running trace, those it registers included. -/
lemma decisionStep_stops (hlim : limitReached cfg e.traceTree = true) (hf : ForcedInactive e)
    (h : Running e.traceTree rid ∨ rid ∈ avgs ∧ rid ∉ e.traceTree) :
    Stopped (e.decisionStep cfg i avgs).traceTree rid := by
  obtain ⟨hforce, hcount, hflags, hrun⟩ := registered_running cfg e avgs
  obtain ⟨n, hn, hact, hcomp⟩ := hrun rid h
  have hnot : rid ∉ (e.registered cfg avgs).pendingForceStops := by
    rw [hforce]
    intro hm
    obtain ⟨n', hn', hin⟩ := hf rid hm
    obtain ⟨n'', hn'', hle⟩ := hflags rid n' hn'
    rw [hn] at hn''
    cases hn''
    rw [hle.inactive hin] at hact
    cases hact
  have hstop : (e.registered cfg avgs).shouldStopAfterCompleted cfg = true := by
    unfold limitReached at hlim
    unfold shouldStopAfterCompleted
    rw [hcount]
    exact hlim
  have heq : e.decisionStep cfg i avgs = (e.registered cfg avgs).forceStopAllActiveTraces := by
    unfold decisionStep
    dsimp only
    exact if_pos hstop
  rw [heq]
  unfold forceStopAllActiveTraces
  dsimp only
  rw [traceTree_foldl_forceStop]
  refine ⟨{ n with isActive := false, isPruned := true }, ?_, rfl, rfl, hcomp⟩
  rw [TraceTree.getNode_foldl_markPruned, if_pos, hn]
  · rfl
  · refine List.mem_map.2 ⟨(rid, n), List.mem_filter.2 ⟨Dict.get?_eq_some.1 hn, ?_⟩, rfl⟩
    simpa using ⟨hact, hnot⟩

/-- A move does not touch the averages of the record. -/
lemma Move.averages (hm : Move cfg i avgs e e') : e'.record.averages = e.record.averages := by
  cases hm with
  | count | register | pruneTested | pruneRanked | forceStop | round => rfl
  | flush => unfold flushHistories; split <;> rfl
  | branch parent =>
    rcases createBranch_cases cfg i e parent with heq | ⟨t, -, -, heq⟩ | ⟨r, t, c, -, -, -, -, heq⟩
    · rw [heq]
    · rw [heq]; rfl
    · obtain ⟨ts, ss, cs, hadopt, -⟩ := adoptChild_eq cfg e t parent c r.allTokenIds
      rw [heq, hadopt]

/-- The averages a step records are those it aggregated. -/
lemma averages_aggregateAndDecide (cfg : VllmConfig) (i : StepInput) (e : EngineCore μ) :
    (e.aggregateAndDecide cfg i).record.averages =
      if (e.traceAvgScores cfg).entries = [] then e.record.averages else e.traceAvgScores cfg := by
  rcases aggregateAndDecide_cases cfg i e with ⟨hemp, heq⟩ | ⟨hg, heq⟩ | ⟨hg, hmoves⟩
  · rw [heq, if_pos hemp]
  · rw [heq]
    split
    · next hemp =>
      have hnone : e.aggregateAndDecide cfg i = e := by
        unfold aggregateAndDecide
        dsimp only
        rw [if_pos (List.isEmpty_iff.2 hemp)]
      rw [← heq, hnone]
    · rfl
  · split
    · next hemp =>
      have hnone : e.aggregateAndDecide cfg i = e := by
        unfold aggregateAndDecide
        dsimp only
        rw [if_pos (List.isEmpty_iff.2 hemp)]
      rw [hnone]
    · exact Moves.induct (P := fun e' => e'.record.averages = e.traceAvgScores cfg)
        ((registered_moves (i := i) _ _).trans hmoves) (fun e1 e2 hm h => hm.averages.trans h) rfl

/-- A step that hands out averages took a reply in, aggregated and decided; after that only
finalisation touches the tree. -/
lemma decision_of_averages {mo : ModelRunnerOutput} (h0 : e.record.averages = ∅)
    (hrec : (e.gambitPhases cfg i so mo).1.record.averages ≠ ∅) :
    ∃ reply e1, Absorbs cfg reply e e1 ∧ (e1.traceAvgScores cfg).entries ≠ [] ∧
      (e.gambitPhases cfg i so mo).1.traceTree = (e1.aggregateAndDecide cfg i).traceTree ∧
      (e.gambitPhases cfg i so mo).1.record.averages = e1.traceAvgScores cfg := by
  -- the scoring phases
  have scoring : (e.scoringPhases cfg i so).record.averages ≠ ∅ →
      ∃ reply e1, Absorbs cfg reply e e1 ∧ (e1.traceAvgScores cfg).entries ≠ [] ∧
        (e.scoringPhases cfg i so).traceTree = (e1.aggregateAndDecide cfg i).traceTree ∧
        (e.scoringPhases cfg i so).record.averages = e1.traceAvgScores cfg := by
    have agg : ∀ {reply e1}, Absorbs cfg reply e e1 →
        (e1.aggregateAndDecide cfg i).record.averages ≠ ∅ →
        (e1.traceAvgScores cfg).entries ≠ [] ∧
          (e1.aggregateAndDecide cfg i).record.averages = e1.traceAvgScores cfg := by
      intro reply e1 habs hne
      obtain ⟨_, _, _, _, _, rfl, -⟩ := habs
      rw [averages_aggregateAndDecide] at hne ⊢
      split at hne
      · exact absurd h0 hne
      · next hemp => exact ⟨hemp, by rw [if_neg hemp]⟩
    unfold scoringPhases
    intro hne
    rcases consumeAsyncScores_cases cfg i e with
      ⟨heq, -⟩ | ⟨reply, e1, hasync, -, habs, -, heq⟩
    · rw [heq] at hne ⊢
      rcases scorePending_cases cfg i e so with
        heq2 | ⟨-, hsub⟩ | ⟨reply, e1, -, -, habs, -, heq2⟩
      · rw [heq2] at hne
        exact absurd h0 hne
      · obtain ⟨_, _, _, heq2, -⟩ := hsub
        rw [heq2] at hne
        exact absurd h0 hne
      · rw [heq2] at hne ⊢
        obtain ⟨h1, h2⟩ := agg habs hne
        exact ⟨reply, e1, habs, h1, rfl, h2⟩
    · rw [heq] at hne ⊢
      rcases scorePending_cases cfg i (e1.aggregateAndDecide cfg i) so with
        heq2 | ⟨-, hsub⟩ | ⟨_, _, hsync, -⟩
      · rw [heq2] at hne ⊢
        obtain ⟨h1, h2⟩ := agg habs hne
        exact ⟨reply, e1, habs, h1, rfl, h2⟩
      · obtain ⟨_, _, _, heq2, -⟩ := hsub
        rw [heq2] at hne ⊢
        obtain ⟨h1, h2⟩ := agg habs hne
        exact ⟨reply, e1, habs, h1, rfl, h2⟩
      · rw [hasync] at hsync; cases hsync
  unfold gambitPhases at hrec ⊢
  split at hrec
  · next hen =>
    rw [if_pos hen]
    dsimp only at hrec ⊢
    generalize e.scoringPhases cfg i so = e2 at scoring hrec ⊢
    have htrig : (e2.detectTriggers cfg mo).traceTree = e2.traceTree ∧
        (e2.detectTriggers cfg mo).record.averages = e2.record.averages := by
      obtain ⟨tc, sl, heq, -⟩ := detectTriggers_eq cfg e2 mo
      rw [heq]
      exact ⟨rfl, rfl⟩
    have hinj : ((e2.detectTriggers cfg mo).injectEos mo).1.traceTree =
          (e2.detectTriggers cfg mo).traceTree ∧
        ((e2.detectTriggers cfg mo).injectEos mo).1.record.averages =
          (e2.detectTriggers cfg mo).record.averages := by
      obtain ⟨s, low, force, mo', heq, -⟩ := injectEos_eq (e2.detectTriggers cfg mo) mo
      rw [heq]
      exact ⟨rfl, rfl⟩
    split at hrec
    · next hg =>
      rw [if_pos hg, hinj.1, hinj.2, htrig.1, htrig.2]
      rw [hinj.2, htrig.2] at hrec
      exact scoring hrec
    · next hg =>
      rw [if_neg hg, htrig.1, htrig.2]
      rw [htrig.2] at hrec
      exact scoring hrec
  · exact absurd h0 hrec

/-- A step that hands out averages at the limit stops every running trace. -/
lemma step_stops (ops : Caches μ β) (hb : Base cfg added e) (hf : ForcedInactive e)
    (hlim : limitReached cfg e.traceTree = true) (hg : gambitEnabled cfg = true)
    (hrec : (e.step ops cfg i).record.averages ≠ ∅)
    (h : Running e.traceTree rid ∨ rid ∈ (e.step ops cfg i).record.averages ∧ rid ∉ e.traceTree) :
    Stopped (e.step ops cfg i).traceTree rid := by
  cases hreq : e.scheduler.hasRequests with
  | true =>
    obtain ⟨e1, mo, fin, -, -, -, -, -, hmid, -, hfin, -⟩ :=
      hb.step_rule ops hreq phaseRules_true trivial
    obtain ⟨outs, hrecord⟩ := hfin.record
    have havg : (e.step ops cfg i).record.averages = e1.record.averages := by rw [hrecord]
    rw [havg] at hrec h
    have he1 : e1 = ((e.afterSchedule ops cfg i).1.gambitPhases cfg i (e.afterSchedule ops cfg i).2
        (modelOutput i (e.afterSchedule ops cfg i).2)).1 := congrArg Prod.fst hmid
    rw [he1] at hrec h
    obtain ⟨reply, e2, habs, hne, htree, havg2⟩ := decision_of_averages rfl hrec
    obtain ⟨_, _, _, _, _, rfl, -⟩ := habs
    rw [havg2] at h
    refine hfin.tree (fun t => Stopped t rid)
      (fun t x _ score tokens ht => (treeRules_stopped cfg rid).finished t x score tokens ht) ?_
    rw [he1, htree]
    unfold aggregateAndDecide
    dsimp only
    rw [if_neg (fun hemp => hne (List.isEmpty_iff.1 hemp)), if_pos hg]
    exact decisionStep_stops hlim hf h
  | false =>
    refine absurd ?_ hrec
    rw [EngineCore.step, if_neg (by simp [hreq])]
    obtain ⟨t, low, force, heq⟩ := idleCleanup_frame cfg { e with record := {} }
    rw [heq]

/-- Every event keeps force-stopped traces inactive. -/
lemma ForcedInactive.handle {h : List Event} {ev : Event} (hf : ForcedInactive e)
    (hb : Base cfg (h.filterMap Event.added) e) (hok : Event.Ok h ev) :
    ForcedInactive (e.handle ops cfg ev) := by
  cases ev with
  | addRequest r =>
    have hnew : r.requestId ∉ e.traceTree := fun hm => not_issued_of_ok hok (hb.tree _ hm)
    simp only [EngineCore.handle, EngineCore.addRequest]
    split
    · refine hf.congr ?_ fun _ => id
      dsimp only
      split
      · exact flagsLE_addRoot hnew
      · exact .refl _
    · exact hf
  | abortRequests rids => exact hf
  | postStep drafts => exact hf
  | step i =>
    simp only [EngineCore.handle]
    cases hreq : e.scheduler.hasRequests with
    | true =>
      obtain ⟨e1, mo, fin, -, h1, -, -, -, -, -, hfin, -⟩ :=
        hb.step_rule ops hreq (phaseRules_forcedInactive (i := i)) hf
      refine h1.congr ?_ fun x hx => ?_
      · exact hfin.tree (FlagsLE e1.traceTree) (fun t rid _ score tokens ht =>
          ht.trans (onRequestFinished_flags rid score tokens).1) (.refl _)
      · rw [hfin.finalized.pendingForceStops] at hx
        exact mem_of_mem_foldl_erase hx
    | false =>
      rw [EngineCore.step, if_neg (by simp [hreq])]
      unfold idleCleanup
      split
      · refine hf.congr (flagsLE_foldl_markPruned _ _) fun x hx => ?_
        exact (mem_removeIds.1 hx).1
      · exact hf

end EngineCore

section Runs
variable {μ β : Type} {ops : Caches μ β} {cfg : VllmConfig} {m : μ}
variable {h : List Event} {o : List StepRecord} {e : EngineCore μ}

/-- In every reachable state force-stopped traces are inactive. -/
lemma forcedInactive_of_runs (run : (engineMachine ops cfg m).Runs h o e) : e.ForcedInactive := by
  induction run with
  | init => exact fun rid hr => by cases hr
  | step run hok ih => exact ih.handle (base_of_runs run) hok

/-- The completion limit: the completed traces never get fewer; and once a decision step, one that
hands out averages, finds the limit reached, no branch is added any more, and every trace that was
active or that the step registered is pruned and neither active nor completed in every later state. -/
theorem completion_limit (run : (engineMachine ops cfg m).Runs h o e) :
    (∀ h' o' e', (engineMachine ops cfg m).Runs (h ++ h') o' e' →
      e.traceTree.getCompletedCount ≤ e'.traceTree.getCompletedCount) ∧
    ∀ i, cfg.gambit.enableBranching = true → 0 < cfg.gambit.stopAfterCompletedTraces →
      cfg.gambit.stopAfterCompletedTraces ≤ e.traceTree.getCompletedCount →
      (e.step ops cfg i).record.averages ≠ ∅ →
      ∀ h' o' e', (engineMachine ops cfg m).Runs (h ++ Event.step i :: h') o' e' →
        e'.traceTree.branchCounter = e.traceTree.branchCounter ∧
        (∀ rid n, e'.traceTree.getNode rid = some n → n.parentId ≠ none → rid ∈ e.traceTree) ∧
        ∀ rid, (∃ n, e.traceTree.getNode rid = some n ∧ n.isActive = true) ∨
            rid ∈ (e.step ops cfg i).record.averages ∧ rid ∉ e.traceTree →
          ∃ n, e'.traceTree.getNode rid = some n ∧ n.isPruned = true ∧ n.isActive = false ∧
            n.isCompleted = false := by
  refine ⟨fun h' o' e' run' =>
    tree_of_continue (EngineCore.treeRules_completed cfg _) le_rfl run run', ?_⟩
  intro i hg hpos hle hrec h' o' e' run'
  have hlim : EngineCore.limitReached cfg e.traceTree = true := by
    unfold EngineCore.limitReached
    rw [if_neg (by omega)]
    simpa using hle
  have run1 : (engineMachine ops cfg m).Runs (h ++ [.step i])
      (o ++ [(e.step ops cfg i).record]) (e.step ops cfg i) := run.step trivial
  have run2 : (engineMachine ops cfg m).Runs (h ++ [.step i] ++ h') o' e' := by
    rw [List.append_assoc]
    exact run'
  have hbranch := tree_of_continue (EngineCore.treeRules_branches cfg (· ∈ e.traceTree)
    e.traceTree.branchCounter) ⟨hlim, fun rid n hn _ => TraceTree.mem_of_getNode hn, rfl⟩ run run'
  refine ⟨hbranch.2.2, hbranch.2.1, fun rid hrid => ?_⟩
  have hclean := tree_of_runs (EngineCore.treeRules_activeClean cfg)
    (fun x n hn => absurd (TraceTree.mem_of_getNode hn) (EngineCore.not_mem_init cfg m x)) run
  have hstop := EngineCore.step_stops (i := i) ops (base_of_runs run) (forcedInactive_of_runs run) hlim
    hg hrec (hrid.imp_left fun ⟨n, hn, ha⟩ => ⟨n, hn, ha, hclean rid n hn ha⟩)
  exact tree_of_continue (EngineCore.treeRules_stopped cfg rid) hstop run1 run2

end Runs

/-- A tournament that ends with its first completed trace. -/
def limitSample : VllmConfig where
  gambit :=
    { enable := true
      enableBranching := true
      doubleNewLineTokenId := some [7]
      stopAfterCompletedTraces := 1 }
  scheduler := {}

/-- Two traces; the first one completes in the second step. -/
def limitEvents : List Event :=
  [.addRequest
      { requestId := "0_1".toList, samplingParams := { maxTokens := 2 }, promptTokenIds := [1] },
    .addRequest { requestId := "1_1".toList, promptTokenIds := [1] },
    .step (.ofSamples (fun _ => [7]) fun _ => 1),
    .step (.ofSamples (fun _ => [7]) fun _ => 1)]

/-- The step that finds the limit reached, and a step after it. -/
def limitStep : StepInput := .ofSamples (fun _ => [5]) fun _ => 1

/-- The second trace is force-stopped, and never counts as completed afterwards. -/
theorem completion_limit_pair :
    (∃ n, ((engineMachine .unbounded limitSample ()).exec limitEvents).2.traceTree.getNode
        "1_1".toList = some n ∧ n.isActive = true) ∧
      ∃ n, ((engineMachine .unbounded limitSample ()).exec (limitEvents ++
          [.step limitStep, .step limitStep])).2.traceTree.getNode "1_1".toList = some n ∧
        n.isPruned = true ∧ n.isActive = false ∧ n.isCompleted = false := by
  have hlimit := (completion_limit (Machine.Runs.of_exec (show (engineMachine .unbounded limitSample
    ()).OkFrom [] limitEvents by decide +kernel))).2 limitStep rfl (by decide) (by decide +kernel)
    (by decide +kernel) [.step limitStep] _ _ (Machine.Runs.of_exec (by decide +kernel))
  have hactive : ∃ n, ((engineMachine .unbounded limitSample ()).exec limitEvents).2.traceTree.getNode
      "1_1".toList = some n ∧ n.isActive = true := by
    have hsome : ∃ n ∈ ((engineMachine .unbounded limitSample ()).exec limitEvents).2.traceTree.getNode
        "1_1".toList, n.isActive = true := by decide +kernel
    exact hsome
  exact ⟨hactive, hlimit.2.2 _ (.inl hactive)⟩

end Gambit.Engine
