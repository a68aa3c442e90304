import Gambit.Engine.Coverage

/-!
# Capacity

How many traces a decision step can leave active. Pruning lowers the number of active nodes, and a
branch is created only while it is below the capacity of the tree, so the decisions themselves leave
at most the capacity or what was active before. The step also registers every scored trace without a
node as a new root, whatever the capacity (`decisionStep_active_le`). When every request has its node
no root is added any more, and a number of active traces within the capacity stays within it for the
rest of a run without new requests.
-/

namespace Gambit.Trace
open Gambit.Lib

namespace TraceTree
variable {t t' : TraceTree} {rid : ReqId}

lemma getActiveCount_markPruned_le (t : TraceTree) (rid : ReqId) :
    (t.markPruned rid).getActiveCount ≤ t.getActiveCount :=
  Dict.count_modify_le _ _ _ fun _ h => by cases h

lemma getActiveCount_markCompleted_le (t : TraceTree) (rid : ReqId) (o : NodeOutput) :
    (t.markCompleted rid o).getActiveCount ≤ t.getActiveCount :=
  Dict.count_modify_le _ _ _ fun _ h => by cases h

lemma getActiveCount_setOutput (t : TraceTree) (rid : ReqId) (o : NodeOutput) :
    (t.setOutput rid o).getActiveCount = t.getActiveCount :=
  Dict.count_modify_of_eq _ _ _ fun _ => rfl

lemma getActiveCount_recordScore (t : TraceTree) (rid : ReqId) (q : ℚ) :
    (t.recordScore rid q).getActiveCount = t.getActiveCount :=
  Dict.count_modify_of_eq _ _ _ fun _ => rfl

/-- A root is one more active node if the id had none. -/
lemma getActiveCount_ensureRoot (t : TraceTree) (rid : ReqId) :
    (t.ensureRoot rid).getActiveCount = t.getActiveCount + if rid ∈ t then 0 else 1 := by
  unfold ensureRoot
  split
  · rfl
  · next h => exact Dict.count_set_of_not_mem _ h

lemma getActiveCount_foldl_markPruned_le (l : List ReqId) (t : TraceTree) :
    (l.foldl markPruned t).getActiveCount ≤ t.getActiveCount := by
  induction l generalizing t with
  | nil => exact le_rfl
  | cons x l ih => exact (ih _).trans (getActiveCount_markPruned_le t x)

/-- A branch is at most one more active node. -/
lemma getActiveCount_addBranch_le {parent child : ReqId} {len : Nat}
    (h : t.addBranch parent child len = some t') :
    t'.getActiveCount ≤ t.getActiveCount + 1 := by
  obtain ⟨p, -, rfl⟩ := Option.map_eq_some_iff.1 h
  have hmod := Dict.count_modify_le TraceNode.isActive
    (t.nodes.set child (t.branchNode p parent child len)) parent (f := t.branchedParent child)
    fun _ hp => hp
  exact hmod.trans (Dict.count_set_le TraceNode.isActive _ _ _)

/-- A branch that was taken back adds no active node. -/
lemma getActiveCount_removeTrace_addBranch_le {parent child : ReqId} {len : Nat}
    (h : t.addBranch parent child len = some t') :
    (t'.removeTrace child).getActiveCount ≤ t.getActiveCount := by
  have hle := getActiveCount_addBranch_le h
  -- the child's node is active, so taking it out lowers the count by one
  have hchild : ∃ n, t'.getNode child = some n ∧ n.isActive = true := by
    obtain ⟨p, -, rfl⟩ := Option.map_eq_some_iff.1 h
    simp only [getNode, Dict.get?_modify, Dict.get?_set]
    split
    · exact ⟨_, rfl, rfl⟩
    · exact ⟨_, rfl, rfl⟩
  obtain ⟨n, hn, hact⟩ := hchild
  have hc := Dict.count_erase TraceNode.isActive hn
  rw [if_pos hact] at hc
  rw [removeTrace, if_pos (mem_of_getNode hn)]
  unfold getActiveCount at hle ⊢
  dsimp only
  omega

end TraceTree
end Gambit.Trace

namespace Gambit.Engine
open Gambit.Lib Gambit.Sched Gambit.Trace

namespace EngineCore
variable {μ β : Type} {ops : Caches μ β} {cfg : VllmConfig} {i : StepInput} {e e' e'' : EngineCore μ}
variable {added : List ReqId} {so : SchedulerOutput β} {avgs : Dict ReqId ℚ}

/-- The number of active traces. -/
abbrev activeCount (e : EngineCore μ) : Nat := e.traceTree.getActiveCount

/-- The capacity of the tree stays, and the active traces stay within it or within what they were. -/
def Within (e e' : EngineCore μ) : Prop :=
  e'.traceTree.maxTraces = e.traceTree.maxTraces ∧
    (e'.activeCount : Int) ≤ max e.traceTree.maxTraces e.activeCount

lemma Within.refl (e : EngineCore μ) : Within e e := ⟨rfl, le_max_right _ _⟩

lemma Within.trans (h : Within e e') (h' : Within e' e'') : Within e e'' := by
  obtain ⟨hm, hc⟩ := h
  obtain ⟨hm', hc'⟩ := h'
  refine ⟨hm'.trans hm, hc'.trans ?_⟩
  rw [hm]
  exact max_le (le_max_left _ _) hc

/-- No more active traces than before. -/
lemma Within.of_le (hm : e'.traceTree.maxTraces = e.traceTree.maxTraces)
    (h : e'.activeCount ≤ e.activeCount) : Within e e' :=
  ⟨hm, le_max_of_le_right (by exact_mod_cast h)⟩

lemma pruneTrace_within (e : EngineCore μ) (rid : ReqId) : Within e (e.pruneTrace rid) :=
  .of_le rfl (TraceTree.getActiveCount_markPruned_le e.traceTree rid)

lemma pruneAll_within (e : EngineCore μ) (rids : List ReqId) : Within e (e.pruneAll rids) := by
  induction rids generalizing e with
  | nil => exact .refl e
  | cons rid rids ih => exact (pruneTrace_within e rid).trans (ih _)

/-- A branch is created below the capacity only. -/
lemma createBranch_within (cfg : VllmConfig) (i : StepInput) (e : EngineCore μ) (parent : ReqId) :
    Within e (e.createBranch cfg i parent).1 := by
  rcases createBranch_cases cfg i e parent with
    heq | ⟨t, -, ht, heq⟩ | ⟨r, t, c, hcan, -, ht, -, heq⟩
  · rw [heq]; exact .refl e
  · rw [heq]
    refine .of_le ?_ (TraceTree.getActiveCount_removeTrace_addBranch_le ht)
    exact (TraceTree.removeTrace_maxTraces _ _).trans (TraceTree.addBranch_frame ht).2.1
  · obtain ⟨ts, ss, cs, hadopt, -⟩ := adoptChild_eq cfg e t parent c r.allTokenIds
    rw [heq, hadopt]
    have hlt : (e.activeCount : Int) < e.traceTree.maxTraces := by
      unfold TraceTree.canTraceBranch TraceTree.canBranch at hcan
      split at hcan
      · cases hcan
      · by_contra hge
        simp [hge] at hcan
    have hle := TraceTree.getActiveCount_addBranch_le ht
    refine ⟨(TraceTree.addBranch_frame ht).2.1, le_max_of_le_left ?_⟩
    unfold activeCount at hlt ⊢
    dsimp only
    omega

lemma branchWithin_within (capacity : Int) (l : List (ℚ × ReqId)) (e : EngineCore μ) :
    Within e (e.branchWithin cfg i capacity l) := by
  induction l generalizing e with
  | nil => exact .refl e
  | cons s l ih =>
    rw [branchWithin]
    split
    · exact .refl e
    · exact (createBranch_within cfg i e s.2).trans (ih _)

lemma swap_within (active candidates : List (ℚ × ReqId)) (e : EngineCore μ) :
    Within e (e.swap cfg i active candidates) := by
  unfold swap
  dsimp only
  split
  · exact .refl e
  · exact (pruneAll_within e _).trans (branchWithin_within _ _ _)

lemma trimAndSwap_within (active candidates : List (ℚ × ReqId)) (e : EngineCore μ) :
    Within e (e.trimAndSwap cfg i active candidates) := by
  unfold trimAndSwap
  dsimp only
  split
  · exact swap_within _ _ e
  · exact (pruneAll_within e _).trans (swap_within _ _ _)

lemma tournamentRound_within (e : EngineCore μ) (avgs : Dict ReqId ℚ) :
    Within e (e.tournamentRound cfg i avgs) := by
  unfold tournamentRound
  dsimp only
  split
  · exact .of_le rfl le_rfl
  split
  · exact branchWithin_within _ _ _
  · exact trimAndSwap_within _ _ _

lemma tournamentStep_within (e : EngineCore μ) (avgs : Dict ReqId ℚ) :
    Within e (e.tournamentStep cfg i avgs) := by
  unfold tournamentStep
  dsimp only
  split
  · exact (pruneAll_within e _).trans (tournamentRound_within _ _)
  · exact pruneAll_within e _

lemma thresholdStep_within (e : EngineCore μ) (avgs : Dict ReqId ℚ) :
    Within e (e.thresholdStep cfg i avgs) :=
  (pruneAll_within e _).trans (branchWithin_within _ _ _)

lemma forceStopAllActiveTraces_within (e : EngineCore μ) : Within e e.forceStopAllActiveTraces := by
  unfold forceStopAllActiveTraces
  dsimp only
  generalize (e.traceTree.nodes.entries.filter fun n =>
    decide (n.2.isActive = true ∧ n.1 ∉ e.pendingForceStops)).map Prod.fst = l
  induction l generalizing e with
  | nil => exact .refl e
  | cons rid l ih =>
    have h : Within e (e.forceStopTrace rid) :=
      .of_le rfl (TraceTree.getActiveCount_markPruned_le e.traceTree rid)
    exact h.trans (ih _)

lemma flushHistories_within (e : EngineCore μ) : Within e e.flushHistories := by
  unfold flushHistories
  split
  · exact .refl e
  · exact .of_le rfl le_rfl

/-- The decisions after the scored traces are registered. -/
lemma decisionStep_within (cfg : VllmConfig) (i : StepInput) (e : EngineCore μ)
    (avgs : Dict ReqId ℚ) :
    Within (e.registered cfg avgs) (e.decisionStep cfg i avgs) := by
  unfold decisionStep registered
  generalize avgs.entries.foldl (registerScore cfg) e.countRound = e
  dsimp only
  split
  · exact forceStopAllActiveTraces_within e
  · split
    · exact (tournamentStep_within e avgs).trans (flushHistories_within _)
    · exact (thresholdStep_within e avgs).trans (flushHistories_within _)

/-- Registering a score adds one active node if the trace had none. -/
lemma activeCount_registerScore (e : EngineCore μ) (s : ReqId × ℚ) :
    (registerScore cfg e s).activeCount =
      e.activeCount + if s.1 ∈ e.traceTree then 0 else 1 := by
  rw [← TraceTree.getActiveCount_ensureRoot]
  unfold registerScore
  dsimp only
  split
  · exact TraceTree.getActiveCount_recordScore _ _ _
  · rfl

/-- The scored traces without a node. -/
def unregistered (e : EngineCore μ) (avgs : Dict ReqId ℚ) : List ReqId :=
  avgs.keys.filter (· ∉ e.traceTree)

/-- The register loop adds one active node for each scored trace without one. -/
lemma activeCount_registered (e : EngineCore μ) (avgs : Dict ReqId ℚ) :
    (registered cfg e avgs).activeCount = e.activeCount + (e.unregistered avgs).length := by
  have fold : ∀ l : List (ReqId × ℚ), (l.map Prod.fst).Nodup → ∀ e : EngineCore μ,
      (l.foldl (registerScore cfg) e).activeCount =
        e.activeCount + ((l.map Prod.fst).filter (· ∉ e.traceTree)).length := by
    intro l
    induction l with
    | nil => exact fun _ _ => rfl
    | cons s l ih =>
      intro nd e
      obtain ⟨hn, nd⟩ := List.nodup_cons.1 nd
      -- the ids that follow are in the tree as before
      have hrest : (l.map Prod.fst).filter (· ∉ (registerScore cfg e s).traceTree) =
          (l.map Prod.fst).filter (· ∉ e.traceTree) := by
        refine List.filter_congr fun x hx => ?_
        have hne : x ≠ s.1 := fun h => hn (h ▸ hx)
        simp [mem_registerScore, hne]
      rw [List.foldl_cons, ih nd, hrest, activeCount_registerScore, List.map_cons]
      by_cases hs : s.1 ∈ e.traceTree
      · simp [hs]
      · simp [hs]
        omega
  exact fold avgs.entries avgs.nodup e.countRound

lemma registered_maxTraces (e : EngineCore μ) (avgs : Dict ReqId ℚ) :
    (registered cfg e avgs).traceTree.maxTraces = e.traceTree.maxTraces := by
  have fold : ∀ (l : List (ReqId × ℚ)) (e : EngineCore μ),
      (l.foldl (registerScore cfg) e).traceTree.maxTraces = e.traceTree.maxTraces := by
    intro l
    induction l with
    | nil => exact fun _ => rfl
    | cons s l ih =>
      intro e
      rw [List.foldl_cons, ih]
      unfold registerScore
      dsimp only
      split <;> exact (e.traceTree.ensureRoot_frame s.1).2.1
  exact fold avgs.entries e.countRound

/-- A decision step leaves at most the capacity active, or what was active and newly registered. -/
lemma decisionStep_active_le (h : e.traceTree.maxTraces = cfg.capacity) :
    ((e.decisionStep cfg i avgs).activeCount : Int) ≤
      max cfg.capacity (e.activeCount + (e.unregistered avgs).length) := by
  obtain ⟨-, hle⟩ := decisionStep_within cfg i e avgs
  rw [registered_maxTraces, activeCount_registered, h] at hle
  exact_mod_cast hle

/-- Every trace with an average is in the tree after the phases. -/
lemma phaseStages_registered : PhaseStages (μ := μ) cfg i added so (Registered cfg) (fun _ => True)
    (Registered cfg) where
  label _ _ _ _ := trivial
  move _ _ _ _ _ _ _ _ := trivial
  start _ _ h _ := h
  absorbAsync _ _ _ _ _ _ _ _ _ := trivial
  absorbSync _ _ _ _ _ _ _ _ _ := trivial
  settle _ _ _ h := h
  submit e e' _ h _ hs := by
    obtain ⟨_, _, _, rfl, -⟩ := hs
    exact h
  drop _ _ _ h := h
  skip _ _ h := h
  trigger e mo _ h _ := by
    obtain ⟨tc, sl, heq, -⟩ := detectTriggers_eq cfg e mo
    rw [heq]; exact h
  inject e mo _ h := by
    obtain ⟨s, low, force, mo', heq, -⟩ := injectEos_eq e mo
    rw [heq]; exact h

/-- Finalising adds no average. -/
lemma Finishes.mem_traceAvgScores {mo : ModelRunnerOutput} {fin : List ReqId} {x : ReqId}
    (h : Finishes cfg so mo fin e e') (hx : x ∈ e'.traceAvgScores cfg) :
    x ∈ e.traceAvgScores cfg := by
  have hz := h.finalized
  by_cases hf : x ∈ fin
  · exfalso
    have h1 := hz.traceScores x
    have h2 := hz.traceScoreCounts x
    rw [if_pos hf, Dict.get?_eq_none] at h1 h2
    exact (EngineCore.mem_traceAvgScores hx).elim h1 h2
  · refine (mem_traceAvgScores_congr ?_ ?_ ?_).1 hx
    · rw [hz.traceScores, if_neg hf]
    · rw [hz.traceScoreSums, if_neg hf]
    · rw [hz.traceScoreCounts, if_neg hf]

/-- The end of a step loses no node. -/
lemma Finishes.mem_tree {mo : ModelRunnerOutput} {fin : List ReqId} {x : ReqId}
    (h : Finishes cfg so mo fin e e') (hx : x ∈ e.traceTree) : x ∈ e'.traceTree := by
  refine h.tree (fun t => x ∈ t) (fun t rid _ score tokens ht => ?_) hx
  obtain ⟨n, hn⟩ := TraceTree.mem_iff_getNode.1 ht
  obtain ⟨n', hn', -⟩ := (onRequestFinished_flags rid score tokens).1 x n hn
  exact TraceTree.mem_of_getNode hn'

/-- The idle branch loses no node. -/
lemma mem_idleCleanup {x : ReqId} (hx : x ∈ e.traceTree) : x ∈ (e.idleCleanup cfg).traceTree := by
  unfold idleCleanup
  split
  · obtain ⟨n, hn⟩ := TraceTree.mem_iff_getNode.1 hx
    obtain ⟨n', hn', -⟩ := flagsLE_foldl_markPruned _ e.traceTree x n hn
    exact TraceTree.mem_of_getNode hn'
  · exact hx

/-- The idle branch touches the statuses of the traces only. -/
lemma idleCleanup_frame (cfg : VllmConfig) (e : EngineCore μ) : ∃ t low force,
    e.idleCleanup cfg =
      { e with traceTree := t, pendingLowScoreStops := low, pendingForceStops := force } := by
  unfold idleCleanup
  split
  · exact ⟨_, _, _, rfl⟩
  · exact ⟨_, _, _, rfl⟩

/-- Every event keeps the traces with an average in the tree. -/
lemma Registered.handle {h : List Event} {ev : Event} (hr : Registered cfg e)
    (hb : Base cfg (h.filterMap Event.added) e) : Registered cfg (e.handle ops cfg ev) := by
  cases ev with
  | addRequest r =>
    refine hr.congr (fun x hx => ?_) fun x hx => ?_
    · simp only [EngineCore.handle, EngineCore.addRequest] at hx
      split at hx <;> exact hx
    · simp only [EngineCore.handle, EngineCore.addRequest]
      split
      · dsimp only
        split
        · exact TraceTree.mem_addRoot.2 (.inr hx)
        · exact hx
      · exact hx
  | abortRequests rids => exact hr
  | postStep drafts => exact hr
  | step i =>
    simp only [EngineCore.handle]
    cases hreq : e.scheduler.hasRequests with
    | true =>
      obtain ⟨e1, mo, fin, -, h1, -, -, -, -, -, hfin, -⟩ :=
        hb.step_stages ops hreq (phaseStages_registered (i := i)) hr
      exact h1.congr (fun x hx => hfin.mem_traceAvgScores hx) fun x hx => hfin.mem_tree hx
    | false =>
      rw [EngineCore.step, if_neg (by simp [hreq])]
      refine hr.congr (fun x hx => ?_) fun x hx => mem_idleCleanup hx
      obtain ⟨t, low, force, heq⟩ := idleCleanup_frame cfg { e with record := {} }
      rw [heq] at hx
      exact hx

end EngineCore

/-- In every reachable state the traces with an average are in the tree. -/
theorem registered_of_runs {μ β : Type} {ops : Caches μ β} {cfg : VllmConfig} {m : μ}
    {h : List Event} {o : List StepRecord} {e : EngineCore μ}
    (run : (engineMachine ops cfg m).Runs h o e) : EngineCore.Registered cfg e := by
  induction run with
  | init =>
    intro _ x hx
    rcases EngineCore.mem_traceAvgScores hx with hx | hx <;> exact absurd hx Dict.not_mem_empty
  | step run _ ih => exact ih.handle (base_of_runs run)

namespace EngineCore
variable {μ β : Type} {ops : Caches μ β} {cfg : VllmConfig} {i : StepInput} {e e' : EngineCore μ}
variable {added : List ReqId} {so : SchedulerOutput β} {avgs : Dict ReqId ℚ}

/-- Every live request and every trace of the reply in flight has a node. -/
structure Rooted (e : EngineCore μ) : Prop where
  live : ∀ rid ∈ e.scheduler.requests, rid ∈ e.traceTree
  inFlight : ∀ reply, e.asyncScorerFuture = some reply → ∀ rid, Answers reply rid → rid ∈ e.traceTree

/-- Every trace has its node, and the active ones are within the capacity. -/
structure Roomy (cfg : VllmConfig) (e : EngineCore μ) : Prop extends Rooted e where
  scored : Registered cfg e
  active : (e.activeCount : Int) ≤ cfg.capacity

/-- The same requests and averages in a tree that lost no node. -/
lemma Roomy.congr (h : Roomy cfg e) (ht : ∀ x ∈ e.traceTree, x ∈ e'.traceTree)
    (hl : ∀ x ∈ e'.scheduler.requests, x ∈ e.scheduler.requests)
    (hf : e'.asyncScorerFuture = e.asyncScorerFuture)
    (hs : ∀ x ∈ e'.traceAvgScores cfg, x ∈ e.traceAvgScores cfg)
    (ha : e'.activeCount ≤ e.activeCount) : Roomy cfg e' where
  live x hx := ht x (h.live x (hl x hx))
  inFlight reply hr x hx := ht x (h.inFlight reply (hf ▸ hr) x hx)
  scored := h.scored.congr hs ht
  active := le_trans (by exact_mod_cast ha) h.active

/-- A move keeps room: scored traces have their node, and branches are created below capacity. -/
lemma Roomy.move (h : Roomy cfg e) (hb : Base cfg added e) (hg : gambitEnabled cfg = true)
    (ha : AvgsOf cfg e avgs) (hm : Move cfg i avgs e e') : Roomy cfg e' := by
  have hreg := h.scored.move hb hm
  cases hm with
  | count | round => exact h.congr (fun _ => id) (fun _ => id) rfl (fun _ => id) le_rfl
  | register hs =>
    rename_i s
    have hin : s.1 ∈ e.traceTree := by
      obtain ⟨q, hq⟩ := Dict.mem_iff_get?.1 (List.mem_map_of_mem (f := Prod.fst) hs : s.1 ∈ avgs)
      exact h.scored hg s.1 (Dict.mem_of_get? (ha s.1 q hq))
    refine h.congr (fun x hx => mem_registerScore.2 (.inr hx)) (fun _ => id) rfl (fun _ => id) ?_
    rw [activeCount_registerScore, if_pos hin]
    exact le_rfl
  | pruneTested | pruneRanked | forceStop =>
    exact h.congr (fun x hx => TraceTree.mem_markPruned.2 hx) (fun _ => id) rfl (fun _ => id)
      (TraceTree.getActiveCount_markPruned_le _ _)
  | flush =>
    unfold flushHistories
    split
    · exact h
    · exact h.congr (fun _ => id) (fun _ => id) rfl (fun _ => id) le_rfl
  | branch parent =>
    have hc := hb.not_mem_tree parent
    obtain ⟨-, hle⟩ := createBranch_within cfg i e parent
    rw [hb.maxTraces] at hle
    have hact : ((e.createBranch cfg i parent).1.activeCount : Int) ≤ cfg.capacity :=
      hle.trans (max_le le_rfl h.active)
    rcases createBranch_cases cfg i e parent with
      heq | ⟨t, -, ht, heq⟩ | ⟨r, t, c, -, -, ht, hcr, heq⟩
    · rw [heq]; exact h
    · rw [heq] at hact hreg ⊢
      have hk : ∀ x ∈ e.traceTree, x ∈ t.removeTrace (e.traceTree.generateBranchId parent) :=
        fun x hx => (mem_removeTrace_addBranch ht hc).2 hx
      exact ⟨⟨fun x hx => hk x (h.live x hx), fun reply hr x hx => hk x (h.inFlight reply hr x hx)⟩,
        hreg, hact⟩
    · obtain ⟨ts, ss, cs, hadopt, -⟩ := adoptChild_eq cfg e t parent c r.allTokenIds
      obtain ⟨hid, -⟩ := createChildRequest_eq hcr
      rw [heq] at hact hreg ⊢
      rw [hadopt] at hact hreg ⊢
      have hk : ∀ x ∈ e.traceTree, x ∈ t := fun x hx => (mem_addBranch ht hc).2 (.inr hx)
      refine ⟨⟨fun x hx => ?_, fun reply hr x hx => hk x (h.inFlight reply hr x hx)⟩, hreg, hact⟩
      rcases Scheduler.mem_addRequest.1 hx with rfl | hx
      · exact (mem_addBranch ht hc).2 (.inl hid)
      · exact hk x (h.live x hx)

/-- The traces of the batch have nodes, and there is room. -/
def RoomyMid (cfg : VllmConfig) (so : SchedulerOutput β) (e : EngineCore μ) : Prop :=
  Roomy cfg e ∧ ∀ x ∈ so.numScheduledTokens, x ∈ e.traceTree

/-- The phases between `schedule` and the capture of tokens keep room. -/
lemma phaseRules_roomy : PhaseRules (μ := μ) cfg i added so (RoomyMid cfg so) where
  absorb e e' reply hb h hr habs hnone := by
    obtain ⟨hroom, hso⟩ := h
    have hans : ∀ x, Answers reply x → x ∈ e.traceTree := by
      intro x hx
      rcases hr with ⟨-, hfut⟩ | ⟨-, hdue⟩
      · exact hroom.inFlight reply hfut x hx
      · exact hso x (hdue x hx).2
    obtain ⟨hs, pend, fut, recorded, evaluated, rfl, -⟩ := habs
    refine ⟨⟨⟨hroom.live, fun reply' hr' => ?_⟩, fun hg x hx => ?_, hroom.active⟩, hso⟩
    · rw [hnone] at hr'; cases hr'
    · rcases mem_avgsWith (e := e) hx with hx | hx
      · exact hroom.scored hg x hx
      · exact hans x hx
  submit e e' _ h _ hs := by
    obtain ⟨hroom, hso⟩ := h
    obtain ⟨reply, _, ids, rfl, hans, hids⟩ := hs
    refine ⟨⟨⟨hroom.live, fun reply' hr' x hx => ?_⟩, hroom.scored, hroom.active⟩, hso⟩
    cases hr'
    exact hso x (hids x (hans x hx)).2
  label e scores _ h := by
    refine ⟨h.1.congr (fun _ => id) (fun x hx => ?_) rfl (fun _ => id) le_rfl, h.2⟩
    exact (Scheduler.relabels_updateTraceScores e.scheduler scores).mem.1 hx
  move e e' avgs hb h hg ha hm := by
    refine ⟨h.1.move hb hg ha hm, fun x hx => ?_⟩
    exact hm.mem_tree hb (h.2 x hx)
  drop e ids _ h := ⟨h.1.congr (fun _ => id) (fun _ => id) rfl (fun _ => id) le_rfl, h.2⟩
  trigger e mo _ h _ := by
    obtain ⟨tc, sl, heq, -⟩ := detectTriggers_eq cfg e mo
    rw [heq]
    exact ⟨h.1.congr (fun _ => id) (fun _ => id) rfl (fun _ => id) le_rfl, h.2⟩
  inject e mo _ h := by
    obtain ⟨s, low, force, mo', heq, hs, -⟩ := injectEos_eq e mo
    rw [heq]
    exact ⟨h.1.congr (fun _ => id) (fun x hx => hs.mem.1 hx) rfl (fun _ => id) le_rfl, h.2⟩

/-- Finalising a trace with a node adds no active one. -/
lemma onRequestFinished_activeCount_le {t : TraceTree} {rid : ReqId} (h : rid ∈ t)
    (score : Option ℚ) (tokens : Option (List Token)) :
    (onRequestFinished t rid score tokens).getActiveCount ≤ t.getActiveCount := by
  unfold onRequestFinished
  rw [TraceTree.ensureRoot, if_pos h]
  dsimp only
  split
  · exact (TraceTree.getActiveCount_setOutput _ _ _).le
  · exact TraceTree.getActiveCount_markCompleted_le _ _ _

/-- The end of a step keeps room. -/
lemma Roomy.finish {mo : ModelRunnerOutput} {fin : List ReqId} (h : Roomy cfg e)
    (hf : e.scheduler.finishedReqIds = []) (hfin : Finishes cfg so mo fin e e') : Roomy cfg e' := by
  refine h.congr (fun x hx => hfin.mem_tree hx) (fun x hx => hfin.live hx)
    hfin.finalized.asyncScorerFuture (fun x hx => hfin.mem_traceAvgScores hx) ?_
  refine (hfin.tree (fun t => (∀ x ∈ e.traceTree, x ∈ t) ∧ t.getActiveCount ≤ e.activeCount) ?_
    ⟨fun _ => id, le_rfl⟩).2
  rintro t rid hr score tokens ⟨hk, hle⟩
  have hin : rid ∈ t := hk rid (h.live rid (hfin.live_of_fin hf hr).2.1)
  refine ⟨fun x hx => ?_, (onRequestFinished_activeCount_le hin score tokens).trans hle⟩
  obtain ⟨n, hn⟩ := TraceTree.mem_iff_getNode.1 (hk x hx)
  obtain ⟨n', hn', -⟩ := (onRequestFinished_flags rid score tokens).1 x n hn
  exact TraceTree.mem_of_getNode hn'

/-- The idle branch keeps room. -/
lemma Roomy.idle (h : Roomy cfg e) : Roomy cfg (e.idleCleanup cfg) := by
  obtain ⟨t, low, force, heq⟩ := idleCleanup_frame cfg e
  refine h.congr (fun x hx => mem_idleCleanup hx) ?_ ?_ ?_ ?_
  · rw [heq]; exact fun _ => id
  · rw [heq]
  · rw [heq]; exact fun _ => id
  · unfold idleCleanup
    split
    · exact TraceTree.getActiveCount_foldl_markPruned_le _ _
    · exact le_rfl

/-- Every event but an added request keeps room. -/
lemma Roomy.handle {ev : Event} (h : Roomy cfg e) (hb : Base cfg added e)
    (hev : ev.added = none) : Roomy cfg (e.handle ops cfg ev) := by
  cases ev with
  | addRequest r => cases hev
  | abortRequests rids =>
    have hs := hb.wf.finishRequests ops rids .finishedAborted
    exact h.congr (fun _ => id) (fun x hx => hs.mem hx) rfl (fun _ => id) le_rfl
  | postStep drafts =>
    have hs := Scheduler.relabels_updateDraftTokenIds e.scheduler drafts
    exact h.congr (fun _ => id) (fun x hx => hs.mem.1 hx) rfl (fun _ => id) le_rfl
  | step i =>
    simp only [EngineCore.handle]
    cases hreq : e.scheduler.hasRequests with
    | true =>
      have hs : Scheduler.ScheduleSpec ops cfg e.scheduler
          (e.scheduler.schedule ops cfg i.grammarReady).1
          (e.scheduler.schedule ops cfg i.grammarReady).2 := hb.wf.schedule i.grammarReady
      have hstart : RoomyMid cfg (e.afterSchedule ops cfg i).2 (e.afterSchedule ops cfg i).1 :=
        ⟨h.congr (fun _ => id) (fun x hx => hs.evolves.mem hx) rfl (fun _ => id) le_rfl,
          fun x hx => h.live x (hs.scheduled x hx)⟩
      obtain ⟨e1, mo, fin, -, h1, hf, -, -, -, -, hfin, -⟩ :=
        hb.step_rule ops hreq phaseRules_roomy hstart
      exact h1.1.finish hf hfin
    | false =>
      rw [EngineCore.step, if_neg (by simp [hreq])]
      refine Roomy.idle ?_
      exact h.congr (fun _ => id) (fun _ => id) rfl (fun _ => id) le_rfl

end EngineCore

/-- Capacity: a decision step leaves at most the capacity active, or what was active before and the
scored traces it registered; and once every live request and every trace of the reply in flight has a
node and the active traces are within the capacity, they stay within it as long as no request is
added. -/
theorem active_within_capacity {μ β : Type} (ops : Caches μ β) (cfg : VllmConfig) (m : μ) :
    (∀ (e : EngineCore μ) (avgs : Dict ReqId ℚ) (i : StepInput),
      e.traceTree.maxTraces = cfg.capacity →
      ((e.decisionStep cfg i avgs).activeCount : Int) ≤
        max cfg.capacity (e.activeCount + (e.unregistered avgs).length)) ∧
    ∀ (h h' : List Event) (o o' : List StepRecord) (e e' : EngineCore μ),
      (engineMachine ops cfg m).Runs h o e → e.Rooted → (e.activeCount : Int) ≤ cfg.capacity →
      (engineMachine ops cfg m).Runs (h ++ h') o' e' → (∀ ev ∈ h', ev.added = none) →
      (e'.activeCount : Int) ≤ cfg.capacity := by
  refine ⟨fun e avgs i hmax => EngineCore.decisionStep_active_le hmax, ?_⟩
  intro h h' o o' e e' run hroot hact run' hadd
  have hroom : EngineCore.Roomy cfg e := ⟨hroot, registered_of_runs run, hact⟩
  have hroom' := run.continue run' hroom fun {k _ t ev} hrun _ hev ht =>
    ht.handle (base_of_runs hrun) (hadd ev hev)
  exact hroom'.active

/-- A tournament of a given capacity, long before its first round. -/
def pairSample (capacity : Int) : VllmConfig where
  gambit :=
    { enable := true
      enableBranching := true
      doubleNewLineTokenId := some [7]
      tournamentCapacity := capacity }
  scheduler := {}

/-- Two requests that reach a boundary in their first step. -/
def pairEvents (a b : ReqId) : List Event :=
  [.addRequest { requestId := a, promptTokenIds := [1, 2, 3] },
    .addRequest { requestId := b, promptTokenIds := [1, 2, 3] },
    .step (.ofSamples (fun _ => [7]) fun _ => 1)]

/-- A step that scores the boundaries of the step before. -/
def scoringEvent : Event := .step (.ofSamples (fun _ => [5]) fun _ => 1)

/-- Two roots at capacity stay two when they are scored. -/
theorem active_within_capacity_pair :
    ((((engineMachine .unbounded (pairSample 2) ()).exec
        (pairEvents "0_1".toList "1_1".toList ++ [scoringEvent])).2.activeCount : Nat) : Int) ≤ 2 ∧
      (((EngineCore.init (pairSample 2) ()).decisionStep (pairSample 2)
        (.ofSamples (fun _ => [5]) fun _ => 1) ∅).activeCount : Int) ≤ 2 := by
  obtain ⟨hstep, hrun⟩ := active_within_capacity .unbounded (pairSample 2) ()
  refine ⟨?_, hstep (.init (pairSample 2) ()) ∅ _ rfl⟩
  refine hrun _ _ _ _ _ _ (Machine.Runs.of_exec (by decide +kernel)) ⟨?_, ?_⟩ (by decide +kernel)
    (Machine.Runs.of_exec (by decide +kernel)) (by decide +kernel)
  · have hall : ∀ rid ∈ ((engineMachine .unbounded (pairSample 2) ()).exec
        (pairEvents "0_1".toList "1_1".toList)).2.scheduler.requests.keys,
        rid ∈ ((engineMachine .unbounded (pairSample 2) ()).exec
          (pairEvents "0_1".toList "1_1".toList)).2.traceTree := by decide +kernel
    exact hall
  · intro reply hr
    have hnone : ((engineMachine .unbounded (pairSample 2) ()).exec
        (pairEvents "0_1".toList "1_1".toList)).2.asyncScorerFuture = none := by decide +kernel
    rw [hnone] at hr
    cases hr

/-- Two scored traces without a node become two roots at a capacity of one, in a single decision step
and in a run to which no request is added any more. -/
theorem registering_exceeds_capacity :
    max (pairSample 1).capacity
        ((EngineCore.init (pairSample 1) ()).activeCount : Int) <
      ((EngineCore.init (pairSample 1) ()).decisionStep (pairSample 1)
        (.ofSamples (fun _ => [5]) fun _ => 1)
        (.ofKeys ["a".toList, "b".toList] (by decide) fun _ => 1)).activeCount ∧
    (engineMachine .unbounded (pairSample 1) ()).Runs
      (pairEvents "a".toList "b".toList ++ [scoringEvent])
      ((engineMachine .unbounded (pairSample 1) ()).exec
        (pairEvents "a".toList "b".toList ++ [scoringEvent])).1
      ((engineMachine .unbounded (pairSample 1) ()).exec
        (pairEvents "a".toList "b".toList ++ [scoringEvent])).2 ∧
    ((engineMachine .unbounded (pairSample 1) ()).exec
      (pairEvents "a".toList "b".toList)).2.activeCount ≤ (pairSample 1).capacity ∧
    scoringEvent.added = none ∧
    (pairSample 1).capacity < ((engineMachine .unbounded (pairSample 1) ()).exec
      (pairEvents "a".toList "b".toList ++ [scoringEvent])).2.activeCount := by
  refine ⟨by decide +kernel, Machine.Runs.of_exec (by decide +kernel), ?_⟩
  decide +kernel

end Gambit.Engine
