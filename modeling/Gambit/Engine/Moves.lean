import Gambit.Engine.Step
import Gambit.Sched.Spec
import Gambit.Trace.Flags

/-!
# Decisions as sequences of moves

`_gambit_decision_step` is a sequence of a few primitive moves: count the round, register a scored
trace, prune a trace, force it to stop, start a tournament round, branch a trace, send the collected
histories. `Move` lists them with what the code has checked when it makes them, and
`decisionStep_moves` shows that the whole step is such a sequence. A property of the engine that
every move keeps is thus kept by every decision step, in either mode, with or without the
random-branch ablation (`Moves.induct`).
-/

namespace Gambit.Engine
open Gambit.Lib Gambit.Sched Gambit.Trace

namespace EngineCore
variable {μ : Type} {cfg : VllmConfig} {i : StepInput} {avgs : Dict ReqId ℚ} {e e' : EngineCore μ}

/-- The test by which a scored trace is pruned without a look at its node: the hard floor of the
tournament, or the threshold test. -/
def pruneTest (cfg : VllmConfig) (e : EngineCore μ) (rid : ReqId) (avg : ℚ) : Prop :=
  if cfg.gambit.tournamentMode then
    cfg.gambit.tournamentWarmupTokens ≤ (e.tokenCount rid : Int) ∧
      avg < cfg.gambit.tournamentHardFloor
  else
    cfg.gambit.minTokensBeforePrune ≤ (e.tokenCount rid : Int) ∧ avg < cfg.gambit.thetaPrune

/-- A primitive move of a decision step with the averages `avgs`. -/
inductive Move (cfg : VllmConfig) (i : StepInput) (avgs : Dict ReqId ℚ) :
    EngineCore μ → EngineCore μ → Prop where
  | count (e : EngineCore μ) : Move cfg i avgs e e.countRound
  | register (e : EngineCore μ) {s} : s ∈ avgs.entries → Move cfg i avgs e (registerScore cfg e s)
  | pruneTested (e : EngineCore μ) {rid avg} :
    avgs.get? rid = some avg →
    e.pruneTest cfg rid avg →
    e.shouldStopAfterCompleted cfg = false →
    Move cfg i avgs e (e.pruneTrace rid)
  | pruneRanked (e : EngineCore μ) {rid n} :
    rid ∈ avgs →
    e.traceTree.getNode rid = some n →
    n.isActive ∨ n.isPruned →
    Move cfg i avgs e (e.pruneTrace rid)
  | forceStop (e : EngineCore μ) {rid n} :
    e.traceTree.getNode rid = some n →
    n.isActive →
    Move cfg i avgs e (e.forceStopTrace rid)
  | round (e : EngineCore μ) :
    Move cfg i avgs e { e with tournamentLastRoundStep := e.tournamentStepCounter }
  | branch (e : EngineCore μ) (rid : ReqId) : Move cfg i avgs e (e.createBranch cfg i rid).1
  | flush (e : EngineCore μ) : Move cfg i avgs e e.flushHistories

/-- A sequence of moves. -/
abbrev Moves (cfg : VllmConfig) (i : StepInput) (avgs : Dict ReqId ℚ) :
    EngineCore μ → EngineCore μ → Prop :=
  Relation.ReflTransGen (Move cfg i avgs)

/-- What every move keeps is kept by a sequence of moves. -/
lemma Moves.induct {P : EngineCore μ → Prop} (hm : Moves cfg i avgs e e')
    (step : ∀ e e', Move cfg i avgs e e' → P e → P e') (h : P e) : P e' := by
  induction hm with
  | refl => exact h
  | tail _ hmove ih => exact step _ _ hmove ih

/-- Whether the completion limit is reached depends on the completed traces only. -/
lemma shouldStopAfterCompleted_congr
    (h : e'.traceTree.getCompletedCount = e.traceTree.getCompletedCount) :
    e'.shouldStopAfterCompleted cfg = e.shouldStopAfterCompleted cfg := by
  unfold shouldStopAfterCompleted
  rw [h]

/-- Pruning traces that pass the prune test. -/
lemma pruneAll_tested {l : List ReqId} (hs : e.shouldStopAfterCompleted cfg = false)
    (h : ∀ rid ∈ l, ∃ avg, avgs.get? rid = some avg ∧ e.pruneTest cfg rid avg) :
    Moves cfg i avgs e (e.pruneAll l) := by
  induction l generalizing e with
  | nil => exact .refl
  | cons rid l ih =>
    obtain ⟨avg, ha, ht⟩ := h rid List.mem_cons_self
    refine .head (.pruneTested e ha ht hs) (ih ?_ fun x hx => h x (.tail _ hx))
    rw [shouldStopAfterCompleted_congr (getCompletedCount_markPruned e.traceTree rid)]
    exact hs

/-- The node of a trace is active or pruned. -/
def ActiveOrPruned (e : EngineCore μ) (rid : ReqId) : Prop :=
  ∃ n, e.traceTree.getNode rid = some n ∧ (n.isActive ∨ n.isPruned)

/-- Pruning makes no node completed. -/
lemma ActiveOrPruned.pruneTrace {rid : ReqId} (h : e.ActiveOrPruned rid) (x : ReqId) :
    (e.pruneTrace x).ActiveOrPruned rid := by
  obtain ⟨n, hn, hf⟩ := h
  have hget := TraceTree.getNode_markPruned e.traceTree x rid
  rw [hn] at hget
  by_cases hx : rid = x
  · rw [if_pos hx] at hget
    exact ⟨_, hget, .inr rfl⟩
  · rw [if_neg hx] at hget
    exact ⟨n, hget, hf⟩

/-- Pruning ranked traces, and what is still true of the others. -/
lemma pruneAll_ranked {l : List ReqId} (h : ∀ rid ∈ l, rid ∈ avgs ∧ e.ActiveOrPruned rid) :
    Moves cfg i avgs e (e.pruneAll l) := by
  induction l generalizing e with
  | nil => exact .refl
  | cons rid l ih =>
    obtain ⟨hm, n, hn, hf⟩ := h rid List.mem_cons_self
    refine .head (.pruneRanked e hm hn hf) (ih ?_)
    intro x hx
    exact ⟨(h x (.tail _ hx)).1, (h x (.tail _ hx)).2.pruneTrace rid⟩

lemma ActiveOrPruned.pruneAll {rid : ReqId} (h : e.ActiveOrPruned rid) (l : List ReqId) :
    (e.pruneAll l).ActiveOrPruned rid := by
  induction l generalizing e with
  | nil => exact h
  | cons x l ih => exact ih (h.pruneTrace x)

/-- A node found active is active in the tree. -/
lemma any_isActive {t : TraceTree} {rid : ReqId} (h : (t.getNode rid).any (·.isActive) = true) :
    ∃ n, t.getNode rid = some n ∧ n.isActive = true := by
  cases hn : t.getNode rid with
  | none => simp [hn] at h
  | some n => exact ⟨n, rfl, by simpa [hn] using h⟩

/-- The ranked traces are scored and active. -/
lemma mem_activeTraces {s : ℚ × ReqId} (h : s ∈ sortByScore (e.activeTraces avgs)) :
    s.2 ∈ avgs ∧ e.ActiveOrPruned s.2 := by
  rw [sortByScore, List.mem_insertionSort] at h
  obtain ⟨a, ha, rfl⟩ := List.mem_map.1 h
  obtain ⟨hm, hf⟩ := List.mem_filter.1 ha
  simp only [decide_eq_true_eq] at hf
  obtain ⟨n, hn, hact⟩ := any_isActive hf.2
  exact ⟨List.mem_map_of_mem (f := Prod.fst) hm, n, hn, .inl hact⟩

/-- Branching within the capacity. -/
lemma branchWithin_moves (capacity : Int) (l : List (ℚ × ReqId)) :
    Moves cfg i avgs e (e.branchWithin cfg i capacity l) := by
  induction l generalizing e with
  | nil => exact .refl
  | cons s l ih =>
    rw [branchWithin]
    split
    · exact .refl
    · exact .head (.branch e s.2) ih

/-- Forcing distinct active traces to stop. -/
lemma forceStop_moves {l : List ReqId} (nd : l.Nodup)
    (h : ∀ rid ∈ l, ∃ n, e.traceTree.getNode rid = some n ∧ n.isActive) :
    Moves cfg i avgs e (l.foldl forceStopTrace e) := by
  induction l generalizing e with
  | nil => exact .refl
  | cons rid l ih =>
    obtain ⟨hn, nd⟩ := List.nodup_cons.1 nd
    obtain ⟨n, hget, hact⟩ := h rid List.mem_cons_self
    refine .head (.forceStop e hget hact) (ih nd ?_)
    intro x hx
    obtain ⟨n', hget', hact'⟩ := h x (.tail _ hx)
    have hne : x ≠ rid := fun he => hn (he ▸ hx)
    refine ⟨n', ?_, hact'⟩
    have := TraceTree.getNode_markPruned e.traceTree rid x
    rw [if_neg hne, hget'] at this
    exact this

/-- The last elements of a list are elements. -/
lemma mem_of_mem_lastN {α : Type} {l : List α} {k : Nat} {a : α} (h : a ∈ lastN l k) : a ∈ l :=
  List.mem_of_mem_drop h

/-- The swap of a round. -/
lemma swap_moves {active candidates : List (ℚ × ReqId)}
    (h : ∀ s ∈ active, s.2 ∈ avgs ∧ e.ActiveOrPruned s.2) :
    Moves cfg i avgs e (e.swap cfg i active candidates) := by
  unfold swap
  dsimp only
  split
  · exact .refl
  · refine .trans (pruneAll_ranked ?_) (branchWithin_moves ..)
    intro rid hrid
    obtain ⟨s, hs, rfl⟩ := List.mem_map.1 hrid
    exact h s (mem_of_mem_lastN hs)

/-- A tournament round. -/
lemma tournamentRound_moves : Moves cfg i avgs e (e.tournamentRound cfg i avgs) := by
  unfold tournamentRound
  refine .head (.round e) ?_
  generalize ({ e with tournamentLastRoundStep := e.tournamentStepCounter } : EngineCore μ) = e
  dsimp only
  split
  · exact .refl
  split
  · exact branchWithin_moves ..
  unfold trimAndSwap
  dsimp only
  have hact : ∀ s ∈ sortByScore (e.activeTraces avgs), s.2 ∈ avgs ∧ e.ActiveOrPruned s.2 :=
    fun s hs => mem_activeTraces hs
  split
  · exact swap_moves hact
  · refine .trans (pruneAll_ranked ?_) (swap_moves ?_)
    · intro rid hrid
      obtain ⟨s, hs, rfl⟩ := List.mem_map.1 hrid
      exact hact s (mem_of_mem_lastN hs)
    · intro s hs
      obtain ⟨hm, hf⟩ := hact s (List.mem_of_mem_take hs)
      exact ⟨hm, hf.pruneAll _⟩

/-- The tournament step. -/
lemma tournamentStep_moves (hmode : cfg.gambit.tournamentMode = true)
    (hs : e.shouldStopAfterCompleted cfg = false) :
    Moves cfg i avgs e (e.tournamentStep cfg i avgs) := by
  unfold tournamentStep
  have hfloor : Moves cfg i avgs e (e.pruneAll (e.belowHardFloor cfg avgs)) := by
    refine pruneAll_tested hs fun rid hrid => ?_
    obtain ⟨s, hs, rfl⟩ := List.mem_map.1 hrid
    obtain ⟨hm, hf⟩ := List.mem_filter.1 hs
    simp only [decide_eq_true_eq] at hf
    exact ⟨s.2, Dict.get?_eq_some.2 hm, by rw [pruneTest, if_pos hmode]; exact hf.2⟩
  dsimp only
  split
  · exact hfloor.trans tournamentRound_moves
  · exact hfloor

/-- The threshold step. -/
lemma thresholdStep_moves (hmode : cfg.gambit.tournamentMode = false)
    (hs : e.shouldStopAfterCompleted cfg = false) :
    Moves cfg i avgs e (e.thresholdStep cfg i avgs) := by
  unfold thresholdStep
  refine .trans (pruneAll_tested hs fun rid hrid => ?_) (branchWithin_moves ..)
  obtain ⟨s, hs, rfl⟩ := List.mem_map.1 hrid
  obtain ⟨hm, hf⟩ := List.mem_filter.1 hs
  refine ⟨s.2, Dict.get?_eq_some.2 hm, ?_⟩
  rw [pruneTest, if_neg (by simp [hmode])]
  unfold shouldPruneThreshold at hf
  split at hf
  · cases hf
  · next hmin =>
    split at hf
    · cases hf
    · exact ⟨by omega, by simpa using hf⟩

/-- The loop that registers the scored traces. -/
lemma register_moves {l : List (ReqId × ℚ)} (h : ∀ s ∈ l, s ∈ avgs.entries) :
    Moves cfg i avgs e (l.foldl (registerScore cfg) e) := by
  induction l generalizing e with
  | nil => exact .refl
  | cons s l ih =>
    exact .head (.register e (h s List.mem_cons_self)) (ih fun x hx => h x (.tail _ hx))

/-- The state of a decision step once all scored traces are registered. -/
def registered (cfg : VllmConfig) (e : EngineCore μ) (avgs : Dict ReqId ℚ) : EngineCore μ :=
  avgs.entries.foldl (registerScore cfg) e.countRound

/-- The first part of a decision step is a sequence of moves. -/
lemma registered_moves (e : EngineCore μ) (avgs : Dict ReqId ℚ) :
    Moves cfg i avgs e (e.registered cfg avgs) :=
  .head (.count e) (register_moves fun _ hs => hs)

/-- The decision step is a sequence of moves that goes on from the registered traces. -/
theorem decisionStep_moves (e : EngineCore μ) (avgs : Dict ReqId ℚ) :
    Moves cfg i avgs (e.registered cfg avgs) (e.decisionStep cfg i avgs) := by
  unfold decisionStep registered
  generalize avgs.entries.foldl (registerScore cfg) e.countRound = e
  dsimp only
  split
  · refine forceStop_moves ?_ ?_
    · exact e.traceTree.nodes.nodup.sublist (List.Sublist.map _ List.filter_sublist)
    · intro rid hrid
      obtain ⟨x, hx, rfl⟩ := List.mem_map.1 hrid
      obtain ⟨hm, hf⟩ := List.mem_filter.1 hx
      simp only [decide_eq_true_eq] at hf
      exact ⟨x.2, Dict.get?_eq_some.2 hm, hf.1⟩
  · next hs =>
    rw [Bool.not_eq_true] at hs
    refine .tail ?_ (.flush _)
    cases hmode : cfg.gambit.tournamentMode with
    | true => simpa using tournamentStep_moves hmode hs
    | false => simpa using thresholdStep_moves hmode hs

/-- What `_gambit_create_branch` can do: nothing, a failed build that leaves the parent marked as
branched, or a child. -/
lemma createBranch_cases (cfg : VllmConfig) (i : StepInput) (e : EngineCore μ) (parent : ReqId) :
    (e.createBranch cfg i parent).1 = e ∨
    (∃ t, e.traceTree.canTraceBranch parent (e.tokenCount parent) = true ∧
      e.traceTree.addBranch parent (e.traceTree.generateBranchId parent)
        (e.gambitOutputTokenIds.getD parent []).length = some t ∧
      (e.createBranch cfg i parent).1 =
        { e.logDecision (.branchFailed parent (e.traceTree.generateBranchId parent)) with
          traceTree := t.removeTrace (e.traceTree.generateBranchId parent) }) ∨
    (∃ r t c, e.traceTree.canTraceBranch parent (e.tokenCount parent) = true ∧
      e.scheduler.requests.get? parent = some r ∧
      e.traceTree.addBranch parent (e.traceTree.generateBranchId parent)
        (e.gambitOutputTokenIds.getD parent []).length = some t ∧
      createChildRequest cfg i r t.branchCounter (e.traceTree.generateBranchId parent) = some c ∧
      (e.createBranch cfg i parent).1 = e.adoptChild cfg t parent c r.allTokenIds) := by
  unfold createBranch
  split
  · exact .inl rfl
  split
  · exact .inl rfl
  next hcan =>
  rw [Bool.not_eq_false] at hcan
  split
  · exact .inl rfl
  next r hr =>
  dsimp only
  split
  · exact .inl rfl
  next t ht =>
  split
  · exact .inr (.inl ⟨t, hcan, ht, rfl⟩)
  · next c hc => exact .inr (.inr ⟨r, t, c, hcan, hr, ht, hc, rfl⟩)

/-- The child request: its id, the parent's tokens as prompt, and a fresh start. -/
lemma createChildRequest_eq {r c : Request} {counter : Nat} {child : ReqId}
    (h : createChildRequest cfg i r counter child = some c) :
    c.requestId = child ∧ c.promptTokenIds = r.allTokenIds ∧ c.outputTokenIds = [] ∧
      c.status = Request.initialStatus c.samplingParams ∧ c.numComputedTokens = 0 ∧
      c.specTokenIds = [] ∧ c.traceAvgScore = none ∧ c.eosTokenId = r.eosTokenId := by
  unfold createChildRequest at h
  split at h
  · cases h
  · cases h
    exact ⟨rfl, rfl, rfl, rfl, rfl, rfl, rfl, rfl⟩

/-- Copying the scores touches the score state of the child only. -/
lemma copyScores_eq (cfg : VllmConfig) (e : EngineCore μ) (parent child : ReqId) :
    ∃ ts ss cs, e.copyScores cfg parent child =
      { e with traceScores := ts, traceScoreSums := ss, traceScoreCounts := cs } ∧
      ∀ x, x ≠ child → ts.get? x = e.traceScores.get? x ∧ ss.get? x = e.traceScoreSums.get? x ∧
        cs.get? x = e.traceScoreCounts.get? x := by
  unfold copyScores
  split
  · split
    · refine ⟨_, _, _, rfl, fun x hx => ⟨rfl, ?_, ?_⟩⟩ <;> rw [Dict.get?_set, if_neg hx]
    · exact ⟨_, _, _, rfl, fun x _ => ⟨rfl, rfl, rfl⟩⟩
  · split
    · exact ⟨_, _, _, rfl, fun x _ => ⟨rfl, rfl, rfl⟩⟩
    · refine ⟨_, _, _, rfl, fun x hx => ⟨?_, rfl, rfl⟩⟩
      rw [Dict.get?_set, if_neg hx]

/-- What adopting a child changes. -/
lemma adoptChild_eq (cfg : VllmConfig) (e : EngineCore μ) (t : TraceTree) (parent : ReqId)
    (c : Request) (tokens : List Token) :
    ∃ ts ss cs, e.adoptChild cfg t parent c tokens =
      { e with
        traceTree := t
        scheduler := e.scheduler.addRequest cfg.policy c
        traceScores := ts
        traceScoreSums := ss
        traceScoreCounts := cs
        traceTokenCounts := e.traceTokenCounts.set c.requestId 0
        strideLastTrigger := e.strideLastTrigger.set c.requestId 0
        seqHsToCopy := e.seqHsToCopy ++ [(parent, c.requestId)]
        gambitOutputTokenIds := e.gambitOutputTokenIds.set c.requestId
          (e.gambitOutputTokenIds.getD parent [])
        record := { e.record with
          decisions := e.record.decisions ++ [.branch parent c.requestId tokens] } } ∧
      ∀ x, x ≠ c.requestId → ts.get? x = e.traceScores.get? x ∧
        ss.get? x = e.traceScoreSums.get? x ∧ cs.get? x = e.traceScoreCounts.get? x := by
  obtain ⟨ts, ss, cs, heq, h⟩ := copyScores_eq cfg
    { e.logDecision (.branch parent c.requestId tokens) with
      traceTree := t
      scheduler := e.scheduler.addRequest cfg.policy c
      seqHsToCopy := e.seqHsToCopy ++ [(parent, c.requestId)] } parent c.requestId
  refine ⟨ts, ss, cs, ?_, h⟩
  unfold adoptChild
  dsimp only
  rw [heq]
  rfl

end EngineCore
end Gambit.Engine
