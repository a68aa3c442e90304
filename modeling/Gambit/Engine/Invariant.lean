import Gambit.Engine.Phases

/-!
# The engine's invariant

`Base` holds in every reachable state: the scheduler is well formed, and every id the engine knows
about was issued, that is, added from outside or generated for a branch below the branch counter. So
the next branch id is new everywhere.

`PhaseRules P` collects what the phases between `schedule` and the capture of tokens must keep for
`P` to survive them; `Base` is available in each. `Base` itself is shown to survive the whole step and
the other events, hence every run (`base_of_runs`).
-/

namespace Gambit.Engine
open Gambit.Lib Gambit.Sched Gambit.Trace

namespace EngineCore
variable {μ β : Type} {ops : Caches μ β} {cfg : VllmConfig} {i : StepInput} {e e' : EngineCore μ}
variable {added : List ReqId} {so : SchedulerOutput β} {avgs : Dict ReqId ℚ}

/-- An id the engine issued or was given. -/
abbrev Known (added : List ReqId) (e : EngineCore μ) (rid : ReqId) : Prop :=
  Issued added e.traceTree.branchCounter rid

/-- The invariant of the engine after the requests `added` came from outside. -/
structure Base (cfg : VllmConfig) (added : List ReqId) (e : EngineCore μ) : Prop where
  external : ∀ rid ∈ added, ¬ "gambit_".toList <+: rid
  wf : e.scheduler.WF
  live : ∀ rid ∈ e.scheduler.requests, e.Known added rid
  tree : ∀ rid ∈ e.traceTree, e.Known added rid
  scored : ∀ rid, rid ∈ e.traceScores ∨ rid ∈ e.traceScoreCounts → e.Known added rid
  pending : ∀ rid ∈ e.pendingHsClassification, e.Known added rid
  inFlight : ∀ reply, e.asyncScorerFuture = some reply → ∀ rid, Answers reply rid →
    e.Known added rid
  sync : cfg.asyncScorer = false → e.asyncScorerFuture = none
  maxTraces : e.traceTree.maxTraces = cfg.capacity

/-- The next branch id was not issued. -/
lemma Base.not_known (h : Base cfg added e) (parent : ReqId) :
    ¬ e.Known added (e.traceTree.generateBranchId parent) :=
  not_issued_branchId h.external

/-- The next branch id is new in the tree. -/
lemma Base.not_mem_tree (h : Base cfg added e) (parent : ReqId) :
    e.traceTree.generateBranchId parent ∉ e.traceTree :=
  fun hm => h.not_known parent (h.tree _ hm)

/-- The next branch id is new in the scheduler. -/
lemma Base.not_live (h : Base cfg added e) (parent : ReqId) :
    e.traceTree.generateBranchId parent ∉ e.scheduler.requests :=
  fun hm => h.not_known parent (h.live _ hm)

/-- A state with another scheduler, fewer ids and the same tree. -/
lemma Base.congr (h : Base cfg added e) (hwf : e'.scheduler.WF)
    (hlive : ∀ rid ∈ e'.scheduler.requests, rid ∈ e.scheduler.requests)
    (ht : e'.traceTree = e.traceTree)
    (hs : ∀ rid, rid ∈ e'.traceScores ∨ rid ∈ e'.traceScoreCounts → e.Known added rid)
    (hp : ∀ rid ∈ e'.pendingHsClassification, e.Known added rid)
    (hf : ∀ reply, e'.asyncScorerFuture = some reply → ∀ rid, Answers reply rid →
      e.Known added rid)
    (hsync : cfg.asyncScorer = false → e'.asyncScorerFuture = none) : Base cfg added e' where
  external := h.external
  wf := hwf
  live rid hm := by rw [Known, ht]; exact h.live rid (hlive rid hm)
  tree rid hm := by rw [ht] at hm; rw [Known, ht]; exact h.tree rid hm
  scored rid hm := by rw [Known, ht]; exact hs rid hm
  pending rid hm := by rw [Known, ht]; exact hp rid hm
  inFlight reply hr rid hm := by rw [Known, ht]; exact hf reply hr rid hm
  sync := hsync
  maxTraces := ht ▸ h.maxTraces

/-- The averages depend on the score state only. -/
lemma get?_traceAvgScores_congr {x : ReqId} (ht : e'.traceScores.get? x = e.traceScores.get? x)
    (hs : e'.traceScoreSums.get? x = e.traceScoreSums.get? x)
    (hc : e'.traceScoreCounts.get? x = e.traceScoreCounts.get? x) :
    (e'.traceAvgScores cfg).get? x = (e.traceAvgScores cfg).get? x := by
  unfold traceAvgScores
  split
  · rw [Dict.get?_filterMap, Dict.get?_filterMap, ht]
  · rw [Dict.get?_filterMap, Dict.get?_filterMap, hc, Dict.getD_eq, Dict.getD_eq, hs]

/-- The averages of a decision are those of the state. -/
def AvgsOf (cfg : VllmConfig) (e : EngineCore μ) (avgs : Dict ReqId ℚ) : Prop :=
  ∀ x q, avgs.get? x = some q → (e.traceAvgScores cfg).get? x = some q

/-- A scored trace is known. -/
lemma Base.known_of_avgs (h : Base cfg added e) (ha : AvgsOf cfg e avgs) {x : ReqId}
    (hx : x ∈ avgs) : e.Known added x := by
  obtain ⟨q, hq⟩ := Dict.mem_iff_get?.1 hx
  exact h.scored x (mem_traceAvgScores (Dict.mem_of_get? (ha x q hq)))

/-- A state with another tree of the same ids and counter, and the same other ids. -/
lemma Base.retree (h : Base cfg added e) {t : TraceTree}
    (ht : ∀ rid ∈ t, rid ∈ e.traceTree ∨ e.Known added rid)
    (hn : t.branchCounter = e.traceTree.branchCounter) (hm : t.maxTraces = e.traceTree.maxTraces)
    (he : e'.traceTree = t) (hs : e'.scheduler = e.scheduler)
    (hts : e'.traceScores = e.traceScores) (htc : e'.traceScoreCounts = e.traceScoreCounts)
    (hp : e'.pendingHsClassification = e.pendingHsClassification)
    (hf : e'.asyncScorerFuture = e.asyncScorerFuture) : Base cfg added e' where
  external := h.external
  wf := hs ▸ h.wf
  live rid hr := by rw [Known, he, hn]; exact h.live rid (hs ▸ hr)
  tree rid hr := by
    rw [Known, he, hn]
    exact (ht rid (he ▸ hr)).elim (h.tree rid) id
  scored rid hr := by rw [Known, he, hn]; exact h.scored rid (by rwa [hts, htc] at hr)
  pending rid hr := by rw [Known, he, hn]; exact h.pending rid (hp ▸ hr)
  inFlight reply hr rid ha := by rw [Known, he, hn]; exact h.inFlight reply (hf ▸ hr) rid ha
  sync hsync := hf ▸ h.sync hsync
  maxTraces := by rw [he, hm]; exact h.maxTraces

/-- The ids of a tree after a branch under a new id. -/
lemma mem_addBranch {t t' : TraceTree} {parent child x : ReqId} {len : Nat}
    (h : t.addBranch parent child len = some t') (hc : child ∉ t) :
    x ∈ t' ↔ x = child ∨ x ∈ t := by
  obtain ⟨p, hp, hx⟩ := TraceTree.getNode_addBranch h hc
  rw [TraceTree.mem_iff_getNode, hx]
  split
  · next e => simp [e]
  · split
    · next e => simp [e, TraceTree.mem_of_getNode hp]
    · next e _ => simp [e, TraceTree.mem_iff_getNode]

/-- The ids of a tree after a failed branch. -/
lemma mem_removeTrace_addBranch {t t' : TraceTree} {parent child x : ReqId} {len : Nat}
    (h : t.addBranch parent child len = some t') (hc : child ∉ t) :
    x ∈ t'.removeTrace child ↔ x ∈ t := by
  obtain ⟨p, hp, hx⟩ := TraceTree.getNode_removeTrace_addBranch h hc
  rw [TraceTree.mem_iff_getNode, hx]
  split
  · next e => simp [e, TraceTree.mem_of_getNode hp]
  · simp [TraceTree.mem_iff_getNode]

/-- Registering a score loses no node, and adds the trace. -/
lemma mem_registerScore {s : ReqId × ℚ} {x : ReqId} :
    x ∈ (registerScore cfg e s).traceTree ↔ x = s.1 ∨ x ∈ e.traceTree := by
  rw [← TraceTree.mem_ensureRoot]
  unfold registerScore
  dsimp only
  split
  · exact TraceTree.mem_recordScore
  · rfl

/-- The register loop adds the traces it registers. -/
lemma mem_registered {x : ReqId} :
    x ∈ (registered cfg e avgs).traceTree ↔ x ∈ avgs ∨ x ∈ e.traceTree := by
  have fold : ∀ (l : List (ReqId × ℚ)) (e : EngineCore μ),
      x ∈ (l.foldl (registerScore cfg) e).traceTree ↔ x ∈ l.map Prod.fst ∨ x ∈ e.traceTree := by
    intro l
    induction l with
    | nil => simp
    | cons s l ih =>
      intro e
      rw [List.foldl_cons, ih, mem_registerScore, List.map_cons, List.mem_cons]
      tauto
  exact fold avgs.entries e.countRound

/-- The register loop does not touch the averages. -/
lemma traceAvgScores_registered (e : EngineCore μ) (avgs : Dict ReqId ℚ) :
    (registered cfg e avgs).traceAvgScores cfg = e.traceAvgScores cfg := by
  have fold : ∀ (l : List (ReqId × ℚ)) (e : EngineCore μ),
      (l.foldl (registerScore cfg) e).traceAvgScores cfg = e.traceAvgScores cfg := by
    intro l
    induction l with
    | nil => exact fun _ => rfl
    | cons s l ih => exact fun e => ih _
  exact fold avgs.entries e.countRound

/-- A move keeps the invariant, and the averages of the traces scored before. -/
lemma Base.move (h : Base cfg added e) (ha : AvgsOf cfg e avgs) (hm : Move cfg i avgs e e') :
    Base cfg added e' ∧ AvgsOf cfg e' avgs ∧
      e.traceTree.branchCounter ≤ e'.traceTree.branchCounter := by
  cases hm with
  | count =>
    refine ⟨h.retree (t := e.traceTree.incrementStep) ?_ rfl rfl rfl rfl rfl rfl rfl rfl, ha, le_rfl⟩
    exact fun rid hr => .inl hr
  | register hs =>
    rename_i s
    have hk : e.Known added s.1 := h.known_of_avgs ha (List.mem_map_of_mem (f := Prod.fst) hs)
    have ht : ∀ rid ∈ (registerScore cfg e s).traceTree, rid ∈ e.traceTree ∨ e.Known added rid :=
      fun rid hr => (mem_registerScore.1 hr).elim (fun h => .inr (h ▸ hk)) .inl
    have hn : (registerScore cfg e s).traceTree.branchCounter = e.traceTree.branchCounter ∧
        (registerScore cfg e s).traceTree.maxTraces = e.traceTree.maxTraces := by
      obtain ⟨h1, h2, -⟩ := e.traceTree.ensureRoot_frame s.1
      unfold registerScore
      dsimp only
      split <;> exact ⟨h1, h2⟩
    exact ⟨h.retree ht hn.1 hn.2 rfl rfl rfl rfl rfl rfl, ha, hn.1.ge⟩
  | forceStop =>
    rename_i rid _ _ _
    refine ⟨h.retree (t := e.traceTree.markPruned rid) ?_ rfl rfl rfl rfl rfl rfl rfl rfl, ha, le_rfl⟩
    exact fun x hx => .inl (TraceTree.mem_markPruned.1 hx)
  | pruneTested | pruneRanked =>
    rename_i rid _ _ _ _
    refine ⟨h.retree (t := e.traceTree.markPruned rid) ?_ rfl rfl rfl rfl rfl rfl rfl rfl, ha, le_rfl⟩
    exact fun x hx => .inl (TraceTree.mem_markPruned.1 hx)
  | round =>
    refine ⟨h.retree (t := e.traceTree) ?_ rfl rfl rfl rfl rfl rfl rfl rfl, ha, le_rfl⟩
    exact fun rid hr => .inl hr
  | flush =>
    unfold flushHistories
    split
    · exact ⟨h, ha, le_rfl⟩
    · refine ⟨h.retree (t := e.traceTree) ?_ rfl rfl rfl rfl rfl rfl rfl rfl, ha, le_rfl⟩
      exact fun rid hr => .inl hr
  | branch parent =>
    have hc := h.not_mem_tree parent
    rcases createBranch_cases cfg i e parent with
      heq | ⟨t, -, ht, heq⟩ | ⟨r, t, c, -, hr, ht, hcr, heq⟩
    · rw [heq]; exact ⟨h, ha, le_rfl⟩
    · obtain ⟨hcnt, hmax, -, -⟩ := TraceTree.addBranch_frame ht
      rw [heq]
      refine ⟨⟨h.external, h.wf, ?_, ?_, ?_, ?_, ?_, h.sync, ?_⟩, ha, ?_⟩
      · exact fun rid hr => (h.live rid hr).mono (fun _ => id) (by simp [hcnt])
      · intro rid hr
        have := (mem_removeTrace_addBranch ht hc).1 hr
        exact (h.tree rid this).mono (fun _ => id) (by simp [hcnt])
      · exact fun rid hr => (h.scored rid hr).mono (fun _ => id) (by simp [hcnt])
      · exact fun rid hr => (h.pending rid hr).mono (fun _ => id) (by simp [hcnt])
      · exact fun reply hr rid hm => (h.inFlight reply hr rid hm).mono (fun _ => id) (by simp [hcnt])
      · simpa [hmax] using h.maxTraces
      · simp [hcnt]
    · obtain ⟨hcnt, hmax, -, -⟩ := TraceTree.addBranch_frame ht
      obtain ⟨hid, -, -, hst, -⟩ := createChildRequest_eq hcr
      obtain ⟨ts, ss, cs, hadopt, hget⟩ := adoptChild_eq cfg e t parent c r.allTokenIds
      rw [heq, hadopt]
      have hlt : e.traceTree.branchCounter ≤ t.branchCounter := by omega
      have hchild : Issued added t.branchCounter c.requestId :=
        .inr ⟨e.traceTree.branchCounter, parent, by omega, hid⟩
      have hnew : c.requestId ∉ e.scheduler.requests := by rw [hid]; exact h.not_live parent
      refine ⟨⟨h.external, h.wf.addRequest _ hnew hst, ?_, ?_, ?_, ?_, ?_, h.sync, ?_⟩, ?_, hlt⟩
      · intro rid hr
        rcases Scheduler.mem_addRequest.1 hr with rfl | hr
        · exact hchild
        · exact (h.live rid hr).mono (fun _ => id) hlt
      · intro rid hr
        rcases (mem_addBranch ht hc).1 hr with rfl | hr
        · rw [← hid]; exact hchild
        · exact (h.tree rid hr).mono (fun _ => id) hlt
      · intro rid hr
        by_cases hx : rid = c.requestId
        · rw [hx]; exact hchild
        · obtain ⟨h1, -, h3⟩ := hget rid hx
          refine (h.scored rid ?_).mono (fun _ => id) hlt
          rwa [Dict.mem_iff_get?, Dict.mem_iff_get?, h1, h3, ← Dict.mem_iff_get?,
            ← Dict.mem_iff_get?] at hr
      · exact fun rid hr => (h.pending rid hr).mono (fun _ => id) hlt
      · exact fun reply hr rid hm => (h.inFlight reply hr rid hm).mono (fun _ => id) hlt
      · exact hmax.trans h.maxTraces
      · intro x q hq
        have hx : x ≠ c.requestId := by
          intro hx
          exact h.not_known parent (hid ▸ hx ▸ h.known_of_avgs ha (Dict.mem_of_get? hq))
        obtain ⟨h1, h2, h3⟩ := hget x hx
        exact (get?_traceAvgScores_congr h1 h2 h3).trans (ha x q hq)

/-- Taking a reply for known ids in keeps the invariant. -/
lemma Base.absorb {reply : List (Dict ReqId Payload)} (h : Base cfg added e)
    (hans : ∀ x, Answers reply x → e.Known added x) (ha : Absorbs cfg reply e e') :
    Base cfg added e' := by
  obtain ⟨hs, pend, fut, recorded, evaluated, rfl, hpend, hfut⟩ := ha
  refine h.congr h.wf (fun _ => id) rfl ?_ (fun x hx => h.pending x (hpend x hx)) ?_ ?_
  · rintro x (hx | hx)
    · rcases mem_recordScores.1 hx with hx | hx
      · exact h.scored x (.inl hx)
      · exact hans x (mem_mergeScores.1 hx)
    · rcases mem_recordScores.2.2 hx with hx | hx
      · exact h.scored x (.inr hx)
      · exact hans x (mem_mergeScores.1 hx)
  · rcases hfut with rfl | rfl
    · exact fun reply hr => by cases hr
    · exact h.inFlight
  · rcases hfut with rfl | rfl
    · exact fun _ => rfl
    · exact h.sync

/-- A submission keeps the invariant. -/
lemma Base.submit (h : Base cfg added e) (hasync : cfg.asyncScorer = true)
    (hs : Submits so e e') : Base cfg added e' := by
  obtain ⟨reply, collect, ids, rfl, hans, hids⟩ := hs
  refine h.congr h.wf (fun _ => id) rfl h.scored h.pending ?_ ?_
  · rintro reply' hr x hx
    cases hr
    exact h.pending x (hids x (hans x hx)).1
  · exact fun hsync => absurd hsync (by simp [hasync])

/-- Handing averages to the scheduler keeps the invariant. -/
lemma Base.handAverages (h : Base cfg added e) (scores : Dict ReqId ℚ) :
    Base cfg added (e.handAverages scores) := by
  have hs := Scheduler.relabels_updateTraceScores e.scheduler scores
  exact h.congr (hs.wf h.wf) (fun _ hm => hs.mem.1 hm) rfl h.scored h.pending h.inFlight h.sync

/-- Dropping pending requests keeps the invariant. -/
lemma Base.drop (h : Base cfg added e) (ids : List ReqId) :
    Base cfg added
      { e with pendingHsClassification := removeIds e.pendingHsClassification ids } :=
  h.congr h.wf (fun _ => id) rfl h.scored (fun x hx => h.pending x (mem_removeIds.1 hx).1) h.inFlight
    h.sync

/-- Requests at a boundary were sampled. -/
lemma mem_of_mem_triggers {mo : ModelRunnerOutput} {x : ReqId} (h : x ∈ triggers cfg e mo) :
    x ∈ mo := by
  obtain ⟨ts, hts, -⟩ := mem_triggers.1 h
  exact Dict.mem_of_get? hts

/-- The trigger phase keeps the invariant. -/
lemma Base.detectTriggers {mo : ModelRunnerOutput} (h : Base cfg added e)
    (hmo : ∀ x ∈ mo, e.Known added x) : Base cfg added (e.detectTriggers cfg mo) := by
  obtain ⟨tc, sl, heq, -⟩ := detectTriggers_eq cfg e mo
  rw [heq]
  refine h.congr h.wf (fun _ => id) rfl h.scored ?_ h.inFlight h.sync
  intro x hx
  rcases mem_addAll.1 hx with hx | hx
  · exact h.pending x hx
  · exact hmo x (mem_of_mem_triggers hx)

/-- The injection phase keeps the invariant. -/
lemma Base.injectEos (h : Base cfg added e) (mo : ModelRunnerOutput) :
    Base cfg added (e.injectEos mo).1 := by
  obtain ⟨s, low, force, mo', heq, hs, -⟩ := injectEos_eq e mo
  rw [heq]
  exact h.congr (hs.wf h.wf) (fun _ hm => hs.mem.1 hm) rfl h.scored h.pending h.inFlight h.sync

/-- Every trace with an average is in the tree. -/
def Registered (cfg : VllmConfig) (e : EngineCore μ) : Prop :=
  gambitEnabled cfg = true → ∀ rid ∈ e.traceAvgScores cfg, rid ∈ e.traceTree

/-- The same averages and no node lost. -/
lemma Registered.congr (h : Registered cfg e)
    (hs : ∀ x ∈ e'.traceAvgScores cfg, x ∈ e.traceAvgScores cfg)
    (ht : ∀ x ∈ e.traceTree, x ∈ e'.traceTree) : Registered cfg e' :=
  fun hg x hx => ht x (h hg x (hs x hx))

/-- A move loses no node. -/
lemma Move.mem_tree {x : ReqId} (hm : Move cfg i avgs e e') (hb : Base cfg added e)
    (hx : x ∈ e.traceTree) : x ∈ e'.traceTree := by
  cases hm with
  | count | round => exact hx
  | register => exact mem_registerScore.2 (.inr hx)
  | pruneTested | pruneRanked | forceStop => exact TraceTree.mem_markPruned.2 hx
  | flush => unfold flushHistories; split <;> exact hx
  | branch parent =>
    have hc := hb.not_mem_tree parent
    rcases createBranch_cases cfg i e parent with heq | ⟨t, -, ht, heq⟩ | ⟨r, t, c, -, -, ht, -, heq⟩
    · rw [heq]; exact hx
    · rw [heq]; exact (mem_removeTrace_addBranch ht hc).2 hx
    · obtain ⟨ts, ss, cs, hadopt, -⟩ := adoptChild_eq cfg e t parent c r.allTokenIds
      rw [heq, hadopt]
      exact (mem_addBranch ht hc).2 (.inr hx)

/-- A move keeps the traces with an average in the tree. -/
lemma Registered.move (h : Registered cfg e) (hb : Base cfg added e) (hm : Move cfg i avgs e e') :
    Registered cfg e' := by
  have hk := fun x => hm.mem_tree hb (x := x)
  cases hm with
  | count | round | register | pruneTested | pruneRanked | forceStop => exact h.congr (fun _ => id) hk
  | flush => unfold flushHistories; split <;> exact h
  | branch parent =>
    have hc := hb.not_mem_tree parent
    rcases createBranch_cases cfg i e parent with heq | ⟨t, -, -, heq⟩ | ⟨r, t, c, -, -, ht, hcr, heq⟩
    · rw [heq]; exact h
    · rw [heq] at hk ⊢; exact h.congr (fun _ => id) hk
    · obtain ⟨ts, ss, cs, hadopt, hget⟩ := adoptChild_eq cfg e t parent c r.allTokenIds
      obtain ⟨hid, -⟩ := createChildRequest_eq hcr
      rw [heq, hadopt]
      intro hg x hx
      refine (mem_addBranch ht hc).2 ?_
      by_cases hxc : x = c.requestId
      · exact .inl (hxc.trans hid)
      · obtain ⟨h1, h2, h3⟩ := hget x hxc
        obtain ⟨q, hq⟩ := Dict.mem_iff_get?.1 hx
        rw [get?_traceAvgScores_congr h1 h2 h3] at hq
        exact .inr (h hg x (Dict.mem_of_get? hq))

/-- What a decision must keep for `D` to survive it. -/
structure DecisionRules (cfg : VllmConfig) (i : StepInput) (added : List ReqId)
    (D : EngineCore μ → Prop) : Prop where
  label : ∀ e scores, Base cfg added e → D e → D (e.handAverages scores)
  move : ∀ e e' avgs, Base cfg added e → D e → gambitEnabled cfg = true → AvgsOf cfg e avgs →
    Move cfg i avgs e e' → D e'

/-- What the scoring phases must give in stages: `P` before them, `D` while a decision is taken, `Q`
after it or without one. -/
structure StageRules (cfg : VllmConfig) (i : StepInput) (added : List ReqId)
    (so : SchedulerOutput β) (P D Q : EngineCore μ → Prop) : Prop
    extends DecisionRules cfg i added D where
  start : ∀ e, Base cfg added e → P e →
    (cfg.asyncScorer = false ∨ e.asyncScorerFuture = none) → Q e
  absorbAsync : ∀ e e' reply, Base cfg added e → P e → cfg.asyncScorer = true →
    e.asyncScorerFuture = some reply → Absorbs cfg reply e e' → e'.asyncScorerFuture = none → D e'
  absorbSync : ∀ e e' reply, Base cfg added e → Q e → cfg.asyncScorer = false →
    (∀ x, Answers reply x → x ∈ e.pendingHsClassification ∧ x ∈ so.numScheduledTokens) →
    Absorbs cfg reply e e' → e'.asyncScorerFuture = none → D e'
  settle : ∀ e, Base cfg added e → D e → Registered cfg e → Q e
  submit : ∀ e e', Base cfg added e → Q e → cfg.asyncScorer = true → Submits so e e' → Q e'
  drop : ∀ e ids, Base cfg added e → Q e →
    Q { e with pendingHsClassification := removeIds e.pendingHsClassification ids }

/-- What the phases between `schedule` and the capture of tokens must give, in stages. -/
structure PhaseStages (cfg : VllmConfig) (i : StepInput) (added : List ReqId)
    (so : SchedulerOutput β) (P D Q : EngineCore μ → Prop) : Prop
    extends StageRules cfg i added so P D Q where
  skip : ∀ e, Base cfg added e → P e → Q e
  trigger : ∀ e mo, Base cfg added e → Q e → (∀ x, x ∈ mo → x ∈ so.numScheduledTokens) →
    Q (e.detectTriggers cfg mo)
  inject : ∀ e mo, Base cfg added e → Q e → Q (e.injectEos mo).1

/-- What the scoring phases must keep for `P` to survive them. -/
structure ScoringRules (cfg : VllmConfig) (i : StepInput) (added : List ReqId)
    (so : SchedulerOutput β) (P : EngineCore μ → Prop) : Prop
    extends DecisionRules cfg i added P where
  absorb : ∀ e e' reply, Base cfg added e → P e →
    (cfg.asyncScorer = true ∧ e.asyncScorerFuture = some reply ∨
      cfg.asyncScorer = false ∧ ∀ x, Answers reply x →
        x ∈ e.pendingHsClassification ∧ x ∈ so.numScheduledTokens) →
    Absorbs cfg reply e e' → e'.asyncScorerFuture = none → P e'
  submit : ∀ e e', Base cfg added e → P e → cfg.asyncScorer = true → Submits so e e' → P e'
  drop : ∀ e ids, Base cfg added e → P e →
    P { e with pendingHsClassification := removeIds e.pendingHsClassification ids }

/-- What the phases between `schedule` and the capture of tokens must keep for `P` to survive. -/
structure PhaseRules (cfg : VllmConfig) (i : StepInput) (added : List ReqId)
    (so : SchedulerOutput β) (P : EngineCore μ → Prop) : Prop
    extends ScoringRules cfg i added so P where
  trigger : ∀ e mo, Base cfg added e → P e → (∀ x, x ∈ mo → x ∈ so.numScheduledTokens) →
    P (e.detectTriggers cfg mo)
  inject : ∀ e mo, Base cfg added e → P e → P (e.injectEos mo).1

/-- The state in the middle of a step with output `so`. -/
def Mid (cfg : VllmConfig) (added : List ReqId) (so : SchedulerOutput β) (P : EngineCore μ → Prop)
    (e : EngineCore μ) : Prop :=
  Base cfg added e ∧ P e ∧ ∀ x ∈ so.numScheduledTokens, e.Known added x

variable {P D Q : EngineCore μ → Prop}

/-- One property in all stages. -/
lemma ScoringRules.stages (rules : ScoringRules cfg i added so P) :
    StageRules cfg i added so P P P where
  toDecisionRules := rules.toDecisionRules
  start _ _ h _ := h
  absorbAsync e e' reply hb h ha hf := rules.absorb e e' reply hb h (.inl ⟨ha, hf⟩)
  absorbSync e e' reply hb h ha hr := rules.absorb e e' reply hb h (.inr ⟨ha, hr⟩)
  settle _ _ h _ := h
  submit := rules.submit
  drop := rules.drop

/-- One property in all stages. -/
lemma PhaseRules.stages (rules : PhaseRules cfg i added so P) :
    PhaseStages cfg i added so P P P where
  toStageRules := rules.toScoringRules.stages
  skip _ _ h := h
  trigger := rules.trigger
  inject := rules.inject

/-- The aggregation and the decision. -/
lemma DecisionRules.aggregateAndDecide (rules : DecisionRules cfg i added D)
    (h : Mid cfg added so D e) :
    Mid cfg added so (fun e => D e ∧ Registered cfg e) (e.aggregateAndDecide cfg i) := by
  obtain ⟨hb, hp, hso⟩ := h
  have hb' := hb.handAverages (e.traceAvgScores cfg)
  have hp' := rules.label e (e.traceAvgScores cfg) hb hp
  rcases aggregateAndDecide_cases cfg i e with ⟨hemp, heq⟩ | ⟨hg, heq⟩ | ⟨hg, hmoves⟩
  · rw [heq]
    refine ⟨hb, ⟨hp, fun _ x hx => ?_⟩, hso⟩
    rw [Dict.mem_def, Dict.keys, hemp] at hx
    cases hx
  · rw [heq]
    exact ⟨hb', ⟨hp', fun hg' => absurd hg' (by simp [hg])⟩, hso⟩
  · have ha : AvgsOf cfg (e.handAverages (e.traceAvgScores cfg)) (e.traceAvgScores cfg) :=
      fun x q hq => hq
    have hreg : Registered cfg
        ((e.handAverages (e.traceAvgScores cfg)).registered cfg (e.traceAvgScores cfg)) := by
      intro _ x hx
      refine mem_registered.2 (.inl ?_)
      rwa [traceAvgScores_registered] at hx
    generalize e.traceAvgScores cfg = avgs at hmoves hb' hp' ha hreg
    have hstep : ∀ e1 e2 : EngineCore μ, Move cfg i avgs e1 e2 →
        Mid cfg added so D e1 ∧ AvgsOf cfg e1 avgs → Mid cfg added so D e2 ∧ AvgsOf cfg e2 avgs := by
      rintro e1 e2 hm ⟨⟨hb1, hp1, hso1⟩, ha1⟩
      obtain ⟨hb2, ha2, hle⟩ := hb1.move ha1 hm
      refine ⟨⟨hb2, rules.move e1 e2 avgs hb1 hp1 hg ha1 hm, ?_⟩, ha2⟩
      exact fun x hx => (hso1 x hx).mono (fun _ => id) hle
    have hfirst := (registered_moves _ avgs).induct hstep ⟨⟨hb', hp', hso⟩, ha⟩
    have hall := hmoves.induct
      (P := fun e => (Mid cfg added so D e ∧ AvgsOf cfg e avgs) ∧ Registered cfg e)
      (fun e1 e2 hm h => ⟨hstep e1 e2 hm h.1, h.2.move h.1.1.1 hm⟩) ⟨hfirst, hreg⟩
    obtain ⟨⟨⟨hb2, hp2, hso2⟩, -⟩, hreg2⟩ := hall
    exact ⟨hb2, ⟨hp2, hreg2⟩, hso2⟩

/-- The ids of the batch are those that were scheduled. -/
lemma mem_modelOutput {x : ReqId} : x ∈ modelOutput i so ↔ x ∈ so.numScheduledTokens := by
  rw [Dict.mem_def, modelOutput, Dict.keys_ofKeys, (i.rows.perm _).mem_iff]
  rfl

/-- The phases change tokens of the batch only. -/
lemma mem_gambitPhases {x : ReqId} :
    x ∈ (e.gambitPhases cfg i so (modelOutput i so)).2 ↔ x ∈ so.numScheduledTokens := by
  rw [← mem_modelOutput (i := i)]
  unfold EngineCore.gambitPhases
  split
  · dsimp only
    generalize (e.scoringPhases cfg i so).detectTriggers cfg (modelOutput i so) = e
    split
    · obtain ⟨s, low, force, mo', heq, -, -, -, -, hmo⟩ := injectEos_eq e (modelOutput i so)
      rw [heq, Dict.mem_iff_get?, Dict.mem_iff_get?, hmo]
      split
      · simp
      · rfl
    · rfl
  · rfl

/-- The tokens of a scheduled request after the phases: the sampled ones, or an EOS token. -/
lemma getD_gambitPhases {x : ReqId} (hx : x ∈ so.numScheduledTokens) :
    (e.gambitPhases cfg i so (modelOutput i so)).2.getD x [] = i.sampled x ∨
      ∃ eos, (e.gambitPhases cfg i so (modelOutput i so)).2.getD x [] = [eos] := by
  have hget : (modelOutput i so).get? x = some (i.sampled x) := by
    rw [modelOutput, Dict.get?_ofKeys, if_pos ((i.rows.perm _).mem_iff.2 hx)]
  have hsame : (modelOutput i so).getD x [] = i.sampled x := by rw [Dict.getD_eq, hget]; rfl
  unfold EngineCore.gambitPhases
  split
  · dsimp only
    generalize (e.scoringPhases cfg i so).detectTriggers cfg (modelOutput i so) = e
    split
    · obtain ⟨s, low, force, mo', heq, -, -, -, -, hmo⟩ := injectEos_eq e (modelOutput i so)
      rw [heq, Dict.getD_eq, hmo, hget]
      split
      · cases eosOf e.scheduler x with
        | none => exact .inl rfl
        | some eos => exact .inr ⟨eos, rfl⟩
      · exact .inl rfl
    · exact .inl hsame
  · exact .inl hsame

/-- The scoring phases. -/
lemma StageRules.scoringPhases (rules : StageRules cfg i added so P D Q)
    (h : Mid cfg added so P e) : Mid cfg added so Q (e.scoringPhases cfg i so) := by
  have settle : ∀ {e : EngineCore μ}, Mid cfg added so (fun e => D e ∧ Registered cfg e) e →
      Mid cfg added so Q e :=
    fun ⟨hb, ⟨hd, hr⟩, hso⟩ => ⟨hb, rules.settle _ hb hd hr, hso⟩
  have hconsume : Mid cfg added so Q (e.consumeAsyncScores cfg i) := by
    obtain ⟨hb, hp, hso⟩ := h
    rcases consumeAsyncScores_cases cfg i e with
      ⟨heq, hno⟩ | ⟨reply, e1, hasync, hfut, habs, hnone, heq⟩
    · rw [heq]; exact ⟨hb, rules.start e hb hp hno, hso⟩
    · rw [heq]
      refine settle (rules.aggregateAndDecide ⟨hb.absorb (hb.inFlight reply hfut) habs, ?_, ?_⟩)
      · exact rules.absorbAsync e e1 reply hb hp hasync hfut habs hnone
      · obtain ⟨hs, pend, fut, recorded, evaluated, rfl, -⟩ := habs
        exact hso
  unfold EngineCore.scoringPhases
  generalize e.consumeAsyncScores cfg i = e at hconsume
  have hscore : Mid cfg added so Q (e.scorePending cfg i so) := by
    obtain ⟨hb, hp, hso⟩ := hconsume
    rcases scorePending_cases cfg i e so with
      heq | ⟨hasync, hsub⟩ | ⟨reply, e1, hsync, hdue, habs, hfut, heq⟩
    · rw [heq]; exact ⟨hb, hp, hso⟩
    · refine ⟨hb.submit hasync hsub, rules.submit _ _ hb hp hasync hsub, ?_⟩
      obtain ⟨reply, collect, ids, heq, -⟩ := hsub
      rw [heq]; exact hso
    · rw [heq]
      have hdue' := fun x hx => mem_dueRequests.1 (hdue x hx)
      refine settle (rules.aggregateAndDecide
        ⟨hb.absorb (fun x hx => hb.pending x (hdue' x hx).1) habs, ?_, ?_⟩)
      · refine rules.absorbSync e e1 reply hb hp hsync hdue' habs ?_
        rw [hfut, hb.sync hsync]
      · obtain ⟨hs, pend, fut, recorded, evaluated, rfl, -⟩ := habs
        exact hso
  obtain ⟨hb, hp, hso⟩ := hscore
  exact ⟨hb.drop _, rules.drop _ _ hb hp, hso⟩

/-- All phases between `schedule` and the capture of tokens. -/
theorem PhaseStages.gambitPhases (rules : PhaseStages cfg i added so P D Q)
    (h : Mid cfg added so P e) :
    Mid cfg added so Q (e.gambitPhases cfg i so (modelOutput i so)).1 := by
  unfold EngineCore.gambitPhases
  split
  · obtain ⟨hb, hp, hso⟩ := rules.scoringPhases h
    dsimp only
    generalize e.scoringPhases cfg i so = e at hb hp hso
    have htrig : Mid cfg added so Q (e.detectTriggers cfg (modelOutput i so)) := by
      refine ⟨hb.detectTriggers fun x hx => hso x (mem_modelOutput.1 hx),
        rules.trigger e _ hb hp fun x hx => mem_modelOutput.1 hx, ?_⟩
      obtain ⟨tc, sl, heq, -⟩ := detectTriggers_eq cfg e (modelOutput i so)
      rw [heq]; exact hso
    generalize e.detectTriggers cfg (modelOutput i so) = e at htrig
    split
    · refine ⟨htrig.1.injectEos _, rules.inject e _ htrig.1 htrig.2.1, ?_⟩
      obtain ⟨s, low, force, mo', heq, -⟩ := injectEos_eq e (modelOutput i so)
      rw [heq]; exact htrig.2.2
    · exact htrig
  · obtain ⟨hb, hp, hso⟩ := h
    exact ⟨hb, rules.skip e hb hp, hso⟩

/-- The invariant survives `schedule`, and what is scheduled is known. -/
lemma Base.afterSchedule (ops : Caches μ β) (i : StepInput) (h : Base cfg added e) :
    Base cfg added (e.afterSchedule ops cfg i).1 ∧
      ∀ x ∈ (e.afterSchedule ops cfg i).2.numScheduledTokens, e.Known added x := by
  have hs : Scheduler.ScheduleSpec ops cfg e.scheduler (e.scheduler.schedule ops cfg i.grammarReady).1
      (e.scheduler.schedule ops cfg i.grammarReady).2 := h.wf.schedule i.grammarReady
  refine ⟨?_, fun x hx => h.live x (hs.scheduled x hx)⟩
  exact h.congr hs.wf (fun x hx => hs.evolves.mem hx) rfl h.scored h.pending h.inFlight h.sync

/-- The ids of the tree after a finished request. -/
lemma mem_onRequestFinished {t : TraceTree} {rid x : ReqId} {score : Option ℚ}
    {tokens : Option (List Token)} (h : x ∈ onRequestFinished t rid score tokens) :
    x = rid ∨ x ∈ t := by
  rw [← TraceTree.mem_ensureRoot]
  unfold onRequestFinished at h
  dsimp only at h
  split at h
  · exact TraceTree.mem_setOutput.1 h
  · exact TraceTree.mem_markCompleted.1 h

/-- A finished request changes neither the counter nor the capacity. -/
lemma onRequestFinished_frame (t : TraceTree) (rid : ReqId) (score : Option ℚ)
    (tokens : Option (List Token)) :
    (onRequestFinished t rid score tokens).branchCounter = t.branchCounter ∧
      (onRequestFinished t rid score tokens).maxTraces = t.maxTraces := by
  obtain ⟨h1, h2, -⟩ := t.ensureRoot_frame rid
  unfold onRequestFinished
  dsimp only
  split <;> exact ⟨h1, h2⟩

/-- Whoever finished in a step was scheduled and live. -/
lemma Finishes.live_of_fin {mo : ModelRunnerOutput} {fin : List ReqId} {x : ReqId}
    (h : Finishes cfg so mo fin e e') (hf : e.scheduler.finishedReqIds = []) (hx : x ∈ fin) :
    x ∈ so.numScheduledTokens ∧ x ∈ e.scheduler.requests ∧ x ∉ e'.scheduler.requests := by
  rw [h.mem_fin, h.update.finished, hf] at hx
  rcases hx with hx | ⟨hso, r, hr, ho⟩
  · cases hx
  · refine ⟨hso, Dict.mem_of_get? hr, ?_⟩
    rw [← Dict.get?_eq_none, h.update.requests, if_pos hso, hr]
    exact ho

/-- A request that left the scheduler at the end of a step finished. -/
lemma Finishes.fin_of_gone {mo : ModelRunnerOutput} {fin : List ReqId} {x : ReqId}
    (h : Finishes cfg so mo fin e e') (hx : x ∈ e.scheduler.requests)
    (hg : x ∉ e'.scheduler.requests) : x ∈ fin := by
  obtain ⟨r, hr⟩ := Dict.mem_iff_get?.1 hx
  rw [← Dict.get?_eq_none, h.update.requests] at hg
  split at hg
  · next hso =>
    rw [hr] at hg
    rw [h.mem_fin, h.update.finished]
    exact .inr ⟨hso, r, hr, hg⟩
  · rw [hr] at hg; cases hg

/-- Nothing becomes live at the end of a step. -/
lemma Finishes.live {mo : ModelRunnerOutput} {fin : List ReqId} {x : ReqId}
    (h : Finishes cfg so mo fin e e') (hx : x ∈ e'.scheduler.requests) :
    x ∈ e.scheduler.requests := by
  obtain ⟨r', hr'⟩ := Dict.mem_iff_get?.1 hx
  rw [h.update.requests] at hr'
  split at hr'
  · obtain ⟨r, hr, -⟩ := Option.bind_eq_some_iff.1 hr'
    exact Dict.mem_of_get? hr
  · exact Dict.mem_of_get? hr'

/-- Entries of a dictionary that lost some keys. -/
lemma mem_of_get?_eq_ite {γ : Type} {d d' : Dict ReqId γ} {x : ReqId} {p : Prop} [Decidable p]
    (h : d'.get? x = if p then none else d.get? x) (hx : x ∈ d') : ¬ p ∧ x ∈ d := by
  obtain ⟨v, hv⟩ := Dict.mem_iff_get?.1 hx
  rw [h] at hv
  split at hv
  · cases hv
  · next hp => exact ⟨hp, Dict.mem_of_get? hv⟩

/-- The end of a step keeps the invariant. -/
lemma Base.finish {mo : ModelRunnerOutput} {fin : List ReqId} (h : Base cfg added e)
    (hf : e.scheduler.finishedReqIds = []) (hfin : Finishes cfg so mo fin e e') :
    Base cfg added e' := by
  have hfr : e'.traceTree.branchCounter = e.traceTree.branchCounter ∧
      e'.traceTree.maxTraces = e.traceTree.maxTraces :=
    hfin.tree (fun t => t.branchCounter = e.traceTree.branchCounter ∧
        t.maxTraces = e.traceTree.maxTraces)
      (fun t rid _ score tokens ht => by
        obtain ⟨h1, h2⟩ := onRequestFinished_frame t rid score tokens
        exact ⟨h1.trans ht.1, h2.trans ht.2⟩) ⟨rfl, rfl⟩
  have htree : ∀ x ∈ e'.traceTree, e.Known added x := by
    refine hfin.tree (fun t => ∀ x ∈ t, e.Known added x) ?_ h.tree
    intro t rid hr score tokens ht x hx
    rcases mem_onRequestFinished hx with hx | hx
    · rw [hx]; exact h.live rid (hfin.live_of_fin hf hr).2.1
    · exact ht x hx
  have hz := hfin.finalized
  refine ⟨h.external, hfin.update.wf, ?_, ?_, ?_, ?_, ?_, ?_, hfr.2.trans h.maxTraces⟩
  · exact fun x hx => by rw [Known, hfr.1]; exact h.live x (hfin.live hx)
  · exact fun x hx => by rw [Known, hfr.1]; exact htree x hx
  · rintro x (hx | hx)
    · rw [Known, hfr.1]
      exact h.scored x (.inl (mem_of_get?_eq_ite (hz.traceScores x) hx).2)
    · rw [Known, hfr.1]
      exact h.scored x (.inr (mem_of_get?_eq_ite (hz.traceScoreCounts x) hx).2)
  · rw [hz.pendingHsClassification]
    exact fun x hx => by rw [Known, hfr.1]; exact h.pending x hx
  · rw [hz.asyncScorerFuture]
    exact fun reply hr x hx => by rw [Known, hfr.1]; exact h.inFlight reply hr x hx
  · rw [hz.asyncScorerFuture]; exact h.sync

/-- Nothing finishes during the phases between `schedule` and the capture of tokens. -/
lemma phaseRules_finishedReqIds :
    PhaseRules (μ := μ) cfg i added so (fun e => e.scheduler.finishedReqIds = []) where
  absorb e e' reply _ hp _ habs _ := by
    obtain ⟨_, _, _, _, _, rfl, -⟩ := habs
    exact hp
  submit e e' _ hp _ hs := by
    obtain ⟨_, _, _, rfl, -⟩ := hs
    exact hp
  label e scores _ hp := hp
  move e e' avgs hb hp _ _ hm := by
    cases hm with
    | count | register | pruneTested | pruneRanked | forceStop | round => exact hp
    | flush => unfold flushHistories; split <;> exact hp
    | branch parent =>
      rcases createBranch_cases cfg i e parent with heq | ⟨t, -, -, heq⟩ | ⟨r, t, c, -, -, -, -, heq⟩
      · rw [heq]; exact hp
      · rw [heq]; exact hp
      · obtain ⟨ts, ss, cs, hadopt, -⟩ := adoptChild_eq cfg e t parent c r.allTokenIds
        rw [heq, hadopt]; exact hp
  drop e ids _ hp := hp
  trigger e mo _ hp _ := by
    obtain ⟨tc, sl, heq, -⟩ := detectTriggers_eq cfg e mo
    rw [heq]; exact hp
  inject e mo _ hp := by
    obtain ⟨s, low, force, mo', heq, hs, -⟩ := injectEos_eq e mo
    rw [heq]
    exact hs.finishedReqIds.trans hp

/-- The phases do not touch what the record says about the batch. -/
lemma phaseRules_record (rec : StepRecord) : PhaseRules (μ := μ) cfg i added so
    (fun e => e.record.scheduled = rec.scheduled ∧ e.record.sampled = rec.sampled ∧
      e.record.evicted = rec.evicted) where
  absorb e e' reply _ hp _ habs _ := by
    obtain ⟨_, _, _, _, _, rfl, -⟩ := habs
    exact hp
  submit e e' _ hp _ hs := by
    obtain ⟨_, _, _, rfl, -⟩ := hs
    exact hp
  label e scores _ hp := hp
  move e e' avgs hb hp _ _ hm := by
    cases hm with
    | count | register | pruneTested | pruneRanked | forceStop | round => exact hp
    | flush => unfold flushHistories; split <;> exact hp
    | branch parent =>
      rcases createBranch_cases cfg i e parent with heq | ⟨t, -, -, heq⟩ | ⟨r, t, c, -, -, -, -, heq⟩
      · rw [heq]; exact hp
      · rw [heq]; exact hp
      · obtain ⟨ts, ss, cs, hadopt, -⟩ := adoptChild_eq cfg e t parent c r.allTokenIds
        rw [heq, hadopt]; exact hp
  drop e ids _ hp := hp
  trigger e mo _ hp _ := by
    obtain ⟨tc, sl, heq, -⟩ := detectTriggers_eq cfg e mo
    rw [heq]; exact hp
  inject e mo _ hp := by
    obtain ⟨s, low, force, mo', heq, hs, -⟩ := injectEos_eq e mo
    rw [heq]; exact hp

/-- The scoring phases keep the trace of a live request. -/
lemma phaseRules_sameTrace {rid : ReqId} {r : Request} :
    PhaseRules (μ := μ) cfg i added so
      (fun e => ∃ r', e.scheduler.requests.get? rid = some r' ∧ r.SameTrace r') where
  absorb e e' reply _ hp _ habs _ := by
    obtain ⟨_, _, _, _, _, rfl, -⟩ := habs
    exact hp
  submit e e' _ hp _ hs := by
    obtain ⟨_, _, _, rfl, -⟩ := hs
    exact hp
  label e scores _ hp := by
    obtain ⟨r', hr', hst⟩ := hp
    obtain ⟨r'', hr'', hst'⟩ :=
      (Scheduler.relabels_updateTraceScores e.scheduler scores).forth hr'
    exact ⟨r'', hr'', hst.trans hst'⟩
  move e e' avgs hb hp _ _ hm := by
    cases hm with
    | count | register | pruneTested | pruneRanked | forceStop | round => exact hp
    | flush => unfold flushHistories; split <;> exact hp
    | branch parent =>
      rcases createBranch_cases cfg i e parent with heq | ⟨t, -, -, heq⟩ | ⟨r, t, c, -, -, -, hcr, heq⟩
      · rw [heq]; exact hp
      · rw [heq]; exact hp
      · obtain ⟨ts, ss, cs, hadopt, -⟩ := adoptChild_eq cfg e t parent c r.allTokenIds
        rw [heq, hadopt]
        obtain ⟨r', hr', hst⟩ := hp
        obtain ⟨hid, -⟩ := createChildRequest_eq hcr
        refine ⟨r', ?_, hst⟩
        dsimp only
        rw [Scheduler.get?_addRequest, if_neg]
        · exact hr'
        · exact fun hx => hb.not_live parent (hid ▸ hx ▸ Dict.mem_of_get? hr')
  drop e ids _ hp := hp
  trigger e mo _ hp _ := by
    obtain ⟨tc, sl, heq, -⟩ := detectTriggers_eq cfg e mo
    rw [heq]; exact hp
  inject e mo _ hp := by
    obtain ⟨s, low, force, mo', heq, hs, -⟩ := injectEos_eq e mo
    rw [heq]
    obtain ⟨r', hr', hst⟩ := hp
    obtain ⟨r'', hr'', hst'⟩ := hs.forth hr'
    exact ⟨r'', hr'', hst.trans hst'⟩

/-- The rules of two properties together. -/
lemma PhaseRules.and {P Q : EngineCore μ → Prop} (hP : PhaseRules cfg i added so P)
    (hQ : PhaseRules cfg i added so Q) : PhaseRules cfg i added so (fun e => P e ∧ Q e) where
  absorb e e' reply hb h hr ha hn :=
    ⟨hP.absorb e e' reply hb h.1 hr ha hn, hQ.absorb e e' reply hb h.2 hr ha hn⟩
  submit e e' hb h ha hs := ⟨hP.submit e e' hb h.1 ha hs, hQ.submit e e' hb h.2 ha hs⟩
  label e scores hb h := ⟨hP.label e scores hb h.1, hQ.label e scores hb h.2⟩
  move e e' avgs hb h hg ha hm :=
    ⟨hP.move e e' avgs hb h.1 hg ha hm, hQ.move e e' avgs hb h.2 hg ha hm⟩
  drop e ids hb h := ⟨hP.drop e ids hb h.1, hQ.drop e ids hb h.2⟩
  trigger e mo hb h hmo := ⟨hP.trigger e mo hb h.1 hmo, hQ.trigger e mo hb h.2 hmo⟩
  inject e mo hb h := ⟨hP.inject e mo hb h.1, hQ.inject e mo hb h.2⟩

/-- A step that runs the model: what `P` gives in the middle of the step, and what follows at its
end. -/
theorem Base.step_stages (ops : Caches μ β) (h : Base cfg added e)
    (hreq : e.scheduler.hasRequests = true)
    (rules : PhaseStages cfg i added (e.afterSchedule ops cfg i).2 P D Q)
    (hp : P (e.afterSchedule ops cfg i).1) :
    ∃ e1 mo fin, Base cfg added e1 ∧ Q e1 ∧ e1.scheduler.finishedReqIds = [] ∧
      (∀ x ∈ (e.afterSchedule ops cfg i).2.numScheduledTokens, e1.Known added x) ∧
      (∀ x, x ∈ mo ↔ x ∈ (e.afterSchedule ops cfg i).2.numScheduledTokens) ∧
      (e1, mo) = (e.afterSchedule ops cfg i).1.gambitPhases cfg i (e.afterSchedule ops cfg i).2
        (modelOutput i (e.afterSchedule ops cfg i).2) ∧
      e.step ops cfg i = e1.finishStep ops cfg i (e.afterSchedule ops cfg i).2 mo ∧
      Finishes cfg (e.afterSchedule ops cfg i).2 mo fin e1 (e.step ops cfg i) ∧
      Base cfg added (e.step ops cfg i) := by
  obtain ⟨hb, hso⟩ := h.afterSchedule ops i
  have hf : (e.afterSchedule ops cfg i).1.scheduler.finishedReqIds = [] :=
    rfl
  have hmid := rules.gambitPhases ⟨hb, hp, hso⟩
  have hnone := (phaseRules_finishedReqIds (i := i)).stages.gambitPhases ⟨hb, hf, hso⟩
  have hstep : e.step ops cfg i =
      ((e.afterSchedule ops cfg i).1.gambitPhases cfg i (e.afterSchedule ops cfg i).2
        (modelOutput i (e.afterSchedule ops cfg i).2)).1.finishStep ops cfg i
        (e.afterSchedule ops cfg i).2
        ((e.afterSchedule ops cfg i).1.gambitPhases cfg i (e.afterSchedule ops cfg i).2
          (modelOutput i (e.afterSchedule ops cfg i).2)).2 := by
    rw [step, if_pos hreq]
  have hmo : ∀ x, x ∈ ((e.afterSchedule ops cfg i).1.gambitPhases cfg i
      (e.afterSchedule ops cfg i).2 (modelOutput i (e.afterSchedule ops cfg i).2)).2 ↔
        x ∈ (e.afterSchedule ops cfg i).2.numScheduledTokens := fun x => mem_gambitPhases
  generalize (e.afterSchedule ops cfg i).1.gambitPhases cfg i (e.afterSchedule ops cfg i).2
    (modelOutput i (e.afterSchedule ops cfg i).2) = g at hmid hnone hstep hmo
  obtain ⟨hb1, hp1, hso1⟩ := hmid
  obtain ⟨-, hf1, -⟩ := hnone
  obtain ⟨fin, hfin⟩ := finishStep_spec ops cfg i hb1.wf
    (e.afterSchedule ops cfg i).2 g.2
  rw [← hstep] at hfin
  exact ⟨g.1, g.2, fin, hb1, hp1, hf1, hso1, hmo, rfl, hstep, hfin, hb1.finish hf1 hfin⟩

/-- A step that runs the model, for one property in all stages. -/
theorem Base.step_rule (ops : Caches μ β) (h : Base cfg added e) (hreq : e.scheduler.hasRequests = true)
    (rules : PhaseRules cfg i added (e.afterSchedule ops cfg i).2 P)
    (hp : P (e.afterSchedule ops cfg i).1) :
    ∃ e1 mo fin, Base cfg added e1 ∧ P e1 ∧ e1.scheduler.finishedReqIds = [] ∧
      (∀ x ∈ (e.afterSchedule ops cfg i).2.numScheduledTokens, e1.Known added x) ∧
      (∀ x, x ∈ mo ↔ x ∈ (e.afterSchedule ops cfg i).2.numScheduledTokens) ∧
      (e1, mo) = (e.afterSchedule ops cfg i).1.gambitPhases cfg i (e.afterSchedule ops cfg i).2
        (modelOutput i (e.afterSchedule ops cfg i).2) ∧
      e.step ops cfg i = e1.finishStep ops cfg i (e.afterSchedule ops cfg i).2 mo ∧
      Finishes cfg (e.afterSchedule ops cfg i).2 mo fin e1 (e.step ops cfg i) ∧
      Base cfg added (e.step ops cfg i) :=
  h.step_stages ops hreq rules.stages hp

/-- Nothing has to be shown for the trivial property. -/
lemma phaseRules_true : PhaseRules (μ := μ) cfg i added so (fun _ => True) := by
  refine ⟨⟨⟨?_, ?_⟩, ?_, ?_, ?_⟩, ?_, ?_⟩ <;> intros <;> trivial

/-- What a step records about its batch. -/
lemma Base.record_step (ops : Caches μ β) (h : Base cfg added e)
    (hreq : e.scheduler.hasRequests = true) :
    (e.step ops cfg i).record.scheduled = (e.afterSchedule ops cfg i).2.numScheduledTokens ∧
      (e.step ops cfg i).record.sampled = modelOutput i (e.afterSchedule ops cfg i).2 ∧
      (e.step ops cfg i).record.evicted = (e.afterSchedule ops cfg i).1.scheduler.evictedIds := by
  obtain ⟨e1, mo, fin, -, hrec, -, -, -, -, -, hfin, -⟩ :=
    h.step_rule ops hreq (phaseRules_record (e.afterSchedule ops cfg i).1.record) ⟨rfl, rfl, rfl⟩
  obtain ⟨outs, heq⟩ := hfin.record
  rw [heq]
  exact hrec

/-- The idle branch keeps the invariant. -/
lemma Base.idle (h : Base cfg added e) :
    Base cfg added (({ e with record := {} } : EngineCore μ).idleCleanup cfg) := by
  unfold idleCleanup
  split
  · generalize (e.traceTree.nodes.entries.filter fun n => n.2.isActive).map Prod.fst = l
    obtain ⟨h1, h2⟩ := TraceTree.foldl_markPruned_frame l e.traceTree
    refine h.retree (t := l.foldl TraceTree.markPruned e.traceTree) ?_ h1 h2 rfl rfl rfl rfl rfl rfl
    intro x hx
    obtain ⟨n, hn⟩ := TraceTree.mem_iff_getNode.1 hx
    rw [TraceTree.getNode_foldl_markPruned] at hn
    split at hn
    · obtain ⟨m, hm, -⟩ := Option.map_eq_some_iff.1 hn
      exact .inl (TraceTree.mem_of_getNode hm)
    · exact .inl (TraceTree.mem_of_getNode hn)
  · exact h.retree (t := e.traceTree) (fun _ hx => .inl hx) rfl rfl rfl rfl rfl rfl rfl rfl

/-- A step keeps the invariant. -/
lemma Base.step (ops : Caches μ β) (i : StepInput) (h : Base cfg added e) :
    Base cfg added (e.step ops cfg i) := by
  cases hreq : e.scheduler.hasRequests with
  | true =>
    obtain ⟨e1, mo, fin, -, -, -, -, -, -, -, -, hb⟩ :=
      h.step_rule ops hreq phaseRules_true trivial
    exact hb
  | false =>
    rw [EngineCore.step, if_neg (by simp [hreq])]
    exact h.idle

/-- A request from outside that was never seen. -/
lemma not_issued_of_ok {h : List Event} {r : Request} {n : Nat} (hok : Event.Ok h (.addRequest r)) :
    ¬ Issued (h.filterMap Event.added) n r.requestId := by
  rintro (hm | ⟨k, p, -, he⟩)
  · exact hok.2.1 hm
  · exact hok.2.2 (he ▸ branchId_reserved k p)

/-- Adding a request keeps the invariant. -/
lemma Base.addRequest {h : List Event} {r : Request} (hb : Base cfg (h.filterMap Event.added) e)
    (hok : Event.Ok h (.addRequest r)) :
    Base cfg (h.filterMap Event.added ++ [r.requestId])
      { e.addRequest cfg r with record := {} } := by
  have hnew : r.requestId ∉ e.scheduler.requests :=
    fun hm => not_issued_of_ok hok (hb.live _ hm)
  have hmono : ∀ {x}, e.Known (h.filterMap Event.added) x →
      e.Known (h.filterMap Event.added ++ [r.requestId]) x :=
    fun hx => hx.mono (List.subset_append_left _ _) le_rfl
  have hown : e.Known (h.filterMap Event.added ++ [r.requestId]) r.requestId := .inl (by simp)
  have hext : ∀ rid ∈ h.filterMap Event.added ++ [r.requestId], ¬ "gambit_".toList <+: rid := by
    intro rid hm
    rcases List.mem_append.1 hm with hm | hm
    · exact hb.external rid hm
    · rw [List.mem_singleton.1 hm]; exact hok.2.2
  have hwf := hb.wf.addRequest cfg.policy hnew hok.1.status
  have hlive : ∀ x ∈ (e.scheduler.addRequest cfg.policy r).requests,
      e.Known (h.filterMap Event.added ++ [r.requestId]) x := by
    intro x hx
    rcases Scheduler.mem_addRequest.1 hx with rfl | hx
    · exact hown
    · exact hmono (hb.live x hx)
  unfold EngineCore.addRequest
  dsimp only
  split
  · have hcnt : (if r.requestId ∉ e.traceTree ∧ isSamplingChild r.requestId = true then
        e.traceTree.addRoot r.requestId else e.traceTree).branchCounter =
        e.traceTree.branchCounter := by split <;> rfl
    have hmax : (if r.requestId ∉ e.traceTree ∧ isSamplingChild r.requestId = true then
        e.traceTree.addRoot r.requestId else e.traceTree).maxTraces =
        e.traceTree.maxTraces := by split <;> rfl
    refine ⟨hext, hwf, ?_, ?_, ?_, ?_, ?_, hb.sync, hmax.trans hb.maxTraces⟩
    · exact fun x hx => by rw [Known, hcnt]; exact hlive x hx
    · intro x hx
      rw [Known, hcnt]
      dsimp only at hx
      split at hx
      · rcases TraceTree.mem_addRoot.1 hx with rfl | hx
        · exact hown
        · exact hmono (hb.tree x hx)
      · exact hmono (hb.tree x hx)
    · exact fun x hx => by rw [Known, hcnt]; exact hmono (hb.scored x hx)
    · exact fun x hx => by rw [Known, hcnt]; exact hmono (hb.pending x hx)
    · exact fun reply hr x hx => by rw [Known, hcnt]; exact hmono (hb.inFlight reply hr x hx)
  · exact ⟨hext, hwf, hlive, fun x hx => hmono (hb.tree x hx), fun x hx => hmono (hb.scored x hx),
      fun x hx => hmono (hb.pending x hx), fun reply hr x hx => hmono (hb.inFlight reply hr x hx),
      hb.sync, hb.maxTraces⟩

/-- An event that adds nothing leaves the added ids as they are. -/
lemma filterMap_added_of_none {h : List Event} {ev : Event} (hev : ev.added = none) :
    (h ++ [ev]).filterMap Event.added = h.filterMap Event.added := by
  rw [List.filterMap_append]
  simp [hev]

/-- Every event keeps the invariant. -/
lemma Base.handle {h : List Event} {ev : Event} (hb : Base cfg (h.filterMap Event.added) e)
    (hok : Event.Ok h ev) :
    Base cfg ((h ++ [ev]).filterMap Event.added) (e.handle ops cfg ev) := by
  cases ev with
  | addRequest r =>
    rw [List.filterMap_append]
    exact hb.addRequest hok
  | abortRequests rids =>
    have hs := hb.wf.finishRequests ops rids .finishedAborted
    rw [filterMap_added_of_none rfl]
    exact hb.congr hs.wf (fun x hx => hs.mem hx) rfl hb.scored hb.pending hb.inFlight hb.sync
  | postStep drafts =>
    have hs := Scheduler.relabels_updateDraftTokenIds e.scheduler drafts
    rw [filterMap_added_of_none rfl]
    exact hb.congr (hs.wf hb.wf) (fun x hx => hs.mem.1 hx) rfl hb.scored hb.pending hb.inFlight
      hb.sync
  | step i =>
    rw [filterMap_added_of_none rfl]
    exact hb.step ops i

/-- The first tree is empty. -/
lemma not_mem_init (cfg : VllmConfig) (m : μ) (rid : ReqId) :
    rid ∉ (EngineCore.init cfg m).traceTree := by
  have ht : (EngineCore.init cfg m).traceTree.nodes = ∅ := by
    unfold EngineCore.init freshTree
    dsimp only
    split <;> rfl
  intro h
  change rid ∈ (EngineCore.init cfg m).traceTree.nodes at h
  rw [ht] at h
  exact Dict.not_mem_empty h

/-- The engine starts with the invariant. -/
lemma Base.init (cfg : VllmConfig) (m : μ) : Base cfg [] (EngineCore.init cfg m) where
  external := by simp
  wf := Scheduler.WF.empty m
  live := by simp [EngineCore.init]
  tree rid h := absurd h (not_mem_init cfg m rid)
  scored := by simp [EngineCore.init]
  pending := by simp [EngineCore.init]
  inFlight := by simp [EngineCore.init]
  sync _ := rfl
  maxTraces := by
    unfold EngineCore.init freshTree
    dsimp only
    split <;> rfl

end EngineCore

/-- The invariant holds in every reachable state. -/
theorem base_of_runs {μ β : Type} {ops : Caches μ β} {cfg : VllmConfig} {m : μ} {h : List Event}
    {o : List StepRecord} {e : EngineCore μ} (run : (engineMachine ops cfg m).Runs h o e) :
    EngineCore.Base cfg (h.filterMap Event.added) e := by
  induction run with
  | init => exact .init cfg m
  | step _ hok ih => exact ih.handle hok

end Gambit.Engine
