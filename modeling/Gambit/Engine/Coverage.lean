import Gambit.Engine.Status

/-!
# Active traces and live requests

An active node of the tree stands for a request of the scheduler, or for one that was evicted under
memory pressure (a ghost). A request that stops in `update_from_output` is finalised in the same
step; a request that is aborted is not, so an abort keeps the correspondence only when the tree does
not hold an active node for it and will not create one from a score (`AbortSafe`).
-/

namespace Gambit.Engine
open Gambit.Lib Gambit.Sched Gambit.Trace

namespace EngineCore
variable {μ β : Type} {ops : Caches μ β} {cfg : VllmConfig} {i : StepInput} {e e' : EngineCore μ}
variable {added : List ReqId} {so : SchedulerOutput β} {avgs : Dict ReqId ℚ}
variable {ev ev' : ReqId → Prop} {x : ReqId}

/-- The averages once a reply is taken in. -/
def avgsWith (cfg : VllmConfig) (e : EngineCore μ) (reply : List (Dict ReqId Payload)) :
    Dict ReqId ℚ :=
  (e.recordScores cfg (mergeScores reply)).traceAvgScores cfg

/-- A trace has an average if it has one in the score state. -/
lemma mem_traceAvgScores_congr (ht : e'.traceScores.get? x = e.traceScores.get? x)
    (hs : e'.traceScoreSums.get? x = e.traceScoreSums.get? x)
    (hc : e'.traceScoreCounts.get? x = e.traceScoreCounts.get? x) :
    x ∈ e'.traceAvgScores cfg ↔ x ∈ e.traceAvgScores cfg := by
  rw [Dict.mem_iff_get?, Dict.mem_iff_get?, get?_traceAvgScores_congr ht hs hc]

/-- Whoever has an average after a reply had one before or was answered. -/
lemma mem_avgsWith {reply : List (Dict ReqId Payload)} (h : x ∈ e.avgsWith cfg reply) :
    x ∈ e.traceAvgScores cfg ∨ Answers reply x := by
  by_cases hx : x ∈ mergeScores reply
  · exact .inr (mem_mergeScores.1 hx)
  · have hnone : (mergeScores reply).get? x = none := Dict.get?_eq_none.2 hx
    obtain ⟨h1, h2, h3⟩ := get?_recordScores cfg e (mergeScores reply) x
    rw [hnone] at h1 h2 h3
    exact .inl ((mem_traceAvgScores_congr h1 h2 h3).1 h)

/-- The averages after a reply depend on the score state of the trace only. -/
lemma mem_avgsWith_of {reply : List (Dict ReqId Payload)} (h : x ∈ e'.avgsWith cfg reply)
    (ht : e'.traceScores.get? x = e.traceScores.get? x)
    (hs : e'.traceScoreSums.get? x = e.traceScoreSums.get? x)
    (hc : e'.traceScoreCounts.get? x = e.traceScoreCounts.get? x) : x ∈ e.avgsWith cfg reply := by
  obtain ⟨h1, h2, h3⟩ := get?_recordScores cfg e (mergeScores reply) x
  obtain ⟨g1, g2, g3⟩ := get?_recordScores cfg e' (mergeScores reply) x
  refine (mem_traceAvgScores_congr ?_ ?_ ?_).1 h
  · rw [g1, h1, ht]
  · rw [g2, h2, hs]
  · rw [g3, h3, hc]

/-- A trace with a node, a live request, or an evicted one. -/
def Covered (ev : ReqId → Prop) (e : EngineCore μ) (rid : ReqId) : Prop :=
  rid ∈ e.traceTree ∨ rid ∈ e.scheduler.requests ∨ ev rid

/-- Active nodes are live or evicted, and whoever is scored is covered. -/
structure Cover (cfg : VllmConfig) (ev : ReqId → Prop) (e : EngineCore μ) : Prop where
  active : ∀ rid n, e.traceTree.getNode rid = some n → n.isActive = true →
    rid ∈ e.scheduler.requests ∨ ev rid
  pruned : ∀ rid n, e.traceTree.getNode rid = some n → n.isPruned = true → n.isActive = false
  scored : ∀ rid ∈ e.traceAvgScores cfg, Covered ev e rid

/-- Whoever is scored by the reply in flight is covered. -/
def InFlight (cfg : VllmConfig) (ev : ReqId → Prop) (e : EngineCore μ) : Prop :=
  ∀ reply, e.asyncScorerFuture = some reply → ∀ rid ∈ e.avgsWith cfg reply, Covered ev e rid

lemma Covered.mono {rid : ReqId} (h : Covered ev e rid)
    (ht : ∀ x ∈ e.traceTree, x ∈ e'.traceTree)
    (hl : ∀ x ∈ e.scheduler.requests, x ∈ e'.traceTree ∨ x ∈ e'.scheduler.requests ∨ ev' x)
    (hev : ∀ x, ev x → ev' x) : Covered ev' e' rid := by
  rcases h with h | h | h
  · exact .inl (ht rid h)
  · exact hl rid h
  · exact .inr (.inr (hev rid h))

/-- The same tree and scores, no request lost. -/
lemma Cover.congr (h : Cover cfg ev e) (ht : e'.traceTree = e.traceTree)
    (hl : ∀ x ∈ e.scheduler.requests, x ∈ e'.scheduler.requests ∨ ev' x)
    (hev : ∀ x, ev x → ev' x)
    (hs : ∀ x ∈ e'.traceAvgScores cfg, Covered ev e x) : Cover cfg ev' e' where
  active rid n hn ha := by
    rw [ht] at hn
    rcases h.active rid n hn ha with hr | hr
    · exact hl rid hr
    · exact .inr (hev rid hr)
  pruned rid n hn := h.pruned rid n (ht ▸ hn)
  scored rid hr := (hs rid hr).mono (fun x hx => ht ▸ hx) (fun x hx => .inr (hl x hx)) hev

/-- An active node of a tree whose nodes were only changed in place comes from an active one. -/
lemma Cover.retree {t : TraceTree} (h : Cover cfg ev e)
    (hback : ∀ rid n, t.getNode rid = some n →
      (∃ m, e.traceTree.getNode rid = some m ∧ (n.isActive = true → m.isActive = true) ∧
        (n.isPruned = true → m.isPruned = true ∨ n.isActive = false)) ∨
      (n.isPruned = false ∧ (rid ∈ e'.scheduler.requests ∨ ev rid)))
    (hkeep : ∀ x ∈ e.traceTree, x ∈ t) (ht : e'.traceTree = t)
    (hl : ∀ x ∈ e.scheduler.requests, x ∈ e'.scheduler.requests)
    (hs : ∀ x ∈ e'.traceAvgScores cfg, Covered ev e x ∨ x ∈ t) : Cover cfg ev e' where
  active rid n hn ha := by
    rw [ht] at hn
    rcases hback rid n hn with ⟨m, hm, hact, -⟩ | ⟨-, hr⟩
    · exact (h.active rid m hm (hact ha)).imp_left (hl rid)
    · exact hr
  pruned rid n hn hp := by
    rw [ht] at hn
    rcases hback rid n hn with ⟨m, hm, hact, hpr⟩ | ⟨hr, -⟩
    · rcases hpr hp with hpm | hin
      · have hmi := h.pruned rid m hm hpm
        cases hna : n.isActive with
        | false => rfl
        | true => rw [hact hna] at hmi; cases hmi
      · exact hin
    · rw [hr] at hp; cases hp
  scored rid hr := by
    rcases hs rid hr with hc | hc
    · exact hc.mono (fun x hx => ht ▸ hkeep x hx) (fun x hx => .inr (.inl (hl x hx))) fun _ => id
    · exact .inl (ht ▸ hc)

/-- A move keeps the correspondence. -/
lemma Cover.move (h : Cover cfg ev e) (hb : Base cfg added e) (ha : AvgsOf cfg e avgs)
    (hm : Move cfg i avgs e e') : Cover cfg ev e' := by
  have hpruned : ∀ rid, ∀ {e' : EngineCore μ}, e'.traceTree = e.traceTree.markPruned rid →
      e'.scheduler = e.scheduler → e'.traceAvgScores cfg = e.traceAvgScores cfg →
      Cover cfg ev e' := by
    intro rid e' ht hsch havg
    refine h.retree ?_ (fun x hx => TraceTree.mem_markPruned.2 hx) ht (fun x hx => hsch ▸ hx)
      (fun x hx => .inl (h.scored x (havg ▸ hx)))
    intro x n hn
    rw [TraceTree.getNode_markPruned] at hn
    split at hn
    · obtain ⟨m, hm, rfl⟩ := Option.map_eq_some_iff.1 hn
      exact .inl ⟨m, hm, fun hc => (by cases hc), fun _ => .inr rfl⟩
    · exact .inl ⟨n, hn, id, .inl⟩
  cases hm with
  | count =>
    exact h.retree (t := e.traceTree.incrementStep) (fun x n hn => .inl ⟨n, hn, id, .inl⟩)
      (fun _ => id) rfl (fun _ => id) fun x hx => .inl (h.scored x hx)
  | register hs =>
    rename_i s
    have hcov : Covered ev e s.1 :=
      h.scored s.1 (Dict.mem_of_get? (ha s.1 s.2 (Dict.get?_eq_some.2 hs)))
    have hroot : ∀ x n, (e.traceTree.ensureRoot s.1).getNode x = some n →
        (∃ m, e.traceTree.getNode x = some m ∧ (n.isActive = true → m.isActive = true) ∧
          (n.isPruned = true → m.isPruned = true ∨ n.isActive = false)) ∨
        (n.isPruned = false ∧ (x ∈ e.scheduler.requests ∨ ev x)) := by
      intro x n hn
      rw [TraceTree.getNode_ensureRoot] at hn
      split at hn
      · next hx =>
        cases hn
        refine .inr ⟨rfl, ?_⟩
        rw [hx.1]
        exact hcov.resolve_left hx.2
      · exact .inl ⟨n, hn, id, .inl⟩
    have hmem : ∀ x ∈ e.traceTree, x ∈ e.traceTree.ensureRoot s.1 :=
      fun x hx => TraceTree.mem_ensureRoot.2 (.inr hx)
    unfold registerScore
    dsimp only
    split
    · refine h.retree (t := (e.traceTree.ensureRoot s.1).recordScore s.1 s.2) ?_ ?_ rfl (fun _ => id)
        fun x hx => .inl (h.scored x hx)
      · intro x n hn
        rw [TraceTree.getNode_recordScore] at hn
        split at hn
        · obtain ⟨m, hm, rfl⟩ := Option.map_eq_some_iff.1 hn
          exact hroot x m hm
        · exact hroot x n hn
      · exact fun x hx => TraceTree.mem_recordScore.2 (hmem x hx)
    · exact h.retree hroot hmem rfl (fun _ => id) fun x hx => .inl (h.scored x hx)
  | pruneTested | pruneRanked => exact hpruned _ rfl rfl rfl
  | forceStop => exact hpruned _ rfl rfl rfl
  | round => exact h.congr rfl (fun _ => .inl) (fun _ => id) h.scored
  | flush =>
    unfold flushHistories
    split
    · exact h
    · exact h.congr rfl (fun _ => .inl) (fun _ => id) h.scored
  | branch parent =>
    have hc := hb.not_mem_tree parent
    rcases createBranch_cases cfg i e parent with
      heq | ⟨t, -, ht, heq⟩ | ⟨r, t, c, -, -, ht, hcr, heq⟩
    · rw [heq]; exact h
    · rw [heq]
      obtain ⟨p, hp, hget⟩ := TraceTree.getNode_removeTrace_addBranch ht hc
      refine h.retree (t := t.removeTrace (e.traceTree.generateBranchId parent)) ?_ ?_ rfl
        (fun _ => id) fun x hx => .inl (h.scored x hx)
      · intro x n hn
        rw [hget] at hn
        split at hn
        · next hx => cases hn; exact .inl ⟨p, hx ▸ hp, id, .inl⟩
        · exact .inl ⟨n, hn, id, .inl⟩
      · exact fun x hx => (mem_removeTrace_addBranch ht hc).2 hx
    · obtain ⟨hid, -⟩ := createChildRequest_eq hcr
      obtain ⟨p, hp, hget⟩ := TraceTree.getNode_addBranch ht hc
      obtain ⟨ts, ss, cs, hadopt, hsc⟩ := adoptChild_eq cfg e t parent c r.allTokenIds
      rw [heq, hadopt]
      refine h.retree (t := t) ?_ ?_ rfl ?_ ?_
      · intro x n hn
        rw [hget] at hn
        split at hn
        · next hx =>
          cases hn
          refine .inr ⟨rfl, .inl (Scheduler.mem_addRequest.2 (.inl ?_))⟩
          rw [hid]; exact hx
        · split at hn
          · next hx => cases hn; exact .inl ⟨p, hx ▸ hp, id, .inl⟩
          · exact .inl ⟨n, hn, id, .inl⟩
      · exact fun x hx => (mem_addBranch ht hc).2 (.inr hx)
      · exact fun x hx => Scheduler.mem_addRequest.2 (.inr hx)
      · intro x hx
        by_cases hxc : x = c.requestId
        · exact .inr ((mem_addBranch ht hc).2 (.inl (hxc.trans hid)))
        · obtain ⟨h1, h2, h3⟩ := hsc x hxc
          exact .inl (h.scored x ((mem_traceAvgScores_congr h1 h2 h3).1 hx))

/-- A move loses neither nodes nor requests. -/
lemma Covered.move (h : Covered ev e x) (hb : Base cfg added e) (hm : Move cfg i avgs e e') :
    Covered ev e' x := by
  obtain ⟨hflags, -, -⟩ := hb.move_status hm
  refine h.mono (fun y hy => ?_) (fun y hy => .inr (.inl ?_)) fun _ => id
  · obtain ⟨n, hn⟩ := TraceTree.mem_iff_getNode.1 hy
    obtain ⟨n', hn', -⟩ := hflags y n hn
    exact TraceTree.mem_of_getNode hn'
  · cases hm with
    | count | register | pruneTested | pruneRanked | forceStop | round => exact hy
    | flush => unfold flushHistories; split <;> exact hy
    | branch parent =>
      rcases createBranch_cases cfg i e parent with
        heq | ⟨t, -, -, heq⟩ | ⟨r, t, c, -, -, -, -, heq⟩
      · rw [heq]; exact hy
      · rw [heq]; exact hy
      · obtain ⟨ts, ss, cs, hadopt, -⟩ := adoptChild_eq cfg e t parent c r.allTokenIds
        rw [heq, hadopt]
        exact Scheduler.mem_addRequest.2 (.inr hy)

/-- The correspondence during a step with output `so`. -/
def CoverMid (cfg : VllmConfig) (ev : ReqId → Prop) (so : SchedulerOutput β) (e : EngineCore μ) :
    Prop :=
  Cover cfg ev e ∧ ∀ rid ∈ so.numScheduledTokens, Covered ev e rid

/-- Changes that keep the tree, the requests and the averages. -/
lemma CoverMid.congr (h : CoverMid cfg ev so e) (ht : e'.traceTree = e.traceTree)
    (hl : ∀ x, x ∈ e'.scheduler.requests ↔ x ∈ e.scheduler.requests)
    (hs : ∀ x ∈ e'.traceAvgScores cfg, Covered ev e x) : CoverMid cfg ev so e' := by
  refine ⟨h.1.congr ht (fun x hx => .inl ((hl x).2 hx)) (fun _ => id) hs, fun x hx => ?_⟩
  exact (h.2 x hx).mono (fun y hy => ht ▸ hy) (fun y hy => .inr (.inl ((hl y).2 hy))) fun _ => id

/-- The reply in flight stays covered when nothing it depends on changes. -/
lemma InFlight.congr (h : InFlight cfg ev e) (hf : e'.asyncScorerFuture = e.asyncScorerFuture)
    (h1 : e'.traceScores = e.traceScores) (h2 : e'.traceScoreSums = e.traceScoreSums)
    (h3 : e'.traceScoreCounts = e.traceScoreCounts) (ht : e'.traceTree = e.traceTree)
    (hl : ∀ x, x ∈ e'.scheduler.requests ↔ x ∈ e.scheduler.requests) : InFlight cfg ev e' := by
  intro reply hr x hx
  have hx' : x ∈ e.avgsWith cfg reply :=
    mem_avgsWith_of hx (by rw [h1]) (by rw [h2]) (by rw [h3])
  exact (h reply (hf ▸ hr) x hx').mono (fun y hy => ht ▸ hy) (fun y hy => .inr (.inl ((hl y).2 hy)))
    fun _ => id

/-- The phases keep the correspondence. -/
lemma phaseStages_cover : PhaseStages (μ := μ) cfg i added so
    (fun e => CoverMid cfg ev so e ∧ InFlight cfg ev e)
    (fun e => CoverMid cfg ev so e ∧ e.asyncScorerFuture = none)
    (fun e => CoverMid cfg ev so e ∧ InFlight cfg ev e) where
  label e scores _ h := by
    have hrel := Scheduler.relabels_updateTraceScores e.scheduler scores
    exact ⟨h.1.congr rfl (fun x => hrel.mem) h.1.1.scored, h.2⟩
  move e e' avgs hb h _ ha hm := by
    refine ⟨⟨h.1.1.move hb ha hm, fun x hx => (h.1.2 x hx).move hb hm⟩, ?_⟩
    cases hm with
    | count | register | pruneTested | pruneRanked | forceStop | round => exact h.2
    | flush => unfold flushHistories; split <;> exact h.2
    | branch parent =>
      rcases createBranch_cases cfg i e parent with
        heq | ⟨t, -, -, heq⟩ | ⟨r, t, c, -, -, -, -, heq⟩
      · rw [heq]; exact h.2
      · rw [heq]; exact h.2
      · obtain ⟨ts, ss, cs, hadopt, -⟩ := adoptChild_eq cfg e t parent c r.allTokenIds
        rw [heq, hadopt]; exact h.2
  start _ _ h _ := h
  absorbAsync e e' reply hb h _ hfut habs hnone := by
    refine ⟨?_, hnone⟩
    obtain ⟨hs, pend, fut, recorded, evaluated, rfl, -⟩ := habs
    exact h.1.congr rfl (fun _ => Iff.rfl) (h.2 reply hfut)
  absorbSync e e' reply hb h _ hans habs hnone := by
    refine ⟨?_, hnone⟩
    obtain ⟨hs, pend, fut, recorded, evaluated, rfl, -⟩ := habs
    refine h.1.congr rfl (fun _ => Iff.rfl) fun x hx => ?_
    rcases mem_avgsWith (e := e) hx with hx | hx
    · exact h.1.1.scored x hx
    · exact h.1.2 x (hans x hx).2
  settle e _ h _ := by
    refine ⟨h.1, fun reply hr => ?_⟩
    rw [h.2] at hr
    cases hr
  submit e e' _ h _ hs := by
    obtain ⟨reply, collect, ids, rfl, hans, hids⟩ := hs
    refine ⟨h.1.congr rfl (fun _ => Iff.rfl) h.1.1.scored, fun reply' hr x hx => ?_⟩
    cases hr
    rcases mem_avgsWith hx with hx | hx
    · exact h.1.1.scored x hx
    · exact h.1.2 x (hids x (hans x hx)).2
  drop e ids _ h :=
    ⟨h.1.congr rfl (fun _ => Iff.rfl) h.1.1.scored, h.2.congr rfl rfl rfl rfl rfl fun _ => Iff.rfl⟩
  skip _ _ h := h
  trigger e mo _ h _ := by
    obtain ⟨tc, sl, heq, -⟩ := detectTriggers_eq cfg e mo
    rw [heq]
    exact ⟨h.1.congr rfl (fun _ => Iff.rfl) h.1.1.scored,
      h.2.congr rfl rfl rfl rfl rfl fun _ => Iff.rfl⟩
  inject e mo _ h := by
    obtain ⟨s, low, force, mo', heq, hs, -⟩ := injectEos_eq e mo
    rw [heq]
    exact ⟨h.1.congr rfl (fun x => hs.mem) h.1.1.scored,
      h.2.congr rfl rfl rfl rfl rfl fun x => hs.mem⟩

/-- Pruned nodes are not active. -/
def PrunedInactive (t : TraceTree) : Prop :=
  ∀ rid n, t.getNode rid = some n → n.isPruned = true → n.isActive = false

/-- Finishing a trace: its node is there and not active, and no other node becomes active. -/
lemma onRequestFinished_inactive {t : TraceTree} (h : PrunedInactive t) (rid : ReqId)
    (score : Option ℚ) (tokens : Option (List Token)) :
    PrunedInactive (onRequestFinished t rid score tokens) ∧
      (∃ n, (onRequestFinished t rid score tokens).getNode rid = some n ∧ n.isActive = false) ∧
      ∀ x n, x ≠ rid → (onRequestFinished t rid score tokens).getNode x = some n →
        t.getNode x = some n := by
  have hne : ∀ x n, x ≠ rid → (t.ensureRoot rid).getNode x = some n → t.getNode x = some n := by
    intro x n hx hn
    rwa [TraceTree.getNode_ensureRoot, if_neg fun hc => hx hc.1] at hn
  have hroot : PrunedInactive (t.ensureRoot rid) := by
    intro x n hn hp
    rw [TraceTree.getNode_ensureRoot] at hn
    split at hn
    · cases hn; cases hp
    · exact h x n hn hp
  obtain ⟨m, hm⟩ := TraceTree.mem_iff_getNode.1
    (TraceTree.mem_ensureRoot.2 (.inl rfl) : rid ∈ t.ensureRoot rid)
  unfold onRequestFinished
  dsimp only
  split
  · next hp =>
    rw [hm] at hp
    have hin := hroot rid m hm (by simpa using hp)
    refine ⟨fun x n hn hpr => ?_,
      ⟨m.setOutput _, by rw [TraceTree.getNode_setOutput, if_pos rfl, hm]; rfl, hin⟩,
      fun x n hx hn => ?_⟩
    · rw [TraceTree.getNode_setOutput] at hn
      split at hn
      · obtain ⟨m', hm', rfl⟩ := Option.map_eq_some_iff.1 hn
        exact hroot x m' hm' hpr
      · exact hroot x n hn hpr
    · rw [TraceTree.getNode_setOutput, if_neg hx] at hn
      exact hne x n hx hn
  · refine ⟨fun x n hn hpr => ?_, ⟨_, by rw [TraceTree.getNode_markCompleted, if_pos rfl, hm]; rfl,
      rfl⟩, fun x n hx hn => ?_⟩
    · rw [TraceTree.getNode_markCompleted] at hn
      split at hn
      · obtain ⟨m', hm', rfl⟩ := Option.map_eq_some_iff.1 hn
        rfl
      · exact hroot x n hn hpr
    · rw [TraceTree.getNode_markCompleted, if_neg hx] at hn
      exact hne x n hx hn

/-- Finished traces have a node that is not active; the other nodes are as before. -/
lemma Finishes.nodes {mo : ModelRunnerOutput} {fin : List ReqId} (h : Finishes cfg so mo fin e e')
    (hg : gambitEnabled cfg = true) (hp : PrunedInactive e.traceTree) :
    PrunedInactive e'.traceTree ∧
      (∀ x ∈ fin, ∃ n, e'.traceTree.getNode x = some n ∧ n.isActive = false) ∧
      ∀ x n, x ∉ fin → e'.traceTree.getNode x = some n → e.traceTree.getNode x = some n := by
  have hinv : ∀ t, ∀ rid ∈ fin, ∀ score tokens, PrunedInactive t →
      PrunedInactive (onRequestFinished t rid score tokens) :=
    fun t rid _ score tokens ht => (onRequestFinished_inactive ht rid score tokens).1
  refine ⟨h.tree PrunedInactive hinv hp, fun x hx => ?_, fun x n hx => ?_⟩
  · refine h.finishes hg (fun t => ∃ n, t.getNode x = some n ∧ n.isActive = false) PrunedInactive x
      hx hp hinv (fun t score tokens ht => (onRequestFinished_inactive ht x score tokens).2.1) ?_
    intro t rid _ score tokens ht hP
    by_cases hxr : x = rid
    · subst hxr
      exact (onRequestFinished_inactive ht x score tokens).2.1
    · obtain ⟨n, hn, hin⟩ := hP
      obtain ⟨n', hn', hle⟩ := (onRequestFinished_flags rid score tokens).1 x n hn
      exact ⟨n', hn', hle.inactive hin⟩
  · refine (h.tree (fun t => PrunedInactive t ∧
      (t.getNode x = some n → e.traceTree.getNode x = some n)) ?_ ⟨hp, id⟩).2
    intro t rid hr score tokens ht
    obtain ⟨h1, -, h3⟩ := onRequestFinished_inactive ht.1 rid score tokens
    exact ⟨h1, fun hn => ht.2 (h3 x n (fun he => hx (he ▸ hr)) hn)⟩

/-- The end of a step keeps the correspondence. -/
lemma CoverMid.finish {mo : ModelRunnerOutput} {fin : List ReqId} (h : CoverMid cfg ev so e)
    (hfl : InFlight cfg ev e) (hg : gambitEnabled cfg = true)
    (hfin : Finishes cfg so mo fin e e') : Cover cfg ev e' ∧ InFlight cfg ev e' := by
  obtain ⟨hpruned, hdone, hback⟩ := hfin.nodes hg h.1.pruned
  have hcov : ∀ x, Covered ev e x → Covered ev e' x := by
    intro x hx
    refine hx.mono (fun y hy => ?_) (fun y hy => ?_) fun _ => id
    · refine hfin.tree (fun t => y ∈ t) (fun t rid _ score tokens ht => ?_) hy
      obtain ⟨n, hn⟩ := TraceTree.mem_iff_getNode.1 ht
      obtain ⟨n', hn', -⟩ := (onRequestFinished_flags rid score tokens).1 y n hn
      exact TraceTree.mem_of_getNode hn'
    · by_cases hy' : y ∈ e'.scheduler.requests
      · exact .inr (.inl hy')
      · obtain ⟨n, hn, -⟩ := hdone y (hfin.fin_of_gone hy hy')
        exact .inl (TraceTree.mem_of_getNode hn)
  have hz := hfin.finalized
  have hfin' : ∀ x, x ∈ fin → Covered ev e' x := by
    intro x hx
    obtain ⟨n, hn, -⟩ := hdone x hx
    exact .inl (TraceTree.mem_of_getNode hn)
  refine ⟨⟨fun x n hn ha => ?_, hpruned, fun x hx => ?_⟩, fun reply hr x hx => ?_⟩
  · have hnf : x ∉ fin := by
      intro hx
      obtain ⟨m, hm, hin⟩ := hdone x hx
      rw [hn] at hm
      cases hm
      rw [ha] at hin
      cases hin
    refine (h.1.active x n (hback x n hnf hn) ha).imp_left fun hl => ?_
    by_contra hgone
    exact hnf (hfin.fin_of_gone hl hgone)
  · by_cases hxf : x ∈ fin
    · exact hfin' x hxf
    · refine hcov x (h.1.scored x ((mem_traceAvgScores_congr ?_ ?_ ?_).1 hx))
      · rw [hz.traceScores, if_neg hxf]
      · rw [hz.traceScoreSums, if_neg hxf]
      · rw [hz.traceScoreCounts, if_neg hxf]
  · by_cases hxf : x ∈ fin
    · exact hfin' x hxf
    · rw [hz.asyncScorerFuture] at hr
      refine hcov x (hfl reply hr x (mem_avgsWith_of hx ?_ ?_ ?_))
      · rw [hz.traceScores, if_neg hxf]
      · rw [hz.traceScoreSums, if_neg hxf]
      · rw [hz.traceScoreCounts, if_neg hxf]

/-- Evicted in a step of the run. -/
def evictedIn (o : List StepRecord) (rid : ReqId) : Prop := ∃ s ∈ o, rid ∈ s.evicted

/-- The correspondence between two events. -/
def CoverState (cfg : VllmConfig) (o : List StepRecord) (e : EngineCore μ) : Prop :=
  Cover cfg (evictedIn o) e ∧ InFlight cfg (evictedIn o) e

/-- An abort that leaves no active node behind: whoever is live has a node that is not active, or no
node and no score, recorded or in flight. -/
def AbortSafe (cfg : VllmConfig) (e : EngineCore μ) : Event → Prop
  | .abortRequests rids => ∀ rid ∈ rids, rid ∈ e.scheduler.requests →
    match e.traceTree.getNode rid with
    | some n => n.isActive = false
    | none => rid ∉ e.traceAvgScores cfg ∧
      ∀ reply ∈ e.asyncScorerFuture, rid ∉ e.avgsWith cfg reply
  | _ => True

instance (cfg : VllmConfig) (e : EngineCore μ) : (ev : Event) → Decidable (AbortSafe cfg e ev)
  | .abortRequests rids => by
    unfold AbortSafe
    refine @List.decidableBAll _ _ (fun rid => ?_) rids
    refine @instDecidableForall _ _ _ ?_
    cases e.traceTree.getNode rid <;> dsimp only <;> infer_instance
  | .addRequest _ | .postStep _ | .step _ => inferInstanceAs (Decidable True)

/-- More evictions. -/
lemma CoverState.mono {o o' : List StepRecord} (h : CoverState cfg o e) (ho : o ⊆ o') :
    CoverState cfg o' e := by
  have hev : ∀ x, evictedIn o x → evictedIn o' x := fun x ⟨s, hs, hx⟩ => ⟨s, ho hs, hx⟩
  have hcov : ∀ x, Covered (evictedIn o) e x → Covered (evictedIn o') e x :=
    fun x hx => hx.mono (fun _ => id) (fun _ hy => .inr (.inl hy)) hev
  exact ⟨h.1.congr rfl (fun _ => .inl) hev h.1.scored,
    fun reply hr x hx => hcov x (h.2 reply hr x hx)⟩

/-- A step keeps the correspondence. -/
lemma CoverState.step {o : List StepRecord} (ops : Caches μ β) (h : CoverState cfg o e)
    (hb : Base cfg added e) (hg : gambitEnabled cfg = true) :
    CoverState cfg (o ++ [(e.step ops cfg i).record]) (e.step ops cfg i) := by
  cases hreq : e.scheduler.hasRequests with
  | true =>
    obtain ⟨hc, hf⟩ := h
    have hsched : Scheduler.ScheduleSpec ops cfg e.scheduler
        (e.scheduler.schedule ops cfg i.grammarReady).1
        (e.scheduler.schedule ops cfg i.grammarReady).2 := hb.wf.schedule i.grammarReady
    have hold : ∀ x, evictedIn o x → evictedIn (o ++ [(e.step ops cfg i).record]) x :=
      fun x ⟨s, hs, hx⟩ => ⟨s, List.mem_append_left _ hs, hx⟩
    -- whoever leaves during `schedule` is evicted, and the record says so
    have hlive : ∀ x ∈ e.scheduler.requests, x ∈ (e.afterSchedule ops cfg i).1.scheduler.requests ∨
        evictedIn (o ++ [(e.step ops cfg i).record]) x := by
      intro x hx
      refine (hsched.evolves.gone x hx).imp_right fun hev => ?_
      refine ⟨(e.step ops cfg i).record, by simp, ?_⟩
      rw [(hb.record_step ops hreq).2.2]
      exact hev
    have hcov : ∀ x, Covered (evictedIn o) e x →
        Covered (evictedIn (o ++ [(e.step ops cfg i).record])) (e.afterSchedule ops cfg i).1 x :=
      fun x hx => hx.mono (fun _ => id) (fun y hy => .inr (hlive y hy)) hold
    have hstart : CoverMid cfg (evictedIn (o ++ [(e.step ops cfg i).record]))
        (e.afterSchedule ops cfg i).2 (e.afterSchedule ops cfg i).1 :=
      ⟨hc.congr rfl hlive hold hc.scored,
        fun x hx => .inr (hlive x (hsched.scheduled x hx))⟩
    have hfly : InFlight cfg (evictedIn (o ++ [(e.step ops cfg i).record]))
        (e.afterSchedule ops cfg i).1 := by
      intro reply hr x hx
      exact hcov x (hf reply hr x (mem_avgsWith_of hx rfl rfl rfl))
    obtain ⟨e1, mo, fin, -, ⟨hm, hfl⟩, -, -, -, -, -, hfin, -⟩ :=
      hb.step_stages ops hreq phaseStages_cover ⟨hstart, hfly⟩
    exact hm.finish hfl hg hfin
  | false =>
    refine CoverState.mono (o := o) ?_ (List.subset_append_left _ _)
    obtain ⟨hc, hf⟩ := h
    rw [EngineCore.step, if_neg (by simp [hreq])]
    unfold idleCleanup
    rw [if_pos hg]
    generalize (e.traceTree.nodes.entries.filter fun n => n.2.isActive).map Prod.fst = l
    have hmem : ∀ x ∈ e.traceTree, x ∈ l.foldl TraceTree.markPruned e.traceTree := by
      intro x hx
      obtain ⟨n, hn⟩ := TraceTree.mem_iff_getNode.1 hx
      obtain ⟨n', hn', -⟩ := flagsLE_foldl_markPruned l e.traceTree x n hn
      exact TraceTree.mem_of_getNode hn'
    refine ⟨hc.retree ?_ hmem rfl (fun _ => id) fun x hx => .inl (hc.scored x hx), ?_⟩
    · intro x n hn
      rw [TraceTree.getNode_foldl_markPruned] at hn
      split at hn
      · obtain ⟨m, hm, rfl⟩ := Option.map_eq_some_iff.1 hn
        exact .inl ⟨m, hm, fun hx => (by cases hx), fun _ => .inr rfl⟩
      · exact .inl ⟨n, hn, id, .inl⟩
    · intro reply hr x hx
      refine (hf reply hr x (mem_avgsWith_of hx rfl rfl rfl)).mono hmem
        (fun _ hy => .inr (.inl hy)) fun _ => id

/-- Adding a request keeps the correspondence. -/
lemma CoverState.addRequest {h : List Event} {o : List StepRecord} {r : Request}
    (hs : CoverState cfg o e) (hb : Base cfg (h.filterMap Event.added) e)
    (hg : gambitEnabled cfg = true) (hok : Event.Ok h (.addRequest r)) :
    CoverState cfg o { e.addRequest cfg r with record := {} } := by
  obtain ⟨hc, hf⟩ := hs
  have hnew : r.requestId ∉ e.traceTree := fun hm => not_issued_of_ok hok (hb.tree _ hm)
  unfold EngineCore.addRequest
  rw [if_pos hg]
  dsimp only
  generalize (if r.requestId ∈ e.gambitOutputTokenIds then e.gambitOutputTokenIds
    else e.gambitOutputTokenIds.set r.requestId []) = bufs
  have hl : ∀ x ∈ e.scheduler.requests, x ∈ (e.scheduler.addRequest cfg.policy r).requests :=
    fun x hx => Scheduler.mem_addRequest.2 (.inr hx)
  split
  · have hmem : ∀ x ∈ e.traceTree, x ∈ e.traceTree.addRoot r.requestId :=
      fun x hx => TraceTree.mem_addRoot.2 (.inr hx)
    refine ⟨hc.retree ?_ hmem rfl hl fun x hx => .inl (hc.scored x hx), fun reply hr x hx => ?_⟩
    · intro x n hn
      rw [TraceTree.getNode_addRoot] at hn
      split at hn
      · next hx =>
        cases hn
        exact .inr ⟨rfl, .inl (Scheduler.mem_addRequest.2 (.inl hx))⟩
      · exact .inl ⟨n, hn, id, .inl⟩
    · exact (hf reply hr x (mem_avgsWith_of hx rfl rfl rfl)).mono hmem
        (fun y hy => .inr (.inl (hl y hy))) fun _ => id
  · refine ⟨hc.congr rfl (fun x hx => .inl (hl x hx)) (fun _ => id) hc.scored,
      fun reply hr x hx => ?_⟩
    exact (hf reply hr x (mem_avgsWith_of hx rfl rfl rfl)).mono (fun _ => id)
      (fun y hy => .inr (.inl (hl y hy))) fun _ => id

/-- A safe abort keeps the correspondence. -/
lemma CoverState.abort {o : List StepRecord} (ops : Caches μ β) {rids : List ReqId}
    (h : CoverState cfg o e) (hb : Base cfg added e) (hsafe : AbortSafe cfg e (.abortRequests rids)) :
    CoverState cfg o { e.abortRequests ops rids with record := {} } := by
  obtain ⟨hc, hf⟩ := h
  have hfin := hb.wf.finishRequests ops rids .finishedAborted
  have hstay : ∀ x ∈ e.scheduler.requests, x ∉ rids →
      x ∈ (e.scheduler.finishRequests ops rids .finishedAborted).requests := by
    intro x hx hn
    rw [Dict.mem_iff_get?, hfin.requests, if_neg hn]
    exact Dict.mem_iff_get?.1 hx
  -- whoever is covered and scored is still covered: an aborted one has a node
  have hcov : ∀ x, Covered (evictedIn o) e x →
      (x ∈ e.traceAvgScores cfg ∨ ∃ reply, e.asyncScorerFuture = some reply ∧
        x ∈ e.avgsWith cfg reply) →
      Covered (evictedIn o) ({ e.abortRequests ops rids with record := {} } : EngineCore μ) x := by
    intro x hx hscore
    rcases hx with hx | hx | hx
    · exact .inl hx
    · by_cases hr : x ∈ rids
      · have hs := hsafe x hr hx
        cases hn : e.traceTree.getNode x with
        | some n => exact .inl (TraceTree.mem_of_getNode hn)
        | none =>
          rw [hn] at hs
          rcases hscore with hscore | ⟨reply, hreply, hscore⟩
          · exact absurd hscore hs.1
          · exact absurd hscore (hs.2 reply hreply)
      · exact .inr (.inl (hstay x hx hr))
    · exact .inr (.inr hx)
  refine ⟨⟨fun x n hn ha => ?_, hc.pruned, fun x hx => hcov x (hc.scored x hx) (.inl hx)⟩,
    fun reply hr x hx => ?_⟩
  · refine (hc.active x n hn ha).imp_left fun hl => hstay x hl fun hr => ?_
    have hs := hsafe x hr hl
    rw [show e.traceTree.getNode x = some n from hn] at hs
    dsimp only at hs
    rw [ha] at hs
    cases hs
  · have hx' : x ∈ e.avgsWith cfg reply := mem_avgsWith_of hx rfl rfl rfl
    exact hcov x (hf reply hr x hx') (.inr ⟨reply, hr, hx'⟩)

/-- Every event keeps the correspondence, if its aborts are safe. -/
lemma CoverState.handle {h : List Event} {o : List StepRecord} {ev : Event}
    (hs : CoverState cfg o e) (hb : Base cfg (h.filterMap Event.added) e)
    (hg : gambitEnabled cfg = true) (hok : Event.Ok h ev) (hsafe : AbortSafe cfg e ev) :
    CoverState cfg (o ++ [(e.handle ops cfg ev).record]) (e.handle ops cfg ev) := by
  cases ev with
  | addRequest r => exact (hs.addRequest hb hg hok).mono (List.subset_append_left _ _)
  | abortRequests rids => exact (hs.abort ops hb hsafe).mono (List.subset_append_left _ _)
  | postStep drafts =>
    refine CoverState.mono (o := o) ?_ (List.subset_append_left _ _)
    have hr := Scheduler.relabels_updateDraftTokenIds e.scheduler drafts
    exact ⟨hs.1.congr rfl (fun x hx => .inl (hr.mem.2 hx)) (fun _ => id) hs.1.scored,
      hs.2.congr rfl rfl rfl rfl rfl fun x => hr.mem⟩
  | step i => exact hs.step ops hb hg

end EngineCore

/-- Active traces are live or ghosts: along every run whose aborts are safe, an active node belongs to
a request of the scheduler, or to one that `_stop_lowest_running` evicted. -/
theorem active_live_or_evicted {μ β : Type} {ops : Caches μ β} {cfg : VllmConfig} {m : μ}
    {h : List Event} {o : List StepRecord} {e : EngineCore μ}
    (run : (engineMachine ops cfg m).Runs h o e) (hg : cfg.gambit.enableBranching = true)
    (hsafe : (engineMachine ops cfg m).Along (EngineCore.AbortSafe cfg) h) :
    ∀ rid n, e.traceTree.getNode rid = some n → n.isActive = true →
      rid ∈ e.scheduler.requests ∨ ∃ s ∈ o, rid ∈ s.evicted := by
  suffices hs : EngineCore.CoverState cfg o e from hs.1.active
  induction run with
  | init =>
    have hno := EngineCore.not_mem_init cfg m
    refine ⟨⟨fun x n hn => absurd (TraceTree.mem_of_getNode hn) (hno x),
      fun x n hn => absurd (TraceTree.mem_of_getNode hn) (hno x), fun x hx => ?_⟩,
      fun reply hr => by cases hr⟩
    rcases EngineCore.mem_traceAvgScores hx with hx | hx <;> exact absurd hx Dict.not_mem_empty
  | step run hok ih =>
    obtain ⟨hl, hlast⟩ := run.along_concat hsafe
    exact (ih hl).handle (base_of_runs run) hg hok hlast

/-- One live root, and a request that is aborted before it has a node. -/
def earlyAbortEvents : List Event :=
  [.addRequest { requestId := "0_1".toList, promptTokenIds := [1, 2, 3] },
    .addRequest { requestId := "a".toList, promptTokenIds := [1, 2, 3] },
    .step (.ofSamples (fun _ => [5]) fun _ => 1),
    .abortRequests ["a".toList],
    .step (.ofSamples (fun _ => [5]) fun _ => 1)]

/-- Aborting a request without a node leaves the live root as the only active one. -/
theorem active_live_or_evicted_early_abort :
    (engineMachine .unbounded asyncSample ()).Runs earlyAbortEvents
        ((engineMachine .unbounded asyncSample ()).exec earlyAbortEvents).1
        ((engineMachine .unbounded asyncSample ()).exec earlyAbortEvents).2 ∧
      ∀ rid n, ((engineMachine .unbounded asyncSample ()).exec earlyAbortEvents).2.traceTree.getNode
          rid = some n → n.isActive = true →
        rid ∈ ((engineMachine .unbounded asyncSample ()).exec earlyAbortEvents).2.scheduler.requests ∨
          ∃ s ∈ ((engineMachine .unbounded asyncSample ()).exec earlyAbortEvents).1,
            rid ∈ s.evicted := by
  have run : (engineMachine .unbounded asyncSample ()).Runs earlyAbortEvents
      ((engineMachine .unbounded asyncSample ()).exec earlyAbortEvents).1
      ((engineMachine .unbounded asyncSample ()).exec earlyAbortEvents).2 :=
    Machine.Runs.of_exec (by decide +kernel)
  exact ⟨run, active_live_or_evicted run rfl (by decide +kernel)⟩

/-- A root that is aborted. -/
def rootAbortEvents : List Event :=
  [.addRequest { requestId := "0_1".toList, promptTokenIds := [1, 2, 3] },
    .abortRequests ["0_1".toList]]

/-- Aborting a root leaves its node active. -/
theorem aborted_stays_active :
    (engineMachine .unbounded asyncSample ()).Runs rootAbortEvents
        ((engineMachine .unbounded asyncSample ()).exec rootAbortEvents).1
        ((engineMachine .unbounded asyncSample ()).exec rootAbortEvents).2 ∧
      (((engineMachine .unbounded asyncSample ()).exec rootAbortEvents).2.traceTree.getNode
        "0_1".toList).any (·.isActive) = true ∧
      "0_1".toList ∉
        ((engineMachine .unbounded asyncSample ()).exec rootAbortEvents).2.scheduler.requests ∧
      ∀ s ∈ ((engineMachine .unbounded asyncSample ()).exec rootAbortEvents).1,
        "0_1".toList ∉ s.evicted := by
  refine ⟨Machine.Runs.of_exec (by decide +kernel), ?_⟩
  decide +kernel

end Gambit.Engine
