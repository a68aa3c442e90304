import Gambit.Engine.Capacity
import Gambit.Engine.Prefix
import Gambit.Trace.Forest

/-!
# Trees of a run

`TreeRules P` collects what the operations on the trace tree must keep for `P` to hold of the tree in
every reachable state, and of every later tree once it holds of one. The first use is that the tree
is a forest. The second part is about ids: the ids generated for branches carry the numbers
`0, 1, 2, ...` in the order of the run, failed branches included, so no id is generated twice, and
every trace of the engine was added from outside or generated.
-/

namespace Gambit.Engine
open Gambit.Lib Gambit.Sched Gambit.Trace

namespace EngineCore
variable {μ β : Type} {ops : Caches μ β} {cfg : VllmConfig} {i : StepInput} {e e' : EngineCore μ}
variable {added : List ReqId} {so : SchedulerOutput β} {avgs : Dict ReqId ℚ} {P : TraceTree → Prop}

/-- Whether enough traces are completed (`_gambit_should_stop_after_completed` on the tree). -/
def limitReached (cfg : VllmConfig) (t : TraceTree) : Bool :=
  if cfg.gambit.stopAfterCompletedTraces ≤ 0 then false
  else cfg.gambit.stopAfterCompletedTraces ≤ (t.getCompletedCount : Int)

/-- What the operations on the tree must keep for `P` to survive a run; a branch is only added below
the completion limit. -/
structure TreeRules (cfg : VllmConfig) (P : TraceTree → Prop) : Prop where
  incrementStep : ∀ t, P t → P t.incrementStep
  ensureRoot : ∀ t rid, P t → P (t.ensureRoot rid)
  recordScore : ∀ t rid q, P t → P (t.recordScore rid q)
  markPruned : ∀ t rid, P t → P (t.markPruned rid)
  addBranch : ∀ t t' parent child len, limitReached cfg t = false → child ∉ t →
    t.addBranch parent child len = some t' → P t → P t'
  removeTrace : ∀ t t' parent child len, limitReached cfg t = false → child ∉ t →
    t.addBranch parent child len = some t' → P t → P (t'.removeTrace child)
  finished : ∀ t rid score tokens, P t → P (onRequestFinished t rid score tokens)

/-- A move. -/
lemma TreeRules.move (rules : TreeRules cfg P) (hb : Base cfg added e) (h : P e.traceTree)
    (hm : Move cfg i avgs e e') : P e'.traceTree := by
  cases hm with
  | count => exact rules.incrementStep _ h
  | register =>
    unfold registerScore
    dsimp only
    split
    · exact rules.recordScore _ _ _ (rules.ensureRoot _ _ h)
    · exact rules.ensureRoot _ _ h
  | pruneTested | pruneRanked | forceStop => exact rules.markPruned _ _ h
  | round => exact h
  | flush => unfold flushHistories; split <;> exact h
  | branch parent =>
    have hc := hb.not_mem_tree parent
    cases hlim : e.shouldStopAfterCompleted cfg with
    | true => rw [createBranch, if_pos hlim]; exact h
    | false =>
      rcases createBranch_cases cfg i e parent with
        heq | ⟨t, -, ht, heq⟩ | ⟨r, t, c, -, -, ht, -, heq⟩
      · rw [heq]; exact h
      · rw [heq]; exact rules.removeTrace _ _ _ _ _ hlim hc ht h
      · obtain ⟨ts, ss, cs, hadopt, -⟩ := adoptChild_eq cfg e t parent c r.allTokenIds
        rw [heq, hadopt]
        exact rules.addBranch _ _ _ _ _ hlim hc ht h

/-- The phases between `schedule` and the capture of tokens. -/
lemma TreeRules.phaseRules (rules : TreeRules cfg P) :
    PhaseRules (μ := μ) cfg i added so (fun e => P e.traceTree) where
  absorb e e' reply _ h _ habs _ := by
    obtain ⟨_, _, _, _, _, rfl, -⟩ := habs
    exact h
  submit e e' _ h _ hs := by
    obtain ⟨_, _, _, rfl, -⟩ := hs
    exact h
  label e scores _ h := h
  move e e' avgs hb h _ _ hm := rules.move hb h hm
  drop e ids _ h := h
  trigger e mo _ h _ := by
    obtain ⟨tc, sl, heq, -⟩ := detectTriggers_eq cfg e mo
    rw [heq]; exact h
  inject e mo _ h := by
    obtain ⟨s, low, force, mo', heq, -⟩ := injectEos_eq e mo
    rw [heq]; exact h

/-- The idle branch. -/
lemma TreeRules.idle (rules : TreeRules cfg P) (h : P e.traceTree) :
    P (e.idleCleanup cfg).traceTree := by
  unfold idleCleanup
  split
  · generalize (e.traceTree.nodes.entries.filter fun n => n.2.isActive).map Prod.fst = l
    dsimp only
    generalize e.traceTree = t at h
    induction l generalizing t with
    | nil => exact h
    | cons x l ih => exact ih _ (rules.markPruned t x h)
  · exact h

/-- Every event keeps the property. -/
lemma TreeRules.handle {ev : Event} (rules : TreeRules cfg P) (hb : Base cfg added e)
    (h : P e.traceTree) : P (e.handle ops cfg ev).traceTree := by
  cases ev with
  | addRequest r =>
    simp only [EngineCore.handle, EngineCore.addRequest]
    split
    · have hroot := rules.ensureRoot e.traceTree r.requestId h
      dsimp only
      split
      · next hc =>
        rw [TraceTree.ensureRoot, if_neg hc.1] at hroot
        exact hroot
      · exact h
    · exact h
  | abortRequests rids => exact h
  | postStep drafts => exact h
  | step i =>
    simp only [EngineCore.handle]
    cases hreq : e.scheduler.hasRequests with
    | true =>
      obtain ⟨e1, mo, fin, -, h1, -, -, -, -, -, hfin, -⟩ :=
        hb.step_rule ops hreq (rules.phaseRules (i := i)) h
      exact hfin.tree P (fun t rid _ score tokens ht => rules.finished t rid score tokens ht) h1
    | false =>
      rw [EngineCore.step, if_neg (by simp [hreq])]
      exact rules.idle h

end EngineCore

section Runs
variable {μ β : Type} {ops : Caches μ β} {cfg : VllmConfig} {m : μ} {P : TraceTree → Prop}
variable {h h' : List Event} {o o' : List StepRecord} {e e' : EngineCore μ}

/-- A property of the tree that its operations keep holds in every reachable state. -/
theorem tree_of_runs (rules : EngineCore.TreeRules cfg P) (h0 : P (EngineCore.freshTree cfg))
    (run : (engineMachine ops cfg m).Runs h o e) : P e.traceTree := by
  induction run with
  | init => exact h0
  | step run _ ih => exact rules.handle (base_of_runs run) ih

/-- A property of the tree that its operations keep holds in every later state. -/
theorem tree_of_continue (rules : EngineCore.TreeRules cfg P) (he : P e.traceTree)
    (run : (engineMachine ops cfg m).Runs h o e)
    (run' : (engineMachine ops cfg m).Runs (h ++ h') o' e') : P e'.traceTree :=
  run.continue run' he fun hrun _ _ ht => rules.handle (base_of_runs hrun) ht

end Runs

/-- A finished request keeps the forest. -/
lemma forest_onRequestFinished {t : TraceTree} (h : Forest t) (rid : ReqId) (score : Option ℚ)
    (tokens : Option (List Token)) : Forest (EngineCore.onRequestFinished t rid score tokens) := by
  unfold EngineCore.onRequestFinished
  dsimp only
  split
  · exact (h.ensureRoot rid).setOutput _ _
  · exact (h.ensureRoot rid).markCompleted _ _

/-- Being a forest survives every operation. -/
lemma treeRules_forest {cfg : VllmConfig} : EngineCore.TreeRules cfg Forest where
  incrementStep _ h := h.incrementStep
  ensureRoot _ rid h := h.ensureRoot rid
  recordScore _ rid q h := h.recordScore rid q
  markPruned _ rid h := h.markPruned rid
  addBranch _ _ _ _ _ _ hc hb h := h.addBranch hb hc
  removeTrace _ _ _ _ _ _ hc hb h := h.removeTrace_addBranch hb hc
  finished _ rid score tokens h := forest_onRequestFinished h rid score tokens

/-- The first tree is a forest. -/
lemma forest_freshTree (cfg : VllmConfig) : Forest (EngineCore.freshTree cfg) := by
  refine .of_empty (EngineCore.not_mem_init cfg ()) ?_
  unfold EngineCore.freshTree
  split <;> rfl

/-- The id a decision generated. -/
def Decision.generated : Decision → Option ReqId
  | .branch _ child _ => some child
  | .branchFailed _ child => some child
  | _ => none

/-- The ids a step generated for branches, in order. -/
def StepRecord.generated (s : StepRecord) : List ReqId := s.decisions.filterMap Decision.generated

/-- The ids carry the numbers from 0 on. -/
def Numbered (ids : List ReqId) : Prop := ∀ k rid, ids[k]? = some rid → ∃ p, rid = branchId k p

/-- One more number. -/
lemma Numbered.concat {ids : List ReqId} {p : ReqId} (h : Numbered ids) :
    Numbered (ids ++ [branchId ids.length p]) := by
  intro k rid hk
  rw [List.getElem?_append] at hk
  split at hk
  · exact h k rid hk
  · next hlt =>
    have hz : k - ids.length = 0 := by
      by_contra hne
      rw [List.getElem?_eq_none (by simp; omega)] at hk
      cases hk
    have hkl : k = ids.length := by omega
    subst hkl
    simp only [Nat.sub_self, List.getElem?_cons_zero, Option.some.injEq] at hk
    exact ⟨p, hk.symm⟩

/-- Numbered ids are distinct. -/
lemma Numbered.nodup {ids : List ReqId} (h : Numbered ids) : ids.Nodup := by
  rw [List.nodup_iff_getElem?_ne_getElem?]
  intro j k hjk hk heq
  obtain ⟨y, hy⟩ : ∃ y, ids[k]? = some y := ⟨ids[k], List.getElem?_eq_getElem hk⟩
  obtain ⟨p, hp⟩ := h k y hy
  obtain ⟨q, hq⟩ := h j y (heq.trans hy)
  have := (branchId_inj (hq.symm.trans hp)).1
  omega

namespace EngineCore
variable {μ β : Type} {ops : Caches μ β} {cfg : VllmConfig} {i : StepInput} {e e' : EngineCore μ}
variable {added past : List ReqId} {so : SchedulerOutput β} {avgs : Dict ReqId ℚ}

/-- Every id the engine knows about is one of `K`. -/
structure Ids (K : ReqId → Prop) (e : EngineCore μ) : Prop where
  live : ∀ rid ∈ e.scheduler.requests, K rid
  tree : ∀ rid ∈ e.traceTree, K rid
  scored : ∀ rid, rid ∈ e.traceScores ∨ rid ∈ e.traceScoreCounts → K rid
  pending : ∀ rid ∈ e.pendingHsClassification, K rid
  inFlight : ∀ reply, e.asyncScorerFuture = some reply → ∀ rid, Answers reply rid → K rid

/-- The ids generated so far: in earlier steps and in this one. -/
def generatedIds (past : List ReqId) (e : EngineCore μ) : List ReqId := past ++ e.record.generated

/-- Generated ids are numbered up to the branch counter, and every other id was added. -/
structure Traced (added past : List ReqId) (e : EngineCore μ) : Prop where
  numbered : Numbered (e.generatedIds past)
  counter : (e.generatedIds past).length = e.traceTree.branchCounter
  ids : Ids (fun rid => rid ∈ added ∨ rid ∈ e.generatedIds past) e

/-- The same log, counter and no new id. -/
lemma Traced.congr (h : Traced added past e) (hd : e'.record.generated = e.record.generated)
    (hc : e'.traceTree.branchCounter = e.traceTree.branchCounter)
    (hids : Ids (fun rid => rid ∈ added ∨ rid ∈ e.generatedIds past) e') : Traced added past e' := by
  have hg : e'.generatedIds past = e.generatedIds past := by rw [generatedIds, hd]; rfl
  refine ⟨hg ▸ h.numbered, ?_, hg ▸ hids⟩
  rw [hg, hc]
  exact h.counter

/-- Another decision that generates nothing. -/
lemma generated_logDecision {d : Decision} (hd : d.generated = none) :
    (e.logDecision d).record.generated = e.record.generated := by
  simp [StepRecord.generated, logDecision, List.filterMap_append, hd]

/-- A decision that generates an id. -/
lemma generated_concat {s : StepRecord} {d : Decision} {rid : ReqId} (hd : d.generated = some rid) :
    ({ s with decisions := s.decisions ++ [d] } : StepRecord).generated = s.generated ++ [rid] := by
  simp [StepRecord.generated, List.filterMap_append, hd]

/-- A branch takes the next number. -/
lemma Traced.generate {d : Decision} {parent : ReqId} (h : Traced added past e)
    (hd : d.generated = some (e.traceTree.generateBranchId parent))
    (hrec : e'.record.decisions = e.record.decisions ++ [d])
    (hc : e'.traceTree.branchCounter = e.traceTree.branchCounter + 1)
    (hids : Ids (fun rid => rid = e.traceTree.generateBranchId parent ∨ rid ∈ added ∨
      rid ∈ e.generatedIds past) e') : Traced added past e' := by
  have hg : e'.generatedIds past =
      e.generatedIds past ++ [e.traceTree.generateBranchId parent] := by
    have := generated_concat (s := e.record) hd
    unfold generatedIds
    rw [List.append_assoc, ← this, StepRecord.generated, StepRecord.generated, hrec]
  have hk : ∀ rid, (rid = e.traceTree.generateBranchId parent ∨ rid ∈ added ∨
      rid ∈ e.generatedIds past) → rid ∈ added ∨ rid ∈ e'.generatedIds past := by
    intro rid hr
    rw [hg, List.mem_append, List.mem_singleton]
    tauto
  refine ⟨?_, ?_, ?_⟩
  · rw [hg, TraceTree.generateBranchId, ← h.counter]
    exact h.numbered.concat
  · rw [hg, List.length_append, List.length_singleton, h.counter, hc]
  · exact ⟨fun x hx => hk x (hids.live x hx), fun x hx => hk x (hids.tree x hx),
      fun x hx => hk x (hids.scored x hx), fun x hx => hk x (hids.pending x hx),
      fun reply hr x hx => hk x (hids.inFlight reply hr x hx)⟩

/-- A move keeps the ids traced. -/
lemma Traced.move (h : Traced added past e) (hb : Base cfg added e) (ha : AvgsOf cfg e avgs)
    (hm : Move cfg i avgs e e') : Traced added past e' := by
  obtain ⟨hlive, htree, hscored, hpending, hflight⟩ := h.ids
  cases hm with
  | count => exact h.congr rfl rfl ⟨hlive, htree, hscored, hpending, hflight⟩
  | register hs =>
    rename_i s
    have hk : s.1 ∈ added ∨ s.1 ∈ e.generatedIds past := by
      obtain ⟨q, hq⟩ := Dict.mem_iff_get?.1 (List.mem_map_of_mem (f := Prod.fst) hs : s.1 ∈ avgs)
      exact hscored s.1 (mem_traceAvgScores (Dict.mem_of_get? (ha s.1 q hq)))
    have hc : (registerScore cfg e s).traceTree.branchCounter = e.traceTree.branchCounter := by
      unfold registerScore
      dsimp only
      split <;> exact (e.traceTree.ensureRoot_frame s.1).1
    refine h.congr rfl hc ⟨hlive, fun x hx => ?_, hscored, hpending, hflight⟩
    rcases mem_registerScore.1 hx with rfl | hx
    · exact hk
    · exact htree x hx
  | pruneTested | pruneRanked | forceStop =>
    refine h.congr (generated_logDecision rfl) rfl ⟨hlive, fun x hx => ?_, hscored, hpending, hflight⟩
    exact htree x (TraceTree.mem_markPruned.1 hx)
  | round => exact h.congr rfl rfl ⟨hlive, htree, hscored, hpending, hflight⟩
  | flush =>
    unfold flushHistories
    split
    · exact h
    · exact h.congr rfl rfl ⟨hlive, htree, hscored, hpending, hflight⟩
  | branch parent =>
    have hc := hb.not_mem_tree parent
    rcases createBranch_cases cfg i e parent with heq | ⟨t, -, ht, heq⟩ | ⟨r, t, c, -, -, ht, hcr, heq⟩
    · rw [heq]; exact h
    · have hcnt : (t.removeTrace (e.traceTree.generateBranchId parent)).branchCounter =
          e.traceTree.branchCounter + 1 := by
        rw [TraceTree.removeTrace_branchCounter, (TraceTree.addBranch_frame ht).1]
      rw [heq]
      refine h.generate (d := .branchFailed parent _) rfl rfl hcnt
        ⟨fun x hx => .inr (hlive x hx), fun x hx => .inr (htree x ?_), fun x hx => .inr (hscored x hx),
          fun x hx => .inr (hpending x hx), fun reply hr x hx => .inr (hflight reply hr x hx)⟩
      exact (mem_removeTrace_addBranch ht hc).1 hx
    · obtain ⟨ts, ss, cs, hadopt, hget⟩ := adoptChild_eq cfg e t parent c r.allTokenIds
      obtain ⟨hid, -⟩ := createChildRequest_eq hcr
      rw [heq, hadopt]
      refine h.generate (d := .branch parent c.requestId r.allTokenIds) (by rw [← hid]; rfl) rfl
        (TraceTree.addBranch_frame ht).1 ⟨fun x hx => ?_, fun x hx => ?_, fun x hx => ?_,
          fun x hx => .inr (hpending x hx), fun reply hr x hx => .inr (hflight reply hr x hx)⟩
      · exact (Scheduler.mem_addRequest.1 hx).imp (·.trans hid) (hlive x)
      · exact ((mem_addBranch ht hc).1 hx).imp_right (htree x)
      · by_cases hxc : x = c.requestId
        · exact .inl (hxc.trans hid)
        · obtain ⟨h1, -, h3⟩ := hget x hxc
          rw [Dict.mem_iff_get?, Dict.mem_iff_get?, h1, h3, ← Dict.mem_iff_get?,
            ← Dict.mem_iff_get?] at hx
          exact .inr (hscored x hx)

/-- The ids of a batch are traced. -/
def TracedMid (added past : List ReqId) (so : SchedulerOutput β) (e : EngineCore μ) : Prop :=
  Traced added past e ∧ ∀ x ∈ so.numScheduledTokens, x ∈ added ∨ x ∈ e.generatedIds past

/-- Generated ids stay generated. -/
lemma Move.generatedIds_subset {x : ReqId} (hm : Move cfg i avgs e e')
    (hx : x ∈ e.generatedIds past) : x ∈ e'.generatedIds past := by
  have hlog : ∀ d : Decision, e'.record.decisions = e.record.decisions ++ [d] →
      x ∈ e'.generatedIds past := by
    intro d hd
    unfold generatedIds StepRecord.generated at hx ⊢
    rw [hd, List.filterMap_append, ← List.append_assoc]
    exact List.mem_append_left _ hx
  cases hm with
  | count | register | round => exact hx
  | pruneTested | pruneRanked | forceStop => exact hlog _ rfl
  | flush => unfold flushHistories; split <;> exact hx
  | branch parent =>
    rcases createBranch_cases cfg i e parent with heq | ⟨t, -, -, heq⟩ | ⟨r, t, c, -, -, -, -, heq⟩
    · rw [heq]; exact hx
    · rw [heq] at hlog ⊢; exact hlog _ rfl
    · obtain ⟨ts, ss, cs, hadopt, -⟩ := adoptChild_eq cfg e t parent c r.allTokenIds
      rw [heq, hadopt] at hlog ⊢
      exact hlog _ rfl

/-- The phases between `schedule` and the capture of tokens keep the ids traced. -/
lemma phaseRules_traced : PhaseRules (μ := μ) cfg i added so (TracedMid added past so) where
  absorb e e' reply _ h hr habs hnone := by
    obtain ⟨ht, hso⟩ := h
    obtain ⟨hlive, htree, hscored, hpending, hflight⟩ := ht.ids
    have hans : ∀ x, Answers reply x → x ∈ added ∨ x ∈ e.generatedIds past := by
      intro x hx
      rcases hr with ⟨-, hfut⟩ | ⟨-, hdue⟩
      · exact hflight reply hfut x hx
      · exact hpending x (hdue x hx).1
    obtain ⟨hs, pend, fut, recorded, evaluated, rfl, hpend, -⟩ := habs
    refine ⟨ht.congr rfl rfl ⟨hlive, htree, fun x hx => ?_, fun x hx => hpending x (hpend x hx),
      fun reply' hr' => ?_⟩, hso⟩
    · rcases hx with hx | hx
      · rcases mem_recordScores.1 hx with hx | hx
        · exact hscored x (.inl hx)
        · exact hans x (mem_mergeScores.1 hx)
      · rcases mem_recordScores.2.2 hx with hx | hx
        · exact hscored x (.inr hx)
        · exact hans x (mem_mergeScores.1 hx)
    · rw [hnone] at hr'; cases hr'
  submit e e' _ h _ hs := by
    obtain ⟨ht, hso⟩ := h
    obtain ⟨hlive, htree, hscored, hpending, -⟩ := ht.ids
    obtain ⟨reply, _, ids, rfl, hans, hids⟩ := hs
    refine ⟨ht.congr rfl rfl ⟨hlive, htree, hscored, hpending, fun reply' hr' x hx => ?_⟩, hso⟩
    cases hr'
    exact hpending x (hids x (hans x hx)).1
  label e scores _ h := by
    obtain ⟨hlive, htree, hscored, hpending, hflight⟩ := h.1.ids
    refine ⟨h.1.congr rfl rfl ⟨fun x hx => hlive x ?_, htree, hscored, hpending, hflight⟩, h.2⟩
    exact (Scheduler.relabels_updateTraceScores e.scheduler scores).mem.1 hx
  move e e' avgs hb h _ ha hm :=
    ⟨h.1.move hb ha hm, fun x hx => (h.2 x hx).imp_right hm.generatedIds_subset⟩
  drop e ids _ h := by
    obtain ⟨hlive, htree, hscored, hpending, hflight⟩ := h.1.ids
    exact ⟨h.1.congr rfl rfl ⟨hlive, htree, hscored,
      fun x hx => hpending x (mem_removeIds.1 hx).1, hflight⟩, h.2⟩
  trigger e mo _ h hmo := by
    obtain ⟨hlive, htree, hscored, hpending, hflight⟩ := h.1.ids
    obtain ⟨tc, sl, heq, -⟩ := detectTriggers_eq cfg e mo
    rw [heq]
    refine ⟨h.1.congr rfl rfl ⟨hlive, htree, hscored, fun x hx => ?_, hflight⟩, h.2⟩
    rcases mem_addAll.1 hx with hx | hx
    · exact hpending x hx
    · exact h.2 x (hmo x (mem_of_mem_triggers hx))
  inject e mo _ h := by
    obtain ⟨hlive, htree, hscored, hpending, hflight⟩ := h.1.ids
    obtain ⟨s, low, force, mo', heq, hs, -⟩ := injectEos_eq e mo
    rw [heq]
    exact ⟨h.1.congr rfl rfl ⟨fun x hx => hlive x (hs.mem.1 hx), htree, hscored, hpending, hflight⟩,
      h.2⟩

/-- The end of a step keeps the ids traced. -/
lemma Traced.finish {mo : ModelRunnerOutput} {fin : List ReqId} (h : Traced added past e)
    (hf : e.scheduler.finishedReqIds = []) (hfin : Finishes cfg so mo fin e e') :
    Traced added past e' := by
  obtain ⟨hlive, htree, hscored, hpending, hflight⟩ := h.ids
  have hz := hfin.finalized
  obtain ⟨outs, hrec⟩ := hfin.record
  have hcnt : e'.traceTree.branchCounter = e.traceTree.branchCounter := by
    refine hfin.tree (fun t => t.branchCounter = e.traceTree.branchCounter) ?_ rfl
    exact fun t rid _ score tokens ht => (onRequestFinished_frame t rid score tokens).1.trans ht
  refine h.congr (by rw [hrec]; rfl) hcnt ⟨fun x hx => hlive x (hfin.live hx), ?_, ?_, ?_, ?_⟩
  · refine hfin.tree (fun t => ∀ x ∈ t, x ∈ added ∨ x ∈ e.generatedIds past) ?_ htree
    intro t rid hr score tokens ht x hx
    rcases mem_onRequestFinished hx with rfl | hx
    · exact hlive x (hfin.live_of_fin hf hr).2.1
    · exact ht x hx
  · rintro x (hx | hx)
    · exact hscored x (.inl (mem_of_get?_eq_ite (hz.traceScores x) hx).2)
    · exact hscored x (.inr (mem_of_get?_eq_ite (hz.traceScoreCounts x) hx).2)
  · rw [hz.pendingHsClassification]; exact hpending
  · rw [hz.asyncScorerFuture]; exact hflight

/-- The ids are traced between two events. -/
def TracedState (added past : List ReqId) (e : EngineCore μ) : Prop :=
  Traced added past { e with record := {} }

/-- The record of an event joins the past. -/
lemma Traced.state (h : Traced added past e) : TracedState added (past ++ e.record.generated) e := by
  have hg : ({ e with record := {} } : EngineCore μ).generatedIds (past ++ e.record.generated) =
      e.generatedIds past := List.append_nil _
  refine ⟨hg ▸ h.numbered, hg ▸ h.counter, ?_⟩
  rw [hg]
  exact ⟨h.ids.live, h.ids.tree, h.ids.scored, h.ids.pending, h.ids.inFlight⟩

/-- Every event keeps the ids traced. -/
lemma TracedState.handle {h : List Event} {ev : Event}
    (hs : TracedState (h.filterMap Event.added) past e) (hb : Base cfg (h.filterMap Event.added) e) :
    TracedState ((h ++ [ev]).filterMap Event.added) (past ++ (e.handle ops cfg ev).record.generated)
      (e.handle ops cfg ev) := by
  obtain ⟨hlive, htree, hscored, hpending, hflight⟩ := hs.ids
  refine Traced.state ?_
  cases ev with
  | addRequest r =>
    have hadd : (h ++ [Event.addRequest r]).filterMap Event.added =
        h.filterMap Event.added ++ [r.requestId] := by
      rw [List.filterMap_append]; rfl
    have hk : ∀ {x}, x ∈ h.filterMap Event.added ∨ x ∈ past ++ [] →
        x ∈ h.filterMap Event.added ++ [r.requestId] ∨ x ∈ past ++ [] :=
      fun hx => hx.imp_left (List.mem_append_left _)
    have hown : r.requestId ∈ h.filterMap Event.added ++ [r.requestId] ∨ r.requestId ∈ past ++ [] :=
      .inl (by simp)
    have hreq : ∀ x ∈ (e.scheduler.addRequest cfg.policy r).requests,
        x ∈ h.filterMap Event.added ++ [r.requestId] ∨ x ∈ past ++ [] := by
      intro x hx
      rcases Scheduler.mem_addRequest.1 hx with rfl | hx
      · exact hown
      · exact hk (hlive x hx)
    rw [hadd]
    simp only [EngineCore.handle, EngineCore.addRequest]
    split
    · refine ⟨hs.numbered, ?_, hreq, fun x hx => ?_, fun x hx => hk (hscored x hx),
        fun x hx => hk (hpending x hx), fun reply hr x hx => hk (hflight reply hr x hx)⟩
      · dsimp only
        split <;> exact hs.counter
      · dsimp only at hx
        split at hx
        · rcases TraceTree.mem_addRoot.1 hx with rfl | hx
          · exact hown
          · exact hk (htree x hx)
        · exact hk (htree x hx)
    · exact ⟨hs.numbered, hs.counter, hreq, fun x hx => hk (htree x hx),
        fun x hx => hk (hscored x hx), fun x hx => hk (hpending x hx),
        fun reply hr x hx => hk (hflight reply hr x hx)⟩
  | abortRequests rids =>
    have hfin := hb.wf.finishRequests ops rids .finishedAborted
    rw [filterMap_added_of_none rfl]
    exact ⟨hs.numbered, hs.counter, fun x hx => hlive x (hfin.mem hx), htree, hscored, hpending,
      hflight⟩
  | postStep drafts =>
    have hrel := Scheduler.relabels_updateDraftTokenIds e.scheduler drafts
    rw [filterMap_added_of_none rfl]
    exact ⟨hs.numbered, hs.counter, fun x hx => hlive x (hrel.mem.1 hx), htree, hscored, hpending,
      hflight⟩
  | step i =>
    rw [filterMap_added_of_none rfl]
    simp only [EngineCore.handle]
    cases hreq : e.scheduler.hasRequests with
    | true =>
      have hsched : Scheduler.ScheduleSpec ops cfg e.scheduler
          (e.scheduler.schedule ops cfg i.grammarReady).1
          (e.scheduler.schedule ops cfg i.grammarReady).2 := hb.wf.schedule i.grammarReady
      have hstart : TracedMid (h.filterMap Event.added) past (e.afterSchedule ops cfg i).2
          (e.afterSchedule ops cfg i).1 :=
        ⟨⟨hs.numbered, hs.counter, fun x hx => hlive x (hsched.evolves.mem hx), htree, hscored,
          hpending, hflight⟩, fun x hx => hlive x (hsched.scheduled x hx)⟩
      obtain ⟨e1, mo, fin, -, h1, hf, -, -, -, -, hfin, -⟩ :=
        hb.step_rule ops hreq phaseRules_traced hstart
      exact h1.1.finish hf hfin
    | false =>
      rw [EngineCore.step, if_neg (by simp [hreq])]
      unfold idleCleanup
      split
      · obtain ⟨h1, -⟩ := TraceTree.foldl_markPruned_frame
          ((e.traceTree.nodes.entries.filter fun n => n.2.isActive).map Prod.fst) e.traceTree
        refine ⟨hs.numbered, ?_, hlive, fun x hx => ?_, hscored, hpending, hflight⟩
        · exact hs.counter.trans h1.symm
        · obtain ⟨n, hn⟩ := TraceTree.mem_iff_getNode.1 hx
          rw [TraceTree.getNode_foldl_markPruned] at hn
          split at hn
          · obtain ⟨n', hn', -⟩ := Option.map_eq_some_iff.1 hn
            exact htree x (TraceTree.mem_of_getNode hn')
          · exact htree x (TraceTree.mem_of_getNode hn)
      · exact hs

end EngineCore

section Ids
variable {μ β : Type} {ops : Caches μ β} {cfg : VllmConfig} {m : μ}
variable {h : List Event} {o : List StepRecord} {e : EngineCore μ}

/-- In every reachable state the ids are traced. -/
lemma traced_of_runs (run : (engineMachine ops cfg m).Runs h o e) :
    EngineCore.TracedState (h.filterMap Event.added) (o.flatMap StepRecord.generated) e := by
  induction run with
  | init =>
    refine ⟨?_, ?_, ⟨?_, ?_, ?_, ?_, ?_⟩⟩
    · intro k rid hk
      simp [EngineCore.generatedIds, StepRecord.generated] at hk
    · change 0 = (EngineCore.freshTree cfg).branchCounter
      unfold EngineCore.freshTree
      split <;> rfl
    · exact fun rid hr => absurd hr Dict.not_mem_empty
    · exact fun rid hr => absurd hr (EngineCore.not_mem_init cfg m rid)
    · rintro rid (hr | hr) <;> exact absurd hr Dict.not_mem_empty
    · exact fun rid hr => by cases hr
    · exact fun reply hr => by cases hr
  | step run _ ih =>
    rw [List.flatMap_append, List.flatMap_singleton]
    exact ih.handle (base_of_runs run)

/-- No id is added twice. -/
lemma nodup_added_of_runs (run : (engineMachine ops cfg m).Runs h o e) :
    (h.filterMap Event.added).Nodup := by
  induction run with
  | init => exact List.nodup_nil
  | step run hok ih =>
    rename_i h _ _ ev
    cases ev with
    | addRequest r =>
      have hadd : (h ++ [Event.addRequest r]).filterMap Event.added =
          h.filterMap Event.added ++ [r.requestId] := by
        rw [List.filterMap_append]; rfl
      rw [hadd]
      refine List.nodup_append.2 ⟨ih, List.nodup_singleton _, ?_⟩
      rintro x hx y hy rfl
      rw [List.mem_singleton] at hy
      exact hok.2.1 (hy ▸ hx)
    | abortRequests | postStep | step => rw [EngineCore.filterMap_added_of_none rfl]; exact ih

/-- The tree of a run is a forest with fresh ids: every node without a parent is a root and has depth
0, every other one has a parent one level up that was created no later, the parents of a node reach a
root after `branch_depth` steps; the added and the generated ids of the run are pairwise distinct,
every node has such an id, and the next generated id is none of them. -/
theorem trace_forest (run : (engineMachine ops cfg m).Runs h o e) :
    (∀ rid, rid ∈ e.traceTree.rootIds ↔
      ∃ n, e.traceTree.getNode rid = some n ∧ n.parentId = none) ∧
    (∀ rid n parent, e.traceTree.getNode rid = some n → n.parentId = some parent →
      ∃ p, e.traceTree.getNode parent = some p ∧ n.branchDepth = p.branchDepth + 1 ∧
        p.createdAtStep ≤ n.createdAtStep) ∧
    (∀ rid n, e.traceTree.getNode rid = some n →
      ∃ root ∈ e.traceTree.rootIds, e.traceTree.ancestor n.branchDepth rid = some root) ∧
    (h.filterMap Event.added ++ o.flatMap StepRecord.generated).Nodup ∧
    (∀ rid ∈ e.traceTree, rid ∈ h.filterMap Event.added ++ o.flatMap StepRecord.generated) ∧
    ∀ parent, e.traceTree.generateBranchId parent ∉
      h.filterMap Event.added ++ o.flatMap StepRecord.generated := by
  have hf := tree_of_runs treeRules_forest (forest_freshTree cfg) run
  have ht := traced_of_runs run
  have hb := base_of_runs run
  have hg : ({ e with record := {} } : EngineCore μ).generatedIds (o.flatMap StepRecord.generated) =
      o.flatMap StepRecord.generated := List.append_nil _
  have hnum : Numbered (o.flatMap StepRecord.generated) := hg ▸ ht.numbered
  have hcnt : (o.flatMap StepRecord.generated).length = e.traceTree.branchCounter := by
    have := ht.counter
    rwa [hg] at this
  have hgen : ∀ rid ∈ o.flatMap StepRecord.generated,
      ∃ k p, k < e.traceTree.branchCounter ∧ rid = branchId k p := by
    intro rid hr
    obtain ⟨k, hk, rfl⟩ := List.getElem_of_mem hr
    obtain ⟨p, hp⟩ := hnum k _ (List.getElem?_eq_getElem hk)
    exact ⟨k, p, hcnt ▸ hk, hp⟩
  refine ⟨hf.roots, hf.parent, fun rid n hn => hf.ancestor hn, ?_, fun rid hr => ?_, fun parent => ?_⟩
  · refine List.nodup_append.2 ⟨nodup_added_of_runs run, hnum.nodup, ?_⟩
    rintro x hx y hy rfl
    obtain ⟨k, p, -, rfl⟩ := hgen x hy
    exact hb.external _ hx (branchId_reserved k p)
  · have := ht.ids.tree rid hr
    rw [hg] at this
    exact List.mem_append.2 this
  · rw [List.mem_append]
    rintro (hx | hx)
    · exact hb.external _ hx (branchId_reserved _ _)
    · obtain ⟨k, p, hk, he⟩ := hgen _ hx
      have := (branchId_inj he).1
      omega

end Ids

/-- The branch of a run reaches its root, and the next branch gets another id. -/
theorem trace_forest_branch :
    (∃ n, ((engineMachine .unbounded tournamentSample ()).exec branchingEvents).2.traceTree.getNode
        (branchId 0 "0_1".toList) = some n ∧
      ∃ root ∈ ((engineMachine .unbounded tournamentSample ()).exec
          branchingEvents).2.traceTree.rootIds,
        ((engineMachine .unbounded tournamentSample ()).exec branchingEvents).2.traceTree.ancestor
          n.branchDepth (branchId 0 "0_1".toList) = some root) ∧
    ((engineMachine .unbounded tournamentSample ()).exec
      branchingEvents).2.traceTree.generateBranchId "0_1".toList ≠ branchId 0 "0_1".toList := by
  have hforest := trace_forest (Machine.Runs.of_exec
    (show (engineMachine .unbounded tournamentSample ()).OkFrom [] branchingEvents by decide +kernel))
  obtain ⟨-, -, hanc, -, -, hfresh⟩ := hforest
  obtain ⟨n, hn⟩ := TraceTree.mem_iff_getNode.1 (show branchId 0 "0_1".toList ∈ ((engineMachine
    .unbounded tournamentSample ()).exec branchingEvents).2.traceTree by decide +kernel)
  refine ⟨⟨n, hn, hanc _ n hn⟩, fun he => hfresh "0_1".toList ?_⟩
  rw [he]
  decide +kernel

end Gambit.Engine
