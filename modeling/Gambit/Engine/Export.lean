import Gambit.Engine.Forest
import Gambit.Sched.Terminal

/-!
# Exported outputs

The output stored in the node of a finished trace is the engine's own buffer of captured tokens, and the tokens of a
step are captured before the scheduler decides which of them it accepts. `Captures` says that up to a step the two
records agree: the buffer of a live request is what it inherited followed by the tokens the scheduler accepted. In the
step that finishes the request the buffer takes all its tokens, the scheduler those up to the one that stops it
(`exported_iff`).
-/

namespace Gambit.Engine
open Gambit.Lib Gambit.Sched Gambit.Trace

/-- How many captured tokens a trace inherited. -/
def inheritedLen (t : TraceTree) (rid : ReqId) : Nat :=
  (t.getNode rid).elim 0 fun n => if n.parentId = none then 0 else n.branchParentOutputLen

/-- Growing keeps what a known trace inherited. -/
lemma inheritedLen_grow {known : ReqId → Prop} {t t' : TraceTree} {rid : ReqId} (hg : Grows known t t')
    (hk : known rid) : inheritedLen t' rid = inheritedLen t rid := by
  unfold inheritedLen
  cases hn : t.getNode rid with
  | none =>
    cases hn' : t'.getNode rid with
    | none => rfl
    | some n' => exact if_pos (hg.fresh rid n' hk (TraceTree.getNode_eq_none.1 hn) hn')
  | some n =>
    obtain ⟨n', hn', h1, h2⟩ := hg.keep rid n hn
    rw [hn', Option.elim_some, Option.elim_some, h1, h2]

/-- A root inherited nothing. -/
def BareRoots (t : TraceTree) : Prop :=
  ∀ rid n, t.getNode rid = some n → n.parentId = none → n.branchParentOutputLen = 0

/-- Nodes that are new roots or inherited what a node before did. -/
lemma BareRoots.of_back {t t' : TraceTree} (h : BareRoots t)
    (hb : ∀ x n', t'.getNode x = some n' → n'.branchParentOutputLen = 0 ∨ n'.parentId ≠ none ∨
      ∃ n, t.getNode x = some n ∧ n'.parentId = n.parentId ∧ n'.branchParentOutputLen = n.branchParentOutputLen) :
    BareRoots t' := by
  intro x n' hn' hroot
  rcases hb x n' hn' with h0 | hne | ⟨n, hn, h1, h2⟩
  · exact h0
  · exact absurd hroot hne
  · rw [h2]
    exact h x n hn (h1 ▸ hroot)

/-- An update of one node that keeps what it inherited. -/
lemma BareRoots.update {t t' : TraceTree} {rid : ReqId} {f : TraceNode → TraceNode} (h : BareRoots t)
    (hget : ∀ x, t'.getNode x = if x = rid then (t.getNode x).map f else t.getNode x)
    (hf : ∀ n, (f n).parentId = n.parentId ∧ (f n).branchParentOutputLen = n.branchParentOutputLen) :
    BareRoots t' := by
  refine h.of_back fun x n' hn' => .inr (.inr ?_)
  rw [hget] at hn'
  split at hn'
  · obtain ⟨n, hn, rfl⟩ := Option.map_eq_some_iff.1 hn'
    exact ⟨n, hn, hf n⟩
  · exact ⟨n', hn', rfl, rfl⟩

lemma BareRoots.ensureRoot {t : TraceTree} (h : BareRoots t) (rid : ReqId) : BareRoots (t.ensureRoot rid) := by
  refine h.of_back fun x n' hn' => ?_
  rw [TraceTree.getNode_ensureRoot] at hn'
  split at hn'
  · cases hn'
    exact .inl rfl
  · exact .inr (.inr ⟨n', hn', rfl, rfl⟩)

/-- The roots of every tree of a run inherited nothing. -/
lemma treeRules_bareRoots {cfg : VllmConfig} : EngineCore.TreeRules cfg BareRoots where
  incrementStep t h := h
  ensureRoot t rid h := h.ensureRoot rid
  recordScore t rid q h := h.update (fun x => TraceTree.getNode_recordScore t rid x q) fun n => ⟨rfl, rfl⟩
  markPruned t rid h := h.update (fun x => TraceTree.getNode_markPruned t rid x) fun n => ⟨rfl, rfl⟩
  addBranch t t' parent child len _ hnew hadd h := by
    obtain ⟨p, hp, hget⟩ := TraceTree.getNode_addBranch hadd hnew
    refine h.of_back fun x n' hn' => ?_
    rw [hget] at hn'
    split at hn'
    · cases hn'
      exact .inr (.inl (Option.some_ne_none _))
    · split at hn'
      · next hx =>
        cases hn'
        exact .inr (.inr ⟨p, hx ▸ hp, rfl, rfl⟩)
      · exact .inr (.inr ⟨n', hn', rfl, rfl⟩)
  removeTrace t t' parent child len _ hnew hadd h := by
    obtain ⟨p, hp, hget⟩ := TraceTree.getNode_removeTrace_addBranch hadd hnew
    refine h.of_back fun x n' hn' => .inr (.inr ?_)
    rw [hget] at hn'
    split at hn'
    · next hx =>
      cases hn'
      exact ⟨p, hx ▸ hp, rfl, rfl⟩
    · exact ⟨n', hn', rfl, rfl⟩
  finished t rid score tokens h := by
    unfold EngineCore.onRequestFinished
    dsimp only
    split
    · exact (h.ensureRoot rid).update (fun x => TraceTree.getNode_setOutput _ rid x _) fun n => ⟨rfl, rfl⟩
    · exact (h.ensureRoot rid).update (fun x => TraceTree.getNode_markCompleted _ rid x _) fun n => ⟨rfl, rfl⟩

/-- The inherited length of a node is its `branch_parent_output_len`. -/
lemma BareRoots.inheritedLen_eq {t : TraceTree} (h : BareRoots t) {rid : ReqId} {n : TraceNode}
    (hn : t.getNode rid = some n) : inheritedLen t rid = n.branchParentOutputLen := by
  rw [inheritedLen, hn, Option.elim_some]
  split
  · next hroot => exact (h rid n hn hroot).symm
  · rfl

namespace EngineCore
variable {μ β : Type} {ops : Caches μ β} {cfg : VllmConfig} {i : StepInput} {e e' : EngineCore μ}
variable {added : List ReqId} {so : SchedulerOutput β} {rid : ReqId} {r r' : Request}

/-- The buffer of every live request is what it inherited followed by the tokens the scheduler accepted. -/
def Captures (e : EngineCore μ) : Prop :=
  ∀ rid r, e.scheduler.requests.get? rid = some r →
    inheritedLen e.traceTree rid ≤ (e.buffer rid).length ∧
      (e.buffer rid).drop (inheritedLen e.traceTree rid) = r.outputTokenIds

/-- Fewer or relabelled requests, a grown tree, the same buffers. -/
lemma Captures.congr (h : Captures e) (hb : Base cfg added e)
    (hreq : ∀ rid r', e'.scheduler.requests.get? rid = some r' →
      ∃ r, e.scheduler.requests.get? rid = some r ∧ r.SameTrace r')
    (ht : Grows (e.Known added) e.traceTree e'.traceTree)
    (hbuf : e'.gambitOutputTokenIds = e.gambitOutputTokenIds) : Captures e' := by
  intro rid r' hr'
  obtain ⟨r, hr, hst⟩ := hreq rid r' hr'
  rw [inheritedLen_grow ht (hb.live rid (Dict.mem_of_get? hr)), buffer, hbuf, hst.outputTokenIds]
  exact h rid r hr

/-- A branch starts with the captured tokens of its parent and no accepted ones. -/
lemma Captures.adopt {t : TraceTree} {parent : ReqId} {c : Request} (h : Captures e) (hb : Base cfg added e)
    (ht : e.traceTree.addBranch parent (e.traceTree.generateBranchId parent) (e.buffer parent).length = some t)
    (hcr : createChildRequest cfg i r t.branchCounter (e.traceTree.generateBranchId parent) = some c) :
    Captures (e.adoptChild cfg t parent c r.allTokenIds) := by
  obtain ⟨hid, hprompt, hout, -⟩ := createChildRequest_eq hcr
  have hc := hb.not_mem_tree parent
  have hgrow : GrowsClosed (e.Known added) e.traceTree t := growsClosed_addBranch ht hc (hb.not_known parent)
  obtain ⟨p, hp, hget⟩ := TraceTree.getNode_addBranch ht hc
  obtain ⟨ts, ss, cs, hadopt, -⟩ := adoptChild_eq cfg e t parent c r.allTokenIds
  intro rid rx hrx
  rw [hadopt] at hrx ⊢
  dsimp only [buffer] at hrx ⊢
  rw [Scheduler.get?_addRequest] at hrx
  rw [Dict.getD_eq, Dict.get?_set]
  split at hrx
  · next hx =>
    cases hrx
    have hlen : inheritedLen t rid = (e.buffer parent).length := by
      rw [inheritedLen, hget, if_pos (hx.trans hid), Option.elim_some]
      exact if_neg (Option.some_ne_none _)
    rw [if_pos hx, hlen, hout]
    exact ⟨le_rfl, List.drop_length⟩
  · next hx =>
    rw [if_neg hx, inheritedLen_grow hgrow.1 (hb.live rid (Dict.mem_of_get? hrx))]
    exact h rid rx hrx

/-- The phases of a step keep captured and accepted tokens together. -/
lemma phaseRules_captures : PhaseRules (μ := μ) cfg i added so Captures where
  absorb e e' reply hb h _ habs _ := by
    obtain ⟨_, _, _, _, _, rfl, -⟩ := habs
    exact h.congr hb (same_requests rfl) (.refl _) rfl
  submit e e' hb h _ hs := by
    obtain ⟨_, _, _, rfl, -⟩ := hs
    exact h.congr hb (same_requests rfl) (.refl _) rfl
  label e scores hb h := by
    refine h.congr hb (fun rid r' hr' => ?_) (.refl _) rfl
    obtain ⟨r, hr, hst, -⟩ := (Scheduler.relabels_updateTraceScores e.scheduler scores).back hr'
    exact ⟨r, hr, hst⟩
  move e e' avgs hb h _ _ hm := by
    cases hm with
    | count => exact h
    | register => exact h.congr hb (same_requests rfl) (growsClosed_registerScore _ _).1 rfl
    | pruneTested | pruneRanked | forceStop =>
      exact h.congr hb (same_requests rfl) (growsClosed_markPruned _ _).1 rfl
    | round => exact h
    | flush =>
      unfold flushHistories
      split
      · exact h
      · exact h
    | branch parent =>
      rcases createBranch_cases cfg i e parent with heq | ⟨t, -, ht, heq⟩ | ⟨r, t, c, -, hr, ht, hcr, heq⟩
      · rw [heq]
        exact h
      · rw [heq]
        exact h.congr hb (same_requests rfl) (growsClosed_removeTrace_addBranch ht (hb.not_mem_tree parent)).1 rfl
      · rw [heq]
        exact h.adopt hb ht hcr
  drop e ids hb h := h
  trigger e mo hb h _ := by
    obtain ⟨tc, sl, heq, -⟩ := detectTriggers_eq cfg e mo
    rw [heq]
    exact h
  inject e mo hb h := by
    obtain ⟨s, low, force, mo', heq, hs, -⟩ := injectEos_eq e mo
    rw [heq]
    refine h.congr hb (fun rid r' hr' => ?_) (.refl _) rfl
    obtain ⟨r, hr, hst, -⟩ := hs.back hr'
    exact ⟨r, hr, hst⟩

/-- The end of a step keeps captured and accepted tokens of the requests that go on together. -/
lemma Captures.finish {mo : ModelRunnerOutput} {fin : List ReqId} (h : Captures e) (hb : Base cfg added e)
    (hg : gambitEnabled cfg = true) (hmo : ∀ x, x ∈ mo ↔ x ∈ so.numScheduledTokens)
    (hf : e.scheduler.finishedReqIds = []) (hfin : Finishes cfg so mo fin e e') : Captures e' := by
  have hgrow : GrowsClosed (e.Known added) e.traceTree e'.traceTree :=
    hfin.tree (fun t => GrowsClosed (e.Known added) e.traceTree t)
      (fun t rid _ score tokens ht => ht.trans (growsClosed_onRequestFinished t rid score tokens)) (.refl _)
  intro rid r' hr'
  have hnf : rid ∉ fin := fun hx => (hfin.live_of_fin hf hx).2.2 (Dict.mem_of_get? hr')
  rw [hfin.buffer hg hnf]
  rw [hfin.update.requests] at hr'
  split at hr'
  · obtain ⟨r, hr, ho⟩ := Option.bind_eq_some_iff.1 hr'
    obtain ⟨hlen, hdrop⟩ := h rid r hr
    unfold Scheduler.outcome at ho
    split at ho
    · cases ho
    · next hst =>
      cases ho
      obtain ⟨n, hn⟩ := Scheduler.accept_of_not_stopped (by simpa using hst)
      rw [inheritedLen_grow hgrow.1 (hb.live rid (Dict.mem_of_get? hr)), hn, List.length_append,
        List.drop_append_of_le_length hlen, hdrop]
      exact ⟨Nat.le_add_right_of_le hlen, rfl⟩
  · next hso =>
    have hnil : mo.getD rid [] = [] := by
      rw [Dict.getD_eq, Dict.get?_eq_none.2 fun hm => hso ((hmo rid).1 hm)]
      rfl
    rw [inheritedLen_grow hgrow.1 (hb.live rid (Dict.mem_of_get? hr')), hnil, List.append_nil]
    exact h rid r' hr'

/-- A step keeps captured and accepted tokens together. -/
lemma Captures.step (h : Captures e) (hb : Base cfg added e) (hg : gambitEnabled cfg = true) :
    Captures (e.step ops cfg i) := by
  cases hreq : e.scheduler.hasRequests with
  | true =>
    have hsched : Scheduler.ScheduleSpec ops cfg e.scheduler (e.scheduler.schedule ops cfg i.grammarReady).1
        (e.scheduler.schedule ops cfg i.grammarReady).2 := hb.wf.schedule i.grammarReady
    have hstart : Captures (e.afterSchedule ops cfg i).1 := by
      refine h.congr hb (fun rid r' hr' => ?_) (.refl _) rfl
      obtain ⟨r, hr, hk⟩ := hsched.evolves.back rid r' hr'
      exact ⟨r, hr, hk.toSameTrace⟩
    obtain ⟨e1, mo, fin, hb1, h1, hf1, -, hmo, -, -, hfin, -⟩ := hb.step_rule ops hreq phaseRules_captures hstart
    exact h1.finish hb1 hg hmo hf1 hfin
  | false =>
    have heq : e.step ops cfg i = ({ e with record := {} } : EngineCore μ).idleCleanup cfg := by
      rw [EngineCore.step, if_neg (by simp [hreq])]
    rw [heq]
    unfold idleCleanup
    rw [if_pos hg]
    exact h.congr hb (same_requests rfl) (growsClosed_foldl_markPruned _ e.traceTree).1 rfl

/-- A new request has captured and accepted no token. -/
lemma Captures.addRequest {h : List Event} (hc : Captures e) (hb : Base cfg (h.filterMap Event.added) e)
    (hbuf : Buffered (h.filterMap Event.added) e) (hg : gambitEnabled cfg = true) (hok : Event.Ok h (.addRequest r)) :
    Captures (e.addRequest cfg r) := by
  have hnew : ¬ e.Known (h.filterMap Event.added) r.requestId := not_issued_of_ok hok
  unfold EngineCore.addRequest
  rw [if_pos hg, if_neg fun hm => hnew (hbuf _ hm)]
  generalize ht : (if r.requestId ∉ e.traceTree ∧ isSamplingChild r.requestId = true then
    e.traceTree.addRoot r.requestId else e.traceTree) = t
  have hgrow : GrowsClosed (e.Known (h.filterMap Event.added)) e.traceTree t := by
    rw [← ht]
    split
    · next hx => exact growsClosed_addRoot hx.1
    · exact .refl _
  have hzero : inheritedLen t r.requestId = 0 := by
    unfold inheritedLen
    cases hn : t.getNode r.requestId with
    | none => rfl
    | some n =>
      refine if_pos ?_
      rw [← ht] at hn
      split at hn
      · rw [TraceTree.getNode_addRoot, if_pos rfl] at hn
        cases hn
        rfl
      · exact absurd (hb.tree _ (TraceTree.mem_of_getNode hn)) hnew
  intro x rx hrx
  dsimp only [buffer] at hrx ⊢
  rw [Scheduler.get?_addRequest] at hrx
  rw [Dict.getD_eq, Dict.get?_set]
  split at hrx
  · next hx =>
    cases hrx
    rw [if_pos hx, hx, hzero, hok.1.outputTokenIds]
    exact ⟨Nat.zero_le _, rfl⟩
  · next hx =>
    rw [if_neg hx, inheritedLen_grow hgrow.1 (hb.live x (Dict.mem_of_get? hrx))]
    exact hc x rx hrx

/-- Every event keeps captured and accepted tokens together. -/
lemma Captures.handle {h : List Event} {ev : Event} (hc : Captures e) (hb : Base cfg (h.filterMap Event.added) e)
    (hbuf : Buffered (h.filterMap Event.added) e) (hg : gambitEnabled cfg = true) (hok : Event.Ok h ev) :
    Captures (e.handle ops cfg ev) := by
  cases ev with
  | addRequest r => exact hc.addRequest hb hbuf hg hok
  | abortRequests rids =>
    have hf := hb.wf.finishRequests ops rids .finishedAborted
    refine hc.congr hb (fun rid r' hr' => ?_) (.refl _) rfl
    have hr : (e.scheduler.finishRequests ops rids .finishedAborted).requests.get? rid = some r' := hr'
    rw [hf.requests] at hr
    split at hr
    · cases hr
    · exact ⟨r', hr, .refl r'⟩
  | postStep drafts =>
    refine hc.congr hb (fun rid r' hr' => ?_) (.refl _) rfl
    obtain ⟨r, hr, hst, -⟩ := (Scheduler.relabels_updateDraftTokenIds e.scheduler drafts).back hr'
    exact ⟨r, hr, hst⟩
  | step i => exact hc.step hb hg

end EngineCore

/-- In every reachable state captured and accepted tokens are together. -/
lemma captures_of_runs {μ β : Type} {ops : Caches μ β} {cfg : VllmConfig} {m : μ} {h : List Event}
    {o : List StepRecord} {e : EngineCore μ} (run : (engineMachine ops cfg m).Runs h o e)
    (hg : EngineCore.gambitEnabled cfg = true) : e.Captures := by
  induction run with
  | init =>
    intro rid r hr
    cases hr
  | step run hok ih => exact ih.handle (base_of_runs run) (prefixState_of_runs run hg).2 hg hok

end Gambit.Engine

namespace Gambit.Sched.Request
variable {r : Request} {n : Nat} {ts : List Token}

/-- Only the last of the new tokens can stop the request. -/
def StopsAtEnd (r : Request) (maxModelLen : Nat) (ts : List Token) : Prop :=
  ∀ k, 0 < k → k < ts.length →
    ({ r with outputTokenIds := r.outputTokenIds ++ ts.take k }.checkStop maxModelLen).2 = false

instance (r : Request) (maxModelLen : Nat) (ts : List Token) : Decidable (r.StopsAtEnd maxModelLen ts) :=
  decidable_of_iff (∀ k < ts.length, 0 < k →
      ({ r with outputTokenIds := r.outputTokenIds ++ ts.take k }.checkStop maxModelLen).2 = false)
    ⟨fun h k h0 hk => h k hk h0, fun h k hk h0 => h k h0 hk⟩

/-- All new tokens are accepted exactly when none but the last can stop the request. -/
lemma updateRequestWithOutput_all_iff : (r.updateRequestWithOutput n ts).2.1 = ts ↔ r.StopsAtEnd n ts := by
  induction ts generalizing r with
  | nil => exact ⟨fun _ k _ hk => absurd hk (Nat.not_lt_zero k), fun _ => rfl⟩
  | cons t ts ih =>
    have hone : { r with outputTokenIds := r.outputTokenIds ++ (t :: ts).take 1 } = r.appendOutputTokenId t := rfl
    have hmore : ∀ k, { r with outputTokenIds := r.outputTokenIds ++ (t :: ts).take (k + 1) } =
        { r.appendOutputTokenId t with
          outputTokenIds := (r.appendOutputTokenId t).outputTokenIds ++ ts.take k } := by
      intro k
      rw [List.take_succ_cons, appendOutputTokenId, List.append_assoc]
      rfl
    rw [updateRequestWithOutput]
    cases hs : (r.appendOutputTokenId t).checkStop n with
    | mk r' stopped =>
      cases stopped with
      | true =>
        -- the first token stops the request, so it must be the only one
        constructor
        · intro heq k h0 hk
          have hnil : ts = [] := (List.cons.inj heq).2.symm
          rw [hnil] at hk
          exact absurd hk (Nat.not_lt.2 h0)
        · intro hall
          cases ts with
          | nil => rfl
          | cons u us =>
            have hfirst := hall 1 Nat.one_pos (by simp)
            rw [hone, hs] at hfirst
            cases hfirst
      | false =>
        have hr' : r' = r.appendOutputTokenId t := by
          have := checkStop_of_not_stopped (r := r.appendOutputTokenId t) (n := n) (by rw [hs])
          rw [hs] at this
          exact this
        subst hr'
        dsimp only
        rw [List.cons.injEq, and_iff_right rfl, ih]
        constructor
        · intro hall k h0 hk
          obtain ⟨k, rfl⟩ := Nat.exists_eq_succ_of_ne_zero h0.ne'
          cases k with
          | zero => rw [hone, hs]
          | succ k =>
            rw [hmore]
            exact hall (k + 1) (Nat.succ_pos k) (by simpa using hk)
        · intro hall k h0 hk
          rw [← hmore]
          exact hall (k + 1) (Nat.succ_pos k) (by simpa using hk)

/-- The prompt of a request stays. -/
lemma updateRequestWithOutput_prompt (r : Request) (n : Nat) (ts : List Token) :
    (r.updateRequestWithOutput n ts).1.promptTokenIds = r.promptTokenIds := by
  induction ts generalizing r with
  | nil => rfl
  | cons t ts ih =>
    have hc : ((r.appendOutputTokenId t).checkStop n).1.promptTokenIds = r.promptTokenIds := by
      unfold checkStop
      split
      · rfl
      · split
        · rfl
        · split_ifs <;> rfl
    rw [updateRequestWithOutput]
    cases hs : (r.appendOutputTokenId t).checkStop n with
    | mk r' stopped =>
      rw [hs] at hc
      cases stopped with
      | true => exact hc
      | false => exact (ih r').trans hc

/-- Computed tokens do not decide whether a request stops. -/
lemma stopsAtEnd_numComputedTokens (r : Request) (c : Int) (n : Nat) (ts : List Token) :
    ({ r with numComputedTokens := c } : Request).StopsAtEnd n ts ↔ r.StopsAtEnd n ts := by
  have hsame : ∀ out, (({ r with numComputedTokens := c, outputTokenIds := out } : Request).checkStop n).2 =
      (({ r with outputTokenIds := out } : Request).checkStop n).2 := by
    intro out
    unfold checkStop
    rw [apply_ite Prod.snd, apply_ite Prod.snd]
    dsimp only
    cases out.getLast? with
    | none => rfl
    | some last =>
      dsimp only
      rw [apply_ite Prod.snd, apply_ite Prod.snd, apply_ite Prod.snd, apply_ite Prod.snd, apply_ite Prod.snd,
        apply_ite Prod.snd]
      rfl
  unfold StopsAtEnd
  refine forall₃_congr fun k _ _ => ?_
  dsimp only
  rw [hsame]

end Gambit.Sched.Request

namespace Gambit.Engine
open Gambit.Lib Gambit.Sched Gambit.Trace

/-- The node of `x` keeps its output and what it inherited. -/
def OutputKept (x : ReqId) (t t' : TraceTree) : Prop :=
  ∀ n, t.getNode x = some n → ∃ n', t'.getNode x = some n' ∧ n'.outputTokenIds = n.outputTokenIds ∧
    n'.branchParentOutputLen = n.branchParentOutputLen

variable {x rid : ReqId} {t t' t'' : TraceTree}

lemma OutputKept.refl (x : ReqId) (t : TraceTree) : OutputKept x t t := fun n hn => ⟨n, hn, rfl, rfl⟩

lemma OutputKept.trans (h : OutputKept x t t') (h' : OutputKept x t' t'') : OutputKept x t t'' := by
  intro n hn
  obtain ⟨n', hn', h1, h2⟩ := h n hn
  obtain ⟨n'', hn'', h3, h4⟩ := h' n' hn'
  exact ⟨n'', hn'', h3.trans h1, h4.trans h2⟩

/-- An update of one node, which keeps its output if it is that of `x`. -/
lemma OutputKept.update {f : TraceNode → TraceNode}
    (hget : ∀ y, t'.getNode y = if y = rid then (t.getNode y).map f else t.getNode y)
    (hf : x = rid → ∀ n, (f n).outputTokenIds = n.outputTokenIds ∧ (f n).branchParentOutputLen = n.branchParentOutputLen) :
    OutputKept x t t' := by
  intro n hn
  rw [hget, hn]
  split
  · next hx => exact ⟨f n, rfl, hf hx n⟩
  · exact ⟨n, rfl, rfl, rfl⟩

lemma outputKept_markPruned (x : ReqId) (t : TraceTree) (rid : ReqId) : OutputKept x t (t.markPruned rid) :=
  .update (fun y => TraceTree.getNode_markPruned t rid y) fun _ _ => ⟨rfl, rfl⟩

lemma outputKept_recordScore (x : ReqId) (t : TraceTree) (rid : ReqId) (q : ℚ) :
    OutputKept x t (t.recordScore rid q) :=
  .update (fun y => TraceTree.getNode_recordScore t rid y q) fun _ _ => ⟨rfl, rfl⟩

lemma outputKept_ensureRoot (x : ReqId) (t : TraceTree) (rid : ReqId) : OutputKept x t (t.ensureRoot rid) := by
  intro n hn
  rw [TraceTree.getNode_ensureRoot, if_neg]
  · exact ⟨n, hn, rfl, rfl⟩
  · rintro ⟨rfl, hx⟩
    exact hx (TraceTree.mem_of_getNode hn)

lemma outputKept_addBranch {parent child : ReqId} {len : Nat} (h : t.addBranch parent child len = some t')
    (hc : child ∉ t) : OutputKept x t t' := by
  obtain ⟨p, hp, hget⟩ := TraceTree.getNode_addBranch h hc
  intro n hn
  have hne : x ≠ child := fun he => hc (he ▸ TraceTree.mem_of_getNode hn)
  rw [hget, if_neg hne]
  split
  · next hx =>
    rw [hx, hp] at hn
    cases hn
    exact ⟨_, rfl, rfl, rfl⟩
  · exact ⟨n, hn, rfl, rfl⟩

lemma outputKept_removeTrace_addBranch {parent child : ReqId} {len : Nat}
    (h : t.addBranch parent child len = some t') (hc : child ∉ t) : OutputKept x t (t'.removeTrace child) := by
  obtain ⟨p, hp, hget⟩ := TraceTree.getNode_removeTrace_addBranch h hc
  intro n hn
  rw [hget]
  split
  · next hx =>
    rw [hx, hp] at hn
    cases hn
    exact ⟨_, rfl, rfl, rfl⟩
  · exact ⟨n, hn, rfl, rfl⟩

/-- Another request that finishes. -/
lemma outputKept_onRequestFinished (hx : x ≠ rid) (score : Option ℚ) (tokens : Option (List Token)) :
    OutputKept x t (EngineCore.onRequestFinished t rid score tokens) := by
  refine (outputKept_ensureRoot x t rid).trans ?_
  unfold EngineCore.onRequestFinished
  dsimp only
  split
  · exact .update (fun y => TraceTree.getNode_setOutput _ rid y _) fun he => absurd he hx
  · exact .update (fun y => TraceTree.getNode_markCompleted _ rid y _) fun he => absurd he hx

/-- The output of a request that finishes. -/
lemma getNode_onRequestFinished (t : TraceTree) (rid : ReqId) (score : Option ℚ) (tokens : Option (List Token)) :
    ∃ n, (EngineCore.onRequestFinished t rid score tokens).getNode rid = some n ∧ n.outputTokenIds = tokens := by
  obtain ⟨n, hn⟩ : ∃ n, (t.ensureRoot rid).getNode rid = some n := by
    rw [TraceTree.getNode_ensureRoot]
    split
    · exact ⟨_, rfl⟩
    · next h => exact TraceTree.mem_iff_getNode.1 (by_contra fun hm => h ⟨rfl, hm⟩)
  unfold EngineCore.onRequestFinished
  dsimp only
  split
  · rw [TraceTree.getNode_setOutput, if_pos rfl, hn]
    exact ⟨_, rfl, rfl⟩
  · rw [TraceTree.getNode_markCompleted, if_pos rfl, hn]
    exact ⟨_, rfl, rfl⟩

namespace EngineCore
variable {μ β : Type} {ops : Caches μ β} {cfg : VllmConfig} {i : StepInput} {e e' : EngineCore μ}
variable {added : List ReqId} {so : SchedulerOutput β} {r : Request}

/-- Finalising stores the buffer of every finished request in its node. -/
lemma finalizeScores_output (hg : gambitEnabled cfg = true) {l : List ReqId} (nd : l.Nodup) (hx : x ∈ l) :
    ∃ n, (e.finalizeScores cfg l).traceTree.getNode x = some n ∧ n.outputTokenIds = e.gambitOutputTokenIds.get? x := by
  induction l generalizing e with
  | nil => cases hx
  | cons rid l ih =>
    obtain ⟨hrid, nd⟩ := List.nodup_cons.1 nd
    have htree : (finalizeScore cfg e rid).traceTree =
        onRequestFinished e.traceTree rid (e.finalAvg cfg rid) (e.gambitOutputTokenIds.get? rid) := by
      unfold finalizeScore
      dsimp only
      rw [if_pos hg]
    rcases List.mem_cons.1 hx with rfl | hx
    · -- its own turn; the others leave its output alone
      obtain ⟨n, hn, hout⟩ := getNode_onRequestFinished e.traceTree x (e.finalAvg cfg x)
        (e.gambitOutputTokenIds.get? x)
      have hkept : OutputKept x (finalizeScore cfg e x).traceTree
          ((finalizeScore cfg e x).finalizeScores cfg l).traceTree := by
        refine finalizeScores_tree (P := fun t => OutputKept x (finalizeScore cfg e x).traceTree t) ?_ (.refl _ _)
        intro t y hy score tokens ht
        have hne : x ≠ y := fun he => hrid (he ▸ hy)
        exact ht.trans (outputKept_onRequestFinished hne score tokens)
      rw [← htree] at hn
      obtain ⟨n', hn', h1, -⟩ := hkept n hn
      exact ⟨n', hn', h1.trans hout⟩
    · obtain ⟨n, hn, hout⟩ := ih (e := finalizeScore cfg e rid) nd hx
      refine ⟨n, hn, hout.trans ?_⟩
      have hne : x ≠ rid := fun he => hrid (he ▸ hx)
      rw [(finalizeScore_spec cfg e rid).gambitOutputTokenIds, if_neg fun h => hne (List.mem_singleton.1 h.2)]

/-- The phases of a step keep the output of every trace. -/
lemma phaseRules_outputKept (x : ReqId) (t : TraceTree) :
    PhaseRules (μ := μ) cfg i added so (fun e => OutputKept x t e.traceTree) where
  absorb e e' reply _ h _ habs _ := by
    obtain ⟨_, _, _, _, _, rfl, -⟩ := habs
    exact h
  submit e e' _ h _ hs := by
    obtain ⟨_, _, _, rfl, -⟩ := hs
    exact h
  label e scores _ h := h
  move e e' avgs hb h _ _ hm := by
    cases hm with
    | count => exact h
    | register =>
      unfold registerScore
      dsimp only
      split
      · exact h.trans ((outputKept_ensureRoot x _ _).trans (outputKept_recordScore x _ _ _))
      · exact h.trans (outputKept_ensureRoot x _ _)
    | pruneTested | pruneRanked | forceStop => exact h.trans (outputKept_markPruned x _ _)
    | round => exact h
    | flush =>
      unfold flushHistories
      split
      · exact h
      · exact h
    | branch parent =>
      have hc := hb.not_mem_tree parent
      rcases createBranch_cases cfg i e parent with heq | ⟨t, -, ht, heq⟩ | ⟨r, t, c, -, hr, ht, hcr, heq⟩
      · rw [heq]
        exact h
      · rw [heq]
        exact h.trans (outputKept_removeTrace_addBranch ht hc)
      · obtain ⟨ts, ss, cs, hadopt, -⟩ := adoptChild_eq cfg e t parent c r.allTokenIds
        rw [heq, hadopt]
        exact h.trans (outputKept_addBranch ht hc)
  drop e ids _ h := h
  trigger e mo _ h _ := by
    obtain ⟨tc, sl, heq, -⟩ := detectTriggers_eq cfg e mo
    rw [heq]
    exact h
  inject e mo _ h := by
    obtain ⟨s, low, force, mo', heq, -⟩ := injectEos_eq e mo
    rw [heq]
    exact h

/-- The node of `x` has the output it had in `t`, and its request is gone. -/
def Stored (x : ReqId) (t : TraceTree) (e : EngineCore μ) : Prop :=
  OutputKept x t e.traceTree ∧ x ∉ e.scheduler.requests

/-- The phases of a step bring no trace of the tree back. -/
lemma phaseRules_stored {t : TraceTree} (hx : x ∈ t) : PhaseRules (μ := μ) cfg i added so (Stored x t) := by
  have kept : PhaseRules cfg i added so (fun e : EngineCore μ => OutputKept x t e.traceTree) :=
    phaseRules_outputKept x t
  refine
    { label := ?label, move := ?move, absorb := ?absorb, submit := ?submit, drop := ?drop, trigger := ?trigger,
      inject := ?inject }
  case drop => exact fun e ids _ h => h
  case label =>
    intro e scores hb h
    exact ⟨h.1, fun hm => h.2 ((Scheduler.relabels_updateTraceScores e.scheduler scores).mem.1 hm)⟩
  case absorb =>
    intro e e' reply hb h hr habs hn
    refine ⟨kept.absorb e e' reply hb h.1 hr habs hn, ?_⟩
    obtain ⟨_, _, _, _, _, rfl, -⟩ := habs
    exact h.2
  case submit =>
    intro e e' hb h ha hs
    refine ⟨kept.submit e e' hb h.1 ha hs, ?_⟩
    obtain ⟨_, _, _, rfl, -⟩ := hs
    exact h.2
  case move =>
    intro e e' avgs hb h hg ha hm
    refine ⟨kept.move e e' avgs hb h.1 hg ha hm, ?_⟩
    cases hm with
    | count | register | pruneTested | pruneRanked | forceStop | round => exact h.2
    | flush =>
      unfold flushHistories
      split
      · exact h.2
      · exact h.2
    | branch parent =>
      rcases createBranch_cases cfg i e parent with heq | ⟨t', -, ht, heq⟩ | ⟨r, t', c, -, hr, ht, hcr, heq⟩
      · rw [heq]
        exact h.2
      · rw [heq]
        exact h.2
      · obtain ⟨hid, -⟩ := createChildRequest_eq hcr
        obtain ⟨ts, ss, cs, hadopt, -⟩ := adoptChild_eq cfg e t' parent c r.allTokenIds
        rw [heq, hadopt]
        intro hm
        rcases Scheduler.mem_addRequest.1 hm with he | hm
        · -- the id of a child is new, that of `x` is in the tree
          obtain ⟨n, hn⟩ := TraceTree.mem_iff_getNode.1 hx
          obtain ⟨n', hn', -⟩ := h.1 n hn
          refine hb.not_mem_tree parent ?_
          rw [← hid, ← he]
          exact TraceTree.mem_of_getNode hn'
        · exact h.2 hm
  case trigger =>
    intro e mo hb h hmo
    refine ⟨kept.trigger e mo hb h.1 hmo, ?_⟩
    obtain ⟨tc, sl, heq, -⟩ := detectTriggers_eq cfg e mo
    rw [heq]
    exact h.2
  case inject =>
    intro e mo hb h
    refine ⟨kept.inject e mo hb h.1, ?_⟩
    obtain ⟨s, low, force, mo', heq, hs, -⟩ := injectEos_eq e mo
    rw [heq]
    exact fun hm => h.2 (hs.mem.1 hm)

/-- Every event leaves the output of a trace that is gone. -/
lemma Stored.handle {h : List Event} {ev : Event} {t : TraceTree} (hs : Stored x t e) (hx : x ∈ t)
    (hb : Base cfg (h.filterMap Event.added) e) (hok : Event.Ok h ev) : Stored x t (e.handle ops cfg ev) := by
  obtain ⟨n, hn⟩ := TraceTree.mem_iff_getNode.1 hx
  obtain ⟨n', hn', -⟩ := hs.1 n hn
  have hmem : x ∈ e.traceTree := TraceTree.mem_of_getNode hn'
  cases ev with
  | addRequest r =>
    have hne : x ≠ r.requestId := fun he => not_issued_of_ok hok (he ▸ hb.tree x hmem)
    have hgone : x ∉ (e.scheduler.addRequest cfg.policy r).requests :=
      fun hm => (Scheduler.mem_addRequest.1 hm).elim hne hs.2
    simp only [EngineCore.handle, EngineCore.addRequest]
    split
    · refine ⟨?_, hgone⟩
      dsimp only
      split
      · next hc =>
        have hroot := hs.1.trans (outputKept_ensureRoot x e.traceTree r.requestId)
        rw [TraceTree.ensureRoot, if_neg hc.1] at hroot
        exact hroot
      · exact hs.1
    · exact ⟨hs.1, hgone⟩
  | abortRequests rids =>
    refine ⟨hs.1, fun hm => hs.2 ?_⟩
    have hf := hb.wf.finishRequests ops rids .finishedAborted
    obtain ⟨r, hr⟩ := Dict.mem_iff_get?.1 hm
    have hr : (e.scheduler.finishRequests ops rids .finishedAborted).requests.get? x = some r := hr
    rw [hf.requests] at hr
    split at hr
    · cases hr
    · exact Dict.mem_of_get? hr
  | postStep drafts =>
    exact ⟨hs.1, fun hm => hs.2 ((Scheduler.relabels_updateDraftTokenIds e.scheduler drafts).mem.1 hm)⟩
  | step i =>
    simp only [EngineCore.handle]
    cases hreq : e.scheduler.hasRequests with
    | true =>
      have hsched : Scheduler.ScheduleSpec ops cfg e.scheduler (e.scheduler.schedule ops cfg i.grammarReady).1
          (e.scheduler.schedule ops cfg i.grammarReady).2 := hb.wf.schedule i.grammarReady
      have hstart : Stored x t (e.afterSchedule ops cfg i).1 := by
        refine ⟨hs.1, fun hm => hs.2 ?_⟩
        obtain ⟨r', hr'⟩ := Dict.mem_iff_get?.1 hm
        obtain ⟨r, hr, -⟩ := hsched.evolves.back x r' hr'
        exact Dict.mem_of_get? hr
      obtain ⟨e1, mo, fin, -, h1, hf1, -, -, -, -, hfin, -⟩ :=
        hb.step_rule ops hreq (phaseRules_stored hx) hstart
      refine ⟨hfin.tree (fun t' => OutputKept x t t') (fun t' rid hr score tokens ht => ?_) h1.1, fun hm => h1.2 ?_⟩
      · have hne : x ≠ rid := fun he => h1.2 (he ▸ (hfin.live_of_fin hf1 hr).2.1)
        exact ht.trans (outputKept_onRequestFinished hne score tokens)
      · obtain ⟨r', hr'⟩ := Dict.mem_iff_get?.1 hm
        rw [hfin.update.requests] at hr'
        split at hr'
        · obtain ⟨r, hr, -⟩ := Option.bind_eq_some_iff.1 hr'
          exact Dict.mem_of_get? hr
        · exact Dict.mem_of_get? hr'
    | false =>
      rw [EngineCore.step, if_neg (by simp [hreq])]
      unfold idleCleanup
      split
      · refine ⟨?_, hs.2⟩
        dsimp only
        generalize (e.traceTree.nodes.entries.filter fun n => n.2.isActive).map Prod.fst = l
        have hkept := hs.1
        generalize e.traceTree = t' at hkept
        induction l generalizing t' with
        | nil => exact hkept
        | cons y l ih => exact ih _ (hkept.trans (outputKept_markPruned x t' y))
      · exact hs

/-- The state and the tokens of a step when it captures them: after `schedule` and the injection of EOS tokens. -/
def atCapture (ops : Caches μ β) (cfg : VllmConfig) (i : StepInput) (e : EngineCore μ) :
    EngineCore μ × ModelRunnerOutput :=
  (e.afterSchedule ops cfg i).1.gambitPhases cfg i (e.afterSchedule ops cfg i).2
    (modelOutput i (e.afterSchedule ops cfg i).2)

/-- The finished requests are a set. -/
lemma nodup_finished_update (ops : Caches μ β) (cfg : VllmConfig) (so : SchedulerOutput β) (mo : ModelRunnerOutput)
    (finals : Dict ReqId (Option ℚ)) (histories : Option (Dict ReqId (List ℚ))) {s : Scheduler μ}
    (h : s.finishedReqIds.Nodup) : (s.updateFromOutput ops cfg so mo finals histories).1.finishedReqIds.Nodup := by
  have hstep : ∀ (p : UpdatePass μ) (rid : ReqId), p.sched.finishedReqIds.Nodup →
      (Scheduler.updateRequest ops cfg so mo finals histories p rid).sched.finishedReqIds.Nodup := by
    intro p rid hp
    unfold Scheduler.updateRequest
    split
    · exact hp
    · dsimp only
      split
      · split
        · exact hp.insert
        · exact hp.insert
      · exact hp
  have hloop : ∀ (l : List ReqId) (p : UpdatePass μ), p.sched.finishedReqIds.Nodup →
      (l.foldl (Scheduler.updateRequest ops cfg so mo finals histories) p).sched.finishedReqIds.Nodup := by
    intro l
    induction l with
    | nil => exact fun p hp => hp
    | cons x l ih => exact fun p hp => ih _ (hstep p x hp)
  exact hloop so.numScheduledTokens.keys { sched := s } h

/-- The output stored for a request that finishes in a step: all its captured tokens. -/
lemma finishStep_output {mo : ModelRunnerOutput} (hg : gambitEnabled cfg = true) (hf : e.scheduler.finishedReqIds = [])
    (hx : x ∈ (e.finishStep ops cfg i so mo).record.finished) :
    ∃ n, (e.finishStep ops cfg i so mo).traceTree.getNode x = some n ∧
      n.outputTokenIds = (e.captureTokens mo).gambitOutputTokenIds.get? x := by
  have hnd := nodup_finished_update ops cfg so mo e.finalTraceScores (e.histories cfg) (s := e.scheduler)
    (by rw [hf]; exact List.nodup_nil)
  unfold finishStep at hx ⊢
  rw [if_pos hg] at hx ⊢
  dsimp only at hx ⊢
  rw [(finalizeScores_spec ..).record] at hx
  have hsched : ((e.captureTokens mo).scheduler.updateFromOutput ops cfg so mo (e.captureTokens mo).finalTraceScores
      ((e.captureTokens mo).histories cfg)).1 =
      (e.scheduler.updateFromOutput ops cfg so mo e.finalTraceScores (e.histories cfg)).1 := rfl
  rw [hsched] at hx ⊢
  obtain ⟨n, hn, hout⟩ := finalizeScores_output (e := { e.captureTokens mo with
      scheduler := (e.scheduler.updateFromOutput ops cfg so mo e.finalTraceScores (e.histories cfg)).1
      record := { (e.captureTokens mo).record with
        finished := (e.scheduler.updateFromOutput ops cfg so mo e.finalTraceScores (e.histories cfg)).1.finishedReqIds } })
    hg (((i.setOrder.perm _).nodup_iff).2 hnd) ((i.setOrder.perm _).mem_iff.2 hx)
  exact ⟨n, hn, hout⟩

/-- The request that stops in a step, with the tokens it gets. -/
lemma Finishes.stopped {mo : ModelRunnerOutput} {fin : List ReqId} (h : Finishes cfg so mo fin e e')
    (hf : e.scheduler.finishedReqIds = []) (hx : x ∈ fin) :
    ∃ r, e.scheduler.requests.get? x = some r ∧ (Scheduler.accept cfg so mo x r).2.2 = true := by
  have hx := (h.mem_fin x).1 hx
  rw [h.update.finished, hf] at hx
  rcases hx with hx | ⟨-, r, hr, hout⟩
  · cases hx
  · unfold Scheduler.outcome at hout
    split at hout
    · next hs => exact ⟨r, hr, hs⟩
    · cases hout

/-- It leaves with what the scheduler accepted. -/
lemma Base.departs_step (hb : e.Base cfg added) {mo : ModelRunnerOutput} (hx : x ∈ so.numScheduledTokens)
    (hr : e.scheduler.requests.get? x = some r) (hstop : (Scheduler.accept cfg so mo x r).2.2 = true) :
    (e.finishStep ops cfg i so mo).scheduler.departedAs x =
      e.scheduler.departedAs x ++ [(Scheduler.accept cfg so mo x r).1] := by
  have hleaver : Scheduler.leaver cfg so mo x r = [(Scheduler.accept cfg so mo x r).1] := if_pos hstop
  rw [EngineCore.scheduler_finishStep, (hb.wf.updateFromOutput_reports cfg so mo e.finalTraceScores
    (e.histories cfg) ops x).2, if_pos hx, hr, Option.elim_some, hleaver]

/-- The buffer of a request with sampled tokens, after their capture. -/
lemma get?_captureTokens {mo : ModelRunnerOutput} (hx : mo.getD x [] ≠ []) :
    (e.captureTokens mo).gambitOutputTokenIds.get? x = some (e.buffer x ++ mo.getD x []) := by
  have hgetD := EngineCore.getD_captureTokens e mo x
  cases hc : (e.captureTokens mo).gambitOutputTokenIds.get? x with
  | none =>
    rw [Dict.getD_eq, hc] at hgetD
    exact absurd (List.append_eq_nil_iff.1 hgetD.symm).2 hx
  | some toks =>
    rw [Dict.getD_eq, hc] at hgetD
    exact congrArg some hgetD

end EngineCore

/-- What is accepted of a request's tokens: all of them when none but the last can stop it. -/
lemma accept_all_iff (cfg : VllmConfig) {β : Type} (so : SchedulerOutput β) (mo : ModelRunnerOutput) (rid : ReqId)
    (r : Request) :
    ((Scheduler.accept cfg so mo rid r).2.1 = mo.getD rid [] ↔
        r.StopsAtEnd cfg.scheduler.maxModelLen (mo.getD rid [])) ∧
      (Scheduler.accept cfg so mo rid r).1.promptTokenIds = r.promptTokenIds := by
  obtain ⟨c, hreject⟩ := Scheduler.rejectDrafts_eq so r (mo.getD rid [])
  constructor
  · rw [Scheduler.accept, Request.updateRequestWithOutput_all_iff, hreject, Request.stopsAtEnd_numComputedTokens]
  · rw [Scheduler.accept, Request.updateRequestWithOutput_prompt, hreject]

/-- A buffer with new tokens is its first part with the accepted tokens when all new tokens are accepted. -/
lemma captured_eq_iff {buf out ts kept : List Token} {k : Nat} (hk : k ≤ buf.length) (hd : buf.drop k = out) :
    buf ++ ts = (buf ++ ts).take k ++ (out ++ kept) ↔ kept = ts := by
  rw [List.take_append_of_le_length hk, ← List.append_assoc, ← hd, List.take_append_drop, List.append_cancel_left_eq]
  exact eq_comm

/-- The prompt of a request is that of its root with what it inherited. -/
lemma inherited_prompt {prompt buf : List Token} {r : Request} {k : Nat} (hd : buf.drop k = r.outputTokenIds)
    (heq : prompt ++ buf = r.allTokenIds) : prompt ++ buf.take k = r.promptTokenIds := by
  rw [Request.allTokenIds, ← hd, ← List.take_append_drop k buf, ← List.append_assoc, List.take_append_drop] at heq
  exact List.append_cancel_right heq

section Runs
variable {μ β : Type} {ops : Caches μ β} {cfg : VllmConfig} {m : μ} {h : List Event}
variable {o : List StepRecord} {e : EngineCore μ}

/-- What is inherited, and what the buffers have, is as it was when a step has scheduled. -/
lemma captures_afterSchedule (run : (engineMachine ops cfg m).Runs h o e) (hg : cfg.gambit.enableBranching = true)
    (i : StepInput) :
    EngineCore.PrefixInv (EngineCore.promptsOf h)
        (EngineCore.LogOf (EngineCore.decisionsOf o) (e.afterSchedule ops cfg i).1) (e.afterSchedule ops cfg i).1 ∧
      (e.afterSchedule ops cfg i).1.Captures := by
  have hb := base_of_runs run
  have hsched : Scheduler.ScheduleSpec ops cfg e.scheduler (e.scheduler.schedule ops cfg i.grammarReady).1
      (e.scheduler.schedule ops cfg i.grammarReady).2 := hb.wf.schedule i.grammarReady
  have hsame : ∀ rid r', (e.afterSchedule ops cfg i).1.scheduler.requests.get? rid = some r' →
      ∃ r, e.scheduler.requests.get? rid = some r ∧ r.SameTrace r' := by
    intro rid r' hr'
    obtain ⟨r, hr, hk⟩ := hsched.evolves.back rid r' hr'
    exact ⟨r, hr, hk.toSameTrace⟩
  exact ⟨(prefixState_of_runs run hg).1.congr hb hsame (.refl _) rfl fun d hd => .inl hd,
    (captures_of_runs run hg).congr hb hsame (.refl _) rfl⟩

/-- The part of an output that is inherited, when the tree has grown since. -/
lemma inheritedLen_of_runs (run : (engineMachine ops cfg m).Runs h o e) {t : TraceTree} {known : ReqId → Prop}
    {n : TraceNode} (hgrow : Grows known t e.traceTree) (hknown : known rid) (hn : e.traceTree.getNode rid = some n) :
    inheritedLen t rid = n.branchParentOutputLen := by
  have hbare : BareRoots e.traceTree := by
    refine tree_of_runs treeRules_bareRoots (fun x n hn => ?_) run
    exact absurd (TraceTree.mem_of_getNode hn) (EngineCore.not_mem_init cfg m x)
  rw [← inheritedLen_grow hgrow hknown]
  exact hbare.inheritedLen_eq hn

/-- Exported outputs: for every trace that finishes in a step of a run, the output stored in its node, there and in
every later state, is the inherited prefix followed by the tokens the scheduler accepted exactly when none but the
last token the step gave it can stop it. -/
theorem exported_iff (run : (engineMachine ops cfg m).Runs h o e) (hg : cfg.gambit.enableBranching = true)
    (i : StepInput) (hfin : rid ∈ (e.step ops cfg i).record.finished) :
    ∃ r d n toks, (e.atCapture ops cfg i).1.scheduler.requests.get? rid = some r ∧
      (e.step ops cfg i).scheduler.departedAs rid = (e.atCapture ops cfg i).1.scheduler.departedAs rid ++ [d] ∧
      (e.step ops cfg i).traceTree.getNode rid = some n ∧ n.outputTokenIds = some toks ∧
      n.branchParentOutputLen ≤ toks.length ∧
      (∃ root r₀, RootOf (e.step ops cfg i).traceTree rid root ∧ .addRequest r₀ ∈ h ∧ r₀.requestId = root ∧
        r₀.promptTokenIds ++ toks.take n.branchParentOutputLen = d.promptTokenIds) ∧
      (toks = toks.take n.branchParentOutputLen ++ d.outputTokenIds ↔
        r.StopsAtEnd cfg.scheduler.maxModelLen ((e.atCapture ops cfg i).2.getD rid [])) ∧
      ∀ h' o' e', (engineMachine ops cfg m).Runs (h ++ [.step i] ++ h') o' e' →
        ∃ n', e'.traceTree.getNode rid = some n' ∧ n'.outputTokenIds = some toks ∧
          n'.branchParentOutputLen = n.branchParentOutputLen := by
  have hb := base_of_runs run
  have run' : (engineMachine ops cfg m).Runs (h ++ [.step i]) _ (e.step ops cfg i) := run.step trivial
  cases hreq : e.scheduler.hasRequests with
  | false =>
    rw [EngineCore.step, if_neg (by simp [hreq])] at hfin
    unfold EngineCore.idleCleanup at hfin
    split at hfin <;> cases hfin
  | true =>
    obtain ⟨e1, mo, fin, hb1, ⟨hp1, hc1⟩, hf1, -, -, hpair, hstep, hends, -⟩ := hb.step_rule ops hreq
      ((EngineCore.phaseRules_prefixInv (EngineCore.decisionsOf o)).and EngineCore.phaseRules_captures)
      (captures_afterSchedule run hg i)
    have hat : e.atCapture ops cfg i = (e1, mo) := hpair.symm
    generalize hso : (e.afterSchedule ops cfg i).2 = so at hstep hends
    obtain ⟨outs, hrecord⟩ := hends.record
    have hmem : rid ∈ fin := by
      rw [hends.mem_fin]
      rw [hrecord] at hfin
      exact hfin
    obtain ⟨hscheduled, -, hgone⟩ := hends.live_of_fin hf1 hmem
    -- the request that stops, and the tokens the scheduler accepts of those captured
    obtain ⟨r, hr, hstop⟩ := hends.stopped hf1 hmem
    have htok := (Scheduler.accept_tokens cfg so mo rid r).1
    obtain ⟨hall, hprompt⟩ := accept_all_iff cfg so mo rid r
    have hdeparted : (e.step ops cfg i).scheduler.departedAs rid =
        e1.scheduler.departedAs rid ++ [(Scheduler.accept cfg so mo rid r).1] := by
      rw [hstep]
      exact hb1.departs_step hscheduled hr hstop
    -- the buffer after the capture
    obtain ⟨hlen, hdrop⟩ := hc1 rid r hr
    have hsampled : mo.getD rid [] ≠ [] := by
      intro hnil
      rw [Scheduler.accept, hnil] at hstop
      cases hstop
    obtain ⟨n, hn, hout⟩ : ∃ n, (e.step ops cfg i).traceTree.getNode rid = some n ∧
        n.outputTokenIds = some (e1.buffer rid ++ mo.getD rid []) := by
      rw [hstep] at hfin ⊢
      rw [← EngineCore.get?_captureTokens hsampled]
      exact EngineCore.finishStep_output hg hf1 hfin
    -- the tree only grows at the end of the step
    have hgrow : GrowsClosed (e1.Known (h.filterMap Event.added)) e1.traceTree (e.step ops cfg i).traceTree :=
      hends.tree (fun t => GrowsClosed (e1.Known (h.filterMap Event.added)) e1.traceTree t)
        (fun t rid _ score tokens ht => ht.trans (EngineCore.growsClosed_onRequestFinished t rid score tokens)) (.refl _)
    have hknown := hb1.live rid (Dict.mem_of_get? hr)
    rw [inheritedLen_of_runs run' hgrow.1 hknown hn] at hlen hdrop
    rw [hat]
    refine ⟨r, _, n, _, hr, hdeparted, hn, hout, ?_, ?_, ?_, ?_⟩
    · rw [List.length_append]
      exact Nat.le_add_right_of_le hlen
    · obtain ⟨root, prompt, hroot, ⟨r₀, hadd, hid, rfl⟩, heq, -⟩ := hp1.inherits rid r hr
      refine ⟨root, r₀, hroot.grow hgrow.1 hp1.closed hb1.tree hknown, hadd, hid, ?_⟩
      rw [hprompt, List.take_append_of_le_length hlen]
      exact inherited_prompt hdrop heq
    · rw [htok]
      exact (captured_eq_iff hlen hdrop).trans hall
    · intro h' o' e' later
      have hstored : EngineCore.Stored rid (e.step ops cfg i).traceTree e' :=
        run'.continue later ⟨.refl _ _, hgone⟩ fun hrun hok _ ht =>
          ht.handle (TraceTree.mem_of_getNode hn) (base_of_runs hrun) hok
      obtain ⟨n', hn', h1, h2⟩ := hstored.1 n hn
      exact ⟨n', hn', h1.trans hout, h2⟩

end Runs

/-- A search with drafts: a root samples one token, and the next one is drafted. -/
def draftedEvents : List Event :=
  [.addRequest { requestId := "0_1".toList, promptTokenIds := [1, 2, 3], eosTokenId := some 9 },
    .step (.ofSamples (fun _ => [5]) fun _ => 1),
    .postStep (.ofKeys ["0_1".toList] (by decide) fun _ => [9])]

/-- The root is verified with its draft and samples the given tokens. -/
def verifyInput (ts : List Token) : StepInput := .ofSamples (fun _ => ts) fun _ => 1

/-- The draft is rejected and EOS sampled in its place: the output is exported as it was accepted. -/
theorem exported_iff_eos :
    let e := ((engineMachine .unbounded tournamentSample ()).exec draftedEvents).2
    ∃ d n toks, d ∈ (e.step .unbounded tournamentSample (verifyInput [9])).scheduler.departed ∧
      (e.step .unbounded tournamentSample (verifyInput [9])).traceTree.getNode "0_1".toList = some n ∧
      n.outputTokenIds = some toks ∧ toks = toks.take n.branchParentOutputLen ++ d.outputTokenIds := by
  intro e
  have run : (engineMachine .unbounded tournamentSample ()).Runs draftedEvents
      ((engineMachine .unbounded tournamentSample ()).exec draftedEvents).1 e := Machine.Runs.of_exec (by decide +kernel)
  have hfin : "0_1".toList ∈ (e.step .unbounded tournamentSample (verifyInput [9])).record.finished := by
    decide +kernel
  obtain ⟨r, d, n, toks, hr, hdep, hn, hout, -, -, hiff, -⟩ := exported_iff run rfl (verifyInput [9]) hfin
  have hone : (e.atCapture .unbounded tournamentSample (verifyInput [9])).2.getD "0_1".toList [] = [9] := by
    decide +kernel
  refine ⟨d, n, toks, ?_, hn, hout, hiff.2 ?_⟩
  · have hd : d ∈ (e.step .unbounded tournamentSample (verifyInput [9])).scheduler.departedAs "0_1".toList := by
      rw [hdep]
      exact List.mem_append_right _ (List.mem_singleton_self d)
    exact (List.mem_filter.1 hd).1
  · rw [hone]
    intro k h0 hk
    exact absurd hk (Nat.not_lt.2 h0)

/-- The drafted token is EOS and accepted, and the model samples one more token: the scheduler drops it, the export
has it. -/
theorem surplus_token_exported :
    let e := ((engineMachine .unbounded tournamentSample ()).exec draftedEvents).2
    let e' := e.step .unbounded tournamentSample (verifyInput [9, 6])
    (engineMachine .unbounded tournamentSample ()).OkFrom [] (draftedEvents ++ [.step (verifyInput [9, 6])]) ∧
      "0_1".toList ∈ e'.record.finished ∧
      (e'.scheduler.departedAs "0_1".toList).map (·.outputTokenIds) = [[5, 9]] ∧
      (e'.traceTree.getNode "0_1".toList).map (fun n => (n.branchParentOutputLen, n.outputTokenIds)) =
        some (0, some [5, 9, 6]) := by
  decide +kernel

end Gambit.Engine
