import Gambit.Engine.Invariant
import Gambit.Trace.Roots

/-!
# Branches inherit the prefix of their parent

The engine keeps two records of the tokens of a trace: the scheduler's `Request` and its own buffer
`_gambit_output_token_ids`. They are extended in different phases of a step, and a branch is created
in between. `Inherits` says that they agree up to the prompt of the root of the trace, and that the
prompt of a branch is the root's prompt with the inherited part of the buffer. It holds for every
live request of every reachable state (`prefix_inheritance`).
-/

namespace Gambit.Engine
open Gambit.Lib Gambit.Sched Gambit.Trace

namespace EngineCore
variable {μ β : Type} {ops : Caches μ β} {cfg : VllmConfig} {i : StepInput} {e e' : EngineCore μ}
variable {added : List ReqId} {so : SchedulerOutput β} {prompts : ReqId → List Token → Prop}
variable {log log' : Decision → Prop} {rid : ReqId} {r r' : Request}

/-- The captured tokens of a trace. -/
abbrev buffer (e : EngineCore μ) (rid : ReqId) : List Token := e.gambitOutputTokenIds.getD rid []

/-- What the request `r` of `rid` inherited. `prompts` are the prompts that came from outside, `log`
the decisions taken so far. -/
def Inherits (prompts : ReqId → List Token → Prop) (log : Decision → Prop) (t : TraceTree)
    (buffer : List Token) (rid : ReqId) (r : Request) : Prop :=
  ∃ root prompt, RootOf t rid root ∧ prompts root prompt ∧ prompt ++ buffer = r.allTokenIds ∧
    ∀ n parent, t.getNode rid = some n → n.parentId = some parent →
      n.branchParentOutputLen ≤ buffer.length ∧
      r.promptTokenIds = prompt ++ buffer.take n.branchParentOutputLen ∧
      ∃ tokens, log (.branch parent rid tokens) ∧ r.promptTokenIds <+: tokens

/-- What was inherited survives more decisions, a grown tree and the same or more tokens. -/
lemma Inherits.mono {known : ReqId → Prop} {t t' : TraceTree} {buffer : List Token}
    (h : Inherits prompts log t buffer rid r) (ts : List Token) (hlog : ∀ d, log d → log' d)
    (hg : Grows known t t') (hc : ParentClosed t) (hk : ∀ x ∈ t, known x) (hrid : known rid)
    (hp : r'.promptTokenIds = r.promptTokenIds) (ho : r'.outputTokenIds = r.outputTokenIds ++ ts) :
    Inherits prompts log' t' (buffer ++ ts) rid r' := by
  obtain ⟨root, prompt, hroot, hprompt, heq, hb⟩ := h
  refine ⟨root, prompt, hroot.grow hg hc hk hrid, hprompt, ?_, fun n' parent hn' hpar => ?_⟩
  · rw [Request.allTokenIds, hp, ho, ← List.append_assoc, heq, Request.allTokenIds,
      List.append_assoc]
  · rcases hg.back hrid hn' with he | ⟨n, hn, he, hl⟩
    · rw [he] at hpar; cases hpar
    · rw [he] at hpar
      obtain ⟨hlen, htake, tokens, htok, hpre⟩ := hb n parent hn hpar
      rw [hl, hp]
      refine ⟨by rw [List.length_append]; omega, ?_, tokens, hlog _ htok, hpre⟩
      rw [List.take_append_of_le_length hlen]
      exact htake

/-- The invariant: every live request inherited. -/
structure PrefixInv (prompts : ReqId → List Token → Prop) (log : Decision → Prop)
    (e : EngineCore μ) : Prop where
  closed : ParentClosed e.traceTree
  inherits : ∀ rid r, e.scheduler.requests.get? rid = some r →
    Inherits prompts log e.traceTree (e.buffer rid) rid r

/-- The decisions before a step and those of the step so far. -/
def LogOf (past : Decision → Prop) (e : EngineCore μ) (d : Decision) : Prop :=
  past d ∨ d ∈ e.record.decisions

/-- Fewer or relabelled requests, a grown tree, the same buffers. -/
lemma PrefixInv.congr (h : PrefixInv prompts log e) (hb : Base cfg added e)
    (hreq : ∀ rid r', e'.scheduler.requests.get? rid = some r' →
      ∃ r, e.scheduler.requests.get? rid = some r ∧ r.SameTrace r')
    (ht : GrowsClosed (e.Known added) e.traceTree e'.traceTree)
    (hbuf : e'.gambitOutputTokenIds = e.gambitOutputTokenIds)
    (hlog : ∀ d, log d → log' d) : PrefixInv prompts log' e' where
  closed := ht.2 h.closed
  inherits rid r' hr' := by
    obtain ⟨r, hr, hst⟩ := hreq rid r' hr'
    have := (h.inherits rid r hr).mono [] hlog ht.1 h.closed hb.tree
      (hb.live rid (Dict.mem_of_get? hr)) hst.promptTokenIds (by simpa using hst.outputTokenIds)
    rw [List.append_nil] at this
    rw [buffer, hbuf]
    exact this

/-- Requests as they are. -/
lemma same_requests (hs : e'.scheduler = e.scheduler) :
    ∀ rid r', e'.scheduler.requests.get? rid = some r' →
      ∃ r, e.scheduler.requests.get? rid = some r ∧ r.SameTrace r' :=
  fun _ r' h => ⟨r', hs ▸ h, .refl r'⟩

/-- A branch inherits from its parent. -/
lemma PrefixInv.adopt {t : TraceTree} {parent : ReqId} {c : Request} {past : Decision → Prop}
    (h : PrefixInv prompts (LogOf past e) e) (hb : Base cfg added e)
    (hr : e.scheduler.requests.get? parent = some r)
    (ht : e.traceTree.addBranch parent (e.traceTree.generateBranchId parent)
      (e.buffer parent).length = some t)
    (hcr : createChildRequest cfg i r t.branchCounter (e.traceTree.generateBranchId parent) = some c) :
    PrefixInv prompts (LogOf past (e.adoptChild cfg t parent c r.allTokenIds))
      (e.adoptChild cfg t parent c r.allTokenIds) := by
  obtain ⟨hid, hprompt, hout, -⟩ := createChildRequest_eq hcr
  have hc := hb.not_mem_tree parent
  have hk := hb.not_known parent
  have hgrow : GrowsClosed (e.Known added) e.traceTree t := growsClosed_addBranch ht hc hk
  obtain ⟨p, hp, hget⟩ := TraceTree.getNode_addBranch ht hc
  obtain ⟨ts, ss, cs, hadopt, -⟩ := adoptChild_eq cfg e t parent c r.allTokenIds
  have htree : (e.adoptChild cfg t parent c r.allTokenIds).traceTree = t := by rw [hadopt]
  have hsched : (e.adoptChild cfg t parent c r.allTokenIds).scheduler =
      e.scheduler.addRequest cfg.policy c := by rw [hadopt]
  have hbuf : ∀ x, (e.adoptChild cfg t parent c r.allTokenIds).buffer x =
      if x = c.requestId then e.buffer parent else e.buffer x := by
    intro x
    rw [hadopt]
    simp only [buffer, Dict.getD_eq, Dict.get?_set]
    split <;> rfl
  have hdec : (e.adoptChild cfg t parent c r.allTokenIds).record.decisions =
      e.record.decisions ++ [.branch parent c.requestId r.allTokenIds] := by rw [hadopt]
  generalize e.adoptChild cfg t parent c r.allTokenIds = e' at htree hsched hbuf hdec
  have hlog : ∀ d, LogOf past e d → LogOf past e' d :=
    fun d hd => hd.imp_right fun hm => hdec ▸ List.mem_append_left _ hm
  have hnew : LogOf past e' (.branch parent c.requestId r.allTokenIds) :=
    .inr (by rw [hdec]; simp)
  refine ⟨htree ▸ hgrow.2 h.closed, fun rid rx hrx => ?_⟩
  rw [hsched, Scheduler.get?_addRequest] at hrx
  rw [htree, hbuf]
  by_cases hx : rid = c.requestId
  · -- the child: the parent's buffer, and the parent's tokens as prompt
    rw [if_pos hx] at hrx ⊢
    cases hrx
    subst hx
    obtain ⟨root, prompt, hroot, hpr, heq, -⟩ := h.inherits parent r hr
    have hnode : t.getNode c.requestId =
        some (e.traceTree.branchNode p parent c.requestId (e.buffer parent).length) := by
      rw [hid, hget, if_pos rfl]
    refine ⟨root, prompt, .branch hnode rfl ?_, hpr, ?_, fun n par hn hpar => ?_⟩
    · exact hroot.grow hgrow.1 h.closed hb.tree (hb.live parent (Dict.mem_of_get? hr))
    · rw [heq, Request.allTokenIds, Request.allTokenIds, hprompt, hout, List.append_nil]
      rfl
    · rw [hnode] at hn
      cases hn
      cases hpar
      refine ⟨le_rfl, ?_, r.allTokenIds, hnew, ?_⟩
      · rw [hprompt, ← heq]
        exact congrArg _ (List.take_length).symm
      · rw [hprompt]
  · rw [if_neg hx] at hrx ⊢
    have hold := (h.inherits rid rx hrx).mono [] hlog hgrow.1 h.closed hb.tree
      (hb.live rid (Dict.mem_of_get? hrx)) rfl (List.append_nil _).symm
    rw [List.append_nil] at hold
    exact hold

/-- Registering a scored trace grows the tree. -/
lemma growsClosed_registerScore {known : ReqId → Prop} (e : EngineCore μ) (s : ReqId × ℚ) :
    GrowsClosed known e.traceTree (registerScore cfg e s).traceTree := by
  unfold registerScore
  dsimp only
  split
  · exact (growsClosed_ensureRoot _ _).trans (growsClosed_recordScore _ _ _)
  · exact growsClosed_ensureRoot _ _

/-- A finished request grows the tree. -/
lemma growsClosed_onRequestFinished {known : ReqId → Prop} (t : TraceTree) (rid : ReqId)
    (score : Option ℚ) (tokens : Option (List Token)) :
    GrowsClosed known t (onRequestFinished t rid score tokens) := by
  unfold onRequestFinished
  dsimp only
  split
  · exact (growsClosed_ensureRoot _ _).trans (growsClosed_setOutput _ _ _)
  · exact (growsClosed_ensureRoot _ _).trans (growsClosed_markCompleted _ _ _)

/-- The phases of a step keep the invariant. -/
lemma phaseRules_prefixInv (past : Decision → Prop) :
    PhaseRules (μ := μ) cfg i added so (fun e => PrefixInv prompts (LogOf past e) e) where
  absorb e e' reply hb h _ habs _ := by
    obtain ⟨_, _, _, _, _, rfl, -⟩ := habs
    exact h.congr hb (same_requests rfl) (.refl _) rfl fun _ => id
  submit e e' hb h _ hs := by
    obtain ⟨_, _, _, rfl, -⟩ := hs
    exact h.congr hb (same_requests rfl) (.refl _) rfl fun _ => id
  label e scores hb h := by
    refine h.congr hb (fun rid r' hr' => ?_) (.refl _) rfl fun _ => id
    obtain ⟨r, hr, hst, -⟩ :=
      (Scheduler.relabels_updateTraceScores e.scheduler scores).back hr'
    exact ⟨r, hr, hst⟩
  move e e' avgs hb h _ _ hm := by
    cases hm with
    | count => exact h.congr hb (same_requests rfl) (.of_map fun x => ⟨id, fun n => ⟨rfl, rfl⟩,
        by simp [countRound]⟩) rfl fun _ => id
    | register => exact h.congr hb (same_requests rfl) (growsClosed_registerScore _ _) rfl fun _ => id
    | pruneTested | pruneRanked | forceStop =>
      exact h.congr hb (same_requests rfl) (growsClosed_markPruned _ _) rfl
        fun d hd => hd.imp_right (List.mem_append_left _)
    | round => exact h.congr hb (same_requests rfl) (.refl _) rfl fun _ => id
    | flush =>
      unfold flushHistories
      split
      · exact h
      · exact h.congr hb (same_requests rfl) (.refl _) rfl fun _ => id
    | branch parent =>
      rcases createBranch_cases cfg i e parent with
        heq | ⟨t, -, ht, heq⟩ | ⟨r, t, c, -, hr, ht, hcr, heq⟩
      · rw [heq]; exact h
      · rw [heq]
        exact h.congr hb (same_requests rfl)
          (growsClosed_removeTrace_addBranch ht (hb.not_mem_tree parent)) rfl
          fun d hd => hd.imp_right (List.mem_append_left _)
      · rw [heq]
        exact h.adopt hb hr ht hcr
  drop e ids hb h := h.congr hb (same_requests rfl) (.refl _) rfl fun _ => id
  trigger e mo hb h _ := by
    obtain ⟨tc, sl, heq, -⟩ := detectTriggers_eq cfg e mo
    rw [heq]
    exact h.congr hb (same_requests rfl) (.refl _) rfl fun _ => id
  inject e mo hb h := by
    obtain ⟨s, low, force, mo', heq, hs, -⟩ := injectEos_eq e mo
    rw [heq]
    refine h.congr hb (fun rid r' hr' => ?_) (.refl _) rfl fun _ => id
    obtain ⟨r, hr, hst, -⟩ := hs.back hr'
    exact ⟨r, hr, hst⟩

/-- The captured tokens are those of known traces. -/
def Buffered (added : List ReqId) (e : EngineCore μ) : Prop :=
  ∀ x ∈ e.gambitOutputTokenIds, e.Known added x

/-- The phases of a step buffer tokens of known traces. -/
lemma phaseRules_buffered : PhaseRules (μ := μ) cfg i added so (Buffered added) where
  absorb e e' reply _ h _ habs _ := by
    obtain ⟨_, _, _, _, _, rfl, -⟩ := habs
    exact h
  submit e e' _ h _ hs := by
    obtain ⟨_, _, _, rfl, -⟩ := hs
    exact h
  label e scores _ h := h
  move e e' avgs hb h _ ha hm := by
    obtain ⟨-, -, hle⟩ := hb.move ha hm
    cases hm with
    | count | register | pruneTested | pruneRanked | forceStop | round =>
      exact fun x hx => (h x hx).mono (fun _ => id) hle
    | flush =>
      unfold flushHistories
      split <;> exact h
    | branch parent =>
      rcases createBranch_cases cfg i e parent with
        heq | ⟨t, -, ht, heq⟩ | ⟨r, t, c, -, hr, ht, hcr, heq⟩
      · rw [heq]; exact h
      · rw [heq] at hle ⊢
        exact fun x hx => (h x hx).mono (fun _ => id) hle
      · obtain ⟨hid, -⟩ := createChildRequest_eq hcr
        obtain ⟨hcnt, -⟩ := TraceTree.addBranch_frame ht
        obtain ⟨ts, ss, cs, hadopt, -⟩ := adoptChild_eq cfg e t parent c r.allTokenIds
        rw [heq, hadopt] at hle ⊢
        intro x hx
        rcases Dict.mem_set.1 hx with rfl | hx
        · exact .inr ⟨e.traceTree.branchCounter, parent, by dsimp only; omega, hid⟩
        · exact (h x hx).mono (fun _ => id) hle
  drop e ids _ h := h
  trigger e mo _ h _ := by
    obtain ⟨tc, sl, heq, -⟩ := detectTriggers_eq cfg e mo
    rw [heq]; exact h
  inject e mo _ h := by
    obtain ⟨s, low, force, mo', heq, -⟩ := injectEos_eq e mo
    rw [heq]; exact h

/-- The buffer of a request that goes on, after the end of a step. -/
lemma Finishes.buffer {mo : ModelRunnerOutput} {fin : List ReqId}
    (h : Finishes cfg so mo fin e e') (hg : gambitEnabled cfg = true) (hx : rid ∉ fin) :
    e'.buffer rid = e.buffer rid ++ mo.getD rid [] := by
  have hz := h.finalized.gambitOutputTokenIds rid
  rw [if_neg (by simp [hx])] at hz
  rw [EngineCore.buffer, Dict.getD_eq, hz, ← Dict.getD_eq]
  simp only [captured, hg, if_true]
  exact getD_captureTokens e mo rid

/-- The end of a step keeps the invariant. -/
lemma PrefixInv.finish {mo : ModelRunnerOutput} {fin : List ReqId}
    (h : PrefixInv prompts log e) (hb : Base cfg added e) (hg : gambitEnabled cfg = true)
    (hmo : ∀ x, x ∈ mo ↔ x ∈ so.numScheduledTokens) (hf : e.scheduler.finishedReqIds = [])
    (hfin : Finishes cfg so mo fin e e') (hlog : ∀ d, log d → log' d) :
    PrefixInv prompts log' e' := by
  have hgrow : GrowsClosed (e.Known added) e.traceTree e'.traceTree :=
    hfin.tree (fun t => GrowsClosed (e.Known added) e.traceTree t)
      (fun t rid _ score tokens ht => ht.trans (growsClosed_onRequestFinished t rid score tokens))
      (.refl _)
  refine ⟨hgrow.2 h.closed, fun rid r' hr' => ?_⟩
  have hnf : rid ∉ fin := fun hx => (hfin.live_of_fin hf hx).2.2 (Dict.mem_of_get? hr')
  rw [hfin.buffer hg hnf]
  rw [hfin.update.requests] at hr'
  by_cases hso : rid ∈ so.numScheduledTokens
  · rw [if_pos hso] at hr'
    obtain ⟨r, hr, ho⟩ := Option.bind_eq_some_iff.1 hr'
    unfold Scheduler.outcome at ho
    split at ho
    · cases ho
    · next hst =>
      cases ho
      obtain ⟨n, hn⟩ := Scheduler.accept_of_not_stopped (by simpa using hst)
      refine (h.inherits rid r hr).mono _ hlog hgrow.1 h.closed hb.tree
        (hb.live rid (Dict.mem_of_get? hr)) ?_ ?_
      · rw [hn]
      · rw [hn]
  · rw [if_neg hso] at hr'
    have hnil : mo.getD rid [] = [] := by
      rw [Dict.getD_eq, Dict.get?_eq_none.2 fun hm => hso ((hmo rid).1 hm)]
      rfl
    rw [hnil]
    exact (h.inherits rid r' hr').mono _ hlog hgrow.1 h.closed hb.tree
      (hb.live rid (Dict.mem_of_get? hr')) rfl (List.append_nil _).symm

/-- The end of a step buffers tokens of known traces. -/
lemma Buffered.finish {mo : ModelRunnerOutput} {fin : List ReqId} (h : Buffered added e)
    (hso : ∀ x ∈ so.numScheduledTokens, e.Known added x)
    (hmo : ∀ x, x ∈ mo ↔ x ∈ so.numScheduledTokens) (hfin : Finishes cfg so mo fin e e') :
    Buffered added e' := by
  have hcnt : e'.traceTree.branchCounter = e.traceTree.branchCounter :=
    hfin.tree (fun t => t.branchCounter = e.traceTree.branchCounter)
      (fun t rid _ score tokens ht => (onRequestFinished_frame t rid score tokens).1.trans ht) rfl
  intro x hx
  rw [Known, hcnt]
  have hx := (mem_of_get?_eq_ite (hfin.finalized.gambitOutputTokenIds x) hx).2
  dsimp only [captured] at hx
  split at hx
  · rcases mem_captureTokens hx with hx | hx
    · exact h x hx
    · exact hso x ((hmo x).1 hx)
  · exact h x hx

/-- The prompts that came from outside. -/
def promptsOf (h : List Event) (rid : ReqId) (prompt : List Token) : Prop :=
  ∃ r, .addRequest r ∈ h ∧ r.requestId = rid ∧ r.promptTokenIds = prompt

/-- The decisions of the steps so far. -/
def decisionsOf (o : List StepRecord) (d : Decision) : Prop := ∃ s ∈ o, d ∈ s.decisions

/-- What one event keeps. -/
def PrefixState (h : List Event) (o : List StepRecord) (e : EngineCore μ) : Prop :=
  PrefixInv (promptsOf h) (decisionsOf o) e ∧ Buffered (h.filterMap Event.added) e

/-- More prompts. -/
lemma PrefixInv.more {prompts' : ReqId → List Token → Prop} (h : PrefixInv prompts log e)
    (hp : ∀ x p, prompts x p → prompts' x p) : PrefixInv prompts' log e where
  closed := h.closed
  inherits rid r hr := by
    obtain ⟨root, prompt, hroot, hpr, hrest⟩ := h.inherits rid r hr
    exact ⟨root, prompt, hroot, hp _ _ hpr, hrest⟩

/-- A step keeps the invariant. -/
lemma PrefixState.step {h : List Event} {o : List StepRecord} (hs : PrefixState h o e)
    (hb : Base cfg (h.filterMap Event.added) e) (hg : gambitEnabled cfg = true) :
    PrefixState (h ++ [.step i]) (o ++ [(e.step ops cfg i).record]) (e.step ops cfg i) := by
  obtain ⟨hp, hbuf⟩ := hs
  have hprompts : ∀ x p, promptsOf h x p → promptsOf (h ++ [.step i]) x p := by
    rintro x p ⟨r, hr, hrest⟩
    exact ⟨r, List.mem_append_left _ hr, hrest⟩
  have hlog : ∀ d, LogOf (decisionsOf o) (e.step ops cfg i) d →
      decisionsOf (o ++ [(e.step ops cfg i).record]) d := by
    rintro d (⟨s, hs, hd⟩ | hd)
    · exact ⟨s, List.mem_append_left _ hs, hd⟩
    · exact ⟨_, by simp, hd⟩
  rw [PrefixState, filterMap_added_of_none rfl]
  cases hreq : e.scheduler.hasRequests with
  | true =>
    have hsched : Scheduler.ScheduleSpec ops cfg e.scheduler
        (e.scheduler.schedule ops cfg i.grammarReady).1
        (e.scheduler.schedule ops cfg i.grammarReady).2 := hb.wf.schedule i.grammarReady
    have hstart : PrefixInv (promptsOf h) (LogOf (decisionsOf o) (e.afterSchedule ops cfg i).1)
        (e.afterSchedule ops cfg i).1 := by
      refine hp.congr hb (fun rid r' hr' => ?_) (.refl _) rfl fun d hd => .inl hd
      obtain ⟨r, hr, hk⟩ := hsched.evolves.back rid r' hr'
      exact ⟨r, hr, hk.toSameTrace⟩
    obtain ⟨e1, mo, fin, hb1, ⟨hp1, hbuf1⟩, hf1, hso1, hmo, -, -, hfin, -⟩ :=
      hb.step_rule ops hreq ((phaseRules_prefixInv (decisionsOf o)).and phaseRules_buffered)
        ⟨hstart, hbuf⟩
    obtain ⟨outs, hrec⟩ := hfin.record
    have hlog1 : ∀ d, LogOf (decisionsOf o) e1 d →
        decisionsOf (o ++ [(e.step ops cfg i).record]) d := by
      intro d hd
      refine hlog d (hd.imp_right fun hm => ?_)
      rw [hrec]
      exact hm
    exact ⟨(hp1.finish hb1 hg hmo hf1 hfin hlog1).more hprompts, hbuf1.finish hso1 hmo hfin⟩
  | false =>
    have heq : e.step ops cfg i = ({ e with record := {} } : EngineCore μ).idleCleanup cfg := by
      rw [EngineCore.step, if_neg (by simp [hreq])]
    rw [heq] at hlog ⊢
    unfold idleCleanup at hlog ⊢
    rw [if_pos hg] at hlog ⊢
    generalize (e.traceTree.nodes.entries.filter fun n => n.2.isActive).map Prod.fst = l at hlog ⊢
    refine ⟨PrefixInv.more (hp.congr hb (fun rid r' hr' => ⟨r', hr', .refl r'⟩)
      (growsClosed_foldl_markPruned l e.traceTree) rfl fun d hd => hlog d (.inl hd)) hprompts, ?_⟩
    intro x hx
    rw [Known, (TraceTree.foldl_markPruned_frame l e.traceTree).1]
    exact hbuf x hx

/-- A new request is its own root. -/
lemma PrefixState.addRequest {h : List Event} {o : List StepRecord} (hs : PrefixState h o e)
    (hb : Base cfg (h.filterMap Event.added) e) (hg : gambitEnabled cfg = true)
    (hok : Event.Ok h (.addRequest r)) :
    PrefixState (h ++ [.addRequest r]) (o ++ [({} : StepRecord)])
      { e.addRequest cfg r with record := {} } := by
  obtain ⟨hp, hbuf⟩ := hs
  have hnew : ¬ e.Known (h.filterMap Event.added) r.requestId := not_issued_of_ok hok
  have hlog : ∀ d, decisionsOf o d → decisionsOf (o ++ [({} : StepRecord)]) d := by
    rintro d ⟨s, hs, hd⟩
    exact ⟨s, List.mem_append_left _ hs, hd⟩
  have hprompts : ∀ x p, promptsOf h x p → promptsOf (h ++ [.addRequest r]) x p := by
    rintro x p ⟨r, hr, hrest⟩
    exact ⟨r, List.mem_append_left _ hr, hrest⟩
  have hmono : ∀ x, e.Known (h.filterMap Event.added) x →
      Issued ((h ++ [Event.addRequest r]).filterMap Event.added) e.traceTree.branchCounter x := by
    intro x hx
    refine hx.mono ?_ le_rfl
    rw [List.filterMap_append]
    exact List.subset_append_left _ _
  unfold EngineCore.addRequest
  rw [if_pos hg, if_neg fun hm => hnew (hbuf _ hm)]
  generalize ht : (if r.requestId ∉ e.traceTree ∧ isSamplingChild r.requestId = true then
    e.traceTree.addRoot r.requestId else e.traceTree) = t
  have hgrow : GrowsClosed (e.Known (h.filterMap Event.added)) e.traceTree t := by
    rw [← ht]
    split
    · next hx => exact growsClosed_addRoot hx.1
    · exact .refl _
  have hcnt : t.branchCounter = e.traceTree.branchCounter := by
    rw [← ht]
    split <;> rfl
  have hroot : ∀ n, t.getNode r.requestId = some n → n.parentId = none := by
    intro n hn
    rw [← ht] at hn
    split at hn
    · rw [TraceTree.getNode_addRoot, if_pos rfl] at hn
      cases hn
      rfl
    · exact absurd (hb.tree _ (TraceTree.mem_of_getNode hn)) hnew
  refine ⟨⟨hgrow.2 hp.closed, fun x rx hrx => ?_⟩, fun x hx => ?_⟩
  · dsimp only [buffer] at hrx ⊢
    rw [Scheduler.get?_addRequest] at hrx
    rw [Dict.getD_eq, Dict.get?_set]
    by_cases hx : x = r.requestId
    · rw [if_pos hx] at hrx ⊢
      cases hrx
      subst hx
      refine ⟨r.requestId, r.promptTokenIds, .root hroot, ⟨r, by simp, rfl, rfl⟩, ?_, ?_⟩
      · rw [Request.allTokenIds, hok.1.outputTokenIds]
        rfl
      · intro n parent hn hpar
        rw [hroot n hn] at hpar
        cases hpar
    · rw [if_neg hx] at hrx ⊢
      obtain ⟨root, prompt, hr, hpr, hrest⟩ := (hp.inherits x rx hrx).mono [] hlog hgrow.1 hp.closed
        hb.tree (hb.live x (Dict.mem_of_get? hrx)) rfl (List.append_nil _).symm
      rw [List.append_nil] at hrest
      exact ⟨root, prompt, hr, hprompts _ _ hpr, hrest⟩
  · rw [Known]
    dsimp only at hx ⊢
    rw [hcnt]
    rcases Dict.mem_set.1 hx with rfl | hx
    · exact .inl (by simp [Event.added])
    · exact hmono x (hbuf x hx)

/-- Every event keeps the invariant. -/
lemma PrefixState.handle {h : List Event} {o : List StepRecord} {ev : Event}
    (hs : PrefixState h o e) (hb : Base cfg (h.filterMap Event.added) e)
    (hg : gambitEnabled cfg = true) (hok : Event.Ok h ev) :
    PrefixState (h ++ [ev]) (o ++ [(e.handle ops cfg ev).record]) (e.handle ops cfg ev) := by
  have hlog : ∀ rec d, decisionsOf o d → decisionsOf (o ++ [rec]) d := by
    rintro rec d ⟨s, hs, hd⟩
    exact ⟨s, List.mem_append_left _ hs, hd⟩
  have hprompts : ∀ x p, promptsOf h x p → promptsOf (h ++ [ev]) x p := by
    rintro x p ⟨r, hr, hrest⟩
    exact ⟨r, List.mem_append_left _ hr, hrest⟩
  cases ev with
  | addRequest r => exact hs.addRequest hb hg hok
  | abortRequests rids =>
    obtain ⟨hp, hbuf⟩ := hs
    have hf := hb.wf.finishRequests ops rids .finishedAborted
    rw [PrefixState, filterMap_added_of_none rfl]
    refine ⟨PrefixInv.more (hp.congr hb (fun rid r' hr' => ?_) (.refl _) rfl (hlog _)) hprompts, hbuf⟩
    have hr : (e.scheduler.finishRequests ops rids .finishedAborted).requests.get? rid = some r' := hr'
    rw [hf.requests] at hr
    split at hr
    · cases hr
    · exact ⟨r', hr, .refl r'⟩
  | postStep drafts =>
    obtain ⟨hp, hbuf⟩ := hs
    rw [PrefixState, filterMap_added_of_none rfl]
    refine ⟨PrefixInv.more (hp.congr hb (fun rid r' hr' => ?_) (.refl _) rfl (hlog _)) hprompts, hbuf⟩
    obtain ⟨r, hr, hst, -⟩ := (Scheduler.relabels_updateDraftTokenIds e.scheduler drafts).back hr'
    exact ⟨r, hr, hst⟩
  | step i => exact hs.step hb hg

end EngineCore

section Runs
variable {μ β : Type} {ops : Caches μ β} {cfg : VllmConfig} {m : μ} {h : List Event}
variable {o : List StepRecord} {e : EngineCore μ}

/-- The invariant holds in every reachable state. -/
lemma prefixState_of_runs (run : (engineMachine ops cfg m).Runs h o e)
    (hg : EngineCore.gambitEnabled cfg = true) : EngineCore.PrefixState h o e := by
  induction run with
  | init =>
    refine ⟨⟨fun rid n parent hn => ?_, fun rid r hr => ?_⟩, fun x hx => absurd hx Dict.not_mem_empty⟩
    · exact absurd (TraceTree.mem_of_getNode hn) (EngineCore.not_mem_init cfg m rid)
    · cases hr
  | step run hok ih => exact ih.handle (base_of_runs run) hg hok

/-- Branches inherit their prefix: in every reachable state the tokens of a live request are the
prompt of its root followed by the captured tokens, and the prompt of a branch is the root's prompt
followed by the inherited part of them, a part of what its parent had when it was created. -/
theorem prefix_inheritance (run : (engineMachine ops cfg m).Runs h o e)
    (hg : cfg.gambit.enableBranching = true) {rid : ReqId} {r : Request}
    (hr : e.scheduler.requests.get? rid = some r) :
    ∃ root r₀, RootOf e.traceTree rid root ∧ .addRequest r₀ ∈ h ∧ r₀.requestId = root ∧
      r₀.promptTokenIds ++ e.buffer rid = r.allTokenIds ∧
      ∀ n parent, e.traceTree.getNode rid = some n → n.parentId = some parent →
        n.branchParentOutputLen ≤ (e.buffer rid).length ∧
        r.promptTokenIds = r₀.promptTokenIds ++ (e.buffer rid).take n.branchParentOutputLen ∧
        ∃ s ∈ o, ∃ tokens, .branch parent rid tokens ∈ s.decisions ∧
          r.promptTokenIds <+: tokens := by
  obtain ⟨root, prompt, hroot, ⟨r₀, hadd, hid, rfl⟩, heq, hbranch⟩ :=
    (prefixState_of_runs run hg).1.inherits rid r hr
  refine ⟨root, r₀, hroot, hadd, hid, heq, fun n parent hn hp => ?_⟩
  obtain ⟨hlen, htake, tokens, ⟨s, hs, hd⟩, hpre⟩ := hbranch n parent hn hp
  exact ⟨hlen, htake, s, hs, tokens, hd, hpre⟩

end Runs

/-- Two rounds of a tournament with one root. -/
def tournamentSample : VllmConfig where
  gambit :=
    { enable := true
      enableBranching := true
      doubleNewLineTokenId := some [7]
      tournamentCapacity := 3
      tournamentWarmupTokens := 1
      tournamentCheckInterval := 1 }
  scheduler := {}

/-- A root that reaches a boundary and is branched in the next step, then goes on. -/
def branchingEvents : List Event :=
  [.addRequest { requestId := "0_1".toList, promptTokenIds := [1, 2, 3] },
    .step (.ofSamples (fun _ => [7]) fun _ => 1),
    .step (.ofSamples (fun _ => [5]) fun _ => 1),
    .step (.ofSamples (fun _ => [6]) fun _ => 1)]

/-- The branch of a run inherits. -/
theorem prefix_inheritance_branch :
    ∃ r, ((engineMachine .unbounded tournamentSample ()).exec branchingEvents).2.scheduler.requests.get?
        (branchId 0 "0_1".toList) = some r ∧
      ∃ root r₀, RootOf ((engineMachine .unbounded tournamentSample ()).exec
          branchingEvents).2.traceTree (branchId 0 "0_1".toList) root ∧
        .addRequest r₀ ∈ branchingEvents ∧ r₀.requestId = root ∧
        r₀.promptTokenIds ++ ((engineMachine .unbounded tournamentSample ()).exec
          branchingEvents).2.buffer (branchId 0 "0_1".toList) = r.allTokenIds := by
  obtain ⟨r, hr⟩ := Dict.mem_iff_get?.1 (show branchId 0 "0_1".toList ∈ ((engineMachine .unbounded
    tournamentSample ()).exec branchingEvents).2.scheduler.requests by decide +kernel)
  obtain ⟨root, r₀, hroot, hadd, hid, heq, -⟩ := prefix_inheritance
    (Machine.Runs.of_exec (show (engineMachine .unbounded tournamentSample ()).OkFrom [] branchingEvents
      by decide +kernel)) rfl hr
  exact ⟨r, hr, root, r₀, hroot, hadd, hid, heq⟩

end Gambit.Engine
