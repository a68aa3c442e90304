import Gambit.Engine.Invariant

/-!
# Pruned traces and their EOS token

A prune or a forced stop marks the trace, and the first step whose batch contains it overwrites its
sampled tokens with EOS and drops the mark. Whether the request stops is then decided by
`check_stop`. `Obeys` says exactly for which requests it does (`forced_stop_iff`): a request that
ignores EOS, has not reached `min_tokens`, or has no EOS token may go on without a mark.
-/

namespace Gambit.Sched.Request
variable {r r' : Request} {n : Nat} {ts : List Token}

/-- Whether the token `t` stops the request, after `k` other new tokens were accepted. -/
def StopsAfter (n : Nat) (r : Request) (k : Nat) (t : Token) : Prop :=
  r.samplingParams.minTokens ≤ r.numOutputTokens + k + 1 ∧
    (r.samplingParams.ignoreEos = false ∧ r.eosTokenId = some t ∨
      t ∈ r.samplingParams.stopTokenIds ∨
      n ≤ r.numTokens + k + 1 ∨ r.maxTokens ≤ r.numOutputTokens + k + 1)

/-- The stop check right after a token was appended. -/
lemma checkStop_append_iff (t : Token) :
    ((r.appendOutputTokenId t).checkStop n).2 = true ↔ r.StopsAfter n 0 t := by
  have hout : (r.appendOutputTokenId t).numOutputTokens = r.numOutputTokens + 1 := by
    simp [appendOutputTokenId, numOutputTokens]
  have htok : (r.appendOutputTokenId t).numTokens = r.numTokens + 1 := by
    simp [appendOutputTokenId, numTokens, allTokenIds]
    omega
  have hlast : (r.appendOutputTokenId t).outputTokenIds.getLast? = some t := by
    simp [appendOutputTokenId]
  unfold checkStop StopsAfter
  rw [hout, htok, hlast]
  have hsame : (r.appendOutputTokenId t).samplingParams = r.samplingParams ∧
      (r.appendOutputTokenId t).eosTokenId = r.eosTokenId ∧
      (r.appendOutputTokenId t).maxTokens = r.maxTokens := ⟨rfl, rfl, rfl⟩
  rw [hsame.1, hsame.2.1, hsame.2.2]
  by_cases hmin : r.numOutputTokens + 1 < r.samplingParams.minTokens
  · rw [if_pos hmin]
    simp only [Bool.false_eq_true, false_iff]
    omega
  rw [if_neg hmin]
  dsimp only
  by_cases heos : r.samplingParams.ignoreEos = false ∧ r.eosTokenId = some t
  · rw [if_pos heos]
    exact ⟨fun _ => ⟨by omega, .inl heos⟩, fun _ => rfl⟩
  rw [if_neg heos]
  by_cases hstop : t ∈ r.samplingParams.stopTokenIds
  · rw [if_pos hstop]
    exact ⟨fun _ => ⟨by omega, .inr (.inl hstop)⟩, fun _ => rfl⟩
  rw [if_neg hstop]
  by_cases hlen : n ≤ r.numTokens + 1 ∨ r.maxTokens ≤ r.numOutputTokens + 1
  · rw [if_pos hlen]
    exact ⟨fun _ => ⟨by omega, .inr (.inr hlen)⟩, fun _ => rfl⟩
  · rw [if_neg hlen]
    refine ⟨fun h => (by cases h), ?_⟩
    rintro ⟨-, h | h | h⟩
    · exact absurd h heos
    · exact absurd h hstop
    · exact absurd h hlen

/-- A request stops on the first of its tokens that stops it. -/
lemma updateRequestWithOutput_stopped_iff :
    (r.updateRequestWithOutput n ts).2.2 = true ↔
      ∃ k t, ts[k]? = some t ∧ r.StopsAfter n k t := by
  induction ts generalizing r with
  | nil => simp [updateRequestWithOutput]
  | cons t ts ih =>
    have hiff := checkStop_append_iff (r := r) (n := n) t
    rw [updateRequestWithOutput]
    cases hs : (r.appendOutputTokenId t).checkStop n with
    | mk r1 stopped =>
      rw [hs] at hiff
      cases stopped with
      | true => exact ⟨fun _ => ⟨0, t, rfl, hiff.1 rfl⟩, fun _ => rfl⟩
      | false =>
        have hr1 : r1 = r.appendOutputTokenId t := by
          have := checkStop_of_not_stopped (r := r.appendOutputTokenId t) (n := n) (by rw [hs])
          rw [hs] at this
          exact this
        have hshift : ∀ k t', r1.StopsAfter n k t' ↔ r.StopsAfter n (k + 1) t' := by
          intro k t'
          subst hr1
          simp only [StopsAfter, appendOutputTokenId, numOutputTokens, numTokens, allTokenIds,
            maxTokens, List.length_append, List.length_singleton]
          constructor
          · rintro ⟨h1, h2⟩
            exact ⟨by omega, h2.imp_right (.imp_right (.imp (by omega) (by omega)))⟩
          · rintro ⟨h1, h2⟩
            exact ⟨by omega, h2.imp_right (.imp_right (.imp (by omega) (by omega)))⟩
        dsimp only
        rw [ih]
        constructor
        · rintro ⟨k, t', hk, ht⟩
          exact ⟨k + 1, t', hk, (hshift k t').1 ht⟩
        · rintro ⟨k, t', hk, ht⟩
          cases k with
          | zero =>
            cases hk
            exact absurd (hiff.2 ht) (by simp)
          | succ k => exact ⟨k, t', hk, (hshift k t').2 ht⟩

/-- When a request told to stop does stop: its EOS token is checked, or one of the sampled tokens
stops it anyway. -/
def Obeys (n : Nat) (r : Request) (sampled : List Token) : Prop :=
  match r.eosTokenId with
  | some eos =>
    r.samplingParams.minTokens ≤ r.numOutputTokens + 1 ∧
      (r.samplingParams.ignoreEos = false ∨ eos ∈ r.samplingParams.stopTokenIds ∨
        n ≤ r.numTokens + 1 ∨ r.maxTokens ≤ r.numOutputTokens + 1)
  | none => ∃ k t, sampled[k]? = some t ∧
    r.samplingParams.minTokens ≤ r.numOutputTokens + k + 1 ∧
      (t ∈ r.samplingParams.stopTokenIds ∨ n ≤ r.numTokens + k + 1 ∨
        r.maxTokens ≤ r.numOutputTokens + k + 1)

/-- Only the trace of the request matters. -/
lemma SameTrace.stopsAfter {k : Nat} {t : Token} (h : r.SameTrace r') :
    r'.StopsAfter n k t ↔ r.StopsAfter n k t := by
  simp only [StopsAfter, numOutputTokens, Request.numTokens, maxTokens, h.allTokenIds, h.samplingParams,
    h.eosTokenId, h.outputTokenIds]

end Gambit.Sched.Request

namespace Gambit.Engine
open Gambit.Lib Gambit.Sched Gambit.Trace

/-- A request that is told to stop stops exactly when it obeys. -/
lemma stopsAfter_withEos {r : Request} {n : Nat} {sampled : List Token} :
    (∃ k t, (EngineCore.withEos r.eosTokenId sampled)[k]? = some t ∧ r.StopsAfter n k t) ↔
      r.Obeys n sampled := by
  unfold Request.Obeys Request.StopsAfter
  cases heos : r.eosTokenId with
  | none => simp [EngineCore.withEos]
  | some eos =>
    constructor
    · rintro ⟨k, t, hk, hmin, h⟩
      cases k with
      | zero =>
        cases hk
        exact ⟨hmin, h.imp_left And.left⟩
      | succ k => cases hk
    · rintro ⟨hmin, h⟩
      exact ⟨0, eos, rfl, hmin, h.imp_left fun hi => ⟨hi, rfl⟩⟩

namespace EngineCore
variable {μ β : Type} {ops : Caches μ β} {cfg : VllmConfig} {i : StepInput} {e e' : EngineCore μ}
variable {added : List ReqId} {so : SchedulerOutput β} {rid : ReqId} {r : Request}

/-- Whoever was marked before, or is pruned or forced to stop in this step, is marked. -/
def Marked (before : Prop) (rid : ReqId) (e : EngineCore μ) : Prop :=
  before ∨ .prune rid ∈ e.record.decisions ∨ .forceStop rid ∈ e.record.decisions → e.StopPending rid

/-- The scoring phases mark whatever they decide to stop. -/
lemma scoringRules_marked (before : Prop) :
    ScoringRules (μ := μ) cfg i added so (Marked before rid) where
  absorb e e' reply _ h _ habs _ := by
    obtain ⟨_, _, _, _, _, rfl, -⟩ := habs
    exact h
  submit e e' _ h _ hs := by
    obtain ⟨_, _, _, rfl, -⟩ := hs
    exact h
  label e scores _ h := h
  move e e' avgs hb h _ _ hm := by
    cases hm with
    | count | register | round => exact h
    | pruneTested | pruneRanked =>
      intro hd
      simp only [pruneTrace, logDecision, List.mem_append, List.mem_singleton, StopPending,
        List.mem_insert_iff] at hd ⊢
      by_cases hx : rid ∈ e.pendingLowScoreStops ∨ rid ∈ e.pendingForceStops
      · exact hx.imp_left .inr
      · have hn := fun hc => hx (h hc)
        simp only [not_or] at hn hx
        grind
    | forceStop =>
      intro hd
      simp only [forceStopTrace, logDecision, List.mem_append, List.mem_singleton, StopPending,
        List.mem_insert_iff] at hd ⊢
      by_cases hx : rid ∈ e.pendingLowScoreStops ∨ rid ∈ e.pendingForceStops
      · exact hx.imp_right .inr
      · have hn := fun hc => hx (h hc)
        simp only [not_or] at hn hx
        grind
    | flush => unfold flushHistories; split <;> exact h
    | branch parent =>
      rcases createBranch_cases cfg i e parent with
        heq | ⟨t, -, -, heq⟩ | ⟨r, t, c, -, -, -, -, heq⟩
      · rw [heq]; exact h
      · rw [heq]
        intro hd
        refine h (hd.imp_right fun hd => ?_)
        simpa [logDecision] using hd
      · obtain ⟨ts, ss, cs, hadopt, -⟩ := adoptChild_eq cfg e t parent c r.allTokenIds
        rw [heq, hadopt]
        intro hd
        refine h (hd.imp_right fun hd => ?_)
        simpa using hd
  drop e ids _ h := h

/-- The state in which a step injects the EOS tokens. -/
def atInjection (ops : Caches μ β) (cfg : VllmConfig) (i : StepInput) (e : EngineCore μ) :
    EngineCore μ :=
  ((e.afterSchedule ops cfg i).1.scoringPhases cfg i (e.afterSchedule ops cfg i).2).detectTriggers
    cfg (modelOutput i (e.afterSchedule ops cfg i).2)

/-- The marks at the injection: those from before, and those of the decisions of this step. -/
lemma Base.marked_atInjection (ops : Caches μ β) (i : StepInput) (hb : Base cfg added e)
    (rid : ReqId) : Marked (e.StopPending rid) rid (e.atInjection ops cfg i) := by
  obtain ⟨hb0, hso⟩ := hb.afterSchedule ops i
  have hstart : Marked (e.StopPending rid) rid (e.afterSchedule ops cfg i).1 := by
    rintro (h | h | h)
    · exact h
    · cases h
    · cases h
  obtain ⟨-, hm, -⟩ := (scoringRules_marked (e.StopPending rid)).stages.scoringPhases ⟨hb0, hstart, hso⟩
  unfold atInjection
  obtain ⟨tc, sl, heq, -⟩ := detectTriggers_eq cfg
    ((e.afterSchedule ops cfg i).1.scoringPhases cfg i (e.afterSchedule ops cfg i).2)
    (modelOutput i (e.afterSchedule ops cfg i).2)
  rw [heq]
  exact hm

/-- The marks after a step are those of the injection that were not in the batch. -/
lemma Finishes.stopPending {mo : ModelRunnerOutput} {fin : List ReqId}
    (h : Finishes cfg so mo fin e e') (rid : ReqId) :
    (rid ∉ fin → e.StopPending rid → e'.StopPending rid) ∧
      (e'.StopPending rid → e.StopPending rid) := by
  have hlow := h.finalized.pendingLowScoreStops
  have hforce := h.finalized.pendingForceStops
  dsimp only at hlow hforce
  constructor
  · intro hx hp
    rw [StopPending, hlow, hforce, mem_foldl_erase hx, mem_foldl_erase hx]
    exact hp
  · intro hp
    rw [StopPending, hlow, hforce] at hp
    exact hp.imp mem_of_mem_foldl_erase mem_of_mem_foldl_erase

/-- With branching on, the phases end with the injection. -/
lemma gambitPhases_eq (ops : Caches μ β) (hen : cfg.gambit.enable = true)
    (hbr : cfg.gambit.enableBranching = true) :
    (e.afterSchedule ops cfg i).1.gambitPhases cfg i (e.afterSchedule ops cfg i).2
      (modelOutput i (e.afterSchedule ops cfg i).2) =
      (e.atInjection ops cfg i).injectEos (modelOutput i (e.afterSchedule ops cfg i).2) := by
  unfold gambitPhases
  rw [if_pos hen]
  exact if_pos hbr

/-- A step that runs the model: what becomes of a marked trace. -/
lemma Base.forcedStop (ops : Caches μ β) (hb : Base cfg added e)
    (hreq : e.scheduler.hasRequests = true) (hen : cfg.gambit.enable = true)
    (hbr : cfg.gambit.enableBranching = true) (hp : (e.atInjection ops cfg i).StopPending rid) :
    (rid ∉ (e.afterSchedule ops cfg i).2.numScheduledTokens → (e.step ops cfg i).StopPending rid) ∧
      (rid ∈ (e.afterSchedule ops cfg i).2.numScheduledTokens →
        ¬ (e.step ops cfg i).StopPending rid ∧
        (rid ∉ (e.step ops cfg i).scheduler.requests ↔
          ∀ r, e.scheduler.requests.get? rid = some r →
            r.Obeys cfg.scheduler.maxModelLen (i.sampled rid))) := by
  have hpol : cfg.policy = .gambit := by rw [VllmConfig.policy, if_pos hen]
  have hsched : Scheduler.ScheduleSpec ops cfg e.scheduler
      (e.scheduler.schedule ops cfg i.grammarReady).1
      (e.scheduler.schedule ops cfg i.grammarReady).2 := hb.wf.schedule i.grammarReady
  obtain ⟨s, low, force, mo', hinj, hrel, -, hlow, hforce, hmo'⟩ :=
    injectEos_eq (e.atInjection ops cfg i) (modelOutput i (e.afterSchedule ops cfg i).2)
  constructor
  · intro hso
    obtain ⟨e1, mo, fin, -, -, hf1, -, -, heq, -, hfin, -⟩ :=
      hb.step_rule ops hreq phaseRules_true trivial
    rw [gambitPhases_eq ops hen hbr, hinj] at heq
    cases heq
    refine (hfin.stopPending rid).1 (fun hx => hso (hfin.live_of_fin hf1 hx).1) ?_
    exact hp.imp (fun h => (hlow rid).2 ⟨h, fun hm => hso (mem_modelOutput.1 hm)⟩)
      (fun h => (hforce rid).2 ⟨h, fun hm => hso (mem_modelOutput.1 hm)⟩)
  · intro hso
    obtain ⟨r, hr⟩ := Dict.mem_iff_get?.1 (hsched.scheduled rid hso)
    have hstart : ∃ r', (e.afterSchedule ops cfg i).1.scheduler.requests.get? rid = some r' ∧
        r.SameTrace r' := by
      obtain ⟨r', hr'⟩ := Dict.mem_iff_get?.1 (hsched.live hpol rid hso)
      obtain ⟨r0, hr0, hk⟩ := hsched.evolves.back rid r' hr'
      rw [hr] at hr0
      cases hr0
      exact ⟨r', hr', hk.toSameTrace⟩
    obtain ⟨e1, mo, fin, -, ⟨r1, hr1, hst⟩, -, -, -, heq, -, hfin, -⟩ :=
      hb.step_rule ops hreq phaseRules_sameTrace hstart
    rw [gambitPhases_eq ops hen hbr, hinj] at heq
    cases heq
    have hmem : rid ∈ modelOutput i (e.afterSchedule ops cfg i).2 := mem_modelOutput.2 hso
    constructor
    · intro hpend
      rcases (hfin.stopPending rid).2 hpend with h | h
      · exact ((hlow rid).1 h).2 hmem
      · exact ((hforce rid).1 h).2 hmem
    · -- the tokens of the request after the injection
      have htok : mo'.getD rid [] = withEos r1.eosTokenId (i.sampled rid) := by
        have hget : (modelOutput i (e.afterSchedule ops cfg i).2).get? rid = some (i.sampled rid) := by
          rw [modelOutput, Dict.get?_ofKeys, if_pos ((i.rows.perm _).mem_iff.2 hso)]
        have heos : eosOf (e.atInjection ops cfg i).scheduler rid = r1.eosTokenId := by
          rw [← eosOf_relabels hrel, eosOf, hr1]
          rfl
        rw [Dict.getD_eq, hmo', if_pos hp, hget, heos]
        rfl
      obtain ⟨n, hn⟩ := Scheduler.rejectDrafts_eq (e.afterSchedule ops cfg i).2 r1
        (withEos r.eosTokenId (i.sampled rid))
      have hstop : (Scheduler.accept cfg (e.afterSchedule ops cfg i).2 mo' rid r1).2.2 = true ↔
          r.Obeys cfg.scheduler.maxModelLen (i.sampled rid) := by
        rw [Scheduler.accept, Request.updateRequestWithOutput_stopped_iff, htok, hst.eosTokenId,
          ← stopsAfter_withEos, hn]
        exact exists_congr fun k => exists_congr fun t => and_congr_right fun _ => hst.stopsAfter
      rw [← Dict.get?_eq_none, hfin.update.requests, if_pos hso, hr1]
      simp only [Option.bind_some, Scheduler.outcome]
      rw [hr]
      simp only [Option.some.injEq, forall_eq', ← hstop]
      split <;> simp_all

/-- The decisions of a step are taken before the injection. -/
lemma Base.decisions_step (ops : Caches μ β) (hb : Base cfg added e)
    (hreq : e.scheduler.hasRequests = true) (hen : cfg.gambit.enable = true)
    (hbr : cfg.gambit.enableBranching = true) :
    (e.step ops cfg i).record.decisions = (e.atInjection ops cfg i).record.decisions := by
  obtain ⟨s, low, force, mo', hinj, -⟩ :=
    injectEos_eq (e.atInjection ops cfg i) (modelOutput i (e.afterSchedule ops cfg i).2)
  obtain ⟨e1, mo, fin, -, -, -, -, -, heq, -, hfin, -⟩ :=
    hb.step_rule ops hreq phaseRules_true trivial
  rw [gambitPhases_eq ops hen hbr, hinj] at heq
  cases heq
  obtain ⟨outs, hrec⟩ := hfin.record
  rw [hrec]

end EngineCore

/-- A pruned trace stops exactly when it obeys: in every step from a reachable state, a trace that
was marked before or is marked by a decision of the step keeps its mark until it is in the batch (or
its request is gone), and then its mark is dropped and it leaves the scheduler if and only if its
request obeys. -/
theorem forced_stop_iff {μ β : Type} {ops : Caches μ β} {cfg : VllmConfig} {m : μ} {h : List Event}
    {o : List StepRecord} {e : EngineCore μ} (run : (engineMachine ops cfg m).Runs h o e)
    (hen : cfg.gambit.enable = true) (hbr : cfg.gambit.enableBranching = true) (i : StepInput)
    (rid : ReqId)
    (hmark : e.StopPending rid ∨ .prune rid ∈ (e.step ops cfg i).record.decisions ∨
      .forceStop rid ∈ (e.step ops cfg i).record.decisions) :
    (rid ∉ (e.step ops cfg i).record.scheduled →
      (e.step ops cfg i).StopPending rid ∨ rid ∉ (e.step ops cfg i).scheduler.requests) ∧
    (rid ∈ (e.step ops cfg i).record.scheduled →
      ¬ (e.step ops cfg i).StopPending rid ∧
      ((rid ∉ (e.step ops cfg i).scheduler.running ∧ rid ∉ (e.step ops cfg i).scheduler.waiting ∧
          rid ∉ (e.step ops cfg i).scheduler.requests) ↔
        ∀ r, e.scheduler.requests.get? rid = some r →
          r.Obeys cfg.scheduler.maxModelLen (i.sampled rid))) := by
  have hb := base_of_runs run
  have hwf := (hb.step ops i).wf
  have hqueues : (rid ∉ (e.step ops cfg i).scheduler.running ∧
      rid ∉ (e.step ops cfg i).scheduler.waiting ∧ rid ∉ (e.step ops cfg i).scheduler.requests) ↔
      rid ∉ (e.step ops cfg i).scheduler.requests := by
    refine ⟨fun h => h.2.2, fun hn => ?_⟩
    have hm := hwf.mem rid
    rw [List.mem_append] at hm
    exact ⟨fun hr => hn (hm.2 (.inl hr)), fun hr => hn (hm.2 (.inr hr)), hn⟩
  cases hreq : e.scheduler.hasRequests with
  | true =>
    rw [hb.decisions_step ops hreq hen hbr] at hmark
    obtain ⟨hout, hin⟩ := hb.forcedStop ops hreq hen hbr (hb.marked_atInjection ops i rid hmark)
    rw [(hb.record_step ops hreq).1, hqueues]
    exact ⟨fun hn => .inl (hout hn), hin⟩
  | false =>
    have hidle : e.step ops cfg i = ({ e with record := {} } : EngineCore μ).idleCleanup cfg := by
      rw [EngineCore.step, if_neg (by simp [hreq])]
    have hsched : (e.step ops cfg i).scheduler = e.scheduler ∧
        (e.step ops cfg i).record.scheduled = ∅ := by
      rw [hidle]
      unfold EngineCore.idleCleanup
      split <;> exact ⟨rfl, rfl⟩
    rw [hsched.1, hsched.2]
    refine ⟨fun _ => .inr fun hm => ?_, fun hm => absurd hm Dict.not_mem_empty⟩
    have hq := (hb.wf.mem rid).1 hm
    simp only [Scheduler.hasRequests, Bool.or_eq_false_iff, Bool.not_eq_false',
      List.isEmpty_iff] at hreq
    rw [hreq.1.1, hreq.1.2] at hq
    cases hq

/-- Threshold mode with no waiting time. -/
def thresholdSample : VllmConfig where
  gambit :=
    { enable := true
      enableBranching := true
      doubleNewLineTokenId := some [7]
      tournamentMode := false
      minTokensBeforePrune := 0 }
  scheduler := {}

/-- One root that reaches a boundary; the next step scores it. -/
def boundaryEvents (ignoreEos : Bool) : List Event :=
  [.addRequest
      { requestId := "0_1".toList
        promptTokenIds := [1, 2, 3]
        eosTokenId := some 9
        samplingParams := { ignoreEos := ignoreEos } },
    .step (.ofSamples (fun _ => [7]) fun _ => 0)]

/-- The root at the boundary. -/
def atBoundary (ignoreEos : Bool) : EngineCore Unit :=
  ((engineMachine .unbounded thresholdSample ()).exec (boundaryEvents ignoreEos)).2

/-- The root after the step that scores it. -/
def afterScore (ignoreEos : Bool) : EngineCore Unit :=
  (atBoundary ignoreEos).step .unbounded thresholdSample (.ofSamples (fun _ => [5]) fun _ => 0)

/-- The root at the boundary is reachable. -/
lemma runs_atBoundary (ignoreEos : Bool) :
    (engineMachine .unbounded thresholdSample ()).Runs (boundaryEvents ignoreEos)
      ((engineMachine .unbounded thresholdSample ()).exec (boundaryEvents ignoreEos)).1
      (atBoundary ignoreEos) := by
  refine Machine.Runs.of_exec ?_
  cases ignoreEos <;> decide +kernel

/-- A low score prunes the root, and the request that checks EOS is gone. -/
theorem forced_stop_iff_obeying :
    .prune "0_1".toList ∈ (afterScore false).record.decisions ∧
      "0_1".toList ∈ (afterScore false).record.scheduled ∧
      "0_1".toList ∉ (afterScore false).scheduler.requests := by
  have hprune : .prune "0_1".toList ∈ (afterScore false).record.decisions := by decide +kernel
  have hsched : "0_1".toList ∈ (afterScore false).record.scheduled := by decide +kernel
  refine ⟨hprune, hsched, ?_⟩
  have hstop := forced_stop_iff (runs_atBoundary false) rfl rfl
    (.ofSamples (fun _ => [5]) fun _ => 0) "0_1".toList (.inr (.inl hprune))
  refine ((hstop.2 hsched).2.2 fun r hr => ?_).2.2
  have hval : (atBoundary false).scheduler.requests.get? "0_1".toList = some
      { requestId := "0_1".toList
        promptTokenIds := [1, 2, 3]
        outputTokenIds := [7]
        eosTokenId := some 9
        status := .running
        numComputedTokens := 3
        numCachedTokens := 0 } := by decide +kernel
  rw [hval] at hr
  cases hr
  exact ⟨by decide, .inl rfl⟩

/-- A pruned request that ignores EOS loses its mark and goes on decoding. -/
theorem ignoring_eos_goes_on :
    (engineMachine .unbounded thresholdSample ()).Runs (boundaryEvents true)
        ((engineMachine .unbounded thresholdSample ()).exec (boundaryEvents true)).1
        (atBoundary true) ∧
      .prune "0_1".toList ∈ (afterScore true).record.decisions ∧
      "0_1".toList ∈ (afterScore true).record.scheduled ∧
      ¬ (afterScore true).StopPending "0_1".toList ∧
      "0_1".toList ∈ (afterScore true).scheduler.running ∧
      "0_1".toList ∈ (afterScore true).scheduler.requests := by
  refine ⟨runs_atBoundary true, ?_⟩
  decide +kernel

end Gambit.Engine
