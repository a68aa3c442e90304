import Gambit.Engine.Prefix
import Gambit.Frontend.Processor

/-!
# No request outgrows the model

The bound `num_tokens < max_model_len` of the unfinished requests, through whole runs of the engine. It
is spread over the admission check, `check_stop`, the clamp of `schedule` and an assertion of the
worker, and the four do not agree: a prompt of exactly `max_model_len` tokens is admitted, and
`check_stop` looks at `min_tokens` before it looks at the model. `Snug` leaves these requests out, and
`BranchRoom` the branches that would be such a request.

The worker is what `GPUModelRunner._update_states` and `_bookkeeping_sync` do with a row of its batch:
`numTokensNoSpec` is the row's `num_tokens_no_spec` once its cached outputs are aligned with the
scheduler, and `Executes` says which rows get tokens and how many.
-/

namespace Gambit.Engine
open Gambit.Lib Gambit.Sched Gambit.Trace Gambit.Frontend

/-- The `num_tokens_no_spec` of a row with `outputs` cached output tokens, after `_update_states`: the
prompt and the outputs, those cut off that the scheduler does not have. -/
def numTokensNoSpec (outputs : Nat) (r : Request) : Nat :=
  r.promptTokenIds.length + min outputs r.numOutputTokens

/-- What the worker samples for the batch `so`: a row gets tokens exactly when its scheduled tokens reach
its last one, and at most one more than it had drafts. -/
def Executes {μ β : Type} (s : Scheduler μ) (so : SchedulerOutput β) (outputs : ReqId → Nat)
    (sampled : ReqId → List Token) : Prop :=
  ∀ rid ∈ so.numScheduledTokens.keys, ∀ r ∈ s.requests.get? rid,
    (sampled rid ≠ [] ↔ (numTokensNoSpec (outputs rid) r : Int) ≤ r.numComputedTokens) ∧
    (sampled rid).length ≤ 1 + (so.scheduledSpecDecodeTokens.getD rid []).length

instance {μ β : Type} (s : Scheduler μ) (so : SchedulerOutput β) (outputs : ReqId → Nat)
    (sampled : ReqId → List Token) : Decidable (Executes s so outputs sampled) :=
  inferInstanceAs (Decidable (∀ rid ∈ so.numScheduledTokens.keys, ∀ r ∈ s.requests.get? rid, _))

/-- Every step is executed by the worker. -/
def Executed {μ β : Type} (ops : Caches μ β) (cfg : VllmConfig) (e : EngineCore μ) : Event → Prop
  | .step i => ∃ outputs, Executes (e.afterSchedule ops cfg i).1.scheduler (e.afterSchedule ops cfg i).2
      outputs i.sampled
  | _ => True

/-- A request with room for a first token and for the tokens `min_tokens` forces. -/
structure Snug (cfg : VllmConfig) (r : Request) : Prop where
  shorter : r.promptTokenIds.length < cfg.scheduler.maxModelLen
  forced : r.promptTokenIds.length + r.samplingParams.minTokens ≤ cfg.scheduler.maxModelLen

/-- A branch would have room for the tokens `min_tokens` forces. -/
def BranchFits {μ : Type} (cfg : VllmConfig) (e : EngineCore μ) : Decision → Prop
  | .branch parent _ _ => ∀ r ∈ e.scheduler.requests.get? parent,
      r.numTokens + r.samplingParams.minTokens ≤ cfg.scheduler.maxModelLen
  | _ => True

instance {μ : Type} (cfg : VllmConfig) (e : EngineCore μ) : (d : Decision) → Decidable (BranchFits cfg e d)
  | .branch parent _ _ =>
    inferInstanceAs (Decidable (∀ r ∈ e.scheduler.requests.get? parent,
      r.numTokens + r.samplingParams.minTokens ≤ cfg.scheduler.maxModelLen))
  | .prune _ | .forceStop _ | .branchFailed _ _ => .isTrue trivial

/-- No step branches a trace whose branch would lack that room. -/
def BranchRoom {μ β : Type} (ops : Caches μ β) (cfg : VllmConfig) (e : EngineCore μ) : Event → Prop
  | .step i => ∀ d ∈ (e.step ops cfg i).record.decisions, BranchFits cfg e d
  | _ => True

instance {μ β : Type} (ops : Caches μ β) (cfg : VllmConfig) (e : EngineCore μ) :
    (ev : Event) → Decidable (BranchRoom ops cfg e ev)
  | .step i => inferInstanceAs (Decidable (∀ d ∈ (e.step ops cfg i).record.decisions, BranchFits cfg e d))
  | .addRequest _ | .abortRequests _ | .postStep _ => .isTrue trivial

/-- The requests of a state are shorter than the model, a running request gets a token as long as there
are budget and blocks, and the worker's assertion holds in every step. -/
structure WithinModel {μ β : Type} (ops : Caches μ β) (cfg : VllmConfig) (e : EngineCore μ) : Prop where
  shorter : ∀ rid r, e.scheduler.requests.get? rid = some r → r.numTokens < cfg.scheduler.maxModelLen
  /-- The clamp leaves a token. -/
  clamp : ∀ rid ∈ e.scheduler.running, ∀ r, e.scheduler.requests.get? rid = some r → ∀ budget, 1 ≤ budget →
    1 ≤ Pass.numNewRunning cfg r budget
  /-- A pass schedules every running request without encoder inputs, unless somebody loses its place for
  want of blocks or the token budget is used up. -/
  served : ∀ ready, (∃ x ∈ e.scheduler.running, x ∉ (e.scheduler.schedule ops cfg ready).1.running) ∨
    (e.scheduler.schedule ops cfg ready).2.numScheduledTokens.values.sum =
      cfg.scheduler.maxNumBatchedTokens ∨
    ∀ rid r, rid ∈ e.scheduler.running → e.scheduler.requests.get? rid = some r →
      r.hasEncoderInputs = false → rid ∈ (e.scheduler.schedule ops cfg ready).2.numScheduledTokens
  /-- The assertion `end_idx <= max_model_len` of `_bookkeeping_sync`. -/
  worker : ∀ i outputs, Executes (e.afterSchedule ops cfg i).1.scheduler (e.afterSchedule ops cfg i).2
      outputs i.sampled →
    ∀ rid ∈ (e.afterSchedule ops cfg i).2.numScheduledTokens, ∀ r,
      (e.afterSchedule ops cfg i).1.scheduler.requests.get? rid = some r →
      numTokensNoSpec (outputs rid) r + (i.sampled rid).length ≤ cfg.scheduler.maxModelLen

variable {μ β : Type} {ops : Caches μ β} {cfg : VllmConfig} {m : μ} {blocks entries : μ → ReqId → Prop}

/-- A row has at most the tokens of its request. -/
lemma numTokensNoSpec_le (outputs : Nat) (r : Request) : numTokensNoSpec outputs r ≤ r.numTokens := by
  rw [numTokensNoSpec, Request.numOutputTokens, Request.numTokens_eq]
  omega

/-- A new request that was admitted and has room is within the model. -/
lemma Snug.within {r : Request} (h : Snug cfg r) (ha : Processor.Admits cfg r) (hnew : IsNewRequest r) :
    r.Within cfg := by
  obtain ⟨hne, hle, hmax⟩ := ha.spec
  obtain ⟨hlt, hforced⟩ := h
  have hpos := List.length_pos_of_ne_nil hne
  have hlen := r.numTokens_eq
  rw [hnew.outputTokenIds, List.length_nil] at hlen
  have hrun : r.status ≠ .running := by
    rw [hnew.status]
    exact Request.initialStatus_ne_running _
  refine ⟨⟨⟨hne, hle, ?_, .inl (by omega)⟩, by omega, ?_, by rw [hnew.numComputedTokens], ?_,
    fun _ => hnew.numComputedTokens, fun _ _ => hnew.outputTokenIds⟩, ⟨by omega, ?_, hforced⟩⟩
  · rcases hmax with hmax | hmax
    · exact .inl hmax.2
    · exact .inr hmax.ge
  · rw [Request.numOutputTokens, hnew.outputTokenIds]
    exact .inl (Nat.zero_le _)
  · rw [hnew.numComputedTokens]
    omega
  · rw [Request.numOutputTokens, hnew.outputTokenIds, List.length_nil]
    omega

namespace EngineCore
variable {e e₀ : EngineCore μ} {added : List ReqId} {so : SchedulerOutput β} {i : StepInput}

/-- A live request in the middle of a step from `e₀`: it is in the batch or waits, a branch of it would
have room unless it is a trace of `e₀`, and the worker answers it. -/
structure MidLength (cfg : VllmConfig) (e₀ : EngineCore μ) (so : SchedulerOutput β) (i : StepInput)
    (rid : ReqId) (r : Request) : Prop where
  batch : Scheduler.InBatch cfg so rid r
  lineage : (∃ r₀, e₀.scheduler.requests.get? rid = some r₀ ∧ r₀.SameTrace r) ∨
    r.numTokens + r.samplingParams.minTokens ≤ cfg.scheduler.maxModelLen
  sampled : rid ∈ so.numScheduledTokens →
    ((r.numTokens : Int) ≤ r.numComputedTokens → i.sampled rid ≠ []) ∧
      (i.sampled rid).length ≤ 1 + (so.scheduledSpecDecodeTokens.getD rid []).length

/-- Labels do not matter. -/
lemma MidLength.congr {rid : ReqId} {r r' : Request} (h : MidLength cfg e₀ so i rid r)
    (ht : r.SameTrace r') (hs : r'.status = r.status)
    (hc : r'.numComputedTokens = r.numComputedTokens) : MidLength cfg e₀ so i rid r' := by
  refine ⟨h.batch.congr ht hs hc, ?_, ?_⟩
  · rw [ht.numTokens, ht.samplingParams]
    exact h.lineage.imp_left fun ⟨r₀, h0, ht0⟩ => ⟨r₀, h0, ht0.trans ht⟩
  · rw [ht.numTokens, hc]
    exact h.sampled

/-- The state in the middle of a step from `e₀`, if the branches so far have room. -/
structure MidWithin (cfg : VllmConfig) (added : List ReqId) (e₀ : EngineCore μ) (so : SchedulerOutput β)
    (i : StepInput) (e : EngineCore μ) : Prop where
  known : ∀ x ∈ so.numScheduledTokens, e.Known added x
  length : e.scheduler.running.length ≤ cfg.scheduler.maxNumSeqs
  live : (∀ d ∈ e.record.decisions, BranchFits cfg e₀ d) →
    ∀ rid r, e.scheduler.requests.get? rid = some r → MidLength cfg e₀ so i rid r

/-- A change of labels, with more decisions logged. -/
lemma MidWithin.relabels {e' : EngineCore μ} (h : MidWithin cfg added e₀ so i e)
    (hrel : e.scheduler.Relabels e'.scheduler)
    (hn : e.traceTree.branchCounter ≤ e'.traceTree.branchCounter)
    (hd : ∀ d ∈ e.record.decisions, d ∈ e'.record.decisions) : MidWithin cfg added e₀ so i e' := by
  refine ⟨fun x hx => (h.known x hx).mono (fun _ => id) hn, ?_, fun hall rid r' hr' => ?_⟩
  · rw [hrel.running]
    exact h.length
  · obtain ⟨r, hr, ht, hs, hc⟩ := hrel.back hr'
    exact (h.live (fun d hm => hall d (hd d hm)) rid r hr).congr ht hs hc

/-- The child of a trace with room is within the model. -/
lemma MidLength.child {parent child : ReqId} {r c : Request} {counter : Nat}
    (h : MidLength cfg e₀ so i parent r)
    (hroom : r.numTokens + r.samplingParams.minTokens ≤ cfg.scheduler.maxModelLen)
    (hc : createChildRequest cfg i r counter child = some c) (hn : child ∉ so.numScheduledTokens) :
    MidLength cfg e₀ so i child c := by
  obtain ⟨-, hprompt, hout, hst, hcomp, -⟩ := createChildRequest_eq hc
  have hmin : c.samplingParams.minTokens = r.samplingParams.minTokens ∧ c.maxTokens = r.maxTokens := by
    unfold createChildRequest at hc
    split at hc
    · cases hc
    · cases hc
      exact ⟨rfl, rfl⟩
  have hfits : r.Fits cfg := by
    cases h.batch.flight with
    | idle _ hsane => exact hsane.fits
    | scheduled _ hsane _ _ ht => exact hsane.fits.congr ht
  have htok : c.numTokens = r.numTokens := by
    rw [Request.numTokens_eq, hprompt, hout, List.length_nil, Nat.add_zero]
    rfl
  have hlen : c.promptTokenIds.length = r.numTokens := by rw [hprompt]; rfl
  have hrlen := r.numTokens_eq
  have hpos := hfits.numTokens_pos
  have hlt := h.batch.room.tokens
  have hrun : c.status ≠ .running := by
    rw [hst]
    exact Request.initialStatus_ne_running _
  have hmax := h.batch.room.output
  have hsane : c.Sane cfg := by
    refine ⟨⟨?_, by omega, ?_, .inl ?_⟩, by omega, ?_, by rw [hcomp], ?_, fun _ => hcomp,
      fun _ _ => hout⟩
    · exact List.ne_nil_of_length_pos (by omega)
    · rw [hmin.1, hmin.2, hlen]
      exact hfits.min_le.imp_right fun hle => by omega
    · rw [hmin.1, hlen]
      omega
    · rw [Request.numOutputTokens, hout]
      exact .inl (Nat.zero_le _)
    · rw [hcomp]
      omega
  refine ⟨⟨.idle hn hsane fun hf => hf.elim, ⟨by omega, ?_, ?_⟩⟩, .inr ?_, fun hm => absurd hm hn⟩
  · rw [Request.numOutputTokens, hout, List.length_nil, hmin.2]
    omega
  · rw [hlen, hmin.1]
    exact hroom
  · rw [htok, hmin.1]
    exact hroom

/-- The phases between `schedule` and the capture of tokens keep the requests within the model, if the
branches have room. -/
lemma phaseRules_within :
    PhaseRules (μ := μ) cfg i added so (MidWithin cfg added e₀ so i) where
  absorb e e' reply _ hp _ habs _ := by
    obtain ⟨_, _, _, _, _, rfl, -⟩ := habs
    exact hp.relabels (.refl _) (Nat.le_refl _) fun _ => id
  submit e e' _ hp _ hs := by
    obtain ⟨_, _, _, rfl, -⟩ := hs
    exact hp.relabels (.refl _) (Nat.le_refl _) fun _ => id
  label e scores _ hp :=
    hp.relabels (Scheduler.relabels_updateTraceScores e.scheduler scores) (Nat.le_refl _) fun _ => id
  move e e' avgs hb hp _ ha hm := by
    have hle := (hb.move ha hm).2.2
    cases hm with
    | count | register | round => exact hp.relabels (.refl _) hle fun _ => id
    | pruneTested | pruneRanked | forceStop =>
      exact hp.relabels (.refl _) hle fun d hd => List.mem_append_left _ hd
    | flush =>
      unfold flushHistories
      split
      · exact hp
      · exact hp.relabels (.refl _) (Nat.le_refl _) fun _ => id
    | branch parent =>
      rcases createBranch_cases cfg i e parent with heq | ⟨t, -, -, heq⟩ | ⟨r, t, c, -, hr, ht, hcr, heq⟩
      · rw [heq]
        exact hp
      · rw [heq] at hle ⊢
        exact hp.relabels (.refl _) hle fun d hd => List.mem_append_left _ hd
      · obtain ⟨ts, ss, cs, hadopt, -⟩ := adoptChild_eq cfg e t parent c r.allTokenIds
        obtain ⟨hid, -⟩ := createChildRequest_eq hcr
        rw [heq, hadopt] at hle ⊢
        have hnew : c.requestId ∉ so.numScheduledTokens :=
          fun hm => hb.not_known parent (hid ▸ hp.known _ hm)
        refine ⟨fun x hx => (hp.known x hx).mono (fun _ => id) hle, hp.length, fun hall rid r' hr' => ?_⟩
        have hlive := hp.live fun d hd => hall d (List.mem_append_left _ hd)
        dsimp only at hr'
        rw [Scheduler.get?_addRequest] at hr'
        split at hr'
        · next hrid =>
          cases hr'
          have hpar := hlive parent r hr
          have hroom : r.numTokens + r.samplingParams.minTokens ≤ cfg.scheduler.maxModelLen := by
            rcases hpar.lineage with ⟨r₀, h0, ht0⟩ | hroom
            · have hfit : BranchFits cfg e₀ (.branch parent c.requestId r.allTokenIds) :=
                hall _ (List.mem_append_right _ (List.mem_singleton_self _))
              rw [ht0.numTokens, ht0.samplingParams]
              exact hfit r₀ h0
            · exact hroom
          rw [hrid, hid]
          exact hpar.child hroom hcr (hid ▸ hnew)
        · exact hlive rid r' hr'
  drop e ids _ hp := hp.relabels (.refl _) (Nat.le_refl _) fun _ => id
  trigger e mo _ hp _ := by
    obtain ⟨tc, sl, heq, -⟩ := detectTriggers_eq cfg e mo
    rw [heq]
    exact hp.relabels (.refl _) (Nat.le_refl _) fun _ => id
  inject e mo _ hp := by
    obtain ⟨s, low, force, mo', heq, hs, -⟩ := injectEos_eq e mo
    rw [heq]
    exact hp.relabels hs (Nat.le_refl _) fun _ => id

/-- The state between two steps. -/
structure Slim (cfg : VllmConfig) (e : EngineCore μ) : Prop where
  length : e.scheduler.running.length ≤ cfg.scheduler.maxNumSeqs
  within : ∀ rid r, e.scheduler.requests.get? rid = some r → r.Within cfg

/-- The state after `schedule`. -/
lemma Slim.afterSchedule (laws : ops.Laws blocks entries) (hmax : 0 ≤ cfg.scheduler.maxNumBatchedTokens)
    (h : Slim cfg e) (hb : Base cfg added e) (i : StepInput) :
    (e.afterSchedule ops cfg i).1.scheduler.running.length ≤ cfg.scheduler.maxNumSeqs ∧
      ∀ rid r, (e.afterSchedule ops cfg i).1.scheduler.requests.get? rid = some r →
        Scheduler.InBatch cfg (e.afterSchedule ops cfg i).2 rid r ∧
          ∃ r₀, e.scheduler.requests.get? rid = some r₀ ∧ r₀.SameTrace r := by
  obtain ⟨hlen, -, -, hflight⟩ := hb.wf.schedule_grants laws i.grammarReady (fun _ => False) hmax h.length
    (fun x r hx => (h.within x r hx).sane) fun _ _ hf => hf.elim
  have spec : Scheduler.ScheduleSpec ops cfg e.scheduler
      (e.scheduler.schedule ops cfg i.grammarReady).1 (e.scheduler.schedule ops cfg i.grammarReady).2 :=
    hb.wf.schedule i.grammarReady
  refine ⟨hlen, fun rid r hr => ?_⟩
  obtain ⟨r₀, h0, hk⟩ := spec.evolves.back rid r hr
  have hok : LiveOk cfg (some (e.scheduler.schedule ops cfg i.grammarReady).2) _ rid r :=
    hflight rid r hr
  exact ⟨⟨hok.mono False.elim, (h.within rid r₀ h0).room.congr hk.toSameTrace⟩,
    r₀, h0, hk.toSameTrace⟩

/-- A step keeps the requests within the model. -/
lemma Slim.step (laws : ops.Laws blocks entries) (hmax : 0 ≤ cfg.scheduler.maxNumBatchedTokens)
    (h : Slim cfg e) (hb : Base cfg added e) (hex : Executed ops cfg e (.step i))
    (hroom : BranchRoom ops cfg e (.step i)) : Slim cfg (e.step ops cfg i) := by
  cases hreq : e.scheduler.hasRequests with
  | false =>
    have hs : (e.step ops cfg i).scheduler = e.scheduler := by
      rw [EngineCore.step, if_neg (by simp [hreq])]
      unfold idleCleanup
      split <;> rfl
    exact ⟨hs ▸ h.length, hs ▸ h.within⟩
  | true =>
    obtain ⟨outputs, hex⟩ := hex
    obtain ⟨hlen, hlive⟩ := h.afterSchedule laws hmax hb i
    have hstart : MidWithin cfg added e (e.afterSchedule ops cfg i).2 i (e.afterSchedule ops cfg i).1 := by
      refine ⟨(hb.afterSchedule ops i).2, hlen, fun _ rid r hr => ?_⟩
      obtain ⟨hbatch, hlin⟩ := hlive rid r hr
      refine ⟨hbatch, .inl hlin, fun hm => ?_⟩
      obtain ⟨h1, h2⟩ := hex rid hm r hr
      refine ⟨fun hle => h1.2 ?_, h2⟩
      have := numTokensNoSpec_le (outputs rid) r
      omega
    obtain ⟨e1, mo, fin, hb1, hmid, -, -, -, hphases, hstep, hfin, -⟩ :=
      hb.step_rule ops hreq phaseRules_within hstart
    have hdec : (e.step ops cfg i).record.decisions = e1.record.decisions := by
      obtain ⟨outs, hrec⟩ := hfin.record
      rw [hrec]
    have hmid' := hmid.live fun d hd => hroom d (hdec ▸ hd)
    refine ⟨?_, fun rid r' hr' => ?_⟩
    · rw [hstep, scheduler_finishStep]
      exact (Scheduler.updateFromOutput_running_le ..).trans hmid.length
    · rw [hfin.update.requests] at hr'
      split at hr'
      · next hm =>
        obtain ⟨r, hr, ho⟩ := Option.bind_eq_some_iff.1 hr'
        obtain ⟨hbatch, -, hsampled⟩ := hmid' rid r hr
        obtain ⟨h1, h2⟩ := hsampled hm
        have htok : mo.getD rid [] = i.sampled rid ∨ ∃ eos, mo.getD rid [] = [eos] := by
          have hmo' := congrArg Prod.snd hphases
          dsimp only at hmo'
          rw [hmo']
          exact getD_gambitPhases hm
        refine hbatch.outcome (hb1.wf.requestId rid r hr) hm ⟨fun _ hle => ?_, ?_, fun _ => .inr ⟨id, ?_⟩⟩ ho
        · rcases htok with htok | ⟨eos, htok⟩
          · rw [htok]
            exact h1 hle
          · rw [htok]
            exact List.cons_ne_nil eos []
        · rcases htok with htok | ⟨eos, htok⟩
          · rw [htok]
            exact h2
          · rw [htok, List.length_singleton]
            omega
        · have := hbatch.room.forced
          omega
      · next hm =>
        obtain ⟨⟨hflight, hroom⟩, -, -⟩ := hmid' rid r' hr'
        cases hflight with
        | idle _ hsane => exact ⟨hsane, hroom⟩
        | scheduled hc => exact absurd (Dict.mem_of_get? hc) hm

/-- A state between two steps is within the model in every respect. -/
lemma Slim.withinModel (laws : ops.Laws blocks entries) (hmax : 0 ≤ cfg.scheduler.maxNumBatchedTokens)
    (h : Slim cfg e) (hb : Base cfg added e) : WithinModel ops cfg e where
  shorter rid r hr := (h.within rid r hr).room.tokens
  clamp rid _ r hr budget hbud := Pass.numNewRunning_pos (h.within rid r hr) hbud
  served ready := hb.wf.schedule_serves laws ready hmax h.length h.within
  worker i outputs hex rid hm r hr := by
    have hle := numTokensNoSpec_le (outputs rid) r
    have hend := ((h.afterSchedule laws hmax hb i).2 rid r hr).1.end_le hm (hex rid hm r hr).2
    omega

/-- Every event keeps the requests within the model. -/
lemma Slim.handle (laws : ops.Laws blocks entries) (hmax : 0 ≤ cfg.scheduler.maxNumBatchedTokens)
    {h : List Event} {ev : Event} (hs : Slim cfg e) (hb : Base cfg (h.filterMap Event.added) e)
    (hok : ev.Ok h) (hex : Executed ops cfg e ev) (hroom : BranchRoom ops cfg e ev)
    (hadd : ∀ r, ev = .addRequest r → Processor.Admits cfg r ∧ Snug cfg r) :
    Slim cfg (e.handle ops cfg ev) := by
  cases ev with
  | addRequest r =>
    obtain ⟨ha, hsnug⟩ := hadd r rfl
    have hsched : (e.handle ops cfg (.addRequest r)).scheduler = e.scheduler.addRequest cfg.policy r := by
      unfold EngineCore.handle EngineCore.addRequest
      dsimp only
      split <;> rfl
    refine ⟨hsched ▸ hs.length, fun rid r' hr' => ?_⟩
    rw [hsched, Scheduler.get?_addRequest] at hr'
    split at hr'
    · cases hr'
      exact hsnug.within ha hok.1
    · exact hs.within rid r' hr'
  | abortRequests rids =>
    have spec := hb.wf.finishRequests ops rids .finishedAborted
    refine ⟨?_, fun rid r' hr' => ?_⟩
    · exact (Scheduler.finishRequests_running_le ops rids .finishedAborted e.scheduler).trans hs.length
    · have hr : (e.scheduler.finishRequests ops rids .finishedAborted).requests.get? rid = some r' := hr'
      rw [spec.requests] at hr
      split at hr
      · cases hr
      · exact hs.within rid r' hr
  | postStep drafts =>
    have hrel := Scheduler.relabels_updateDraftTokenIds e.scheduler drafts
    refine ⟨?_, fun rid r' hr' => ?_⟩
    · exact hrel.running ▸ hs.length
    · obtain ⟨r, hr, ht, hst, hc⟩ := hrel.back hr'
      exact ⟨(hs.within rid r hr).sane.congr ht hst hc, (hs.within rid r hr).room.congr ht⟩
  | step i => exact hs.step laws hmax hb hex hroom

end EngineCore

open EngineCore in
/-- No request outgrows the model, in every run in which the admitted requests and the branches have room
for their first token and for what `min_tokens` forces. -/
theorem no_request_outgrows_model (laws : ops.Laws blocks entries)
    (hmax : 0 ≤ cfg.scheduler.maxNumBatchedTokens) {h : List Event} {os : List StepRecord}
    {e : EngineCore μ} (run : (engineMachine ops cfg m).Runs h os e)
    (hadmits : ∀ r, Event.addRequest r ∈ h → Processor.Admits cfg r)
    (hex : (engineMachine ops cfg m).Along (Executed ops cfg) h)
    (hsnug : ∀ r, Event.addRequest r ∈ h → Snug cfg r)
    (hroom : (engineMachine ops cfg m).Along (BranchRoom ops cfg) h) : WithinModel ops cfg e := by
  suffices hs : Slim cfg e from hs.withinModel laws hmax (base_of_runs run)
  induction run with
  | init => exact ⟨Nat.zero_le _, fun rid r hr => absurd (Dict.mem_of_get? hr) Dict.not_mem_empty⟩
  | @step h os e ev run hok ih =>
    obtain ⟨hex1, hex2⟩ := run.along_concat hex
    obtain ⟨hroom1, hroom2⟩ := run.along_concat hroom
    have hs := ih (fun r hr => hadmits r (List.mem_append_left _ hr)) hex1
      (fun r hr => hsnug r (List.mem_append_left _ hr)) hroom1
    refine hs.handle laws hmax (base_of_runs run) hok hex2 hroom2 fun r he => ?_
    have hm : Event.addRequest r ∈ h ++ [ev] := by simp [he]
    exact ⟨hadmits r hm, hsnug r hm⟩

/-- The run with a branch: its requests are within the model. -/
theorem no_request_outgrows_model_branch :
    branchId 0 "0_1".toList ∈
        ((engineMachine .unbounded tournamentSample ()).exec branchingEvents).2.scheduler.requests ∧
      WithinModel .unbounded tournamentSample
        ((engineMachine .unbounded tournamentSample ()).exec branchingEvents).2 := by
  have hadd : ∀ r, Event.addRequest r ∈ branchingEvents →
      r = { requestId := "0_1".toList, promptTokenIds := [1, 2, 3] } := by
    intro r hr
    simpa [branchingEvents] using hr
  refine ⟨by decide +kernel, ?_⟩
  refine no_request_outgrows_model Caches.unbounded_laws (by decide)
    (Machine.Runs.of_exec (by decide +kernel)) (fun r hr => ?_) ?_ (fun r hr => ?_) (by decide +kernel)
  · rw [hadd r hr]
    exact ⟨{ maxModelLen := 8192 }, rfl, {}, rfl⟩
  · -- the rows of the worker: one output after the first step, two after the second
    refine ⟨trivial, ⟨fun _ => 0, ?_⟩, ⟨fun _ => 1, ?_⟩, ⟨fun rid => if rid = "0_1".toList then 2 else 0, ?_⟩,
      trivial⟩
    all_goals decide +kernel
  · rw [hadd r hr]
    exact ⟨by decide, by decide⟩

/-- A prompt as long as the model is admitted, and the first token sampled for it breaks the assertion of
the worker. -/
theorem full_prompt_overflows :
    let cfg : VllmConfig := { gambit := {}, scheduler := { maxModelLen := 2 } }
    let r : Request := { requestId := ['a'], promptTokenIds := [7, 8], samplingParams := { maxTokens := 0 } }
    let M := engineMachine Caches.unbounded cfg ()
    let e := (M.exec [.addRequest r]).2
    let i : StepInput := .ofSamples (fun _ => [1]) fun _ => 0
    Processor.Admits cfg r ∧ M.OkFrom [] [.addRequest r] ∧ ¬ WithinModel .unbounded cfg e ∧
      Executes (e.afterSchedule .unbounded cfg i).1.scheduler (e.afterSchedule .unbounded cfg i).2
        (fun _ => 0) i.sampled ∧
      (e.afterSchedule .unbounded cfg i).2.numScheduledTokens.keys = [['a']] ∧
      (∀ r' ∈ (e.afterSchedule .unbounded cfg i).1.scheduler.requests.get? ['a'],
        ¬ numTokensNoSpec 0 r' + (i.sampled ['a']).length ≤ cfg.scheduler.maxModelLen) := by
  refine ⟨⟨{ maxModelLen := 2 }, rfl, { maxTokens := none }, rfl⟩, by decide, fun h => ?_,
    by decide +kernel, by decide +kernel, by decide +kernel⟩
  exact absurd (h.shorter ['a'] _ rfl) (by decide)

end Gambit.Engine
