import Gambit.Sched.Grants
import Gambit.Sched.Ties

/-!
# The state invariant of the scheduler

What holds in every state of the synchronous scheduler, under each policy, when the model answers a
batch as it should (`Answers`): the queues and the store agree, whoever left is finished and holds no
memory, the batches are within their limits, and between two steps a running request has exactly its
last token left to compute once its prefill is done (`SchedulerInvariant`).

The limits of a batch fail when a request outgrows the model (`overgrown_request`); they hold when
every added request `Fits`. Under PRIORITY every added request has to have a key of its own (`NewKey`), or the
heap of the waiting queue raises.
-/

namespace Gambit.Sched
open Gambit.Lib

variable {μ β : Type} {ops : Caches μ β} {cfg : VllmConfig} {blocks entries : μ → ReqId → Prop} {m : μ}

/-- The model answers the batch `so`: a live request gets a token exactly when its scheduled tokens
reach its last one, and at most one more than it had drafts. -/
def Answers (s : Scheduler μ) (so : SchedulerOutput β) (mo : ModelRunnerOutput) : Prop :=
  ∀ e ∈ s.requests.entries,
    (mo.getD e.1 [] ≠ [] ↔
      e.1 ∈ so.numScheduledTokens ∧ (e.2.numTokens : Int) ≤ e.2.numComputedTokens) ∧
    (mo.getD e.1 []).length ≤ 1 + (so.scheduledSpecDecodeTokens.getD e.1 []).length

instance (s : Scheduler μ) (so : SchedulerOutput β) (mo : ModelRunnerOutput) :
    Decidable (Answers s so mo) := List.decidableBAll _ _

/-- The promise of the model: an output comes for a batch, and answers it. -/
def ModelContract (x : SchedState μ β) : SchedEvent → Prop
  | .updateFromOutput mo _ _ =>
    match x.batch with
    | none => False
    | some so => Answers x.sched so mo
  | _ => True

instance (x : SchedState μ β) : (ev : SchedEvent) → Decidable (ModelContract x ev)
  | .updateFromOutput mo _ _ =>
    match hb : x.batch with
    | none => .isFalse (by simp [ModelContract, hb])
    | some so => decidable_of_iff (Answers x.sched so mo) (by simp [ModelContract, hb])
  | .addRequest _ | .schedule _ | .finishRequests .. | .markStopReason .. | .updateTraceScores _
  | .updateDraftTokenIds _ => .isTrue trivial

/-- The requests whose prefill is done, after one more call: an admission starts a prefill, and a
token ends it. -/
def prefilledStep (done : List ReqId) (e : SchedEvent × SchedRecord) : List ReqId :=
  match e.1 with
  | .schedule _ => done.filter (· ∉ e.2.admitted)
  | .updateFromOutput mo _ _ => done ++ mo.keys.filter fun rid => !(mo.getD rid []).isEmpty
  | _ => done

/-- The requests that got a token since they were last admitted. -/
def prefilled (h : List SchedEvent) (os : List SchedRecord) : List ReqId :=
  (h.zip os).foldl prefilledStep []

/-- The invariant of the scheduler after the calls `h` with results `os`. -/
structure SchedulerInvariant (cfg : VllmConfig) (blocks entries : μ → ReqId → Prop)
    (h : List SchedEvent) (os : List SchedRecord) (x : SchedState μ β) : Prop where
  /-- No request is queued twice. -/
  once : (x.sched.running ++ x.sched.waiting).Nodup
  /-- The stored requests are the queued ones. -/
  stored : ∀ rid, rid ∈ x.sched.requests ↔ rid ∈ x.sched.running ++ x.sched.waiting
  status : ∀ rid r, x.sched.requests.get? rid = some r → (r.status = .running ↔ rid ∈ x.sched.running)
  left : ∀ rid ∈ h.filterMap SchedEvent.added, rid ∉ x.sched.requests →
    (∃ d ∈ x.sched.departed, d.requestId = rid) ∧
      (∀ d ∈ x.sched.departed, d.requestId = rid → d.status.isFinished) ∧
      ¬ blocks x.sched.caches rid ∧ ¬ entries x.sched.caches rid
  length : x.sched.running.length ≤ cfg.scheduler.maxNumSeqs
  /-- Every scheduled request gets a token, and together they are within the limit. -/
  grants : ∀ o ∈ os, (∀ c ∈ o.scheduled.values, 1 ≤ c) ∧
    o.scheduled.values.sum ≤ cfg.scheduler.maxNumBatchedTokens
  computed : x.batch = none → ∀ rid ∈ x.sched.running, ∀ r, x.sched.requests.get? rid = some r →
    r.numComputedTokens ≤ (r.numTokens : Int) - 1 ∧
      (rid ∈ prefilled h os → r.numComputedTokens = (r.numTokens : Int) - 1)
  /-- The heap never compares two requests. -/
  untied : cfg.policy = .priority → x.sched.KeysApart

namespace Request
variable {r : Request} {n : Nat} {ts : List Token}

/-- A stop check that fails on a request with output: it has fewer tokens than it must have, or than
it may have. -/
lemma checkStop_bounds (h : (r.checkStop n).2 = false) (hne : r.outputTokenIds ≠ []) :
    r.numOutputTokens < r.samplingParams.minTokens ∨
      r.numTokens < n ∧ r.numOutputTokens < r.maxTokens := by
  unfold checkStop at h
  split at h
  · next hmin => exact .inl hmin
  · obtain ⟨last, hl⟩ := Option.ne_none_iff_exists'.1 (mt List.getLast?_eq_none_iff.1 hne)
    rw [hl] at h
    dsimp only at h
    split_ifs at h with h1 h2 h3
    rw [not_or] at h3
    exact .inr ⟨by omega, by omega⟩

/-- The same after several tokens were accepted. -/
lemma updateRequestWithOutput_bounds (h : (r.updateRequestWithOutput n ts).2.2 = false)
    (hne : ts ≠ []) :
    r.numOutputTokens + ts.length < r.samplingParams.minTokens ∨
      r.numTokens + ts.length < n ∧ r.numOutputTokens + ts.length < r.maxTokens := by
  induction ts generalizing r with
  | nil => exact absurd rfl hne
  | cons t ts ih =>
    rw [updateRequestWithOutput] at h
    cases hs : (r.appendOutputTokenId t).checkStop n with
    | mk r' stopped =>
      rw [hs] at h
      cases stopped with
      | true => cases h
      | false =>
        dsimp only at h
        have hc := checkStop_of_not_stopped (r := r.appendOutputTokenId t) (n := n) (by rw [hs])
        rw [hs] at hc
        dsimp only at hc
        subst hc
        have hout : (r.appendOutputTokenId t).numOutputTokens = r.numOutputTokens + 1 := by
          simp [Request.numOutputTokens, appendOutputTokenId]
        have htok : (r.appendOutputTokenId t).numTokens = r.numTokens + 1 := by
          rw [numTokens_eq, numTokens_eq]
          simp [appendOutputTokenId]
          omega
        have hmax : (r.appendOutputTokenId t).maxTokens = r.maxTokens := rfl
        have hmin : (r.appendOutputTokenId t).samplingParams = r.samplingParams := rfl
        rw [List.length_cons]
        cases ts with
        | nil =>
          have hb := checkStop_bounds (r := r.appendOutputTokenId t) (n := n) (by rw [hs])
            (by simp [appendOutputTokenId])
          rw [hout, htok, hmax, hmin] at hb
          rw [List.length_nil]
          omega
        | cons t' ts =>
          have hb := ih h (List.cons_ne_nil t' ts)
          rw [hout, htok, hmax, hmin] at hb
          omega

end Request

namespace Scheduler
variable {rid : ReqId} {r r' : Request} {so : SchedulerOutput β} {mo : ModelRunnerOutput}

/-- A request that goes on: its drafts are settled and its tokens appended. -/
lemma outcome_eq_some (h : outcome cfg so mo rid r = some r') :
    r' = { rejectDrafts so r (mo.getD rid []) with
        outputTokenIds := r.outputTokenIds ++ mo.getD rid [] } ∧
      (mo.getD rid [] ≠ [] →
        r.numOutputTokens + (mo.getD rid []).length < r.samplingParams.minTokens ∨
          r.numTokens + (mo.getD rid []).length < cfg.scheduler.maxModelLen ∧
            r.numOutputTokens + (mo.getD rid []).length < r.maxTokens) := by
  unfold outcome at h
  split at h
  · cases h
  · next hs =>
    cases h
    have hs' : ((rejectDrafts so r (mo.getD rid [])).updateRequestWithOutput
        cfg.scheduler.maxModelLen (mo.getD rid [])).2.2 = false := by simpa [accept] using hs
    obtain ⟨n, hn⟩ := rejectDrafts_eq so r (mo.getD rid [])
    constructor
    · rw [accept, (Request.updateRequestWithOutput_of_not_stopped hs').1, hn]
    · intro hne
      have hb := Request.updateRequestWithOutput_bounds hs' hne
      rw [hn] at hb
      exact hb

/-- The computed tokens after the rejected drafts are taken off. -/
lemma rejectDrafts_computed (so : SchedulerOutput β) (r : Request) (ts : List Token) :
    (rejectDrafts so r ts).numComputedTokens =
      if (so.scheduledSpecDecodeTokens.getD r.requestId []).length = 0 then r.numComputedTokens
      else r.numComputedTokens - ((so.scheduledSpecDecodeTokens.getD r.requestId []).length -
        ((ts.length : Int) - 1)) := by
  unfold rejectDrafts
  dsimp only
  generalize so.scheduledSpecDecodeTokens.getD r.requestId [] = l
  cases l with
  | nil => rfl
  | cons a l => rfl

/-- What the tokens of a live request must satisfy: it gets some if it reached its last token, no more
than its drafts and one, and some without reaching it only if nothing (`p`) is to hold of its prefill and
`min_tokens` leaves room. -/
structure Answered (cfg : VllmConfig) (so : SchedulerOutput β) (mo : ModelRunnerOutput) (p : Prop)
    (rid : ReqId) (r : Request) : Prop where
  reached : rid ∈ so.numScheduledTokens → (r.numTokens : Int) ≤ r.numComputedTokens →
    mo.getD rid [] ≠ []
  length : (mo.getD rid []).length ≤ 1 + (so.scheduledSpecDecodeTokens.getD rid []).length
  early : mo.getD rid [] ≠ [] →
    rid ∈ so.numScheduledTokens ∧ (r.numTokens : Int) ≤ r.numComputedTokens ∨
      ¬ p ∧ r.promptTokenIds.length + r.samplingParams.minTokens ≤ cfg.scheduler.maxModelLen + 1

/-- A request that was executed is sane again, with its last token left to compute if it got one. -/
lemma InFlight.outcome {p p' : Prop} (h : InFlight cfg so p rid r) (hid : r.requestId = rid)
    (hm : rid ∈ so.numScheduledTokens) (hans : Answered cfg so mo p' rid r)
    (hp : p' → p ∨ mo.getD rid [] ≠ []) (ho : outcome cfg so mo rid r = some r') :
    r'.Sane cfg ∧ (p' → r'.numComputedTokens + 1 = r'.numTokens) := by
  cases h with
  | idle hn _ _ => exact absurd hm hn
  | @scheduled r₀ c hc hsane hg hdone ht _ hst hcomp =>
    obtain ⟨he, hbound⟩ := outcome_eq_some ho
    have hrej := rejectDrafts_computed so r (mo.getD rid [])
    obtain ⟨n, hn⟩ := rejectDrafts_eq so r (mo.getD rid [])
    rw [hid] at hrej
    have hstat : r'.status = .running := by
      rw [he, hn]
      exact hst
    have hprompt : r'.promptTokenIds = r₀.promptTokenIds := by
      rw [he, hn]
      exact ht.promptTokenIds
    have hparams : r'.samplingParams = r₀.samplingParams := by
      rw [he, hn]
      exact ht.samplingParams
    have hout : r'.outputTokenIds.length = r₀.outputTokenIds.length + (mo.getD rid []).length := by
      rw [he, List.length_append, ht.outputTokenIds]
    have hnew : r'.numComputedTokens = (rejectDrafts so r (mo.getD rid [])).numComputedTokens := by
      rw [he]
    rw [hrej, hcomp] at hnew
    have htok0 := r₀.numTokens_eq
    have htok' := r'.numTokens_eq
    rw [hprompt, hout] at htok'
    have hreached := hans.reached hm
    have hlen := hans.length
    have hearly := hans.early
    rw [ht.numTokens, hcomp] at hreached hearly
    rw [ht.promptTokenIds, ht.samplingParams] at hearly
    rw [ht.numTokens, Request.numOutputTokens, Request.maxTokens, ht.outputTokenIds,
      ht.samplingParams] at hbound
    have hfit := hsane.fits
    have hmin := hfit.min_le
    have hbehind := hsane.behind
    have hnonneg := hsane.nonneg
    have htokens := hsane.tokens
    have houtput := hsane.output
    have hpos := hg.pos
    have hreach := hg.reach
    have hdr := hg.drafts
    have hlim := hg.limit
    rw [Request.numOutputTokens] at houtput
    rw [Request.maxTokens] at hmin houtput
    have hroom := hfit.room
    generalize (so.scheduledSpecDecodeTokens.getD rid []).length = d at hnew hlen hreach hdr
    have hnil : mo.getD rid [] ≠ [] ↔ (mo.getD rid []).length ≠ 0 := by
      rw [ne_eq, ne_eq, List.length_eq_zero_iff]
    rw [hnil] at hreached hearly hp
    rw [hnil] at hbound
    generalize (mo.getD rid []).length = g at hreached hearly hp hbound hlen htok' hout hnew
    have hearly' : p' → g ≠ 0 → (r₀.numTokens : Int) ≤ r₀.numComputedTokens + c := by
      intro hp' hg0
      rcases hearly hg0 with he | he
      · exact he.2
      · exact absurd hp' he.1
    -- without drafts the request is not passed, with drafts it is passed by them exactly
    have hnew' : r'.numComputedTokens + 1 ≤ r'.numTokens ∧ 0 ≤ r'.numComputedTokens ∧
        (p' → r'.numComputedTokens + 1 = r'.numTokens) := by
      by_cases hd : d = 0
      · rw [if_pos hd] at hnew
        refine ⟨by omega, by omega, fun hp' => ?_⟩
        have hle := hearly' hp'
        rcases hp hp' with hp | hg0
        · have := hdone hp
          omega
        · have := hle hg0
          omega
      · rw [if_neg hd] at hnew
        have := hdr hd
        exact ⟨by omega, by omega, fun _ => by omega⟩
    refine ⟨⟨hfit.of_eq hprompt hparams, ?_, ?_, hnew'.2.1, hnew'.1, fun h => absurd hstat h,
      fun h => absurd hstat h⟩, hnew'.2.2⟩
    · rcases hroom with hroom | ⟨hgam, hroom⟩
      · omega
      · have := hlim hgam hroom
        by_cases hd : d = 0
        · omega
        · have := hdr hd
          omega
    · rw [Request.numOutputTokens, Request.maxTokens, hout, hparams, hprompt]
      omega

/-- `update_from_output` only takes requests out of the running queue. -/
lemma updateFromOutput_running_le (ops : Caches μ β) (cfg : VllmConfig) (so : SchedulerOutput β)
    (mo : ModelRunnerOutput) (finals : Dict ReqId (Option ℚ))
    (histories : Option (Dict ReqId (List ℚ))) (s : Scheduler μ) :
    (s.updateFromOutput ops cfg so mo finals histories).1.running.length ≤ s.running.length := by
  have hstep : ∀ (p : UpdatePass μ) (rid : ReqId),
      (updateRequest ops cfg so mo finals histories p rid).sched.running = p.sched.running := by
    intro p rid
    unfold updateRequest
    split
    · rfl
    · dsimp only
      split_ifs <;> rfl
  have hfold : ∀ (l : List ReqId) (p : UpdatePass μ),
      (l.foldl (updateRequest ops cfg so mo finals histories) p).sched.running = p.sched.running := by
    intro l
    induction l with
    | nil => exact fun p => rfl
    | cons y l ih => exact fun p => (ih _).trans (hstep p y)
  have hsub := removeAll_sublist
    (so.numScheduledTokens.keys.foldl (updateRequest ops cfg so mo finals histories)
      { sched := s }).sched.running
    (so.numScheduledTokens.keys.foldl (updateRequest ops cfg so mo finals histories)
      { sched := s }).stoppedRunningReqs
  have hle := hsub.length_le
  rw [hfold] at hle
  unfold Scheduler.updateFromOutput
  dsimp only
  rw [hfold]
  exact hle

/-- `finish_requests` only takes requests out of the running queue. -/
lemma finishRequests_running_le (ops : Caches μ β) (rids : List ReqId) (status : RequestStatus)
    (s : Scheduler μ) : (s.finishRequests ops rids status).running.length ≤ s.running.length := by
  have hfold : ∀ (l : List ReqId) (t : Scheduler μ),
      (l.foldl (finishRequest ops status) t).running = t.running := by
    intro l
    induction l with
    | nil => exact fun t => rfl
    | cons y l ih =>
      intro t
      refine (ih _).trans ?_
      unfold finishRequest
      split <;> rfl
  unfold Scheduler.finishRequests
  dsimp only
  rw [hfold]
  exact (removeAll_sublist _ _).length_le

end Scheduler

/-- A live request in a state of a run. -/
def LiveOk (cfg : VllmConfig) (batch : Option (SchedulerOutput β)) (done : Prop) (rid : ReqId)
    (r : Request) : Prop :=
  match batch with
  | none => r.Sane cfg ∧ (done → r.status = .running → r.numComputedTokens + 1 = r.numTokens)
  | some so => Scheduler.InFlight cfg so done rid r

variable {done done' : ReqId → Prop}

/-- What the states of a run keep, apart from the agreement of queues and store; `done` are requests
whose prefill is done. -/
structure Steady (cfg : VllmConfig) (blocks entries : μ → ReqId → Prop) (done : ReqId → Prop)
    (h : List SchedEvent) (os : List SchedRecord) (x : SchedState μ β) : Prop where
  owned : x.sched.Owned blocks entries
  finished : ∀ d ∈ x.sched.departed, d.status.isFinished
  left : ∀ rid ∈ h.filterMap SchedEvent.added,
    rid ∈ x.sched.requests ∨ ∃ d ∈ x.sched.departed, d.requestId = rid
  length : x.sched.running.length ≤ cfg.scheduler.maxNumSeqs
  grants : ∀ o ∈ os, (∀ c ∈ o.scheduled.values, 1 ≤ c) ∧
    o.scheduled.values.sum ≤ cfg.scheduler.maxNumBatchedTokens
  batched : ∀ so, x.batch = some so → ∀ rid ∈ so.numScheduledTokens, rid ∈ h.filterMap SchedEvent.added
  live : ∀ rid r, x.sched.requests.get? rid = some r →
    LiveOk cfg x.batch (done rid) rid r

/-- The history of prefills after one more call. -/
lemma prefilled_concat {h : List SchedEvent} {os : List SchedRecord} (hlen : os.length = h.length)
    (ev : SchedEvent) (o : SchedRecord) :
    prefilled (h ++ [ev]) (os ++ [o]) = prefilledStep (prefilled h os) (ev, o) := by
  unfold prefilled
  rw [List.zip_append hlen.symm, List.foldl_append]
  rfl

/-- One more record within the limits. -/
lemma grants_concat {os : List SchedRecord} {o : SchedRecord}
    (h : ∀ o ∈ os, (∀ c ∈ o.scheduled.values, 1 ≤ c) ∧
      o.scheduled.values.sum ≤ cfg.scheduler.maxNumBatchedTokens)
    (ho : (∀ c ∈ o.scheduled.values, 1 ≤ c) ∧
      o.scheduled.values.sum ≤ cfg.scheduler.maxNumBatchedTokens) :
    ∀ o' ∈ os ++ [o], (∀ c ∈ o'.scheduled.values, 1 ≤ c) ∧
      o'.scheduled.values.sum ≤ cfg.scheduler.maxNumBatchedTokens := by
  intro o' ho'
  rcases List.mem_append.1 ho' with ho' | ho'
  · exact h o' ho'
  · rw [List.mem_singleton.1 ho']
    exact ho

/-- A record that schedules nothing is within the limits. -/
lemma grants_nothing (hmax : 0 ≤ cfg.scheduler.maxNumBatchedTokens) {o : SchedRecord}
    (ho : o.scheduled = ∅) : (∀ c ∈ o.scheduled.values, 1 ≤ c) ∧
      o.scheduled.values.sum ≤ cfg.scheduler.maxNumBatchedTokens := by
  rw [ho, Dict.values_empty]
  exact ⟨fun c hc => absurd hc List.not_mem_nil, hmax⟩

/-- Labels do not matter. -/
lemma LiveOk.congr {batch : Option (SchedulerOutput β)} {p : Prop} {rid : ReqId} {r r' : Request}
    (h : LiveOk cfg batch p rid r) (ht : r.SameTrace r') (hs : r'.status = r.status)
    (hc : r'.numComputedTokens = r.numComputedTokens) : LiveOk cfg batch p rid r' := by
  cases batch with
  | none =>
    refine ⟨h.1.congr ht hs hc, fun hp hrun => ?_⟩
    rw [hc, ht.numTokens]
    exact h.2 hp (hs.symm.trans hrun)
  | some so => exact Scheduler.InFlight.congr h ht hs hc

/-- Less may be known of the prefill. -/
lemma LiveOk.mono {batch : Option (SchedulerOutput β)} {p p' : Prop} {rid : ReqId} {r : Request}
    (h : LiveOk cfg batch p rid r) (hp : p' → p) : LiveOk cfg batch p' rid r := by
  cases batch with
  | none => exact ⟨h.1, fun hp' => h.2 (hp hp')⟩
  | some so =>
    cases h with
    | idle hn hsane hdone => exact .idle hn hsane fun hp' => hdone (hp hp')
    | scheduled hn hsane hg hdone ht h1 h2 h3 =>
      exact .scheduled hn hsane hg (fun hp' => hdone (hp hp')) ht h1 h2 h3

/-- How the requests whose prefill is done change with a call that returns `o`. -/
def PrefillStep (done done' : ReqId → Prop) (ev : SchedEvent) (o : SchedRecord) : Prop :=
  ∀ rid, done' rid →
    match ev with
    | .schedule _ => done rid ∧ rid ∉ o.admitted
    | .updateFromOutput mo _ _ => done rid ∨ mo.getD rid [] ≠ []
    | _ => done rid

/-- An output comes for a batch, and answers it. -/
def ModelAnswers (cfg : VllmConfig) (done : ReqId → Prop) (x : SchedState μ β) : SchedEvent → Prop
  | .updateFromOutput mo _ _ => ∃ so, x.batch = some so ∧ ∀ rid r, x.sched.requests.get? rid = some r →
      Scheduler.Answered cfg so mo (done rid) rid r
  | _ => True

/-- A call that adds nobody keeps what was left behind, when it frees requests properly. -/
lemma Steady.departs {h : List SchedEvent} {os : List SchedRecord} {x : SchedState μ β}
    {s' : Scheduler μ} (ev : SchedEvent) (hx : Steady cfg blocks entries done h os x)
    (hadd : ev.added = none) (hd : x.sched.Departs s') :
    (∀ d ∈ s'.departed, d.status.isFinished) ∧
      ∀ rid ∈ (h ++ [ev]).filterMap SchedEvent.added,
        rid ∈ s'.requests ∨ ∃ d ∈ s'.departed, d.requestId = rid := by
  refine ⟨fun d hm => (hd.finished d hm).elim (hx.finished d) id, fun rid hm => ?_⟩
  rw [List.filterMap_append, List.mem_append] at hm
  rcases hm with hm | hm
  · rcases hx.left rid hm with hs | ⟨d, hdep, he⟩
    · exact hd.left rid hs
    · exact .inr ⟨d, hd.keep d hdep, he⟩
  · simp [hadd] at hm

/-- The ids of a batch stay added. -/
lemma Steady.batched_concat {h : List SchedEvent} {os : List SchedRecord} {x : SchedState μ β}
    (hx : Steady cfg blocks entries done h os x) (ev : SchedEvent) :
    ∀ so, x.batch = some so → ∀ rid ∈ so.numScheduledTokens,
      rid ∈ (h ++ [ev]).filterMap SchedEvent.added := by
  intro so hb rid hm
  rw [List.filterMap_append]
  exact List.mem_append_left _ (hx.batched so hb rid hm)

/-- A call that only relabels requests. -/
lemma Steady.relabels {h : List SchedEvent} {os : List SchedRecord} {x : SchedState μ β}
    {s' : Scheduler μ} {ev : SchedEvent} (hx : Steady cfg blocks entries done h os x)
    (hmax : 0 ≤ cfg.scheduler.maxNumBatchedTokens)
    (hadd : ev.added = none) (hrel : x.sched.Relabels s') (hdep : s'.departed = x.sched.departed)
    (hcache : s'.caches = x.sched.caches) (hdone : ∀ rid, done' rid → done rid) :
    Steady cfg blocks entries done' (h ++ [ev]) (os ++ [({} : SchedRecord)]) { x with sched := s' } := by
  have hmem : ∀ rid ∈ x.sched.requests, rid ∈ s'.requests := fun rid hr => hrel.mem.2 hr
  obtain ⟨h1, h2⟩ := hx.departs ev hadd (.of_eq hdep hmem)
  refine ⟨hx.owned.same hcache hmem, h1, h2, ?_, grants_concat hx.grants (grants_nothing hmax rfl),
    hx.batched_concat ev, fun rid r' hr' => ?_⟩
  · dsimp only
    rw [hrel.running]
    exact hx.length
  · obtain ⟨r, hr, ht, hs, hc⟩ := hrel.back hr'
    exact ((hx.live rid r hr).congr ht hs hc).mono (hdone rid)

/-- A new request that fits counts as it should. -/
lemma Request.IsNew.sane {r : Request} (hnew : r.IsNew) (hf : r.Fits cfg) : r.Sane cfg := by
  have hpos := hf.numTokens_pos
  have htok := r.numTokens_eq
  have hle := hf.prompt_le
  rw [hnew.outputTokenIds, List.length_nil] at htok
  refine ⟨hf, by omega, ?_, ?_, ?_, fun _ => hnew.numComputedTokens, fun _ _ => hnew.outputTokenIds⟩
  · rw [Request.numOutputTokens, hnew.outputTokenIds]
    exact .inl (Nat.zero_le _)
  · rw [hnew.numComputedTokens]
  · rw [hnew.numComputedTokens]
    omega

/-- A new request does not run. -/
lemma Request.IsNew.ne_running {r : Request} (hnew : r.IsNew) : r.status ≠ .running := by
  rw [hnew.status]
  exact Request.initialStatus_ne_running _

variable {h : List SchedEvent} {os : List SchedRecord} {x : SchedState μ β}

/-- A request is added that fits. -/
lemma Steady.addRequest (hx : Steady cfg blocks entries done h os x)
    (hmax : 0 ≤ cfg.scheduler.maxNumBatchedTokens) {r : Request} (hnew : r.IsNew)
    (hid : r.requestId ∉ h.filterMap SchedEvent.added) (hf : r.Fits cfg) (hdone : ∀ rid, done' rid → done rid) :
    Steady cfg blocks entries done' (h ++ [.addRequest r]) (os ++ [({} : SchedRecord)])
      { x with sched := x.sched.addRequest cfg.policy r } := by
  have hmem : ∀ y ∈ x.sched.requests, y ∈ (x.sched.addRequest cfg.policy r).requests :=
    fun y hy => Scheduler.mem_addRequest.2 (.inr hy)
  refine ⟨hx.owned.same rfl hmem, hx.finished, fun rid hm => ?_, hx.length,
    grants_concat hx.grants (grants_nothing hmax rfl), hx.batched_concat _, fun rid r' hr' => ?_⟩
  · rw [List.filterMap_append, List.mem_append] at hm
    rcases hm with hm | hm
    · exact (hx.left rid hm).imp_left (hmem rid)
    · have he : rid = r.requestId := by simpa [SchedEvent.added] using hm
      exact .inl (Scheduler.mem_addRequest.2 (.inl he))
  · have hr1 : (x.sched.addRequest cfg.policy r).requests.get? rid = some r' := hr'
    rw [Scheduler.get?_addRequest] at hr1
    split at hr1
    · next hrid =>
      cases hr1
      change LiveOk cfg x.batch _ rid r
      cases hb : x.batch with
      | none => exact ⟨hnew.sane hf, fun _ he => absurd he hnew.ne_running⟩
      | some so =>
        refine .idle (fun hm => hid ?_) (hnew.sane hf) fun _ he => absurd he hnew.ne_running
        rw [← hrid]
        exact hx.batched so hb rid hm
    · exact (hx.live rid r' hr1).mono (hdone rid)

/-- A batch is made up while none is in flight. -/
lemma Steady.schedule (laws : ops.Laws blocks entries) (hx : Steady cfg blocks entries done h os x)
    (hmax : 0 ≤ cfg.scheduler.maxNumBatchedTokens) (hs : x.sched.Sound (h.filterMap SchedEvent.added))
    (ready : ReqId → Bool) (hb : x.batch = none)
    (hdone : PrefillStep done done' (.schedule ready) (x.next ops cfg (.schedule ready)).2) :
    Steady cfg blocks entries done' (h ++ [.schedule ready]) (os ++ [(x.next ops cfg (.schedule ready)).2])
      (x.next ops cfg (.schedule ready)).1 := by
  have hlive := hx.live
  rw [hb] at hlive
  have hgr := hs.wf.schedule_grants laws ready done hmax hx.length
    (fun rid r hr => (hlive rid r hr).1) fun rid r hd hr => (hlive rid r hr).2 hd
  have he : x.next ops cfg (.schedule ready) =
      ({ sched := (x.sched.schedule ops cfg ready).1, batch := some (x.sched.schedule ops cfg ready).2 },
        { scheduled := (x.sched.schedule ops cfg ready).2.numScheduledTokens
          admitted := (x.sched.schedule ops cfg ready).2.scheduledNewReqs ++
            (x.sched.schedule ops cfg ready).2.scheduledResumedReqs }) := by
    simp only [SchedState.next, hb]
  rw [he] at hdone ⊢
  obtain ⟨g1, g2, g3, g4⟩ := hgr
  have spec : Scheduler.ScheduleSpec ops cfg x.sched (x.sched.schedule ops cfg ready).1
      (x.sched.schedule ops cfg ready).2 := hs.wf.schedule ready
  have hleaves := hs.wf.schedule_leaves ops cfg ready
  obtain ⟨h1, h2⟩ := hx.departs (.schedule ready) rfl (Scheduler.Leaves.departs hleaves)
  refine ⟨hs.wf.schedule_owned laws cfg ready hx.owned, h1, h2, g1, grants_concat hx.grants ⟨g2, g3⟩,
    fun so hso rid hm => ?_, fun rid r hr => ?_⟩
  · cases hso
    have hm' := spec.scheduled rid hm
    rw [List.filterMap_append]
    exact List.mem_append_left _ (hs.added rid hm')
  · have hfl : LiveOk cfg (some (x.sched.schedule ops cfg ready).2) _ rid r := g4 rid r hr
    exact hfl.mono (hdone rid)

/-- The output of the batch in flight is taken in. -/
lemma Steady.updateFromOutput (laws : ops.Laws blocks entries) (hx : Steady cfg blocks entries done h os x)
    (hmax : 0 ≤ cfg.scheduler.maxNumBatchedTokens) (hs : x.sched.Sound (h.filterMap SchedEvent.added))
    {so : SchedulerOutput β} {mo : Dict ReqId (List Token)} (finals : Dict ReqId (Option ℚ))
    (histories : Option (Dict ReqId (List ℚ))) (hb : x.batch = some so)
    (hans : ∀ rid r, x.sched.requests.get? rid = some r → Scheduler.Answered cfg so mo (done' rid) rid r)
    (hdone : ∀ rid, done' rid → done rid ∨ mo.getD rid [] ≠ []) :
    Steady cfg blocks entries done' (h ++ [.updateFromOutput mo finals histories])
      (os ++ [{ outputs := (x.sched.updateFromOutput ops cfg so mo finals histories).2 }])
      ({ sched := (x.sched.updateFromOutput ops cfg so mo finals histories).1 } : SchedState μ β) := by
  have spec : Scheduler.UpdateSpec cfg so mo x.sched
      (x.sched.updateFromOutput ops cfg so mo finals histories).1 :=
    hs.wf.updateFromOutput so mo finals histories
  obtain ⟨h1, h2⟩ := hx.departs (.updateFromOutput mo finals histories) rfl
    (.updateFromOutput ops cfg so mo finals histories x.sched)
  have hlive := hx.live
  rw [hb] at hlive
  refine ⟨hx.owned.updateFromOutput laws cfg so mo finals histories, h1, h2, ?_,
    grants_concat hx.grants (grants_nothing hmax rfl), fun _ hso => (by cases hso), fun rid r' hr' => ?_⟩
  · exact (Scheduler.updateFromOutput_running_le ops cfg so mo finals histories x.sched).trans hx.length
  · dsimp only at hr'
    rw [spec.requests] at hr'
    split at hr'
    · next hm =>
      obtain ⟨r, hr, ho⟩ := Option.bind_eq_some_iff.1 hr'
      have hfl : Scheduler.InFlight cfg so (done rid) rid r := hlive rid r hr
      have hout := hfl.outcome (hs.wf.requestId rid r hr) hm (hans rid r hr) (hdone rid) ho
      exact ⟨hout.1, fun hp _ => hout.2 hp⟩
    · next hm =>
      have hfl : Scheduler.InFlight cfg so (done rid) rid r' := hlive rid r' hr'
      cases hfl with
      | idle _ hsane hd =>
        refine ⟨hsane, fun hp hrun => hd ?_ hrun⟩
        rcases hdone rid hp with hp' | hne
        · exact hp'
        · rcases (hans rid r' hr').early hne with he | he
          · exact absurd he.1 hm
          · exact absurd hp he.1
      | scheduled hc' => exact absurd (Dict.mem_of_get? hc') hm

/-- Requests are aborted. -/
lemma Steady.finishRequests (laws : ops.Laws blocks entries) (hx : Steady cfg blocks entries done h os x)
    (hmax : 0 ≤ cfg.scheduler.maxNumBatchedTokens) (hs : x.sched.Sound (h.filterMap SchedEvent.added))
    (rids : List ReqId) {status : RequestStatus} (hok : status.isFinished = true)
    (hdone : ∀ rid, done' rid → done rid) :
    Steady cfg blocks entries done' (h ++ [.finishRequests rids status]) (os ++ [({} : SchedRecord)])
      { x with sched := x.sched.finishRequests ops rids status } := by
  have spec := hs.wf.finishRequests ops rids status
  obtain ⟨h1, h2⟩ := hx.departs (.finishRequests rids status) rfl
    (.finishRequests ops rids hok x.sched)
  refine ⟨hx.owned.finishRequests laws rids status, h1, h2, ?_,
    grants_concat hx.grants (grants_nothing hmax rfl), hx.batched_concat _, fun rid r' hr' => ?_⟩
  · exact (Scheduler.finishRequests_running_le ops rids status x.sched).trans hx.length
  · have hr1 : (x.sched.finishRequests ops rids status).requests.get? rid = some r' := hr'
    rw [spec.requests] at hr1
    split at hr1
    · cases hr1
    · exact (hx.live rid r' hr1).mono (hdone rid)

/-- Every call keeps what the states of a run keep. -/
lemma SchedState.steady_next (laws : ops.Laws blocks entries)
    (hmax : 0 ≤ cfg.scheduler.maxNumBatchedTokens) {ev : SchedEvent}
    (hs : x.sched.Sound (h.filterMap SchedEvent.added))
    (hx : Steady cfg blocks entries done h os x) (hok : ev.Ok h) (hc : ModelAnswers cfg done' x ev)
    (hdone : PrefillStep done done' ev (x.next ops cfg ev).2)
    (hfit : ∀ r, ev = .addRequest r → r.Fits cfg) :
    Steady cfg blocks entries done' (h ++ [ev]) (os ++ [(x.next ops cfg ev).2])
      (x.next ops cfg ev).1 := by
  cases ev with
  | addRequest r => exact hx.addRequest hmax hok.1 hok.2 (hfit r rfl) hdone
  | schedule ready =>
    cases hb : x.batch with
    | none => exact hx.schedule laws hmax hs ready hb hdone
    | some so =>
      -- a batch is in flight, and the engine waits for it
      have he : x.next ops cfg (.schedule ready) = (x, {}) := by simp only [SchedState.next, hb]
      rw [he] at hdone ⊢
      exact hx.relabels hmax rfl (.refl x.sched) rfl rfl fun rid hr => (hdone rid hr).1
  | updateFromOutput mo finals histories =>
    obtain ⟨so, hb, hans⟩ := hc
    have he : x.next ops cfg (.updateFromOutput mo finals histories) =
        ({ sched := (x.sched.updateFromOutput ops cfg so mo finals histories).1 },
          { outputs := (x.sched.updateFromOutput ops cfg so mo finals histories).2 }) := by
      simp only [SchedState.next, hb]
    rw [he]
    exact hx.updateFromOutput laws hmax hs finals histories hb hans hdone
  | finishRequests rids status => exact hx.finishRequests laws hmax hs rids hok hdone
  | markStopReason rids reason =>
    exact hx.relabels hmax rfl (Scheduler.relabels_markStopReason x.sched rids reason) rfl rfl hdone
  | updateTraceScores scores =>
    exact hx.relabels hmax rfl (Scheduler.relabels_updateTraceScores x.sched scores) rfl rfl hdone
  | updateDraftTokenIds drafts =>
    exact hx.relabels hmax rfl (Scheduler.relabels_updateDraftTokenIds x.sched drafts) rfl rfl hdone

/-- The prefills of a run, one call later. -/
lemma prefillStep_prefilled {h : List SchedEvent} {os : List SchedRecord} {ev : SchedEvent}
    {o : SchedRecord} (hlen : os.length = h.length) :
    PrefillStep (· ∈ prefilled h os) (· ∈ prefilled (h ++ [ev]) (os ++ [o])) ev o := by
  intro rid hr
  rw [prefilled_concat hlen] at hr
  cases ev with
  | schedule => simpa [prefilledStep] using hr
  | updateFromOutput mo =>
    simp only [prefilledStep, List.mem_append, List.mem_filter, Bool.not_eq_true',
      List.isEmpty_eq_false_iff] at hr
    exact hr.imp_right And.right
  | addRequest | finishRequests | markStopReason | updateTraceScores | updateDraftTokenIds => exact hr

/-- A model that keeps its promise answers, whatever is asked of the prefills. -/
lemma ModelContract.answers {x : SchedState μ β} {ev : SchedEvent} (h : ModelContract x ev)
    (done : ReqId → Prop) : ModelAnswers cfg done x ev := by
  cases ev with
  | updateFromOutput mo finals histories =>
    cases hb : x.batch with
    | none => simp only [ModelContract, hb] at h
    | some so =>
      simp only [ModelContract, hb] at h
      refine ⟨so, hb, fun rid r hr => ?_⟩
      obtain ⟨h1, h2⟩ := h (rid, r) (Dict.get?_eq_some.1 hr)
      exact ⟨fun hm hle => h1.2 ⟨hm, hle⟩, h2, fun hne => .inl (h1.1 hne)⟩
  | addRequest | schedule | finishRequests | markStopReason | updateTraceScores | updateDraftTokenIds =>
    trivial

/-- What the states of a run keep. -/
theorem steady_of_runs (laws : ops.Laws blocks entries) (hm : ∀ rid, ¬ blocks m rid ∧ ¬ entries m rid)
    (hmax : 0 ≤ cfg.scheduler.maxNumBatchedTokens) {h : List SchedEvent} {os : List SchedRecord}
    {x : SchedState μ β} (run : (schedMachine ops cfg m).Runs h os x)
    (hc : (schedMachine ops cfg m).Along ModelContract h)
    (hfit : ∀ r, SchedEvent.addRequest r ∈ h → r.Fits cfg) :
    Steady cfg blocks entries (· ∈ prefilled h os) h os x := by
  induction run with
  | init =>
    refine ⟨fun rid hr => absurd hr (not_or.2 (hm rid)), fun d hd => absurd hd List.not_mem_nil,
      fun rid hr => absurd hr List.not_mem_nil, Nat.zero_le _, fun o ho => absurd ho List.not_mem_nil,
      fun so hb => (by cases hb), fun rid r hr => absurd (Dict.mem_of_get? hr) Dict.not_mem_empty⟩
  | @step h os x ev run hok ih =>
    obtain ⟨hc1, hc2⟩ := run.along_concat hc
    have hx := ih hc1 fun r hr => hfit r (List.mem_append_left _ hr)
    refine SchedState.steady_next laws hmax (sound_of_runs run) hx hok (hc2.answers _) ?_ fun r he => ?_
    · exact prefillStep_prefilled run.length_eq
    · exact hfit r (List.mem_append_right _ (by rw [he]; exact List.mem_singleton_self _))

/-- The state invariant of the scheduler, in every run in which the model keeps its promise, every added request
fits, and none ties with another under PRIORITY. -/
theorem scheduler_invariant (laws : ops.Laws blocks entries)
    (hm : ∀ rid, ¬ blocks m rid ∧ ¬ entries m rid)
    (hmax : 0 ≤ cfg.scheduler.maxNumBatchedTokens) {h : List SchedEvent} {os : List SchedRecord}
    {x : SchedState μ β} (run : (schedMachine ops cfg m).Runs h os x)
    (hc : (schedMachine ops cfg m).Along ModelContract h)
    (hfit : ∀ r, SchedEvent.addRequest r ∈ h → r.Fits cfg)
    (hkeys : (schedMachine ops cfg m).Along (NewKey cfg) h) : SchedulerInvariant cfg blocks entries h os x := by
  have hs := (sound_of_runs run).wf
  have hx := steady_of_runs laws hm hmax run hc hfit
  refine ⟨hs.nodup, hs.mem, hs.status, fun rid hr hn => ?_, hx.length, hx.grants,
    fun hb rid hrun r hr => ?_, fun hp => keysApart_of_runs hp run hkeys⟩
  · refine ⟨(hx.left rid hr).resolve_left hn, fun d hd _ => hx.finished d hd, ?_, ?_⟩
    · exact fun h => hn (hx.owned rid (.inl h))
    · exact fun h => hn (hx.owned rid (.inr h))
  · have hlive := hx.live rid r hr
    rw [hb] at hlive
    obtain ⟨hsane, hdone⟩ := hlive
    have hbehind := hsane.behind
    refine ⟨by omega, fun hp => ?_⟩
    have := hdone hp ((hs.status rid r hr).2 hrun)
    omega

/-- The bounded cache manager gives blocks to the request it is called for only. -/
lemma Caches.bounded_laws (capacity : Nat) :
    (Caches.bounded capacity).Laws (fun m x => x ∈ m) fun _ _ => False where
  computed _ _ := Nat.zero_le _
  encoder _ _ _ _ _ hn := ⟨hn, Int.le_refl _⟩
  allocateSlots m r n cached b look enc x := by
    refine ⟨fun hx => ?_, id⟩
    unfold Caches.bounded at hx
    dsimp only at hx
    split at hx
    · exact (Dict.mem_set.1 hx).symm
    · exact .inl hx
  tryScheduleEncoderInputs _ _ _ _ _ _ := ⟨id, .inl⟩
  allocateEncoder _ _ _ _ := ⟨id, .inl⟩
  freeBlocks _ _ _ := ⟨fun hx => (Dict.mem_erase.1 hx).symm, id⟩
  freeEncoder _ _ _ := ⟨id, False.elim⟩
  freeEncoderInputs _ _ _ := ⟨id, id⟩

/-- Unlimited memory belongs to nobody. -/
lemma Caches.unbounded_laws : Caches.unbounded.Laws (fun _ _ => False) fun _ _ => False where
  computed _ _ := Nat.zero_le _
  encoder _ _ _ _ _ hn := ⟨hn, Int.le_refl _⟩
  allocateSlots _ _ _ _ _ _ _ _ := ⟨False.elim, id⟩
  tryScheduleEncoderInputs _ _ _ _ _ _ := ⟨id, False.elim⟩
  allocateEncoder _ _ _ _ := ⟨id, False.elim⟩
  freeBlocks _ _ _ := ⟨False.elim, id⟩
  freeEncoder _ _ _ := ⟨id, False.elim⟩
  freeEncoderInputs _ _ _ := ⟨id, id⟩

/-- Two requests and three blocks under PRIORITY: the later one is preempted, and finishes last. -/
theorem scheduler_invariant_preempted :
    let cfg : VllmConfig := { gambit := {}, scheduler := { policy := .priority } }
    let es : List SchedEvent :=
      [.addRequest { requestId := ['a'], promptTokenIds := [7], samplingParams := { maxTokens := 2 } },
        .addRequest
          { requestId := ['b'], promptTokenIds := [8], samplingParams := { maxTokens := 2 }, arrivalTime := 1 },
        .schedule fun _ => true,
        .updateFromOutput ⟨[(['a'], [1]), (['b'], [2])], by decide⟩ ∅ none, .schedule fun _ => true,
        .updateFromOutput ⟨[(['a'], [3])], by decide⟩ ∅ none, .schedule fun _ => true,
        .updateFromOutput ⟨[(['b'], [4])], by decide⟩ ∅ none]
    let run := (schedMachine (Caches.bounded 3) cfg ∅).exec es
    run.2.sched.departed.length = 2 ∧
      SchedulerInvariant cfg (fun m x => x ∈ m) (fun _ _ => False) es run.1 run.2 := by
  intro cfg es
  refine ⟨by decide +kernel, ?_⟩
  refine scheduler_invariant (Caches.bounded_laws 3) (fun _ => ⟨Dict.not_mem_empty, id⟩) (by decide)
    (Machine.Runs.of_exec (by decide +kernel)) (by decide +kernel) (fun r hr => ?_) (by decide +kernel)
  simp only [es, List.mem_cons, SchedEvent.addRequest.injEq, reduceCtorEq, List.not_mem_nil, or_false]
    at hr
  rcases hr with rfl | rfl
  · decide
  · decide

/-- A prompt as long as the model with `min_tokens = 2`: it outgrows the model, and the next batch
gives it minus one token. -/
theorem overgrown_request :
    let cfg : VllmConfig := { gambit := {}, scheduler := { maxModelLen := 2 } }
    let es : List SchedEvent :=
      [.addRequest { requestId := ['a'], promptTokenIds := [7, 8], samplingParams := { minTokens := 2 } },
        .schedule fun _ => true, .updateFromOutput ⟨[(['a'], [1])], by decide⟩ ∅ none,
        .schedule fun _ => true]
    let M := schedMachine (Caches.bounded 16) cfg ∅
    M.OkFrom [] es ∧ M.Along ModelContract es ∧
      ¬ SchedulerInvariant cfg (fun m x => x ∈ m) (fun _ _ => False) es (M.exec es).1 (M.exec es).2 := by
  refine ⟨by decide +kernel, by decide +kernel, fun h => ?_⟩
  have hg := fun o ho => (h.grants o ho).1
  revert hg
  decide +kernel

end Gambit.Sched
