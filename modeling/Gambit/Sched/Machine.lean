import Gambit.Lib.Machine
import Gambit.Sched.Spec
import Gambit.Sched.Steps

/-!
# The scheduler as a machine

The synchronous scheduler between the calls of the engine: requests are added and finished from
outside, a batch is scheduled and, before the next one, its model output is taken in. `SchedState`
holds the batch that is being executed. While there is one, `schedule` does not come, and without one
there is no output to take in.

The outputs of a run are kept with the client they go to.
-/

namespace Gambit.Sched
open Gambit.Lib

/-- The scheduler with the batch that is being executed, if any. -/
structure SchedState (μ β : Type) where
  sched : Scheduler μ
  batch : Option (SchedulerOutput β) := none

/-- The calls of the scheduler. -/
inductive SchedEvent where
  | addRequest (r : Request)
  | schedule (ready : ReqId → Bool)
  | updateFromOutput (mo : ModelRunnerOutput) (finals : Dict ReqId (Option ℚ))
    (histories : Option (Dict ReqId (List ℚ)))
  | finishRequests (rids : List ReqId) (status : RequestStatus)
  | markStopReason (rids : List ReqId) (reason : StopReason)
  | updateTraceScores (scores : Dict ReqId ℚ)
  | updateDraftTokenIds (drafts : Dict ReqId (List Token))

/-- The id a call adds. -/
def SchedEvent.added : SchedEvent → Option ReqId
  | .addRequest r => some r.requestId
  | _ => none

/-- A request as it is handed to the scheduler. -/
structure Request.IsNew (r : Request) : Prop where
  status : r.status = Request.initialStatus r.samplingParams
  outputTokenIds : r.outputTokenIds = []
  numComputedTokens : r.numComputedTokens = 0
  specTokenIds : r.specTokenIds = []

instance (r : Request) : Decidable r.IsNew :=
  decidable_of_iff (r.status = Request.initialStatus r.samplingParams ∧ r.outputTokenIds = [] ∧
      r.numComputedTokens = 0 ∧ r.specTokenIds = [])
    ⟨fun ⟨h1, h2, h3, h4⟩ => ⟨h1, h2, h3, h4⟩, fun ⟨h1, h2, h3, h4⟩ => ⟨h1, h2, h3, h4⟩⟩

/-- What the callers promise: an added request is new and its id was never used before, and requests
are finished with a finished status. -/
def SchedEvent.Ok (h : List SchedEvent) : SchedEvent → Prop
  | .addRequest r => r.IsNew ∧ r.requestId ∉ h.filterMap SchedEvent.added
  | .finishRequests _ status => status.isFinished = true
  | _ => True

instance (h : List SchedEvent) : (ev : SchedEvent) → Decidable (ev.Ok h)
  | .addRequest r => inferInstanceAs (Decidable (r.IsNew ∧ _))
  | .finishRequests _ status => inferInstanceAs (Decidable (status.isFinished = true))
  | .schedule _ | .updateFromOutput .. | .markStopReason .. | .updateTraceScores _
  | .updateDraftTokenIds _ => inferInstanceAs (Decidable True)

/-- What a call returned: the scheduled tokens with the requests admitted, or the outputs of each
client. -/
structure SchedRecord where
  scheduled : Dict ReqId Int := ∅
  admitted : List ReqId := []
  outputs : Dict Nat (List EngineCoreOutput) := ∅
  deriving DecidableEq

namespace SchedState
variable {μ β : Type} (ops : Caches μ β) (cfg : VllmConfig)

/-- The effect of a call. -/
def next (x : SchedState μ β) : SchedEvent → SchedState μ β × SchedRecord
  | .addRequest r => ({ x with sched := x.sched.addRequest cfg.policy r }, {})
  | .schedule ready =>
    match x.batch with
    | some _ => (x, {})
    | none =>
      let (s, so) := x.sched.schedule ops cfg ready
      ({ sched := s, batch := some so },
        { scheduled := so.numScheduledTokens
          admitted := so.scheduledNewReqs ++ so.scheduledResumedReqs })
  | .updateFromOutput mo finals histories =>
    match x.batch with
    | none => (x, {})
    | some so =>
      let (s, outs) := x.sched.updateFromOutput ops cfg so mo finals histories
      ({ sched := s }, { outputs := outs })
  | .finishRequests rids status =>
    ({ x with sched := x.sched.finishRequests ops rids status }, {})
  | .markStopReason rids reason => ({ x with sched := x.sched.markStopReason rids reason }, {})
  | .updateTraceScores scores => ({ x with sched := x.sched.updateTraceScores scores }, {})
  | .updateDraftTokenIds drafts => ({ x with sched := x.sched.updateDraftTokenIds drafts }, {})

end SchedState

/-- The scheduler as a machine. -/
def schedMachine {μ β : Type} (ops : Caches μ β) (cfg : VllmConfig) (m : μ) :
    Machine (SchedState μ β) SchedEvent SchedRecord where
  init := { sched := { caches := m } }
  next := SchedState.next ops cfg
  ok := SchedEvent.Ok

instance {μ β : Type} (ops : Caches μ β) (cfg : VllmConfig) (m : μ) (h : List SchedEvent)
    (ev : SchedEvent) : Decidable ((schedMachine ops cfg m).ok h ev) :=
  inferInstanceAs (Decidable (ev.Ok h))

namespace Scheduler
variable {μ β : Type} {ops : Caches μ β} {cfg : VllmConfig} {s s' : Scheduler μ}

/-- The queues match the store, and every id was added. -/
structure Sound (added : List ReqId) (s : Scheduler μ) : Prop where
  wf : s.WF
  added : ∀ rid ∈ s.requests, rid ∈ added

end Scheduler

variable {μ β : Type} {ops : Caches μ β} {cfg : VllmConfig} {m : μ}

/-- Every call keeps the basic invariant. -/
lemma SchedState.sound_next {h : List SchedEvent} {x : SchedState μ β} {ev : SchedEvent}
    (hs : x.sched.Sound (h.filterMap SchedEvent.added)) (hok : ev.Ok h) :
    (x.next ops cfg ev).1.sched.Sound ((h ++ [ev]).filterMap SchedEvent.added) := by
  have hmono : ∀ rid ∈ h.filterMap SchedEvent.added, rid ∈ (h ++ [ev]).filterMap SchedEvent.added := by
    intro rid hr
    rw [List.filterMap_append]
    exact List.mem_append_left _ hr
  cases ev with
  | addRequest r =>
    obtain ⟨hnew, hid⟩ := hok
    have hfresh : r.requestId ∉ x.sched.requests := fun hm => hid (hs.added _ hm)
    refine ⟨hs.wf.addRequest cfg.policy hfresh hnew.status, fun rid hr => ?_⟩
    rcases Scheduler.mem_addRequest.1 hr with rfl | hr
    · simp [SchedEvent.added]
    · exact hmono rid (hs.added rid hr)
  | schedule ready =>
    cases hb : x.batch with
    | some so =>
      simp only [SchedState.next, hb]
      exact ⟨hs.wf, fun rid hr => hmono rid (hs.added rid hr)⟩
    | none =>
      simp only [SchedState.next, hb]
      have spec : Scheduler.ScheduleSpec ops cfg x.sched (x.sched.schedule ops cfg ready).1
          (x.sched.schedule ops cfg ready).2 := hs.wf.schedule ready
      exact ⟨spec.wf, fun rid hr => hmono rid (hs.added rid (spec.evolves.mem hr))⟩
  | updateFromOutput mo finals histories =>
    cases hb : x.batch with
    | none =>
      simp only [SchedState.next, hb]
      exact ⟨hs.wf, fun rid hr => hmono rid (hs.added rid hr)⟩
    | some so =>
      simp only [SchedState.next, hb]
      have spec : Scheduler.UpdateSpec cfg so mo x.sched
          (x.sched.updateFromOutput ops cfg so mo finals histories).1 :=
        hs.wf.updateFromOutput so mo finals histories
      refine ⟨spec.wf, fun rid hr => hmono rid (hs.added rid ?_)⟩
      obtain ⟨r, hr⟩ := Dict.mem_iff_get?.1 hr
      rw [spec.requests] at hr
      split at hr
      · obtain ⟨r0, hr0, -⟩ := Option.bind_eq_some_iff.1 hr
        exact Dict.mem_of_get? hr0
      · exact Dict.mem_of_get? hr
  | finishRequests rids status =>
    have spec := hs.wf.finishRequests ops rids status
    exact ⟨spec.wf, fun rid hr => hmono rid (hs.added rid (spec.mem hr))⟩
  | markStopReason rids reason =>
    have hrel := Scheduler.relabels_markStopReason x.sched rids reason
    exact ⟨hrel.wf hs.wf, fun rid hr => hmono rid (hs.added rid (hrel.mem.1 hr))⟩
  | updateTraceScores scores =>
    have hrel := Scheduler.relabels_updateTraceScores x.sched scores
    exact ⟨hrel.wf hs.wf, fun rid hr => hmono rid (hs.added rid (hrel.mem.1 hr))⟩
  | updateDraftTokenIds drafts =>
    have hrel := Scheduler.relabels_updateDraftTokenIds x.sched drafts
    exact ⟨hrel.wf hs.wf, fun rid hr => hmono rid (hs.added rid (hrel.mem.1 hr))⟩

/-- The basic invariant in every run. -/
theorem sound_of_runs {h : List SchedEvent} {os : List SchedRecord} {x : SchedState μ β}
    (run : (schedMachine ops cfg m).Runs h os x) :
    x.sched.Sound (h.filterMap SchedEvent.added) := by
  induction run with
  | init => exact ⟨.empty m, fun rid hr => absurd hr Dict.not_mem_empty⟩
  | step _ hok ih => exact SchedState.sound_next ih hok

end Gambit.Sched
