import Gambit.Sched.Machine

/-!
# Ties in the priority queue

A push or a pop of the heap raises when it compares two requests with the same `(priority, arrival_time)`. No
call changes the key of a request, so nothing ever ties in a run in which every added request has a key that no
stored request has (`keysApart_of_runs`).
-/

namespace Gambit.Sched
open Gambit.Lib

variable {μ β : Type} {ops : Caches μ β} {cfg : VllmConfig} {m : μ}

/-- An added request has a key of its own; only PRIORITY compares keys. -/
def NewKey (cfg : VllmConfig) (x : SchedState μ β) : SchedEvent → Prop
  | .addRequest r => cfg.policy = .priority →
      ∀ y ∈ x.sched.requests.keys, x.sched.queueKey y ≠ (r.priority, r.arrivalTime)
  | _ => True

instance (x : SchedState μ β) : (ev : SchedEvent) → Decidable (NewKey cfg x ev)
  | .addRequest r => inferInstanceAs (Decidable (cfg.policy = .priority →
      ∀ y ∈ x.sched.requests.keys, x.sched.queueKey y ≠ (r.priority, r.arrivalTime)))
  | .schedule _ | .updateFromOutput .. | .finishRequests .. | .markStopReason .. | .updateTraceScores _
  | .updateDraftTokenIds _ => .isTrue trivial

namespace Scheduler
variable {s s' : Scheduler μ} {rid : ReqId} {r : Request}

/-- The key of a stored request. -/
lemma queueKey_of_get? (hr : s.requests.get? rid = some r) : s.queueKey rid = (r.priority, r.arrivalTime) := by
  unfold queueKey
  rw [hr]

/-- An operation that stores no new request and changes no key ties nobody. -/
lemma KeysApart.of_back (h : s.KeysApart)
    (back : ∀ x r', s'.requests.get? x = some r' →
      ∃ r, s.requests.get? x = some r ∧ r'.priority = r.priority ∧ r'.arrivalTime = r.arrivalTime) :
    s'.KeysApart := by
  have key : ∀ x ∈ s'.requests, x ∈ s.requests ∧ s'.queueKey x = s.queueKey x := by
    intro x hx
    obtain ⟨r', hr'⟩ := Dict.mem_iff_get?.1 hx
    obtain ⟨r, hr, hp, ha⟩ := back x r' hr'
    refine ⟨Dict.mem_of_get? hr, ?_⟩
    rw [queueKey_of_get? hr', queueKey_of_get? hr, hp, ha]
  intro x hx y hy hne
  rw [(key x hx).2, (key y hy).2]
  exact h x (key x hx).1 y (key y hy).1 hne

/-- Labels do not tie anybody. -/
lemma KeysApart.relabels (h : s.KeysApart) (hrel : s.Relabels s') : s'.KeysApart := by
  refine h.of_back fun x r' hr' => ?_
  obtain ⟨r, hr, ht, -⟩ := hrel.back hr'
  exact ⟨r, hr, ht.priority, ht.arrivalTime⟩

/-- A new request with a key of its own ties with nobody. -/
lemma KeysApart.addRequest (h : s.KeysApart) (policy : SchedulingPolicy) (hid : r.requestId ∉ s.requests)
    (hnew : ∀ y ∈ s.requests.keys, s.queueKey y ≠ (r.priority, r.arrivalTime)) :
    (s.addRequest policy r).KeysApart := by
  have own : (s.addRequest policy r).queueKey r.requestId = (r.priority, r.arrivalTime) := by
    apply queueKey_of_get?
    rw [get?_addRequest, if_pos rfl]
  have other : ∀ x ∈ s.requests, (s.addRequest policy r).queueKey x = s.queueKey x := by
    intro x hx
    have hne : x ≠ r.requestId := fun he => hid (he ▸ hx)
    unfold queueKey
    rw [get?_addRequest, if_neg hne]
  intro x hx y hy hne
  rcases mem_addRequest.1 hx with rfl | hx
  · rcases mem_addRequest.1 hy with rfl | hy
    · exact absurd rfl hne
    · rw [own, other y hy]
      exact (hnew y hy).symm
  · rcases mem_addRequest.1 hy with rfl | hy
    · rw [own, other x hx]
      exact hnew x hx
    · rw [other x hx, other y hy]
      exact h x hx y hy hne

end Scheduler

/-- No call ties two requests when an added one has a key of its own. -/
lemma SchedState.keysApart_next {h : List SchedEvent} {x : SchedState μ β} {ev : SchedEvent}
    (hp : cfg.policy = .priority) (hs : x.sched.Sound (h.filterMap SchedEvent.added)) (hx : x.sched.KeysApart)
    (hok : ev.Ok h) (hnew : NewKey cfg x ev) : (x.next ops cfg ev).1.sched.KeysApart := by
  cases ev with
  | addRequest r => exact hx.addRequest cfg.policy (fun hm => hok.2 (hs.added _ hm)) (hnew hp)
  | schedule ready =>
    have spec : Scheduler.ScheduleSpec ops cfg x.sched (x.sched.schedule ops cfg ready).1
        (x.sched.schedule ops cfg ready).2 := hs.wf.schedule ready
    cases hb : x.batch with
    | some so =>
      simp only [SchedState.next, hb]
      exact hx
    | none =>
      simp only [SchedState.next, hb]
      refine hx.of_back fun y r' hr' => ?_
      obtain ⟨r, hr, hk⟩ := spec.evolves.back y r' hr'
      exact ⟨r, hr, hk.priority, hk.arrivalTime⟩
  | updateFromOutput mo finals histories =>
    cases hb : x.batch with
    | none =>
      simp only [SchedState.next, hb]
      exact hx
    | some so =>
      have spec : Scheduler.UpdateSpec cfg so mo x.sched
          (x.sched.updateFromOutput ops cfg so mo finals histories).1 :=
        hs.wf.updateFromOutput so mo finals histories
      simp only [SchedState.next, hb]
      refine hx.of_back fun y r' hr' => ?_
      rw [spec.requests] at hr'
      split at hr'
      · obtain ⟨r, hr, ho⟩ := Option.bind_eq_some_iff.1 hr'
        unfold Scheduler.outcome at ho
        split at ho
        · cases ho
        · next hstop =>
          cases ho
          obtain ⟨n, hn⟩ := Scheduler.accept_of_not_stopped (by simpa using hstop)
          exact ⟨r, hr, by rw [hn], by rw [hn]⟩
      · exact ⟨r', hr', rfl, rfl⟩
  | finishRequests rids status =>
    have spec := hs.wf.finishRequests ops rids status
    refine hx.of_back fun y r' hr' => ?_
    have hr : (x.sched.finishRequests ops rids status).requests.get? y = some r' := hr'
    rw [spec.requests] at hr
    split at hr
    · cases hr
    · exact ⟨r', hr, rfl, rfl⟩
  | markStopReason rids reason => exact hx.relabels (Scheduler.relabels_markStopReason x.sched rids reason)
  | updateTraceScores scores => exact hx.relabels (Scheduler.relabels_updateTraceScores x.sched scores)
  | updateDraftTokenIds drafts => exact hx.relabels (Scheduler.relabels_updateDraftTokenIds x.sched drafts)

/-- In a run in which every added request has a key of its own, no two stored requests ever tie. -/
lemma keysApart_of_runs (hp : cfg.policy = .priority) {h : List SchedEvent} {os : List SchedRecord}
    {x : SchedState μ β} (run : (schedMachine ops cfg m).Runs h os x)
    (hkeys : (schedMachine ops cfg m).Along (NewKey cfg) h) : x.sched.KeysApart := by
  induction run with
  | init => exact fun x hx => absurd hx Dict.not_mem_empty
  | step run hok ih =>
    obtain ⟨h1, h2⟩ := run.along_concat hkeys
    exact SchedState.keysApart_next hp (sound_of_runs run) (ih h1) hok h2

end Gambit.Sched
