import Gambit.Sched.Update

/-!
# The scheduler's invariant

`Scheduler.WF` says that the two queues hold every live request exactly once, that a request is
stored under its own id, and that it is RUNNING exactly when it is in `running`. Inside `schedule`
the waiting queue is taken apart, so the invariant is stated for an explicit queue
(`Scheduler.WFQ`).

`Scheduler.Evolves s s'` is what scheduling may do to the requests: it never changes the trace of
a request that survives, and a request that does not survive was evicted and reported as such.
-/

namespace Gambit.Sched
open Gambit.Lib

namespace Scheduler
variable {μ β : Type} {ops : Caches μ β} {cfg : VllmConfig} {s s' s'' : Scheduler μ}
variable {q q' : List ReqId} {rid x : ReqId} {r r' : Request}

/-- The invariant of the scheduler, with `q` in the place of the waiting queue. -/
structure WFQ (s : Scheduler μ) (q : List ReqId) : Prop where
  nodup : (s.running ++ q).Nodup
  mem : ∀ rid, rid ∈ s.requests ↔ rid ∈ s.running ++ q
  requestId : ∀ rid r, s.requests.get? rid = some r → r.requestId = rid
  unfinished : ∀ rid r, s.requests.get? rid = some r → r.status.isFinished = false
  status : ∀ rid r, s.requests.get? rid = some r → (r.status = .running ↔ rid ∈ s.running)

/-- The invariant of the scheduler. -/
def WF (s : Scheduler μ) : Prop := s.WFQ s.waiting

/-- A scheduler without requests is well formed. -/
lemma WF.empty (m : μ) : ({ caches := m } : Scheduler μ).WF where
  nodup := List.nodup_nil
  mem := fun _ => by simp
  requestId := by simp
  unfinished := by simp
  status := by simp

/-- The order of the queue does not matter. -/
lemma WFQ.perm (h : s.WFQ q) (hq : q.Perm q') : s.WFQ q' where
  nodup := ((List.Perm.append_left _ hq).nodup_iff).1 h.nodup
  mem rid := by rw [h.mem, (List.Perm.append_left _ hq).mem_iff]
  requestId := h.requestId
  unfinished := h.unfinished
  status := h.status

/-- Only requests and the running queue matter. -/
lemma WFQ.congr (h : s.WFQ q) (hr : s'.requests = s.requests) (hq : s'.running = s.running) :
    s'.WFQ q where
  nodup := hq ▸ h.nodup
  mem := by rw [hr, hq]; exact h.mem
  requestId := by rw [hr]; exact h.requestId
  unfinished := by rw [hr]; exact h.unfinished
  status := by rw [hr, hq]; exact h.status

/-- A push on a priority queue adds one element. -/
lemma pushByKey_perm (s : Scheduler μ) (rid : ReqId) (q : List ReqId) :
    (s.pushByKey rid q).Perm (rid :: q) := by
  induction q with
  | nil => exact .refl _
  | cons x xs ih =>
    rw [pushByKey]
    split
    · exact (ih.cons x).trans (.swap rid x xs)
    · exact .refl _

/-- Adding a request to a queue adds one element. -/
lemma queueAdd_perm (s : Scheduler μ) (policy : SchedulingPolicy) (q : List ReqId) (rid : ReqId) :
    (s.queueAdd policy q rid).Perm (rid :: q) := by
  cases policy with
  | priority => exact s.pushByKey_perm rid q
  | fcfs => exact List.perm_append_singleton rid q
  | gambit => exact List.perm_append_singleton rid q

/-- Prepending a request to a queue adds one element. -/
lemma queuePrepend_perm (s : Scheduler μ) (policy : SchedulingPolicy) (q : List ReqId)
    (rid : ReqId) : (s.queuePrepend policy q rid).Perm (rid :: q) := by
  cases policy with
  | priority => exact s.pushByKey_perm rid q
  | fcfs => exact .refl _
  | gambit => exact .refl _

/-- Prepending several requests adds these. -/
lemma queuePrependAll_perm (s : Scheduler μ) (policy : SchedulingPolicy) (q rids : List ReqId) :
    (s.queuePrependAll policy q rids).Perm (rids ++ q) := by
  have push : ∀ rids q : List ReqId,
      (rids.foldl (fun q rid => s.pushByKey rid q) q).Perm (rids ++ q) := by
    intro rids
    induction rids with
    | nil => exact fun q => .refl _
    | cons x xs ih =>
      intro q
      refine (ih _).trans (((s.pushByKey_perm x q).append_left xs).trans ?_)
      exact List.perm_middle
  cases policy with
  | priority => exact push rids q
  | fcfs => exact .refl _
  | gambit => exact .refl _

/-- Changing a stored request in place, with the same id and a status of the same kind. -/
lemma WFQ.set (h : s.WFQ q) (hr : s.requests.get? rid = some r) (hid : r'.requestId = rid)
    (hf : r'.status.isFinished = false) (hs : r'.status = .running ↔ r.status = .running) :
    ({ s with requests := s.requests.set rid r' } : Scheduler μ).WFQ q where
  nodup := h.nodup
  mem x := by
    have hm : rid ∈ s.requests := Dict.mem_of_get? hr
    rw [← h.mem, Dict.mem_set]
    exact ⟨fun hx => hx.elim (· ▸ hm) id, .inr⟩
  requestId x rx hx := by
    rw [Dict.get?_set] at hx
    split at hx
    · next e => cases hx; rw [hid, e]
    · exact h.requestId x rx hx
  unfinished x rx hx := by
    rw [Dict.get?_set] at hx
    split at hx
    · cases hx; exact hf
    · exact h.unfinished x rx hx
  status x rx hx := by
    rw [Dict.get?_set] at hx
    split at hx
    · next e => cases hx; rw [hs, e]; exact h.status rid r hr
    · exact h.status x rx hx

/-- Changing stored requests in place through `modify`. -/
lemma WFQ.modify (h : s.WFQ q) (rid : ReqId) (f : Request → Request)
    (hid : ∀ r, (f r).requestId = r.requestId) (hs : ∀ r, (f r).status = r.status) :
    ({ s with requests := s.requests.modify rid f } : Scheduler μ).WFQ q := by
  have back : ∀ x rx, (s.requests.modify rid f).get? x = some rx →
      ∃ r, s.requests.get? x = some r ∧ rx.requestId = r.requestId ∧ rx.status = r.status := by
    intro x rx hx
    rw [Dict.get?_modify] at hx
    split at hx
    · obtain ⟨r, hr, rfl⟩ := Option.map_eq_some_iff.1 hx
      exact ⟨r, hr, hid r, hs r⟩
    · exact ⟨rx, hx, rfl, rfl⟩
  refine ⟨h.nodup, fun x => by rw [Dict.mem_modify]; exact h.mem x, ?_, ?_, ?_⟩
  · intro x rx hx
    obtain ⟨r, hr, he, -⟩ := back x rx hx
    rw [he]; exact h.requestId x r hr
  · intro x rx hx
    obtain ⟨r, hr, -, he⟩ := back x rx hx
    rw [he]; exact h.unfinished x r hr
  · intro x rx hx
    obtain ⟨r, hr, -, he⟩ := back x rx hx
    rw [he]; exact h.status x r hr

/-- Adding a new request behind the queue. -/
lemma WFQ.add (h : s.WFQ q) (hr : r.requestId ∉ s.requests) (hf : r.status.isFinished = false)
    (hs : r.status ≠ .running) :
    ({ s with requests := s.requests.set r.requestId r } : Scheduler μ).WFQ (r.requestId :: q) where
  nodup := by
    have hn : r.requestId ∉ s.running ++ q := fun hm => hr ((h.mem _).2 hm)
    exact (List.perm_middle.nodup_iff).2 (List.nodup_cons.2 ⟨hn, h.nodup⟩)
  mem x := by
    rw [Dict.mem_set, h.mem]
    simp only [List.mem_append, List.mem_cons]
    tauto
  requestId x rx hx := by
    rw [Dict.get?_set] at hx
    split at hx
    · next e => cases hx; exact e.symm
    · exact h.requestId x rx hx
  unfinished x rx hx := by
    rw [Dict.get?_set] at hx
    split at hx
    · cases hx; exact hf
    · exact h.unfinished x rx hx
  status x rx hx := by
    rw [Dict.get?_set] at hx
    split at hx
    · next e =>
      cases hx
      have hn : x ∉ s.running := fun hm => hr (e ▸ (h.mem x).2 (List.mem_append_left _ hm))
      exact ⟨fun he => absurd he hs, fun hm => absurd hm hn⟩
    · exact h.status x rx hx

/-- Dropping a request from the store and from the queues. -/
lemma WFQ.erase (h : s.WFQ q) (hq : (s.running ++ q).Perm (rid :: (s'.running ++ q')))
    (hrun : ∀ x ∈ s'.running, x ∈ s.running) (hrun' : ∀ x ∈ s.running, x ≠ rid → x ∈ s'.running)
    (hreq : s'.requests = s.requests.erase rid) : s'.WFQ q' := by
  have hn : rid ∉ s'.running ++ q' := (List.nodup_cons.1 (hq.nodup_iff.1 h.nodup)).1
  have back : ∀ x rx, s'.requests.get? x = some rx → x ≠ rid ∧ s.requests.get? x = some rx := by
    intro x rx hx
    rw [hreq, Dict.get?_erase] at hx
    split at hx
    · cases hx
    · next e => exact ⟨e, hx⟩
  refine ⟨(List.nodup_cons.1 (hq.nodup_iff.1 h.nodup)).2, ?_, ?_, ?_, ?_⟩
  · intro x
    rw [hreq, Dict.mem_erase, h.mem, hq.mem_iff, List.mem_cons]
    constructor
    · rintro ⟨hne, hx⟩
      exact hx.resolve_left hne
    · intro hx
      exact ⟨fun e => hn (e ▸ hx), .inr hx⟩
  · exact fun x rx hx => h.requestId x rx (back x rx hx).2
  · exact fun x rx hx => h.unfinished x rx (back x rx hx).2
  · intro x rx hx
    obtain ⟨hne, hx⟩ := back x rx hx
    rw [h.status x rx hx]
    exact ⟨fun hm => hrun' x hm hne, hrun x⟩

/-- Moving a request from `running` to the front of the queue or back. -/
lemma WFQ.move (h : s.WFQ q) (hr : s.requests.get? rid = some r) (hid : r'.requestId = rid)
    (hf : r'.status.isFinished = false) (hq : (s.running ++ q).Perm (s'.running ++ q'))
    (hs : r'.status = .running ↔ rid ∈ s'.running)
    (hrun : ∀ x, x ≠ rid → (x ∈ s'.running ↔ x ∈ s.running))
    (hreq : s'.requests = s.requests.set rid r') : s'.WFQ q' where
  nodup := hq.nodup_iff.1 h.nodup
  mem x := by
    have hm : rid ∈ s.requests := Dict.mem_of_get? hr
    rw [hreq, ← hq.mem_iff, ← h.mem, Dict.mem_set]
    exact ⟨fun hx => hx.elim (· ▸ hm) id, .inr⟩
  requestId x rx hx := by
    rw [hreq, Dict.get?_set] at hx
    split at hx
    · next e => cases hx; rw [hid, e]
    · exact h.requestId x rx hx
  unfinished x rx hx := by
    rw [hreq, Dict.get?_set] at hx
    split at hx
    · cases hx; exact hf
    · exact h.unfinished x rx hx
  status x rx hx := by
    rw [hreq, Dict.get?_set] at hx
    split at hx
    · next e => cases hx; rw [hs, e]
    · next e => rw [hrun x e]; exact h.status x rx hx

/-- An eviction report for a client is kept and a new one is added. -/
lemma mem_evictedIds : rid ∈ s.evictedIds ↔
    ∃ c outs o, s.pendingPrunedOutputs.get? c = some outs ∧ o ∈ outs ∧ o.requestId = rid := by
  simp only [evictedIds, List.mem_map, List.mem_flatMap, Dict.values, id]
  constructor
  · rintro ⟨o, ⟨outs, ⟨e, he, rfl⟩, ho⟩, rfl⟩
    exact ⟨e.1, e.2, o, Dict.get?_eq_some.2 he, ho, rfl⟩
  · rintro ⟨c, outs, o, hc, ho, rfl⟩
    exact ⟨o, ⟨outs, ⟨(c, outs), Dict.get?_eq_some.1 hc, rfl⟩, ho⟩, rfl⟩

/-- After appending a report its request is evicted, and so is who was before. -/
lemma mem_evictedIds_append {c : Nat} {o : EngineCoreOutput}
    (h : s'.pendingPrunedOutputs = appendOutput s.pendingPrunedOutputs c o) :
    (rid = o.requestId ∨ rid ∈ s.evictedIds) → rid ∈ s'.evictedIds := by
  rw [mem_evictedIds, mem_evictedIds, h]
  simp only [appendOutput, Dict.get?_set]
  rintro (rfl | ⟨c', outs, o', hc, ho, rfl⟩)
  · exact ⟨c, _, o, if_pos rfl, by simp, rfl⟩
  · by_cases e : c' = c
    · subst e
      refine ⟨c', _, o', if_pos rfl, ?_, rfl⟩
      simp [Dict.getD_eq, hc, ho]
    · exact ⟨c', outs, o', by rw [if_neg e]; exact hc, ho, rfl⟩

/-- What scheduling may do to the requests of `s`. -/
structure Evolves (s s' : Scheduler μ) : Prop where
  back : ∀ rid r', s'.requests.get? rid = some r' →
    ∃ r, s.requests.get? rid = some r ∧ r.Kept r'
  gone : ∀ rid ∈ s.requests, rid ∈ s'.requests ∨ rid ∈ s'.evictedIds
  evicted : ∀ rid ∈ s.evictedIds, rid ∈ s'.evictedIds
  traceScores : s'.traceScores = s.traceScores

lemma Evolves.refl (s : Scheduler μ) : s.Evolves s :=
  ⟨fun _ r' h => ⟨r', h, .refl r'⟩, fun _ h => .inl h, fun _ h => h, rfl⟩

lemma Evolves.trans (h : s.Evolves s') (h' : s'.Evolves s'') : s.Evolves s'' where
  back rid r'' hr := by
    obtain ⟨r', hr', t'⟩ := h'.back rid r'' hr
    obtain ⟨r, hr, t⟩ := h.back rid r' hr'
    exact ⟨r, hr, t.trans t'⟩
  gone rid hm := by
    rcases h.gone rid hm with hm | hm
    · exact h'.gone rid hm
    · exact .inr (h'.evicted rid hm)
  evicted rid hm := h'.evicted rid (h.evicted rid hm)
  traceScores := h'.traceScores.trans h.traceScores

/-- A live request was live before. -/
lemma Evolves.mem (h : s.Evolves s') (hm : rid ∈ s'.requests) : rid ∈ s.requests := by
  obtain ⟨r', hr'⟩ := Dict.mem_iff_get?.1 hm
  obtain ⟨r, hr, -⟩ := h.back rid r' hr'
  exact Dict.mem_of_get? hr

/-- Changes outside of requests, reports and scores do not matter. -/
lemma Evolves.congr (hr : s'.requests = s.requests)
    (hp : s'.pendingPrunedOutputs = s.pendingPrunedOutputs) (hs : s'.traceScores = s.traceScores) :
    s.Evolves s' where
  back rid r' h := ⟨r', hr ▸ h, .refl r'⟩
  gone rid h := .inl (hr ▸ h)
  evicted rid h := by rw [mem_evictedIds, hp, ← mem_evictedIds]; exact h
  traceScores := hs

/-- Replacing a request by one with the same trace. -/
lemma Evolves.set (hr : s.requests.get? rid = some r) (ht : r.Kept r')
    (hreq : s'.requests = s.requests.set rid r')
    (hp : s'.pendingPrunedOutputs = s.pendingPrunedOutputs) (hs : s'.traceScores = s.traceScores) :
    s.Evolves s' where
  back x rx h := by
    rw [hreq, Dict.get?_set] at h
    split at h
    · next e => cases h; exact ⟨r, e ▸ hr, ht⟩
    · exact ⟨rx, h, .refl rx⟩
  gone x h := .inl (by rw [hreq, Dict.mem_set]; exact .inr h)
  evicted x h := by rw [mem_evictedIds, hp, ← mem_evictedIds]; exact h
  traceScores := hs

/-- Replacing through `modify` by requests with the same trace. -/
lemma Evolves.modify {f : Request → Request} (ht : ∀ r : Request, r.Kept (f r))
    (hreq : s'.requests = s.requests.modify rid f)
    (hp : s'.pendingPrunedOutputs = s.pendingPrunedOutputs) (hs : s'.traceScores = s.traceScores) :
    s.Evolves s' where
  back x rx h := by
    rw [hreq, Dict.get?_modify] at h
    split at h
    · obtain ⟨r, hr, rfl⟩ := Option.map_eq_some_iff.1 h
      exact ⟨r, hr, ht r⟩
    · exact ⟨rx, h, .refl rx⟩
  gone x h := .inl (by rw [hreq, Dict.mem_modify]; exact h)
  evicted x h := by rw [mem_evictedIds, hp, ← mem_evictedIds]; exact h
  traceScores := hs

end Scheduler
end Gambit.Sched
