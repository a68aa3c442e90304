import Gambit.Sched.Pass

/-!
# What the scheduler's operations do

One specification per operation of the scheduler, in terms of what it does to the stored requests,
and the proof that it keeps `Scheduler.WF`: `schedule`, `update_from_output`, `add_request`,
`finish_requests`, and the operations that only relabel requests (`mark_stop_reason`,
`update_trace_scores`, `update_draft_token_ids`). Clients use these and do not look at the code of the
operations again.
-/

namespace Gambit.Sched
open Gambit.Lib

namespace Request
variable {r : Request} {n : Nat} {ts : List Token}

/-- A stop check that fails changes nothing. -/
lemma checkStop_of_not_stopped (h : (r.checkStop n).2 = false) : (r.checkStop n).1 = r := by
  unfold checkStop at h ⊢
  split
  · rfl
  · next hmin =>
    rw [if_neg hmin] at h
    cases hl : r.outputTokenIds.getLast? with
    | none => rfl
    | some last =>
      rw [hl] at h
      dsimp only at h ⊢
      split_ifs at h ⊢
      rfl

/-- A request that did not stop accepted all tokens. -/
lemma updateRequestWithOutput_of_not_stopped
    (h : (r.updateRequestWithOutput n ts).2.2 = false) :
    (r.updateRequestWithOutput n ts).1 = { r with outputTokenIds := r.outputTokenIds ++ ts } ∧
      (r.updateRequestWithOutput n ts).2.1 = ts := by
  induction ts generalizing r with
  | nil => simp [updateRequestWithOutput]
  | cons t ts ih =>
    rw [updateRequestWithOutput] at h ⊢
    cases hs : (r.appendOutputTokenId t).checkStop n with
    | mk r' stopped =>
      cases stopped with
      | true => simp [hs] at h
      | false =>
        have hr' : r' = r.appendOutputTokenId t := by
          have := checkStop_of_not_stopped (r := r.appendOutputTokenId t) (n := n) (by rw [hs])
          rw [hs] at this
          exact this
        subst hr'
        simp only [hs] at h ⊢
        obtain ⟨h1, h2⟩ := ih h
        rw [h1, h2]
        simp [appendOutputTokenId]

/-- What accepting tokens never changes. -/
lemma updateRequestWithOutput_frame (r : Request) (n : Nat) (ts : List Token) :
    (r.updateRequestWithOutput n ts).1.requestId = r.requestId ∧
      (r.updateRequestWithOutput n ts).1.clientIndex = r.clientIndex := by
  induction ts generalizing r with
  | nil => exact ⟨rfl, rfl⟩
  | cons t ts ih =>
    have hc : ((r.appendOutputTokenId t).checkStop n).1.requestId = r.requestId ∧
        ((r.appendOutputTokenId t).checkStop n).1.clientIndex = r.clientIndex := by
      unfold checkStop
      split
      · exact ⟨rfl, rfl⟩
      · split
        · exact ⟨rfl, rfl⟩
        · split_ifs <;> exact ⟨rfl, rfl⟩
    rw [updateRequestWithOutput]
    split
    · next r' e => rw [e] at hc; exact hc
    · next r' e =>
      rw [e] at hc
      obtain ⟨h1, h2⟩ := ih r'
      exact ⟨h1.trans hc.1, h2.trans hc.2⟩

end Request

namespace Scheduler
variable {μ β : Type} {ops : Caches μ β} {cfg : VllmConfig} {s s' : Scheduler μ}
variable {rid x : ReqId} {r r' : Request}

/-- What `_update_after_schedule` does to a scheduled request. -/
lemma get?_advance (ops : Caches μ β) (s : Scheduler μ) (e : ReqId × Int) (x : ReqId) :
    (advance ops s e).requests.get? x =
      if x = e.1 then
        (s.requests.get? x).map (·.advance e.2)
      else s.requests.get? x := by
  unfold advance
  split
  · next h =>
    split
    · next hx => rw [hx, h]; rfl
    · rfl
  · next r h =>
    dsimp only
    rw [Dict.get?_set]
    split
    · next hx => rw [hx, h]; rfl
    · rfl

/-- What `_update_after_schedule` does not touch. -/
lemma advance_frame (ops : Caches μ β) (s : Scheduler μ) (e : ReqId × Int) :
    (advance ops s e).running = s.running ∧ (advance ops s e).waiting = s.waiting ∧
      (advance ops s e).pendingPrunedOutputs = s.pendingPrunedOutputs ∧
      (advance ops s e).traceScores = s.traceScores := by
  unfold advance
  split <;> exact ⟨rfl, rfl, rfl, rfl⟩

/-- Advancing one request keeps the invariant. -/
lemma WF.advance (ops : Caches μ β) (h : s.WF) (e : ReqId × Int) : (s.advance ops e).WF := by
  obtain ⟨hrun, hwait, -, -⟩ := advance_frame ops s e
  rw [WF, hwait]
  unfold Scheduler.advance
  split
  · exact h
  · next r hr =>
    have hid : (r.advance e.2).requestId = e.1 := h.requestId _ r hr
    exact (h.set hr hid (h.unfinished _ r hr) Iff.rfl).congr rfl rfl

/-- Advancing one request keeps its trace. -/
lemma Evolves.advance (s : Scheduler μ) (e : ReqId × Int) : s.Evolves (s.advance ops e) := by
  unfold Scheduler.advance
  split
  · exact .refl s
  · next r hr =>
    have hk : r.Kept (r.advance e.2) := ⟨⟨rfl, rfl, rfl, rfl, rfl, rfl, rfl, rfl⟩, .inl rfl⟩
    exact .set hr hk rfl rfl rfl

/-- Advancing the scheduled requests: invariant, traces, and the computed tokens of each. -/
lemma foldl_advance (ops : Caches μ β) (l : List (ReqId × Int)) (nd : (l.map Prod.fst).Nodup) (h : s.WF) :
    (l.foldl (Scheduler.advance ops) s).WF ∧ s.Evolves (l.foldl (Scheduler.advance ops) s) ∧
      ∀ x r, s.requests.get? x = some r →
        ((∃ c, (x, c) ∈ l ∧ (l.foldl (Scheduler.advance ops) s).requests.get? x =
            some (r.advance c)) ∨
          (x ∉ l.map Prod.fst ∧ (l.foldl (Scheduler.advance ops) s).requests.get? x = some r)) := by
  induction l generalizing s with
  | nil => exact ⟨h, .refl s, fun x r hr => .inr ⟨by simp, hr⟩⟩
  | cons e l ih =>
    obtain ⟨hn, nd⟩ := List.nodup_cons.1 nd
    obtain ⟨h1, h2, h3⟩ := ih nd (h.advance ops e)
    refine ⟨h1, (Evolves.advance s e).trans h2, fun x r hr => ?_⟩
    have hx := get?_advance ops s e x
    rw [hr] at hx
    by_cases hxe : x = e.1
    · rw [if_pos hxe] at hx
      rcases h3 x _ hx with ⟨c, hc, -⟩ | ⟨-, he⟩
      · exact absurd (hxe ▸ List.mem_map_of_mem (f := Prod.fst) hc) hn
      · exact .inl ⟨e.2, by rw [hxe]; exact List.mem_cons_self, he⟩
    · rw [if_neg hxe] at hx
      rcases h3 x r hx with ⟨c, hc, he⟩ | ⟨hc, he⟩
      · exact .inl ⟨c, .tail _ hc, he⟩
      · refine .inr ⟨?_, he⟩
        rw [List.map_cons, List.mem_cons]
        exact fun hm => hm.elim hxe hc

/-- The specification of `schedule`. -/
structure ScheduleSpec (ops : Caches μ β) (cfg : VllmConfig) (s : Scheduler μ) (s' : Scheduler μ)
    (so : SchedulerOutput β) : Prop where
  wf : s'.WF
  evolves : s.Evolves s'
  scheduled : ∀ rid ∈ so.numScheduledTokens, rid ∈ s.requests
  finishedReqIds : s'.finishedReqIds = []
  /-- Under GAMBIT nothing that is scheduled is evicted. -/
  live : cfg.policy = .gambit → ∀ rid ∈ so.numScheduledTokens, rid ∈ s'.requests
  /-- Under GAMBIT the computed tokens grow at least by what was scheduled. -/
  computed : cfg.policy = .gambit → ∀ rid r r', s.requests.get? rid = some r →
    s'.requests.get? rid = some r' →
    r.numComputedTokens + so.numScheduledTokens.getD rid 0 ≤ r'.numComputedTokens
  /-- Under GAMBIT no scheduled request computes more tokens than it has. -/
  count : cfg.policy = .gambit → ops.EncoderShrinks → ∀ rid r r', s.requests.get? rid = some r →
    s'.requests.get? rid = some r' → rid ∈ so.numScheduledTokens →
    r'.numComputedTokens ≤ r.numTokensWithSpec

/-- `schedule` meets its specification. -/
theorem WF.schedule (ready : ReqId → Bool) (h : s.WF) :
    ScheduleSpec ops cfg s (s.schedule ops cfg ready).1 (s.schedule ops cfg ready).2 := by
  have hp : (s.schedulePass ops cfg ready).InvW ops cfg s := h.schedulePass ready
  have hrun : cfg.policy = .gambit → (s.schedulePass ops cfg ready).ScheduledRun :=
    fun hg => schedulePass_scheduledRun hg ready s
  have hadv := foldl_advance ops (s.schedulePass ops cfg ready).numScheduledTokens.entries
    (s.schedulePass ops cfg ready).numScheduledTokens.nodup hp.wf
  unfold Scheduler.schedule
  generalize s.schedulePass ops cfg ready = p at hp hrun hadv ⊢
  obtain ⟨hwf, hev, hget⟩ := hadv
  -- a survivor comes from a request of the pass, which comes from a request of `s`
  have key : ∀ rid r r', s.requests.get? rid = some r →
      (updateAfterSchedule ops p).requests.get? rid = some r' →
      ∃ r1, p.sched.requests.get? rid = some r1 ∧
        ((∃ c, p.numScheduledTokens.get? rid = some c ∧
            r'.numComputedTokens = r1.numComputedTokens + c) ∨
          (p.numScheduledTokens.get? rid = none ∧ r'.numComputedTokens = r1.numComputedTokens)) := by
    intro rid r r' hr hr'
    obtain ⟨r1, hr1, -⟩ := hev.back rid r' hr'
    refine ⟨r1, hr1, ?_⟩
    have hr'' : (p.numScheduledTokens.entries.foldl (Scheduler.advance ops) p.sched).requests.get?
        rid = some r' := hr'
    rcases hget rid r1 hr1 with ⟨c, hc, he⟩ | ⟨hc, he⟩
    · rw [hr''] at he
      cases he
      exact .inl ⟨c, Dict.get?_eq_some.2 hc, rfl⟩
    · rw [hr''] at he
      cases he
      exact .inr ⟨Dict.get?_eq_none.2 hc, rfl⟩
  refine ⟨hwf.congr rfl rfl, hp.evolves.trans (hev.trans (.congr rfl rfl rfl)), hp.scheduled, rfl,
    ?_, ?_, ?_⟩
  · intro hg rid hrid
    have hm : rid ∈ p.sched.requests := (hp.wf.mem rid).2 (List.mem_append_left _ (hrun hg rid hrid))
    obtain ⟨r, hr⟩ := Dict.mem_iff_get?.1 hm
    rcases hget rid r hr with ⟨c, -, he⟩ | ⟨-, he⟩ <;> exact Dict.mem_of_get? he
  · intro hg rid r r' hr hr'
    obtain ⟨r1, hr1, hc⟩ := key rid r r' hr hr'
    have hle := hp.computed hg rid r r1 hr hr1
    rcases hc with ⟨c, hc, e⟩ | ⟨hc, e⟩
    · simp only [passOutput, Dict.getD_eq, hc, Option.getD_some]
      omega
    · simp only [passOutput, Dict.getD_eq, hc, Option.getD_none]
      omega
  · intro hg he rid r r' hr hr' hm
    obtain ⟨r1, hr1, hc⟩ := key rid r r' hr hr'
    rcases hc with ⟨c, hc, e⟩ | ⟨hc, -⟩
    · have := hp.count hg he rid r r1 c hr hr1 hc
      omega
    · exact absurd hm (Dict.get?_eq_none.1 hc)

/-- What `update_from_output` makes of one scheduled request: the request, the accepted tokens and
whether it stopped. -/
def accept (cfg : VllmConfig) (so : SchedulerOutput β) (mo : ModelRunnerOutput) (rid : ReqId)
    (r : Request) : Request × List Token × Bool :=
  (rejectDrafts so r (mo.getD rid [])).updateRequestWithOutput cfg.scheduler.maxModelLen
    (mo.getD rid [])

/-- Rejecting drafts changes the computed tokens only. -/
lemma rejectDrafts_eq (so : SchedulerOutput β) (r : Request) (ts : List Token) :
    ∃ n, rejectDrafts so r ts = { r with numComputedTokens := n } := by
  unfold rejectDrafts
  dsimp only
  split
  · exact ⟨r.numComputedTokens, rfl⟩
  · exact ⟨_, rfl⟩

/-- What accepting tokens never changes. -/
lemma accept_frame (so : SchedulerOutput β) (mo : ModelRunnerOutput) (rid : ReqId) (r : Request) :
    (accept cfg so mo rid r).1.requestId = r.requestId ∧
      (accept cfg so mo rid r).1.clientIndex = r.clientIndex := by
  obtain ⟨n, hn⟩ := rejectDrafts_eq so r (mo.getD rid [])
  have := Request.updateRequestWithOutput_frame (rejectDrafts so r (mo.getD rid []))
    cfg.scheduler.maxModelLen (mo.getD rid [])
  rw [accept]
  rw [hn] at this ⊢
  exact this

/-- A request that goes on got all its tokens and nothing else changed but the computed tokens. -/
lemma accept_of_not_stopped {so : SchedulerOutput β} {mo : ModelRunnerOutput}
    (h : (accept cfg so mo rid r).2.2 = false) :
    ∃ n, (accept cfg so mo rid r).1 =
      { r with numComputedTokens := n, outputTokenIds := r.outputTokenIds ++ mo.getD rid [] } := by
  obtain ⟨n, hn⟩ := rejectDrafts_eq so r (mo.getD rid [])
  rw [accept] at h ⊢
  rw [hn] at h ⊢
  exact ⟨n, (Request.updateRequestWithOutput_of_not_stopped h).1⟩

/-- What is left of a request after `update_from_output`, `none` when it stopped. -/
def outcome (cfg : VllmConfig) (so : SchedulerOutput β) (mo : ModelRunnerOutput) (rid : ReqId)
    (r : Request) : Option Request :=
  if (accept cfg so mo rid r).2.2 then none else some (accept cfg so mo rid r).1

/-- The progress of the loop of `update_from_output` from `s`, after the requests of `done`. -/
structure UpdateInv (cfg : VllmConfig) (so : SchedulerOutput β) (mo : ModelRunnerOutput)
    (s : Scheduler μ) (done : List ReqId) (p : UpdatePass μ) : Prop where
  requests : ∀ x, p.sched.requests.get? x =
    if x ∈ done then (s.requests.get? x).bind (outcome cfg so mo x) else s.requests.get? x
  running : p.sched.running = s.running
  waiting : p.sched.waiting = s.waiting
  traceScores : p.sched.traceScores = s.traceScores
  finished : ∀ x, x ∈ p.sched.finishedReqIds ↔ x ∈ s.finishedReqIds ∨
    x ∈ done ∧ ∃ r, s.requests.get? x = some r ∧ outcome cfg so mo x r = none
  stoppedRunning : ∀ x, x ∈ p.stoppedRunningReqs ↔
    x ∈ done ∧ ∃ r, s.requests.get? x = some r ∧ outcome cfg so mo x r = none ∧ r.status = .running
  stoppedPreempted : ∀ x, x ∈ p.stoppedPreemptedReqs ↔
    x ∈ done ∧ ∃ r, s.requests.get? x = some r ∧ outcome cfg so mo x r = none ∧ r.status ≠ .running

/-- One iteration of the loop of `update_from_output`. -/
lemma UpdateInv.step (ops : Caches μ β) {so : SchedulerOutput β} {mo : ModelRunnerOutput} {done : List ReqId}
    {p : UpdatePass μ} (finals : Dict ReqId (Option ℚ)) (histories : Option (Dict ReqId (List ℚ)))
    (hid : ∀ x r, s.requests.get? x = some r → r.requestId = x)
    (h : UpdateInv cfg so mo s done p) (hn : rid ∉ done) :
    UpdateInv cfg so mo s (done ++ [rid]) (updateRequest ops cfg so mo finals histories p rid) := by
  have hget : p.sched.requests.get? rid = s.requests.get? rid := by rw [h.requests, if_neg hn]
  unfold updateRequest
  cases hr : s.requests.get? rid with
  | none =>
    rw [hget, hr]
    dsimp only
    refine ⟨fun x => ?_, h.running, h.waiting, h.traceScores, fun x => ?_, fun x => ?_, fun x => ?_⟩
    · rw [h.requests]
      by_cases hx : x = rid
      · subst hx; simp [hr]
      · simp [hx]
    all_goals
      first | rw [h.finished] | rw [h.stoppedRunning] | rw [h.stoppedPreempted]
      by_cases hx : x = rid
      · subst hx; simp [hr, hn]
      · simp [hx]
  | some r =>
    rw [hget, hr]
    dsimp only
    obtain ⟨n, hrej⟩ := rejectDrafts_eq so r (mo.getD rid [])
    have hstat : (rejectDrafts so r (mo.getD rid [])).status = r.status := by rw [hrej]
    have hacc : (rejectDrafts so r (mo.getD rid [])).updateRequestWithOutput
        cfg.scheduler.maxModelLen (mo.getD rid []) = accept cfg so mo rid r := rfl
    have hfr : (accept cfg so mo rid r).1.requestId = rid :=
      (accept_frame so mo rid r).1.trans (hid rid r hr)
    rw [hacc, hstat]
    have hout : outcome cfg so mo rid r =
        if (accept cfg so mo rid r).2.2 then none else some (accept cfg so mo rid r).1 := rfl
    generalize accept cfg so mo rid r = a at hfr hout
    obtain ⟨r', ts, stopped⟩ := a
    dsimp only at hfr hout ⊢
    cases stopped with
    | false =>
      simp only [Bool.false_eq_true, if_false] at hout ⊢
      refine ⟨fun x => ?_, h.running, h.waiting, h.traceScores, fun x => ?_, fun x => ?_,
        fun x => ?_⟩
      · rw [Dict.get?_set, h.requests]
        by_cases hx : x = rid
        · subst hx; simp [hr, hout]
        · simp [hx]
      all_goals
        first | rw [h.finished] | rw [h.stoppedRunning] | rw [h.stoppedPreempted]
        by_cases hx : x = rid
        · subst hx; simp [hr, hn, hout]
        · simp [hx]
    | true =>
      simp only [if_true] at hout ⊢
      split
      all_goals
        next hrun =>
        refine ⟨fun x => ?_, h.running, h.waiting, h.traceScores, fun x => ?_, fun x => ?_,
          fun x => ?_⟩
        · simp only [freeRequest, Dict.get?_erase, Dict.get?_set, hfr]
          by_cases hx : x = rid
          · subst hx; simp [hr, hout]
          · simp [hx, h.requests]
        · simp only [freeRequest, List.mem_insert_iff, hfr]
          rw [h.finished]
          by_cases hx : x = rid
          · subst hx; simp [hr, hn, hout]
          · simp [hx]
        · simp only [List.mem_append, List.mem_singleton, h.stoppedRunning]
          by_cases hx : x = rid
          · subst hx; simp [hr, hn, hout, hrun]
          · simp [hx]
        · simp only [List.mem_append, List.mem_singleton, h.stoppedPreempted]
          by_cases hx : x = rid
          · subst hx; simp [hr, hn, hout, hrun]
          · simp [hx]

/-- The loop of `update_from_output`. -/
lemma UpdateInv.foldl (ops : Caches μ β) {so : SchedulerOutput β} {mo : ModelRunnerOutput} {done l : List ReqId}
    {p : UpdatePass μ} (finals : Dict ReqId (Option ℚ)) (histories : Option (Dict ReqId (List ℚ)))
    (hid : ∀ x r, s.requests.get? x = some r → r.requestId = x)
    (h : UpdateInv cfg so mo s done p) (nd : (done ++ l).Nodup) :
    UpdateInv cfg so mo s (done ++ l)
      (l.foldl (updateRequest ops cfg so mo finals histories) p) := by
  induction l generalizing done p with
  | nil => simpa using h
  | cons x xs ih =>
    have hx : x ∉ done := fun hm => List.disjoint_of_nodup_append nd hm List.mem_cons_self
    have hstep := h.step ops finals histories hid hx
    have nd' : (done ++ [x] ++ xs).Nodup := by simpa using nd
    simpa using ih hstep nd'

/-- Membership after `remove_all`. -/
lemma mem_removeAll {l items : List ReqId} (nd : l.Nodup) :
    x ∈ removeAll l items ↔ x ∈ l ∧ x ∉ items := by
  unfold removeAll
  split
  · simp
  · rw [nd.mem_erase_iff]
    simp [and_comm]
  · simp

lemma removeAll_sublist (l items : List ReqId) : (removeAll l items).Sublist l := by
  unfold removeAll
  split
  · exact .refl l
  · exact List.erase_sublist
  · exact List.filter_sublist

/-- The specification of `update_from_output`. -/
structure UpdateSpec (cfg : VllmConfig) (so : SchedulerOutput β) (mo : ModelRunnerOutput)
    (s s' : Scheduler μ) : Prop where
  wf : s'.WF
  requests : ∀ x, s'.requests.get? x =
    if x ∈ so.numScheduledTokens then (s.requests.get? x).bind (outcome cfg so mo x)
    else s.requests.get? x
  traceScores : s'.traceScores = s.traceScores
  finished : ∀ x, x ∈ s'.finishedReqIds ↔ x ∈ s.finishedReqIds ∨
    x ∈ so.numScheduledTokens ∧ ∃ r, s.requests.get? x = some r ∧ outcome cfg so mo x r = none
  pendingPrunedOutputs : s'.pendingPrunedOutputs = ∅

/-- `update_from_output` meets its specification. -/
theorem WF.updateFromOutput (h : s.WF) (so : SchedulerOutput β) (mo : ModelRunnerOutput)
    (finals : Dict ReqId (Option ℚ)) (histories : Option (Dict ReqId (List ℚ))) :
    UpdateSpec cfg so mo s (s.updateFromOutput ops cfg so mo finals histories).1 := by
  have hinit : UpdateInv cfg so mo s [] { sched := s } := by constructor <;> simp
  have hinv := hinit.foldl ops finals histories h.requestId
    (l := so.numScheduledTokens.keys) (by simpa using so.numScheduledTokens.keys_nodup)
  rw [List.nil_append] at hinv
  unfold Scheduler.updateFromOutput
  dsimp only
  generalize so.numScheduledTokens.keys.foldl (updateRequest ops cfg so mo finals histories)
    { sched := s } = p at hinv ⊢
  have ndr : p.sched.running.Nodup := hinv.running ▸ h.nodup.of_append_left
  have hsub : ((removeAll p.sched.running p.stoppedRunningReqs) ++
      p.sched.waiting.filter (· ∉ p.stoppedPreemptedReqs)).Sublist (s.running ++ s.waiting) := by
    rw [hinv.running, hinv.waiting]
    exact (removeAll_sublist _ _).append List.filter_sublist
  -- a request that is still stored kept its id and its status
  have back : ∀ x rx, p.sched.requests.get? x = some rx → ∃ r, s.requests.get? x = some r ∧
      rx.requestId = r.requestId ∧ rx.status = r.status ∧
      (x ∈ so.numScheduledTokens.keys → outcome cfg so mo x r ≠ none) := by
    intro x rx hx
    rw [hinv.requests] at hx
    split at hx
    · obtain ⟨r, hr, ho⟩ := Option.bind_eq_some_iff.1 hx
      refine ⟨r, hr, ?_⟩
      have ho' := ho
      unfold outcome at ho'
      split at ho'
      · cases ho'
      · next hs =>
        cases ho'
        obtain ⟨n, hn⟩ := accept_of_not_stopped (by simpa using hs)
        exact ⟨by rw [hn], by rw [hn], fun _ => by rw [ho]; simp⟩
    · next hm => exact ⟨rx, hx, rfl, rfl, fun hm' => absurd hm' hm⟩
  have hmem : ∀ x, x ∈ p.sched.requests ↔
      x ∈ removeAll p.sched.running p.stoppedRunningReqs ++
        p.sched.waiting.filter (· ∉ p.stoppedPreemptedReqs) := by
    intro x
    rw [List.mem_append, mem_removeAll ndr, List.mem_filter, hinv.running, hinv.waiting]
    simp only [decide_eq_true_eq]
    constructor
    · intro hx
      obtain ⟨rx, hrx⟩ := Dict.mem_iff_get?.1 hx
      obtain ⟨r, hr, -, -, ho⟩ := back x rx hrx
      have hnr : x ∉ p.stoppedRunningReqs := by
        intro hm
        obtain ⟨hk, r1, hr1, ho1, -⟩ := (hinv.stoppedRunning x).1 hm
        rw [hr] at hr1
        cases hr1
        exact ho hk ho1
      have hnp : x ∉ p.stoppedPreemptedReqs := by
        intro hm
        obtain ⟨hk, r1, hr1, ho1, -⟩ := (hinv.stoppedPreempted x).1 hm
        rw [hr] at hr1
        cases hr1
        exact ho hk ho1
      rcases List.mem_append.1 ((h.mem x).1 (Dict.mem_of_get? hr)) with hq | hq
      · exact .inl ⟨hq, hnr⟩
      · exact .inr ⟨hq, hnp⟩
    · intro hx
      have hq : x ∈ s.requests := (h.mem x).2 (List.mem_append.2 (hx.imp And.left And.left))
      obtain ⟨r, hr⟩ := Dict.mem_iff_get?.1 hq
      rw [Dict.mem_iff_get?, hinv.requests]
      split
      · next hk =>
        cases ho : outcome cfg so mo x r with
        | some r' => exact ⟨r', by rw [hr]; exact ho⟩
        | none =>
          exfalso
          rcases hx with ⟨hq, hn⟩ | ⟨hq, hn⟩
          · exact hn ((hinv.stoppedRunning x).2 ⟨hk, r, hr, ho, (h.status x r hr).2 hq⟩)
          · refine hn ((hinv.stoppedPreempted x).2 ⟨hk, r, hr, ho, fun hs => ?_⟩)
            exact List.disjoint_of_nodup_append h.nodup ((h.status x r hr).1 hs) hq
      · exact ⟨r, hr⟩
  refine ⟨⟨hsub.nodup h.nodup, hmem, ?_, ?_, ?_⟩,
    fun x => (hinv.requests x).trans (if_congr Iff.rfl rfl rfl), hinv.traceScores, hinv.finished, rfl⟩
  · intro x rx hx
    obtain ⟨r, hr, he, -⟩ := back x rx hx
    rw [he]; exact h.requestId x r hr
  · intro x rx hx
    obtain ⟨r, hr, -, he, -⟩ := back x rx hx
    rw [he]; exact h.unfinished x r hr
  · intro x rx hx
    obtain ⟨r, hr, -, he, ho⟩ := back x rx hx
    rw [he, h.status x r hr, mem_removeAll ndr, hinv.running]
    refine ⟨fun hm => ⟨hm, fun hst => ?_⟩, And.left⟩
    obtain ⟨hk, r1, hr1, ho1, -⟩ := (hinv.stoppedRunning x).1 hst
    rw [hr] at hr1
    cases hr1
    exact ho hk ho1

lemma get?_addRequest (s : Scheduler μ) (policy : SchedulingPolicy) (r : Request) (x : ReqId) :
    (s.addRequest policy r).requests.get? x =
      if x = r.requestId then some r else s.requests.get? x :=
  Dict.get?_set ..

lemma mem_addRequest {policy : SchedulingPolicy} :
    x ∈ (s.addRequest policy r).requests ↔ x = r.requestId ∨ x ∈ s.requests :=
  Dict.mem_set

/-- Adding a request under a new id keeps the invariant. -/
lemma WF.addRequest (policy : SchedulingPolicy) (h : s.WF) (hr : r.requestId ∉ s.requests)
    (hs : r.status = Request.initialStatus r.samplingParams) : (s.addRequest policy r).WF := by
  have hf : r.status.isFinished = false ∧ r.status ≠ .running := by
    rw [hs, Request.initialStatus]
    split <;> simp [RequestStatus.isFinished]
  exact ((h.add hr hf.1 hf.2).perm (queueAdd_perm ..).symm).congr rfl rfl

/-- What is left of the requests after `finish_requests`. -/
structure FinishSpec (rids : List ReqId) (s s' : Scheduler μ) : Prop where
  wf : s'.WF
  requests : ∀ x, s'.requests.get? x = if x ∈ rids then none else s.requests.get? x
  traceScores : s'.traceScores = s.traceScores
  pendingPrunedOutputs : s'.pendingPrunedOutputs = s.pendingPrunedOutputs

/-- Finishing adds no request. -/
lemma FinishSpec.mem {rids : List ReqId} (h : FinishSpec rids s s') (hx : x ∈ s'.requests) :
    x ∈ s.requests := by
  obtain ⟨r, hr⟩ := Dict.mem_iff_get?.1 hx
  rw [h.requests] at hr
  split at hr
  · cases hr
  · exact Dict.mem_of_get? hr

/-- Freeing the requests of a list, one by one. -/
lemma foldl_finishRequest (ops : Caches μ β) (status : RequestStatus) (l : List ReqId)
    (hid : ∀ x r, s.requests.get? x = some r → r.requestId = x) :
    (∀ x, (l.foldl (finishRequest ops status) s).requests.get? x =
        if x ∈ l then none else s.requests.get? x) ∧
      (l.foldl (finishRequest ops status) s).running = s.running ∧
      (l.foldl (finishRequest ops status) s).waiting = s.waiting ∧
      (l.foldl (finishRequest ops status) s).traceScores = s.traceScores ∧
      (l.foldl (finishRequest ops status) s).pendingPrunedOutputs = s.pendingPrunedOutputs := by
  induction l generalizing s with
  | nil => simp
  | cons y l ih =>
    have hstep : (∀ x, (finishRequest ops status s y).requests.get? x =
        if x = y then none else s.requests.get? x) ∧
        (finishRequest ops status s y).running = s.running ∧
        (finishRequest ops status s y).waiting = s.waiting ∧
        (finishRequest ops status s y).traceScores = s.traceScores ∧
        (finishRequest ops status s y).pendingPrunedOutputs = s.pendingPrunedOutputs := by
      unfold finishRequest
      cases hy : s.requests.get? y with
      | none =>
        refine ⟨fun x => ?_, rfl, rfl, rfl, rfl⟩
        by_cases e : x = y
        · rw [if_pos e, e]; exact hy
        · rw [if_neg e]
      | some r =>
        refine ⟨fun x => ?_, rfl, rfl, rfl, rfl⟩
        simp only [freeRequest, Dict.get?_erase, hid y r hy]
    obtain ⟨h1, h2, h3, h4, h5⟩ := hstep
    have hid' : ∀ x r, (finishRequest ops status s y).requests.get? x = some r →
        r.requestId = x := by
      intro x r hx
      rw [h1] at hx
      split at hx
      · cases hx
      · exact hid x r hx
    obtain ⟨g1, g2, g3, g4, g5⟩ := ih hid'
    refine ⟨fun x => ?_, g2.trans h2, g3.trans h3, g4.trans h4, g5.trans h5⟩
    rw [List.foldl_cons, g1, h1]
    simp only [List.mem_cons]
    split_ifs <;> simp_all

/-- `finish_requests` meets its specification. -/
theorem WF.finishRequests (ops : Caches μ β) (h : s.WF) (rids : List ReqId)
    (status : RequestStatus) : FinishSpec rids s (s.finishRequests ops rids status) := by
  -- the valid ids are the live ones
  obtain ⟨valid, hvalid, hdef⟩ : ∃ valid : List ReqId, (∀ x, x ∈ valid ↔ x ∈ rids ∧ x ∈ s.requests) ∧
      s.finishRequests ops rids status = valid.foldl (finishRequest ops status) { s with
        running := removeAll s.running
          (valid.filter fun rid => (s.requests.get? rid).any (·.status = .running))
        waiting := s.waiting.filter
          (· ∉ valid.filter fun rid => !(s.requests.get? rid).any (·.status = .running)) } := by
    refine ⟨_, fun x => ?_, rfl⟩
    rw [List.mem_filter, List.mem_dedup, Dict.mem_iff_get?]
    refine and_congr_right fun _ => ?_
    cases hx : s.requests.get? x with
    | none => simp
    | some r => simp [h.unfinished x r hx]
  rw [hdef]
  have hrunning : ∀ x, x ∈ s.requests →
      ((s.requests.get? x).any (·.status = .running) = true ↔ x ∈ s.running) := by
    intro x hx
    obtain ⟨r, hr⟩ := Dict.mem_iff_get?.1 hx
    rw [hr, ← h.status x r hr]
    simp
  generalize hs1 : ({ s with
    running := removeAll s.running
      (valid.filter fun rid => (s.requests.get? rid).any (·.status = .running))
    waiting := s.waiting.filter
      (· ∉ valid.filter fun rid => !(s.requests.get? rid).any (·.status = .running)) } :
        Scheduler μ) = s1
  have hreq : s1.requests = s.requests := by rw [← hs1]
  obtain ⟨h1, h2, h3, h4, h5⟩ :=
    foldl_finishRequest (s := s1) ops status valid (by rw [hreq]; exact h.requestId)
  have hget : ∀ x, (valid.foldl (finishRequest ops status) s1).requests.get? x =
      if x ∈ rids then none else s.requests.get? x := by
    intro x
    rw [h1, hreq]
    by_cases hx : x ∈ s.requests
    · simp [hvalid, hx]
    · simp [Dict.get?_eq_none.2 hx]
  have ndr : s.running.Nodup := h.nodup.of_append_left
  have hrun : ∀ x, x ∈ s1.running ↔ x ∈ s.running ∧ x ∉ rids := by
    intro x
    rw [← hs1]
    dsimp only
    rw [mem_removeAll ndr, List.mem_filter, hvalid]
    refine and_congr_right fun hx => not_congr ?_
    have hm : x ∈ s.requests := (h.mem x).2 (List.mem_append_left _ hx)
    simp [hm, (hrunning x hm).2 hx]
  have hwait : ∀ x, x ∈ s1.waiting ↔ x ∈ s.waiting ∧ x ∉ rids := by
    intro x
    rw [← hs1]
    dsimp only
    rw [List.mem_filter]
    refine and_congr_right fun hx => ?_
    have hm : x ∈ s.requests := (h.mem x).2 (List.mem_append_right _ hx)
    have hn : x ∉ s.running := fun hr => List.disjoint_of_nodup_append h.nodup hr hx
    have hb : (s.requests.get? x).any (·.status = .running) = false := by
      rw [← Bool.not_eq_true, hrunning x hm]
      exact hn
    simp [hvalid, hm, hb]
  have back : ∀ x rx, (valid.foldl (finishRequest ops status) s1).requests.get? x = some rx →
      x ∉ rids ∧ s.requests.get? x = some rx := by
    intro x rx hx
    rw [hget] at hx
    split at hx
    · cases hx
    · next hn => exact ⟨hn, hx⟩
  refine ⟨⟨?_, ?_, ?_, ?_, ?_⟩, hget, h4.trans (by rw [← hs1]), h5.trans (by rw [← hs1])⟩
  · rw [h2, h3, ← hs1]
    exact ((removeAll_sublist _ _).append List.filter_sublist).nodup h.nodup
  · intro x
    rw [h2, h3, List.mem_append, hrun, hwait, Dict.mem_iff_get?, hget]
    by_cases hx : x ∈ rids
    · simp [hx]
    · rw [if_neg hx, ← Dict.mem_iff_get?, h.mem, List.mem_append]
      simp [hx]
  · exact fun x rx hx => h.requestId x rx (back x rx hx).2
  · exact fun x rx hx => h.unfinished x rx (back x rx hx).2
  · intro x rx hx
    obtain ⟨hn, hx⟩ := back x rx hx
    rw [h2, hrun, h.status x rx hx]
    simp [hn]

/-- What an operation that only relabels requests leaves alone. -/
structure Relabels (s s' : Scheduler μ) : Prop where
  requests : ∀ x, Option.Rel (fun r r' : Request => r.SameTrace r' ∧ r'.status = r.status ∧
    r'.numComputedTokens = r.numComputedTokens) (s.requests.get? x) (s'.requests.get? x)
  running : s'.running = s.running
  waiting : s'.waiting = s.waiting
  finishedReqIds : s'.finishedReqIds = s.finishedReqIds
  pendingPrunedOutputs : s'.pendingPrunedOutputs = s.pendingPrunedOutputs

/-- A relabelled request and the one before have the same trace. -/
lemma Relabels.back (h : s.Relabels s') (hx : s'.requests.get? x = some r') :
    ∃ r, s.requests.get? x = some r ∧ r.SameTrace r' ∧ r'.status = r.status ∧
      r'.numComputedTokens = r.numComputedTokens := by
  have hrel := h.requests x
  rw [hx] at hrel
  generalize s.requests.get? x = o at hrel
  cases hrel with
  | some hr => exact ⟨_, rfl, hr⟩

/-- A live request is relabelled and keeps its trace. -/
lemma Relabels.forth (h : s.Relabels s') (hx : s.requests.get? x = some r) :
    ∃ r', s'.requests.get? x = some r' ∧ r.SameTrace r' := by
  have hrel := h.requests x
  rw [hx] at hrel
  generalize s'.requests.get? x = o at hrel
  cases hrel with
  | some hr => exact ⟨_, rfl, hr.1⟩

/-- Relabelling keeps the set of live requests. -/
lemma Relabels.mem (h : s.Relabels s') : x ∈ s'.requests ↔ x ∈ s.requests := by
  have hrel := h.requests x
  rw [Dict.mem_iff_get?, Dict.mem_iff_get?]
  generalize s.requests.get? x = o at hrel
  generalize s'.requests.get? x = o' at hrel
  cases hrel <;> simp

/-- Changing nothing relabels nothing. -/
lemma Relabels.refl (s : Scheduler μ) : s.Relabels s where
  requests x := by
    cases s.requests.get? x with
    | none => exact .none
    | some r => exact .some ⟨.refl r, rfl, rfl⟩
  running := rfl
  waiting := rfl
  finishedReqIds := rfl
  pendingPrunedOutputs := rfl

/-- Relabelling twice is relabelling. -/
lemma Relabels.trans {s'' : Scheduler μ} (h : s.Relabels s') (h' : s'.Relabels s'') :
    s.Relabels s'' where
  requests x := by
    have h1 := h.requests x
    have h2 := h'.requests x
    generalize s.requests.get? x = o at h1
    generalize s'.requests.get? x = o' at h1 h2
    generalize s''.requests.get? x = o'' at h2
    cases h1 with
    | none => exact h2
    | some hr =>
      cases h2 with
      | some hr' =>
        exact .some ⟨hr.1.trans hr'.1, hr'.2.1.trans hr.2.1, hr'.2.2.trans hr.2.2⟩
  running := h'.running.trans h.running
  waiting := h'.waiting.trans h.waiting
  finishedReqIds := h'.finishedReqIds.trans h.finishedReqIds
  pendingPrunedOutputs := h'.pendingPrunedOutputs.trans h.pendingPrunedOutputs

/-- Relabelling keeps the invariant. -/
lemma Relabels.wf (h : s.Relabels s') (hwf : s.WF) : s'.WF where
  nodup := by rw [h.running, h.waiting]; exact hwf.nodup
  mem x := by rw [h.mem, h.running, h.waiting]; exact hwf.mem x
  requestId x r' hx := by
    obtain ⟨r, hr, ht, -⟩ := h.back hx
    rw [ht.requestId]; exact hwf.requestId x r hr
  unfinished x r' hx := by
    obtain ⟨r, hr, -, hs, -⟩ := h.back hx
    rw [hs]; exact hwf.unfinished x r hr
  status x r' hx := by
    obtain ⟨r, hr, -, hs, -⟩ := h.back hx
    rw [hs, h.running]; exact hwf.status x r hr

/-- A fold of in-place updates that keep a reflexive and transitive relation keeps it. -/
lemma rel_foldl_modify {κ : Type} {R : Request → Request → Prop} (hrefl : ∀ r, R r r)
    (htrans : ∀ {a b c}, R a b → R b c → R a c) (key : κ → ReqId) (f : κ → Request → Request)
    (hf : ∀ k r, R r (f k r)) (l : List κ) (d : Dict ReqId Request) (x : ReqId) :
    Option.Rel R (d.get? x) ((l.foldl (fun d k => d.modify (key k) (f k)) d).get? x) := by
  induction l generalizing d with
  | nil =>
    cases h : d.get? x with
    | none => simp [h]
    | some r => simpa [h] using hrefl r
  | cons k l ih =>
    have hl := ih (d.modify (key k) (f k))
    rw [Dict.get?_modify] at hl
    rw [List.foldl_cons]
    generalize (l.foldl (fun d k => d.modify (key k) (f k)) (d.modify (key k) (f k))).get? x = o
      at hl ⊢
    cases h : d.get? x with
    | none =>
      rw [h] at hl
      split at hl <;> exact hl
    | some r =>
      rw [h] at hl
      split at hl
      · cases hl with
        | some hr => exact .some (htrans (hf k r) hr)
      · exact hl

/-- A fold of in-place updates of labels relabels the requests. -/
lemma relabels_foldl {κ : Type} (key : κ → ReqId) (f : κ → Request → Request)
    (hf : ∀ k r, r.SameTrace (f k r) ∧ (f k r).status = r.status ∧
      (f k r).numComputedTokens = r.numComputedTokens) (l : List κ)
    (hreq : s'.requests = l.foldl (fun d k => d.modify (key k) (f k)) s.requests)
    (hrun : s'.running = s.running) (hwait : s'.waiting = s.waiting)
    (hfin : s'.finishedReqIds = s.finishedReqIds)
    (hpen : s'.pendingPrunedOutputs = s.pendingPrunedOutputs) : s.Relabels s' := by
  refine ⟨fun x => ?_, hrun, hwait, hfin, hpen⟩
  rw [hreq]
  refine rel_foldl_modify (fun r => ⟨.refl r, rfl, rfl⟩) ?_ key f hf l s.requests x
  intro a b c hab hbc
  exact ⟨hab.1.trans hbc.1, hbc.2.1.trans hab.2.1, hbc.2.2.trans hab.2.2⟩

/-- `mark_stop_reason` relabels. -/
lemma relabels_markStopReason (s : Scheduler μ) (rids : List ReqId) (reason : StopReason) :
    s.Relabels (s.markStopReason rids reason) := by
  refine relabels_foldl id (fun _ r =>
    if r.status.isFinished then r else { r with stopReason := some reason }) ?_ rids rfl rfl rfl rfl
    rfl
  intro k r
  split <;> exact ⟨⟨rfl, rfl, rfl, rfl, rfl, rfl, rfl, rfl⟩, rfl, rfl⟩

/-- `update_trace_scores` relabels. -/
lemma relabels_updateTraceScores (s : Scheduler μ) (scores : Dict ReqId ℚ) :
    s.Relabels (s.updateTraceScores scores) :=
  relabels_foldl Prod.fst (fun e r => { r with traceAvgScore := some e.2 })
    (fun _ _ => ⟨⟨rfl, rfl, rfl, rfl, rfl, rfl, rfl, rfl⟩, rfl, rfl⟩) scores.entries rfl rfl rfl rfl rfl

/-- `update_draft_token_ids` relabels. -/
lemma relabels_updateDraftTokenIds (s : Scheduler μ) (drafts : Dict ReqId (List Token)) :
    s.Relabels (s.updateDraftTokenIds drafts) := by
  refine relabels_foldl Prod.fst (fun e r =>
    if r.status.isFinished then r else { r with specTokenIds := e.2 }) ?_ drafts.entries rfl rfl rfl
    rfl rfl
  intro k r
  split <;> exact ⟨⟨rfl, rfl, rfl, rfl, rfl, rfl, rfl, rfl⟩, rfl, rfl⟩

end Scheduler
end Gambit.Sched
