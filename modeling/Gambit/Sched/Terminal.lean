import Gambit.Sched.Machine

/-!
# One terminal output per request

The end of a request is reported through two channels: `update_from_output` makes the last output of
a request that stops, and `_stop_lowest_running` leaves an output that the next `update_from_output`
sends. `Leave` says once what scheduling can do to the requests and to these reports: nothing, or one
eviction. `Told` is the account of one request over a run: while it lives, its outputs carry its
tokens and none of them ends it; once it is gone, the outputs sent and pending end with the only
terminal one.
-/

namespace Gambit.Sched
open Gambit.Lib

/-- The outputs of a request, each with the client it goes to. -/
def outputsOf (rid : ReqId) (d : Dict Nat (List EngineCoreOutput)) : List (Nat × EngineCoreOutput) :=
  d.entries.flatMap fun e => (e.2.filter (·.requestId = rid)).map (e.1, ·)

/-- The outputs a run sent for a request, in the order of the calls. -/
def sentOutputs (rid : ReqId) (os : List SchedRecord) : List (Nat × EngineCoreOutput) :=
  os.flatMap fun o => outputsOf rid o.outputs

/-- The outputs go to one client, carry the tokens, and none of them ends the request. -/
structure Trail (client : Nat) (tokens : List Token) (l : List (Nat × EngineCoreOutput)) : Prop where
  client : ∀ e ∈ l, e.1 = client
  going : ∀ e ∈ l, e.2.finishReason = none
  tokens : l.flatMap (·.2.newTokenIds) = tokens

/-- The outputs go to one client, carry the tokens, and the last one, and only it, ends the
request. -/
structure Ended (client : Nat) (tokens : List Token) (l : List (Nat × EngineCoreOutput)) : Prop where
  client : ∀ e ∈ l, e.1 = client
  last : ∃ front o, l = front ++ [o] ∧ o.2.finishReason.isSome ∧ ∀ e ∈ front, e.2.finishReason = none
  tokens : l.flatMap (·.2.newTokenIds) = tokens

section Outputs
variable {rid : ReqId} {client : Nat} {tokens ts : List Token} {l : List (Nat × EngineCoreOutput)}
variable {o : EngineCoreOutput}

/-- Another output with tokens. -/
lemma Trail.snoc (h : Trail client tokens l) (ho : o.finishReason = none) (ht : o.newTokenIds = ts) :
    Trail client (tokens ++ ts) (l ++ [(client, o)]) := by
  refine ⟨fun e he => ?_, fun e he => ?_, ?_⟩
  · rcases List.mem_append.1 he with he | he
    · exact h.client e he
    · rw [List.mem_singleton.1 he]
  · rcases List.mem_append.1 he with he | he
    · exact h.going e he
    · rw [List.mem_singleton.1 he]
      exact ho
  · rw [List.flatMap_append, h.tokens, List.flatMap_singleton, ht]

/-- The terminal output. -/
lemma Trail.finish (h : Trail client tokens l) (ho : o.finishReason.isSome) (ht : o.newTokenIds = ts) :
    Ended client (tokens ++ ts) (l ++ [(client, o)]) := by
  refine ⟨fun e he => ?_, ⟨l, (client, o), rfl, ho, h.going⟩, ?_⟩
  · rcases List.mem_append.1 he with he | he
    · exact h.client e he
    · rw [List.mem_singleton.1 he]
  · rw [List.flatMap_append, h.tokens, List.flatMap_singleton, ht]

/-- The outputs of a request after some were added for a client, up to order. -/
lemma outputsOf_set_perm (rid : ReqId) (d : Dict Nat (List EngineCoreOutput)) (c : Nat)
    (outs : List EngineCoreOutput) :
    (outputsOf rid (d.set c (d.getD c [] ++ outs))).Perm
      (outputsOf rid d ++ (outs.filter (·.requestId = rid)).map (c, ·)) := by
  refine ((d.perm_set c (d.getD c [] ++ outs)).flatMap_right _).trans ?_
  rw [List.flatMap_cons]
  dsimp only
  rw [List.filter_append, List.map_append]
  cases hc : d.get? c with
  | none =>
    rw [Dict.getD_eq, hc, Dict.erase_of_not_mem (Dict.get?_eq_none.1 hc)]
    exact List.perm_append_comm
  | some v =>
    have hd : (outputsOf rid d).Perm
        ((v.filter (·.requestId = rid)).map (c, ·) ++ outputsOf rid (d.erase c)) :=
      (Dict.perm_cons_erase hc).flatMap_right _
    rw [Dict.getD_eq, hc, Option.getD_some, List.append_assoc]
    refine .trans ?_ (hd.append_right _).symm
    rw [List.append_assoc]
    exact List.Perm.append_left _ List.perm_append_comm

/-- A permutation of at most one element is equal to it. -/
lemma eq_of_perm_of_length_le_one {α : Type} {a b : List α} (h : a.Perm b) (hb : b.length ≤ 1) :
    a = b := by
  match b, hb with
  | [], _ => exact List.perm_nil.1 h
  | [x], _ => exact List.perm_singleton.1 h

/-- A new output, when the request has no more than this one. -/
lemma outputsOf_appendOutput (d : Dict Nat (List EngineCoreOutput)) (c : Nat) (o : EngineCoreOutput)
    (h : (outputsOf rid d).length ≤ if o.requestId = rid then 0 else 1) :
    outputsOf rid (appendOutput d c o) =
      outputsOf rid d ++ if o.requestId = rid then [(c, o)] else [] := by
  have hp := outputsOf_set_perm rid d c [o]
  have he : (([o].filter (·.requestId = rid)).map ((c, ·) : EngineCoreOutput → Nat × EngineCoreOutput)) =
      if o.requestId = rid then [(c, o)] else [] := by
    by_cases hr : o.requestId = rid
    · simp [hr]
    · simp [hr]
  rw [he] at hp
  refine eq_of_perm_of_length_le_one hp ?_
  split at h
  · next hr =>
    rw [if_pos hr, List.length_append, List.length_singleton]
    omega
  · next hr =>
    rw [if_neg hr, List.append_nil]
    exact h

/-- The outputs of the evicted requests come on top of the others. -/
lemma outputsOf_addPrunedOutputs (rid : ReqId) (outputs pruned : Dict Nat (List EngineCoreOutput)) :
    (outputsOf rid (Scheduler.addPrunedOutputs outputs pruned)).Perm
      (outputsOf rid outputs ++ outputsOf rid pruned) := by
  unfold Scheduler.addPrunedOutputs
  rw [outputsOf.eq_def rid pruned]
  generalize pruned.entries = l
  induction l generalizing outputs with
  | nil => simp
  | cons e l ih =>
    rw [List.foldl_cons, List.flatMap_cons]
    split
    · next he =>
      rw [List.isEmpty_iff.1 he]
      exact ih outputs
    · refine (ih _).trans ?_
      rw [← List.append_assoc]
      exact (outputsOf_set_perm rid outputs e.1 e.2).append_right _

end Outputs

namespace Request
variable {r : Request} {n : Nat} {ts : List Token}

/-- A stop check that succeeds finishes the request and keeps its tokens. -/
lemma checkStop_of_stopped (h : (r.checkStop n).2 = true) :
    (r.checkStop n).1.outputTokenIds = r.outputTokenIds ∧
      (r.checkStop n).1.status.getFinishedReason.isSome ∧ (r.checkStop n).1.status.isFinished := by
  unfold checkStop at h ⊢
  split
  · next hmin =>
    rw [if_pos hmin] at h
    cases h
  · next hmin =>
    rw [if_neg hmin] at h
    cases hl : r.outputTokenIds.getLast? with
    | none =>
      rw [hl] at h
      cases h
    | some last =>
      rw [hl] at h
      dsimp only at h ⊢
      split_ifs at h ⊢ <;> exact ⟨rfl, rfl, rfl⟩

/-- The accepted tokens are what is appended. -/
lemma updateRequestWithOutput_tokens (r : Request) (n : Nat) (ts : List Token) :
    (r.updateRequestWithOutput n ts).1.outputTokenIds =
      r.outputTokenIds ++ (r.updateRequestWithOutput n ts).2.1 := by
  induction ts generalizing r with
  | nil => simp [updateRequestWithOutput]
  | cons t ts ih =>
    rw [updateRequestWithOutput]
    split
    · next r' e =>
      have hc := checkStop_of_stopped (r := r.appendOutputTokenId t) (n := n) (by rw [e])
      rw [e] at hc
      exact hc.1
    · next r' e =>
      have hc := checkStop_of_not_stopped (r := r.appendOutputTokenId t) (n := n) (by rw [e])
      rw [e] at hc
      dsimp only at hc ⊢
      rw [ih r', hc, appendOutputTokenId, List.append_assoc]
      rfl

/-- A request that stopped accepted a token and is finished. -/
lemma updateRequestWithOutput_of_stopped (h : (r.updateRequestWithOutput n ts).2.2 = true) :
    (r.updateRequestWithOutput n ts).2.1 ≠ [] ∧
      (r.updateRequestWithOutput n ts).1.status.getFinishedReason.isSome ∧
      (r.updateRequestWithOutput n ts).1.status.isFinished := by
  induction ts generalizing r with
  | nil => cases h
  | cons t ts ih =>
    rw [updateRequestWithOutput] at h ⊢
    cases hs : (r.appendOutputTokenId t).checkStop n with
    | mk r' stopped =>
      cases stopped with
      | true =>
        have hc := checkStop_of_stopped (r := r.appendOutputTokenId t) (n := n) (by rw [hs])
        rw [hs] at hc
        exact ⟨List.cons_ne_nil t [], hc.2⟩
      | false =>
        simp only [hs] at h ⊢
        exact ⟨List.cons_ne_nil t _, (ih h).2⟩

/-- A request that is not finished has no finish reason. -/
lemma getFinishedReason_of_unfinished {s : RequestStatus} (h : s.isFinished = false) :
    s.getFinishedReason = none := by
  cases s <;> first | rfl | cases h

end Request

namespace Scheduler
variable {μ β : Type} {ops : Caches μ β} {cfg : VllmConfig} {s s' : Scheduler μ}
variable {rid x : ReqId} {r : Request}

/-- One change of the scheduler as far as the ends of requests go: requests keep their traces and
nobody leaves, or one request is evicted. -/
inductive Leave (s s' : Scheduler μ) : Prop where
  | quiet :
    s'.departed = s.departed →
    s'.pendingPrunedOutputs = s.pendingPrunedOutputs →
    (∀ x, Option.Rel Request.SameTrace (s.requests.get? x) (s'.requests.get? x)) →
    Leave s s'
  | evict {r d : Request} {o : EngineCoreOutput} :
    s.requests.get? r.requestId = some r →
    r.SameTrace d →
    d.status.isFinished →
    s'.departed = s.departed ++ [d] →
    s'.requests = s.requests.erase r.requestId →
    s'.pendingPrunedOutputs = appendOutput s.pendingPrunedOutputs r.clientIndex o →
    o.requestId = r.requestId →
    o.finishReason.isSome →
    o.newTokenIds = [] →
    Leave s s'

/-- A change of the caches and queues. -/
lemma Leave.of_eq (hd : s'.departed = s.departed)
    (hp : s'.pendingPrunedOutputs = s.pendingPrunedOutputs) (hr : s'.requests = s.requests) :
    Leave s s' := by
  refine .quiet hd hp fun x => ?_
  rw [hr]
  cases s.requests.get? x with
  | none => exact .none
  | some r => exact .some (.refl r)

/-- A change of the running queue. -/
lemma leave_running (s : Scheduler μ) (run : List ReqId) : s.Leave { s with running := run } :=
  .of_eq rfl rfl rfl

/-- A change of one request that keeps its trace. -/
lemma Leave.set {r' : Request} (hd : s'.departed = s.departed)
    (hp : s'.pendingPrunedOutputs = s.pendingPrunedOutputs) (hr : s.requests.get? rid = some r)
    (ht : r.SameTrace r') (hs : s'.requests = s.requests.set rid r') : Leave s s' := by
  refine .quiet hd hp fun x => ?_
  rw [hs, Dict.get?_set]
  split
  · next hx =>
    rw [hx, hr]
    exact .some ht
  · cases s.requests.get? x with
    | none => exact .none
    | some r => exact .some (.refl r)

/-- The eviction of the last running request. -/
lemma Leave.stopLowestRunning (ops : Caches μ β) (hl : s.running.getLast? = some rid)
    (hr : s.requests.get? rid = some r) (hid : r.requestId = rid) :
    Leave s (s.stopLowestRunning ops).2 := by
  subst hid
  unfold Scheduler.stopLowestRunning
  rw [hl]
  dsimp only
  rw [hr]
  dsimp only
  refine .evict hr ?_ rfl rfl rfl rfl rfl rfl rfl
  exact ⟨rfl, rfl, rfl, rfl, rfl, rfl, rfl, rfl⟩

/-- A preemption. -/
lemma Leave.preempt (ops : Caches μ β) (policy : SchedulingPolicy) (hr : s.requests.get? rid = some r) :
    Leave s (s.preempt ops policy rid) := by
  unfold Scheduler.preempt
  rw [hr]
  dsimp only
  refine .set rfl rfl hr ?_ rfl
  exact ⟨rfl, rfl, rfl, rfl, rfl, rfl, rfl, rfl⟩

/-- Sequences of such changes. -/
abbrev Leaves : Scheduler μ → Scheduler μ → Prop := Relation.ReflTransGen Leave

end Scheduler

namespace Pass
variable {μ β : Type} {ops : Caches μ β} {cfg : VllmConfig} {p p' : Pass μ β}

/-- One round of making room. -/
lemma Room.leaves (h : Room ops cfg p p') : p.sched.Leaves p'.sched := by
  cases h with
  | refuse _ => exact .single (.of_eq rfl rfl rfl)
  | evict _ hl hr hid _ => exact .single (.stopLowestRunning ops hl hr hid)
  | preempt _ _ hr _ hq =>
    have hs := Scheduler.leave_running p.sched
    rcases hq with ⟨rfl, -⟩ | ⟨rfl, -⟩
    · exact (Relation.ReflTransGen.single (hs _)).tail (.preempt ops cfg.policy hr)
    · exact (Relation.ReflTransGen.single (hs _)).tail (.preempt ops cfg.policy hr)

/-- Giving tokens to a running request. -/
lemma leave_runRequest (ops : Caches μ β) (p : Pass μ β) (m : μ) (rid : ReqId) (r : Request)
    (numNew : Int) (blocks : β) (inputs : List Nat) (budget : Int) :
    p.sched.Leave (p.runRequest ops m rid r numNew blocks inputs budget).sched := by
  obtain ⟨-, -, -, -, hreq⟩ := runRequest_frame ops p m rid r numNew blocks inputs budget
  have hrest : (p.runRequest ops m rid r numNew blocks inputs budget).sched.departed =
        p.sched.departed ∧
      (p.runRequest ops m rid r numNew blocks inputs budget).sched.pendingPrunedOutputs =
        p.sched.pendingPrunedOutputs := by
    unfold Pass.runRequest Pass.scheduleEncoder Pass.scheduleSpec
    dsimp only
    split_ifs <;> exact ⟨rfl, rfl⟩
  refine .quiet hrest.1 hrest.2 fun x => ?_
  rw [hreq]
  cases p.sched.requests.get? x with
  | none => split <;> exact .none
  | some rx =>
    split
    · exact .some ⟨rfl, rfl, rfl, rfl, rfl, rfl, rfl, rfl⟩
    · exact .some (.refl rx)

/-- One change of a pass. -/
lemma Step.leaves (h : Step ops cfg p p') : p.sched.Leaves p'.sched := by
  cases h with
  | encoder _ => exact .single (.of_eq rfl rfl rfl)
  | room h => exact h.leaves
  | run _ _ _ hrooms _ _ _ _ =>
    refine Relation.ReflTransGen.tail ?_ (leave_runRequest ..)
    exact Relation.ReflTransGen.lift' Pass.sched (fun _ _ h => h.leaves) _ _ hrooms
  | @ready rid r hr _ =>
    have ht : r.SameTrace r.leaveFsm := by
      unfold Request.leaveFsm
      split
      · exact ⟨rfl, rfl, rfl, rfl, rfl, rfl, rfl, rfl⟩
      · exact .refl r
    exact .single (.set rfl rfl hr ht rfl)
  | refuse _ => exact .single (.of_eq rfl rfl rfl)
  | @admitted m₀ m rid r numNew cached blocks computed lookahead encoderTokens b inputs budget hr =>
    refine .single ?_
    have hset : ∀ q : Pass μ β, (q.scheduleEncoder ops r inputs budget).sched.departed = q.sched.departed ∧
        (q.scheduleEncoder ops r inputs budget).sched.pendingPrunedOutputs =
          q.sched.pendingPrunedOutputs ∧
        (q.scheduleEncoder ops r inputs budget).sched.requests = q.sched.requests := by
      intro q
      unfold Pass.scheduleEncoder
      split <;> exact ⟨rfl, rfl, rfl⟩
    obtain ⟨h1, h2, h3⟩ := hset ((p.setCaches m).admitRequest ops rid r computed numNew)
    refine .set h1 h2 hr ?_ h3
    exact ⟨rfl, rfl, rfl, rfl, rfl, rfl, rfl, rfl⟩

end Pass

namespace Scheduler
variable {μ β : Type} {ops : Caches μ β} {cfg : VllmConfig} {s s' : Scheduler μ}

/-- `schedule` keeps traces and reports whom it evicts. -/
lemma WF.schedule_leaves (ops : Caches μ β) (cfg : VllmConfig) (ready : ReqId → Bool) (h : s.WF) :
    s.Leaves (s.schedule ops cfg ready).1 := by
  obtain ⟨p, queue, hsteps, -, hpass⟩ := h.schedulePass_steps ops cfg ready
  have hstart : s.Leaves (s.startPass (β := β) cfg).sched := by
    unfold Scheduler.startPass
    dsimp only
    split
    · exact .single (.of_eq rfl rfl rfl)
    · exact .refl
  have hleaves : s.Leaves p.sched :=
    hstart.trans (Relation.ReflTransGen.lift' Pass.sched (fun _ _ h => h.leaves) _ _ hsteps)
  have hadv : ∀ (l : List (ReqId × Int)) (t : Scheduler μ), t.Leaves (l.foldl (Scheduler.advance ops) t) := by
    intro l
    induction l with
    | nil => exact fun t => .refl
    | cons e l ih =>
      intro t
      refine Relation.ReflTransGen.head ?_ (ih _)
      unfold Scheduler.advance
      split
      · exact .of_eq rfl rfl rfl
      · next hr =>
        refine .set rfl rfl hr ?_ rfl
        exact ⟨rfl, rfl, rfl, rfl, rfl, rfl, rfl, rfl⟩
  unfold Scheduler.schedule updateAfterSchedule
  rw [hpass]
  dsimp only
  have hq : s.Leaves { p.sched with waiting := queue } := hleaves.tail (.of_eq rfl rfl rfl)
  generalize ({ p.sched with waiting := queue } : Scheduler μ) = t at hq ⊢
  exact (hq.trans (hadv p.numScheduledTokens.entries t)).tail (.of_eq rfl rfl rfl)

end Scheduler

namespace Scheduler
variable {μ β : Type} {ops : Caches μ β} {cfg : VllmConfig} {s s' : Scheduler μ}
variable {rid x : ReqId} {r : Request}

/-- The requests that left under an id. -/
def departedAs (s : Scheduler μ) (rid : ReqId) : List Request :=
  s.departed.filter (·.requestId = rid)

/-- What a change means for one id: nothing, or its eviction. -/
lemma Leave.atId (h : s.Leave s') (x : ReqId) (hlen : (outputsOf x s.pendingPrunedOutputs).length ≤ 1)
    (hlive : x ∈ s.requests → outputsOf x s.pendingPrunedOutputs = []) :
    (Option.Rel Request.SameTrace (s.requests.get? x) (s'.requests.get? x) ∧
      s'.departedAs x = s.departedAs x ∧
      outputsOf x s'.pendingPrunedOutputs = outputsOf x s.pendingPrunedOutputs) ∨
    ∃ r d o, s.requests.get? x = some r ∧ s'.requests.get? x = none ∧ r.SameTrace d ∧
      s'.departedAs x = s.departedAs x ++ [d] ∧
      outputsOf x s'.pendingPrunedOutputs = [(r.clientIndex, o)] ∧ o.finishReason.isSome ∧
      o.newTokenIds = [] := by
  cases h with
  | quiet hd hp hr =>
    refine .inl ⟨hr x, ?_, ?_⟩
    · rw [departedAs, hd, departedAs]
    · rw [hp]
  | @evict r d o hr ht _ hd hq hp ho hf hn =>
    have hid : d.requestId = r.requestId := ht.requestId
    by_cases hx : r.requestId = x
    · subst hx
      have hnil := hlive (Dict.mem_of_get? hr)
      refine .inr ⟨r, d, o, hr, ?_, ht, ?_, ?_, hf, hn⟩
      · rw [hq, Dict.get?_erase, if_pos rfl]
      · rw [departedAs, hd, List.filter_append, departedAs]
        simp [hid]
      · rw [hp, outputsOf_appendOutput, hnil, if_pos ho, List.nil_append]
        rw [hnil]
        exact Nat.zero_le _
    · refine .inl ⟨?_, ?_, ?_⟩
      · rw [hq, Dict.get?_erase, if_neg (Ne.symm hx)]
        cases s.requests.get? x with
        | none => exact .none
        | some r => exact .some (.refl r)
      · rw [departedAs, hd, List.filter_append, departedAs]
        simp [hid, hx]
      · have hne : ¬ o.requestId = x := by
          rw [ho]
          exact hx
        rw [hp, outputsOf_appendOutput, if_neg hne, List.append_nil]
        rw [if_neg hne]
        exact hlen

section Update
variable (cfg) (so : SchedulerOutput β) (mo : ModelRunnerOutput) (finals : Dict ReqId (Option ℚ))
variable (histories : Option (Dict ReqId (List ℚ)))

/-- The output made for a scheduled request, with its client. -/
def report (rid : ReqId) (r : Request) : List (Nat × EngineCoreOutput) :=
  let (r', newTokenIds, _) := accept cfg so mo rid r
  if newTokenIds.isEmpty then []
  else [(r'.clientIndex, requestOutput finals histories r' newTokenIds)]

/-- The scheduled request itself, if it leaves. -/
def leaver (rid : ReqId) (r : Request) : List Request :=
  let (r', _, stopped) := accept cfg so mo rid r
  if stopped then [r'] else []

/-- The reports of the loop of `update_from_output` from `s`, after the requests of `done`. -/
structure ReportInv (s : Scheduler μ) (done : List ReqId) (p : UpdatePass μ) : Prop where
  pending : p.sched.pendingPrunedOutputs = s.pendingPrunedOutputs
  outputs : ∀ x, outputsOf x p.outputs =
    if x ∈ done then (s.requests.get? x).elim [] (report cfg so mo finals histories x) else []
  departed : ∀ x, p.sched.departedAs x = s.departedAs x ++
    if x ∈ done then (s.requests.get? x).elim [] (leaver cfg so mo x) else []

variable {cfg so mo finals histories} {done l : List ReqId} {p : UpdatePass μ}

/-- At most one output is made for a request. -/
lemma length_report_le (rid : ReqId) (r : Request) :
    (report cfg so mo finals histories rid r).length ≤ 1 := by
  unfold report
  dsimp only
  split
  · exact Nat.zero_le 1
  · exact Nat.le_refl 1

/-- The outputs when one more request was reported on. -/
lemma ReportInv.outputs_concat (h : ReportInv cfg so mo finals histories s done p) (hn : rid ∉ done)
    {r r' : Request} {ts : List Token} (hr : s.requests.get? rid = some r) (hfr : r'.requestId = rid)
    (hrep : report cfg so mo finals histories rid r =
      if ts.isEmpty then [] else [(r'.clientIndex, requestOutput finals histories r' ts)]) (x : ReqId) :
    outputsOf x (if ts.isEmpty then p.outputs
        else appendOutput p.outputs r'.clientIndex (requestOutput finals histories r' ts)) =
      if x ∈ done ++ [rid] then (s.requests.get? x).elim [] (report cfg so mo finals histories x) else [] := by
  have hlen : (outputsOf x p.outputs).length ≤ 1 := by
    rw [h.outputs]
    split
    · cases s.requests.get? x with
      | none => exact Nat.zero_le 1
      | some rx => exact length_report_le x rx
    · exact Nat.zero_le 1
  by_cases hx : x = rid
  · subst hx
    have hnil : outputsOf x p.outputs = [] := by rw [h.outputs, if_neg hn]
    rw [if_pos (List.mem_append_right _ (List.mem_singleton_self x)), hr, Option.elim_some, hrep]
    split
    · exact hnil
    · have hroid : (requestOutput finals histories r' ts).requestId = x := hfr
      rw [outputsOf_appendOutput, hnil, if_pos hroid, List.nil_append]
      rw [hnil]
      exact Nat.zero_le _
  · have hiff : x ∈ done ++ [rid] ↔ x ∈ done := by simp [hx]
    rw [if_congr hiff rfl rfl, ← h.outputs]
    split
    · rfl
    · have hroid : ¬ (requestOutput finals histories r' ts).requestId = x :=
        fun he => hx (he.symm.trans hfr)
      rw [outputsOf_appendOutput, if_neg hroid, List.append_nil]
      rw [if_neg hroid]
      exact hlen

/-- The requests that have left by then. -/
lemma ReportInv.departed_concat (h : ReportInv cfg so mo finals histories s done p) (hn : rid ∉ done)
    {r r' : Request} {stopped : Bool} (hr : s.requests.get? rid = some r) (hfr : r'.requestId = rid)
    (hleave : leaver cfg so mo rid r = if stopped then [r'] else []) (x : ReqId) :
    (if stopped then p.sched.departed ++ [r'] else p.sched.departed).filter (·.requestId = x) =
      s.departedAs x ++ if x ∈ done ++ [rid] then (s.requests.get? x).elim [] (leaver cfg so mo x) else [] := by
  have hdep : p.sched.departed.filter (·.requestId = x) = s.departedAs x ++
      if x ∈ done then (s.requests.get? x).elim [] (leaver cfg so mo x) else [] := h.departed x
  by_cases hx : x = rid
  · subst hx
    rw [if_neg hn, List.append_nil] at hdep
    rw [if_pos (List.mem_append_right _ (List.mem_singleton_self x)), hr, Option.elim_some, hleave, ← hdep]
    split
    · rw [List.filter_append]
      simp [hfr]
    · rw [List.append_nil]
  · have hiff : x ∈ done ++ [rid] ↔ x ∈ done := by simp [hx]
    rw [if_congr hiff rfl rfl, ← hdep]
    split
    · rw [List.filter_append]
      have hne : ¬ r'.requestId = x := fun he => hx (he.symm.trans hfr)
      simp [hne]
    · rfl

/-- One iteration of the loop of `update_from_output`. -/
lemma ReportInv.step (ops : Caches μ β) (hid : ∀ x r, s.requests.get? x = some r → r.requestId = x)
    (h : ReportInv cfg so mo finals histories s done p) (hu : UpdateInv cfg so mo s done p)
    (hn : rid ∉ done) :
    ReportInv cfg so mo finals histories s (done ++ [rid])
      (updateRequest ops cfg so mo finals histories p rid) := by
  have hget : p.sched.requests.get? rid = s.requests.get? rid := by rw [hu.requests, if_neg hn]
  unfold updateRequest
  cases hr : s.requests.get? rid with
  | none =>
    rw [hget, hr]
    dsimp only
    refine ⟨h.pending, fun x => ?_, fun x => ?_⟩
    · rw [h.outputs]
      by_cases hx : x = rid
      · subst hx
        simp [hr]
      · simp [hx]
    · rw [h.departed]
      by_cases hx : x = rid
      · subst hx
        simp [hr]
      · simp [hx]
  | some r =>
    rw [hget, hr]
    dsimp only
    have hacc : (rejectDrafts so r (mo.getD rid [])).updateRequestWithOutput
        cfg.scheduler.maxModelLen (mo.getD rid []) = accept cfg so mo rid r := rfl
    have hfr : (accept cfg so mo rid r).1.requestId = rid :=
      (accept_frame so mo rid r).1.trans (hid rid r hr)
    rw [hacc]
    have hrep : report cfg so mo finals histories rid r =
        if (accept cfg so mo rid r).2.1.isEmpty then []
        else [((accept cfg so mo rid r).1.clientIndex,
          requestOutput finals histories (accept cfg so mo rid r).1 (accept cfg so mo rid r).2.1)] := rfl
    have hleave : leaver cfg so mo rid r =
        if (accept cfg so mo rid r).2.2 then [(accept cfg so mo rid r).1] else [] := rfl
    generalize accept cfg so mo rid r = a at hfr hrep hleave ⊢
    obtain ⟨r', ts, stopped⟩ := a
    have hout := h.outputs_concat hn hr hfr hrep
    have hgone := h.departed_concat hn hr hfr hleave
    cases stopped with
    | false => exact ⟨h.pending, hout, hgone⟩
    | true =>
      simp only [if_true]
      split
      · exact ⟨h.pending, hout, hgone⟩
      · exact ⟨h.pending, hout, hgone⟩

/-- The loop of `update_from_output`. -/
lemma ReportInv.foldl (ops : Caches μ β) (hid : ∀ x r, s.requests.get? x = some r → r.requestId = x)
    (h : ReportInv cfg so mo finals histories s done p) (hu : UpdateInv cfg so mo s done p)
    (nd : (done ++ l).Nodup) :
    ReportInv cfg so mo finals histories s (done ++ l)
      (l.foldl (updateRequest ops cfg so mo finals histories) p) := by
  induction l generalizing done p with
  | nil => simpa using h
  | cons x xs ih =>
    have hx : x ∉ done := fun hm => List.disjoint_of_nodup_append nd hm List.mem_cons_self
    have nd' : (done ++ [x] ++ xs).Nodup := by simpa using nd
    simpa using ih (h.step ops hid hu hx) (hu.step ops finals histories hid hx) nd'

variable (cfg so mo finals histories) in
/-- What `update_from_output` reports for each id: its own output, then that of its eviction. -/
lemma WF.updateFromOutput_reports (ops : Caches μ β) (h : s.WF) (x : ReqId) :
    (outputsOf x (s.updateFromOutput ops cfg so mo finals histories).2).Perm
      ((if x ∈ so.numScheduledTokens then
          (s.requests.get? x).elim [] (report cfg so mo finals histories x) else []) ++
        outputsOf x s.pendingPrunedOutputs) ∧
    (s.updateFromOutput ops cfg so mo finals histories).1.departedAs x = s.departedAs x ++
      if x ∈ so.numScheduledTokens then (s.requests.get? x).elim [] (leaver cfg so mo x) else [] := by
  have hu : UpdateInv cfg so mo s [] { sched := s } := by constructor <;> simp
  have hinit : ReportInv cfg so mo finals histories s [] { sched := s } := by
    refine ⟨rfl, fun x => ?_, fun x => ?_⟩
    · simp [outputsOf]
    · simp [departedAs]
  have hinv := hinit.foldl (l := so.numScheduledTokens.keys) ops h.requestId hu
    (by simpa using so.numScheduledTokens.keys_nodup)
  rw [List.nil_append] at hinv
  unfold Scheduler.updateFromOutput
  dsimp only
  constructor
  · refine (outputsOf_addPrunedOutputs x _ _).trans (.of_eq ?_)
    rw [hinv.outputs, hinv.pending, if_congr (Dict.mem_def (d := so.numScheduledTokens)).symm rfl rfl]
  · exact (hinv.departed x).trans (congrArg _ (if_congr Iff.rfl rfl rfl))

end Update

/-- The account of an id that was never added. -/
structure Untold (rid : ReqId) (sent : List (Nat × EngineCoreOutput)) (s : Scheduler μ) : Prop where
  requests : s.requests.get? rid = none
  departed : s.departedAs rid = []
  pending : outputsOf rid s.pendingPrunedOutputs = []
  sent : sent = []

/-- The account of a request of `client` that was added: `sent` is what was sent for it so far. -/
structure Told (rid : ReqId) (client : Nat) (sent : List (Nat × EngineCoreOutput)) (s : Scheduler μ) :
    Prop where
  alive : ∀ r, s.requests.get? rid = some r → r.clientIndex = client ∧ s.departedAs rid = [] ∧
    outputsOf rid s.pendingPrunedOutputs = [] ∧ Trail client r.outputTokenIds sent
  gone : s.requests.get? rid = none → ∃ d, s.departedAs rid = [d] ∧
    (outputsOf rid s.pendingPrunedOutputs).length ≤ 1 ∧
    Ended client d.outputTokenIds (sent ++ outputsOf rid s.pendingPrunedOutputs)

variable {client : Nat} {sent : List (Nat × EngineCoreOutput)}

/-- No more than one output of a request is pending, and none while it lives. -/
lemma Told.pending (h : Told rid client sent s) :
    (outputsOf rid s.pendingPrunedOutputs).length ≤ 1 ∧
      (rid ∈ s.requests → outputsOf rid s.pendingPrunedOutputs = []) := by
  cases hr : s.requests.get? rid with
  | none =>
    obtain ⟨d, -, hlen, -⟩ := h.gone hr
    exact ⟨hlen, fun hm => absurd hm (Dict.get?_eq_none.1 hr)⟩
  | some r =>
    obtain ⟨-, -, hnil, -⟩ := h.alive r hr
    rw [hnil]
    exact ⟨Nat.zero_le 1, fun _ => rfl⟩

/-- An account depends on the request and the reports of its id only. -/
lemma Told.congr (h : Told rid client sent s)
    (hr : Option.Rel Request.SameTrace (s.requests.get? rid) (s'.requests.get? rid))
    (hd : s'.departedAs rid = s.departedAs rid)
    (hp : outputsOf rid s'.pendingPrunedOutputs = outputsOf rid s.pendingPrunedOutputs) :
    Told rid client sent s' := by
  refine ⟨fun r' hr' => ?_, fun hn => ?_⟩
  · rw [hr'] at hr
    generalize ho : s.requests.get? rid = o at hr
    cases hr with
    | some ht =>
      obtain ⟨h1, h2, h3, h4⟩ := h.alive _ ho
      rw [hd, hp, ht.clientIndex, ht.outputTokenIds]
      exact ⟨h1, h2, h3, h4⟩
  · rw [hn] at hr
    generalize ho : s.requests.get? rid = o at hr
    cases hr with
    | none =>
      rw [hd, hp]
      exact h.gone ho

/-- The same for an id that was never added. -/
lemma Untold.congr (h : Untold rid sent s)
    (hr : Option.Rel Request.SameTrace (s.requests.get? rid) (s'.requests.get? rid))
    (hd : s'.departedAs rid = s.departedAs rid)
    (hp : outputsOf rid s'.pendingPrunedOutputs = outputsOf rid s.pendingPrunedOutputs) :
    Untold rid sent s' := by
  refine ⟨?_, hd.trans h.departed, hp.trans h.pending, h.sent⟩
  rw [h.requests] at hr
  generalize s'.requests.get? rid = o at hr
  cases hr
  rfl

/-- Scheduling keeps the account of a request. -/
lemma Told.leaves (h : Told rid client sent s) (hl : s.Leaves s') : Told rid client sent s' := by
  induction hl with
  | refl => exact h
  | tail _ hs ih =>
    rcases hs.atId rid ih.pending.1 ih.pending.2 with ⟨hr, hd, hp⟩ |
      ⟨r, d, o, hr, hr', ht, hd, hp, hf, hn⟩
    · exact ih.congr hr hd hp
    · refine ⟨fun r' hr1 => ?_, fun _ => ?_⟩
      · rw [hr'] at hr1
        cases hr1
      · obtain ⟨hc, hdep, -, htrail⟩ := ih.alive r hr
        refine ⟨d, ?_, ?_, ?_⟩
        · rw [hd, hdep, List.nil_append]
        · rw [hp]
          exact Nat.le_refl 1
        · rw [hp, hc, ht.outputTokenIds]
          have hend := htrail.finish hf hn
          rw [List.append_nil] at hend
          exact hend

/-- Scheduling tells nothing of an id that was never added. -/
lemma Untold.leaves (h : Untold rid sent s) (hl : s.Leaves s') : Untold rid sent s' := by
  induction hl with
  | refl => exact h
  | tail _ hs ih =>
    rcases hs.atId rid (by rw [ih.pending]; exact Nat.zero_le 1) (fun _ => ih.pending) with
      ⟨hr, hd, hp⟩ | ⟨r, d, o, hr, -⟩
    · exact ih.congr hr hd hp
    · rw [ih.requests] at hr
      cases hr

/-- What is sent for an id that is not stored or not scheduled: what was pending. -/
lemma WF.updateFromOutput_idle (ops : Caches μ β) (cfg : VllmConfig) (so : SchedulerOutput β)
    (mo : ModelRunnerOutput) (finals : Dict ReqId (Option ℚ))
    (histories : Option (Dict ReqId (List ℚ))) (h : s.WF) (hlen : (outputsOf rid s.pendingPrunedOutputs).length ≤ 1)
    (hidle : s.requests.get? rid = none ∨ rid ∉ so.numScheduledTokens) :
    outputsOf rid (s.updateFromOutput ops cfg so mo finals histories).2 =
        outputsOf rid s.pendingPrunedOutputs ∧
      (s.updateFromOutput ops cfg so mo finals histories).1.departedAs rid = s.departedAs rid ∧
      (s.updateFromOutput ops cfg so mo finals histories).1.requests.get? rid =
        s.requests.get? rid := by
  obtain ⟨hout, hdep⟩ := h.updateFromOutput_reports cfg so mo finals histories ops rid
  have hreq : (s.updateFromOutput ops cfg so mo finals histories).1.requests.get? rid = _ :=
    (h.updateFromOutput so mo finals histories).requests rid
  rcases hidle with hr | hn
  · rw [hr] at hout hdep hreq
    simp only [Option.elim_none, ite_self, List.nil_append, List.append_nil, Option.bind_none] at hout hdep hreq
    exact ⟨eq_of_perm_of_length_le_one hout hlen, hdep, hreq.trans hr.symm⟩
  · rw [if_neg hn] at hout hdep hreq
    rw [List.nil_append] at hout
    rw [List.append_nil] at hdep
    exact ⟨eq_of_perm_of_length_le_one hout hlen, hdep, hreq⟩

/-- Accepted tokens are appended; a request that stops accepted one and is finished. -/
lemma accept_tokens (cfg : VllmConfig) (so : SchedulerOutput β) (mo : ModelRunnerOutput) (rid : ReqId)
    (r : Request) :
    (accept cfg so mo rid r).1.outputTokenIds = r.outputTokenIds ++ (accept cfg so mo rid r).2.1 ∧
      ((accept cfg so mo rid r).2.2 = true → (accept cfg so mo rid r).2.1 ≠ [] ∧
        (accept cfg so mo rid r).1.status.getFinishedReason.isSome ∧
        (accept cfg so mo rid r).1.status.isFinished) ∧
      ((accept cfg so mo rid r).2.2 = false → (accept cfg so mo rid r).1.status = r.status) := by
  obtain ⟨n, hn⟩ := rejectDrafts_eq so r (mo.getD rid [])
  refine ⟨?_, fun hs => Request.updateRequestWithOutput_of_stopped hs, fun hs => ?_⟩
  · have ht := Request.updateRequestWithOutput_tokens (rejectDrafts so r (mo.getD rid []))
      cfg.scheduler.maxModelLen (mo.getD rid [])
    rw [accept]
    rw [hn] at ht ⊢
    exact ht
  · obtain ⟨n', he⟩ := accept_of_not_stopped hs
    rw [he]

/-- `update_from_output` keeps the account of a request, and leaves no report pending. -/
lemma Told.updateFromOutput (ops : Caches μ β) (cfg : VllmConfig) (so : SchedulerOutput β)
    (mo : ModelRunnerOutput) (finals : Dict ReqId (Option ℚ))
    (histories : Option (Dict ReqId (List ℚ))) (hwf : s.WF) (h : Told rid client sent s) :
    Told rid client (sent ++ outputsOf rid (s.updateFromOutput ops cfg so mo finals histories).2)
      (s.updateFromOutput ops cfg so mo finals histories).1 := by
  have hpend : (s.updateFromOutput ops cfg so mo finals histories).1.pendingPrunedOutputs = ∅ :=
    (hwf.updateFromOutput so mo finals histories).pendingPrunedOutputs
  have hreq : (s.updateFromOutput ops cfg so mo finals histories).1.requests.get? rid = _ :=
    (hwf.updateFromOutput so mo finals histories).requests rid
  obtain ⟨hout, hdep⟩ := hwf.updateFromOutput_reports cfg so mo finals histories ops rid
  have hidle := hwf.updateFromOutput_idle ops cfg so mo finals histories h.pending.1
  generalize s.updateFromOutput ops cfg so mo finals histories = res at hpend hreq hout hdep hidle ⊢
  obtain ⟨s', outs⟩ := res
  dsimp only at hpend hreq hout hdep hidle ⊢
  have hnil : outputsOf rid s'.pendingPrunedOutputs = [] := by
    rw [hpend]
    rfl
  cases hr : s.requests.get? rid with
  | none =>
    obtain ⟨h1, h2, h3⟩ := hidle (.inl hr)
    obtain ⟨d, hd, -, hend⟩ := h.gone hr
    refine ⟨fun r hr' => ?_, fun _ => ⟨d, h2.trans hd, ?_, ?_⟩⟩
    · rw [h3, hr] at hr'
      cases hr'
    · rw [hnil]
      exact Nat.zero_le 1
    · rw [hnil, h1, List.append_nil]
      exact hend
  | some r =>
    obtain ⟨hc, hd, hp, htrail⟩ := h.alive r hr
    by_cases hm : rid ∈ so.numScheduledTokens
    · rw [if_pos hm, hr] at hout hdep hreq
      rw [Option.elim_some, hp, List.append_nil] at hout
      rw [Option.elim_some, hd, List.nil_append] at hdep
      rw [Option.bind_some] at hreq
      have hout' := eq_of_perm_of_length_le_one hout (length_report_le rid r)
      obtain ⟨htok, hstop, hgo⟩ := accept_tokens cfg so mo rid r
      have hci := (accept_frame so mo rid r : (accept cfg so mo rid r).1.requestId = _ ∧ _).2.trans hc
      have hun := hwf.unfinished rid r hr
      rw [outcome] at hreq
      rw [leaver] at hdep
      rw [report] at hout'
      generalize accept cfg so mo rid r = a at hreq hdep hout' htok hstop hgo hci
      obtain ⟨r', ts, stopped⟩ := a
      dsimp only at hreq hdep hout' htok hstop hgo hci
      cases stopped with
      | true =>
        obtain ⟨hts, hfin, -⟩ := hstop rfl
        rw [if_pos rfl] at hreq hdep
        rw [if_neg (fun he => hts (List.isEmpty_iff.1 he)), hci] at hout'
        refine ⟨fun r1 hr1 => ?_, fun _ => ⟨r', hdep, ?_, ?_⟩⟩
        · rw [hreq] at hr1
          cases hr1
        · rw [hnil]
          exact Nat.zero_le 1
        · rw [hnil, List.append_nil, hout', htok]
          exact htrail.finish hfin rfl
      | false =>
        rw [if_neg Bool.false_ne_true] at hreq hdep
        refine ⟨fun r1 hr1 => ?_, fun hn => ?_⟩
        · rw [hreq] at hr1
          cases hr1
          refine ⟨hci, hdep, hnil, ?_⟩
          rw [hout', htok]
          split
          · next he =>
            rw [List.isEmpty_iff.1 he, List.append_nil, List.append_nil]
            exact htrail
          · rw [hci]
            refine htrail.snoc ?_ rfl
            rw [requestOutput]
            dsimp only
            rw [hgo rfl]
            exact Request.getFinishedReason_of_unfinished hun
        · rw [hreq] at hn
          cases hn
    · obtain ⟨h1, h2, h3⟩ := hidle (.inr hm)
      refine ⟨fun r1 hr1 => ?_, fun hn => ?_⟩
      · rw [h3, hr] at hr1
        cases hr1
        refine ⟨hc, h2.trans hd, hnil, ?_⟩
        rw [h1, hp, List.append_nil]
        exact htrail
      · rw [h3, hr] at hn
        cases hn

/-- `update_from_output` tells nothing of an id that was never added. -/
lemma Untold.updateFromOutput (ops : Caches μ β) (cfg : VllmConfig) (so : SchedulerOutput β)
    (mo : ModelRunnerOutput) (finals : Dict ReqId (Option ℚ))
    (histories : Option (Dict ReqId (List ℚ))) (hwf : s.WF) (h : Untold rid sent s) :
    Untold rid (sent ++ outputsOf rid (s.updateFromOutput ops cfg so mo finals histories).2)
      (s.updateFromOutput ops cfg so mo finals histories).1 := by
  have hlen : (outputsOf rid s.pendingPrunedOutputs).length ≤ 1 := by
    rw [h.pending]
    exact Nat.zero_le 1
  obtain ⟨h1, h2, h3⟩ := hwf.updateFromOutput_idle ops cfg so mo finals histories hlen (.inl h.requests)
  have hpend : (s.updateFromOutput ops cfg so mo finals histories).1.pendingPrunedOutputs = ∅ :=
    (hwf.updateFromOutput so mo finals histories).pendingPrunedOutputs
  refine ⟨h3.trans h.requests, h2.trans h.departed, ?_, ?_⟩
  · rw [hpend]
    rfl
  · rw [h1, h.pending, h.sent]
    rfl

/-- Finishing others does not touch the departures of an id. -/
lemma WF.departedAs_finishRequests (ops : Caches μ β) (rids : List ReqId) (status : RequestStatus)
    (h : s.WF) (hx : x ∉ rids ∨ x ∉ s.requests) :
    (s.finishRequests ops rids status).departedAs x = s.departedAs x := by
  have fold : ∀ (l : List ReqId) (t : Scheduler μ),
      (∀ y r, t.requests.get? y = some r → r.requestId = y) → (x ∉ l ∨ x ∉ t.requests) →
      (l.foldl (finishRequest ops status) t).departedAs x = t.departedAs x := by
    intro l
    induction l with
    | nil => exact fun t _ _ => rfl
    | cons y l ih =>
      intro t hid hx
      rw [List.foldl_cons]
      cases hy : t.requests.get? y with
      | none =>
        have he : finishRequest ops status t y = t := by
          unfold finishRequest
          rw [hy]
        rw [he]
        exact ih t hid (hx.imp_left fun hn hm => hn (.tail y hm))
      | some r =>
        have he : finishRequest ops status t y = t.freeRequest ops { r with status := status } := by
          unfold finishRequest
          rw [hy]
        have hry := hid y r hy
        have hne : ¬ r.requestId = x := by
          rw [hry]
          rintro rfl
          rcases hx with hx | hx
          · exact hx List.mem_cons_self
          · exact hx (Dict.mem_of_get? hy)
        rw [he, ih]
        · unfold departedAs freeRequest
          rw [List.filter_append]
          simp [hne]
        · intro z rz hz
          rw [freeRequest, Dict.get?_erase] at hz
          split at hz
          · cases hz
          · exact hid z rz hz
        · refine hx.imp (fun hn hm => hn (.tail y hm)) fun hn hm => hn ?_
          exact (Dict.mem_erase.1 hm).2
  unfold Scheduler.finishRequests
  dsimp only
  rw [fold]
  · rfl
  · exact h.requestId
  · refine hx.imp_left fun hn hm => hn ?_
    exact List.mem_dedup.1 (List.mem_filter.1 hm).1

/-- Finishing others keeps the account of a request. -/
lemma Told.finishRequests (ops : Caches μ β) (rids : List ReqId) (status : RequestStatus) (hwf : s.WF)
    (h : Told rid client sent s) (hn : rid ∉ rids) :
    Told rid client sent (s.finishRequests ops rids status) := by
  have spec := hwf.finishRequests ops rids status
  refine h.congr ?_ (hwf.departedAs_finishRequests ops rids status (.inl hn)) ?_
  · rw [spec.requests, if_neg hn]
    cases s.requests.get? rid with
    | none => exact .none
    | some r => exact .some (.refl r)
  · rw [spec.pendingPrunedOutputs]

/-- Finishing requests tells nothing of an id that was never added. -/
lemma Untold.finishRequests (ops : Caches μ β) (rids : List ReqId) (status : RequestStatus) (hwf : s.WF)
    (h : Untold rid sent s) : Untold rid sent (s.finishRequests ops rids status) := by
  have spec := hwf.finishRequests ops rids status
  have hn : rid ∉ s.requests := Dict.get?_eq_none.1 h.requests
  refine ⟨?_, ?_, ?_, h.sent⟩
  · rw [spec.requests, h.requests, ite_self]
  · rw [hwf.departedAs_finishRequests ops rids status (.inr hn)]
    exact h.departed
  · rw [spec.pendingPrunedOutputs]
    exact h.pending

/-- A relabelling is a change without departures. -/
lemma Relabels.leave (h : s.Relabels s') (hd : s'.departed = s.departed) : s.Leave s' := by
  refine .quiet hd h.pendingPrunedOutputs fun x => ?_
  have hrel := h.requests x
  generalize s.requests.get? x = o at hrel ⊢
  generalize s'.requests.get? x = o' at hrel ⊢
  cases hrel with
  | none => exact .none
  | some hr => exact .some hr.1

end Scheduler

variable {μ β : Type} {ops : Caches μ β} {cfg : VllmConfig} {m : μ}

/-- The id is in no list of requests that were finished from outside. -/
def NotAborted (h : List SchedEvent) (rid : ReqId) : Prop :=
  ∀ rids status, SchedEvent.finishRequests rids status ∈ h → rid ∉ rids

/-- The accounts of all ids in a state of a run. -/
structure Accounts (h : List SchedEvent) (os : List SchedRecord) (x : SchedState μ β) : Prop where
  flushed : x.batch = none → x.sched.pendingPrunedOutputs = ∅
  untold : ∀ rid, rid ∉ h.filterMap SchedEvent.added → x.sched.Untold rid (sentOutputs rid os)
  told : ∀ r, SchedEvent.addRequest r ∈ h → NotAborted h r.requestId →
    x.sched.Told r.requestId r.clientIndex (sentOutputs r.requestId os)

/-- A call that adds nobody keeps the accounts if it keeps each of them. -/
lemma Accounts.call {h : List SchedEvent} {os : List SchedRecord} {x x' : SchedState μ β}
    {ev : SchedEvent} {rec : SchedRecord} (ha : Accounts h os x) (hadd : ev.added = none)
    (hflush : x'.batch = none → x'.sched.pendingPrunedOutputs = ∅)
    (huntold : ∀ rid sent, x.sched.Untold rid sent →
      x'.sched.Untold rid (sent ++ outputsOf rid rec.outputs))
    (htold : ∀ rid client sent, (∀ rids status, ev = .finishRequests rids status → rid ∉ rids) →
      x.sched.Told rid client sent → x'.sched.Told rid client (sent ++ outputsOf rid rec.outputs)) :
    Accounts (h ++ [ev]) (os ++ [rec]) x' := by
  have hsent : ∀ rid, sentOutputs rid (os ++ [rec]) = sentOutputs rid os ++ outputsOf rid rec.outputs := by
    intro rid
    simp [sentOutputs]
  refine ⟨hflush, fun rid hn => ?_, fun r hr hna => ?_⟩
  · rw [hsent]
    refine huntold rid _ (ha.untold rid fun hm => hn ?_)
    rw [List.filterMap_append]
    exact List.mem_append_left _ hm
  · rw [hsent]
    have hr' : SchedEvent.addRequest r ∈ h := by
      rcases List.mem_append.1 hr with hr | hr
      · exact hr
      · rw [← List.mem_singleton.1 hr] at hadd
        cases hadd
    refine htold _ _ _ (fun rids status he => ?_) (ha.told r hr' fun rids status hm => ?_)
    · exact hna rids status (List.mem_append_right _ (by rw [he]; exact List.mem_singleton_self _))
    · exact hna rids status (List.mem_append_left _ hm)

/-- A call that changes no request's end and sends nothing keeps the accounts. -/
lemma Accounts.silent {h : List SchedEvent} {os : List SchedRecord} {x x' : SchedState μ β}
    {ev : SchedEvent} {rec : SchedRecord} (ha : Accounts h os x) (hadd : ev.added = none)
    (hflush : x'.batch = none → x'.sched.pendingPrunedOutputs = ∅)
    (hl : x.sched.Leaves x'.sched) (hrec : rec.outputs = ∅) : Accounts (h ++ [ev]) (os ++ [rec]) x' := by
  have hnil : ∀ rid, outputsOf rid rec.outputs = [] := by
    intro rid
    rw [hrec]
    rfl
  refine ha.call hadd hflush (fun rid sent hu => ?_) fun rid client sent _ ht => ?_
  · rw [hnil, List.append_nil]
    exact hu.leaves hl
  · rw [hnil, List.append_nil]
    exact ht.leaves hl

/-- A new request has its account, and the others keep theirs. -/
lemma Accounts.addRequest {h : List SchedEvent} {os : List SchedRecord} {x : SchedState μ β} {r : Request}
    (ha : Accounts h os x) (hnew : r.IsNew) (hid : r.requestId ∉ h.filterMap SchedEvent.added) :
    Accounts (h ++ [.addRequest r]) (os ++ [({} : SchedRecord)])
      { x with sched := x.sched.addRequest cfg.policy r } := by
  have hu := ha.untold r.requestId hid
  have hsent : ∀ rid, sentOutputs rid (os ++ [({} : SchedRecord)]) = sentOutputs rid os := by
    intro rid
    simp [sentOutputs, outputsOf]
  have hother : ∀ y, y ≠ r.requestId → (x.sched.addRequest cfg.policy r).requests.get? y =
      x.sched.requests.get? y := by
    intro y hy
    rw [Scheduler.get?_addRequest, if_neg hy]
  have hrefl : ∀ o : Option Request, Option.Rel Request.SameTrace o o := by
    rintro (- | r)
    · exact .none
    · exact .some (.refl r)
  refine ⟨ha.flushed, fun rid hn => ?_, fun r' hr hna => ?_⟩
  · rw [List.filterMap_append, List.mem_append, not_or] at hn
    have hne : rid ≠ r.requestId := by
      rintro rfl
      exact hn.2 (by simp [SchedEvent.added])
    rw [hsent]
    refine (ha.untold rid hn.1).congr ?_ rfl rfl
    dsimp only
    rw [hother rid hne]
    exact hrefl _
  · rw [hsent]
    rcases List.mem_append.1 hr with hr | hr
    · have hne : r'.requestId ≠ r.requestId := by
        intro he
        refine hid ?_
        rw [← he]
        exact List.mem_filterMap.2 ⟨_, hr, rfl⟩
      have hna' : NotAborted h r'.requestId :=
        fun rids status hm => hna rids status (List.mem_append_left _ hm)
      refine (ha.told r' hr hna').congr ?_ rfl rfl
      dsimp only
      rw [hother _ hne]
      exact hrefl _
    · cases List.mem_singleton.1 hr
      have hget : (x.sched.addRequest cfg.policy r).requests.get? r.requestId = some r := by
        rw [Scheduler.get?_addRequest, if_pos rfl]
      refine ⟨fun r1 hr1 => ?_, fun hn => ?_⟩
      · dsimp only at hr1
        rw [hget] at hr1
        cases hr1
        refine ⟨rfl, hu.departed, hu.pending, ?_⟩
        rw [hu.sent, hnew.outputTokenIds]
        exact ⟨fun _ he => absurd he List.not_mem_nil, fun _ he => absurd he List.not_mem_nil, rfl⟩
      · dsimp only at hn
        rw [hget] at hn
        cases hn

/-- Every call keeps the accounts. -/
lemma SchedState.accounts_next {h : List SchedEvent} {os : List SchedRecord} {x : SchedState μ β}
    {ev : SchedEvent} (hs : x.sched.Sound (h.filterMap SchedEvent.added)) (ha : Accounts h os x)
    (hok : ev.Ok h) :
    Accounts (h ++ [ev]) (os ++ [(x.next ops cfg ev).2]) (x.next ops cfg ev).1 := by
  cases ev with
  | addRequest r => exact ha.addRequest hok.1 hok.2
  | schedule ready =>
    cases hb : x.batch with
    | some so =>
      have he : x.next ops cfg (.schedule ready) = (x, {}) := by simp only [SchedState.next, hb]
      rw [he]
      exact ha.silent rfl ha.flushed .refl rfl
    | none =>
      have he : x.next ops cfg (.schedule ready) =
          ({ sched := (x.sched.schedule ops cfg ready).1, batch := some (x.sched.schedule ops cfg ready).2 },
            { scheduled := (x.sched.schedule ops cfg ready).2.numScheduledTokens
              admitted := (x.sched.schedule ops cfg ready).2.scheduledNewReqs ++
                (x.sched.schedule ops cfg ready).2.scheduledResumedReqs }) := by
        simp only [SchedState.next, hb]
      rw [he]
      exact ha.silent rfl (fun h => by cases h) (hs.wf.schedule_leaves ops cfg ready) rfl
  | updateFromOutput mo finals histories =>
    cases hb : x.batch with
    | none =>
      have he : x.next ops cfg (.updateFromOutput mo finals histories) = (x, {}) := by
        simp only [SchedState.next, hb]
      rw [he]
      exact ha.silent rfl ha.flushed .refl rfl
    | some so =>
      have he : x.next ops cfg (.updateFromOutput mo finals histories) =
          ({ sched := (x.sched.updateFromOutput ops cfg so mo finals histories).1 },
            { outputs := (x.sched.updateFromOutput ops cfg so mo finals histories).2 }) := by
        simp only [SchedState.next, hb]
      rw [he]
      refine ha.call rfl (fun _ => ?_) (fun rid sent hu => ?_) fun rid client sent _ ht => ?_
      · exact (hs.wf.updateFromOutput so mo finals histories).pendingPrunedOutputs
      · exact hu.updateFromOutput ops cfg so mo finals histories hs.wf
      · exact ht.updateFromOutput ops cfg so mo finals histories hs.wf
  | finishRequests rids status =>
    have spec := hs.wf.finishRequests ops rids status
    refine ha.call rfl (fun hb => ?_) (fun rid sent hu => ?_) fun rid client sent hn ht => ?_
    · exact spec.pendingPrunedOutputs.trans (ha.flushed hb)
    · have h0 := hu.finishRequests ops rids status hs.wf
      simpa [SchedState.next, outputsOf] using h0
    · have h0 := ht.finishRequests ops rids status hs.wf (hn rids status rfl)
      simpa [SchedState.next, outputsOf] using h0
  | markStopReason rids reason =>
    have hl := (Scheduler.relabels_markStopReason x.sched rids reason).leave rfl
    exact ha.silent rfl ha.flushed (.single hl) rfl
  | updateTraceScores scores =>
    have hl := (Scheduler.relabels_updateTraceScores x.sched scores).leave rfl
    exact ha.silent rfl ha.flushed (.single hl) rfl
  | updateDraftTokenIds drafts =>
    have hl := (Scheduler.relabels_updateDraftTokenIds x.sched drafts).leave rfl
    exact ha.silent rfl ha.flushed (.single hl) rfl

/-- The accounts in every run. -/
theorem accounts_of_runs {h : List SchedEvent} {os : List SchedRecord} {x : SchedState μ β}
    (run : (schedMachine ops cfg m).Runs h os x) : Accounts h os x := by
  induction run with
  | init =>
    refine ⟨fun _ => rfl, fun rid _ => ⟨rfl, rfl, rfl, rfl⟩, fun r hr => ?_⟩
    cases hr
  | step run hok ih => exact SchedState.accounts_next (sound_of_runs run) ih hok

/-- Between two steps, a request that was added, was not finished from outside and is gone left the
scheduler once, and its outputs were all sent to its client: they carry the tokens it had when it
left, and the last one, and no other, is terminal. -/
theorem one_terminal_output {h : List SchedEvent} {os : List SchedRecord} {x : SchedState μ β}
    {r : Request} (run : (schedMachine ops cfg m).Runs h os x) (hb : x.batch = none)
    (hadd : SchedEvent.addRequest r ∈ h) (hna : NotAborted h r.requestId)
    (hgone : r.requestId ∉ x.sched.requests) :
    ∃ d, x.sched.departedAs r.requestId = [d] ∧
      Ended r.clientIndex d.outputTokenIds (sentOutputs r.requestId os) := by
  have ha := accounts_of_runs run
  obtain ⟨d, hd, -, hend⟩ := (ha.told r hadd hna).gone (Dict.get?_eq_none.2 hgone)
  refine ⟨d, hd, ?_⟩
  rw [ha.flushed hb] at hend
  simpa [outputsOf] using hend

/-- A request that is evicted by its own second token, which does not fit: nothing is running any
more, and the step that schedules nothing sends the terminal output. -/
theorem one_terminal_output_evicted :
    let cfg : VllmConfig := { gambit := { enable := true }, scheduler := {} }
    let r : Request := { requestId := ['a'], clientIndex := 3, promptTokenIds := [7] }
    let es : List SchedEvent := [.addRequest r, .schedule fun _ => true,
      .updateFromOutput ⟨[(['a'], [5])], by decide⟩ ∅ none, .schedule fun _ => true,
      .updateFromOutput ∅ ∅ none]
    let run := (schedMachine (Caches.bounded 1) cfg ∅).exec es
    ∃ d, run.2.sched.departedAs ['a'] = [d] ∧
      Ended 3 d.outputTokenIds (sentOutputs ['a'] run.1) :=
  one_terminal_output (Machine.Runs.of_exec (by decide +kernel)) (by decide +kernel)
    (List.mem_cons_self) (by simp [NotAborted]) (by decide +kernel)

end Gambit.Sched
