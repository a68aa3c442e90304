import Gambit.Sched.Admission

/-!
# The order of the waiting queue

Under FCFS and GAMBIT the waiting queue is a deque. A preempted request is put in front of it, and
since the victims are taken from the end of `running`, they come to stand in the order they had there.
The requests that the second loop skips are collected by prepending to a second deque, which is put in
front of the first one as it is: they come back in the opposite order.

`putAside` are the requests that meet a skip test at their turn, in the order of the queue.
`LoopOrder` says what the second loop does to the order, and `waiting_order_iff` when nothing changed.
-/

namespace Gambit.Sched
open Gambit.Lib

namespace Pass
variable {μ β : Type}

/-- The requests that meet a skip test at their turn of the waiting loop, in the order of the queue. -/
def putAside (ops : Caches μ β) (cfg : VllmConfig) (ready : ReqId → Bool) :
    List ReqId → List Int → Pass μ β → List ReqId
  | [], _, _ => []
  | rid :: rest, loras, p =>
    if p.tokenBudget ≤ 0 ∨ p.sched.running.length = cfg.scheduler.maxNumSeqs then []
    else match p.sched.requests.get? rid with
      | none => []
      | some r =>
        if p.skips ops cfg ready loras rid r then
          rid :: putAside ops cfg ready rest loras (p.considerWaiting ops cfg ready loras rid r).pass
        else if p.fits ops cfg r.leaveFsm then
          putAside ops cfg ready rest (addLora cfg loras r)
            (p.considerWaiting ops cfg ready loras rid r).pass
        else []

variable {ops : Caches μ β} {cfg : VllmConfig} {p q : Pass μ β} {idx idx' : Nat} {rid victim : ReqId}
variable {r : Request}

/-- What the waiting loop does to the order of its queue, where `aside` is put aside. -/
structure LoopOrder (p : Pass μ β) (queue skipped aside : List ReqId)
    (res : Pass μ β × List ReqId × List ReqId) : Prop where
  /-- Every skipped request is put in front of the others. -/
  skipped : res.2.2 = aside.reverse ++ skipped
  /-- Who is not admitted is put aside, or stays behind. -/
  left : queue.filter (· ∉ res.1.admitted) = aside ++ res.2.1
  kept : ∀ x ∈ p.admitted, x ∈ res.1.admitted
  admitted : ∀ x ∈ res.1.admitted, x ∈ p.admitted ∨ x ∈ queue

/-- A loop that ends at once. -/
lemma LoopOrder.stay {queue skipped : List ReqId} (h : Stays p q) (hn : ∀ x ∈ queue, x ∉ p.admitted) :
    LoopOrder p queue skipped [] (q, queue, skipped) := by
  refine ⟨rfl, ?_, fun x hx => h.admitted ▸ hx, fun x hx => .inl (h.admitted ▸ hx)⟩
  refine List.filter_eq_self.2 fun x hx => decide_eq_true ?_
  rw [h.admitted]
  exact hn x hx

/-- The order after the waiting loop. -/
lemma waitingLoop_order (ops : Caches μ β) (hp : cfg.policy ≠ .priority) (ready : ReqId → Bool) {queue : List ReqId}
    (skipped : List ReqId) (loras : List Int) (hq : queue.Nodup) (hn : ∀ x ∈ queue, x ∉ p.admitted) :
    LoopOrder p queue skipped (p.putAside ops cfg ready queue loras)
      (p.waitingLoop ops cfg ready queue skipped loras) := by
  induction queue generalizing p skipped loras with
  | nil => exact .stay ⟨rfl, rfl⟩ hn
  | cons rid rest ih =>
    obtain ⟨hrid, hrest⟩ := List.nodup_cons.1 hq
    have hn' : ∀ x ∈ rest, x ∉ p.admitted := fun x hx => hn x (.tail _ hx)
    rw [Pass.waitingLoop, putAside]
    split
    · exact .stay ⟨rfl, rfl⟩ hn
    cases hr : p.sched.requests.get? rid with
    | none => exact .stay ⟨rfl, rfl⟩ hn
    | some r =>
      dsimp only
      rcases considerWaiting_tests ops cfg ready loras p rid r with
        ⟨hs, q, he, haside⟩ | ⟨hs, hf, q, he, hj⟩ | ⟨hs, hf, q, he, hq⟩
      · rw [he, if_pos hs]
        have hpre : q.sched.queuePrepend cfg.policy skipped rid = rid :: skipped := by
          unfold Scheduler.queuePrepend
          split
          · next hprio => exact absurd hprio hp
          · rfl
        have h := ih (q.sched.queuePrepend cfg.policy skipped rid) loras hrest
          (fun x hx => haside.admitted ▸ hn' x hx)
        rw [hpre] at h
        dsimp only [Verdict.pass]
        rw [hpre]
        have hnot : rid ∉ (q.waitingLoop ops cfg ready rest (rid :: skipped) loras).1.admitted := by
          intro hm
          rcases h.admitted rid hm with hm | hm
          · rw [haside.admitted] at hm
            exact hn rid List.mem_cons_self hm
          · exact hrid hm
        refine ⟨?_, ?_, fun x hx => h.kept x (haside.admitted ▸ hx), fun x hx => ?_⟩
        · rw [h.skipped, List.reverse_cons, List.append_assoc]
          rfl
        · rw [List.filter_cons, if_pos (decide_eq_true hnot), h.left]
          rfl
        · rcases h.admitted x hx with hx | hx
          · exact .inl (haside.admitted ▸ hx)
          · exact .inr (.tail _ hx)
      · rw [he, hs, hf]
        have h := ih skipped (addLora cfg loras r) hrest (fun x hx hm => by
          rcases (hj.admitted x).1 hm with rfl | hm
          · exact hrid hx
          · exact hn' x hx hm)
        have hin : rid ∈ (q.waitingLoop ops cfg ready rest skipped (addLora cfg loras r)).1.admitted :=
          h.kept rid ((hj.admitted rid).2 (.inl rfl))
        refine ⟨h.skipped, ?_, fun x hx => h.kept x ((hj.admitted x).2 (.inr hx)), fun x hx => ?_⟩
        · rw [List.filter_cons_of_neg]
          · exact h.left
          · exact fun hd => of_decide_eq_true hd hin
        · rcases h.admitted x hx with hx | hx
          · rcases (hj.admitted x).1 hx with rfl | hx
            · exact .inr List.mem_cons_self
            · exact .inl hx
          · exact .inr (.tail _ hx)
      · rw [he, hs, hf]
        exact .stay hq hn

/-- The victims stand in front of the waiting queue, in the order they had in the running one. -/
structure InOrder (cfg : VllmConfig) (s : Scheduler μ) (p : Pass μ β) : Prop where
  waiting : p.sched.waiting = p.preemptedReqs.reverse ++ s.waiting
  running : cfg.policy = .fcfs → p.sched.running ++ p.preemptedReqs.reverse = s.running

/-- Other caches do not matter. -/
lemma InOrder.setCaches {s : Scheduler μ} (h : InOrder cfg s p) (m : μ) : InOrder cfg s (p.setCaches m) :=
  ⟨h.waiting, h.running⟩

/-- Making room keeps the order. -/
lemma InOrder.vacates {s : Scheduler μ} (h : InOrder cfg s p) (hp : cfg.policy ≠ .priority)
    (hv : Vacates ops cfg p idx victim q idx') : InOrder cfg s q := by
  cases hv with
  | evict hg hl hr =>
    refine ⟨(evict_frame ops hl hr).2.1.trans h.waiting, fun hf => ?_⟩
    exact absurd (hg.symm.trans hf) (by decide)
  | pop hf hl hr =>
    have hback : (p.preemptedReqs ++ [victim]).reverse = victim :: p.preemptedReqs.reverse := by
      rw [List.reverse_append]
      rfl
    constructor
    · dsimp only [Pass.preempt, Scheduler.preempt]
      rw [hr, hback]
      dsimp only
      rw [hf]
      exact congrArg (victim :: ·) h.waiting
    · intro _
      rw [(preempt_frame ..).1]
      show p.sched.running.dropLast ++ (p.preemptedReqs ++ [victim]).reverse = s.running
      rw [hback, ← h.running hf, ← List.dropLast_append_getLast? victim hl]
      simp
  | takeBack hg => exact absurd hg hp
  | drop hg => exact absurd hg hp

/-- A turn keeps the order. -/
lemma InOrder.turn {s : Scheduler μ} {x y : Point μ β} (h : InOrder cfg s x.pass)
    (hp : cfg.policy ≠ .priority) (ht : Turn ops cfg x y) : InOrder cfg s y.pass := by
  cases ht with
  | look _ _ _ henc =>
    obtain ⟨m, rfl⟩ := tryEncoder_caches henc
    exact InOrder.setCaches h m
  | skip => exact h
  | room _ _ _ hv => exact InOrder.vacates (InOrder.setCaches h _) hp hv
  | fail _ _ _ hv => exact InOrder.vacates (InOrder.setCaches h _) hp hv
  | run =>
    dsimp only [Point.pass] at h ⊢
    refine ⟨?_, fun hf => ?_⟩
    · rw [(runRequest_kept ..).1, (runRequest_kept ..).2.1]
      exact h.waiting
    · rw [(runRequest_frame ..).1, (runRequest_kept ..).2.1]
      exact h.running hf

end Pass

namespace Scheduler
variable {μ β : Type} {ops : Caches μ β} {cfg : VllmConfig} {s : Scheduler μ}

/-- The requests that meet a skip test at their turn in a call of `schedule`. -/
def skippedWaiting (ops : Caches μ β) (cfg : VllmConfig) (ready : ReqId → Bool) (s : Scheduler μ) :
    List ReqId :=
  if (s.afterRunning ops cfg).preemptedReqs.isEmpty then
    (s.afterRunning ops cfg).putAside ops cfg ready (s.afterRunning ops cfg).sched.waiting
      ((s.afterRunning ops cfg).scheduledLoras cfg)
  else []

/-- A list without repetitions is its own reverse if and only if it has no two elements. -/
lemma reverse_eq_iff {l : List ReqId} (h : l.Nodup) : l.reverse = l ↔ l.length ≤ 1 := by
  cases l with
  | nil => exact iff_of_true rfl (Nat.zero_le 1)
  | cons a l =>
    cases l with
    | nil => exact iff_of_true rfl (Nat.le_refl 1)
    | cons b l =>
      refine iff_of_false (fun he => ?_) (by simp)
      have hlast : (a :: b :: l).getLast? = some a := by
        rw [← he, List.getLast?_reverse]
        rfl
      rw [List.getLast?_cons_cons] at hlast
      exact (List.nodup_cons.1 h).1 (List.mem_of_getLast? hlast)

/-- `_update_after_schedule` does not touch the waiting queue. -/
lemma foldl_advance_waiting (ops : Caches μ β) (l : List (ReqId × Int)) (s : Scheduler μ) :
    (l.foldl (Scheduler.advance ops) s).waiting = s.waiting := by
  induction l generalizing s with
  | nil => rfl
  | cons e l ih => rw [List.foldl_cons, ih, (advance_frame ops s e).2.1]

/-- The order between the two loops. -/
lemma WF.inOrder_afterRunning (ops : Caches μ β) (h : s.WF) (hp : cfg.policy ≠ .priority) :
    Pass.InOrder cfg s (s.afterRunning ops cfg) := by
  have hstart : Pass.InOrder cfg s (s.startPass (β := β) cfg) := by
    unfold Scheduler.startPass
    constructor
    · dsimp only
      split <;> rfl
    · intro hf
      rw [hf]
      exact List.append_nil _
  obtain ⟨x, -, -, hx, he⟩ := h.afterRunning_keep ops cfg (P := fun x => Pass.InOrder cfg s x.pass)
    (fun ht _ ha => ha.turn hp ht) hstart
  exact he ▸ hx

/-- The victims in the order they had in the running queue. -/
lemma WF.filter_preempted (ops : Caches μ β) (h : s.WF) (hp : cfg.policy ≠ .priority) :
    s.running.filter (· ∈ (s.afterRunning ops cfg).preemptedReqs) =
      (s.afterRunning ops cfg).preemptedReqs.reverse := by
  have hord := h.inOrder_afterRunning ops hp
  cases hg : cfg.policy with
  | priority => exact absurd hg hp
  | gambit =>
    rw [(h.waiting_afterRunning ops hg).2]
    exact List.filter_eq_nil_iff.2 fun x _ hx => List.not_mem_nil (of_decide_eq_true hx)
  | fcfs =>
    have hrun := hord.running hg
    have hnd : s.running.Nodup := h.nodup.of_append_left
    rw [← hrun] at hnd
    rw [← hrun, List.filter_append]
    have hfront : (s.afterRunning ops cfg).sched.running.filter
        (· ∈ (s.afterRunning ops cfg).preemptedReqs) = [] := by
      refine List.filter_eq_nil_iff.2 fun x hx hm => ?_
      have hm := List.mem_reverse.2 (of_decide_eq_true hm)
      exact List.disjoint_of_nodup_append hnd hx hm
    rw [hfront]
    exact List.filter_eq_self.2 fun x hx => decide_eq_true (List.mem_reverse.1 hx)

/-- Under FCFS and GAMBIT the waiting queue keeps its order, behind the requests preempted in the call, if
and only if at most one request was skipped. -/
theorem waiting_order_iff (ops : Caches μ β) (cfg : VllmConfig) (ready : ReqId → Bool) (h : s.WF)
    (hp : cfg.policy ≠ .priority) :
    (s.schedule ops cfg ready).1.waiting =
        s.running.filter (· ∈ (s.schedulePass ops cfg ready).preemptedReqs) ++
          s.waiting.filter (· ∉ (s.schedule ops cfg ready).2.scheduledNewReqs ++
            (s.schedule ops cfg ready).2.scheduledResumedReqs) ↔
      (s.skippedWaiting ops cfg ready).length ≤ 1 := by
  have hnone := h.admitted_afterRunning ops cfg
  have hord := h.inOrder_afterRunning ops hp
  have hfilter := h.filter_preempted ops hp
  have hout : (s.schedule ops cfg ready).2.scheduledNewReqs ++
      (s.schedule ops cfg ready).2.scheduledResumedReqs = (s.schedulePass ops cfg ready).admitted := rfl
  have hwait : (s.schedule ops cfg ready).1.waiting = (s.schedulePass ops cfg ready).sched.waiting := by
    unfold Scheduler.schedule updateAfterSchedule
    exact foldl_advance_waiting ops _ _
  rw [hout, hwait, schedulePass_eq]
  unfold admitWaiting skippedWaiting
  split
  · next hempty =>
    rw [List.isEmpty_iff] at hempty
    have hw : (s.afterRunning ops cfg).sched.waiting = s.waiting := by
      rw [hord.waiting, hempty]
      rfl
    rw [hempty] at hfilter
    have hnd : s.waiting.Nodup := h.nodup.of_append_right
    have hloop := Pass.waitingLoop_order ops hp ready [] ((s.afterRunning ops cfg).scheduledLoras cfg) hnd
      (fun x _ hm => by rw [hnone] at hm; cases hm)
    rw [hw]
    generalize (s.afterRunning ops cfg).putAside ops cfg ready s.waiting
      ((s.afterRunning ops cfg).scheduledLoras cfg) = aside at hloop ⊢
    have hpre : ((s.afterRunning ops cfg).waitingLoop ops cfg ready s.waiting []
        ((s.afterRunning ops cfg).scheduledLoras cfg)).1.preemptedReqs = [] := by
      refine Pass.waitingLoop_induct (P := fun q => q.preemptedReqs = []) ops cfg ready (fun _ _ h => h)
        (fun _ _ _ h => h) ?_ _ _ _ hempty
      intro p rid r computed n inputs budget h
      unfold Pass.scheduleEncoder
      split
      · exact h
      · exact h
    generalize (s.afterRunning ops cfg).waitingLoop ops cfg ready s.waiting []
      ((s.afterRunning ops cfg).scheduledLoras cfg) = res at hloop hpre ⊢
    have hall : ∀ (t : Scheduler μ) (q l : List ReqId), t.queuePrependAll cfg.policy q l = l ++ q := by
      intro t q l
      unfold Scheduler.queuePrependAll
      split
      · next hprio => exact absurd hprio hp
      · rfl
    obtain ⟨q, rest, skipped⟩ := res
    have hs := hloop.skipped
    have hl := hloop.left
    dsimp only at hs hl hpre ⊢
    have hsub : (aside ++ rest).Nodup := hl ▸ hnd.filter _
    show _ = s.running.filter (· ∈ q.preemptedReqs) ++ s.waiting.filter (· ∉ q.admitted) ↔ _
    rw [hall, hs, hl, hpre, hfilter, List.append_nil]
    refine Iff.trans ?_ (reverse_eq_iff hsub.of_append_left)
    exact List.append_left_inj rest
  · next hempty =>
    rw [hnone, hfilter, hord.waiting]
    refine iff_of_true ?_ (Nat.zero_le 1)
    congr 1
    exact (List.filter_eq_self.2 fun x _ => decide_eq_true List.not_mem_nil).symm

/-- A request whose grammar is not compiled yet. -/
def structuredRequest (rid : ReqId) : Request where
  requestId := rid
  promptTokenIds := [1]
  samplingParams := { structuredOutputs := true }
  status := .waitingForFsm

/-- Two requests that wait for their grammars. -/
def twoGrammars : List SchedEvent :=
  [.addRequest (structuredRequest ['a']), .addRequest (structuredRequest ['b'])]

/-- With one of the two grammars compiled the order stays. -/
theorem waiting_order_one_grammar :
    let cfg : VllmConfig := { gambit := {}, scheduler := {} }
    let s := ((schedMachine Caches.unbounded cfg ()).exec twoGrammars).2.sched
    let ready : ReqId → Bool := fun rid => rid = ['b']
    (s.schedule Caches.unbounded cfg ready).1.waiting =
      s.running.filter (· ∈ (s.schedulePass Caches.unbounded cfg ready).preemptedReqs) ++
        s.waiting.filter (· ∉ (s.schedule Caches.unbounded cfg ready).2.scheduledNewReqs ++
          (s.schedule Caches.unbounded cfg ready).2.scheduledResumedReqs) := by
  intro cfg s ready
  have hwf : s.WF := (sound_of_runs (Machine.Runs.of_exec (by decide +kernel))).wf
  exact (waiting_order_iff Caches.unbounded cfg ready hwf (by decide)).2 (by decide +kernel)

/-- With none compiled both are skipped, and they change places. -/
theorem two_skipped_reversed :
    let cfg : VllmConfig := { gambit := {}, scheduler := {} }
    let s := ((schedMachine Caches.unbounded cfg ()).exec twoGrammars).2.sched
    s.waiting = [['a'], ['b']] ∧
      (s.schedule Caches.unbounded cfg fun _ => false).1.waiting = [['b'], ['a']] ∧
      (s.schedulePass Caches.unbounded cfg fun _ => false).preemptedReqs = [] ∧
      (s.schedule Caches.unbounded cfg fun _ => false).2.scheduledNewReqs = [] ∧
      (s.schedule Caches.unbounded cfg fun _ => false).2.scheduledResumedReqs = [] := by
  decide +kernel

end Scheduler
end Gambit.Sched
