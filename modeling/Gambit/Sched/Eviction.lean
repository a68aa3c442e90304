import Gambit.Sched.Order

/-!
# Eviction under GAMBIT

`_stop_lowest_running` pops the last of `running`, which `schedule` sorted by `(-score, arrival_time)`.
The loop over the running requests walks that list from the front, so the evicted requests are a suffix
of the sorted list that the loop has not reached (`Evictions`).

`Tally` is what a pass keeps under GAMBIT: the scheduled requests are the keys of the dictionaries of the
output, each of them once, and the token budget is what is left of the limit. The assertions at the end
of `schedule` and the look-ups of `_update_after_schedule` follow from it.
-/

namespace Gambit.Sched
open Gambit.Lib

/-- `_try_schedule_encoder_inputs` leaves a negative number of new tokens negative, or sets it to zero. -/
def Caches.EncoderKeepsSign {μ β : Type} (ops : Caches μ β) : Prop :=
  ∀ m r computed n budget, n < 0 → (ops.tryScheduleEncoderInputs m r computed n budget).2.2.1 ≤ 0

namespace Pass
variable {μ β : Type} {ops : Caches μ β} {cfg : VllmConfig} {blocks entries : μ → ReqId → Prop}
variable {p p' q : Pass μ β} {rid : ReqId} {r : Request}

/-- What a pass keeps under GAMBIT. -/
structure Tally (cfg : VllmConfig) (p : Pass μ β) : Prop where
  nodup : (p.scheduledRunningReqs ++ p.admitted).Nodup
  sync : ∀ x, x ∈ p.numScheduledTokens ↔ x ∈ p.scheduledRunningReqs ++ p.admitted
  blocks : ∀ x, x ∈ p.reqToNewBlocks ↔ x ∈ p.numScheduledTokens
  budget : 0 ≤ p.tokenBudget
  total : p.tokenBudget + p.numScheduledTokens.values.sum = cfg.scheduler.maxNumBatchedTokens
  seats : p.sched.running.length ≤ cfg.scheduler.maxNumSeqs

/-- Other caches and requests do not matter. -/
lemma Tally.sched (h : p.Tally cfg) (s : Scheduler μ)
    (hl : s.running.length ≤ p.sched.running.length) : ({ p with sched := s } : Pass μ β).Tally cfg :=
  ⟨h.nodup, h.sync, h.blocks, h.budget, h.total, hl.trans h.seats⟩

/-- Recorded encoder inputs do not matter. -/
lemma Tally.scheduleEncoder (h : p.Tally cfg) (r : Request) (inputs : List Nat) (b : Int) :
    (p.scheduleEncoder ops r inputs b).Tally cfg := by
  unfold Pass.scheduleEncoder
  split
  · exact h
  · exact ⟨h.nodup, h.sync, h.blocks, h.budget, h.total, h.seats⟩

/-- A round of the inner loop keeps the tally. -/
lemma Room.tally (hg : cfg.policy = .gambit) (hroom : Room ops cfg p q) (h : p.Tally cfg) :
    q.Tally cfg ∧ q.tokenBudget = p.tokenBudget := by
  cases hroom with
  | refuse => exact ⟨h.sched _ (Nat.le_refl _), rfl⟩
  | evict _ hl hr =>
    refine ⟨h.sched _ ?_, rfl⟩
    rw [(evict_frame ops hl hr).1, List.length_dropLast]
    exact Nat.sub_le _ _
  | preempt hp => exact absurd hg hp

/-- The inner loop keeps the tally. -/
lemma Room.tally_of_rooms (hg : cfg.policy = .gambit)
    (hrooms : Relation.ReflTransGen (Room ops cfg) p q) (h : p.Tally cfg) :
    q.Tally cfg ∧ q.tokenBudget = p.tokenBudget := by
  induction hrooms with
  | refl => exact ⟨h, rfl⟩
  | tail _ hroom ih =>
    obtain ⟨hq, hb⟩ := hroom.tally hg ih.1
    exact ⟨hq, hb.trans ih.2⟩

/-- A request at the end of a list without repetitions. -/
lemma nodup_snoc {l : List ReqId} (hl : l.Nodup) (hn : rid ∉ l) : (l ++ [rid]).Nodup := by
  rw [List.nodup_append]
  refine ⟨hl, List.nodup_singleton rid, fun a ha b hb he => ?_⟩
  rw [List.mem_singleton.1 hb] at he
  exact hn (he ▸ ha)

/-- What giving tokens to a running request does to the output. -/
lemma runRequest_blocks (ops : Caches μ β) (p : Pass μ β) (m : μ) (rid : ReqId) (r : Request)
    (numNew : Int) (b : β) (inputs : List Nat) (budget : Int) :
    (p.runRequest ops m rid r numNew b inputs budget).reqToNewBlocks = p.reqToNewBlocks.set rid b := by
  unfold Pass.runRequest Pass.scheduleEncoder Pass.scheduleSpec
  dsimp only
  split_ifs <;> rfl

/-- A running request gets tokens within the budget. -/
lemma Tally.runRequest {m : μ} {numNew budget : Int} {b : β} {inputs : List Nat} (h : p.Tally cfg)
    (hn : rid ∉ p.numScheduledTokens) (hle : numNew ≤ p.tokenBudget) :
    (p.runRequest ops m rid r numNew b inputs budget).Tally cfg := by
  obtain ⟨h1, h2, h3, h4, -⟩ := runRequest_frame ops p m rid r numNew b inputs budget
  have hb := runRequest_blocks ops p m rid r numNew b inputs budget
  have ha := (runRequest_kept ops p m rid r numNew b inputs budget).2.2
  have hnot : rid ∉ p.scheduledRunningReqs ++ p.admitted := fun hm => hn ((h.sync rid).2 hm)
  have hperm : (p.scheduledRunningReqs ++ [rid] ++ p.admitted).Perm
      (p.scheduledRunningReqs ++ p.admitted ++ [rid]) := by
    rw [List.append_assoc, List.append_assoc]
    exact List.Perm.append_left _ List.perm_append_comm
  refine ⟨?_, fun x => ?_, fun x => ?_, ?_, ?_, ?_⟩
  · rw [h3, ha]
    exact hperm.nodup_iff.2 (nodup_snoc h.nodup hnot)
  · rw [h2, h3, ha, Dict.mem_set, hperm.mem_iff, List.mem_append, List.mem_singleton, h.sync x]
    exact or_comm
  · rw [hb, h2, Dict.mem_set, Dict.mem_set, h.blocks x]
  · rw [h4]
    omega
  · have htotal := h.total
    rw [h2, h4, Dict.sum_values_set_of_not_mem numNew hn]
    omega
  · rw [h1]
    exact h.seats

/-- An admission within the budget and the seats. -/
lemma Tally.admitRequest {computed numNew : Int} (h : p.Tally cfg) (hn : rid ∉ p.numScheduledTokens)
    (hle : numNew ≤ p.tokenBudget) (hlen : p.sched.running.length ≠ cfg.scheduler.maxNumSeqs) :
    (p.admitRequest ops rid r computed numNew).Tally cfg := by
  have hnot : rid ∉ p.scheduledRunningReqs ++ p.admitted := fun hm => hn ((h.sync rid).2 hm)
  have hperm : (p.admitRequest ops rid r computed numNew).admitted.Perm (p.admitted ++ [rid]) := by
    unfold Pass.admitRequest Pass.admitted
    dsimp only
    split
    · rw [List.append_assoc, List.append_assoc]
      exact List.Perm.append_left _ List.perm_append_comm
    · rw [List.append_assoc]
  have hall : (p.scheduledRunningReqs ++ (p.admitRequest ops rid r computed numNew).admitted).Perm
      (p.scheduledRunningReqs ++ p.admitted ++ [rid]) := by
    rw [List.append_assoc]
    exact List.Perm.append_left _ hperm
  refine ⟨hall.nodup_iff.2 (nodup_snoc h.nodup hnot), fun x => ?_, fun x => ?_, ?_, ?_, ?_⟩
  · refine Iff.trans ?_ hall.mem_iff.symm
    rw [List.mem_append, List.mem_singleton, ← h.sync x]
    exact Dict.mem_set.trans or_comm
  · exact Dict.mem_set.trans ((or_congr_right (h.blocks x)).trans Dict.mem_set.symm)
  · show 0 ≤ p.tokenBudget - numNew
    omega
  · show p.tokenBudget - numNew + (p.numScheduledTokens.set rid numNew).values.sum = _
    have htotal := h.total
    rw [Dict.sum_values_set_of_not_mem numNew hn]
    omega
  · show (p.sched.running ++ [rid]).length ≤ _
    have hseats := h.seats
    rw [List.length_append, List.length_singleton]
    omega

/-- The encoder look-up leaves no more than the budget. -/
lemma EncoderLeaves.le_budget {computed n numNew budget : Int} (laws : ops.Laws blocks entries)
    (henc : ops.EncoderKeepsSign) (h : EncoderLeaves ops r computed n numNew) (hn : n ≤ budget)
    (hb : 0 ≤ budget) : numNew ≤ budget := by
  rcases Int.lt_or_le n 0 with hneg | hpos
  · unfold EncoderLeaves at h
    split at h
    · obtain ⟨m, b, rfl⟩ := h
      exact (henc m r computed n b hneg).trans hb
    · exact h ▸ hn
  · exact (h.bounds laws hpos).2.trans hn

/-- Every change of a pass keeps the tally. -/
lemma Step.tally (laws : ops.Laws blocks entries) (henc : ops.EncoderKeepsSign)
    (hg : cfg.policy = .gambit) (hstep : Step ops cfg p p') (h : p.Tally cfg) : p'.Tally cfg := by
  cases hstep with
  | encoder => exact h.sched _ (Nat.le_refl _)
  | room hroom => exact (hroom.tally hg h).1
  | @run q m rid r numNew b inputs budget _ hleaves _ hrooms _ _ hn _ =>
    obtain ⟨hq, hb⟩ := Room.tally_of_rooms hg hrooms h
    have hle : numNewRunning cfg r p.tokenBudget ≤ p.tokenBudget := by
      unfold numNewRunning
      dsimp only
      omega
    refine hq.runRequest hn ?_
    rw [hb]
    exact hleaves.le_budget laws henc hle h.budget
  | ready => exact h.sched _ (Nat.le_refl _)
  | refuse => exact h.sched _ (Nat.le_refl _)
  | @admitted m₀ m rid r numNew cached b computed lookahead encoderTokens b' inputs budget _ _ _ hn hb hlen
      _ _ hleaves _ _ =>
    have hm : (p.setCaches m).Tally cfg := h.sched _ (Nat.le_refl _)
    have hle : numNew ≤ p.tokenBudget := hleaves.le_budget laws henc (min_le_right _ _) h.budget
    exact (hm.admitRequest hn hle hlen).scheduleEncoder r inputs budget

/-- At some point of the loop `allocate_slots` refused the request at hand while `x` was the last of the
running queue. -/
inductive RefusedWith (ops : Caches μ β) (cfg : VllmConfig) (start : Pass μ β) (x : ReqId) : Prop where
  | intro {idx seen rid r numNew inputs budget p m} :
    Turns ops cfg (.head 0 [] start) (.hand idx seen rid numNew inputs budget p) →
    p.sched.running[idx]? = some rid →
    p.sched.requests.get? rid = some r →
    ops.allocateSlots p.sched.caches r numNew 0 none cfg.scheduler.numLookaheadTokens 0 = (m, none) →
    p.sched.running.getLast? = some x →
    RefusedWith ops cfg start x

/-- The running queue lost its last requests, each after a refused allocation. -/
def LostTail (ops : Caches μ β) (cfg : VllmConfig) (start p : Pass μ β) : Prop :=
  ∃ evicted, start.sched.running = p.sched.running ++ evicted ∧ ∀ x ∈ evicted, RefusedWith ops cfg start x

/-- An eviction takes the last request. -/
lemma LostTail.evict {start : Pass μ β} {idx idx' : Nat} {seen inputs : List _} {numNew budget : Int}
    {m : μ} {victim : ReqId} (h : LostTail ops cfg start p) (hg : cfg.policy = .gambit)
    (hpath : Turns ops cfg (.head 0 [] start) (.hand idx seen rid numNew inputs budget p))
    (hc : Current cfg idx rid p) (hr : p.sched.requests.get? rid = some r)
    (hal : ops.allocateSlots p.sched.caches r numNew 0 none cfg.scheduler.numLookaheadTokens 0 = (m, none))
    (hv : Vacates ops cfg (p.setCaches m) idx victim q idx') : LostTail ops cfg start q := by
  cases hv with
  | evict _ hlast hrv =>
    have hl : p.sched.running.getLast? = some victim := hlast
    obtain ⟨evicted, hrun, href⟩ := h
    have hhere := hc.here (by rw [hg]; decide)
    refine ⟨victim :: evicted, ?_, fun x hx => ?_⟩
    · dsimp only
      rw [(evict_frame ops hlast hrv).1, hrun]
      show p.sched.running ++ evicted = p.sched.running.dropLast ++ victim :: evicted
      rw [List.append_cons, List.dropLast_append_getLast? victim hl]
    · rcases List.mem_cons.1 hx with rfl | hx
      · exact .intro hpath hhere hr hal hl
      · exact href x hx
  | pop hp => exact absurd (hp.symm.trans hg) (by decide)
  | takeBack hp => exact absurd (hp.symm.trans hg) (by decide)
  | drop hp => exact absurd (hp.symm.trans hg) (by decide)

/-- Every turn takes the last request, or none. -/
lemma Turn.lostTail {start : Pass μ β} {x y : Point μ β} (hg : cfg.policy = .gambit)
    (hpath : Turns ops cfg (.head 0 [] start) x) (hheld : Held cfg x) (ht : Turn ops cfg x y)
    (h : LostTail ops cfg start x.pass) : LostTail ops cfg start y.pass := by
  cases ht with
  | look _ _ _ henc =>
    obtain ⟨m, rfl⟩ := tryEncoder_caches henc
    exact h
  | skip => exact h
  | room _ hr hal hv _ => exact h.evict hg hpath hheld.2 hr hal hv
  | fail _ hr hal hv => exact h.evict hg hpath hheld.2 hr hal hv
  | run =>
    obtain ⟨evicted, hrun, href⟩ := h
    refine ⟨evicted, ?_, href⟩
    dsimp only [Point.pass] at hrun ⊢
    rw [(runRequest_frame ..).1]
    exact hrun

end Pass

namespace Scheduler
variable {μ β : Type} {ops : Caches μ β} {cfg : VllmConfig} {blocks entries : μ → ReqId → Prop}
variable {s : Scheduler μ}

/-- The key order is total. -/
instance (s : Scheduler μ) : Std.Total s.scoreLE := by
  refine ⟨fun a b => ?_⟩
  unfold scoreLE
  rcases lt_trichotomy (s.getRequestScore a) (s.getRequestScore b) with h | h | h
  · exact .inr (.inl h)
  · rcases le_total (s.arrivalTime a) (s.arrivalTime b) with ht | ht
    · exact .inl (.inr ⟨h, ht⟩)
    · exact .inr (.inr ⟨h.symm, ht⟩)
  · exact .inl (.inl h)

/-- The key order is transitive. -/
instance (s : Scheduler μ) : IsTrans ReqId s.scoreLE := by
  refine ⟨fun a b c hab hbc => ?_⟩
  unfold scoreLE at *
  rcases hab with hab | ⟨hab, tab⟩
  · rcases hbc with hbc | ⟨hbc, -⟩
    · exact .inl (hbc.trans hab)
    · exact .inl (hbc ▸ hab)
  · rcases hbc with hbc | ⟨hbc, tbc⟩
    · exact .inl (hab ▸ hbc)
    · exact .inr ⟨hab.trans hbc, tab.trans tbc⟩

/-- The first loop under GAMBIT takes a tail of the sorted running queue. -/
lemma WF.lostTail_afterRunning (ops : Caches μ β) (h : s.WF) (hg : cfg.policy = .gambit) :
    Pass.LostTail ops cfg (s.startPass cfg) (s.afterRunning ops cfg) := by
  have hzero : Pass.At 0 (s.startPass (β := β) cfg) := h.at_zero ops
  obtain ⟨x, hpath, -, -, he⟩ := h.afterRunning_turns ops cfg
  have hall : Pass.Turns ops cfg (.head 0 [] (s.startPass cfg)) x ∧ Pass.Held cfg x ∧
      Pass.LostTail ops cfg (s.startPass cfg) x.pass := by
    refine hpath.keep (P := fun y => Pass.Turns ops cfg (.head 0 [] (s.startPass cfg)) y ∧ Pass.Held cfg y ∧
      Pass.LostTail ops cfg (s.startPass cfg) y.pass) (fun ht ha => ?_) ?_
    · exact ⟨.tail ha.1 ht, ht.held ha.2.1, ht.lostTail hg ha.1 ha.2.1 ha.2.2⟩
    · exact ⟨.refl, hzero, [], (List.append_nil _).symm, fun x hx => absurd hx List.not_mem_nil⟩
  exact he ▸ hall.2.2

/-- Under GAMBIT `schedule` puts nobody into the waiting queue. -/
lemma WF.mem_waiting_schedule (h : s.WF) (hg : cfg.policy = .gambit) (ready : ReqId → Bool) {x : ReqId}
    (hx : x ∈ (s.schedule ops cfg ready).1.waiting) : x ∈ s.waiting := by
  obtain ⟨hw, hp⟩ := h.waiting_afterRunning ops hg
  have hnd : s.waiting.Nodup := h.nodup.of_append_right
  have hx : x ∈ (s.schedulePass ops cfg ready).sched.waiting := by
    unfold Scheduler.schedule updateAfterSchedule at hx
    dsimp only at hx
    rwa [foldl_advance_waiting] at hx
  rw [schedulePass_eq] at hx
  unfold admitWaiting at hx
  rw [hp, hw] at hx
  have hloop := Pass.waitingLoop_order ops (by rw [hg]; decide) ready []
    ((s.afterRunning ops cfg).scheduledLoras cfg) hnd
    (fun x _ hm => by rw [h.admitted_afterRunning ops cfg] at hm; cases hm)
  have hs := hloop.skipped
  have hl := hloop.left
  generalize (s.afterRunning ops cfg).waitingLoop ops cfg ready s.waiting [] _ = res at hs hl hx
  obtain ⟨q, rest, skipped⟩ := res
  dsimp only [List.isEmpty_nil] at hs hl hx
  have hx := (queuePrependAll_perm q.sched cfg.policy rest skipped).mem_iff.1 hx
  have hmem : x ∈ s.waiting.filter (· ∉ q.admitted) := by
    rw [hl, List.mem_append]
    rw [hs, List.append_nil, List.mem_append, List.mem_reverse] at hx
    exact hx
  exact List.mem_of_mem_filter hmem

/-- What a call of `schedule` evicts under GAMBIT: `kept` and `evicted` are the running requests before
it in the order of their scores, `newcomers` the requests that start to run in it. -/
structure Evictions (ops : Caches μ β) (cfg : VllmConfig) (ready : ReqId → Bool)
    (blocks : μ → ReqId → Prop) (s : Scheduler μ) (kept evicted newcomers : List ReqId) : Prop where
  perm : (kept ++ evicted).Perm s.running
  sorted : (kept ++ evicted).Pairwise s.scoreLE
  running : (s.schedule ops cfg ready).1.running = kept ++ newcomers
  newcomers : ∀ x ∈ newcomers, x ∈ s.waiting
  score : ∀ x ∈ evicted, ∀ y ∈ kept, s.getRequestScore x ≤ s.getRequestScore y
  gone : ∀ x ∈ evicted, x ∉ (s.schedule ops cfg ready).1.requests
  unscheduled : ∀ x ∈ evicted, x ∉ (s.schedule ops cfg ready).2.numScheduledTokens ∧
    x ∉ (s.schedule ops cfg ready).2.scheduledRunningReqs ∧
    x ∉ (s.schedule ops cfg ready).2.scheduledNewReqs ∧
    x ∉ (s.schedule ops cfg ready).2.scheduledResumedReqs ∧
    x ∉ (s.schedule ops cfg ready).2.reqToNewBlocks
  freed : ∀ x ∈ evicted, ¬ blocks (s.schedule ops cfg ready).1.caches x
  refused : ∀ x ∈ evicted, Pass.RefusedWith ops cfg (s.startPass cfg) x
  /-- The look-ups of `_update_after_schedule` and of the messages to the worker. -/
  lookups : ∀ x ∈ (s.schedule ops cfg ready).2.numScheduledTokens,
    x ∈ (s.schedulePass ops cfg ready).sched.requests ∧ x ∈ (s.schedule ops cfg ready).2.reqToNewBlocks
  /-- The assertions at the end of `schedule`. -/
  total : (s.schedule ops cfg ready).2.numScheduledTokens.values.sum ≤ cfg.scheduler.maxNumBatchedTokens
  budget : 0 ≤ (s.schedulePass ops cfg ready).tokenBudget
  seats : (s.schedulePass ops cfg ready).sched.running.length ≤ cfg.scheduler.maxNumSeqs
  counted : (s.schedule ops cfg ready).2.scheduledNewReqs.length +
    (s.schedule ops cfg ready).2.scheduledResumedReqs.length +
    (s.schedule ops cfg ready).2.scheduledRunningReqs.length ≤
      (s.schedulePass ops cfg ready).sched.running.length

/-- The tally of a call of `schedule`, with the scheduled requests running. -/
lemma WF.schedule_tally (laws : ops.Laws blocks entries) (henc : ops.EncoderKeepsSign)
    (hg : cfg.policy = .gambit) (ready : ReqId → Bool) (h : s.WF)
    (hmax : 0 ≤ cfg.scheduler.maxNumBatchedTokens) (hlen : s.running.length ≤ cfg.scheduler.maxNumSeqs) :
    (s.schedulePass ops cfg ready).Tally cfg ∧ (s.schedulePass ops cfg ready).ScheduledRun := by
  obtain ⟨p, queue, hsteps, hsr, hpass⟩ := h.schedulePass_steps ops cfg ready
  have hstart : (s.startPass (β := β) cfg).Tally cfg := by
    have hrun := (startPass_running (β := β) cfg s).length_eq
    refine ⟨List.nodup_nil, fun x => ?_, fun x => Iff.rfl, hmax, ?_, by omega⟩
    · exact iff_of_false Dict.not_mem_empty List.not_mem_nil
    · show cfg.scheduler.maxNumBatchedTokens + (∅ : Dict ReqId Int).values.sum = _
      rw [Dict.values_empty, List.sum_nil, Int.add_zero]
  have hp : p.Tally cfg :=
    hsteps.keep (P := Pass.Tally cfg) (fun hs hq => hs.tally laws henc hg hq) hstart
  rw [hpass]
  exact ⟨hp.sched _ (Nat.le_refl _), hsr⟩

/-- GAMBIT evicts the worst running requests, none of them scheduled, and each only after a refused
allocation. -/
theorem gambit_evictions (laws : ops.Laws blocks entries) (henc : ops.EncoderKeepsSign)
    (ready : ReqId → Bool) (hg : cfg.policy = .gambit) (h : s.WF) (ho : s.Owned blocks entries)
    (hmax : 0 ≤ cfg.scheduler.maxNumBatchedTokens) (hlen : s.running.length ≤ cfg.scheduler.maxNumSeqs) :
    ∃ kept evicted newcomers, s.Evictions ops cfg ready blocks kept evicted newcomers := by
  obtain ⟨evicted, hsorted, href⟩ := h.lostTail_afterRunning ops hg
  obtain ⟨htally, hsr⟩ := h.schedule_tally laws henc hg ready hmax hlen
  obtain ⟨hw, hpre⟩ := h.waiting_afterRunning ops hg
  have hspec : ScheduleSpec ops cfg s (s.schedule ops cfg ready).1 (s.schedule ops cfg ready).2 :=
    h.schedule ready
  have howned := h.schedule_owned laws cfg ready ho
  have hinsert : (s.startPass (β := β) cfg).sched.running = s.running.insertionSort s.scoreLE := by
    unfold Scheduler.startPass
    dsimp only
    rw [if_pos hg]
    rfl
  obtain ⟨newcomers, hrun, hnew⟩ := Pass.waitingLoop_running ops cfg ready s.waiting []
    ((s.afterRunning ops cfg).scheduledLoras cfg) (s.afterRunning ops cfg)
  have hrunning : (s.schedulePass ops cfg ready).sched.running =
      (s.afterRunning ops cfg).sched.running ++ newcomers := by
    rw [schedulePass_eq]
    unfold admitWaiting
    rw [hpre, hw]
    exact hrun
  rw [hinsert] at hsorted
  generalize (s.afterRunning ops cfg).sched.running = kept at hsorted hrunning
  have hperm : (kept ++ evicted).Perm s.running := hsorted ▸ List.perm_insertionSort s.scoreLE s.running
  have hpair : (kept ++ evicted).Pairwise s.scoreLE := hsorted ▸ List.pairwise_insertionSort s.scoreLE s.running
  have hnd : (kept ++ evicted).Nodup := hperm.nodup_iff.2 h.nodup.of_append_left
  -- an evicted request is not among those that run at the end
  have hout : ∀ x ∈ evicted, x ∉ (s.schedulePass ops cfg ready).sched.running := by
    intro x hx hm
    rw [hrunning, List.mem_append] at hm
    rcases hm with hm | hm
    · exact List.disjoint_of_nodup_append hnd hm hx
    · have hxr : x ∈ s.running := hperm.mem_iff.1 (List.mem_append_right _ hx)
      exact List.disjoint_of_nodup_append h.nodup hxr (hnew x hm)
  have hgone : ∀ x ∈ evicted, x ∉ (s.schedule ops cfg ready).1.requests := by
    intro x hx hm
    have hxr : x ∈ s.running := hperm.mem_iff.1 (List.mem_append_right _ hx)
    rcases List.mem_append.1 ((hspec.wf.mem x).1 hm) with hm | hm
    · rw [schedule_running] at hm
      exact hout x hx hm
    · exact List.disjoint_of_nodup_append h.nodup hxr (h.mem_waiting_schedule hg ready hm)
  refine ⟨kept, evicted, newcomers, hperm, hpair, ?_, hnew, fun x hx y hy => ?_, hgone, fun x hx => ?_,
    fun x hx => ?_, href, fun x hx => ?_, ?_, htally.budget, htally.seats, ?_⟩
  · rw [schedule_running]
    exact hrunning
  · rcases (List.pairwise_append.1 hpair).2.2 y hy x hx with hlt | ⟨heq, -⟩
    · exact le_of_lt hlt
    · exact le_of_eq heq.symm
  · have hn : x ∉ (s.schedulePass ops cfg ready).numScheduledTokens := fun hm => hout x hx (hsr x hm)
    have hlists : x ∉ (s.schedulePass ops cfg ready).scheduledRunningReqs ++
        (s.schedulePass ops cfg ready).admitted := fun hm => hn ((htally.sync x).2 hm)
    rw [List.mem_append, Pass.admitted, List.mem_append, not_or, not_or] at hlists
    exact ⟨hn, hlists.1, hlists.2.1, hlists.2.2, fun hm => hn ((htally.blocks x).1 hm)⟩
  · exact fun hb => hgone x hx (howned x (.inl hb))
  · refine ⟨?_, (htally.blocks x).2 hx⟩
    have hinv : (s.schedulePass ops cfg ready).InvW ops cfg s := h.schedulePass ready
    exact (hinv.wf.mem x).2 (List.mem_append_left _ (hsr x hx))
  · have htotal := htally.total
    have hbudget := htally.budget
    show (s.schedulePass ops cfg ready).numScheduledTokens.values.sum ≤ _
    omega
  · have hsub : (s.schedulePass ops cfg ready).scheduledRunningReqs ++
        (s.schedulePass ops cfg ready).admitted ⊆ (s.schedulePass ops cfg ready).sched.running :=
      fun x hx => hsr x ((htally.sync x).2 hx)
    have hle := (htally.nodup.subperm hsub).length_le
    rw [List.length_append, Pass.admitted, List.length_append] at hle
    show (s.schedulePass ops cfg ready).scheduledNewReqs.length +
      (s.schedulePass ops cfg ready).scheduledResumedReqs.length +
      (s.schedulePass ops cfg ready).scheduledRunningReqs.length ≤ _
    omega

/-- The second trace of `crowded` is evicted. -/
theorem gambit_evictions_crowded :
    let cfg : VllmConfig := { gambit := { enable := true }, scheduler := {} }
    let s := crowdedState cfg
    ['b'] ∈ s.running ∧ ['b'] ∉ (s.schedule (Caches.bounded 5) cfg fun _ => true).1.running ∧
      ∃ kept evicted newcomers,
        s.Evictions (Caches.bounded 5) cfg (fun _ => true) (fun m x => x ∈ m) kept evicted newcomers := by
  intro cfg s
  refine ⟨by decide +kernel, by decide +kernel, ?_⟩
  have howned : s.Owned (fun m x => x ∈ m) fun _ _ => False := by
    have hkeys : ∀ x ∈ s.caches.keys, x ∈ s.requests := by decide +kernel
    rintro x (hx | hx)
    · exact hkeys x hx
    · exact hx.elim
  exact gambit_evictions (Caches.bounded_laws 5) (fun _ _ _ _ _ hn => Int.le_of_lt hn) (fun _ => true)
    (by decide) (crowdedState_wf cfg (by decide +kernel)) howned (by decide) (by decide +kernel)

end Scheduler
end Gambit.Sched
