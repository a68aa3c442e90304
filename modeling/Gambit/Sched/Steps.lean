import Gambit.Sched.Pass

/-!
# A scheduling pass as a sequence of steps

What `schedule` can do, said once. `Room` is one round of the inner `while True`: a refused
allocation, an eviction or a preemption. `Step` is one change of the pass: an encoder look-up, making
room, giving tokens to a running request, admitting a waiting one. The two loops are sequences of
such steps (`runningLoop_steps`, `waitingLoop_steps`), so an invariant of a pass is proved for each of
them once, by `ReflTransGen` induction.

`At idx p` is what the loop over the running requests keeps: the scheduled requests stand before
position `idx`. It is what makes a victim of GAMBIT or FCFS, the last of the queue, one that was not
scheduled; PRIORITY takes back what it scheduled for its victim.
-/

namespace Gambit.Sched
open Gambit.Lib

namespace Pass
variable {μ β : Type}

/-- The new tokens left by the encoder look-up, of `n` before it. -/
def EncoderLeaves (ops : Caches μ β) (r : Request) (computed n numNew : Int) : Prop :=
  if r.hasEncoderInputs then
    ∃ m budget, (ops.tryScheduleEncoderInputs m r computed n budget).2.2.1 = numNew
  else numNew = n

/-- One round of the inner `while True`. -/
inductive Room (ops : Caches μ β) (cfg : VllmConfig) : Pass μ β → Pass μ β → Prop where
  | refuse {p rid r numNew} :
    p.sched.requests.get? rid = some r →
    Room ops cfg p (p.setCaches (ops.allocateSlots p.sched.caches r numNew 0 none
      cfg.scheduler.numLookaheadTokens 0).1)
  | evict {p victim r} :
    cfg.policy = .gambit →
    p.sched.running.getLast? = some victim →
    p.sched.requests.get? victim = some r →
    r.requestId = victim →
    victim ∉ p.numScheduledTokens →
    Room ops cfg p { p with sched := (p.sched.stopLowestRunning ops).2 }
  | preempt {p q victim run r} :
    cfg.policy ≠ .gambit →
    p.sched.running.Perm (victim :: run) →
    p.sched.requests.get? victim = some r →
    r.requestId = victim →
    (q = p ∧ victim ∉ p.numScheduledTokens ∨
      q = p.unschedule victim ∧ victim ∈ p.numScheduledTokens) →
    Room ops cfg p
      (({ q with sched := { q.sched with running := run } } : Pass μ β).preempt ops cfg victim)

/-- Give a running request its tokens and blocks, with its drafts and encoder inputs. -/
def runRequest (ops : Caches μ β) (p : Pass μ β) (m : μ) (rid : ReqId) (r : Request) (numNew : Int)
    (blocks : β) (inputs : List Nat) (budget : Int) : Pass μ β :=
  (((p.setCaches m).scheduleRunning rid numNew blocks).scheduleSpec rid r numNew).scheduleEncoder ops r
    inputs budget

/-- One change of a pass. -/
inductive Step (ops : Caches μ β) (cfg : VllmConfig) : Pass μ β → Pass μ β → Prop where
  | encoder {p rid r computed n} :
    p.sched.requests.get? rid = some r →
    Step ops cfg p (p.setCaches (ops.tryScheduleEncoderInputs p.sched.caches r computed n
      p.encoderComputeBudget).1)
  | room {p q} :
    Room ops cfg p q →
    Step ops cfg p q
  | run {p q m rid r numNew blocks inputs budget} :
    p.sched.requests.get? rid = some r →
    EncoderLeaves ops r r.numComputedTokens (numNewRunning cfg r p.tokenBudget) numNew →
    numNew ≠ 0 →
    Relation.ReflTransGen (Room ops cfg) p q →
    rid ∈ q.sched.running →
    q.sched.requests.get? rid = some r →
    rid ∉ q.numScheduledTokens →
    ops.allocateSlots q.sched.caches r numNew 0 none cfg.scheduler.numLookaheadTokens 0 =
      (m, some blocks) →
    Step ops cfg p (q.runRequest ops m rid r numNew blocks inputs budget)
  | ready {p rid r} :
    p.sched.requests.get? rid = some r →
    r.status ≠ .running →
    Step ops cfg p { p with sched := { p.sched with requests := p.sched.requests.set rid r.leaveFsm } }
  | refuse {p rid r numNew cached blocks lookahead encoderTokens} :
    p.sched.requests.get? rid = some r →
    Step ops cfg p (p.setCaches (ops.allocateSlots p.sched.caches r numNew cached blocks lookahead
      encoderTokens).1)
  | admitted {p m₀ m rid r numNew cached blocks computed lookahead encoderTokens b inputs budget} :
    p.sched.requests.get? rid = some r →
    r.status ≠ .running →
    rid ∉ p.sched.running →
    rid ∉ p.numScheduledTokens →
    0 < p.tokenBudget →
    p.sched.running.length ≠ cfg.scheduler.maxNumSeqs →
    (r.numComputedTokens = 0 → cached = (ops.getComputedBlocks m₀ r).2) →
    computed = (if r.numComputedTokens = 0 then (cached : Int) else r.numComputedTokens) →
    EncoderLeaves ops r computed
      (min (capPrefill cfg (r.numTokens - computed)) p.tokenBudget) numNew →
    (r.hasEncoderInputs → numNew ≠ 0) →
    ops.allocateSlots p.sched.caches r numNew cached blocks lookahead encoderTokens = (m, some b) →
    Step ops cfg p
      (((p.setCaches m).admitRequest ops rid r computed numNew).scheduleEncoder ops r inputs budget)

/-- Sequences of steps. -/
abbrev Steps (ops : Caches μ β) (cfg : VllmConfig) : Pass μ β → Pass μ β → Prop :=
  Relation.ReflTransGen (Step ops cfg)

/-- What every step keeps holds after a sequence of steps. -/
lemma Steps.keep {ops : Caches μ β} {cfg : VllmConfig} {P : Pass μ β → Prop} {p p' : Pass μ β}
    (h : Steps ops cfg p p') (step : ∀ {q q'}, Step ops cfg q q' → P q → P q') (hp : P p) : P p' := by
  induction h with
  | refl => exact hp
  | tail _ hs ih => exact step hs ih

variable {ops : Caches μ β} {cfg : VllmConfig} {p p' : Pass μ β} {idx : Nat} {rid : ReqId} {r : Request}

/-- What the loop over the running requests keeps at position `idx`. -/
structure At (idx : Nat) (p : Pass μ β) : Prop where
  nodup : p.sched.running.Nodup
  live : ∀ x ∈ p.sched.running, x ∈ p.sched.requests
  ids : ∀ x r, p.sched.requests.get? x = some r → r.requestId = x
  before : p.Before idx
  scheduled : p.scheduledRunningReqs.Nodup
  sync : ∀ x, x ∈ p.scheduledRunningReqs ↔ x ∈ p.numScheduledTokens

/-- The request at hand stands at position `idx`, or before it once PRIORITY took others away. -/
structure Current (cfg : VllmConfig) (idx : Nat) (rid : ReqId) (p : Pass μ β) : Prop where
  here : cfg.policy ≠ .priority → p.sched.running[idx]? = some rid
  mem : rid ∈ p.sched.running.take (idx + 1)
  fresh : rid ∉ p.numScheduledTokens

/-- Without an element the elements in front of it move up. -/
lemma take_erase {l : List ReqId} {x : ReqId} {k : Nat} (h : x ∈ l.take k) :
    (l.erase x).take (k - 1) = (l.take k).erase x := by
  conv_lhs => rw [← List.take_append_drop k l, List.erase_append_left _ h]
  rcases Nat.le_total k l.length with hk | hk
  · rw [List.take_append_of_le_length, List.take_of_length_le]
    all_goals rw [List.length_erase_of_mem h, List.length_take, min_eq_left hk]
  · rw [List.drop_eq_nil_of_le hk, List.append_nil, List.take_of_length_le]
    rw [List.length_erase_of_mem h, List.length_take, min_eq_right hk]
    omega

/-- The other elements of a prefix stay in it. -/
lemma mem_take_erase {l : List ReqId} {x y : ReqId} {k : Nat} (h : y ∈ l.take k) (hne : y ≠ x) :
    y ∈ (l.erase x).take k := by
  by_cases hx : x ∈ l.take k
  · have hy : y ∈ (l.take k).erase x := (List.mem_erase_of_ne hne).2 h
    rw [← take_erase hx] at hy
    exact (List.take_sublist_take_left (Nat.sub_le k 1)).subset hy
  · have he : l.erase x = l.take k ++ (l.drop k).erase x := by
      conv_lhs => rw [← List.take_append_drop k l, List.erase_append_right _ hx]
    rw [he, List.take_append, List.take_take, min_self]
    exact List.mem_append_left _ h

/-- Other caches do not matter. -/
lemma At.setCaches (h : At idx p) (m : μ) : At idx (p.setCaches m) :=
  ⟨h.nodup, h.live, h.ids, h.before, h.scheduled, h.sync⟩

/-- What making room leaves: another position, and the request at hand unless it was the victim. -/
structure Roomed (ops : Caches μ β) (cfg : VllmConfig) (rid : ReqId) (p : Pass μ β)
    (res : Option ReqId × Pass μ β × Nat) : Prop where
  room : Room ops cfg p res.2.1
  atPos : At res.2.2 res.2.1
  victim : ∃ victim, res.1 = some victim
  current : res.1 ≠ some rid → Current cfg res.2.2 rid res.2.1
  request : res.1 ≠ some rid → res.2.1.sched.requests.get? rid = p.sched.requests.get? rid

/-- Taking the last of the running queue keeps the positions before it. -/
lemma At.dropLast {victim : ReqId} (h : At idx p) (hc : p.sched.running[idx]? = some rid)
    (hl : p.sched.running.getLast? = some victim) (hrun : p'.sched.running = p.sched.running.dropLast)
    (hlive : ∀ x, x ≠ victim → x ∈ p.sched.requests → x ∈ p'.sched.requests)
    (hids : ∀ x r, p'.sched.requests.get? x = some r → r.requestId = x)
    (hn : p'.numScheduledTokens = p.numScheduledTokens)
    (hs : p'.scheduledRunningReqs = p.scheduledRunningReqs) :
    victim ∉ p.numScheduledTokens ∧ At idx p' ∧
      (victim ≠ rid → p'.sched.running[idx]? = some rid) := by
  have hlt : idx < p.sched.running.length := (List.getElem?_eq_some_iff.1 hc).1
  have htake : p.sched.running.dropLast.take idx = p.sched.running.take idx := by
    rw [List.dropLast_eq_take, List.take_take, min_eq_left (Nat.le_sub_one_of_lt hlt)]
  have hcons := List.dropLast_append_getLast? victim hl
  have hvn : victim ∉ p.sched.running.dropLast := by
    intro hm
    have hnd := h.nodup
    rw [← hcons] at hnd
    exact List.disjoint_of_nodup_append hnd hm (List.mem_singleton_self victim)
  refine ⟨fun hm => ?_, ⟨?_, fun x hx => ?_, hids, fun x hx => ?_, hs ▸ h.scheduled, ?_⟩, fun hne => ?_⟩
  · have := h.before victim hm
    rw [← htake] at this
    exact hvn (List.mem_of_mem_take this)
  · rw [hrun]
    exact h.nodup.sublist (List.dropLast_sublist _)
  · rw [hrun] at hx
    refine hlive x (fun he => hvn (he ▸ hx)) (h.live x ((List.dropLast_sublist _).subset hx))
  · rw [hrun, htake]
    rw [hn] at hx
    exact h.before x hx
  · rw [hs, hn]
    exact h.sync
  · rw [hrun, List.getElem?_dropLast]
    split
    · exact hc
    · next hge =>
      have hlast : idx = p.sched.running.length - 1 := by omega
      rw [List.getLast?_eq_getElem?, ← hlast, hc] at hl
      exact absurd (Option.some.inj hl).symm hne

/-- A request in front of a position is in front of the next. -/
lemma mem_take_succ (h : p.sched.running[idx]? = some rid) : rid ∈ p.sched.running.take (idx + 1) := by
  have hget : (p.sched.running.take (idx + 1))[idx]? = some rid := by
    rw [List.getElem?_take_of_lt (Nat.lt_succ_self idx)]
    exact h
  exact List.mem_of_getElem? hget

/-- The position may move on. -/
lemma At.succ (h : At idx p) : At (idx + 1) p := by
  refine ⟨h.nodup, h.live, h.ids, fun x hx => ?_, h.scheduled, h.sync⟩
  exact (List.take_sublist_take_left (Nat.le_succ idx)).subset (h.before x hx)

/-- The request at the position was not scheduled yet. -/
lemma At.current (h : At idx p) (hrid : p.sched.running[idx]? = some rid) : Current cfg idx rid p := by
  refine ⟨fun _ => hrid, mem_take_succ hrid, fun hm => ?_⟩
  obtain ⟨k, hk, hget⟩ := List.mem_take_iff_getElem.1 (h.before rid hm)
  obtain ⟨hlt, hidx⟩ := List.getElem?_eq_some_iff.1 hrid
  have := (h.nodup.getElem_inj_iff).1 (hget.trans hidx.symm)
  omega

/-- An eviction. -/
lemma At.evict (hg : cfg.policy = .gambit) (h : At idx p) (hc : Current cfg idx rid p) :
    Roomed ops cfg rid p (p.makeRoom ops cfg idx) := by
  have hhere := hc.here (by rw [hg]; decide)
  have hne : p.sched.running ≠ [] := by
    intro h0
    rw [h0] at hhere
    cases hhere
  obtain ⟨victim, hl⟩ := Option.ne_none_iff_exists'.1 (mt List.getLast?_eq_none_iff.1 hne)
  obtain ⟨r, hr⟩ := Dict.mem_iff_get?.1 (h.live victim (List.mem_of_getLast? hl))
  have hid := h.ids victim r hr
  have heq : p.makeRoom ops cfg idx =
      (some victim, { p with sched := (p.sched.stopLowestRunning ops).2 }, idx) := by
    unfold Pass.makeRoom
    rw [hg]
    dsimp only [Scheduler.stopLowestRunning]
    rw [hl]
    dsimp only
    rw [hr]
  rw [heq]
  have hs : ({ p with sched := (p.sched.stopLowestRunning ops).2 } : Pass μ β).sched.running =
        p.sched.running.dropLast ∧
      ({ p with sched := (p.sched.stopLowestRunning ops).2 } : Pass μ β).sched.requests =
        p.sched.requests.erase victim := by
    unfold Scheduler.stopLowestRunning
    dsimp only
    rw [hl]
    dsimp only
    rw [hr]
    dsimp only [Scheduler.freeRequest]
    rw [hid]
    exact ⟨rfl, rfl⟩
  obtain ⟨hvn, hat, hcur⟩ := h.dropLast hhere hl hs.1 (fun x hx hm => by rw [hs.2]; exact Dict.mem_erase.2 ⟨hx, hm⟩)
    (fun x rx hx => by
      rw [hs.2, Dict.get?_erase] at hx
      split at hx
      · cases hx
      · exact h.ids x rx hx) rfl rfl
  refine ⟨.evict hg hl hr hid hvn, hat, ⟨victim, rfl⟩, fun hv => ?_, fun hv => ?_⟩
  · have hget := hcur fun he => hv (by rw [he])
    exact ⟨fun _ => hget, mem_take_succ hget, hc.fresh⟩
  · dsimp only
    rw [hs.2, Dict.get?_erase, if_neg (fun he => hv (by rw [he]))]

/-- What a preemption does to the store and the running queue. -/
lemma preempt_frame (ops : Caches μ β) (cfg : VllmConfig) (p : Pass μ β) (victim : ReqId) :
    (p.preempt ops cfg victim).sched.running = p.sched.running ∧
    (p.preempt ops cfg victim).numScheduledTokens = p.numScheduledTokens ∧
    (p.preempt ops cfg victim).scheduledRunningReqs = p.scheduledRunningReqs ∧
    ∀ x, (p.preempt ops cfg victim).sched.requests.get? x =
      if x = victim then (p.sched.requests.get? x).map Request.preempted
      else p.sched.requests.get? x := by
  unfold Pass.preempt Scheduler.preempt
  dsimp only
  split
  · next hr =>
    refine ⟨rfl, rfl, rfl, fun x => ?_⟩
    split
    · next he => rw [he, hr]; rfl
    · rfl
  · next r hr =>
    refine ⟨rfl, rfl, rfl, fun x => ?_⟩
    dsimp only
    rw [Dict.get?_set]
    split
    · next he => rw [he, hr]; rfl
    · rfl

/-- The store after a preemption: the ids stay, and nobody goes. -/
lemma preempt_requests (h : At idx p) {victim : ReqId}
    (hreq : ∀ x, p'.sched.requests.get? x =
      if x = victim then (p.sched.requests.get? x).map Request.preempted
      else p.sched.requests.get? x) :
    (∀ x, x ∈ p.sched.requests → x ∈ p'.sched.requests) ∧
      ∀ x r, p'.sched.requests.get? x = some r → r.requestId = x := by
  constructor
  · intro x hx
    obtain ⟨rx, hrx⟩ := Dict.mem_iff_get?.1 hx
    rw [Dict.mem_iff_get?, hreq, hrx]
    split
    · exact ⟨_, rfl⟩
    · exact ⟨_, rfl⟩
  · intro x rx hx
    rw [hreq] at hx
    split at hx
    · obtain ⟨r0, hr0, rfl⟩ := Option.map_eq_some_iff.1 hx
      exact h.ids x r0 hr0
    · exact h.ids x rx hx

/-- A preemption under FCFS. -/
lemma At.preemptLast (hg : cfg.policy = .fcfs) (h : At idx p) (hc : Current cfg idx rid p) :
    Roomed ops cfg rid p (p.makeRoom ops cfg idx) := by
  have hhere := hc.here (by rw [hg]; decide)
  have hne : p.sched.running ≠ [] := by
    intro h0
    rw [h0] at hhere
    cases hhere
  obtain ⟨victim, hl⟩ := Option.ne_none_iff_exists'.1 (mt List.getLast?_eq_none_iff.1 hne)
  obtain ⟨r, hr⟩ := Dict.mem_iff_get?.1 (h.live victim (List.mem_of_getLast? hl))
  have hid := h.ids victim r hr
  have heq : p.makeRoom ops cfg idx = (some victim, ({ p with sched := { p.sched with
      running := p.sched.running.dropLast } } : Pass μ β).preempt ops cfg victim, idx) := by
    unfold Pass.makeRoom
    rw [hg]
    dsimp only
    rw [hl]
  obtain ⟨hrun, hn, hs, hreq⟩ := preempt_frame ops cfg ({ p with sched := { p.sched with
    running := p.sched.running.dropLast } } : Pass μ β) victim
  obtain ⟨hmem, hids⟩ := preempt_requests h hreq
  rw [heq]
  obtain ⟨hvn, hat, hcur⟩ := h.dropLast hhere hl hrun (fun x _ hm => hmem x hm) hids hn hs
  refine ⟨.preempt (by rw [hg]; decide) (getLast?_perm hl) hr hid (.inl ⟨rfl, hvn⟩), hat, ⟨victim, rfl⟩,
    fun hv => ?_, fun hv => ?_⟩
  · have hget := hcur fun he => hv (by rw [he])
    exact ⟨fun _ => hget, mem_take_succ hget, by rw [hn]; exact hc.fresh⟩
  · dsimp only
    rw [hreq, if_neg (fun he => hv (by rw [he]))]

/-- PRIORITY finds a victim in a queue that is not empty. -/
lemma exists_lowestPriority {s : Scheduler μ} (hne : s.running ≠ []) :
    ∃ victim, s.lowestPriority = some victim := by
  have hstep : ∀ (b : Option ReqId) (y : ReqId), lower s b y ≠ none := by
    intro b y
    rcases lower_cases s b y with he | ⟨he, hb⟩
    · rw [he]
      exact Option.some_ne_none y
    · rw [he]
      exact hb
  have hfold : ∀ (l : List ReqId) (b : Option ReqId), b ≠ none → l.foldl (lower s) b ≠ none := by
    intro l
    induction l with
    | nil => exact fun b hb => hb
    | cons y ys ih => exact fun b _ => ih _ (hstep b y)
  obtain ⟨y, ys, hl⟩ := List.exists_cons_of_ne_nil hne
  refine Option.ne_none_iff_exists'.1 ?_
  rw [lowestPriority_eq, hl]
  exact hfold ys _ (hstep none y)

/-- A preemption under PRIORITY of a victim that was scheduled: what it got is taken back. -/
lemma At.preemptLowest_scheduled {victim : ReqId} (hg : cfg.policy = .priority) (h : At idx p)
    (hc : Current cfg idx rid p) (hv : p.sched.lowestPriority = some victim)
    (hsch : victim ∈ p.scheduledRunningReqs) : Roomed ops cfg rid p (p.makeRoom ops cfg idx) := by
  have hmem := lowestPriority_mem hv
  have hperm := List.perm_cons_erase hmem
  obtain ⟨r, hr⟩ := Dict.mem_iff_get?.1 (h.live victim hmem)
  have hid := h.ids victim r hr
  have hng : cfg.policy ≠ .gambit := by rw [hg]; decide
  have hn : victim ∈ p.numScheduledTokens := (h.sync victim).1 hsch
  have hvb := h.before victim hn
  have heq : p.makeRoom ops cfg idx = (some victim, ({ p.unschedule victim with
      sched := { (p.unschedule victim).sched with running := p.sched.running.erase victim } } :
      Pass μ β).preempt ops cfg victim, idx - 1) := by
    unfold Pass.makeRoom
    rw [hg]
    dsimp only
    rw [hv]
    dsimp only
    rw [if_pos hsch]
    rfl
  rw [heq]
  obtain ⟨hrun, hnum, hrunning, hreq⟩ := preempt_frame ops cfg ({ p.unschedule victim with
    sched := { (p.unschedule victim).sched with running := p.sched.running.erase victim } } :
    Pass μ β) victim
  obtain ⟨hlive, hids⟩ := preempt_requests h hreq
  refine ⟨.preempt hng hperm hr hid (.inr ⟨rfl, hn⟩), ⟨?_, fun x hx => ?_, hids, fun x hx => ?_, ?_,
    fun x => ?_⟩, ⟨victim, rfl⟩, fun hne => ⟨fun hp => absurd hg hp, ?_, ?_⟩, fun hne => ?_⟩
  · rw [hrun]
    exact h.nodup.erase victim
  · rw [hrun] at hx
    exact hlive x (h.live x (List.mem_of_mem_erase hx))
  · rw [hrun]
    rw [hnum] at hx
    obtain ⟨hxv, hx⟩ := Dict.mem_erase.1 hx
    have : (p.sched.running.erase victim).take (idx - 1) = (p.sched.running.take idx).erase victim :=
      take_erase hvb
    dsimp only
    rw [this]
    exact (List.mem_erase_of_ne hxv).2 (h.before x hx)
  · rw [hrunning]
    exact h.scheduled.erase victim
  · rw [hrunning, hnum]
    exact h.scheduled.mem_erase_iff.trans ((and_congr_right fun _ => h.sync x).trans Dict.mem_erase.symm)
  · -- the victim stood in front of the request at hand, which moves up with the position
    have hidx : idx - 1 + 1 = idx := by
      have : 0 < idx := by
        rcases Nat.eq_zero_or_pos idx with h0 | h0
        · rw [h0] at hvb
          cases hvb
        · exact h0
      omega
    have hvb' : victim ∈ p.sched.running.take (idx + 1) :=
      (List.take_sublist_take_left (Nat.le_succ idx)).subset hvb
    have : (p.sched.running.erase victim).take idx = (p.sched.running.take (idx + 1)).erase victim :=
      take_erase hvb'
    dsimp only
    rw [hrun, hidx]
    dsimp only
    rw [this]
    exact (List.mem_erase_of_ne fun he => hne (by rw [he])).2 hc.mem
  · rw [hnum]
    exact fun hm => hc.fresh (Dict.mem_erase.1 hm).2
  · dsimp only
    rw [hreq, if_neg (fun he => hne (by rw [he]))]
    rfl

/-- A preemption under PRIORITY of a victim that was not scheduled. -/
lemma At.preemptLowest_idle {victim : ReqId} (hg : cfg.policy = .priority) (h : At idx p)
    (hc : Current cfg idx rid p) (hv : p.sched.lowestPriority = some victim)
    (hsch : victim ∉ p.scheduledRunningReqs) : Roomed ops cfg rid p (p.makeRoom ops cfg idx) := by
  have hmem := lowestPriority_mem hv
  have hperm := List.perm_cons_erase hmem
  obtain ⟨r, hr⟩ := Dict.mem_iff_get?.1 (h.live victim hmem)
  have hid := h.ids victim r hr
  have hng : cfg.policy ≠ .gambit := by rw [hg]; decide
  have hn : victim ∉ p.numScheduledTokens := fun hm => hsch ((h.sync victim).2 hm)
  have heq : p.makeRoom ops cfg idx = (some victim, ({ p with sched := { p.sched with
      running := p.sched.running.erase victim } } : Pass μ β).preempt ops cfg victim, idx) := by
    unfold Pass.makeRoom
    rw [hg]
    dsimp only
    rw [hv]
    dsimp only
    rw [if_neg hsch]
  rw [heq]
  obtain ⟨hrun, hnum, hrunning, hreq⟩ := preempt_frame ops cfg ({ p with sched := { p.sched with
    running := p.sched.running.erase victim } } : Pass μ β) victim
  obtain ⟨hlive, hids⟩ := preempt_requests h hreq
  refine ⟨.preempt hng hperm hr hid (.inl ⟨rfl, hn⟩), ⟨?_, fun x hx => ?_, hids, fun x hx => ?_, ?_,
    fun x => ?_⟩, ⟨victim, rfl⟩, fun hne => ⟨fun hp => absurd hg hp, ?_, ?_⟩, fun hne => ?_⟩
  · rw [hrun]
    exact h.nodup.erase victim
  · rw [hrun] at hx
    exact hlive x (h.live x (List.mem_of_mem_erase hx))
  · rw [hrun]
    rw [hnum] at hx
    exact mem_take_erase (h.before x hx) fun he => hn (he ▸ hx)
  · rw [hrunning]
    exact h.scheduled
  · rw [hrunning, hnum]
    exact h.sync x
  · dsimp only
    rw [hrun]
    exact mem_take_erase hc.mem fun he => hne (by rw [he])
  · rw [hnum]
    exact hc.fresh
  · dsimp only
    rw [hreq, if_neg (fun he => hne (by rw [he]))]

/-- A preemption under PRIORITY. -/
lemma At.preemptLowest (hg : cfg.policy = .priority) (h : At idx p) (hc : Current cfg idx rid p) :
    Roomed ops cfg rid p (p.makeRoom ops cfg idx) := by
  obtain ⟨victim, hv⟩ := exists_lowestPriority (List.ne_nil_of_mem (List.mem_of_mem_take hc.mem))
  by_cases hsch : victim ∈ p.scheduledRunningReqs
  · exact h.preemptLowest_scheduled hg hc hv hsch
  · exact h.preemptLowest_idle hg hc hv hsch

/-- Making room, under each policy. -/
lemma At.makeRoom (h : At idx p) (hc : Current cfg idx rid p) :
    Roomed ops cfg rid p (p.makeRoom ops cfg idx) := by
  cases hg : cfg.policy with
  | gambit => exact h.evict hg hc
  | fcfs => exact h.preemptLast hg hc
  | priority => exact h.preemptLowest hg hc

/-- The inner loop is a sequence of rounds; when it succeeds the request at hand is unchanged, and the
blocks come from an allocation at the end of the sequence. -/
lemma At.allocateOrEvict (numNew : Int) (fuel : Nat) (h : At idx p) (hc : Current cfg idx rid p)
    (hr : p.sched.requests.get? rid = some r) :
    (∃ q idx', p.allocateOrEvict ops cfg rid numNew fuel idx = (q, idx', none) ∧
      Relation.ReflTransGen (Room ops cfg) p q ∧ At idx' q) ∨
    ∃ q idx' m blocks, p.allocateOrEvict ops cfg rid numNew fuel idx =
        (q.setCaches m, idx', some blocks) ∧
      Relation.ReflTransGen (Room ops cfg) p q ∧ At idx' q ∧ Current cfg idx' rid q ∧
      q.sched.requests.get? rid = some r ∧
      ops.allocateSlots q.sched.caches r numNew 0 none cfg.scheduler.numLookaheadTokens 0 =
        (m, some blocks) := by
  induction fuel generalizing p idx with
  | zero => exact .inl ⟨p, idx, rfl, .refl, h⟩
  | succ fuel ih =>
    rw [Pass.allocateOrEvict, hr]
    dsimp only
    split
    · next m blocks hal => exact .inr ⟨p, idx, m, blocks, rfl, .refl, h, hc, hr, hal⟩
    · next m hal =>
      have hm : m = (ops.allocateSlots p.sched.caches r numNew 0 none
          cfg.scheduler.numLookaheadTokens 0).1 := by rw [hal]
      have href : Room ops cfg p (p.setCaches m) := by
        rw [hm]
        exact .refuse hr
      have hroom : Roomed ops cfg rid (p.setCaches m) ((p.setCaches m).makeRoom ops cfg idx) :=
        (h.setCaches m).makeRoom ⟨hc.here, hc.mem, hc.fresh⟩
      obtain ⟨victim, hv⟩ := hroom.victim
      generalize (p.setCaches m).makeRoom ops cfg idx = res at hroom hv ⊢
      obtain ⟨v, q, idx'⟩ := res
      dsimp only at hv hroom ⊢
      subst hv
      dsimp only
      have hpq : Relation.ReflTransGen (Room ops cfg) p q := .tail (.single href) hroom.room
      split
      · exact .inl ⟨q, idx', rfl, hpq, hroom.atPos⟩
      · next hne =>
        have hne' : some victim ≠ some rid := fun he => hne (Option.some.inj he)
        have hrq : q.sched.requests.get? rid = some r := (hroom.request hne').trans hr
        rcases ih hroom.atPos (hroom.current hne') hrq with ⟨q', i', he, hst, hat⟩ |
          ⟨q', i', m', blocks, he, hst, hrest⟩
        · exact .inl ⟨q', i', he, hpq.trans hst, hat⟩
        · exact .inr ⟨q', i', m', blocks, he, hpq.trans hst, hrest⟩

/-- The encoder look-up changes the caches only. -/
lemma tryEncoder_spec (ops : Caches μ β) (cfg : VllmConfig) (p : Pass μ β) {rid : ReqId} {r : Request}
    (hr : p.sched.requests.get? rid = some r) (computed n : Int) :
    ∃ m inputs numNew budget, p.tryEncoder ops r computed n =
        (p.setCaches m, inputs, numNew, budget) ∧
      Steps ops cfg p (p.setCaches m) ∧ EncoderLeaves ops r computed n numNew := by
  unfold Pass.tryEncoder EncoderLeaves
  split
  · exact ⟨_, _, _, _, rfl, .single (.encoder hr), _, _, rfl⟩
  · exact ⟨p.sched.caches, [], n, p.encoderComputeBudget, rfl, .refl, rfl⟩

/-- What giving tokens to a running request changes. -/
lemma runRequest_frame (ops : Caches μ β) (p : Pass μ β) (m : μ) (rid : ReqId) (r : Request)
    (numNew : Int) (blocks : β) (inputs : List Nat) (budget : Int) :
    (p.runRequest ops m rid r numNew blocks inputs budget).sched.running = p.sched.running ∧
    (p.runRequest ops m rid r numNew blocks inputs budget).numScheduledTokens =
      p.numScheduledTokens.set rid numNew ∧
    (p.runRequest ops m rid r numNew blocks inputs budget).scheduledRunningReqs =
      p.scheduledRunningReqs ++ [rid] ∧
    (p.runRequest ops m rid r numNew blocks inputs budget).tokenBudget = p.tokenBudget - numNew ∧
    ∀ x, (p.runRequest ops m rid r numNew blocks inputs budget).sched.requests.get? x =
      if x = rid ∧ r.specTokenIds ≠ [] then
        (p.sched.requests.get? x).map fun r => { r with specTokenIds := [] }
      else p.sched.requests.get? x := by
  unfold runRequest
  generalize hq : (p.setCaches m).scheduleRunning rid numNew blocks = q
  have h1 : q.sched.running = p.sched.running ∧
      q.numScheduledTokens = p.numScheduledTokens.set rid numNew ∧
      q.scheduledRunningReqs = p.scheduledRunningReqs ++ [rid] ∧
      q.tokenBudget = p.tokenBudget - numNew ∧ q.sched.requests = p.sched.requests := by
    rw [← hq]
    exact ⟨rfl, rfl, rfl, rfl, rfl⟩
  obtain ⟨a1, a2, a3, a4, a5⟩ := h1
  have h2 : ∀ q' : Pass μ β, (q'.scheduleEncoder ops r inputs budget).sched.running = q'.sched.running ∧
      (q'.scheduleEncoder ops r inputs budget).numScheduledTokens = q'.numScheduledTokens ∧
      (q'.scheduleEncoder ops r inputs budget).scheduledRunningReqs = q'.scheduledRunningReqs ∧
      (q'.scheduleEncoder ops r inputs budget).tokenBudget = q'.tokenBudget ∧
      (q'.scheduleEncoder ops r inputs budget).sched.requests = q'.sched.requests := by
    intro q'
    unfold Pass.scheduleEncoder
    split <;> exact ⟨rfl, rfl, rfl, rfl, rfl⟩
  obtain ⟨b1, b2, b3, b4, b5⟩ := h2 (q.scheduleSpec rid r numNew)
  rw [b1, b2, b3, b4, b5]
  unfold Pass.scheduleSpec
  dsimp only
  split
  · next he =>
    refine ⟨a1, a2, a3, a4, fun x => ?_⟩
    rw [a5, if_neg]
    exact fun h => h.2 (List.isEmpty_iff.1 he)
  · next he =>
    have hne : r.specTokenIds ≠ [] := fun h => he (List.isEmpty_iff.2 h)
    have hmod : ∀ x, (q.sched.requests.modify rid fun r => { r with specTokenIds := [] }).get? x =
        if x = rid ∧ r.specTokenIds ≠ [] then
          (p.sched.requests.get? x).map fun r => { r with specTokenIds := [] }
        else p.sched.requests.get? x := by
      intro x
      rw [Dict.get?_modify, a5]
      by_cases hx : x = rid
      · rw [if_pos hx, if_pos ⟨hx, hne⟩]
      · rw [if_neg hx, if_neg (fun h => hx h.1)]
    split
    · exact ⟨a1, a2, a3, a4, hmod⟩
    · exact ⟨a1, a2, a3, a4, hmod⟩

/-- After a running request got its tokens the position moves on. -/
lemma At.runRequest {m : μ} {numNew budget : Int} {blocks : β} {inputs : List Nat} (h : At idx p)
    (hc : Current cfg idx rid p) (hn : rid ∉ p.numScheduledTokens) :
    At (idx + 1) (p.runRequest ops m rid r numNew blocks inputs budget) := by
  obtain ⟨hrun, hnum, hsch, -, hreq⟩ := runRequest_frame ops p m rid r numNew blocks inputs budget
  have hmem : ∀ x, x ∈ p.sched.requests →
      x ∈ (p.runRequest ops m rid r numNew blocks inputs budget).sched.requests := by
    intro x hx
    obtain ⟨rx, hrx⟩ := Dict.mem_iff_get?.1 hx
    rw [Dict.mem_iff_get?, hreq, hrx]
    split
    · exact ⟨_, rfl⟩
    · exact ⟨_, rfl⟩
  refine ⟨hrun ▸ h.nodup, fun x hx => ?_, fun x rx hx => ?_, fun x hx => ?_, ?_, fun x => ?_⟩
  · rw [hrun] at hx
    exact hmem x (h.live x hx)
  · rw [hreq] at hx
    split at hx
    · obtain ⟨r0, hr0, rfl⟩ := Option.map_eq_some_iff.1 hx
      exact h.ids x r0 hr0
    · exact h.ids x rx hx
  · rw [hrun]
    rw [hnum, Dict.mem_set] at hx
    rcases hx with rfl | hx
    · exact hc.mem
    · exact (List.take_sublist_take_left (Nat.le_succ idx)).subset (h.before x hx)
  · rw [hsch, List.nodup_append]
    refine ⟨h.scheduled, List.nodup_singleton rid, fun a ha b hb => ?_⟩
    rw [List.mem_singleton.1 hb]
    rintro rfl
    exact hn ((h.sync _).1 ha)
  · rw [hsch, hnum, List.mem_append, List.mem_singleton, Dict.mem_set, h.sync x]
    tauto

/-- The loop over the running requests is a sequence of steps. -/
theorem runningLoop_steps (ops : Caches μ β) (cfg : VllmConfig) (fuel : Nat) (h : At idx p) :
    Steps ops cfg p (p.runningLoop ops cfg fuel idx) ∧
      ∃ idx', At idx' (p.runningLoop ops cfg fuel idx) := by
  induction fuel generalizing p idx with
  | zero => exact ⟨.refl, idx, h⟩
  | succ fuel ih =>
    rw [Pass.runningLoop]
    split
    · exact ⟨.refl, idx, h⟩
    next rid hrid =>
    split
    · exact ⟨.refl, idx, h⟩
    split
    · exact ⟨.refl, idx, h⟩
    next r hr =>
    obtain ⟨m, inputs, numNew, budget, heq, hst, hleaves⟩ := tryEncoder_spec ops cfg p hr
      r.numComputedTokens (numNewRunning cfg r p.tokenBudget)
    rw [heq]
    dsimp only
    have h1 := h.setCaches m
    split
    · obtain ⟨hs, hat⟩ := ih h1.succ
      exact ⟨hst.trans hs, hat⟩
    next hne =>
    have hcur : Current cfg idx rid (p.setCaches m) := h1.current hrid
    have hr1 : (p.setCaches m).sched.requests.get? rid = some r := hr
    have hrooms : ∀ {q q' : Pass μ β}, Relation.ReflTransGen (Room ops cfg) q q' → Steps ops cfg q q' :=
      fun hq => Relation.ReflTransGen.mono (fun _ _ h => Step.room h) _ _ hq
    rcases h1.allocateOrEvict numNew (p.setCaches m).sched.running.length hcur hr1 with
      ⟨q, idx', he, hroom, hat⟩ | ⟨q, idx', m', blocks, he, hroom, hat, hc', hrq, hal⟩
    · rw [he]
      exact ⟨hst.trans (hrooms hroom), idx', hat⟩
    · rw [he]
      dsimp only
      have hmem : rid ∈ q.sched.running := List.mem_of_mem_take hc'.mem
      have hstep : Step ops cfg (p.setCaches m) (q.runRequest ops m' rid r numNew blocks inputs budget) :=
        .run hr1 hleaves hne hroom hmem hrq hc'.fresh hal
      obtain ⟨hs, hat'⟩ := ih (hat.runRequest hc' hc'.fresh)
      exact ⟨(hst.tail hstep).trans hs, hat'⟩

/-- The tail of an iteration: a sequence of steps, with the admission last. -/
lemma tryAdmit_steps {blocks : Option β} {cached : Nat} {numNew : Int} {m₀ : μ}
    (hr : p.sched.requests.get? rid = some r) (hs : r.status ≠ .running)
    (hrun : rid ∉ p.sched.running) (hn : rid ∉ p.numScheduledTokens) (hb : 0 < p.tokenBudget)
    (hlen : p.sched.running.length ≠ cfg.scheduler.maxNumSeqs)
    (hc : r.numComputedTokens = 0 → cached = (ops.getComputedBlocks m₀ r).2)
    (hnew : numNew = min (capPrefill cfg (r.numTokens -
      if r.numComputedTokens = 0 then (cached : Int) else r.numComputedTokens)) p.tokenBudget) :
    Steps ops cfg p (p.tryAdmit ops cfg rid r blocks cached numNew).pass := by
  unfold Pass.tryAdmit
  dsimp only
  generalize hcomp : (if r.numComputedTokens = 0 then (cached : Int) else r.numComputedTokens) = computed
    at hnew ⊢
  obtain ⟨m, inputs, numNew', budget, heq, hst, hleaves⟩ := tryEncoder_spec ops cfg p hr computed numNew
  rw [heq]
  dsimp only
  split
  · exact hst
  next hne =>
  split
  · next m' hal =>
    refine hst.tail ?_
    have hm := congrArg Prod.fst hal
    dsimp only at hm
    rw [Verdict.pass, ← hm]
    exact .refuse hr
  · next m' b hal =>
    refine hst.tail ?_
    rw [hnew] at hleaves
    exact .admitted hr hs hrun hn hb hlen hc hcomp.symm hleaves (fun he h0 => hne ⟨he, h0⟩) hal

/-- One iteration of the waiting loop is a sequence of steps. -/
lemma considerWaiting_steps (ready : ReqId → Bool) (loras : List Int)
    (hr : p.sched.requests.get? rid = some r) (hs : r.status ≠ .running)
    (hrun : rid ∉ p.sched.running) (hn : rid ∉ p.numScheduledTokens) (hb : 0 < p.tokenBudget)
    (hlen : p.sched.running.length ≠ cfg.scheduler.maxNumSeqs) :
    Steps ops cfg p (p.considerWaiting ops cfg ready loras rid r).pass := by
  unfold Pass.considerWaiting
  split
  · exact .refl
  dsimp only
  have hset : Step ops cfg p { p with sched := { p.sched with
      requests := p.sched.requests.set rid r.leaveFsm } } := .ready hr hs
  have hs1 : r.leaveFsm.status ≠ .running := by
    unfold Request.leaveFsm
    split
    · exact nofun
    · exact hs
  generalize r.leaveFsm = r1 at hset hs1 ⊢
  have hr1 : (p.sched.requests.set rid r1).get? rid = some r1 := by simp
  split
  · exact .single hset
  by_cases h0 : r1.numComputedTokens = 0
  · simp only [h0, if_true]
    split
    · exact .single hset
    · refine (Relation.ReflTransGen.single hset).trans ?_
      refine tryAdmit_steps hr1 hs1 hrun hn hb hlen (fun _ => rfl) ?_
      rw [if_pos h0]
  · simp only [h0, if_false]
    split
    · exact .single hset
    · refine (Relation.ReflTransGen.single hset).trans ?_
      have hc : r1.numComputedTokens = 0 → 0 = (ops.getComputedBlocks p.sched.caches r1).2 :=
        fun h => absurd h h0
      refine tryAdmit_steps hr1 hs1 hrun hn hb hlen hc ?_
      rw [if_neg h0]

/-- The loop over the waiting requests is a sequence of steps. -/
theorem waitingLoop_steps {s₀ : Scheduler μ} (ready : ReqId → Bool) (queue skipped : List ReqId)
    (loras : List Int) (h : p.Inv ops cfg s₀ (queue ++ skipped)) (hsr : p.ScheduledRun) :
    Steps ops cfg p (p.waitingLoop ops cfg ready queue skipped loras).1 := by
  induction queue generalizing p skipped loras with
  | nil => exact .refl
  | cons rid rest ih =>
    rw [Pass.waitingLoop]
    split
    · exact .refl
    next hguard =>
    split
    · exact .refl
    next r hr =>
    rw [not_or] at hguard
    have hdis : rid ∉ p.sched.running := by
      intro hm
      exact List.disjoint_of_nodup_append h.wf.nodup hm List.mem_cons_self
    have hs : r.status ≠ .running := fun hs => hdis ((h.wf.status rid r hr).1 hs)
    have hst : Steps ops cfg p (p.considerWaiting ops cfg ready loras rid r).pass :=
      considerWaiting_steps ready loras hr hs hdis (fun hm => hdis (hsr rid hm))
        (Int.not_le.1 hguard.1) hguard.2
    have hv := Inv.considerWaiting ready loras h hr
    have hsr' := hsr.considerWaiting ops cfg ready loras rid r
    split
    · next p1 e =>
      rw [e] at hst
      exact hst
    · next p1 e =>
      rw [e] at hst hv hsr'
      refine hst.trans (ih _ _ (hv.perm ?_) hsr')
      refine .trans List.perm_middle.symm (List.Perm.append_left rest ?_)
      exact (Scheduler.queuePrepend_perm ..).symm
    · next p1 e =>
      rw [e] at hst hv hsr'
      exact hst.trans (ih _ _ hv hsr')

end Pass

namespace Scheduler
variable {μ β : Type} {ops : Caches μ β} {cfg : VllmConfig} {s : Scheduler μ}

/-- The position at the start of a pass. -/
lemma WF.at_zero (ops : Caches μ β) (h : s.WF) : Pass.At 0 (s.startPass (β := β) cfg) := by
  have hp : (s.startPass cfg).InvW ops cfg s := h.startPass
  refine ⟨hp.wf.nodup.of_append_left, fun x hx => ?_, hp.wf.requestId, fun x hx => ?_, List.nodup_nil,
    fun x => ?_⟩
  · exact (hp.wf.mem x).2 (List.mem_append_left _ hx)
  · exact absurd hx Dict.not_mem_empty
  · exact iff_of_false List.not_mem_nil Dict.not_mem_empty

/-- The two loops of `schedule` are a sequence of steps; at the end the waiting queue is put together
again. -/
theorem WF.schedulePass_steps (ops : Caches μ β) (cfg : VllmConfig) (ready : ReqId → Bool) (h : s.WF) :
    ∃ p queue, Pass.Steps ops cfg (s.startPass cfg) p ∧ p.ScheduledRun ∧
      s.schedulePass ops cfg ready = { p with sched := { p.sched with waiting := queue } } := by
  have hzero : Pass.At 0 (s.startPass (β := β) cfg) := h.at_zero ops
  obtain ⟨hsteps, idx, hat⟩ := Pass.runningLoop_steps ops cfg (2 * s.running.length) hzero
  have hstart : (s.startPass cfg).InvW ops cfg s := h.startPass
  have hrun := hstart.runningLoop (2 * s.running.length) 0
  have hsr := hat.before.scheduledRun
  unfold Scheduler.schedulePass admitWaiting
  generalize (s.startPass cfg).runningLoop ops cfg (2 * s.running.length) 0 = p at hsteps hrun hsr ⊢
  split
  · have hw : p.Inv ops cfg s (p.sched.waiting ++ []) := hrun.perm (by simp)
    have hst := Pass.waitingLoop_steps ready p.sched.waiting [] (p.scheduledLoras cfg) hw hsr
    have hsr' := hsr.waitingLoop ops cfg ready p.sched.waiting [] (p.scheduledLoras cfg)
    exact ⟨_, _, hsteps.trans hst, hsr', rfl⟩
  · exact ⟨p, p.sched.waiting, hsteps, hsr, rfl⟩

end Scheduler
end Gambit.Sched
