import Gambit.Sched.Length

/-!
# The loop over the running requests, turn by turn

`runningLoop` computes what the first loop of `schedule` returns. Here the same loop is a transition
relation between its points, for what has to be said about the loop while it runs: the position, the
request at hand with the locals of its iteration, and the history of the requests looked at.

A `Turn` is one look at a request, one skipped request, one refused allocation with its victim, or one
request that gets its tokens. `Vacates` says what making room does under each policy. `Held` is what
every point keeps, and `runningLoop_turns` connects the relation with the function: the loop reaches a
point where it ends, and returns the pass of that point.
-/

namespace Gambit.Sched
open Gambit.Lib

namespace Pass
variable {μ β : Type}

/-- A point of the loop over the running requests; `seen` is the history of the requests looked at. -/
inductive Point (μ β : Type) where
  /-- At the head of the loop. -/
  | head (idx : Nat) (seen : List ReqId) (p : Pass μ β)
  /-- In front of `allocate_slots` for the request `rid`. -/
  | hand (idx : Nat) (seen : List ReqId) (rid : ReqId) (numNew : Int) (inputs : List Nat) (budget : Int)
    (p : Pass μ β)
  /-- After the request at hand was itself the victim. -/
  | ended (idx : Nat) (seen : List ReqId) (p : Pass μ β)

namespace Point

/-- The pass at a point. -/
def pass : Point μ β → Pass μ β
  | .head _ _ p => p
  | .hand _ _ _ _ _ _ p => p
  | .ended _ _ p => p

/-- The position at a point. -/
def idx : Point μ β → Nat
  | .head idx _ _ => idx
  | .hand idx _ _ _ _ _ _ => idx
  | .ended idx _ _ => idx

/-- The requests looked at before a point, in this order. -/
def seen : Point μ β → List ReqId
  | .head _ seen _ => seen
  | .hand _ seen _ _ _ _ _ => seen
  | .ended _ seen _ => seen

/-- The loop ends here: nobody is left, the budget is used up, or the allocation failed for good. -/
def Final : Point μ β → Prop
  | .head idx _ p => p.sched.running.length ≤ idx ∨ p.tokenBudget ≤ 0
  | .hand .. => False
  | .ended .. => True

end Point

/-- What making room does: the victim, the pass without it, and the position after it. -/
inductive Vacates (ops : Caches μ β) (cfg : VllmConfig) (p : Pass μ β) (idx : Nat) :
    ReqId → Pass μ β → Nat → Prop where
  | evict {victim r} :
    cfg.policy = .gambit →
    p.sched.running.getLast? = some victim →
    p.sched.requests.get? victim = some r →
    Vacates ops cfg p idx victim { p with sched := (p.sched.stopLowestRunning ops).2 } idx
  | pop {victim r} :
    cfg.policy = .fcfs →
    p.sched.running.getLast? = some victim →
    p.sched.requests.get? victim = some r →
    Vacates ops cfg p idx victim (({ p with sched := { p.sched with
      running := p.sched.running.dropLast } } : Pass μ β).preempt ops cfg victim) idx
  | takeBack {victim r} :
    cfg.policy = .priority →
    p.sched.lowestPriority = some victim →
    p.sched.requests.get? victim = some r →
    victim ∈ p.scheduledRunningReqs →
    Vacates ops cfg p idx victim ((({ p with sched := { p.sched with
      running := p.sched.running.erase victim } } : Pass μ β).unschedule victim).preempt ops cfg victim)
      (idx - 1)
  | drop {victim r} :
    cfg.policy = .priority →
    p.sched.lowestPriority = some victim →
    p.sched.requests.get? victim = some r →
    victim ∉ p.scheduledRunningReqs →
    Vacates ops cfg p idx victim (({ p with sched := { p.sched with
      running := p.sched.running.erase victim } } : Pass μ β).preempt ops cfg victim) idx

/-- One turn of the loop. -/
inductive Turn (ops : Caches μ β) (cfg : VllmConfig) : Point μ β → Point μ β → Prop where
  | look {idx seen p q rid r inputs numNew budget} :
    p.sched.running[idx]? = some rid →
    0 < p.tokenBudget →
    p.sched.requests.get? rid = some r →
    p.tryEncoder ops r r.numComputedTokens (numNewRunning cfg r p.tokenBudget) =
      (q, inputs, numNew, budget) →
    Turn ops cfg (.head idx seen p) (.hand idx (seen ++ [rid]) rid numNew inputs budget q)
  | skip {idx seen rid inputs budget p} :
    Turn ops cfg (.hand idx seen rid 0 inputs budget p) (.head (idx + 1) seen p)
  | room {idx seen rid r numNew inputs budget p m victim q idx'} :
    numNew ≠ 0 →
    p.sched.requests.get? rid = some r →
    ops.allocateSlots p.sched.caches r numNew 0 none cfg.scheduler.numLookaheadTokens 0 = (m, none) →
    Vacates ops cfg (p.setCaches m) idx victim q idx' →
    victim ≠ rid →
    Turn ops cfg (.hand idx seen rid numNew inputs budget p) (.hand idx' seen rid numNew inputs budget q)
  | fail {idx seen rid r numNew inputs budget p m q idx'} :
    numNew ≠ 0 →
    p.sched.requests.get? rid = some r →
    ops.allocateSlots p.sched.caches r numNew 0 none cfg.scheduler.numLookaheadTokens 0 = (m, none) →
    Vacates ops cfg (p.setCaches m) idx rid q idx' →
    Turn ops cfg (.hand idx seen rid numNew inputs budget p) (.ended idx' seen q)
  | run {idx seen rid r numNew inputs budget p m blocks} :
    numNew ≠ 0 →
    p.sched.requests.get? rid = some r →
    ops.allocateSlots p.sched.caches r numNew 0 none cfg.scheduler.numLookaheadTokens 0 =
      (m, some blocks) →
    Turn ops cfg (.hand idx seen rid numNew inputs budget p)
      (.head (idx + 1) seen (p.runRequest ops m rid r numNew blocks inputs budget))

/-- Sequences of turns. -/
abbrev Turns (ops : Caches μ β) (cfg : VllmConfig) : Point μ β → Point μ β → Prop :=
  Relation.ReflTransGen (Turn ops cfg)

/-- What every turn keeps holds at every point that is reached. -/
lemma Turns.keep {ops : Caches μ β} {cfg : VllmConfig} {P : Point μ β → Prop} {x y : Point μ β}
    (h : Turns ops cfg x y) (turn : ∀ {a b}, Turn ops cfg a b → P a → P b) (hx : P x) : P y := by
  induction h with
  | refl => exact hx
  | tail _ ht ih => exact turn ht ih

variable {ops : Caches μ β} {cfg : VllmConfig} {p q : Pass μ β} {idx idx' : Nat} {rid victim : ReqId}
variable {r : Request}

/-- The pass and the position that making room computes. -/
lemma Vacates.makeRoom_eq (hv : Vacates ops cfg p idx victim q idx') :
    p.makeRoom ops cfg idx = (some victim, q, idx') := by
  cases hv with
  | evict hg hl hr =>
    unfold Pass.makeRoom
    rw [hg]
    dsimp only [Scheduler.stopLowestRunning]
    rw [hl]
    dsimp only
    rw [hr]
  | pop hg hl hr =>
    unfold Pass.makeRoom
    rw [hg]
    dsimp only
    rw [hl]
  | takeBack hg hl hr hs =>
    unfold Pass.makeRoom
    rw [hg]
    dsimp only
    rw [hl]
    dsimp only
    rw [if_pos hs]
  | drop hg hl hr hs =>
    unfold Pass.makeRoom
    rw [hg]
    dsimp only
    rw [hl]
    dsimp only
    rw [if_neg hs]

/-- In a queue that is not empty making room finds a victim. -/
lemma At.vacates (ops : Caches μ β) (cfg : VllmConfig) (h : At idx p) (hne : p.sched.running ≠ []) :
    ∃ victim q idx', Vacates ops cfg p idx victim q idx' := by
  obtain ⟨last, hl⟩ := Option.ne_none_iff_exists'.1 (mt List.getLast?_eq_none_iff.1 hne)
  obtain ⟨r, hr⟩ := Dict.mem_iff_get?.1 (h.live last (List.mem_of_getLast? hl))
  cases hg : cfg.policy with
  | gambit => exact ⟨_, _, _, .evict hg hl hr⟩
  | fcfs => exact ⟨_, _, _, .pop hg hl hr⟩
  | priority =>
    obtain ⟨victim, hv⟩ := exists_lowestPriority hne
    obtain ⟨rv, hrv⟩ := Dict.mem_iff_get?.1 (h.live victim (lowestPriority_mem hv))
    by_cases hs : victim ∈ p.scheduledRunningReqs
    · exact ⟨_, _, _, .takeBack hg hv hrv hs⟩
    · exact ⟨_, _, _, .drop hg hv hrv hs⟩

/-- What making room leaves, of the request at hand too. -/
lemma Vacates.roomed (hv : Vacates ops cfg p idx victim q idx') (h : At idx p)
    (hc : Current cfg idx rid p) : Roomed ops cfg rid p (some victim, q, idx') := by
  rw [← hv.makeRoom_eq]
  exact h.makeRoom hc

/-- The running queue and the store after an eviction. -/
lemma evict_frame (ops : Caches μ β) {s : Scheduler μ} (hl : s.running.getLast? = some victim)
    (hr : s.requests.get? victim = some r) :
    (s.stopLowestRunning ops).2.running = s.running.dropLast ∧
      (s.stopLowestRunning ops).2.waiting = s.waiting ∧
      (s.stopLowestRunning ops).2.requests = s.requests.erase r.requestId := by
  unfold Scheduler.stopLowestRunning
  rw [hl]
  dsimp only
  rw [hr]
  exact ⟨rfl, rfl, rfl⟩

/-- A victim shortens the running queue, and takes at most one off the position. -/
lemma Vacates.shorter (hv : Vacates ops cfg p idx victim q idx') :
    q.sched.running.length + 1 = p.sched.running.length ∧ idx ≤ idx' + 1 := by
  have last : p.sched.running.getLast? = some victim →
      p.sched.running.dropLast.length + 1 = p.sched.running.length := by
    intro hl
    have := (getLast?_perm hl).length_eq
    rw [List.length_cons] at this
    exact this.symm
  have lowest : p.sched.lowestPriority = some victim →
      (p.sched.running.erase victim).length + 1 = p.sched.running.length := by
    intro hl
    exact List.length_erase_add_one (lowestPriority_mem hl)
  cases hv with
  | evict _ hl hr =>
    refine ⟨?_, Nat.le_succ idx⟩
    rw [(evict_frame ops hl hr).1]
    exact last hl
  | pop _ hl hr =>
    refine ⟨?_, Nat.le_succ idx⟩
    rw [(preempt_frame ..).1]
    exact last hl
  | takeBack _ hl hr hs =>
    refine ⟨?_, by omega⟩
    rw [(preempt_frame ..).1]
    exact lowest hl
  | drop _ hl hr hs =>
    refine ⟨?_, Nat.le_succ idx⟩
    rw [(preempt_frame ..).1]
    exact lowest hl

/-- What every point of the loop keeps. -/
def Held (cfg : VllmConfig) : Point μ β → Prop
  | .head idx _ p => At idx p
  | .hand idx _ rid _ _ _ p => At idx p ∧ Current cfg idx rid p
  | .ended idx _ p => At idx p

/-- The encoder look-up changes the caches only. -/
lemma tryEncoder_caches {computed n numNew budget : Int} {inputs : List Nat}
    (h : p.tryEncoder ops r computed n = (q, inputs, numNew, budget)) : ∃ m, q = p.setCaches m := by
  unfold Pass.tryEncoder at h
  split at h
  · exact ⟨_, (congrArg Prod.fst h).symm⟩
  · exact ⟨p.sched.caches, (congrArg Prod.fst h).symm⟩

/-- Every turn keeps it. -/
lemma Turn.held {x y : Point μ β} (ht : Turn ops cfg x y) (hx : Held cfg x) : Held cfg y := by
  cases ht with
  | look hrid _ _ henc =>
    obtain ⟨m, rfl⟩ := tryEncoder_caches henc
    have hx : At _ _ := hx
    exact ⟨hx.setCaches m, (hx.setCaches m).current hrid⟩
  | skip => exact hx.1.succ
  | room _ _ _ hv hne =>
    have hroom := hv.roomed (hx.1.setCaches _) ⟨hx.2.here, hx.2.mem, hx.2.fresh⟩
    have hother : some _ ≠ some _ := fun he => hne (Option.some.inj he)
    exact ⟨hroom.atPos, hroom.current hother⟩
  | fail _ _ _ hv => exact (hv.roomed (hx.1.setCaches _) ⟨hx.2.here, hx.2.mem, hx.2.fresh⟩).atPos
  | run => exact hx.1.runRequest hx.2 hx.2.fresh

/-- The inner loop is a sequence of turns: it ends with the request at hand as its victim, or in front
of an allocation that succeeds. -/
lemma allocateOrEvict_turns {fuel : Nat} {numNew : Int} (seen : List ReqId) (inputs : List Nat)
    (budget : Int) (h : At idx p) (hc : Current cfg idx rid p) (hr : p.sched.requests.get? rid = some r)
    (hn : numNew ≠ 0) (hf : p.sched.running.length ≤ fuel) :
    (∃ q idx', p.allocateOrEvict ops cfg rid numNew fuel idx = (q, idx', none) ∧
      Turns ops cfg (.hand idx seen rid numNew inputs budget p) (.ended idx' seen q)) ∨
    ∃ q idx' m blocks, p.allocateOrEvict ops cfg rid numNew fuel idx =
        (q.setCaches m, idx', some blocks) ∧
      Turns ops cfg (.hand idx seen rid numNew inputs budget p)
        (.hand idx' seen rid numNew inputs budget q) ∧
      q.sched.requests.get? rid = some r ∧
      ops.allocateSlots q.sched.caches r numNew 0 none cfg.scheduler.numLookaheadTokens 0 =
        (m, some blocks) ∧
      2 * q.sched.running.length + idx ≤ 2 * p.sched.running.length + idx' := by
  have hmem : rid ∈ p.sched.running := List.mem_of_mem_take hc.mem
  induction fuel generalizing p idx with
  | zero => exact absurd (List.length_eq_zero_iff.1 (Nat.le_zero.1 hf)) (List.ne_nil_of_mem hmem)
  | succ fuel ih =>
    rw [Pass.allocateOrEvict, hr]
    dsimp only
    split
    · next m blocks hal => exact .inr ⟨p, idx, m, blocks, rfl, .refl, hr, hal, Nat.le_refl _⟩
    next m hal =>
    have hc' : Current cfg idx rid (p.setCaches m) := ⟨hc.here, hc.mem, hc.fresh⟩
    obtain ⟨victim, q, idx', hv⟩ := (h.setCaches m).vacates ops cfg (List.ne_nil_of_mem hmem)
    have hroom := hv.roomed (h.setCaches m) hc'
    have hshort : q.sched.running.length + 1 = p.sched.running.length ∧ idx ≤ idx' + 1 := hv.shorter
    rw [hv.makeRoom_eq]
    dsimp only
    split
    · next he =>
      subst he
      exact .inl ⟨q, idx', rfl, .single (.fail hn hr hal hv)⟩
    next hne =>
    have hother : some victim ≠ some rid := fun he => hne (Option.some.inj he)
    have hat : At idx' q := hroom.atPos
    have hcur : Current cfg idx' rid q := hroom.current hother
    have hrq : q.sched.requests.get? rid = some r := (hroom.request hother).trans hr
    have hfirst : Turn ops cfg (.hand idx seen rid numNew inputs budget p)
        (.hand idx' seen rid numNew inputs budget q) := .room hn hr hal hv hne
    rcases ih hat hcur hrq (by omega) (List.mem_of_mem_take hcur.mem) with
      ⟨q', i', he, ht⟩ | ⟨q', i', m', blocks, he, ht, hr', hal', hle⟩
    · exact .inl ⟨q', i', he, .head hfirst ht⟩
    · exact .inr ⟨q', i', m', blocks, he, .head hfirst ht, hr', hal', by omega⟩

/-- The loop over the running requests is a sequence of turns up to a point where it ends. -/
theorem runningLoop_turns (ops : Caches μ β) (cfg : VllmConfig) (fuel : Nat) (seen : List ReqId)
    (h : At idx p) (hf : 2 * p.sched.running.length ≤ fuel + idx) :
    ∃ x, Turns ops cfg (.head idx seen p) x ∧ x.Final ∧ x.pass = p.runningLoop ops cfg fuel idx := by
  induction fuel generalizing p idx seen with
  | zero => exact ⟨_, .refl, .inl (by omega), rfl⟩
  | succ fuel ih =>
    rw [Pass.runningLoop]
    split
    · next hnone => exact ⟨_, .refl, .inl (List.getElem?_eq_none_iff.1 hnone), rfl⟩
    next rid hrid =>
    split
    · next hb => exact ⟨_, .refl, .inr hb, rfl⟩
    next hb =>
    have hmem : rid ∈ p.sched.running := List.mem_of_getElem? hrid
    obtain ⟨r, hr⟩ := Dict.mem_iff_get?.1 (h.live rid hmem)
    rw [hr]
    dsimp only
    generalize henc : p.tryEncoder ops r r.numComputedTokens (numNewRunning cfg r p.tokenBudget) = enc
    obtain ⟨q, inputs, numNew, budget⟩ := enc
    dsimp only
    have hlook : Turn ops cfg (.head idx seen p) (.hand idx (seen ++ [rid]) rid numNew inputs budget q) :=
      .look hrid (Int.not_le.1 hb) hr henc
    obtain ⟨m, rfl⟩ := tryEncoder_caches henc
    have h1 := h.setCaches m
    have hlen : (p.setCaches m).sched.running.length = p.sched.running.length := rfl
    split
    · next h0 =>
      subst h0
      obtain ⟨x, hx, hfin, he⟩ := ih (seen ++ [rid]) h1.succ (by omega)
      exact ⟨x, .head hlook (.head .skip hx), hfin, he⟩
    next hn =>
    rcases allocateOrEvict_turns (seen ++ [rid]) inputs budget h1 (h1.current hrid) hr hn
      (Nat.le_refl _) with
      ⟨q, idx', he, ht⟩ | ⟨q, idx', m', blocks, he, ht, hr', hal, hle⟩
    · rw [he]
      exact ⟨_, .head hlook ht, trivial, rfl⟩
    · rw [he]
      dsimp only
      have hheld : Held cfg (.hand idx' (seen ++ [rid]) rid numNew inputs budget q) :=
        ht.keep Turn.held ⟨h1, h1.current hrid⟩
      have hat : At (idx' + 1) (q.runRequest ops m' rid r numNew blocks inputs budget) :=
        hheld.1.runRequest hheld.2 hheld.2.fresh
      have hrun : (q.runRequest ops m' rid r numNew blocks inputs budget).sched.running =
          q.sched.running := (runRequest_frame ..).1
      obtain ⟨x, hx, hfin, hp⟩ := ih (seen ++ [rid]) hat (by rw [hrun]; omega)
      exact ⟨x, .head hlook (ht.trans (.head (.run hn hr' hal) hx)), hfin, hp⟩

/-- What giving tokens to a running request does not touch. -/
lemma runRequest_kept (ops : Caches μ β) (p : Pass μ β) (m : μ) (rid : ReqId) (r : Request)
    (numNew : Int) (blocks : β) (inputs : List Nat) (budget : Int) :
    (p.runRequest ops m rid r numNew blocks inputs budget).sched.waiting = p.sched.waiting ∧
    (p.runRequest ops m rid r numNew blocks inputs budget).preemptedReqs = p.preemptedReqs ∧
    (p.runRequest ops m rid r numNew blocks inputs budget).admitted = p.admitted := by
  unfold Pass.runRequest Pass.scheduleEncoder Pass.scheduleSpec
  dsimp only
  split_ifs <;> exact ⟨rfl, rfl, rfl⟩

/-- Making room admits nobody. -/
lemma Vacates.admitted (hv : Vacates ops cfg p idx victim q idx') : q.admitted = p.admitted := by
  cases hv with
  | evict => rfl
  | pop => rfl
  | takeBack => rfl
  | drop => rfl

/-- The loop over the running requests admits nobody. -/
lemma Turn.admitted {x y : Point μ β} (ht : Turn ops cfg x y) : y.pass.admitted = x.pass.admitted := by
  cases ht with
  | look _ _ _ henc =>
    obtain ⟨m, rfl⟩ := tryEncoder_caches henc
    rfl
  | skip => rfl
  | room _ _ _ hv =>
    have := hv.admitted
    exact this
  | fail _ _ _ hv =>
    have := hv.admitted
    exact this
  | run => exact (runRequest_kept ..).2.2

/-- Without GAMBIT the victim is preempted. -/
lemma Vacates.preempted {a : ReqId} (hv : Vacates ops cfg p idx victim q idx') (hg : cfg.policy ≠ .gambit)
    (ha : a ∈ p.sched.running ∨ a ∈ p.preemptedReqs) :
    a ∈ q.sched.running ∨ a ∈ q.preemptedReqs := by
  cases hv with
  | evict hp => exact absurd hp hg
  | pop _ hl =>
    rw [(preempt_frame ..).1]
    dsimp only [Pass.preempt]
    rw [(getLast?_perm hl).mem_iff, List.mem_cons] at ha
    rw [List.mem_append, List.mem_singleton]
    tauto
  | takeBack _ hl =>
    rw [(preempt_frame ..).1]
    dsimp only [Pass.preempt, Pass.unschedule]
    rw [(List.perm_cons_erase (lowestPriority_mem hl)).mem_iff, List.mem_cons] at ha
    rw [List.mem_append, List.mem_singleton]
    tauto
  | drop _ hl =>
    rw [(preempt_frame ..).1]
    dsimp only [Pass.preempt]
    rw [(List.perm_cons_erase (lowestPriority_mem hl)).mem_iff, List.mem_cons] at ha
    rw [List.mem_append, List.mem_singleton]
    tauto

/-- Without GAMBIT whoever loses its place is preempted. -/
lemma Turn.preempted {x y : Point μ β} {a : ReqId} (ht : Turn ops cfg x y) (hg : cfg.policy ≠ .gambit)
    (ha : a ∈ x.pass.sched.running ∨ a ∈ x.pass.preemptedReqs) :
    a ∈ y.pass.sched.running ∨ a ∈ y.pass.preemptedReqs := by
  cases ht with
  | look _ _ _ henc =>
    obtain ⟨m, rfl⟩ := tryEncoder_caches henc
    exact ha
  | skip => exact ha
  | room _ _ _ hv => exact hv.preempted hg ha
  | fail _ _ _ hv => exact hv.preempted hg ha
  | run =>
    dsimp only [Point.pass]
    rw [(runRequest_frame ..).1, (runRequest_kept ..).2.1]
    exact ha

/-- GAMBIT puts nobody back into the waiting queue. -/
lemma Turn.evicts {x y : Point μ β} (ht : Turn ops cfg x y) (hg : cfg.policy = .gambit) :
    y.pass.sched.waiting = x.pass.sched.waiting ∧ y.pass.preemptedReqs = x.pass.preemptedReqs := by
  have vacates : ∀ {p q : Pass μ β} {idx idx' : Nat} {victim : ReqId},
      Vacates ops cfg p idx victim q idx' →
      q.sched.waiting = p.sched.waiting ∧ q.preemptedReqs = p.preemptedReqs := by
    intro p q idx idx' victim hv
    cases hv with
    | evict _ hl hr => exact ⟨(evict_frame ops hl hr).2.1, rfl⟩
    | pop hp => exact absurd (hp.symm.trans hg) (by decide)
    | takeBack hp => exact absurd (hp.symm.trans hg) (by decide)
    | drop hp => exact absurd (hp.symm.trans hg) (by decide)
  cases ht with
  | look _ _ _ henc =>
    obtain ⟨m, rfl⟩ := tryEncoder_caches henc
    exact ⟨rfl, rfl⟩
  | skip => exact ⟨rfl, rfl⟩
  | room _ _ _ hv =>
    have := vacates hv
    exact this
  | fail _ _ _ hv =>
    have := vacates hv
    exact this
  | run => exact ⟨(runRequest_kept ..).1, (runRequest_kept ..).2.1⟩

end Pass

namespace Scheduler
variable {μ β : Type} {ops : Caches μ β} {cfg : VllmConfig} {s : Scheduler μ}

/-- The state between the two loops of `schedule`. -/
def afterRunning (ops : Caches μ β) (cfg : VllmConfig) (s : Scheduler μ) : Pass μ β :=
  (s.startPass cfg).runningLoop ops cfg (2 * s.running.length) 0

/-- The running queue at the start of a pass. -/
lemma startPass_running (cfg : VllmConfig) (s : Scheduler μ) :
    (s.startPass (β := β) cfg).sched.running.Perm s.running := by
  unfold Scheduler.startPass
  dsimp only
  split
  · exact List.perm_insertionSort s.scoreLE s.running
  · exact .refl _

/-- The first loop of `schedule` is a sequence of turns up to a point where it ends. -/
lemma WF.afterRunning_turns (ops : Caches μ β) (cfg : VllmConfig) (h : s.WF) :
    ∃ x : Pass.Point μ β, Pass.Turns ops cfg (.head 0 [] (s.startPass cfg)) x ∧ x.Final ∧
      Pass.Held cfg x ∧ x.pass = s.afterRunning ops cfg := by
  have hzero : Pass.At 0 (s.startPass (β := β) cfg) := h.at_zero ops
  have hlen : (s.startPass (β := β) cfg).sched.running.length = s.running.length :=
    (startPass_running cfg s).length_eq
  obtain ⟨x, ht, hf, hp⟩ := Pass.runningLoop_turns ops cfg (2 * s.running.length) [] hzero (by omega)
  exact ⟨x, ht, hf, ht.keep Pass.Turn.held hzero, hp⟩

/-- What every turn keeps holds between the two loops. -/
lemma WF.afterRunning_keep {P : Pass.Point μ β → Prop} (ops : Caches μ β) (cfg : VllmConfig) (h : s.WF)
    (turn : ∀ {a b}, Pass.Turn ops cfg a b → Pass.Held cfg a → P a → P b)
    (hstart : P (.head 0 [] (s.startPass cfg))) :
    ∃ x : Pass.Point μ β, x.Final ∧ Pass.Held cfg x ∧ P x ∧ x.pass = s.afterRunning ops cfg := by
  obtain ⟨x, ht, hf, hheld, hp⟩ := h.afterRunning_turns ops cfg
  have hzero : Pass.At 0 (s.startPass (β := β) cfg) := h.at_zero ops
  have hboth : Pass.Held cfg x ∧ P x :=
    ht.keep (P := fun a => Pass.Held cfg a ∧ P a) (fun hab ha => ⟨hab.held ha.1, turn hab ha.1 ha.2⟩)
      ⟨hzero, hstart⟩
  exact ⟨x, hf, hheld, hboth.2, hp⟩

end Scheduler
end Gambit.Sched
