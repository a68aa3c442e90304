import Gambit.Sched.WellFormed

/-!
# The scheduling pass keeps the invariant

`Pass.Inv s₀ p q` is the invariant of a pass of `schedule` that began in `s₀`: the scheduler is well
formed with `q` as its queue, it evolved from `s₀`, and whatever was scheduled was live in `s₀`. Each
operation of the pass keeps it, and so do the two loops.

Under the GAMBIT policy nothing is preempted, so the computed tokens of a request never go back
during a pass, and a request is never given more tokens than it has left to compute. The second fact
needs that `_try_schedule_encoder_inputs` only ever lowers the number of new tokens.
-/

namespace Gambit.Sched
open Gambit.Lib

/-- `_try_schedule_encoder_inputs` never raises the number of new tokens. -/
def Caches.EncoderShrinks {μ β : Type} (ops : Caches μ β) : Prop :=
  ∀ m r computed n budget, (ops.tryScheduleEncoderInputs m r computed n budget).2.2.1 ≤ n

namespace Pass
variable {μ β : Type} {ops : Caches μ β} {cfg : VllmConfig} {s₀ : Scheduler μ} {p p' : Pass μ β}
variable {q q' : List ReqId} {rid : ReqId} {r r' : Request}

/-- The invariant of a pass that began in `s₀`, with `q` in the place of the waiting queue. -/
structure Inv (ops : Caches μ β) (cfg : VllmConfig) (s₀ : Scheduler μ) (p : Pass μ β)
    (q : List ReqId) : Prop where
  wf : p.sched.WFQ q
  evolves : s₀.Evolves p.sched
  scheduled : ∀ rid ∈ p.numScheduledTokens, rid ∈ s₀.requests
  computed : cfg.policy = .gambit → ∀ rid r r', s₀.requests.get? rid = some r →
    p.sched.requests.get? rid = some r' → r.numComputedTokens ≤ r'.numComputedTokens
  count : cfg.policy = .gambit → ops.EncoderShrinks → ∀ rid r r' c, s₀.requests.get? rid = some r →
    p.sched.requests.get? rid = some r' → p.numScheduledTokens.get? rid = some c →
    c + r'.numComputedTokens ≤ r.numTokensWithSpec

/-- The invariant of a pass whose queue is the waiting queue. -/
abbrev InvW (ops : Caches μ β) (cfg : VllmConfig) (s₀ : Scheduler μ) (p : Pass μ β) : Prop :=
  p.Inv ops cfg s₀ p.sched.waiting

/-- The order of the queue does not matter. -/
lemma Inv.perm (h : p.Inv ops cfg s₀ q) (hq : q.Perm q') : p.Inv ops cfg s₀ q' :=
  ⟨h.wf.perm hq, h.evolves, h.scheduled, h.computed, h.count⟩

/-- Changes of caches, budgets and lists do not matter. -/
lemma Inv.congr (h : p.Inv ops cfg s₀ q) (hr : p'.sched.requests = p.sched.requests)
    (hq : p'.sched.running = p.sched.running)
    (hp : p'.sched.pendingPrunedOutputs = p.sched.pendingPrunedOutputs)
    (hs : p'.sched.traceScores = p.sched.traceScores)
    (hn : p'.numScheduledTokens = p.numScheduledTokens) : p'.Inv ops cfg s₀ q where
  wf := h.wf.congr hr hq
  evolves := h.evolves.trans (.congr hr hp hs)
  scheduled := hn ▸ h.scheduled
  computed := hr ▸ h.computed
  count := by rw [hr, hn]; exact h.count

/-- Changing a stored request in place without touching its computed tokens. -/
lemma Inv.set (h : p.Inv ops cfg s₀ q) (hr : p.sched.requests.get? rid = some r) (ht : r.Kept r')
    (hf : r'.status.isFinished = false) (hs : r'.status = .running ↔ r.status = .running)
    (hc : r'.numComputedTokens = r.numComputedTokens) :
    ({ p with sched := { p.sched with requests := p.sched.requests.set rid r' } } :
      Pass μ β).Inv ops cfg s₀ q where
  wf := h.wf.set hr (ht.requestId.trans (h.wf.requestId rid r hr)) hf hs
  evolves := h.evolves.trans (.set hr ht rfl rfl rfl)
  scheduled := h.scheduled
  computed hg x rx rx' hx hx' := by
    rw [Dict.get?_set] at hx'
    split at hx'
    · next e =>
      cases hx'
      rw [hc]
      exact h.computed hg x rx r hx (e ▸ hr)
    · exact h.computed hg x rx rx' hx hx'
  count hg he x rx rx' c hx hx' hn := by
    rw [Dict.get?_set] at hx'
    split at hx'
    · next e =>
      cases hx'
      rw [hc]
      exact h.count hg he x rx r c hx (e ▸ hr) hn
    · exact h.count hg he x rx rx' c hx hx' hn

/-- Recording the number of tokens scheduled for a live request. -/
lemma Inv.schedule {c : Int} (h : p.Inv ops cfg s₀ q) (hm : rid ∈ p.sched.requests)
    (hc : cfg.policy = .gambit → ops.EncoderShrinks → ∀ r r', s₀.requests.get? rid = some r →
      p.sched.requests.get? rid = some r' → c + r'.numComputedTokens ≤ r.numTokensWithSpec)
    (hp : p'.sched = p.sched) (hn : p'.numScheduledTokens = p.numScheduledTokens.set rid c) :
    p'.Inv ops cfg s₀ q where
  wf := hp ▸ h.wf
  evolves := hp ▸ h.evolves
  scheduled x hx := by
    rw [hn, Dict.mem_set] at hx
    rcases hx with rfl | hx
    · exact h.evolves.mem hm
    · exact h.scheduled x hx
  computed := hp ▸ h.computed
  count hg he x rx rx' c' hx hx' hc' := by
    rw [hp] at hx'
    rw [hn, Dict.get?_set] at hc'
    split at hc'
    · next e =>
      cases hc'
      subst e
      exact hc hg he rx rx' hx hx'
    · exact h.count hg he x rx rx' c' hx hx' hc'

/-- Removing the last element, as a permutation. -/
lemma getLast?_perm {l : List ReqId} (h : l.getLast? = some rid) : l.Perm (rid :: l.dropLast) := by
  conv_lhs => rw [← List.dropLast_append_getLast? rid h]
  exact List.perm_append_singleton rid _

/-- The eviction of the last running request. -/
lemma Inv.evict (h : p.InvW ops cfg s₀) :
    ({ p with sched := (p.sched.stopLowestRunning ops).2 } : Pass μ β).InvW ops cfg s₀ := by
  unfold Scheduler.stopLowestRunning
  cases hl : p.sched.running.getLast? with
  | none => exact h
  | some rid =>
    have hperm := getLast?_perm hl
    have hm : rid ∈ p.sched.requests :=
      (h.wf.mem rid).2 (List.mem_append_left _ (hperm.mem_iff.2 List.mem_cons_self))
    obtain ⟨r, hr⟩ := Dict.mem_iff_get?.1 hm
    have hid : r.requestId = rid := h.wf.requestId rid r hr
    simp only [hr]
    have back : ∀ x rx, (p.sched.requests.erase r.requestId).get? x = some rx →
        p.sched.requests.get? x = some rx := by
      intro x rx hx
      rw [Dict.get?_erase] at hx
      split at hx
      · cases hx
      · exact hx
    refine ⟨?_, ?_, h.scheduled, ?_, ?_⟩
    · refine h.wf.erase (hperm.append_right _) ?_ ?_ (by rw [← hid]; rfl)
      · exact fun x hx => hperm.mem_iff.2 (.tail _ hx)
      · exact fun x hx hne => (List.mem_cons.1 (hperm.mem_iff.1 hx)).resolve_left hne
    · refine h.evolves.trans ⟨?_, ?_, ?_, rfl⟩
      · exact fun x rx hx => ⟨rx, back x rx hx, .refl rx⟩
      · intro x hx
        by_cases e : x = rid
        · exact .inr (Scheduler.mem_evictedIds_append rfl (.inl e))
        · exact .inl (Dict.mem_erase.2 ⟨hid ▸ e, hx⟩)
      · exact fun x hx => Scheduler.mem_evictedIds_append rfl (.inr hx)
    · exact fun hg x rx rx' hx hx' => h.computed hg x rx rx' hx (back x rx' hx')
    · exact fun hg he x rx rx' c hx hx' hc => h.count hg he x rx rx' c hx (back x rx' hx') hc

/-- The preemption of a running request; it does not happen under GAMBIT. -/
lemma Inv.preempt {run : List ReqId} (h : p.InvW ops cfg s₀) (hg : cfg.policy ≠ .gambit)
    (hperm : p.sched.running.Perm (rid :: run))
    (hp : p'.sched = { p.sched with running := run })
    (hn : ∀ x ∈ p'.numScheduledTokens, x ∈ p.numScheduledTokens) :
    (p'.preempt ops cfg rid).InvW ops cfg s₀ := by
  have hm : rid ∈ p.sched.requests :=
    (h.wf.mem rid).2 (List.mem_append_left _ (hperm.mem_iff.2 List.mem_cons_self))
  obtain ⟨r, hr⟩ := Dict.mem_iff_get?.1 hm
  have hid : r.requestId = rid := h.wf.requestId rid r hr
  have hid' : r.preempted.requestId = rid := hid
  have hkept : r.Kept r.preempted := ⟨⟨rfl, rfl, rfl, rfl, rfl, rfl, rfl, rfl⟩, .inl rfl⟩
  have hn' : rid ∉ run := (List.nodup_cons.1 (hperm.nodup_iff.1 h.wf.nodup.of_append_left)).1
  have hr' : p'.sched.requests.get? rid = some r := by rw [hp]; exact hr
  refine ⟨?_, ?_, fun x hx => h.scheduled x (hn x hx), fun hg' => absurd hg' hg,
    fun hg' => absurd hg' hg⟩
  · have hw : (p'.preempt ops cfg rid).sched.waiting.Perm (rid :: p.sched.waiting) := by
      simp only [Pass.preempt, Scheduler.preempt, hr']
      rw [hp]
      exact Scheduler.queuePrepend_perm ..
    refine Scheduler.WFQ.perm ?_ hw.symm
    refine h.wf.move hr hid' rfl ?_ ?_ ?_ ?_
    · have hrun : (p'.preempt ops cfg rid).sched.running = run := by
        simp only [Pass.preempt, Scheduler.preempt, hr']
        rw [hp]
      rw [hrun]
      exact (hperm.append_right _).trans List.perm_middle.symm
    · simp only [Pass.preempt, Scheduler.preempt, hr']
      rw [hp]
      simpa [Request.preempted] using hn'
    · intro x hne
      simp only [Pass.preempt, Scheduler.preempt, hr']
      rw [hp]
      rw [hperm.mem_iff, List.mem_cons]
      exact ⟨.inr, fun hx => hx.resolve_left hne⟩
    · simp only [Pass.preempt, Scheduler.preempt, hr']
      rw [hp]
  · refine h.evolves.trans (.set hr hkept ?_ ?_ ?_) <;>
    · simp only [Pass.preempt, Scheduler.preempt, hr']
      rw [hp]

/-- Under GAMBIT making room only takes requests away. -/
def Shrinks (cfg : VllmConfig) (p p' : Pass μ β) : Prop :=
  cfg.policy = .gambit → ∀ x rx, p'.sched.requests.get? x = some rx →
    p.sched.requests.get? x = some rx

/-- One step of the search for the victim of PRIORITY. -/
def lower (s : Scheduler μ) (best : Option ReqId) (rid : ReqId) : Option ReqId :=
  match best with
  | none => some rid
  | some b => if Scheduler.keyLE (s.queueKey rid) (s.queueKey b) then some b else some rid

lemma lowestPriority_eq (s : Scheduler μ) : s.lowestPriority = s.running.foldl (lower s) none := rfl

/-- A step keeps what it had or takes the request it looks at. -/
lemma lower_cases (s : Scheduler μ) (best : Option ReqId) (y : ReqId) :
    lower s best y = some y ∨ lower s best y = best ∧ best ≠ none := by
  cases best with
  | none => exact .inl rfl
  | some b =>
    rw [lower]
    split
    · exact .inr ⟨rfl, Option.some_ne_none b⟩
    · exact .inl rfl

/-- The largest request of a fold over the running ones is one of them. -/
lemma lowestPriority_mem {s : Scheduler μ} (h : s.lowestPriority = some rid) : rid ∈ s.running := by
  have fold : ∀ (l : List ReqId) (b : Option ReqId), l.foldl (lower s) b = some rid → rid ∈ l ∨ b = some rid := by
    intro l
    induction l with
    | nil => exact fun b h => .inr h
    | cons y ys ih =>
      intro b h
      rcases ih _ h with h | h
      · exact .inl (.tail _ h)
      · rcases lower_cases s b y with he | ⟨he, -⟩
        · rw [he] at h
          cases h
          exact .inl List.mem_cons_self
        · rw [he] at h
          exact .inr h
  rcases fold s.running none h with h | h
  · exact h
  · cases h

/-- Making room keeps the invariant. -/
lemma Inv.makeRoom (h : p.InvW ops cfg s₀) (idx : Nat) :
    (p.makeRoom ops cfg idx).2.1.InvW ops cfg s₀ ∧ Shrinks cfg p (p.makeRoom ops cfg idx).2.1 := by
  unfold Pass.makeRoom
  cases hpol : cfg.policy with
  | gambit =>
    refine ⟨h.evict, fun _ x rx hx => ?_⟩
    dsimp only [Scheduler.stopLowestRunning] at hx
    split at hx
    · exact hx
    · split at hx
      · exact hx
      · simp only [Scheduler.freeRequest, Dict.get?_erase] at hx
        split at hx
        · cases hx
        · exact hx
  | priority =>
    have hg : cfg.policy ≠ .gambit := by simp [hpol]
    refine ⟨?_, fun hg' => absurd hg' hg⟩
    dsimp only
    cases hv : p.sched.lowestPriority with
    | none => exact h
    | some victim =>
      have hperm := List.perm_cons_erase (lowestPriority_mem hv)
      dsimp only
      split
      · refine h.preempt hg hperm rfl ?_
        exact fun x hx => (Dict.mem_erase.1 hx).2
      · exact h.preempt hg hperm rfl fun x hx => hx
  | fcfs =>
    have hg : cfg.policy ≠ .gambit := by simp [hpol]
    refine ⟨?_, fun hg' => absurd hg' hg⟩
    dsimp only
    cases hv : p.sched.running.getLast? with
    | none => exact h
    | some victim => exact h.preempt hg (getLast?_perm hv) rfl fun x hx => hx

/-- Changing the caches keeps the invariant. -/
lemma Inv.setCaches (h : p.Inv ops cfg s₀ q) (m : μ) : (p.setCaches m).Inv ops cfg s₀ q :=
  h.congr rfl rfl rfl rfl rfl

/-- The inner loop keeps the invariant; when it succeeds the request is still there. -/
lemma Inv.allocateOrEvict (rid : ReqId) (numNew : Int) (fuel : Nat) (idx : Nat)
    (h : p.InvW ops cfg s₀) :
    (p.allocateOrEvict ops cfg rid numNew fuel idx).1.InvW ops cfg s₀ ∧
      Shrinks cfg p (p.allocateOrEvict ops cfg rid numNew fuel idx).1 ∧
      ((p.allocateOrEvict ops cfg rid numNew fuel idx).2.2.isSome →
        rid ∈ (p.allocateOrEvict ops cfg rid numNew fuel idx).1.sched.requests) := by
  induction fuel generalizing p idx with
  | zero => exact ⟨h, fun _ x rx hx => hx, by simp [Pass.allocateOrEvict]⟩
  | succ fuel ih =>
    rw [Pass.allocateOrEvict]
    cases hr : p.sched.requests.get? rid with
    | none => exact ⟨h, fun _ x rx hx => hx, by simp⟩
    | some r =>
      dsimp only
      split
      · next m blocks _ => exact ⟨h.setCaches m, fun _ x rx hx => hx, fun _ => Dict.mem_of_get? hr⟩
      · next m _ =>
        obtain ⟨hroom, hshrink⟩ := Inv.makeRoom (h.setCaches m) idx
        split
        · next q idx' e =>
          rw [e] at hroom hshrink
          exact ⟨hroom, hshrink, by simp⟩
        · next victim q idx' e =>
          rw [e] at hroom hshrink
          split
          · exact ⟨hroom, hshrink, by simp⟩
          · obtain ⟨h1, h2, h3⟩ := ih idx' hroom
            exact ⟨h1, fun hg x rx hx => hshrink hg x rx (h2 hg x rx hx), h3⟩

/-- The encoder inputs change the caches only, and lower the number of new tokens. -/
lemma Inv.tryEncoder (h : p.Inv ops cfg s₀ q) (r : Request) (computed numNew : Int) :
    (p.tryEncoder ops r computed numNew).1.Inv ops cfg s₀ q ∧
      (p.tryEncoder ops r computed numNew).1.sched.requests = p.sched.requests ∧
      (p.tryEncoder ops r computed numNew).1.sched.waiting = p.sched.waiting ∧
      (ops.EncoderShrinks → (p.tryEncoder ops r computed numNew).2.2.1 ≤ numNew) := by
  unfold Pass.tryEncoder
  split
  · exact ⟨h.setCaches _, rfl, rfl, fun he => he ..⟩
  · exact ⟨h, rfl, rfl, fun _ => le_rfl⟩

/-- A cap never raises. -/
lemma capPrefill_le (cfg : VllmConfig) (n : Int) : capPrefill cfg n ≤ n := by
  unfold capPrefill
  split <;> omega

/-- A running request gets at most the tokens it has left. -/
lemma numNewRunning_le (cfg : VllmConfig) (r : Request) (budget : Int) :
    numNewRunning cfg r budget ≤ r.numTokensWithSpec - r.numComputedTokens := by
  have := capPrefill_le cfg (r.numTokensWithSpec - r.numComputedTokens)
  unfold numNewRunning
  dsimp only
  omega

/-- A kept request has at most as many tokens and drafts. -/
lemma numTokensWithSpec_le (h : r.Kept r') : r'.numTokensWithSpec ≤ r.numTokensWithSpec := by
  rw [Request.numTokensWithSpec, Request.numTokensWithSpec, Request.numTokens, Request.numTokens,
    h.allTokenIds]
  rcases h.specTokenIds with e | e
  · rw [e]
  · rw [e]; simp

/-- Recording the encoder inputs keeps the invariant. -/
lemma Inv.scheduleEncoder (h : p.Inv ops cfg s₀ q) (r : Request) (inputs : List Nat)
    (budget : Int) : (p.scheduleEncoder ops r inputs budget).Inv ops cfg s₀ q := by
  unfold Pass.scheduleEncoder
  split
  · exact h
  · exact h.congr rfl rfl rfl rfl rfl

@[simp] lemma scheduleEncoder_waiting (p : Pass μ β) (r : Request) (inputs : List Nat) (b : Int) :
    (p.scheduleEncoder ops r inputs b).sched.waiting = p.sched.waiting := by
  unfold Pass.scheduleEncoder
  split <;> rfl

/-- Dropping the drafts of a request keeps the invariant. -/
lemma Inv.dropDrafts (h : p.Inv ops cfg s₀ q) (hm : rid ∈ p.sched.requests) :
    ({ p with sched := { p.sched with requests := p.sched.requests.modify rid fun r =>
      { r with specTokenIds := [] } } } : Pass μ β).Inv ops cfg s₀ q := by
  obtain ⟨r, hr⟩ := Dict.mem_iff_get?.1 hm
  rw [Dict.modify_eq_set _ hr]
  exact h.set hr ⟨⟨rfl, rfl, rfl, rfl, rfl, rfl, rfl, rfl⟩, .inr rfl⟩ (h.wf.unfinished rid r hr) Iff.rfl rfl

/-- Recording the drafts keeps the invariant. -/
lemma Inv.scheduleSpec (h : p.Inv ops cfg s₀ q) (hm : rid ∈ p.sched.requests) (r : Request)
    (numNew : Int) : (p.scheduleSpec rid r numNew).Inv ops cfg s₀ q := by
  unfold Pass.scheduleSpec
  split
  · exact h
  · dsimp only
    split
    · exact (h.dropDrafts hm).congr rfl rfl rfl rfl rfl
    · exact h.dropDrafts hm

@[simp] lemma scheduleSpec_waiting (p : Pass μ β) (rid : ReqId) (r : Request) (n : Int) :
    (p.scheduleSpec rid r n).sched.waiting = p.sched.waiting := by
  unfold Pass.scheduleSpec
  dsimp only
  split
  · rfl
  · split <;> rfl

/-- The loop over the running requests keeps the invariant. -/
lemma Inv.runningLoop (fuel idx : Nat) (h : p.InvW ops cfg s₀) :
    (p.runningLoop ops cfg fuel idx).InvW ops cfg s₀ := by
  induction fuel generalizing p idx with
  | zero => exact h
  | succ fuel ih =>
    rw [Pass.runningLoop]
    split
    · exact h
    next rid hrid =>
    split
    · exact h
    split
    · exact h
    next r hr =>
    obtain ⟨hp, hreq, hwait, hle⟩ :=
      h.tryEncoder r r.numComputedTokens (numNewRunning cfg r p.tokenBudget)
    split
    next p1 inputs numNew budget heq =>
    rw [heq] at hp hreq hwait hle
    dsimp only at hp hreq hwait hle
    rw [← hwait] at hp
    split
    · exact ih _ hp
    obtain ⟨ha, hshrink, hsome⟩ := Inv.allocateOrEvict rid numNew p1.sched.running.length idx hp
    split
    · next p2 _ e =>
      rw [e] at ha
      exact ha
    · next p2 idx' blocks e =>
      rw [e] at ha hshrink hsome
      dsimp only at ha hshrink hsome
      have hm : rid ∈ p2.sched.requests := hsome rfl
      have hrun : (p2.scheduleRunning rid numNew blocks).InvW ops cfg s₀ := by
        refine Inv.schedule ha hm ?_ rfl rfl
        intro hg he r0 r2 hr0 hr2
        have hr1 := hshrink hg rid r2 hr2
        rw [hreq, hr] at hr1
        cases hr1
        obtain ⟨r0', hr0', hk⟩ := h.evolves.back rid r hr
        rw [hr0] at hr0'
        cases hr0'
        have h1 := numTokensWithSpec_le hk
        have h2 := numNewRunning_le cfg r p.tokenBudget
        have h3 := hle he
        omega
      have hspec := Inv.scheduleSpec hrun hm r numNew
      have henc := hspec.scheduleEncoder r inputs budget
      refine ih _ ?_
      rw [InvW, scheduleEncoder_waiting, scheduleSpec_waiting]
      exact henc

/-- What one iteration of the waiting loop leaves: the head of the queue is still there, or it was
admitted. -/
def Verdict.Ok (ops : Caches μ β) (cfg : VllmConfig) (s₀ : Scheduler μ) (rid : ReqId)
    (q : List ReqId) : Verdict μ β → Prop
  | .stop p => p.Inv ops cfg s₀ (rid :: q)
  | .skip p => p.Inv ops cfg s₀ (rid :: q)
  | .admitted p => p.Inv ops cfg s₀ q

/-- Admitting the head of the queue. -/
lemma Inv.admitRequest {computed numNew : Int} (h : p.Inv ops cfg s₀ (rid :: q))
    (hr : p.sched.requests.get? rid = some r) (hc : r.numComputedTokens ≤ computed)
    (hn : ops.EncoderShrinks → numNew + computed ≤ r.numTokens) :
    (p.admitRequest ops rid r computed numNew).Inv ops cfg s₀ q := by
  have hid : r.requestId = rid := h.wf.requestId rid r hr
  refine ⟨?_, ?_, ?_, ?_, ?_⟩
  · refine h.wf.move hr ?_ ?_ ?_ ?_ ?_ rfl
    · exact hid
    · rfl
    · simp [Pass.admitRequest]
    · simp [Pass.admitRequest]
    · intro x hne
      simp [Pass.admitRequest, hne]
  · refine h.evolves.trans (.set hr ?_ rfl rfl rfl)
    exact ⟨⟨rfl, rfl, rfl, rfl, rfl, rfl, rfl, rfl⟩, .inl rfl⟩
  · intro x hx
    rcases Dict.mem_set.1 hx with rfl | hx
    · exact h.evolves.mem (Dict.mem_of_get? hr)
    · exact h.scheduled x hx
  · intro hg x rx rx' hx hx'
    rw [Pass.admitRequest, Dict.get?_set] at hx'
    split at hx'
    · next e =>
      cases hx'
      exact (h.computed hg x rx r hx (e ▸ hr)).trans hc
    · exact h.computed hg x rx rx' hx hx'
  · intro hg he x rx rx' c hx hx' hc'
    simp only [Pass.admitRequest, Dict.get?_set] at hx' hc'
    split at hx'
    · next e =>
      subst e
      rw [if_pos rfl] at hc'
      cases hx'
      cases hc'
      obtain ⟨r0, hr0, hk⟩ := h.evolves.back x r hr
      rw [hx] at hr0
      cases hr0
      have h1 := numTokensWithSpec_le hk
      have h2 := hn he
      rw [Request.numTokensWithSpec] at h1
      dsimp only
      omega
    · next e =>
      rw [if_neg e] at hc'
      exact h.count hg he x rx rx' c hx hx' hc'

/-- The tail of an iteration keeps the invariant. -/
lemma Inv.tryAdmit {blocks : Option β} {cached : Nat} {numNew : Int}
    (h : p.Inv ops cfg s₀ (rid :: q)) (hr : p.sched.requests.get? rid = some r)
    (hn : numNew + (if r.numComputedTokens = 0 then (cached : Int) else r.numComputedTokens) ≤
      r.numTokens) :
    (p.tryAdmit ops cfg rid r blocks cached numNew).Ok ops cfg s₀ rid q := by
  have hc : r.numComputedTokens ≤
      if r.numComputedTokens = 0 then (cached : Int) else r.numComputedTokens := by
    split <;> omega
  unfold Pass.tryAdmit
  generalize (if r.numComputedTokens = 0 then (cached : Int) else r.numComputedTokens) = computed
    at hn hc ⊢
  obtain ⟨hp, hreq, -, hle⟩ := h.tryEncoder r computed numNew
  dsimp only
  generalize p.tryEncoder ops r computed numNew = t at hp hreq hle ⊢
  rw [← hreq] at hr
  split
  · exact hp
  split
  · next m _ => exact hp.setCaches m
  · next m _ _ =>
    refine Inv.scheduleEncoder (Inv.admitRequest (hp.setCaches m) hr hc ?_) ..
    exact fun he => (Int.add_le_add_right (hle he) computed).trans hn

/-- One iteration of the waiting loop keeps the invariant. -/
lemma Inv.considerWaiting (ready : ReqId → Bool) (loras : List Int)
    (h : p.Inv ops cfg s₀ (rid :: q)) (hr : p.sched.requests.get? rid = some r) :
    (p.considerWaiting ops cfg ready loras rid r).Ok ops cfg s₀ rid q := by
  have hnr : r.status ≠ .running := by
    intro hs
    have hm := (h.wf.status rid r hr).1 hs
    exact List.disjoint_of_nodup_append h.wf.nodup hm List.mem_cons_self
  unfold Pass.considerWaiting
  split
  · exact h
  dsimp only
  have hset : ({ p with sched := { p.sched with
      requests := p.sched.requests.set rid r.leaveFsm } } : Pass μ β).Inv ops cfg s₀ (rid :: q) := by
    rw [Request.leaveFsm]
    split
    · exact h.set hr ⟨⟨rfl, rfl, rfl, rfl, rfl, rfl, rfl, rfl⟩, .inl rfl⟩ rfl (by simp [hnr]) rfl
    · exact h.set hr (.refl r) (h.wf.unfinished rid r hr) Iff.rfl rfl
  generalize r.leaveFsm = r1 at hset ⊢
  have hr1 : (p.sched.requests.set rid r1).get? rid = some r1 := by simp
  split
  · exact hset
  -- the prefix cache is looked up for a request without computed tokens only
  by_cases h0 : r1.numComputedTokens = 0
  · simp only [h0, if_true]
    split
    · exact hset
    · have hcap := capPrefill_le cfg (r1.numTokens - (ops.getComputedBlocks p.sched.caches r1).2)
      refine hset.tryAdmit hr1 ?_
      rw [if_pos h0]
      omega
  · simp only [h0, if_false]
    split
    · exact hset
    · have hcap := capPrefill_le cfg (r1.numTokens - r1.numComputedTokens)
      refine hset.tryAdmit hr1 ?_
      rw [if_neg h0]
      omega

/-- The loop over the waiting requests keeps the invariant. -/
lemma Inv.waitingLoop (ready : ReqId → Bool) (queue skipped : List ReqId) (loras : List Int)
    (h : p.Inv ops cfg s₀ (queue ++ skipped)) :
    (p.waitingLoop ops cfg ready queue skipped loras).1.Inv ops cfg s₀
      ((p.waitingLoop ops cfg ready queue skipped loras).2.1 ++
        (p.waitingLoop ops cfg ready queue skipped loras).2.2) := by
  induction queue generalizing p skipped loras with
  | nil => exact h
  | cons rid rest ih =>
    rw [Pass.waitingLoop]
    split
    · exact h
    split
    · exact h
    next r hr =>
    have hv := Inv.considerWaiting ready loras h hr
    split
    · next p1 e => rw [e] at hv; exact hv
    · next p1 e =>
      rw [e] at hv
      refine ih _ _ (hv.perm ?_)
      refine .trans List.perm_middle.symm (List.Perm.append_left rest ?_)
      exact (Scheduler.queuePrepend_perm ..).symm
    · next p1 e => rw [e] at hv; exact ih _ _ hv

/-- What was scheduled runs, and stands before position `idx` of the running queue. -/
def Before (idx : Nat) (p : Pass μ β) : Prop :=
  ∀ x ∈ p.numScheduledTokens, x ∈ p.sched.running.take idx

/-- What was scheduled runs. -/
def ScheduledRun (p : Pass μ β) : Prop := ∀ x ∈ p.numScheduledTokens, x ∈ p.sched.running

lemma Before.scheduledRun {idx : Nat} (h : p.Before idx) : p.ScheduledRun :=
  fun x hx => List.mem_of_mem_take (h x hx)

lemma Before.congr {idx : Nat} (h : p.Before idx) (hn : p'.numScheduledTokens = p.numScheduledTokens)
    (hr : p'.sched.running = p.sched.running) : p'.Before idx := by
  rw [Before, hn, hr]
  exact h

/-- The victim of GAMBIT is the last running request. -/
lemma makeRoom_gambit (ops : Caches μ β) (hg : cfg.policy = .gambit) (p : Pass μ β) (idx : Nat) :
    (p.makeRoom ops cfg idx).1 = p.sched.running.getLast? ∧
      (p.makeRoom ops cfg idx).2.1.numScheduledTokens = p.numScheduledTokens ∧
      (p.makeRoom ops cfg idx).2.1.sched.running = p.sched.running.dropLast ∧
      (p.makeRoom ops cfg idx).2.2 = idx := by
  unfold Pass.makeRoom
  rw [hg]
  dsimp only [Scheduler.stopLowestRunning]
  cases hl : p.sched.running.getLast? with
  | none => simp [List.getLast?_eq_none_iff.1 hl]
  | some rid =>
    dsimp only
    split <;> exact ⟨rfl, rfl, rfl, rfl⟩

/-- The inner loop evicts requests behind the one at hand. -/
lemma Before.allocateOrEvict {idx : Nat} (ops : Caches μ β) (hg : cfg.policy = .gambit)
    (rid : ReqId) (numNew : Int) (fuel : Nat) (h : p.Before idx) (hr : p.sched.running[idx]? = some rid) :
    (p.allocateOrEvict ops cfg rid numNew fuel idx).1.Before idx ∧
      ((p.allocateOrEvict ops cfg rid numNew fuel idx).2.2.isSome →
        (p.allocateOrEvict ops cfg rid numNew fuel idx).2.1 = idx ∧
        (p.allocateOrEvict ops cfg rid numNew fuel idx).1.sched.running[idx]? = some rid) := by
  induction fuel generalizing p with
  | zero => exact ⟨h, by simp [Pass.allocateOrEvict]⟩
  | succ fuel ih =>
    rw [Pass.allocateOrEvict]
    cases hreq : p.sched.requests.get? rid with
    | none => exact ⟨h, by simp⟩
    | some r =>
      dsimp only
      split
      · next m blocks _ => exact ⟨h.congr rfl rfl, fun _ => ⟨rfl, hr⟩⟩
      · next m _ =>
        obtain ⟨hv, hn, hrun, hidx⟩ := makeRoom_gambit ops hg (p.setCaches m) idx
        have hlt : idx < p.sched.running.length := (List.getElem?_eq_some_iff.1 hr).1
        have hroom : ((p.setCaches m).makeRoom ops cfg idx).2.1.Before idx := by
          rw [Before, hn, hrun]
          intro x hx
          rw [List.dropLast_eq_take, List.take_take, min_eq_left]
          · exact h x hx
          · exact Nat.le_sub_one_of_lt hlt
        split
        · next q idx' e =>
          rw [e] at hroom
          exact ⟨hroom, by simp⟩
        · next victim q idx' e =>
          rw [e] at hroom hv hrun hidx
          dsimp only at hroom hv hrun hidx
          subst hidx
          split
          · exact ⟨hroom, by simp⟩
          · next hne =>
            refine ih hroom ?_
            -- the victim is another one, so the request at hand is not the last
            rw [hrun, List.getElem?_dropLast]
            split
            · exact hr
            · next hge =>
              exfalso
              have hlast : idx' = p.sched.running.length - 1 := by
                have : (p.setCaches m).sched.running.length = p.sched.running.length := rfl
                omega
              have hget : p.sched.running.getLast? = some rid := by
                rw [List.getLast?_eq_getElem?, ← hlast, hr]
              rw [show (p.setCaches m).sched.running = p.sched.running from rfl, hget] at hv
              exact hne (Option.some.inj hv)

@[simp] lemma scheduleEncoder_running (p : Pass μ β) (r : Request) (inputs : List Nat) (b : Int) :
    (p.scheduleEncoder ops r inputs b).sched.running = p.sched.running ∧
      (p.scheduleEncoder ops r inputs b).numScheduledTokens = p.numScheduledTokens := by
  unfold Pass.scheduleEncoder
  split <;> exact ⟨rfl, rfl⟩

@[simp] lemma scheduleSpec_running (p : Pass μ β) (rid : ReqId) (r : Request) (n : Int) :
    (p.scheduleSpec rid r n).sched.running = p.sched.running ∧
      (p.scheduleSpec rid r n).numScheduledTokens = p.numScheduledTokens := by
  unfold Pass.scheduleSpec
  dsimp only
  split
  · exact ⟨rfl, rfl⟩
  · split <;> exact ⟨rfl, rfl⟩

lemma tryEncoder_running (ops : Caches μ β) (p : Pass μ β) (r : Request) (computed numNew : Int) :
    (p.tryEncoder ops r computed numNew).1.sched.running = p.sched.running ∧
      (p.tryEncoder ops r computed numNew).1.numScheduledTokens = p.numScheduledTokens := by
  unfold Pass.tryEncoder
  split <;> exact ⟨rfl, rfl⟩

/-- Under GAMBIT the loop over the running requests evicts nothing it scheduled. -/
lemma Before.runningLoop (ops : Caches μ β) (hg : cfg.policy = .gambit) (fuel idx : Nat) (h : p.Before idx) :
    (p.runningLoop ops cfg fuel idx).ScheduledRun := by
  induction fuel generalizing p idx with
  | zero => exact h.scheduledRun
  | succ fuel ih =>
    rw [Pass.runningLoop]
    split
    · exact h.scheduledRun
    next rid hrid =>
    split
    · exact h.scheduledRun
    split
    · exact h.scheduledRun
    next r hr =>
    obtain ⟨hrun, hn⟩ := tryEncoder_running ops p r r.numComputedTokens
      (numNewRunning cfg r p.tokenBudget)
    split
    next p1 inputs numNew budget heq =>
    rw [heq] at hrun hn
    have h1 : p1.Before idx := h.congr hn hrun
    have hmono : ∀ {q : Pass μ β}, q.Before idx → q.Before (idx + 1) :=
      fun hq x hx => (List.take_sublist_take_left (Nat.le_succ idx)).subset (hq x hx)
    split
    · exact ih _ (hmono h1)
    have hrid1 : p1.sched.running[idx]? = some rid := by rw [hrun]; exact hrid
    obtain ⟨ha, hsome⟩ := h1.allocateOrEvict ops hg rid numNew p1.sched.running.length hrid1
    split
    · next p2 _ e => rw [e] at ha; exact ha.scheduledRun
    · next p2 idx' blocks e =>
      rw [e] at ha hsome
      obtain ⟨rfl, hrid2⟩ := hsome rfl
      refine ih _ ?_
      intro x hx
      rw [(scheduleEncoder_running ..).2, (scheduleSpec_running ..).2] at hx
      rw [(scheduleEncoder_running ..).1, (scheduleSpec_running ..).1]
      rcases Dict.mem_set.1 hx with rfl | hx
      · have hget : (p2.sched.running.take (idx' + 1))[idx']? = some x := by
          rw [List.getElem?_take_of_lt (Nat.lt_succ_self _)]
          exact hrid2
        exact List.mem_of_getElem? hget
      · exact hmono ha x hx

/-- What one iteration of the waiting loop leaves of the running queue. -/
def Verdict.pass : Verdict μ β → Pass μ β
  | .stop p | .skip p | .admitted p => p

/-- What other caches, a compiled grammar and an admission keep is kept by an iteration of the waiting
loop. -/
lemma considerWaiting_induct {P : Pass μ β → Prop} (ops : Caches μ β) (cfg : VllmConfig)
    (ready : ReqId → Bool) (caches : ∀ p m, P p → P (p.setCaches m))
    (leave : ∀ p rid r, P p →
      P { p with sched := { p.sched with requests := p.sched.requests.set rid r } })
    (admitted : ∀ p rid r computed n inputs budget, P p →
      P ((p.admitRequest ops rid r computed n).scheduleEncoder ops r inputs budget))
    (loras : List Int) (rid : ReqId) (r : Request) (h : P p) :
    P (p.considerWaiting ops cfg ready loras rid r).pass := by
  have htail : ∀ (p : Pass μ β) (r : Request) (blocks : Option β) (cached : Nat) (numNew : Int),
      P p → P (p.tryAdmit ops cfg rid r blocks cached numNew).pass := by
    intro p r blocks cached numNew h
    unfold Pass.tryAdmit
    dsimp only
    generalize (if r.numComputedTokens = 0 then (cached : Int) else r.numComputedTokens) = computed
    have ht : P (p.tryEncoder ops r computed numNew).1 := by
      unfold Pass.tryEncoder
      split
      · exact caches _ _ h
      · exact h
    generalize p.tryEncoder ops r computed numNew = t at ht ⊢
    split
    · exact ht
    split
    · exact caches _ _ ht
    · exact admitted _ _ _ _ _ _ _ (caches _ _ ht)
  unfold Pass.considerWaiting
  split
  · exact h
  have hleave := leave p rid r.leaveFsm h
  dsimp only
  split
  · exact hleave
  split
  all_goals
    dsimp only
    split
    · exact hleave
    · exact htail _ _ _ _ _ hleave

/-- What other caches, a compiled grammar and an admission keep is kept by the waiting loop. -/
lemma waitingLoop_induct {P : Pass μ β → Prop} (ops : Caches μ β) (cfg : VllmConfig)
    (ready : ReqId → Bool) (caches : ∀ p m, P p → P (p.setCaches m))
    (leave : ∀ p rid r, P p →
      P { p with sched := { p.sched with requests := p.sched.requests.set rid r } })
    (admitted : ∀ p rid r computed n inputs budget, P p →
      P ((p.admitRequest ops rid r computed n).scheduleEncoder ops r inputs budget))
    (queue skipped : List ReqId) (loras : List Int) (h : P p) :
    P (p.waitingLoop ops cfg ready queue skipped loras).1 := by
  induction queue generalizing p skipped loras with
  | nil => exact h
  | cons rid rest ih =>
    rw [Pass.waitingLoop]
    split
    · exact h
    split
    · exact h
    next r hr =>
    have hv := considerWaiting_induct ops cfg ready caches leave admitted loras rid r h
    split
    · next p1 e => rw [e] at hv; exact hv
    · next p1 e => rw [e] at hv; exact ih _ _ hv
    · next p1 e => rw [e] at hv; exact ih _ _ hv

/-- An admitted request runs. -/
lemma ScheduledRun.admitted (ops : Caches μ β) (rid : ReqId) (r : Request) (computed n : Int)
    (inputs : List Nat) (budget : Int) (h : p.ScheduledRun) :
    ((p.admitRequest ops rid r computed n).scheduleEncoder ops r inputs budget).ScheduledRun := by
  intro x hx
  rw [(scheduleEncoder_running ..).2] at hx
  rw [(scheduleEncoder_running ..).1]
  rcases Dict.mem_set.1 hx with rfl | hx
  · exact List.mem_append_right _ (List.mem_singleton_self _)
  · exact List.mem_append_left _ (h x hx)

/-- One iteration of the waiting loop takes nothing out of the running queue. -/
lemma ScheduledRun.considerWaiting (ops : Caches μ β) (cfg : VllmConfig) (ready : ReqId → Bool)
    (loras : List Int) (rid : ReqId) (r : Request) (h : p.ScheduledRun) :
    (p.considerWaiting ops cfg ready loras rid r).pass.ScheduledRun :=
  considerWaiting_induct ops cfg ready (fun _ _ h => h) (fun _ _ _ h => h)
    (fun _ rid r computed n inputs budget h => h.admitted ops rid r computed n inputs budget) loras rid r h

/-- The waiting loop takes nothing out of the running queue. -/
lemma ScheduledRun.waitingLoop (ops : Caches μ β) (cfg : VllmConfig) (ready : ReqId → Bool)
    (queue skipped : List ReqId) (loras : List Int) (h : p.ScheduledRun) :
    (p.waitingLoop ops cfg ready queue skipped loras).1.ScheduledRun :=
  waitingLoop_induct ops cfg ready (fun _ _ h => h) (fun _ _ _ h => h)
    (fun _ rid r computed n inputs budget h => h.admitted ops rid r computed n inputs budget)
    queue skipped loras h

/-- The waiting loop takes back nothing that was scheduled. -/
lemma mem_waitingLoop (ops : Caches μ β) (cfg : VllmConfig) (ready : ReqId → Bool)
    (queue skipped : List ReqId) (loras : List Int) {x : ReqId} (h : x ∈ p.numScheduledTokens) :
    x ∈ (p.waitingLoop ops cfg ready queue skipped loras).1.numScheduledTokens := by
  refine waitingLoop_induct (P := fun q => x ∈ q.numScheduledTokens) ops cfg ready (fun _ _ h => h)
    (fun _ _ _ h => h) ?_ queue skipped loras h
  intro p rid r computed n inputs budget h
  rw [(scheduleEncoder_running ..).2]
  exact Dict.mem_set.2 (.inr h)

end Pass

namespace Scheduler
variable {μ β : Type} {ops : Caches μ β} {cfg : VllmConfig} {s : Scheduler μ}

/-- Sorting the running requests keeps the invariant. -/
lemma WF.startPass (h : s.WF) : (s.startPass (β := β) cfg).InvW ops cfg s := by
  have hwf : (s.startPass (β := β) cfg).sched.WF := by
    rw [Scheduler.startPass]
    dsimp only
    split
    · have hp : (s.running.insertionSort s.scoreLE).Perm s.running := List.perm_insertionSort _ _
      refine ⟨((hp.append_right _).nodup_iff).2 h.nodup, fun x => ?_, h.requestId, h.unfinished,
        fun x rx hx => ?_⟩
      · exact (h.mem x).trans (hp.append_right _).mem_iff.symm
      · exact (h.status x rx hx).trans hp.mem_iff.symm
    · exact h
  have hreq : (s.startPass (β := β) cfg).sched.requests = s.requests := by
    rw [Scheduler.startPass]; dsimp only; split <;> rfl
  refine ⟨hwf, ?_, by simp [Scheduler.startPass], ?_, by simp [Scheduler.startPass]⟩
  · refine .congr hreq ?_ ?_ <;> (rw [Scheduler.startPass]; dsimp only; split <;> rfl)
  · intro _ x rx rx' hx hx'
    rw [hreq, hx] at hx'
    cases hx'
    exact le_rfl

/-- The two loops of `schedule` keep the invariant. -/
lemma WF.schedulePass (ready : ReqId → Bool) (h : s.WF) :
    (s.schedulePass ops cfg ready).InvW ops cfg s := by
  have hstart : (s.startPass cfg).InvW ops cfg s := h.startPass
  have hrun := hstart.runningLoop (2 * s.running.length) 0
  unfold Scheduler.schedulePass
  generalize (s.startPass cfg).runningLoop ops cfg (2 * s.running.length) 0 = p at hrun ⊢
  unfold admitWaiting
  split
  · have hw : p.Inv ops cfg s (p.sched.waiting ++ []) := hrun.perm (by simp)
    have hwait := Pass.Inv.waitingLoop ready p.sched.waiting [] (p.scheduledLoras cfg) hw
    dsimp only
    refine Pass.Inv.congr (hwait.perm ?_) rfl rfl rfl rfl rfl
    exact List.perm_append_comm.trans (queuePrependAll_perm ..).symm
  · exact hrun

/-- Under GAMBIT what `schedule` schedules is running at its end. -/
lemma schedulePass_scheduledRun (hg : cfg.policy = .gambit) (ready : ReqId → Bool)
    (s : Scheduler μ) : (s.schedulePass ops cfg ready).ScheduledRun := by
  have hstart : (s.startPass (β := β) cfg).Before 0 := fun x hx => absurd hx Dict.not_mem_empty
  have hrun := hstart.runningLoop ops hg (2 * s.running.length) 0
  unfold Scheduler.schedulePass
  generalize (s.startPass cfg).runningLoop ops cfg (2 * s.running.length) 0 = p at hrun ⊢
  unfold admitWaiting
  split
  · exact hrun.waitingLoop ops cfg ready p.sched.waiting [] (p.scheduledLoras cfg)
  · exact hrun

end Scheduler
end Gambit.Sched
