import Gambit.Sched.StateInvariant

/-!
# Requests shorter than the model

A request that is `Within` the model has room for a further token, by its own limit and by
`max_model_len`, and cannot be forced past the model by `min_tokens`. The clamp
`max_total_tokens - 1 - num_computed_tokens` then leaves it a token, so the loop over the running
requests passes nobody by: whoever stays in `running` is scheduled, unless the token budget is used up
or somebody lost its blocks (`schedule_serves`). What the model samples for such a request ends within
the model (`InBatch.end_le`), and if it goes on it is within the model again (`InBatch.outcome`).
-/

namespace Gambit.Sched
open Gambit.Lib

variable {μ β : Type} {ops : Caches μ β} {cfg : VllmConfig}

/-- Room for a token: by the model, by `max_tokens`, and for what `min_tokens` forces. -/
structure Request.HasRoom (cfg : VllmConfig) (r : Request) : Prop where
  tokens : r.numTokens < cfg.scheduler.maxModelLen
  output : r.numOutputTokens < r.maxTokens
  forced : r.promptTokenIds.length + r.samplingParams.minTokens ≤ cfg.scheduler.maxModelLen

/-- A request between two steps that is shorter than the model. -/
structure Request.Within (cfg : VllmConfig) (r : Request) : Prop where
  sane : r.Sane cfg
  room : r.HasRoom cfg

/-- Room depends on the trace only. -/
lemma Request.HasRoom.congr {r r' : Request} (h : r.HasRoom cfg) (ht : r.SameTrace r') : r'.HasRoom cfg := by
  refine ⟨?_, ?_, ?_⟩
  · rw [ht.numTokens]
    exact h.tokens
  · rw [Request.numOutputTokens, Request.maxTokens, ht.outputTokenIds, ht.samplingParams]
    exact h.output
  · rw [ht.promptTokenIds, ht.samplingParams]
    exact h.forced

namespace Pass
variable {p q p' : Pass μ β} {idx : Nat} {rid : ReqId} {r : Request}

/-- The clamp leaves a token to a request within the model. -/
lemma numNewRunning_pos (h : r.Within cfg) {budget : Int} (hb : 1 ≤ budget) :
    1 ≤ numNewRunning cfg r budget := by
  have hbehind := h.sane.behind
  have htok := h.room.tokens
  have hout := h.room.output
  have hlen := r.numTokens_eq
  have hspec : r.numTokensWithSpec = r.numTokens + r.specTokenIds.length := rfl
  have hpos : 1 ≤ capPrefill cfg (r.numTokensWithSpec - r.numComputedTokens) :=
    capPrefill_pos cfg (by omega)
  rw [Request.numOutputTokens] at hout
  unfold numNewRunning
  dsimp only
  generalize capPrefill cfg (r.numTokensWithSpec - r.numComputedTokens) = n at hpos ⊢
  omega

/-- Somebody lost its place between two points of a pass: it is gone, or was preempted. -/
def Lost (p q : Pass μ β) : Prop :=
  ∃ x ∈ p.sched.running, x ∉ q.sched.running ∧ (x ∉ q.sched.requests ∨ q.preemptedReqs ≠ [])

/-- Nobody comes into the running queue or the store, and a preemption is remembered. -/
structure Narrows (p q : Pass μ β) : Prop where
  running : ∀ x ∈ q.sched.running, x ∈ p.sched.running
  requests : ∀ x ∈ q.sched.requests, x ∈ p.sched.requests
  preempted : p.preemptedReqs ≠ [] → q.preemptedReqs ≠ []

lemma Narrows.refl (p : Pass μ β) : p.Narrows p := ⟨fun _ => id, fun _ => id, id⟩

lemma Narrows.trans (h : p.Narrows q) (h' : q.Narrows p') : p.Narrows p' :=
  ⟨fun x hx => h.running x (h'.running x hx), fun x hx => h.requests x (h'.requests x hx),
    fun hp => h'.preempted (h.preempted hp)⟩

/-- Who lost its place does not get it back. -/
lemma Lost.narrows (h : p.Lost q) (h' : q.Narrows p') : p.Lost p' := by
  obtain ⟨x, hx, hn, hgone⟩ := h
  refine ⟨x, hx, fun hm => hn (h'.running x hm), ?_⟩
  exact hgone.imp (fun hg hm => hg (h'.requests x hm)) h'.preempted

/-- A loss later in a pass is a loss. -/
lemma Narrows.lost (h : p.Narrows q) (h' : q.Lost p') : p.Lost p' := by
  obtain ⟨x, hx, hn, hgone⟩ := h'
  exact ⟨x, h.running x hx, hn, hgone⟩

/-- Making room takes somebody's place. -/
lemma At.makeRoom_lost (h : At idx p) (hne : p.sched.running ≠ []) :
    p.Lost (p.makeRoom ops cfg idx).2.1 := by
  obtain ⟨last, hl⟩ := Option.ne_none_iff_exists'.1 (mt List.getLast?_eq_none_iff.1 hne)
  have hlast : last ∉ p.sched.running.dropLast := by
    intro hm
    have hnd := h.nodup
    rw [← List.dropLast_append_getLast? last hl] at hnd
    exact List.disjoint_of_nodup_append hnd hm (List.mem_singleton_self last)
  have hmem := List.mem_of_getLast? hl
  unfold Pass.makeRoom
  cases cfg.policy with
  | gambit =>
    obtain ⟨r, hr⟩ := Dict.mem_iff_get?.1 (h.live last hmem)
    dsimp only [Scheduler.stopLowestRunning]
    rw [hl]
    dsimp only
    rw [hr]
    dsimp only [Scheduler.freeRequest]
    rw [h.ids last r hr]
    exact ⟨last, hmem, hlast, .inl fun hm => (Dict.mem_erase.1 hm).1 rfl⟩
  | priority =>
    obtain ⟨victim, hv⟩ := exists_lowestPriority hne
    dsimp only
    rw [hv]
    dsimp only
    have hgone : victim ∉ p.sched.running.erase victim := h.nodup.not_mem_erase
    split
    · refine ⟨victim, lowestPriority_mem hv, ?_, .inr (by simp [Pass.preempt])⟩
      rw [(preempt_frame _ _ _ _).1]
      exact hgone
    · refine ⟨victim, lowestPriority_mem hv, ?_, .inr (by simp [Pass.preempt])⟩
      rw [(preempt_frame _ _ _ _).1]
      exact hgone
  | fcfs =>
    dsimp only
    rw [hl]
    refine ⟨last, hmem, ?_, .inr (by simp [Pass.preempt])⟩
    rw [(preempt_frame _ _ _ _).1]
    exact hlast

/-- A preemption forgets nobody. -/
lemma mem_preempt {victim x : ReqId} (hx : x ∈ (p.preempt ops cfg victim).sched.requests) :
    x ∈ p.sched.requests := by
  obtain ⟨r, hr⟩ := Dict.mem_iff_get?.1 hx
  rw [(preempt_frame ops cfg p victim).2.2.2] at hr
  split at hr
  · obtain ⟨r0, hr0, -⟩ := Option.map_eq_some_iff.1 hr
    exact Dict.mem_of_get? hr0
  · exact Dict.mem_of_get? hr

/-- A round of the inner loop narrows the pass. -/
lemma Room.narrows (h : Room ops cfg p q) : p.Narrows q := by
  cases h with
  | refuse => exact ⟨fun _ => id, fun _ => id, id⟩
  | @evict victim r _ hl hr hid _ =>
    have hs : (p.sched.stopLowestRunning ops).2.running = p.sched.running.dropLast ∧
        (p.sched.stopLowestRunning ops).2.requests = p.sched.requests.erase victim := by
      unfold Scheduler.stopLowestRunning
      rw [hl]
      dsimp only
      rw [hr]
      dsimp only [Scheduler.freeRequest]
      rw [hid]
      exact ⟨rfl, rfl⟩
    refine ⟨fun x hx => ?_, fun x hx => ?_, id⟩
    · rw [hs.1] at hx
      exact List.mem_of_mem_dropLast hx
    · rw [hs.2] at hx
      exact (Dict.mem_erase.1 hx).2
  | @preempt q victim run r _ hperm _ _ hq =>
    refine ⟨fun x hx => ?_, fun x hx => ?_, fun _ => by simp [Pass.preempt]⟩
    · rw [(preempt_frame _ _ _ _).1] at hx
      exact hperm.mem_iff.2 (.tail _ hx)
    · have hx' : x ∈ ({ q with sched := { q.sched with running := run } } : Pass μ β).sched.requests :=
        mem_preempt hx
      rcases hq with ⟨rfl, -⟩ | ⟨rfl, -⟩
      · exact hx'
      · exact hx'

/-- The inner loop narrows the pass. -/
lemma Narrows.of_rooms (h : Relation.ReflTransGen (Room ops cfg) p q) : p.Narrows q := by
  induction h with
  | refl => exact .refl p
  | tail _ hroom ih => exact ih.trans hroom.narrows

/-- Giving tokens to a running request narrows the pass. -/
lemma narrows_runRequest (ops : Caches μ β) (p : Pass μ β) (m : μ) (rid : ReqId) (r : Request)
    (numNew : Int) (blocks : β) (inputs : List Nat) (budget : Int) :
    p.Narrows (p.runRequest ops m rid r numNew blocks inputs budget) := by
  obtain ⟨hrun, -, -, -, hreq⟩ := runRequest_frame ops p m rid r numNew blocks inputs budget
  refine ⟨fun x hx => hrun ▸ hx, fun x hx => ?_, fun hp => ?_⟩
  · obtain ⟨rx, hrx⟩ := Dict.mem_iff_get?.1 hx
    rw [hreq] at hrx
    split at hrx
    · obtain ⟨r0, hr0, -⟩ := Option.map_eq_some_iff.1 hrx
      exact Dict.mem_of_get? hr0
    · exact Dict.mem_of_get? hrx
  · have he : (p.runRequest ops m rid r numNew blocks inputs budget).preemptedReqs = p.preemptedReqs := by
      unfold Pass.runRequest Pass.scheduleEncoder Pass.scheduleSpec
      dsimp only
      split_ifs <;> rfl
    rw [he]
    exact hp

/-- The inner loop gets its blocks at once, or takes somebody's place. -/
lemma At.allocateOrEvict_lost (ops : Caches μ β) (h : At idx p) (hc : Current cfg idx rid p)
    (hr : p.sched.requests.get? rid = some r) (numNew : Int) {fuel : Nat} (hf : fuel ≠ 0) :
    (∃ m blocks, p.allocateOrEvict ops cfg rid numNew fuel idx = (p.setCaches m, idx, some blocks)) ∨
      p.Lost (p.allocateOrEvict ops cfg rid numNew fuel idx).1 := by
  obtain ⟨fuel, rfl⟩ := Nat.exists_eq_succ_of_ne_zero hf
  have hne : p.sched.running ≠ [] := List.ne_nil_of_mem (List.mem_of_mem_take hc.mem)
  rw [Pass.allocateOrEvict, hr]
  dsimp only
  split
  · next m blocks _ => exact .inl ⟨m, blocks, rfl⟩
  next m _ =>
  right
  have hlost : (p.setCaches m).Lost ((p.setCaches m).makeRoom ops cfg idx).2.1 :=
    (h.setCaches m).makeRoom_lost hne
  have hroom : Roomed ops cfg rid (p.setCaches m) ((p.setCaches m).makeRoom ops cfg idx) :=
    (h.setCaches m).makeRoom ⟨hc.here, hc.mem, hc.fresh⟩
  obtain ⟨victim, hv⟩ := hroom.victim
  generalize (p.setCaches m).makeRoom ops cfg idx = res at hlost hroom hv ⊢
  obtain ⟨v, q, idx'⟩ := res
  dsimp only at hv hroom hlost ⊢
  subst hv
  dsimp only
  have hpq : p.Lost q := hlost
  split
  · exact hpq
  next hvr =>
  have hne' : some victim ≠ some rid := fun he => hvr (Option.some.inj he)
  have hrq : q.sched.requests.get? rid = some r := (hroom.request hne').trans hr
  rcases hroom.atPos.allocateOrEvict numNew fuel (hroom.current hne') hrq with
    ⟨q', i', he, hst, -⟩ | ⟨q', i', m', blocks, he, hst, -⟩
  · rw [he]
    exact hpq.narrows (.of_rooms hst)
  · rw [he]
    exact hpq.narrows ((Narrows.of_rooms hst).trans ⟨fun _ => id, fun _ => id, id⟩)

/-- A running request is scheduled, or has encoder inputs to wait for. -/
def Served (enc : ReqId → Prop) (p : Pass μ β) (x : ReqId) : Prop := x ∈ p.numScheduledTokens ∨ enc x

/-- The stored requests are within the model, and those without encoder inputs are known. -/
def AllWithin (cfg : VllmConfig) (enc : ReqId → Prop) (p : Pass μ β) : Prop :=
  ∀ x r, p.sched.requests.get? x = some r → r.Within cfg ∧ (r.hasEncoderInputs = true → enc x)

/-- When those in front of `idx` are served, `fuel` more rounds that end in `q` serve everybody, unless somebody
loses its place or the budget is used up. -/
def Serves (cfg : VllmConfig) (enc : ReqId → Prop) (p : Pass μ β) (idx fuel : Nat) (q : Pass μ β) : Prop :=
  AllWithin cfg enc p → p.sched.running.length ≤ idx + fuel → (∀ x ∈ p.sched.running.take idx, p.Served enc x) →
    p.Lost q ∨ q.tokenBudget ≤ 0 ∨ ∀ x ∈ p.sched.running, q.Served enc x

/-- The requests in front of the next position. -/
lemma mem_take_of_succ {l : List ReqId} {x : ReqId} (hrid : l[idx]? = some rid) (hx : x ∈ l.take (idx + 1)) :
    x ∈ l.take idx ∨ x = rid := by
  rw [List.take_add_one, hrid, List.mem_append] at hx
  exact hx.imp_right fun hx => by simpa using hx

/-- At the end of the queue everybody is served. -/
lemma serves_end {enc : ReqId → Prop} {fuel : Nat} (hlen : p.sched.running.length ≤ idx) :
    Serves cfg enc p idx fuel p := by
  refine fun _ _ hserved => .inr (.inr fun x hx => hserved x ?_)
  rwa [List.take_of_length_le hlen]

/-- A request is passed over because of its encoder inputs only. -/
lemma Serves.skip {enc : ReqId → Prop} {fuel : Nat} {m : μ}
    (hs : Serves cfg enc (p.setCaches m) (idx + 1) fuel q) (hrid : p.sched.running[idx]? = some rid)
    (hr : p.sched.requests.get? rid = some r) (hb : ¬ p.tokenBudget ≤ 0)
    (hleaves : EncoderLeaves ops r r.numComputedTokens (numNewRunning cfg r p.tokenBudget) 0) :
    Serves cfg enc p idx (fuel + 1) q := by
  intro hall hlen hserved
  refine hs hall ?_ fun x hx => ?_
  · rw [Nat.add_right_comm]
    exact hlen
  rcases mem_take_of_succ hrid hx with hx | rfl
  · exact hserved x hx
  · -- only the encoder look-up can leave a request within the model without a token
    obtain ⟨hw, he⟩ := hall x r hr
    by_cases henc : r.hasEncoderInputs = true
    · exact .inr (he henc)
    · rw [EncoderLeaves, if_neg henc] at hleaves
      have : 0 < numNewRunning cfg r p.tokenBudget := numNewRunning_pos hw (by omega)
      omega

/-- A request whose first allocation succeeds is served, and nothing else changes. -/
lemma Serves.run {enc : ReqId → Prop} {fuel : Nat} {m m' : μ} {numNew : Int} {blocks : β} {inputs : List Nat}
    {budget : Int} {q' : Pass μ β}
    (hs : Serves cfg enc (q.runRequest ops m' rid r numNew blocks inputs budget) (idx + 1) fuel q')
    (hq : q.setCaches m' = p.setCaches m) (hrid : p.sched.running[idx]? = some rid) :
    Serves cfg enc p idx (fuel + 1) q' := by
  intro hall hlen hserved
  have hqrun : q.sched.running = p.sched.running := congrArg (fun p => p.sched.running) hq
  have hqreq : q.sched.requests = p.sched.requests := congrArg (fun p => p.sched.requests) hq
  have hqnum : q.numScheduledTokens = p.numScheduledTokens := congrArg (fun p => p.numScheduledTokens) hq
  obtain ⟨f1, f2, -, -, f5⟩ := runRequest_frame ops q m' rid r numNew blocks inputs budget
  have hend := hs (fun x rx hx => ?_) ?_ fun x hx => ?_
  · rcases hend with ⟨x, hx, hlost⟩ | hend
    · rw [f1, hqrun] at hx
      exact .inl ⟨x, hx, hlost⟩
    · rw [f1, hqrun] at hend
      exact .inr hend
  · rw [f5, hqreq] at hx
    split at hx
    · obtain ⟨r0, hr0, rfl⟩ := Option.map_eq_some_iff.1 hx
      obtain ⟨hw, he⟩ := hall x r0 hr0
      exact ⟨⟨hw.sane.congr ⟨rfl, rfl, rfl, rfl, rfl, rfl, rfl, rfl⟩ rfl rfl,
        hw.room.congr ⟨rfl, rfl, rfl, rfl, rfl, rfl, rfl, rfl⟩⟩, he⟩
    · exact hall x rx hx
  · rw [f1, hqrun, Nat.add_right_comm]
    exact hlen
  · rw [f1, hqrun] at hx
    rw [Served, f2, hqnum, Dict.mem_set]
    rcases mem_take_of_succ hrid hx with hx | hx
    · exact (hserved x hx).imp_left .inr
    · exact .inl (.inl hx)

/-- The loop over the running requests narrows the pass, and serves everybody, unless somebody loses
its place or the budget is used up. -/
lemma runningLoop_serves (enc : ReqId → Prop) (ops : Caches μ β) (fuel : Nat) (h : At idx p) :
    p.Narrows (p.runningLoop ops cfg fuel idx) ∧ Serves cfg enc p idx fuel (p.runningLoop ops cfg fuel idx) := by
  induction fuel generalizing p idx with
  | zero => exact ⟨.refl p, fun hall hlen hserved => serves_end (by omega) hall hlen hserved⟩
  | succ fuel ih =>
    rw [Pass.runningLoop]
    split
    · next hnone => exact ⟨.refl p, serves_end (List.getElem?_eq_none_iff.1 hnone)⟩
    next rid hrid =>
    split
    · next hb => exact ⟨.refl p, fun _ _ _ => .inr (.inl hb)⟩
    next hb =>
    split
    · next hr =>
      exact absurd (h.live rid (List.mem_of_getElem? hrid)) (Dict.get?_eq_none.1 hr)
    next r hr =>
    obtain ⟨m, inputs, numNew, budget, heq, -, hleaves⟩ := tryEncoder_spec ops cfg p hr
      r.numComputedTokens (numNewRunning cfg r p.tokenBudget)
    rw [heq]
    dsimp only
    have h1 := h.setCaches m
    have hm : p.Narrows (p.setCaches m) := ⟨fun _ => id, fun _ => id, id⟩
    split
    · next hzero =>
      obtain ⟨hn, hs⟩ := ih h1.succ
      exact ⟨hm.trans hn, hs.skip hrid hr hb (hzero ▸ hleaves)⟩
    next hne =>
    have hcur : Current cfg idx rid (p.setCaches m) := h1.current hrid
    have hr1 : (p.setCaches m).sched.requests.get? rid = some r := hr
    have hf : (p.setCaches m).sched.running.length ≠ 0 := by
      intro h0
      rw [List.length_eq_zero_iff] at h0
      have hrid' : (p.setCaches m).sched.running[idx]? = some rid := hrid
      rw [h0] at hrid'
      cases hrid'
    have hlost := h1.allocateOrEvict_lost ops hcur hr1 numNew hf
    rcases h1.allocateOrEvict numNew (p.setCaches m).sched.running.length hcur hr1 with
      ⟨q, idx', he, hroom, -⟩ | ⟨q, idx', m', blocks, he, hroom, hat, hc', hrq, -⟩
    · rw [he] at hlost ⊢
      refine ⟨hm.trans (.of_rooms hroom), fun _ _ _ => .inl (hm.lost ?_)⟩
      rcases hlost with ⟨m2, b2, h2⟩ | hlost
      · cases h2
      · exact hlost
    · rw [he] at hlost ⊢
      dsimp only
      have hrun := narrows_runRequest ops q m' rid r numNew blocks inputs budget
      have hat' : At (idx' + 1) (q.runRequest ops m' rid r numNew blocks inputs budget) :=
        hat.runRequest hc' hc'.fresh
      obtain ⟨hn, hs⟩ := ih hat'
      have hrest : q.Narrows (Pass.runningLoop ops cfg fuel (idx' + 1)
          (q.runRequest ops m' rid r numNew blocks inputs budget)) := hrun.trans hn
      refine ⟨(hm.trans (.of_rooms hroom)).trans hrest, ?_⟩
      rcases hlost with ⟨m2, b2, h2⟩ | hlost
      · -- the first allocation succeeded: nothing but the request at hand changed
        obtain ⟨hq, hidx⟩ : q.setCaches m' = (p.setCaches m).setCaches m2 ∧ idx' = idx := by
          rw [Prod.mk.injEq, Prod.mk.injEq] at h2
          exact ⟨h2.1, h2.2.1⟩
        subst hidx
        exact hs.run (m := m2) hq hrid
      · have hlost' : p.Lost q := hm.lost hlost
        exact fun _ _ _ => .inl (hlost'.narrows hrest)

/-- Nobody comes into the store during a pass. -/
lemma Step.mem_requests {x : ReqId} (h : Step ops cfg p q) (hx : x ∈ q.sched.requests) :
    x ∈ p.sched.requests := by
  cases h with
  | encoder | refuse => exact hx
  | room hroom => exact hroom.narrows.requests x hx
  | run _ _ _ hrooms => exact (Narrows.of_rooms hrooms).requests x ((narrows_runRequest ..).requests x hx)
  | ready hr =>
    rcases Dict.mem_set.1 hx with rfl | hx
    · exact Dict.mem_of_get? hr
    · exact hx
  | @admitted m₀ m rid r _ _ _ _ _ _ _ _ _ hr =>
    unfold Pass.scheduleEncoder at hx
    have hx' : x = rid ∨ x ∈ p.sched.requests := by
      split at hx
      · exact Dict.mem_set.1 hx
      · exact Dict.mem_set.1 hx
    rcases hx' with rfl | hx'
    · exact Dict.mem_of_get? hr
    · exact hx'

end Pass

namespace Scheduler
variable {s : Scheduler μ}

/-- Without budget nothing is admitted. -/
lemma waitingLoop_of_budget {p : Pass μ β} (ops : Caches μ β) (cfg : VllmConfig) (ready : ReqId → Bool)
    (queue skipped : List ReqId) (loras : List Int) (hb : p.tokenBudget ≤ 0) :
    (p.waitingLoop ops cfg ready queue skipped loras).1 = p := by
  cases queue with
  | nil => rfl
  | cons rid rest => rw [Pass.waitingLoop, if_pos (.inl hb)]

/-- When every stored request is within the model, a pass gives a token to each running request without
encoder inputs, unless somebody loses its place for want of blocks or the token budget is used up. -/
theorem WF.schedule_serves {blocks entries : μ → ReqId → Prop} (laws : ops.Laws blocks entries)
    (ready : ReqId → Bool) (h : s.WF) (hmax : 0 ≤ cfg.scheduler.maxNumBatchedTokens)
    (hlen : s.running.length ≤ cfg.scheduler.maxNumSeqs)
    (hw : ∀ x r, s.requests.get? x = some r → r.Within cfg) :
    (∃ x ∈ s.running, x ∉ (s.schedule ops cfg ready).1.running) ∨
      (s.schedule ops cfg ready).2.numScheduledTokens.values.sum = cfg.scheduler.maxNumBatchedTokens ∨
      ∀ x r, x ∈ s.running → s.requests.get? x = some r → r.hasEncoderInputs = false →
        x ∈ (s.schedule ops cfg ready).2.numScheduledTokens := by
  have hstart : (s.startPass (β := β) cfg).InvW ops cfg s := h.startPass
  have hreq : (s.startPass (β := β) cfg).sched.requests = s.requests := by
    unfold Scheduler.startPass
    dsimp only
    split <;> rfl
  have hrun : (s.startPass (β := β) cfg).sched.running.Perm s.running := by
    unfold Scheduler.startPass
    dsimp only
    split
    · exact List.perm_insertionSort s.scoreLE s.running
    · exact .refl _
  have hzero : Pass.At 0 (s.startPass (β := β) cfg) := h.at_zero ops
  obtain ⟨hsteps, idx, hat⟩ := Pass.runningLoop_steps ops cfg (2 * s.running.length) hzero
  have hserve := (Pass.runningLoop_serves
    (fun x => ∃ r, s.requests.get? x = some r ∧ r.hasEncoderInputs = true) ops
    (2 * s.running.length) hzero).2
    (fun x r hx => by
      rw [hreq] at hx
      exact ⟨hw x r hx, fun he => ⟨r, hx, he⟩⟩)
    (by rw [hrun.length_eq]; omega)
    (fun x hx => by cases hx)
  have hgr := hsteps.keep (P := Pass.Grants cfg fun _ => False) (fun hs hq => hs.grants laws hq)
    (startPass_grants hmax hlen (fun x r hx => (hw x r hx).sane) fun _ _ hf => hf.elim)
  have hinv : ((s.startPass (β := β) cfg).runningLoop ops cfg (2 * s.running.length) 0).InvW ops cfg s :=
    hstart.runningLoop (2 * s.running.length) 0
  have hpass : (s.schedulePass ops cfg ready).InvW ops cfg s := h.schedulePass ready
  have hsched : (s.schedule ops cfg ready).1.running = (s.schedulePass ops cfg ready).sched.running :=
    foldl_advance_running ops (s.schedulePass ops cfg ready).numScheduledTokens.entries
      (s.schedulePass ops cfg ready).sched
  have hnum : (s.schedule ops cfg ready).2.numScheduledTokens =
      (s.schedulePass ops cfg ready).numScheduledTokens := rfl
  rw [hsched, hnum]
  have hmem : ∀ x ∈ (s.schedulePass ops cfg ready).sched.running,
      x ∈ (s.schedulePass ops cfg ready).sched.requests :=
    fun x hx => (hpass.wf.mem x).2 (List.mem_append_left _ hx)
  have hsr := hat.before.scheduledRun
  unfold Scheduler.schedulePass admitWaiting at hmem ⊢
  generalize (s.startPass (β := β) cfg).runningLoop ops cfg (2 * s.running.length) 0 = p
    at hserve hgr hinv hsr hmem ⊢
  have htotal : p.tokenBudget ≤ 0 →
      p.numScheduledTokens.values.sum = cfg.scheduler.maxNumBatchedTokens := by
    intro hb
    have := hgr.total
    have := hgr.budget
    omega
  have hserved : (∀ x ∈ (s.startPass (β := β) cfg).sched.running, p.Served
      (fun x => ∃ r, s.requests.get? x = some r ∧ r.hasEncoderInputs = true) x) →
      ∀ x r, x ∈ s.running → s.requests.get? x = some r → r.hasEncoderInputs = false →
        x ∈ p.numScheduledTokens := by
    intro hall x r hx hr he
    rcases hall x (hrun.mem_iff.2 hx) with hx' | ⟨r', hr', he'⟩
    · exact hx'
    · rw [hr] at hr'
      cases hr'
      rw [he] at he'
      cases he'
  split at hmem
  · next hpre =>
    rw [if_pos hpre]
    dsimp only at hmem ⊢
    have hw : p.Inv ops cfg s (p.sched.waiting ++ []) := hinv.perm (by simp)
    have hst := Pass.waitingLoop_steps ready p.sched.waiting [] (p.scheduledLoras cfg) hw hsr
    rcases hserve with ⟨x, hx, hn, hgone⟩ | hbud | hserve
    · -- whoever was evicted is not in the store, and does not come back
      refine .inl ⟨x, hrun.mem_iff.1 hx, fun hm => ?_⟩
      have hgone' := hgone.resolve_right fun hp => hp (List.isEmpty_iff.1 hpre)
      exact hst.keep (P := fun q => x ∉ q.sched.requests) (fun hs hq hx => hq (hs.mem_requests hx)) hgone'
        (hmem x hm)
    · rw [waitingLoop_of_budget ops cfg ready _ _ _ hbud]
      exact .inr (.inl (htotal hbud))
    · exact .inr (.inr fun x r hx hr he =>
        Pass.mem_waitingLoop ops cfg ready _ _ _ (hserved hserve x r hx hr he))
  · next hpre =>
    rw [if_neg hpre]
    rcases hserve with ⟨x, hx, hn, -⟩ | hbud | hserve
    · exact .inl ⟨x, hrun.mem_iff.1 hx, hn⟩
    · exact .inr (.inl (htotal hbud))
    · exact .inr (.inr (hserved hserve))

/-- A live request while the batch `so` is executed. -/
structure InBatch (cfg : VllmConfig) (so : SchedulerOutput β) (rid : ReqId) (r : Request) : Prop where
  flight : InFlight cfg so False rid r
  room : r.HasRoom cfg

variable {so : SchedulerOutput β} {mo : ModelRunnerOutput} {rid : ReqId} {r r' : Request}

/-- Labels do not matter. -/
lemma InBatch.congr (h : InBatch cfg so rid r) (ht : r.SameTrace r') (hs : r'.status = r.status)
    (hc : r'.numComputedTokens = r.numComputedTokens) : InBatch cfg so rid r' :=
  ⟨h.flight.congr ht hs hc, h.room.congr ht⟩

/-- The tokens sampled for a scheduled request, one more than its drafts at most, end within the
model. -/
lemma InBatch.end_le {n : Nat} (h : InBatch cfg so rid r) (hm : rid ∈ so.numScheduledTokens)
    (hn : n ≤ 1 + (so.scheduledSpecDecodeTokens.getD rid []).length) :
    r.numTokens + n ≤ cfg.scheduler.maxModelLen := by
  obtain ⟨hflight, hroom⟩ := h
  have htok := hroom.tokens
  cases hflight with
  | idle hno => exact absurd hm hno
  | scheduled _ _ hg _ ht _ _ _ =>
    have hdr := hg.drafts
    have hcl := hg.clamped
    rw [ht.numTokens] at htok ⊢
    generalize (so.scheduledSpecDecodeTokens.getD rid []).length = d at hn hdr hcl
    by_cases hd : d = 0
    · omega
    · have := hdr hd
      have := hcl hd
      omega

/-- A request that goes on is within the model again. -/
lemma InBatch.outcome (h : InBatch cfg so rid r) (hid : r.requestId = rid)
    (hm : rid ∈ so.numScheduledTokens) (hans : Answered cfg so mo False rid r)
    (ho : outcome cfg so mo rid r = some r') : r'.Within cfg := by
  obtain ⟨hflight, hroom⟩ := h
  refine ⟨(hflight.outcome hid hm hans False.elim ho).1, ?_⟩
  obtain ⟨rfl, hbound⟩ := outcome_eq_some ho
  obtain ⟨n, hn⟩ := rejectDrafts_eq so r (mo.getD rid [])
  have htok := hroom.tokens
  have hout := hroom.output
  have hforced := hroom.forced
  have hmin : r.samplingParams.minTokens ≤ r.maxTokens ∨
      cfg.scheduler.maxModelLen ≤ r.promptTokenIds.length + r.maxTokens := by
    cases hflight with
    | idle hno => exact absurd hm hno
    | scheduled _ hsane _ _ ht _ _ _ => exact (hsane.fits.congr ht).min_le
  rw [hn]
  have hlen := r.numTokens_eq
  have hnil : mo.getD rid [] ≠ [] ↔ (mo.getD rid []).length ≠ 0 := by
    rw [ne_eq, ne_eq, List.length_eq_zero_iff]
  rw [hnil] at hbound
  rw [Request.numOutputTokens] at hout hbound
  refine ⟨?_, ?_, hforced⟩
  · rw [Request.numTokens_eq]
    dsimp only
    rw [List.length_append]
    omega
  · rw [Request.numOutputTokens, Request.maxTokens]
    dsimp only
    rw [List.length_append]
    rw [Request.maxTokens] at hmin hbound hout
    omega

end Scheduler
end Gambit.Sched
