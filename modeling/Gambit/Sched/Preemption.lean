import Gambit.Sched.Admission

/-!
# Preemption under PRIORITY

The victim of PRIORITY is the largest `(priority, arrival_time)` of the whole running queue, so it can
stand anywhere in it. `schedule` takes back what it scheduled for the victim and moves `req_index` back,
but only when the victim was scheduled in the call, and it goes on with an encoder budget that it computed
before the victim gave its share back.

`Point.Fair` says that neither of the two gaps is met at a point: no victim stands in front of the request
at hand without having been scheduled, and no victim has encoder inputs of this call while the request at
hand has some too; and that the victim ties with no waiting request, where Python would raise. `Point.Exact` is
what the loop keeps then (`FairTurn.sound`, `Point.Sound.exact`).
-/

namespace Gambit.Sched
open Gambit.Lib

/-- `_try_schedule_encoder_inputs` takes the size of every input it schedules off the budget. -/
def Caches.EncoderExact {μ β : Type} (ops : Caches μ β) : Prop :=
  ∀ m r computed n budget, (ops.tryScheduleEncoderInputs m r computed n budget).2.2.2 =
    budget - ((ops.tryScheduleEncoderInputs m r computed n budget).2.1.map fun i =>
      ((r.mmFeatures[i]?).map MmFeature.length).getD 0).sum

/-- The multimodal features of a stored request. -/
def Scheduler.featuresOf {μ : Type} (s : Scheduler μ) (rid : ReqId) : List MmFeature :=
  ((s.requests.get? rid).map Request.mmFeatures).getD []

/-- The encoder tokens of some inputs of a request. -/
def Scheduler.inputTokens {μ : Type} (s : Scheduler μ) (rid : ReqId) (inputs : List Nat) : Nat :=
  (inputs.map fun i => (((s.featuresOf rid)[i]?).map MmFeature.length).getD 0).sum

/-- The encoder tokens of all inputs scheduled in a pass. -/
def Scheduler.encoderTokens {μ : Type} (s : Scheduler μ) (d : Dict ReqId (List Nat)) : Int :=
  (d.entries.map fun e => (s.inputTokens e.1 e.2 : Int)).sum

namespace Pass
variable {μ β : Type} {ops : Caches μ β} {cfg : VllmConfig} {s : Scheduler μ} {p q : Pass μ β}
variable {idx idx' : Nat} {rid victim : ReqId} {r : Request} {seen : List ReqId}

/-- What a pass keeps under PRIORITY, for a call that began in `s`. -/
structure Balanced (cfg : VllmConfig) (s : Scheduler μ) (p : Pass μ β) : Prop where
  tokens : p.tokenBudget + p.numScheduledTokens.values.sum = cfg.scheduler.maxNumBatchedTokens
  encoder : p.encoderComputeBudget + s.encoderTokens p.scheduledEncoderInputs =
    cfg.scheduler.maxNumEncoderInputTokens
  features : ∀ x, p.sched.featuresOf x = s.featuresOf x
  blocks : ∀ x ∈ p.reqToNewBlocks, x ∈ p.numScheduledTokens
  drafts : ∀ x ∈ p.scheduledSpecDecodeTokens, x ∈ p.numScheduledTokens
  inputs : ∀ x ∈ p.scheduledEncoderInputs, x ∈ p.numScheduledTokens
  preempted : ∀ x ∈ p.preemptedReqs, x ∉ p.sched.running

/-- A new entry adds its encoder tokens. -/
lemma encoderTokens_set {d : Dict ReqId (List Nat)} {inputs : List Nat} (hn : rid ∉ d) :
    s.encoderTokens (d.set rid inputs) = s.encoderTokens d + s.inputTokens rid inputs := by
  unfold Scheduler.encoderTokens
  rw [Dict.entries_set_of_not_mem inputs hn, List.map_append, List.sum_append]
  simp

/-- A deleted entry takes its encoder tokens away. -/
lemma encoderTokens_erase (d : Dict ReqId (List Nat)) (rid : ReqId) :
    s.encoderTokens d = s.encoderTokens (d.erase rid) + s.inputTokens rid (d.getD rid []) := by
  cases hd : d.get? rid with
  | none =>
    rw [Dict.erase_of_not_mem (Dict.get?_eq_none.1 hd), Dict.getD_eq, hd]
    simp [Scheduler.inputTokens]
  | some inputs =>
    unfold Scheduler.encoderTokens
    rw [((Dict.perm_cons_erase hd).map _).sum_eq, List.map_cons, List.sum_cons, Dict.getD_eq, hd]
    exact Int.add_comm _ _

/-- Other caches do not matter. -/
lemma Balanced.setCaches (h : Balanced cfg s p) (m : μ) : Balanced cfg s (p.setCaches m) :=
  ⟨h.tokens, h.encoder, h.features, h.blocks, h.drafts, h.inputs, h.preempted⟩

/-- The features after a preemption. -/
lemma featuresOf_preempt (ops : Caches μ β) (cfg : VllmConfig) (p : Pass μ β) (victim x : ReqId) :
    (p.preempt ops cfg victim).sched.featuresOf x = p.sched.featuresOf x := by
  unfold Scheduler.featuresOf
  rw [(preempt_frame ops cfg p victim).2.2.2]
  split
  · cases p.sched.requests.get? x with
    | none => rfl
    | some r => rfl
  · rfl

/-- A victim that was not scheduled changes no account. -/
lemma Balanced.drop (ops : Caches μ β) (h : Balanced cfg s p) (hat : At idx p) (victim : ReqId) :
    Balanced cfg s (({ p with sched := { p.sched with running := p.sched.running.erase victim } } :
      Pass μ β).preempt ops cfg victim) := by
  refine ⟨h.tokens, h.encoder, fun x => (featuresOf_preempt ..).trans (h.features x), h.blocks, h.drafts,
    h.inputs, fun x hx => ?_⟩
  rw [(preempt_frame ..).1]
  rcases List.mem_append.1 hx with hx | hx
  · exact fun hm => h.preempted x hx (List.mem_of_mem_erase hm)
  · rw [List.mem_singleton.1 hx]
    exact hat.nodup.not_mem_erase

/-- What was scheduled for a victim is taken back from every account. -/
lemma Balanced.unschedule (h : Balanced cfg s p) (hm : victim ∈ p.numScheduledTokens) :
    Balanced cfg s (p.unschedule victim) := by
  obtain ⟨c, hc⟩ := Dict.mem_iff_get?.1 hm
  refine ⟨?_, ?_, h.features, fun x hx => ?_, fun x hx => ?_, fun x hx => ?_, h.preempted⟩
  · show p.tokenBudget + p.numScheduledTokens.getD victim 0 +
      (p.numScheduledTokens.erase victim).values.sum = _
    have htokens := h.tokens
    rw [Dict.sum_values_erase hc] at htokens
    rw [Dict.getD_eq, hc, Option.getD_some]
    omega
  · show p.encoderComputeBudget + (p.sched.inputTokens victim (p.scheduledEncoderInputs.getD victim []) : Nat) +
      s.encoderTokens (p.scheduledEncoderInputs.erase victim) = _
    have hencoder := h.encoder
    rw [encoderTokens_erase p.scheduledEncoderInputs victim] at hencoder
    have hsame : p.sched.inputTokens victim (p.scheduledEncoderInputs.getD victim []) =
        s.inputTokens victim (p.scheduledEncoderInputs.getD victim []) := by
      unfold Scheduler.inputTokens
      rw [h.features victim]
    rw [hsame]
    omega
  · obtain ⟨hne, hx⟩ := Dict.mem_erase.1 hx
    exact Dict.mem_erase.2 ⟨hne, h.blocks x hx⟩
  · obtain ⟨hne, hx⟩ := Dict.mem_erase.1 hx
    exact Dict.mem_erase.2 ⟨hne, h.drafts x hx⟩
  · obtain ⟨hne, hx⟩ := Dict.mem_erase.1 hx
    exact Dict.mem_erase.2 ⟨hne, h.inputs x hx⟩

/-- Making room keeps the accounts. -/
lemma Balanced.vacates (hp : cfg.policy = .priority) (h : Balanced cfg s p) (hat : At idx p)
    (hv : Vacates ops cfg p idx victim q idx') : Balanced cfg s q := by
  cases hv with
  | evict hg => exact absurd (hg.symm.trans hp) (by decide)
  | pop hf => exact absurd (hf.symm.trans hp) (by decide)
  | takeBack _ _ _ hs =>
    have hm : victim ∈ p.numScheduledTokens := (hat.sync victim).1 hs
    have hu := h.unschedule hm
    refine ⟨hu.tokens, hu.encoder, fun x => (featuresOf_preempt ..).trans (hu.features x), hu.blocks,
      hu.drafts, hu.inputs, (h.drop ops hat victim).preempted⟩
  | drop => exact h.drop ops hat victim

/-- What giving tokens to a running request does to the encoder accounts. -/
lemma runRequest_encoder (ops : Caches μ β) (p : Pass μ β) (m : μ) (rid : ReqId) (r : Request)
    (numNew : Int) (b : β) (inputs : List Nat) (budget : Int) :
    (p.runRequest ops m rid r numNew b inputs budget).scheduledEncoderInputs =
        (if inputs = [] then p.scheduledEncoderInputs
          else p.scheduledEncoderInputs.set r.requestId inputs) ∧
      (p.runRequest ops m rid r numNew b inputs budget).encoderComputeBudget =
        (if inputs = [] then p.encoderComputeBudget else budget) := by
  have hspec : ∀ q : Pass μ β, (q.scheduleSpec rid r numNew).scheduledEncoderInputs =
      q.scheduledEncoderInputs ∧
      (q.scheduleSpec rid r numNew).encoderComputeBudget = q.encoderComputeBudget := by
    intro q
    unfold Pass.scheduleSpec
    dsimp only
    split_ifs <;> exact ⟨rfl, rfl⟩
  obtain ⟨h1, h2⟩ := hspec ((p.setCaches m).scheduleRunning rid numNew b)
  unfold Pass.runRequest Pass.scheduleEncoder
  cases inputs with
  | nil => exact ⟨h1, h2⟩
  | cons i l => exact ⟨congrArg (fun d => Dict.set d r.requestId (i :: l)) h1, rfl⟩

/-- What giving tokens to a running request does to the blocks and the drafts. -/
lemma runRequest_output (ops : Caches μ β) (p : Pass μ β) (m : μ) (rid : ReqId) (r : Request)
    (numNew : Int) (b : β) (inputs : List Nat) (budget : Int) :
    (p.runRequest ops m rid r numNew b inputs budget).reqToNewBlocks = p.reqToNewBlocks.set rid b ∧
      ∀ x ∈ (p.runRequest ops m rid r numNew b inputs budget).scheduledSpecDecodeTokens,
        x = rid ∨ x ∈ p.scheduledSpecDecodeTokens := by
  unfold Pass.runRequest Pass.scheduleEncoder Pass.scheduleSpec
  dsimp only
  split_ifs
  · exact ⟨rfl, fun x hx => .inr hx⟩
  · exact ⟨rfl, fun x hx => Dict.mem_set.1 hx⟩
  · exact ⟨rfl, fun x hx => .inr hx⟩
  · exact ⟨rfl, fun x hx => .inr hx⟩
  · exact ⟨rfl, fun x hx => Dict.mem_set.1 hx⟩
  · exact ⟨rfl, fun x hx => .inr hx⟩

/-- A running request gets its tokens; `budget` is what its encoder inputs leave. -/
lemma Balanced.runRequest {m : μ} {numNew budget : Int} {b : β} {inputs : List Nat}
    (h : Balanced cfg s p) (hid : r.requestId = rid) (hn : rid ∉ p.numScheduledTokens)
    (hb : inputs ≠ [] → budget = p.encoderComputeBudget - s.inputTokens rid inputs) :
    Balanced cfg s (p.runRequest ops m rid r numNew b inputs budget) := by
  obtain ⟨h1, h2, -, h4, h5⟩ := runRequest_frame ops p m rid r numNew b inputs budget
  obtain ⟨e1, e2⟩ := runRequest_encoder ops p m rid r numNew b inputs budget
  obtain ⟨o1, o2⟩ := runRequest_output ops p m rid r numNew b inputs budget
  have hpre := (runRequest_kept ops p m rid r numNew b inputs budget).2.1
  refine ⟨?_, ?_, fun x => ?_, fun x hx => ?_, fun x hx => ?_, fun x hx => ?_, fun x hx => ?_⟩
  · have htokens := h.tokens
    rw [h2, h4, Dict.sum_values_set_of_not_mem numNew hn]
    omega
  · have hencoder := h.encoder
    rw [e1, e2]
    split
    · exact hencoder
    · next hne =>
      have hnot : rid ∉ p.scheduledEncoderInputs := fun hm => hn (h.inputs rid hm)
      rw [hid, encoderTokens_set hnot, hb hne]
      omega
  · rw [← h.features x]
    unfold Scheduler.featuresOf
    rw [h5]
    split
    · cases p.sched.requests.get? x with
      | none => rfl
      | some r => rfl
    · rfl
  · rw [h2, Dict.mem_set]
    rw [o1, Dict.mem_set] at hx
    exact hx.imp id (h.blocks x)
  · rw [h2, Dict.mem_set]
    exact (o2 x hx).imp id (h.drafts x)
  · rw [h2, Dict.mem_set]
    rw [e1] at hx
    split at hx
    · exact .inr (h.inputs x hx)
    · rw [hid, Dict.mem_set] at hx
      exact hx.imp id (h.inputs x)
  · rw [h1]
    rw [hpre] at hx
    exact h.preempted x hx

/-- The running requests looked at are those in front of a position, each of them once. -/
structure Looked (k : Nat) (seen : List ReqId) (p : Pass μ β) : Prop where
  nodup : seen.Nodup
  front : ∀ x ∈ p.sched.running, x ∈ seen ↔ x ∈ p.sched.running.take k

/-- The running requests up to a position. -/
lemma take_succ (hrid : p.sched.running[idx]? = some rid) :
    p.sched.running.take (idx + 1) = p.sched.running.take idx ++ [rid] := by
  rw [List.take_add_one, hrid]
  rfl

/-- The request at a position is looked at. -/
lemma Looked.look (h : Looked idx seen p) (hat : At idx p) (hrid : p.sched.running[idx]? = some rid) :
    Looked (idx + 1) (seen ++ [rid]) p := by
  have hmem : rid ∈ p.sched.running := List.mem_of_getElem? hrid
  have htake := take_succ hrid
  have hnd : (p.sched.running.take (idx + 1)).Nodup :=
    hat.nodup.sublist (List.take_sublist _ _)
  rw [htake] at hnd
  have hnot : rid ∉ seen := by
    intro hm
    exact List.disjoint_of_nodup_append hnd ((h.front rid hmem).1 hm) (List.mem_singleton_self rid)
  constructor
  · rw [List.nodup_append]
    refine ⟨h.nodup, List.nodup_singleton rid, fun a ha b hb he => ?_⟩
    rw [List.mem_singleton.1 hb] at he
    exact hnot (he ▸ ha)
  · intro x hx
    rw [htake, List.mem_append, List.mem_append, h.front x hx]

/-- A victim in front of the request at hand that was scheduled: the position moves back with it. -/
lemma Looked.takeBack (h : Looked (idx + 1) seen p) (hat : At idx p)
    (hrid : p.sched.running[idx]? = some rid) (hv : victim ∈ p.sched.running.take idx)
    (hq : q.sched.running = p.sched.running.erase victim) :
    q.sched.running[idx - 1]? = some rid ∧ Looked (idx - 1 + 1) seen q := by
  have hpos : 0 < idx := by
    rcases Nat.eq_zero_or_pos idx with h0 | h0
    · rw [h0] at hv
      cases hv
    · exact h0
  have hidx : idx - 1 + 1 = idx := by omega
  have hlt : idx < p.sched.running.length := (List.getElem?_eq_some_iff.1 hrid).1
  have htake := take_succ hrid
  have hv' : victim ∈ p.sched.running.take (idx + 1) := by
    rw [htake]
    exact List.mem_append_left _ hv
  have herase : (p.sched.running.erase victim).take idx = (p.sched.running.take (idx + 1)).erase victim :=
    take_erase hv'
  have hnd : (p.sched.running.take (idx + 1)).Nodup := hat.nodup.sublist (List.take_sublist _ _)
  rw [hq]
  constructor
  · have hfront : (p.sched.running.erase victim).take idx = (p.sched.running.take idx).erase victim ++ [rid] := by
      rw [herase, htake, List.erase_append_left _ hv]
    have hlen : ((p.sched.running.take idx).erase victim).length = idx - 1 := by
      rw [List.length_erase_of_mem hv, List.length_take, min_eq_left (Nat.le_of_lt hlt)]
    rw [← List.getElem?_take_of_lt (show idx - 1 < idx by omega), hfront,
      List.getElem?_append_right (by omega), hlen, Nat.sub_self]
    rfl
  · refine ⟨h.nodup, fun x hx => ?_⟩
    rw [hq] at hx
    obtain ⟨hne, hx⟩ := hat.nodup.mem_erase_iff.1 hx
    rw [hidx, hq, herase, hnd.mem_erase_iff, h.front x hx]
    exact (and_iff_right hne).symm

/-- A victim behind the request at hand: the position stays. -/
lemma Looked.drop (h : Looked (idx + 1) seen p) (hrid : p.sched.running[idx]? = some rid)
    (hv : victim ∉ p.sched.running.take idx) (hne : victim ≠ rid)
    (hq : q.sched.running = p.sched.running.erase victim) :
    q.sched.running[idx]? = some rid ∧ Looked (idx + 1) seen q := by
  have htake := take_succ hrid
  have hnot : victim ∉ p.sched.running.take (idx + 1) := by
    rw [htake, List.mem_append, List.mem_singleton, not_or]
    exact ⟨hv, hne⟩
  have hlen : (p.sched.running.take (idx + 1)).length = idx + 1 := by
    have hlt : idx < p.sched.running.length := (List.getElem?_eq_some_iff.1 hrid).1
    rw [List.length_take]
    omega
  have hfront : (p.sched.running.erase victim).take (idx + 1) = p.sched.running.take (idx + 1) := by
    conv_lhs => rw [← List.take_append_drop (idx + 1) p.sched.running]
    rw [List.erase_append_right _ hnot]
    exact List.take_left' hlen
  constructor
  · rw [hq, ← List.getElem?_take_of_lt (Nat.lt_succ_self idx), hfront,
      List.getElem?_take_of_lt (Nat.lt_succ_self idx)]
    exact hrid
  · refine ⟨h.nodup, fun x hx => ?_⟩
    rw [hq] at hx ⊢
    rw [hfront]
    exact h.front x (List.mem_of_mem_erase hx)

/-- Where making room meets no gap: a victim in front of the request at hand was scheduled in this call, and
a request with encoder inputs to schedule takes no victim that has some. The victim can be pushed. -/
def Point.Fair (ops : Caches μ β) (cfg : VllmConfig) : Point μ β → Prop
  | .hand idx _ rid numNew inputs _ p =>
    ∀ r ∈ p.sched.requests.get? rid, ∀ victim ∈ p.sched.lowestPriority,
      (ops.allocateSlots p.sched.caches r numNew 0 none cfg.scheduler.numLookaheadTokens 0).2.isNone = true →
      (victim ∈ p.sched.running.take idx → victim ∈ p.scheduledRunningReqs) ∧
        (inputs ≠ [] → victim ∉ p.scheduledEncoderInputs) ∧ p.sched.Untied p.sched.waiting victim
  | _ => True

instance (ops : Caches μ β) (cfg : VllmConfig) (x : Point μ β) : Decidable (x.Fair ops cfg) :=
  match x with
  | .head .. => .isTrue trivial
  | .hand idx _ rid numNew inputs _ p =>
    inferInstanceAs (Decidable (∀ r ∈ p.sched.requests.get? rid, ∀ victim ∈ p.sched.lowestPriority,
      (ops.allocateSlots p.sched.caches r numNew 0 none cfg.scheduler.numLookaheadTokens 0).2.isNone = true →
      (victim ∈ p.sched.running.take idx → victim ∈ p.scheduledRunningReqs) ∧
        (inputs ≠ [] → victim ∉ p.scheduledEncoderInputs) ∧ p.sched.Untied p.sched.waiting victim))
  | .ended .. => .isTrue trivial

/-- Turns from fair points. -/
def FairTurn (ops : Caches μ β) (cfg : VllmConfig) (x y : Point μ β) : Prop :=
  Turn ops cfg x y ∧ x.Fair ops cfg

/-- What the loop keeps under PRIORITY, for a call that began in `s`. -/
def Point.Sound (cfg : VllmConfig) (s : Scheduler μ) : Point μ β → Prop
  | .head idx seen p => Balanced cfg s p ∧ Looked idx seen p
  | .hand idx seen rid _ inputs budget p => Balanced cfg s p ∧ Looked (idx + 1) seen p ∧
      p.sched.running[idx]? = some rid ∧
      (inputs ≠ [] → budget = p.encoderComputeBudget - s.inputTokens rid inputs)
  | .ended _ _ p => Balanced cfg s p

/-- Making room at a fair point. -/
lemma Vacates.sound {inputs : List Nat} {budget : Int} (hp : cfg.policy = .priority) (hat : At idx p)
    (hv : Vacates ops cfg p idx victim q idx') (hne : victim ≠ rid) (hl : Looked (idx + 1) seen p)
    (hrid : p.sched.running[idx]? = some rid)
    (hb : inputs ≠ [] → budget = p.encoderComputeBudget - s.inputTokens rid inputs)
    (hfront : victim ∈ p.sched.running.take idx → victim ∈ p.scheduledRunningReqs)
    (henc : inputs ≠ [] → victim ∉ p.scheduledEncoderInputs) :
    q.sched.running[idx']? = some rid ∧ Looked (idx' + 1) seen q ∧
      (inputs ≠ [] → budget = q.encoderComputeBudget - s.inputTokens rid inputs) := by
  cases hv with
  | evict hg => exact absurd (hg.symm.trans hp) (by decide)
  | pop hf => exact absurd (hf.symm.trans hp) (by decide)
  | takeBack _ _ _ hs =>
    have hbefore := hat.before victim ((hat.sync victim).1 hs)
    obtain ⟨h1, h2⟩ := hl.takeBack (q := ((({ p with sched := { p.sched with
      running := p.sched.running.erase victim } } : Pass μ β).unschedule victim).preempt ops cfg victim))
      hat hrid hbefore (preempt_frame ..).1
    refine ⟨h1, h2, fun hi => ?_⟩
    -- nothing comes back to the encoder budget
    have hnone : p.scheduledEncoderInputs.getD victim [] = [] := by
      rw [Dict.getD_eq, Dict.get?_eq_none.2 (henc hi)]
      rfl
    show budget = p.encoderComputeBudget +
      (p.sched.inputTokens victim (p.scheduledEncoderInputs.getD victim []) : Nat) - _
    rw [hnone, hb hi]
    simp [Scheduler.inputTokens]
  | drop _ _ _ hs =>
    obtain ⟨h1, h2⟩ := hl.drop (q := ({ p with sched := { p.sched with
      running := p.sched.running.erase victim } } : Pass μ β).preempt ops cfg victim)
      hrid (fun hm => hs (hfront hm)) hne (preempt_frame ..).1
    exact ⟨h1, h2, hb⟩

/-- The victim of PRIORITY. -/
lemma Vacates.lowest (hp : cfg.policy = .priority) (hv : Vacates ops cfg p idx victim q idx') :
    p.sched.lowestPriority = some victim := by
  cases hv with
  | evict hg => exact absurd (hg.symm.trans hp) (by decide)
  | pop hf => exact absurd (hf.symm.trans hp) (by decide)
  | takeBack _ hl => exact hl
  | drop _ hl => exact hl

/-- A turn from a fair point keeps it. -/
lemma FairTurn.sound {x y : Point μ β} (hp : cfg.policy = .priority) (hexact : ops.EncoderExact)
    (ht : FairTurn ops cfg x y) (hheld : Held cfg x) (hx : x.Sound cfg s) : y.Sound cfg s := by
  obtain ⟨ht, hfair⟩ := ht
  cases ht with
  | @look idx seen p q rid r inputs numNew budget hrid _ hr henc =>
    obtain ⟨hbal, hl⟩ := hx
    have hat : At idx p := hheld
    obtain ⟨m, rfl⟩ := tryEncoder_caches henc
    have hl' := hl.look hat hrid
    refine ⟨hbal.setCaches m, ⟨hl'.nodup, hl'.front⟩, hrid, fun hi => ?_⟩
    -- the look-up took the inputs off the budget of this point
    unfold Pass.tryEncoder at henc
    split at henc
    · have h1 := congrArg (fun t => t.2.1) henc
      have h2 := congrArg (fun t => t.2.2.2) henc
      dsimp only at h1 h2
      have hfeat : s.featuresOf rid = r.mmFeatures := by
        rw [← hbal.features rid]
        unfold Scheduler.featuresOf
        rw [hr]
        rfl
      unfold Scheduler.inputTokens
      rw [← h2, hexact, h1, hfeat]
      rfl
    · exact absurd (congrArg (fun t => t.2.1) henc).symm hi
  | skip => exact ⟨hx.1, hx.2.1⟩
  | @room idx seen rid r numNew inputs budget p m victim q idx' _ hr hal hv hne =>
    obtain ⟨hbal, hl, hrid, hb⟩ := hx
    have hat : At idx (p.setCaches m) := hheld.1.setCaches m
    have hlow := hv.lowest hp
    obtain ⟨hfront, henc, -⟩ := hfair r hr victim hlow (by rw [hal]; rfl)
    obtain ⟨h1, h2, h3⟩ := hv.sound hp hat hne ⟨hl.nodup, hl.front⟩ hrid hb hfront henc
    exact ⟨(hbal.setCaches m).vacates hp hat hv, h2, h1, h3⟩
  | fail _ _ _ hv => exact (hx.1.setCaches _).vacates hp (hheld.1.setCaches _) hv
  | @run idx seen rid r numNew inputs budget p m blocks _ hr _ =>
    obtain ⟨hbal, hl, hrid, hb⟩ := hx
    have hat : At idx p := hheld.1
    have hrun := (runRequest_frame ops p m rid r numNew blocks inputs budget).1
    refine ⟨hbal.runRequest (hat.ids rid r hr) hheld.2.fresh hb, hl.nodup, fun x hx => ?_⟩
    rw [hrun] at hx ⊢
    exact hl.front x hx

/-- The turn from a point, computed. -/
def Point.next (ops : Caches μ β) (cfg : VllmConfig) : Point μ β → Option (Point μ β)
  | .head idx seen p =>
    match p.sched.running[idx]? with
    | none => none
    | some rid =>
      if p.tokenBudget ≤ 0 then none
      else match p.sched.requests.get? rid with
        | none => none
        | some r =>
          match p.tryEncoder ops r r.numComputedTokens (numNewRunning cfg r p.tokenBudget) with
          | (q, inputs, numNew, budget) => some (.hand idx (seen ++ [rid]) rid numNew inputs budget q)
  | .hand idx seen rid numNew inputs budget p =>
    if numNew = 0 then some (.head (idx + 1) seen p)
    else match p.sched.requests.get? rid with
      | none => none
      | some r =>
        match ops.allocateSlots p.sched.caches r numNew 0 none cfg.scheduler.numLookaheadTokens 0 with
        | (m, some blocks) =>
          some (.head (idx + 1) seen (p.runRequest ops m rid r numNew blocks inputs budget))
        | (m, none) =>
          match (p.setCaches m).makeRoom ops cfg idx with
          | (none, _, _) => none
          | (some victim, q, idx') =>
            some (if victim = rid then .ended idx' seen q else .hand idx' seen rid numNew inputs budget q)
  | .ended .. => none

/-- A turn is the one that is computed. -/
lemma Turn.next_eq {x y : Point μ β} (ht : Turn ops cfg x y) : x.next ops cfg = some y := by
  cases ht with
  | look hrid hb hr henc =>
    unfold Point.next
    dsimp only
    rw [hrid]
    dsimp only
    rw [if_neg (Int.not_le.2 hb), hr]
    dsimp only
    rw [henc]
  | skip => rfl
  | room hn hr hal hv hne =>
    unfold Point.next
    dsimp only
    rw [if_neg hn, hr]
    dsimp only
    rw [hal]
    dsimp only
    rw [hv.makeRoom_eq]
    dsimp only
    rw [if_neg hne]
  | fail hn hr hal hv =>
    unfold Point.next
    dsimp only
    rw [if_neg hn, hr]
    dsimp only
    rw [hal]
    dsimp only
    rw [hv.makeRoom_eq]
    dsimp only
    rw [if_pos rfl]
  | run hn hr hal =>
    unfold Point.next
    dsimp only
    rw [if_neg hn, hr]
    dsimp only
    rw [hal]

/-- Nothing follows a point where the loop ends. -/
lemma Point.Final.next_eq {x : Point μ β} (h : x.Final) : x.next ops cfg = none := by
  cases x with
  | head idx seen p =>
    unfold Point.next
    dsimp only
    split
    · rfl
    next rid hrid =>
    rcases h with hlen | hb
    · rw [List.getElem?_eq_none hlen] at hrid
      cases hrid
    · rw [if_pos hb]
  | hand => exact h.elim
  | ended => rfl

/-- The loop ends at one point only. -/
lemma Turns.final_unique {x y z : Point μ β} (hy : Turns ops cfg x y) (hz : Turns ops cfg x z)
    (fy : y.Final) (fz : z.Final) : y = z := by
  have stuck : ∀ {a b : Point μ β}, a.Final → ¬ Turn ops cfg a b := by
    intro a b ha ht
    have := ht.next_eq
    rw [ha.next_eq] at this
    cases this
  induction hy using Relation.ReflTransGen.head_induction_on with
  | refl =>
    rcases Relation.ReflTransGen.cases_head hz with rfl | ⟨c, hc, -⟩
    · rfl
    · exact absurd hc (stuck fy)
  | head hab _ ih =>
    rcases Relation.ReflTransGen.cases_head hz with rfl | ⟨c, hc, hz'⟩
    · exact absurd hab (stuck fz)
    · have hsame := hab.next_eq.symm.trans hc.next_eq
      cases hsame
      exact ih hz'

/-- A point that keeps what every point keeps is followed by the turn that is computed. -/
lemma turn_of_next {x y : Point μ β} (hheld : Held cfg x) (h : x.next ops cfg = some y) :
    Turn ops cfg x y := by
  cases x with
  | head idx seen p =>
    unfold Point.next at h
    dsimp only at h
    split at h
    · cases h
    next rid hrid =>
    split at h
    · cases h
    next hb =>
    split at h
    · cases h
    next r hr =>
    generalize henc : p.tryEncoder ops r r.numComputedTokens (numNewRunning cfg r p.tokenBudget) = enc at h
    obtain ⟨q, inputs, numNew, budget⟩ := enc
    cases h
    exact .look hrid (Int.not_le.1 hb) hr henc
  | hand idx seen rid numNew inputs budget p =>
    unfold Point.next at h
    dsimp only at h
    split at h
    · next h0 =>
      cases h
      subst h0
      exact .skip
    next hn =>
    split at h
    · cases h
    next r hr =>
    split at h
    · next m blocks hal =>
      cases h
      exact .run hn hr hal
    next m hal =>
    have hne : (p.setCaches m).sched.running ≠ [] := List.ne_nil_of_mem (List.mem_of_mem_take hheld.2.mem)
    obtain ⟨victim, q, idx', hv⟩ := (hheld.1.setCaches m).vacates ops cfg hne
    rw [hv.makeRoom_eq] at h
    dsimp only at h
    split at h
    · next he =>
      cases h
      subst he
      exact .fail hn hr hal hv
    · next he =>
      cases h
      exact .room hn hr hal hv he
  | ended => cases h

/-- The point after some turns, as long as a test holds of the points in between. -/
def Point.follow (ops : Caches μ β) (cfg : VllmConfig) (ok : Point μ β → Bool) : Nat → Point μ β → Point μ β
  | 0, x => x
  | n + 1, x =>
    match x.next ops cfg with
    | none => x
    | some y => if ok x then y.follow ops cfg ok n else x

/-- The points that are followed are reached by turns from points of the test. -/
lemma follow_turns (ok : Point μ β → Bool) (n : Nat) {x : Point μ β} (hheld : Held cfg x) :
    Relation.ReflTransGen (fun a b => Turn ops cfg a b ∧ ok a = true) x (x.follow ops cfg ok n) := by
  induction n generalizing x with
  | zero => exact .refl
  | succ n ih =>
    unfold Point.follow
    split
    · exact .refl
    next y hy =>
    have ht := turn_of_next hheld hy
    split
    · next hok => exact .head ⟨ht, hok⟩ (ih (ht.held hheld))
    · exact .refl

/-- The running queue was walked to its end: the loop did not end early. -/
def Point.Complete : Point μ β → Prop
  | .head idx _ p => p.sched.running.length ≤ idx
  | _ => False

instance (x : Point μ β) : Decidable x.Complete :=
  match x with
  | .head idx _ p => inferInstanceAs (Decidable (p.sched.running.length ≤ idx))
  | .hand .. => .isFalse id
  | .ended .. => .isFalse id

/-- The point of a loop that began in `s` is exact. -/
structure Point.Exact (cfg : VllmConfig) (s : Scheduler μ) (x : Point μ β) : Prop where
  tokens : x.pass.tokenBudget + x.pass.numScheduledTokens.values.sum = cfg.scheduler.maxNumBatchedTokens
  encoder : x.pass.encoderComputeBudget + s.encoderTokens x.pass.scheduledEncoderInputs =
    cfg.scheduler.maxNumEncoderInputTokens
  preempted : ∀ y ∈ x.pass.preemptedReqs, y ∉ x.pass.scheduledRunningReqs ∧ y ∉ x.pass.admitted ∧
    y ∉ x.pass.numScheduledTokens ∧ y ∉ x.pass.reqToNewBlocks ∧
    y ∉ x.pass.scheduledSpecDecodeTokens ∧ y ∉ x.pass.scheduledEncoderInputs
  examined : x.Complete → ∀ y ∈ s.running, y ∈ x.pass.sched.running → x.seen.count y = 1

/-- The accounts hold at every point. -/
lemma Point.Sound.balanced {x : Point μ β} (h : x.Sound cfg s) : Balanced cfg s x.pass := by
  cases x with
  | head => exact h.1
  | hand => exact h.1
  | ended => exact h

/-- The structure of the queue holds at every point. -/
lemma Held.at {x : Point μ β} (h : Held cfg x) : At x.idx x.pass := by
  cases x with
  | head => exact h
  | hand => exact h.1
  | ended => exact h

/-- What the loop keeps makes its points exact. -/
lemma Point.Sound.exact {x : Point μ β} (h : x.Sound cfg s) (hheld : Held cfg x)
    (had : x.pass.admitted = []) : x.Exact cfg s := by
  have hbal := h.balanced
  refine ⟨hbal.tokens, hbal.encoder, fun y hy => ?_, fun hc y _ hy => ?_⟩
  · have hn : y ∉ x.pass.numScheduledTokens := fun hm =>
      hbal.preempted y hy (hheld.at.before.scheduledRun y hm)
    refine ⟨fun hm => hn ((hheld.at.sync y).1 hm), ?_, hn, fun hm => hn (hbal.blocks y hm),
      fun hm => hn (hbal.drafts y hm), fun hm => hn (hbal.inputs y hm)⟩
    rw [had]
    exact List.not_mem_nil
  · cases x with
    | head idx seen p =>
      have hl : Looked idx seen p := h.2
      have hall : p.sched.running.take idx = p.sched.running := List.take_of_length_le hc
      refine List.count_eq_one_of_mem hl.nodup ((hl.front y hy).2 ?_)
      rw [hall]
      exact hy
    | hand => exact hc.elim
    | ended => exact hc.elim

end Pass

namespace Scheduler
variable {μ β : Type} {ops : Caches μ β} {cfg : VllmConfig} {s : Scheduler μ}

/-- The accounts at the start of a call. -/
lemma startPass_balanced (hp : cfg.policy = .priority) (s : Scheduler μ) :
    Pass.Balanced cfg s (s.startPass (β := β) cfg) := by
  have hsched : (s.startPass (β := β) cfg).sched = s := by
    unfold Scheduler.startPass
    dsimp only
    rw [if_neg (by rw [hp]; decide)]
  refine ⟨?_, ?_, fun x => by rw [hsched], fun x hx => ?_, fun x hx => ?_, fun x hx => ?_, fun x hx => ?_⟩
  · show cfg.scheduler.maxNumBatchedTokens + (∅ : Dict ReqId Int).values.sum = _
    rw [Dict.values_empty, List.sum_nil, Int.add_zero]
  · show cfg.scheduler.maxNumEncoderInputTokens + s.encoderTokens ∅ = _
    exact Int.add_zero _
  · exact absurd hx Dict.not_mem_empty
  · exact absurd hx Dict.not_mem_empty
  · exact absurd hx Dict.not_mem_empty
  · exact absurd hx List.not_mem_nil

/-- As long as the loop over the running requests meets fair points only, every point it reaches is exact
under PRIORITY; the last one is the state between the two loops. -/
theorem priority_exact (hexact : ops.EncoderExact) (hp : cfg.policy = .priority) (h : s.WF)
    {x : Pass.Point μ β}
    (run : Relation.ReflTransGen (Pass.FairTurn ops cfg) (.head 0 [] (s.startPass cfg)) x) :
    x.Exact cfg s ∧ (x.Final → x.pass = s.afterRunning ops cfg) := by
  have hzero : Pass.At 0 (s.startPass (β := β) cfg) := h.at_zero ops
  have hall : Pass.Turns ops cfg (.head 0 [] (s.startPass cfg)) x ∧ Pass.Held cfg x ∧ x.Sound cfg s ∧
      x.pass.admitted = [] := by
    induction run with
    | refl =>
      refine ⟨.refl, hzero, ⟨startPass_balanced hp s, List.nodup_nil, fun y _ => ?_⟩, rfl⟩
      exact iff_of_false List.not_mem_nil List.not_mem_nil
    | tail _ ht ih =>
      obtain ⟨hpath, hheld, hsound, had⟩ := ih
      exact ⟨.tail hpath ht.1, ht.1.held hheld, ht.sound hp hexact hheld hsound,
        ht.1.admitted.trans had⟩
  obtain ⟨hpath, hheld, hsound, had⟩ := hall
  refine ⟨hsound.exact hheld had, fun hfin => ?_⟩
  obtain ⟨y, hy, hfy, -, he⟩ := h.afterRunning_turns ops cfg
  rw [← he, hpath.final_unique hy hfin hfy]

/-- Two requests that fill six blocks; the one that came first is the less important. -/
def twoPriorities : List SchedEvent :=
  [.addRequest { requestId := ['a'], promptTokenIds := [1, 2], priority := 5 },
    .schedule fun _ => true, .updateFromOutput ⟨[(['a'], [5])], by decide⟩ ∅ none,
    .addRequest { requestId := ['b'], promptTokenIds := [3, 4] },
    .schedule fun _ => true, .updateFromOutput ⟨[(['a'], [6]), (['b'], [7])], by decide⟩ ∅ none]

/-- The first request is scheduled, and taken back for the second one. -/
theorem priority_exact_two :
    let cfg : VllmConfig := { gambit := {}, scheduler := { policy := .priority } }
    let s := ((schedMachine (Caches.bounded 6) cfg ∅).exec twoPriorities).2.sched
    let x := Pass.Point.follow (Caches.bounded 6) cfg (fun x => x.Fair (Caches.bounded 6) cfg) 5
      (.head 0 [] (s.startPass cfg))
    x.seen = [['a'], ['b']] ∧ x.pass.preemptedReqs = [['a']] ∧ x.Exact cfg s ∧
      (x.Final → x.pass = s.afterRunning (Caches.bounded 6) cfg) := by
  intro cfg s x
  have hwf : s.WF := (sound_of_runs (Machine.Runs.of_exec (by decide +kernel))).wf
  have hzero : Pass.At 0 (s.startPass (β := Unit) cfg) := hwf.at_zero (Caches.bounded 6)
  have hexact : (Caches.bounded 6).EncoderExact := fun _ _ _ _ budget => (Int.sub_zero budget).symm
  refine ⟨by decide +kernel, by decide +kernel, priority_exact hexact (by decide) hwf ?_⟩
  refine Relation.ReflTransGen.mono (fun a b hab => ?_) _ _
    (Pass.follow_turns (fun x => x.Fair (Caches.bounded 6) cfg) 5 hzero)
  exact ⟨hab.1, of_decide_eq_true hab.2⟩

/-- A prompt as long as the model that is prefilled in chunks has no token left to schedule after the first
chunk; two requests run behind it, and there is no block left. -/
def stuckPrompt : List SchedEvent :=
  [.addRequest { requestId := ['a'], promptTokenIds := [1, 2, 3], priority := 5 },
    .schedule fun _ => true, .updateFromOutput ∅ ∅ none,
    .addRequest { requestId := ['b'], promptTokenIds := [4] },
    .addRequest { requestId := ['c'], promptTokenIds := [5], arrivalTime := 1 },
    .schedule fun _ => true, .updateFromOutput ⟨[(['b'], [6]), (['c'], [7])], by decide⟩ ∅ none]

/-- The bounded cache manager for requests with at most one encoder input, none of which was encoded
before. -/
def encodingCaches (capacity : Nat) : Caches (Dict ReqId Nat) Unit :=
  { Caches.bounded capacity with
    tryScheduleEncoderInputs := fun m r computed numNew budget =>
      match r.mmFeatures with
      | [f] =>
        if computed + numNew ≤ f.offset ∨ (f.offset + f.length : Int) ≤ computed then (m, [], numNew, budget)
        else if (f.length : Int) ≤ budget then (m, [0], numNew, budget - f.length)
        else (m, [], max 0 (f.offset - computed), budget)
      | _ => (m, [], numNew, budget) }

/-- A prompt that ends with an image. -/
def withImage (rid : ReqId) (priority : Int) (text : List Token) (identifier : Nat) : Request where
  requestId := rid
  priority := priority
  promptTokenIds := text ++ [0, 0]
  mmFeatures := [{ offset := text.length, length := 2, identifier := identifier }]

/-- Two prompts that come to their images in the same call. -/
def twoImages : List SchedEvent :=
  [.addRequest (withImage ['a'] 5 [1, 2, 3, 4] 0), .schedule fun _ => true, .updateFromOutput ∅ ∅ none,
    .addRequest (withImage ['b'] 0 [5, 6] 1), .schedule fun _ => true, .updateFromOutput ∅ ∅ none]

/-- The two gaps. The first request has nothing to schedule, is preempted for the second one, and the third
one, which moved up, is not looked at. And the encoder tokens of a victim come back, but the request at
hand then sets the budget that it computed before. -/
theorem priority_gaps :
    (let cfg : VllmConfig :=
      { gambit := {}
        scheduler := { policy := .priority, maxModelLen := 3, longPrefillTokenThreshold := 2 } }
    let s := ((schedMachine (Caches.bounded 4) cfg ∅).exec stuckPrompt).2.sched
    ∃ x, Pass.Turns (Caches.bounded 4) cfg (.head 0 [] (s.startPass cfg)) x ∧ x.Complete ∧
      0 < x.pass.tokenBudget ∧ ['c'] ∈ s.running ∧ ['c'] ∈ x.pass.sched.running ∧ ['c'] ∉ x.seen) ∧
    (let cfg : VllmConfig :=
      { gambit := {}
        scheduler := { policy := .priority, maxNumEncoderInputTokens := 4, longPrefillTokenThreshold := 2 } }
    let s := ((schedMachine (encodingCaches 8) cfg ∅).exec twoImages).2.sched
    ∃ x, Pass.Turns (encodingCaches 8) cfg (.head 0 [] (s.startPass cfg)) x ∧
      x.pass.preemptedReqs = [['a']] ∧ x.pass.encoderComputeBudget = 0 ∧
      s.encoderTokens x.pass.scheduledEncoderInputs = 2) := by
  have turns : ∀ {ops : Caches (Dict ReqId Nat) Unit} {cfg : VllmConfig} {s : Scheduler (Dict ReqId Nat)}
      (_ : s.WF) (n : Nat), Pass.Turns ops cfg (.head 0 [] (s.startPass cfg))
        (Pass.Point.follow ops cfg (fun _ => true) n (.head 0 [] (s.startPass cfg))) := by
    intro ops cfg s hwf n
    have hzero : Pass.At 0 (s.startPass (β := Unit) cfg) := hwf.at_zero ops
    exact Relation.ReflTransGen.mono (fun _ _ h => h.1) _ _ (Pass.follow_turns (fun _ => true) n hzero)
  constructor
  · intro cfg s
    have hwf : s.WF := (sound_of_runs (Machine.Runs.of_exec (by decide +kernel))).wf
    refine ⟨_, turns hwf 5, ?_⟩
    decide +kernel
  · intro cfg s
    have hwf : s.WF := (sound_of_runs (Machine.Runs.of_exec (by decide +kernel))).wf
    refine ⟨_, turns hwf 5, ?_⟩
    decide +kernel

end Scheduler
end Gambit.Sched
