import Gambit.Sched.Ownership

/-!
# What a scheduling pass grants

The arithmetic of `schedule`. A request is `Sane` when it has something left to compute and its
tokens are within the limits of the clamp `max_total_tokens - 1 - num_computed_tokens`; then the clamp
is not negative, and whatever a pass gives to a request is positive, within the token budget, and
reaches at most one token beyond the request and its drafts (`Granted`). `Grants` is the invariant of a
pass, kept by every `Step`.

The clamp can be negative. A prompt of `max_model_len` tokens, or a preempted request that has grown to
that length, is admitted from the waiting queue without the clamp and gets one more token, and
`min_tokens` keeps `check_stop` from ending it. `Fits` is the condition under which this does not
happen.
-/

namespace Gambit.Sched
open Gambit.Lib

namespace Request
variable {cfg : VllmConfig} {r r' : Request}

/-- A request that cannot outgrow the model: what the front end promises (`prompt_ne`, `prompt_le` and
`min_le`, where an unset `max_tokens` is what is left of `max_model_len`), and room for the tokens that
`min_tokens` forces. -/
structure Fits (cfg : VllmConfig) (r : Request) : Prop where
  prompt_ne : r.promptTokenIds ≠ []
  prompt_le : r.promptTokenIds.length ≤ cfg.scheduler.maxModelLen
  min_le : r.samplingParams.minTokens ≤ r.maxTokens ∨
    cfg.scheduler.maxModelLen ≤ r.promptTokenIds.length + r.maxTokens
  room : r.promptTokenIds.length + r.samplingParams.minTokens ≤ cfg.scheduler.maxModelLen + 1 ∨
    cfg.policy = .gambit ∧ r.promptTokenIds.length < cfg.scheduler.maxModelLen

instance (cfg : VllmConfig) (r : Request) : Decidable (r.Fits cfg) :=
  decidable_of_iff (r.promptTokenIds ≠ [] ∧ r.promptTokenIds.length ≤ cfg.scheduler.maxModelLen ∧
      (r.samplingParams.minTokens ≤ r.maxTokens ∨
        cfg.scheduler.maxModelLen ≤ r.promptTokenIds.length + r.maxTokens) ∧
      (r.promptTokenIds.length + r.samplingParams.minTokens ≤ cfg.scheduler.maxModelLen + 1 ∨
        cfg.policy = .gambit ∧ r.promptTokenIds.length < cfg.scheduler.maxModelLen))
    ⟨fun ⟨h1, h2, h3, h4⟩ => ⟨h1, h2, h3, h4⟩, fun ⟨h1, h2, h3, h4⟩ => ⟨h1, h2, h3, h4⟩⟩

/-- A request between two steps. -/
structure Sane (cfg : VllmConfig) (r : Request) : Prop where
  fits : r.Fits cfg
  tokens : r.numTokens ≤ cfg.scheduler.maxModelLen
  output : r.numOutputTokens ≤ r.maxTokens ∨
    cfg.scheduler.maxModelLen ≤ r.promptTokenIds.length + r.maxTokens
  nonneg : 0 ≤ r.numComputedTokens
  behind : r.numComputedTokens + 1 ≤ r.numTokens
  idle : r.status ≠ .running → r.numComputedTokens = 0
  unstarted : r.status ≠ .running → cfg.policy = .gambit → r.outputTokenIds = []

/-- What a pass gives to a request: `c` tokens, `d` of them for drafts. -/
structure Granted (cfg : VllmConfig) (r : Request) (c : Int) (d : Nat) : Prop where
  pos : 1 ≤ c
  reach : r.numComputedTokens + c ≤ r.numTokens + d
  drafts : d ≠ 0 → r.numComputedTokens + c = r.numTokens + d
  clamped : d ≠ 0 → r.numComputedTokens + c + 1 ≤ cfg.scheduler.maxModelLen
  limit : cfg.policy = .gambit → r.promptTokenIds.length < cfg.scheduler.maxModelLen →
    r.numComputedTokens + c + 1 ≤ cfg.scheduler.maxModelLen

/-- Requests with the same trace have the same number of tokens. -/
lemma SameTrace.numTokens (h : r.SameTrace r') : r'.numTokens = r.numTokens := by
  rw [Request.numTokens, Request.numTokens, h.allTokenIds]

/-- Whether a request fits depends on its prompt and its parameters only. -/
lemma Fits.of_eq (h : r.Fits cfg) (hp : r'.promptTokenIds = r.promptTokenIds)
    (hs : r'.samplingParams = r.samplingParams) : r'.Fits cfg := by
  refine ⟨?_, ?_, ?_, ?_⟩
  · rw [hp]
    exact h.prompt_ne
  · rw [hp]
    exact h.prompt_le
  · rw [Request.maxTokens, hp, hs]
    exact h.min_le
  · rw [hp, hs]
    exact h.room

/-- A request with the same trace fits as well. -/
lemma Fits.congr (h : r.Fits cfg) (ht : r.SameTrace r') : r'.Fits cfg :=
  h.of_eq ht.promptTokenIds ht.samplingParams

/-- Only the trace, the status and the computed tokens matter. -/
lemma Sane.congr (h : r.Sane cfg) (ht : r.SameTrace r') (hs : r'.status = r.status)
    (hc : r'.numComputedTokens = r.numComputedTokens) : r'.Sane cfg := by
  refine ⟨h.fits.congr ht, ?_, ?_, ?_, ?_, ?_, ?_⟩
  · rw [ht.numTokens]
    exact h.tokens
  · rw [Request.numOutputTokens, Request.maxTokens, ht.outputTokenIds, ht.samplingParams,
      ht.promptTokenIds]
    exact h.output
  · rw [hc]
    exact h.nonneg
  · rw [hc, ht.numTokens]
    exact h.behind
  · rw [hs, hc]
    exact h.idle
  · rw [hs, ht.outputTokenIds]
    exact h.unstarted

/-- Only the trace and the computed tokens matter. -/
lemma Granted.congr {c : Int} {d : Nat} (h : r.Granted cfg c d) (ht : r.SameTrace r')
    (hc : r'.numComputedTokens = r.numComputedTokens) : r'.Granted cfg c d := by
  refine ⟨h.pos, ?_, ?_, ?_, ?_⟩
  · rw [hc, ht.numTokens]
    exact h.reach
  · rw [hc, ht.numTokens]
    exact h.drafts
  · rw [hc]
    exact h.clamped
  · rw [hc, ht.promptTokenIds]
    exact h.limit

/-- The tokens of a request. -/
lemma numTokens_eq (r : Request) :
    r.numTokens = r.promptTokenIds.length + r.outputTokenIds.length := by
  rw [Request.numTokens, Request.allTokenIds, List.length_append]

/-- A request that fits has a token. -/
lemma Fits.numTokens_pos (h : r.Fits cfg) : 1 ≤ r.numTokens := by
  have := List.length_pos_of_ne_nil h.prompt_ne
  rw [numTokens_eq]
  omega

/-- A preempted request is sane, outside GAMBIT. -/
lemma Sane.preempted (h : r.Sane cfg) (hg : cfg.policy ≠ .gambit) : r.preempted.Sane cfg := by
  have hpos := h.fits.numTokens_pos
  refine ⟨h.fits.congr ⟨rfl, rfl, rfl, rfl, rfl, rfl, rfl, rfl⟩, h.tokens, h.output, Int.le_refl 0, ?_,
    fun _ => rfl, fun _ he => absurd he hg⟩
  change (0 : Int) + 1 ≤ (r.numTokens : Int)
  omega

end Request

namespace Pass
variable {μ β : Type} {ops : Caches μ β} {cfg : VllmConfig} {blocks entries : μ → ReqId → Prop}
variable {p p' : Pass μ β} {rid : ReqId} {r : Request}

/-- A positive number stays positive under the prefill cap. -/
lemma capPrefill_pos (cfg : VllmConfig) {n : Int} (h : 1 ≤ n) : 1 ≤ capPrefill cfg n := by
  unfold capPrefill
  split
  · omega
  · exact h

/-- The new tokens of a sane running request: not negative, within the budget, at most what is left
with the drafts, and within the clamp. -/
lemma numNewRunning_bounds (h : r.Sane cfg) {budget : Int} (hb : 0 ≤ budget) :
    0 ≤ numNewRunning cfg r budget ∧ numNewRunning cfg r budget ≤ budget ∧
      r.numComputedTokens + numNewRunning cfg r budget ≤ r.numTokensWithSpec ∧
      r.numComputedTokens + numNewRunning cfg r budget + 1 ≤ cfg.scheduler.maxModelLen := by
  have hcap := capPrefill_le cfg (r.numTokensWithSpec - r.numComputedTokens)
  have hbehind := h.behind
  have htok := h.tokens
  have hout := h.output
  have hlen := r.numTokens_eq
  have hspec : r.numTokensWithSpec = r.numTokens + r.specTokenIds.length := rfl
  have hpos : 1 ≤ capPrefill cfg (r.numTokensWithSpec - r.numComputedTokens) :=
    capPrefill_pos cfg (by omega)
  rw [Request.numOutputTokens] at hout
  unfold numNewRunning
  dsimp only
  generalize capPrefill cfg (r.numTokensWithSpec - r.numComputedTokens) = n at hcap hpos ⊢
  refine ⟨?_, ?_, ?_, ?_⟩ <;> omega

/-- What the encoder look-up leaves of the new tokens. -/
lemma EncoderLeaves.bounds {computed n numNew : Int} (laws : ops.Laws blocks entries)
    (h : EncoderLeaves ops r computed n numNew) (hn : 0 ≤ n) : 0 ≤ numNew ∧ numNew ≤ n := by
  unfold EncoderLeaves at h
  split at h
  · obtain ⟨m, budget, rfl⟩ := h
    exact laws.encoder m r computed n budget hn
  · subst h
    exact ⟨hn, Int.le_refl _⟩

/-- The requests a pass admits. -/
def admitted (p : Pass μ β) : List ReqId := p.scheduledNewReqs ++ p.scheduledResumedReqs

/-- The drafts scheduled for a request. -/
def draftsOf (p : Pass μ β) (rid : ReqId) : List Token := p.scheduledSpecDecodeTokens.getD rid []

/-- The invariant of a pass; `done` are the requests whose prefill was done before it. -/
structure Grants (cfg : VllmConfig) (done : ReqId → Prop) (p : Pass μ β) : Prop where
  budget : 0 ≤ p.tokenBudget
  total : p.tokenBudget + p.numScheduledTokens.values.sum = cfg.scheduler.maxNumBatchedTokens
  length : p.sched.running.length ≤ cfg.scheduler.maxNumSeqs
  sane : ∀ x r, p.sched.requests.get? x = some r → r.Sane cfg
  pos : ∀ x c, p.numScheduledTokens.get? x = some c → 1 ≤ c
  granted : ∀ x c r, p.numScheduledTokens.get? x = some c → p.sched.requests.get? x = some r →
    r.Granted cfg c (p.draftsOf x).length
  drafts : ∀ x, x ∉ p.numScheduledTokens → p.draftsOf x = []
  done : ∀ x r, done x → x ∉ p.admitted → p.sched.requests.get? x = some r → r.status = .running →
    r.numComputedTokens + 1 = r.numTokens

variable {done : ReqId → Prop}

/-- Caches and queues do not matter, except for the length of the running queue. -/
lemma Grants.congr (h : p.Grants cfg done) (hb : p'.tokenBudget = p.tokenBudget)
    (hn : p'.numScheduledTokens = p.numScheduledTokens)
    (hl : p'.sched.running.length ≤ p.sched.running.length)
    (hr : ∀ x r, p'.sched.requests.get? x = some r → p.sched.requests.get? x = some r)
    (hd : p'.scheduledSpecDecodeTokens = p.scheduledSpecDecodeTokens) (ha : p'.admitted = p.admitted) :
    p'.Grants cfg done := by
  refine ⟨hb ▸ h.budget, by rw [hb, hn]; exact h.total, hl.trans h.length,
    fun x r hx => h.sane x r (hr x r hx), hn ▸ h.pos, fun x c r hc hx => ?_, fun x hx => ?_,
    fun x r hdone hx hget => ?_⟩
  · rw [draftsOf, hd]
    exact h.granted x c r (hn ▸ hc) (hr x r hx)
  · rw [draftsOf, hd]
    exact h.drafts x (hn ▸ hx)
  · exact h.done x r hdone (ha ▸ hx) (hr x r hget)

/-- Other caches do not matter. -/
lemma Grants.setCaches (h : p.Grants cfg done) (m : μ) : (p.setCaches m).Grants cfg done :=
  h.congr rfl rfl (Nat.le_refl _) (fun _ _ hx => hx) rfl rfl

/-- Recorded encoder inputs do not matter. -/
lemma Grants.scheduleEncoder (h : p.Grants cfg done) (r : Request) (inputs : List Nat) (b : Int) :
    (p.scheduleEncoder ops r inputs b).Grants cfg done := by
  unfold Pass.scheduleEncoder
  split
  · exact h
  · exact h.congr rfl rfl (Nat.le_refl _) (fun _ _ hx => hx) rfl rfl

/-- What is scheduled for a victim is taken back. -/
lemma Grants.unschedule {victim : ReqId} (h : p.Grants cfg done) (hm : victim ∈ p.numScheduledTokens) :
    (p.unschedule victim).Grants cfg done ∧ p.tokenBudget ≤ (p.unschedule victim).tokenBudget := by
  obtain ⟨c, hc⟩ := Dict.mem_iff_get?.1 hm
  have hpos := h.pos victim c hc
  have hbud : (p.unschedule victim).tokenBudget = p.tokenBudget + c := by
    unfold Pass.unschedule
    dsimp only
    rw [Dict.getD_eq, hc, Option.getD_some]
  have hnum : (p.unschedule victim).numScheduledTokens = p.numScheduledTokens.erase victim := rfl
  have hother : ∀ x, x ≠ victim → (p.unschedule victim).draftsOf x = p.draftsOf x := by
    intro x hx
    change (p.scheduledSpecDecodeTokens.erase victim).getD x [] = _
    rw [Dict.getD_eq, Dict.get?_erase, if_neg hx]
    rfl
  have hback : ∀ x c', (p.unschedule victim).numScheduledTokens.get? x = some c' →
      x ≠ victim ∧ p.numScheduledTokens.get? x = some c' := by
    intro x c' hx
    rw [hnum, Dict.get?_erase] at hx
    split at hx
    · cases hx
    · next hne => exact ⟨hne, hx⟩
  have hb := h.budget
  refine ⟨⟨?_, ?_, h.length, h.sane, fun x c' hx => h.pos x c' (hback x c' hx).2,
    fun x c' r hx hr => ?_, fun x hx => ?_, h.done⟩, ?_⟩
  · rw [hbud]
    omega
  · have hsum := Dict.sum_values_erase hc
    have htot := h.total
    rw [hbud, hnum]
    omega
  · obtain ⟨hne, hx⟩ := hback x c' hx
    rw [hother x hne]
    exact h.granted x c' r hx hr
  · by_cases he : x = victim
    · subst he
      change (p.scheduledSpecDecodeTokens.erase x).getD x [] = []
      rw [Dict.getD_eq, Dict.get?_erase, if_pos rfl]
      rfl
    · rw [hother x he]
      refine h.drafts x fun hm => hx ?_
      rw [hnum, Dict.mem_erase]
      exact ⟨he, hm⟩
  · rw [hbud]
    omega

/-- A preemption. -/
lemma Grants.preempt {victim : ReqId} {run : List ReqId} (h : p.Grants cfg done)
    (hg : cfg.policy ≠ .gambit) (hrun : p.sched.running.Perm (victim :: run))
    (hn : victim ∉ p.numScheduledTokens) :
    (({ p with sched := { p.sched with running := run } } : Pass μ β).preempt ops cfg victim).Grants
      cfg done := by
  obtain ⟨h1, h2, -, h4⟩ := preempt_frame ops cfg
    ({ p with sched := { p.sched with running := run } } : Pass μ β) victim
  have back : ∀ x r', (({ p with sched := { p.sched with running := run } } : Pass μ β).preempt ops cfg
      victim).sched.requests.get? x = some r' →
      (x ≠ victim ∧ p.sched.requests.get? x = some r') ∨
        (x = victim ∧ ∃ r, p.sched.requests.get? x = some r ∧ r' = r.preempted) := by
    intro x r' hx
    rw [h4] at hx
    split at hx
    · next he =>
      obtain ⟨r, hr, rfl⟩ := Option.map_eq_some_iff.1 hx
      exact .inr ⟨he, r, hr, rfl⟩
    · next he => exact .inl ⟨he, hx⟩
  refine ⟨h.budget, ?_, ?_, fun x r' hx => ?_, ?_, fun x c r' hc hx => ?_, fun x hx => ?_,
    fun x r' hdone ha hx hs => ?_⟩
  · rw [h2]
    exact h.total
  · rw [h1]
    have hlen := h.length
    rw [hrun.length_eq, List.length_cons] at hlen
    exact (Nat.le_succ _).trans hlen
  · rcases back x r' hx with ⟨-, hr⟩ | ⟨-, r, hr, rfl⟩
    · exact h.sane x r' hr
    · exact (h.sane x r hr).preempted hg
  · rw [h2]
    exact h.pos
  · rw [h2] at hc
    rcases back x r' hx with ⟨-, hr⟩ | ⟨rfl, -⟩
    · exact h.granted x c r' hc hr
    · exact absurd (Dict.mem_of_get? hc) hn
  · rw [h2] at hx
    exact h.drafts x hx
  · rcases back x r' hx with ⟨-, hr⟩ | ⟨-, r, -, rfl⟩
    · exact h.done x r' hdone ha hr hs
    · cases hs

/-- Making room keeps the invariant and does not lower the budget. -/
lemma Room.grants (hroom : Room ops cfg p p') (h : p.Grants cfg done) :
    p'.Grants cfg done ∧ p.tokenBudget ≤ p'.tokenBudget := by
  cases hroom with
  | refuse _ => exact ⟨h.setCaches _, Int.le_refl _⟩
  | @evict victim r _ hl hr hid hn =>
    have hs : (p.sched.stopLowestRunning ops).2.running = p.sched.running.dropLast ∧
        (p.sched.stopLowestRunning ops).2.requests = p.sched.requests.erase victim := by
      unfold Scheduler.stopLowestRunning
      rw [hl]
      dsimp only
      rw [hr]
      dsimp only [Scheduler.freeRequest]
      rw [hid]
      exact ⟨rfl, rfl⟩
    refine ⟨h.congr rfl rfl ?_ (fun x rx hx => ?_) rfl rfl, Int.le_refl _⟩
    · dsimp only
      rw [hs.1]
      exact (List.dropLast_sublist _).length_le
    · dsimp only at hx
      rw [hs.2, Dict.get?_erase] at hx
      split at hx
      · cases hx
      · exact hx
  | @preempt q victim run r hg hrun hr _ hq =>
    rcases hq with ⟨rfl, hn⟩ | ⟨rfl, hm⟩
    · exact ⟨h.preempt hg hrun hn, Int.le_refl _⟩
    · obtain ⟨h1, h2⟩ := h.unschedule hm
      have hn : victim ∉ (p.unschedule victim).numScheduledTokens :=
        fun hx => (Dict.mem_erase.1 hx).1 rfl
      exact ⟨h1.preempt hg hrun hn, h2⟩

/-- Making room repeatedly. -/
lemma Room.grants_of_rooms (hrooms : Relation.ReflTransGen (Room ops cfg) p p')
    (h : p.Grants cfg done) : p'.Grants cfg done ∧ p.tokenBudget ≤ p'.tokenBudget := by
  induction hrooms with
  | refl => exact ⟨h, Int.le_refl _⟩
  | tail _ hs ih =>
    obtain ⟨h1, h2⟩ := hs.grants ih.1
    exact ⟨h1, ih.2.trans h2⟩

/-- The drafts of a running request that was given tokens. -/
lemma draftsOf_scheduleSpec (p : Pass μ β) (rid : ReqId) (r : Request) (numNew : Int) :
    (∀ x, x ≠ rid → (p.scheduleSpec rid r numNew).draftsOf x = p.draftsOf x) ∧
    (p.draftsOf rid = [] → numNew + r.numComputedTokens ≤ r.numTokensWithSpec →
      ((p.scheduleSpec rid r numNew).draftsOf rid).length =
        (numNew + r.numComputedTokens - r.numTokens).toNat) := by
  have hspec : r.numTokensWithSpec = r.numTokens + r.specTokenIds.length := rfl
  unfold Pass.scheduleSpec
  dsimp only
  split_ifs with h1 h2
  · refine ⟨fun x _ => rfl, fun h0 hle => ?_⟩
    rw [h0, List.length_nil]
    rw [List.isEmpty_iff.1 h1, List.length_nil] at hspec
    omega
  · refine ⟨fun x hx => ?_, fun _ hle => ?_⟩
    · rw [draftsOf, Dict.getD_eq, Dict.get?_set, if_neg hx]
      rfl
    · rw [draftsOf, Dict.getD_eq, Dict.get?_set, if_pos rfl, Option.getD_some, List.length_take]
      omega
  · refine ⟨fun x _ => rfl, fun h0 _ => ?_⟩
    have hnil : (p.draftsOf rid).length = (numNew + r.numComputedTokens - r.numTokens).toNat := by
      rw [h0, List.length_nil]
      omega
    exact hnil

/-- Giving a running request its tokens. -/
lemma Grants.runRequest {m : μ} {numNew budget : Int} {b : β} {inputs : List Nat}
    (h : p.Grants cfg done) (hr : p.sched.requests.get? rid = some r) (hn : rid ∉ p.numScheduledTokens)
    (hpos : 1 ≤ numNew) (hb : numNew ≤ p.tokenBudget)
    (hspec : r.numComputedTokens + numNew ≤ r.numTokensWithSpec)
    (hlim : r.numComputedTokens + numNew + 1 ≤ cfg.scheduler.maxModelLen) :
    (p.runRequest ops m rid r numNew b inputs budget).Grants cfg done := by
  obtain ⟨h1, h2, -, h4, h5⟩ := runRequest_frame ops p m rid r numNew b inputs budget
  obtain ⟨d1, d2⟩ := draftsOf_scheduleSpec ((p.setCaches m).scheduleRunning rid numNew b) rid r numNew
  have hdr : ∀ x, (p.runRequest ops m rid r numNew b inputs budget).draftsOf x =
      (((p.setCaches m).scheduleRunning rid numNew b).scheduleSpec rid r numNew).draftsOf x := by
    intro x
    unfold Pass.runRequest Pass.scheduleEncoder
    split <;> rfl
  have hadm : (p.runRequest ops m rid r numNew b inputs budget).admitted = p.admitted := by
    unfold Pass.runRequest Pass.scheduleEncoder Pass.scheduleSpec
    dsimp only
    split_ifs <;> rfl
  have hlen := d2 (h.drafts rid hn) (by omega)
  -- a request of the new store is one of the old store without its drafts
  have back : ∀ x r', (p.runRequest ops m rid r numNew b inputs budget).sched.requests.get? x = some r' →
      ∃ r0, p.sched.requests.get? x = some r0 ∧ r0.SameTrace r' ∧ r'.status = r0.status ∧
        r'.numComputedTokens = r0.numComputedTokens := by
    intro x r' hx
    rw [h5] at hx
    split at hx
    · obtain ⟨r0, hr0, rfl⟩ := Option.map_eq_some_iff.1 hx
      exact ⟨r0, hr0, ⟨rfl, rfl, rfl, rfl, rfl, rfl, rfl, rfl⟩, rfl, rfl⟩
    · exact ⟨r', hx, .refl r', rfl, rfl⟩
  have hgr : r.Granted cfg numNew
      (((p.setCaches m).scheduleRunning rid numNew b).scheduleSpec rid r numNew |>.draftsOf rid).length := by
    have hbehind := (h.sane rid r hr).behind
    refine ⟨hpos, ?_, ?_, fun _ => hlim, fun _ _ => hlim⟩
    · rw [hlen]
      omega
    · rw [hlen]
      omega
  refine ⟨?_, ?_, ?_, fun x r' hx => ?_, fun x c hx => ?_, fun x c r' hc hx => ?_, fun x hx => ?_,
    fun x r' hdone ha hx hs => ?_⟩
  · rw [h4]
    omega
  · have htot := h.total
    rw [h4, h2, Dict.sum_values_set_of_not_mem numNew hn]
    omega
  · rw [h1]
    exact h.length
  · obtain ⟨r0, hr0, ht, hs, hc⟩ := back x r' hx
    exact (h.sane x r0 hr0).congr ht hs hc
  · rw [h2, Dict.get?_set] at hx
    split at hx
    · cases hx
      exact hpos
    · exact h.pos x c hx
  · obtain ⟨r0, hr0, ht, -, hcomp⟩ := back x r' hx
    rw [h2, Dict.get?_set] at hc
    rw [hdr]
    split at hc
    · next he =>
      cases hc
      subst he
      rw [hr] at hr0
      cases hr0
      exact hgr.congr ht hcomp
    · next hne =>
      rw [d1 x hne]
      exact (h.granted x c r0 hc hr0).congr ht hcomp
  · rw [h2, Dict.mem_set, not_or] at hx
    rw [hdr, d1 x hx.1]
    exact h.drafts x hx.2
  · obtain ⟨r0, hr0, ht, hst, hcomp⟩ := back x r' hx
    rw [hadm] at ha
    rw [hst] at hs
    rw [hcomp, ht.numTokens]
    exact h.done x r0 hdone ha hr0 hs

/-- Admitting a waiting request. -/
lemma Grants.admitRequest {computed numNew : Int} (h : p.Grants cfg done)
    (hr : p.sched.requests.get? rid = some r) (hs : r.status ≠ .running)
    (hn : rid ∉ p.numScheduledTokens) (hlen : p.sched.running.length ≠ cfg.scheduler.maxNumSeqs)
    (hpos : 1 ≤ numNew) (hb : numNew ≤ p.tokenBudget) (hc0 : 0 ≤ computed)
    (hc : computed + numNew ≤ r.numTokens) :
    (p.admitRequest ops rid r computed numNew).Grants cfg done := by
  have hsane := h.sane rid r hr
  have hadm : rid ∈ (p.admitRequest ops rid r computed numNew).admitted ∧
      ∀ x, x ∈ p.admitted → x ∈ (p.admitRequest ops rid r computed numNew).admitted := by
    unfold Pass.admitted Pass.admitRequest
    dsimp only
    split_ifs
    · simp only [List.mem_append, List.mem_singleton]
      exact ⟨by tauto, fun x hx => by tauto⟩
    · simp only [List.mem_append, List.mem_singleton]
      exact ⟨by tauto, fun x hx => by tauto⟩
  have hdr : ∀ x, (p.admitRequest ops rid r computed numNew).draftsOf x = p.draftsOf x := fun x => rfl
  -- the request as it is admitted
  generalize hr1 : ({ r with
    status := .running
    numComputedTokens := computed
    numCachedTokens := if r.numCachedTokens < 0 then computed else r.numCachedTokens } : Request) = r1
  have ht : r.SameTrace r1 := by
    rw [← hr1]
    exact ⟨rfl, rfl, rfl, rfl, rfl, rfl, rfl, rfl⟩
  have hst : r1.status = .running := by rw [← hr1]
  have hco : r1.numComputedTokens = computed := by rw [← hr1]
  have hreq : ∀ x, (p.admitRequest ops rid r computed numNew).sched.requests.get? x =
      if x = rid then some r1 else p.sched.requests.get? x := by
    intro x
    rw [← hr1]
    exact Dict.get?_set ..
  have hs1 : r1.Sane cfg := by
    refine ⟨hsane.fits.congr ht, ?_, ?_, ?_, ?_, fun he => absurd hst he, fun he => absurd hst he⟩
    · rw [ht.numTokens]
      exact hsane.tokens
    · rw [Request.numOutputTokens, Request.maxTokens, ht.outputTokenIds, ht.samplingParams,
      ht.promptTokenIds]
      exact hsane.output
    · rw [hco]
      exact hc0
    · rw [hco, ht.numTokens]
      omega
  have hg1 : r1.Granted cfg numNew (p.draftsOf rid).length := by
    rw [h.drafts rid hn]
    refine ⟨hpos, ?_, fun he => absurd rfl he, fun he => absurd rfl he, fun hg hl => ?_⟩
    · rw [hco, ht.numTokens]
      simpa using hc
    · have hlen := r.numTokens_eq
      rw [hsane.unstarted hs hg, List.length_nil] at hlen
      rw [ht.promptTokenIds] at hl
      rw [hco]
      omega
  have hbud : (p.admitRequest ops rid r computed numNew).tokenBudget = p.tokenBudget - numNew := rfl
  have hnum : (p.admitRequest ops rid r computed numNew).numScheduledTokens =
      p.numScheduledTokens.set rid numNew := rfl
  refine ⟨?_, ?_, ?_, fun x r' hx => ?_, fun x c hx => ?_, fun x c r' hcx hx => ?_, fun x hx => ?_,
    fun x r' hdone ha hx hs' => ?_⟩
  · rw [hbud]
    omega
  · have htot := h.total
    rw [hbud, hnum, Dict.sum_values_set_of_not_mem numNew hn]
    omega
  · have hle := h.length
    change (p.sched.running ++ [rid]).length ≤ _
    rw [List.length_append, List.length_singleton]
    omega
  · rw [hreq] at hx
    split at hx
    · cases hx
      exact hs1
    · exact h.sane x r' hx
  · rw [hnum, Dict.get?_set] at hx
    split at hx
    · cases hx
      exact hpos
    · exact h.pos x c hx
  · rw [hnum, Dict.get?_set] at hcx
    rw [hreq] at hx
    rw [hdr]
    split at hcx
    · next he =>
      rw [if_pos he] at hx
      cases hcx
      cases hx
      rw [he]
      exact hg1
    · next he =>
      rw [if_neg he] at hx
      exact h.granted x c r' hcx hx
  · rw [hnum, Dict.mem_set, not_or] at hx
    rw [hdr]
    exact h.drafts x hx.2
  · rw [hreq] at hx
    split at hx
    · next he => exact absurd (he ▸ hadm.1) ha
    · exact h.done x r' hdone (fun hm => ha (hadm.2 x hm)) hx hs'

/-- Every change of a pass keeps the invariant. -/
lemma Step.grants (laws : ops.Laws blocks entries) (hstep : Step ops cfg p p')
    (h : p.Grants cfg done) : p'.Grants cfg done := by
  cases hstep with
  | encoder _ => exact h.setCaches _
  | room hroom => exact (hroom.grants h).1
  | @run q m rid r numNew b inputs budget hr hleaves hne hrooms _ hrq hn _ =>
    obtain ⟨hq, hbud⟩ := Room.grants_of_rooms hrooms h
    obtain ⟨b1, b2, b3, b4⟩ := numNewRunning_bounds (h.sane rid r hr) h.budget
    obtain ⟨l1, l2⟩ := hleaves.bounds laws b1
    exact hq.runRequest hrq hn (by omega) (by omega) (by omega) (by omega)
  | @ready rid r hr hs =>
    have ht : r.SameTrace r.leaveFsm ∧ r.leaveFsm.numComputedTokens = r.numComputedTokens ∧
        r.leaveFsm.status ≠ .running := by
      unfold Request.leaveFsm
      split
      · exact ⟨⟨rfl, rfl, rfl, rfl, rfl, rfl, rfl, rfl⟩, rfl, nofun⟩
      · exact ⟨.refl r, rfl, hs⟩
    have back : ∀ x r', (p.sched.requests.set rid r.leaveFsm).get? x = some r' →
        ∃ r0, p.sched.requests.get? x = some r0 ∧ r0.SameTrace r' ∧
          r'.numComputedTokens = r0.numComputedTokens ∧
          (r'.status = r0.status ∨ r0.status ≠ .running ∧ r'.status ≠ .running) := by
      intro x r' hx
      rw [Dict.get?_set] at hx
      split at hx
      · next he =>
        cases hx
        subst he
        exact ⟨r, hr, ht.1, ht.2.1, .inr ⟨hs, ht.2.2⟩⟩
      · exact ⟨r', hx, .refl r', rfl, .inl rfl⟩
    refine ⟨h.budget, h.total, h.length, fun x r' hx => ?_, h.pos, fun x c r' hc hx => ?_, h.drafts,
      fun x r' hdone ha hx hs' => ?_⟩
    · obtain ⟨r0, hr0, ht0, hc, hst⟩ := back x r' hx
      have hsane := h.sane x r0 hr0
      rcases hst with hst | ⟨hst, -⟩
      · exact hsane.congr ht0 hst hc
      · refine ⟨hsane.fits.congr ht0, ?_, ?_, ?_, ?_, fun _ => ?_, fun _ hg => ?_⟩
        · rw [ht0.numTokens]
          exact hsane.tokens
        · rw [Request.numOutputTokens, Request.maxTokens, ht0.outputTokenIds, ht0.samplingParams,
            ht0.promptTokenIds]
          exact hsane.output
        · rw [hc]
          exact hsane.nonneg
        · rw [hc, ht0.numTokens]
          exact hsane.behind
        · rw [hc]
          exact hsane.idle hst
        · rw [ht0.outputTokenIds]
          exact hsane.unstarted hst hg
    · obtain ⟨r0, hr0, ht0, hcomp, -⟩ := back x r' hx
      exact (h.granted x c r0 hc hr0).congr ht0 hcomp
    · obtain ⟨r0, hr0, ht0, hcomp, hst⟩ := back x r' hx
      rcases hst with hst | ⟨-, hst⟩
      · rw [hst] at hs'
        rw [hcomp, ht0.numTokens]
        exact h.done x r0 hdone ha hr0 hs'
      · exact absurd hs' hst
  | refuse _ => exact h.setCaches _
  | @admitted m₀ m rid r numNew cached b computed lookahead encoderTokens b' inputs budget hr hs _ hn hb hlen
      hcached hcomp hleaves hne _ =>
    have hsane := h.sane rid r hr
    have h0 := hsane.idle hs
    have hpos := hsane.fits.numTokens_pos
    have hcache := laws.computed m₀ r
    rw [← hcached h0] at hcache
    rw [if_pos h0] at hcomp
    have hleft : (1 : Int) ≤ r.numTokens - computed := by omega
    have hcap := capPrefill_pos cfg hleft
    have hle := capPrefill_le cfg (r.numTokens - computed)
    generalize capPrefill cfg (r.numTokens - computed) = n at hleaves hcap hle
    obtain ⟨l1, l2⟩ := hleaves.bounds laws (by omega)
    have hnew : numNew ≠ 0 := by
      by_cases he : r.hasEncoderInputs
      · exact hne he
      · unfold EncoderLeaves at hleaves
        rw [if_neg he] at hleaves
        omega
    refine Grants.scheduleEncoder ?_ r inputs budget
    exact (h.setCaches m).admitRequest hr hs hn hlen (by omega) (by simp only [Pass.setCaches]; omega) (by omega) (by omega)

end Pass

namespace Scheduler
variable {μ β : Type} {ops : Caches μ β} {cfg : VllmConfig} {blocks entries : μ → ReqId → Prop}
variable {s : Scheduler μ}

/-- A live request in a state where the batch `so` is being executed: not scheduled, or a sane request
advanced by what it was granted. `done` says that its prefill was done before. -/
inductive InFlight (cfg : VllmConfig) (so : SchedulerOutput β) (done : Prop) (rid : ReqId) (r : Request) :
    Prop where
  | idle :
    rid ∉ so.numScheduledTokens →
    r.Sane cfg →
    (done → r.status = .running → r.numComputedTokens + 1 = r.numTokens) →
    InFlight cfg so done rid r
  | scheduled {r₀ : Request} {c : Int} :
    so.numScheduledTokens.get? rid = some c →
    r₀.Sane cfg →
    r₀.Granted cfg c (so.scheduledSpecDecodeTokens.getD rid []).length →
    (done → r₀.numComputedTokens + 1 = r₀.numTokens) →
    r₀.SameTrace r →
    r₀.status = .running →
    r.status = .running →
    r.numComputedTokens = r₀.numComputedTokens + c →
    InFlight cfg so done rid r

/-- Labels do not matter. -/
lemma InFlight.congr {so : SchedulerOutput β} {p : Prop} {rid : ReqId} {r r' : Request}
    (h : InFlight cfg so p rid r) (ht : r.SameTrace r') (hs : r'.status = r.status)
    (hc : r'.numComputedTokens = r.numComputedTokens) : InFlight cfg so p rid r' := by
  cases h with
  | idle hn hsane hdone =>
    refine .idle hn (hsane.congr ht hs hc) fun hp hrun => ?_
    rw [hc, ht.numTokens]
    exact hdone hp (hs.symm.trans hrun)
  | scheduled hn hsane hg hdone ht0 h1 h2 h3 =>
    exact .scheduled hn hsane hg hdone (ht0.trans ht) h1 (hs.trans h2) (hc.trans h3)

/-- `_update_after_schedule` does not touch the running queue. -/
lemma foldl_advance_running (ops : Caches μ β) (l : List (ReqId × Int)) (s : Scheduler μ) :
    (l.foldl (Scheduler.advance ops) s).running = s.running := by
  induction l generalizing s with
  | nil => rfl
  | cons e l ih => rw [List.foldl_cons, ih, (advance_frame ops s e).1]

/-- The pass a schedule starts with. -/
lemma startPass_grants {done : ReqId → Prop} (hmax : 0 ≤ cfg.scheduler.maxNumBatchedTokens)
    (hlen : s.running.length ≤ cfg.scheduler.maxNumSeqs)
    (hsane : ∀ x r, s.requests.get? x = some r → r.Sane cfg)
    (hdone : ∀ x r, done x → s.requests.get? x = some r → r.status = .running →
      r.numComputedTokens + 1 = r.numTokens) : (s.startPass (β := β) cfg).Grants cfg done := by
  have hreq : (s.startPass (β := β) cfg).sched.requests = s.requests := by
    unfold Scheduler.startPass
    dsimp only
    split <;> rfl
  have hrun : (s.startPass (β := β) cfg).sched.running.length = s.running.length := by
    unfold Scheduler.startPass
    dsimp only
    split
    · exact (List.perm_insertionSort s.scoreLE s.running).length_eq
    · rfl
  have hnum : (s.startPass (β := β) cfg).numScheduledTokens = ∅ := rfl
  have hbud : (s.startPass (β := β) cfg).tokenBudget = cfg.scheduler.maxNumBatchedTokens := rfl
  refine ⟨hmax, ?_, ?_, ?_, fun x c hc => ?_, fun x c r hc => ?_, fun x _ => rfl,
    fun x r hd _ hr => ?_⟩
  · rw [hnum, hbud, Dict.values_empty, List.sum_nil, Int.add_zero]
  · rw [hrun]
    exact hlen
  · rw [hreq]
    exact hsane
  · rw [hnum, Dict.get?_empty] at hc
    cases hc
  · rw [hnum, Dict.get?_empty] at hc
    cases hc
  · rw [hreq] at hr
    exact hdone x r hd hr

/-- What `schedule` does to sane requests: it grants positive numbers of tokens within the budget. -/
theorem WF.schedule_grants (laws : ops.Laws blocks entries) (ready : ReqId → Bool)
    (done : ReqId → Prop) (h : s.WF)
    (hmax : 0 ≤ cfg.scheduler.maxNumBatchedTokens) (hlen : s.running.length ≤ cfg.scheduler.maxNumSeqs)
    (hsane : ∀ x r, s.requests.get? x = some r → r.Sane cfg)
    (hdone : ∀ x r, done x → s.requests.get? x = some r → r.status = .running →
      r.numComputedTokens + 1 = r.numTokens) :
    (s.schedule ops cfg ready).1.running.length ≤ cfg.scheduler.maxNumSeqs ∧
    (∀ c ∈ (s.schedule ops cfg ready).2.numScheduledTokens.values, 1 ≤ c) ∧
    (s.schedule ops cfg ready).2.numScheduledTokens.values.sum ≤ cfg.scheduler.maxNumBatchedTokens ∧
    ∀ x r, (s.schedule ops cfg ready).1.requests.get? x = some r →
      InFlight cfg (s.schedule ops cfg ready).2
        (done x ∧ x ∉ (s.schedule ops cfg ready).2.scheduledNewReqs ++
          (s.schedule ops cfg ready).2.scheduledResumedReqs) x r := by
  obtain ⟨p, queue, hsteps, hsr, hpass⟩ := h.schedulePass_steps ops cfg ready
  have hstart : (s.startPass (β := β) cfg).Grants cfg done := startPass_grants hmax hlen hsane hdone
  have hp : p.Grants cfg done := 
    hsteps.keep (P := Pass.Grants cfg done) (fun hs hq => hs.grants laws hq) hstart
  have hinv : (s.schedulePass ops cfg ready).InvW ops cfg s := h.schedulePass ready
  have hadv := foldl_advance ops (s.schedulePass ops cfg ready).numScheduledTokens.entries
    (s.schedulePass ops cfg ready).numScheduledTokens.nodup hinv.wf
  have hrunning := foldl_advance_running ops (s.schedulePass ops cfg ready).numScheduledTokens.entries
    (s.schedulePass ops cfg ready).sched
  have hstat : ∀ x r, (s.schedulePass ops cfg ready).sched.requests.get? x = some r →
      (r.status = .running ↔ x ∈ (s.schedulePass ops cfg ready).sched.running) := hinv.wf.status
  unfold Scheduler.schedule
  rw [hpass] at hadv hrunning hstat ⊢
  dsimp only at hadv hrunning hstat ⊢
  obtain ⟨-, hev, hget⟩ := hadv
  refine ⟨?_, fun c hc => ?_, ?_, fun x r hx => ?_⟩
  · unfold updateAfterSchedule
    dsimp only
    rw [hrunning]
    exact hp.length
  · obtain ⟨e, he, rfl⟩ := List.mem_map.1 hc
    exact hp.pos e.1 e.2 (Dict.get?_eq_some.2 he)
  · have htot := hp.total
    have hb := hp.budget
    dsimp only [passOutput]
    omega
  · have hx' : (p.numScheduledTokens.entries.foldl (Scheduler.advance ops)
        { p.sched with waiting := queue }).requests.get? x = some r := hx
    obtain ⟨r0, hr0, -⟩ := hev.back x r hx'
    rcases hget x r0 hr0 with ⟨c, hc, he⟩ | ⟨hc, he⟩
    · rw [hx'] at he
      cases he
      have hc' := Dict.get?_eq_some.2 hc
      have hst := (hstat x r0 hr0).2 (hsr x (Dict.mem_of_get? hc'))
      refine .scheduled hc' (hp.sane x r0 hr0) (hp.granted x c r0 hc' hr0) ?_ ?_ hst hst rfl
      · exact fun hd => hp.done x r0 hd.1 hd.2 hr0 hst
      · exact ⟨rfl, rfl, rfl, rfl, rfl, rfl, rfl, rfl⟩
    · rw [hx'] at he
      cases he
      exact .idle hc (hp.sane x r hr0) fun hd => hp.done x r hd.1 hd.2 hr0

end Scheduler
end Gambit.Sched
