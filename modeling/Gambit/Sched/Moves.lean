import Gambit.Sched.Grants
import Gambit.Sched.Turns

/-!
# The calls of a scheduling pass

A `Step` of a pass says of a call to the cache managers that it is made, and little of its arguments. What
the managers keep depends on the arguments: which requests are offered slots, for how many tokens, and with
which computed blocks. A `Move` is a change of a pass with the arguments as `schedule` computes them.

`WF.schedulePass_keep` is the rule for a whole pass: what every move keeps, `schedule` keeps.
-/

namespace Gambit.Sched
open Gambit.Lib

namespace Pass
variable {μ β : Type}

/-- The running request `rid` in front of `allocate_slots`, with its new tokens. -/
structure Offered (ops : Caches μ β) (cfg : VllmConfig) (p : Pass μ β) (rid : ReqId) (r : Request)
    (numNew : Int) : Prop where
  mem : rid ∈ p.sched.running
  request : p.sched.requests.get? rid = some r
  requestId : r.requestId = rid
  fresh : rid ∉ p.numScheduledTokens
  ne_zero : numNew ≠ 0
  /-- The budget the new tokens were taken from; making room may have raised it since. -/
  leaves : ∃ budget, 0 < budget ∧ budget ≤ p.tokenBudget ∧
    EncoderLeaves ops r r.numComputedTokens (numNewRunning cfg r budget) numNew

/-- The waiting request `rid` in front of `allocate_slots`, at the pass `q` after its encoder look-up. -/
structure Asked (ops : Caches μ β) (cfg : VllmConfig) (p q : Pass μ β) (rid : ReqId) (r : Request)
    (blocks : Option β) (cached lookahead : Nat) (computed numNew : Int) (inputs : List Nat)
    (budget : Int) : Prop where
  request : p.sched.requests.get? rid = some r
  requestId : r.requestId = rid
  status : r.status ≠ .running
  idle : rid ∉ p.sched.running
  fresh : rid ∉ p.numScheduledTokens
  positive : 0 < p.tokenBudget
  length : p.sched.running.length ≠ cfg.scheduler.maxNumSeqs
  found : r.numComputedTokens = 0 → blocks = some (ops.getComputedBlocks p.sched.caches r).1 ∧
    cached = (ops.getComputedBlocks p.sched.caches r).2 ∧ lookahead = 0
  starts : computed = if r.numComputedTokens = 0 then (cached : Int) else r.numComputedTokens
  encoder : p.tryEncoder ops r computed (min (capPrefill cfg (r.numTokens - computed)) p.tokenBudget) =
    (q, inputs, numNew, budget)
  ne_zero : r.hasEncoderInputs → numNew ≠ 0

/-- One change of a pass, with the arguments of its calls. -/
inductive Move (ops : Caches μ β) (cfg : VllmConfig) : Pass μ β → Pass μ β → Prop where
  | look {p rid r computed n} :
    p.sched.requests.get? rid = some r →
    r.requestId = rid →
    Move ops cfg p (p.setCaches (ops.tryScheduleEncoderInputs p.sched.caches r computed n
      p.encoderComputeBudget).1)
  | refuse {p rid r numNew m} :
    Offered ops cfg p rid r numNew →
    ops.allocateSlots p.sched.caches r numNew 0 none cfg.scheduler.numLookaheadTokens 0 = (m, none) →
    Move ops cfg p (p.setCaches m)
  | vacate {p rid idx victim q idx'} :
    At idx p →
    Current cfg idx rid p →
    Vacates ops cfg p idx victim q idx' →
    Move ops cfg p q
  | run {p rid r numNew m blocks inputs budget} :
    Offered ops cfg p rid r numNew →
    ops.allocateSlots p.sched.caches r numNew 0 none cfg.scheduler.numLookaheadTokens 0 =
      (m, some blocks) →
    Move ops cfg p (p.runRequest ops m rid r numNew blocks inputs budget)
  | ready {p rid r} :
    p.sched.requests.get? rid = some r →
    r.status ≠ .running →
    Move ops cfg p { p with sched := { p.sched with requests := p.sched.requests.set rid r.leaveFsm } }
  | decline {p q rid r blocks cached lookahead computed numNew inputs budget encoderTokens m} :
    Asked ops cfg p q rid r blocks cached lookahead computed numNew inputs budget →
    ops.allocateSlots q.sched.caches r numNew cached blocks lookahead encoderTokens = (m, none) →
    Move ops cfg p (q.setCaches m)
  | enter {p q rid r blocks cached lookahead computed numNew inputs budget encoderTokens m b} :
    Asked ops cfg p q rid r blocks cached lookahead computed numNew inputs budget →
    ops.allocateSlots q.sched.caches r numNew cached blocks lookahead encoderTokens = (m, some b) →
    Move ops cfg p
      (((q.setCaches m).admitRequest ops rid r computed numNew).scheduleEncoder ops r inputs budget)

/-- Sequences of moves. -/
abbrev Moves (ops : Caches μ β) (cfg : VllmConfig) : Pass μ β → Pass μ β → Prop :=
  Relation.ReflTransGen (Move ops cfg)

variable {ops : Caches μ β} {cfg : VllmConfig} {blocks entries : μ → ReqId → Prop}
variable {p q p' : Pass μ β} {idx : Nat} {rid : ReqId} {r : Request} {numNew : Int}
variable {done : ReqId → Prop}

/-- What is offered to a sane request: at least one token, within the budget and the clamp. -/
lemma Offered.bounds (laws : ops.Laws blocks entries) (h : Offered ops cfg p rid r numNew)
    (hs : r.Sane cfg) : 1 ≤ numNew ∧ numNew ≤ p.tokenBudget ∧
      r.numComputedTokens + numNew ≤ r.numTokensWithSpec ∧
      r.numComputedTokens + numNew + 1 ≤ cfg.scheduler.maxModelLen := by
  obtain ⟨budget, hpos, hle, hleaves⟩ := h.leaves
  obtain ⟨b1, b2, b3, b4⟩ := numNewRunning_bounds hs (Int.le_of_lt hpos)
  obtain ⟨l1, l2⟩ := hleaves.bounds laws b1
  have hne := h.ne_zero
  exact ⟨by omega, by omega, by omega, by omega⟩

/-- What a waiting request leaves of the pass before its allocation. -/
lemma Asked.leaves {blocks : Option β} {cached lookahead : Nat} {computed budget : Int}
    {inputs : List Nat}
    (h : Asked ops cfg p q rid r blocks cached lookahead computed numNew inputs budget) :
    (∃ m, q = p.setCaches m) ∧ Steps ops cfg p q ∧
      EncoderLeaves ops r computed (min (capPrefill cfg (r.numTokens - computed)) p.tokenBudget)
        numNew := by
  obtain ⟨m, inputs', numNew', budget', heq, hst, hleaves⟩ := tryEncoder_spec ops cfg p h.request computed
    (min (capPrefill cfg (r.numTokens - computed)) p.tokenBudget)
  rw [h.encoder] at heq
  cases heq
  exact ⟨⟨m, rfl⟩, hst, hleaves⟩

/-- What a sane waiting request is asked for: at least one token, behind the computed ones. -/
lemma Asked.bounds {blks : Option β} {cached lookahead : Nat} {computed budget : Int}
    {inputs : List Nat} (laws : ops.Laws blocks entries)
    (h : Asked ops cfg p q rid r blks cached lookahead computed numNew inputs budget)
    (hs : r.Sane cfg) : r.numComputedTokens = 0 ∧ computed = cached ∧ 1 ≤ numNew ∧
      numNew ≤ p.tokenBudget ∧ computed + numNew ≤ r.numTokens := by
  have h0 := hs.idle h.status
  have hpos := hs.fits.numTokens_pos
  have hcache := laws.computed p.sched.caches r
  rw [← (h.found h0).2.1] at hcache
  have hcomp := h.starts
  rw [if_pos h0] at hcomp
  have hbud := h.positive
  have hleft : (1 : Int) ≤ r.numTokens - computed := by omega
  have hcap := capPrefill_pos cfg hleft
  have hle := capPrefill_le cfg (r.numTokens - computed)
  obtain ⟨-, -, hleaves⟩ := h.leaves
  generalize capPrefill cfg (r.numTokens - computed) = n at hleaves hcap hle
  obtain ⟨l1, l2⟩ := hleaves.bounds laws (by omega)
  have hnew : numNew ≠ 0 := by
    by_cases he : r.hasEncoderInputs
    · exact h.ne_zero he
    · unfold EncoderLeaves at hleaves
      rw [if_neg he] at hleaves
      omega
  exact ⟨h0, hcomp, by omega, by omega, by omega⟩

/-- Every move keeps the grants. -/
lemma Move.grants (laws : ops.Laws blocks entries) (hmove : Move ops cfg p p')
    (h : p.Grants cfg done) : p'.Grants cfg done := by
  cases hmove with
  | look hr => exact h.setCaches _
  | refuse => exact h.setCaches _
  | vacate hat hc hv => exact (hv.roomed hat hc).room.grants h |>.1
  | run ho =>
    obtain ⟨b1, b2, b3, b4⟩ := ho.bounds laws (h.sane _ _ ho.request)
    exact h.runRequest ho.request ho.fresh b1 b2 b3 b4
  | ready hr hs => exact (Step.ready hr hs).grants laws h
  | decline ha =>
    obtain ⟨⟨m, rfl⟩, -, -⟩ := ha.leaves
    exact (h.setCaches m).setCaches _
  | @enter q rid r blks cached lookahead computed numNew inputs budget encoderTokens m b ha hal =>
    obtain ⟨⟨m₀, rfl⟩, -, -⟩ := ha.leaves
    obtain ⟨-, hcomp, b1, b2, b3⟩ := ha.bounds laws (h.sane _ _ ha.request)
    refine Grants.scheduleEncoder ?_ r inputs budget
    exact ((h.setCaches m₀).setCaches m).admitRequest ha.request ha.status ha.fresh ha.length b1 b2
      (by omega) b3

/-- What making room does: the victim gives its memory back and runs no longer. -/
structure Vacated (ops : Caches μ β) (p q : Pass μ β) (victim : ReqId) (r : Request) : Prop where
  requestId : r.requestId = victim
  caches : q.sched.caches = ops.freeBlocks (ops.freeEncoder p.sched.caches r) r ∨
    q.sched.caches = ops.freeEncoder (ops.freeBlocks p.sched.caches r) r
  mem : victim ∈ p.sched.running
  running : ∀ x, x ∈ q.sched.running ↔ x ∈ p.sched.running ∧ x ≠ victim
  requests : ∀ x r', q.sched.requests.get? x = some r' → x ≠ victim ∧ p.sched.requests.get? x = some r' ∨
    x = victim ∧ ∃ r, p.sched.requests.get? x = some r ∧ r' = r.preempted
  scheduled : ∀ x, x ≠ victim → q.numScheduledTokens.get? x = p.numScheduledTokens.get? x

/-- A preempted victim. -/
lemma vacated_preempt {p₀ : Pass μ β} {victim : ReqId} {run : List ReqId}
    (hperm : p.sched.running.Perm (victim :: run)) (hnd : p.sched.running.Nodup)
    (hr : p.sched.requests.get? victim = some r) (hid : r.requestId = victim)
    (hsched : p₀.sched = { p.sched with running := run })
    (hnum : ∀ x, x ≠ victim → p₀.numScheduledTokens.get? x = p.numScheduledTokens.get? x) :
    Vacated ops p (p₀.preempt ops cfg victim) victim r := by
  obtain ⟨h₁, h₂, -, h₄⟩ := preempt_frame ops cfg p₀ victim
  have hr₀ : p₀.sched.requests.get? victim = some r := by
    rw [hsched]
    exact hr
  have hnd' : (victim :: run).Nodup := hperm.nodup_iff.1 hnd
  refine ⟨hid, .inr ?_, hperm.mem_iff.2 List.mem_cons_self, fun x => ?_, fun x r' hx => ?_, fun x hx => ?_⟩
  · unfold Pass.preempt Scheduler.preempt
    dsimp only
    rw [hr₀]
    dsimp only
    rw [hsched]
  · rw [h₁, hsched, hperm.mem_iff, List.mem_cons]
    constructor
    · intro hx
      exact ⟨.inr hx, fun he => (List.nodup_cons.1 hnd').1 (he ▸ hx)⟩
    · rintro ⟨hx, hne⟩
      exact hx.resolve_left hne
  · rw [h₄, hsched] at hx
    split at hx
    · next he =>
      obtain ⟨r₁, hr₁, rfl⟩ := Option.map_eq_some_iff.1 hx
      exact .inr ⟨he, r₁, hr₁, rfl⟩
    · next hne => exact .inl ⟨hne, hx⟩
  · rw [h₂]
    exact hnum x hx

/-- Every way of making room frees its victim. -/
lemma Vacates.vacated {idx' : Nat} {victim : ReqId} (hv : Vacates ops cfg p idx victim q idx')
    (hat : At idx p) : ∃ r, Vacated ops p q victim r := by
  cases hv with
  | @evict r _ hl hr =>
    have hid := hat.ids victim r hr
    have hperm := getLast?_perm hl
    have hnd : (victim :: p.sched.running.dropLast).Nodup := hperm.nodup_iff.1 hat.nodup
    obtain ⟨h₁, -, h₃⟩ := evict_frame ops hl hr
    rw [hid] at h₃
    refine ⟨{ r with stopReason := some .pruned, status := .finishedAborted }, hid, .inl ?_,
      List.mem_of_getLast? hl, fun x => ?_, fun x r' hx => ?_, fun x _ => rfl⟩
    · unfold Scheduler.stopLowestRunning
      dsimp only
      rw [hl]
      dsimp only
      rw [hr]
      rfl
    · dsimp only
      rw [h₁, hperm.mem_iff, List.mem_cons]
      constructor
      · intro hx
        exact ⟨.inr hx, fun he => (List.nodup_cons.1 hnd).1 (he ▸ hx)⟩
      · rintro ⟨hx, hne⟩
        exact hx.resolve_left hne
    · dsimp only at hx
      rw [h₃, Dict.get?_erase] at hx
      split at hx
      · cases hx
      · next hne => exact .inl ⟨hne, hx⟩
  | @pop r _ hl hr =>
    exact ⟨r, vacated_preempt (getLast?_perm hl) hat.nodup hr (hat.ids victim r hr) rfl fun _ _ => rfl⟩
  | @takeBack r _ hl hr hs =>
    refine ⟨r, vacated_preempt (List.perm_cons_erase (lowestPriority_mem hl)) hat.nodup hr
      (hat.ids victim r hr) rfl fun x hx => ?_⟩
    exact (Dict.get?_erase ..).trans (if_neg hx)
  | @drop r _ hl hr hs =>
    exact ⟨r, vacated_preempt (List.perm_cons_erase (lowestPriority_mem hl)) hat.nodup hr
      (hat.ids victim r hr) rfl fun _ _ => rfl⟩

/-- Nobody who is scheduled is a victim, but under PRIORITY. -/
lemma Vacates.batch {idx' : Nat} {victim : ReqId} (hv : Vacates ops cfg p idx victim q idx') (hat : At idx p)
    (hc : Current cfg idx rid p) (hpol : cfg.policy ≠ .priority) :
    victim ∉ p.numScheduledTokens ∧ q.numScheduledTokens = p.numScheduledTokens := by
  have hlast : p.sched.running.getLast? = some victim → victim ∉ p.numScheduledTokens := by
    intro hl
    have hrun : ({ p with sched := { p.sched with running := p.sched.running.dropLast } } : Pass μ β).sched.running =
        p.sched.running.dropLast := rfl
    exact (hat.dropLast (hc.here hpol) hl hrun (fun _ _ hx => hx) hat.ids rfl rfl).1
  cases hv with
  | evict _ hl _ => exact ⟨hlast hl, rfl⟩
  | pop _ hl _ => exact ⟨hlast hl, (preempt_frame ops cfg _ victim).2.1⟩
  | takeBack hp => exact absurd hp hpol
  | drop hp => exact absurd hp hpol

/-- In front of `allocate_slots` the request at hand has its new tokens from some budget. -/
def Pending (ops : Caches μ β) (cfg : VllmConfig) : Point μ β → Prop
  | .hand _ _ rid numNew _ _ p => ∃ r budget, p.sched.requests.get? rid = some r ∧ 0 < budget ∧
      budget ≤ p.tokenBudget ∧ EncoderLeaves ops r r.numComputedTokens (numNewRunning cfg r budget) numNew
  | .head .. => True
  | .ended .. => True

/-- The request at hand is offered slots. -/
lemma Pending.offered {seen : List ReqId} {inputs : List Nat} {budget : Int}
    (h : Pending ops cfg (.hand idx seen rid numNew inputs budget p))
    (hheld : Held cfg (.hand idx seen rid numNew inputs budget p))
    (hr : p.sched.requests.get? rid = some r) (hne : numNew ≠ 0) : Offered ops cfg p rid r numNew := by
  obtain ⟨r', budget, hr', hpos, hle, hleaves⟩ := h
  rw [hr] at hr'
  cases hr'
  have hmem : rid ∈ p.sched.running := List.mem_of_mem_take hheld.2.mem
  exact ⟨hmem, hr, hheld.1.ids rid r hr, hheld.2.fresh, hne, budget, hpos, hle, hleaves⟩

/-- A turn of the loop over the running requests is a sequence of moves. -/
lemma Turn.moves {x y : Point μ β} (ht : Turn ops cfg x y) (hheld : Held cfg x) (hx : Pending ops cfg x)
    (hg : x.pass.Grants cfg done) : Moves ops cfg x.pass y.pass ∧ Pending ops cfg y := by
  cases ht with
  | @look idx seen p q rid r inputs numNew budget hrid hpos hr henc =>
    have hid : r.requestId = rid := hheld.ids rid r hr
    obtain ⟨m, inputs', numNew', budget', heq, -, hleaves⟩ := tryEncoder_spec ops cfg p hr
      r.numComputedTokens (numNewRunning cfg r p.tokenBudget)
    rw [henc] at heq
    cases heq
    refine ⟨?_, r, p.tokenBudget, hr, hpos, Int.le_refl _, hleaves⟩
    unfold Pass.tryEncoder at henc
    split at henc
    · cases henc
      exact .single (.look hr hid)
    · have he : p = p.setCaches m := congrArg Prod.fst henc
      show Moves ops cfg p (p.setCaches m)
      rw [← he]
  | skip => exact ⟨.refl, trivial⟩
  | @room idx seen rid r numNew inputs budget p m victim q idx' hne hr hal hv hother =>
    have hoff := hx.offered hheld hr hne
    have hat : At idx (p.setCaches m) := hheld.1.setCaches m
    have hcur : Current cfg idx rid (p.setCaches m) := ⟨hheld.2.here, hheld.2.mem, hheld.2.fresh⟩
    have hroomed := hv.roomed hat hcur
    have hne' : some victim ≠ some rid := fun he => hother (Option.some.inj he)
    refine ⟨.tail (.single (.refuse hoff hal)) (.vacate hat hcur hv), ?_⟩
    obtain ⟨budget', hpos, hle, hleaves⟩ := hoff.leaves
    have hmore := (hroomed.room.grants (hg.setCaches m)).2
    exact ⟨r, budget', (hroomed.request hne').trans hr, hpos, hle.trans hmore, hleaves⟩
  | @fail idx seen rid r numNew inputs budget p m q idx' hne hr hal hv =>
    have hoff := hx.offered hheld hr hne
    have hat : At idx (p.setCaches m) := hheld.1.setCaches m
    have hcur : Current cfg idx rid (p.setCaches m) := ⟨hheld.2.here, hheld.2.mem, hheld.2.fresh⟩
    exact ⟨.tail (.single (.refuse hoff hal)) (.vacate hat hcur hv), trivial⟩
  | run hne hr hal => exact ⟨.single (.run (hx.offered hheld hr hne) hal), trivial⟩

/-- Moves keep the grants. -/
lemma Moves.grants (laws : ops.Laws blocks entries) (h : Moves ops cfg p p') (hg : p.Grants cfg done) :
    p'.Grants cfg done := by
  induction h with
  | refl => exact hg
  | tail _ hmove ih => exact hmove.grants laws ih

/-- The tail of an iteration: an encoder look-up and an allocation, with the admission last. -/
lemma tryAdmit_moves {blks : Option β} {cached : Nat} (hr : p.sched.requests.get? rid = some r)
    (hid : r.requestId = rid) (hs : r.status ≠ .running) (hrun : rid ∉ p.sched.running)
    (hn : rid ∉ p.numScheduledTokens) (hb : 0 < p.tokenBudget)
    (hlen : p.sched.running.length ≠ cfg.scheduler.maxNumSeqs)
    (hfound : r.numComputedTokens = 0 → blks = some (ops.getComputedBlocks p.sched.caches r).1 ∧
      cached = (ops.getComputedBlocks p.sched.caches r).2)
    (hnew : numNew = min (capPrefill cfg (r.numTokens -
      if r.numComputedTokens = 0 then (cached : Int) else r.numComputedTokens)) p.tokenBudget) :
    Moves ops cfg p (p.tryAdmit ops cfg rid r blks cached numNew).pass := by
  unfold Pass.tryAdmit
  dsimp only
  generalize hcomp : (if r.numComputedTokens = 0 then (cached : Int) else r.numComputedTokens) = computed
    at hnew ⊢
  generalize henc : p.tryEncoder ops r computed numNew = enc
  obtain ⟨q, inputs, numNew', budget⟩ := enc
  dsimp only
  split
  · unfold Pass.tryEncoder at henc
    split at henc
    · cases henc
      exact .single (.look hr hid)
    · cases henc
      exact .refl
  next hne =>
  rw [hnew] at henc
  have hasked : Asked ops cfg p q rid r blks cached
      (if r.numComputedTokens = 0 then 0 else cfg.scheduler.numLookaheadTokens) computed numNew' inputs
      budget := by
    refine ⟨hr, hid, hs, hrun, hn, hb, hlen, fun h0 => ?_, hcomp.symm, henc, fun he h0 => hne ⟨he, h0⟩⟩
    exact ⟨(hfound h0).1, (hfound h0).2, if_pos h0⟩
  split
  · next m hal => exact .single (.decline hasked hal)
  · next m b hal => exact .single (.enter hasked hal)

/-- One iteration of the waiting loop is a sequence of moves. -/
lemma considerWaiting_moves (ready : ReqId → Bool) (loras : List Int)
    (hr : p.sched.requests.get? rid = some r) (hid : r.requestId = rid) (hs : r.status ≠ .running)
    (hrun : rid ∉ p.sched.running) (hn : rid ∉ p.numScheduledTokens) (hb : 0 < p.tokenBudget)
    (hlen : p.sched.running.length ≠ cfg.scheduler.maxNumSeqs) :
    Moves ops cfg p (p.considerWaiting ops cfg ready loras rid r).pass := by
  unfold Pass.considerWaiting
  split
  · exact .refl
  dsimp only
  have hset : Move ops cfg p { p with sched := { p.sched with
      requests := p.sched.requests.set rid r.leaveFsm } } := .ready hr hs
  have hkept : r.leaveFsm.status ≠ .running ∧ r.leaveFsm.requestId = rid := by
    unfold Request.leaveFsm
    split
    · exact ⟨nofun, hid⟩
    · exact ⟨hs, hid⟩
  obtain ⟨hs1, hid1⟩ := hkept
  generalize r.leaveFsm = r1 at hset hs1 hid1 ⊢
  have hr1 : (p.sched.requests.set rid r1).get? rid = some r1 := by simp
  split
  · exact .single hset
  by_cases h0 : r1.numComputedTokens = 0
  · simp only [h0, if_true]
    split
    · exact .single hset
    · refine (Relation.ReflTransGen.single hset).trans ?_
      refine tryAdmit_moves hr1 hid1 hs1 hrun hn hb hlen (fun _ => ⟨rfl, rfl⟩) ?_
      rw [if_pos h0]
  · simp only [h0, if_false]
    split
    · exact .single hset
    · refine (Relation.ReflTransGen.single hset).trans ?_
      refine tryAdmit_moves hr1 hid1 hs1 hrun hn hb hlen (fun h => absurd h h0) ?_
      rw [if_neg h0]

/-- The loop over the waiting requests is a sequence of moves. -/
theorem waitingLoop_moves {s₀ : Scheduler μ} (ready : ReqId → Bool) (queue skipped : List ReqId)
    (loras : List Int) (h : p.Inv ops cfg s₀ (queue ++ skipped)) (hsr : p.ScheduledRun) :
    Moves ops cfg p (p.waitingLoop ops cfg ready queue skipped loras).1 := by
  induction queue generalizing p skipped loras with
  | nil => exact .refl
  | cons rid rest ih =>
    rw [Pass.waitingLoop]
    split
    · exact .refl
    next hguard =>
    split
    · exact .refl
    next r hr =>
    rw [not_or] at hguard
    have hdis : rid ∉ p.sched.running := by
      intro hm
      exact List.disjoint_of_nodup_append h.wf.nodup hm List.mem_cons_self
    have hs : r.status ≠ .running := fun hs => hdis ((h.wf.status rid r hr).1 hs)
    have hmoves : Moves ops cfg p (p.considerWaiting ops cfg ready loras rid r).pass :=
      considerWaiting_moves ready loras hr (h.wf.requestId rid r hr) hs hdis (fun hm => hdis (hsr rid hm))
        (Int.not_le.1 hguard.1) hguard.2
    have hv := Inv.considerWaiting ready loras h hr
    have hsr' := hsr.considerWaiting ops cfg ready loras rid r
    split
    · next p1 e =>
      rw [e] at hmoves
      exact hmoves
    · next p1 e =>
      rw [e] at hmoves hv hsr'
      refine hmoves.trans (ih _ _ (hv.perm ?_) hsr')
      refine .trans List.perm_middle.symm (List.Perm.append_left rest ?_)
      exact (Scheduler.queuePrepend_perm ..).symm
    · next p1 e =>
      rw [e] at hmoves hv hsr'
      exact hmoves.trans (ih _ _ hv hsr')

end Pass

namespace Scheduler
variable {μ β : Type} {ops : Caches μ β} {cfg : VllmConfig} {blocks entries : μ → ReqId → Prop}
variable {s : Scheduler μ} {done : ReqId → Prop}

/-- The loop over the running requests is a sequence of moves. -/
lemma WF.afterRunning_moves (laws : ops.Laws blocks entries) (h : s.WF)
    (hstart : (s.startPass (β := β) cfg).Grants cfg done) :
    Pass.Moves ops cfg (s.startPass cfg) (s.afterRunning ops cfg) := by
  obtain ⟨x, -, -, hx, he⟩ := h.afterRunning_keep
    (P := fun x => Pass.Pending ops cfg x ∧ Pass.Moves ops cfg (s.startPass cfg) x.pass) ops cfg
    (fun ht hheld hp => by
      obtain ⟨hmoves, hpend⟩ := ht.moves hheld hp.1 (hp.2.grants laws hstart)
      exact ⟨hpend, hp.2.trans hmoves⟩)
    ⟨trivial, .refl⟩
  rw [← he]
  exact hx.2

/-- The two loops of `schedule` are a sequence of moves; at the end the waiting queue is put together
again. -/
theorem WF.schedulePass_moves (laws : ops.Laws blocks entries) (ready : ReqId → Bool) (h : s.WF)
    (hstart : (s.startPass (β := β) cfg).Grants cfg done) :
    ∃ p queue, Pass.Moves ops cfg (s.startPass cfg) p ∧ p.ScheduledRun ∧
      s.schedulePass ops cfg ready = { p with sched := { p.sched with waiting := queue } } := by
  have hzero : Pass.At 0 (s.startPass (β := β) cfg) := h.at_zero ops
  obtain ⟨-, idx, hat⟩ := Pass.runningLoop_steps ops cfg (2 * s.running.length) hzero
  have hmoves := h.afterRunning_moves laws hstart
  have hinv : (s.startPass cfg).InvW ops cfg s := h.startPass
  have hrun := hinv.runningLoop (2 * s.running.length) 0
  have hsr := hat.before.scheduledRun
  unfold Scheduler.schedulePass admitWaiting
  unfold Scheduler.afterRunning at hmoves
  generalize (s.startPass cfg).runningLoop ops cfg (2 * s.running.length) 0 = p at hmoves hrun hsr ⊢
  split
  · have hw : p.Inv ops cfg s (p.sched.waiting ++ []) := hrun.perm (by simp)
    have hmoves' := Pass.waitingLoop_moves ready p.sched.waiting [] (p.scheduledLoras cfg) hw hsr
    have hsr' := hsr.waitingLoop ops cfg ready p.sched.waiting [] (p.scheduledLoras cfg)
    exact ⟨_, _, hmoves.trans hmoves', hsr', rfl⟩
  · exact ⟨p, p.sched.waiting, hmoves, hsr, rfl⟩

/-- The rule for a scheduling pass: what every move keeps, while the grants hold, `schedule` keeps up to
the order of the waiting queue. -/
theorem WF.schedulePass_keep {P : Pass μ β → Prop} (laws : ops.Laws blocks entries)
    (ready : ReqId → Bool) (h : s.WF) (hstart : (s.startPass (β := β) cfg).Grants cfg done)
    (move : ∀ {p q}, Pass.Move ops cfg p q → p.Grants cfg done → P p → P q)
    (hP : P (s.startPass cfg)) :
    ∃ p queue, P p ∧ p.Grants cfg done ∧ p.ScheduledRun ∧
      s.schedulePass ops cfg ready = { p with sched := { p.sched with waiting := queue } } := by
  obtain ⟨p, queue, hmoves, hsr, he⟩ := h.schedulePass_moves laws ready hstart
  have hboth : P p ∧ p.Grants cfg done := by
    clear he hsr
    induction hmoves with
    | refl => exact ⟨hP, hstart⟩
    | tail _ hmove ih => exact ⟨move hmove ih.2 ih.1, hmove.grants laws ih.2⟩
  exact ⟨p, queue, hboth.1, hboth.2, hsr, he⟩

end Scheduler
end Gambit.Sched
