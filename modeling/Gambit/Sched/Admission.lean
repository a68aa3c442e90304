import Gambit.Sched.Turns

/-!
# Who is admitted after a running request lost its place

`schedule` does not look at the waiting queue after a preemption: the guard of the second loop is
`if not preempted_reqs`. Making room under GAMBIT does not fill that list, so there the second loop
runs, on the memory the victim left.

`skips` and `fits` are the tests of an iteration of the second loop, as predicates on the pass it
starts with: a request is skipped, or admitted, or it ends the loop. `refuses` asks them along the
queue, and the loop admits nobody if and only if its queue is refused (`waitingLoop_refuses`).

Before a call, two things keep a GAMBIT scheduler from admitting into freed memory: nobody waits but for a
grammar (`NobodyReady`), or the running requests find their blocks (`grants`).
-/

namespace Gambit.Sched
open Gambit.Lib

namespace Pass
variable {μ β : Type} (ops : Caches μ β) (cfg : VllmConfig)

/-- The blocks and tokens found in the prefix cache for a request that starts from nothing. -/
def prefixHit (p : Pass μ β) (r : Request) : Option β × Nat :=
  if r.numComputedTokens = 0 then
    (some (ops.getComputedBlocks p.sched.caches r).1, (ops.getComputedBlocks p.sched.caches r).2)
  else (none, 0)

/-- The tokens of a waiting request that need not be computed. -/
def alreadyComputed (p : Pass μ β) (r : Request) : Int :=
  if r.numComputedTokens = 0 then ((p.prefixHit ops r).2 : Int) else r.numComputedTokens

/-- The new tokens a waiting request asks for. -/
def wanted (p : Pass μ β) (r : Request) : Int := capPrefill cfg (r.numTokens - p.alreadyComputed ops r)

/-- The three tests that put a waiting request aside: its grammar is not compiled, its LoRA does not
fit, its prompt is too long for the budget without chunked prefill. -/
def skips (ready : ReqId → Bool) (loras : List Int) (p : Pass μ β) (rid : ReqId) (r : Request) : Bool :=
  (r.status = .waitingForFsm ∧ ready rid = false) ∨ loraBlocked cfg loras r.leaveFsm = true ∨
    (cfg.scheduler.chunkedPrefillEnabled = false ∧ p.tokenBudget < p.wanted ops cfg r.leaveFsm)

/-- What the encoder look-up leaves of the new tokens, with the caches after it. -/
def encoderLeft (p : Pass μ β) (r : Request) (computed numNew : Int) : μ × Int :=
  if r.hasEncoderInputs then
    ((ops.tryScheduleEncoderInputs p.sched.caches r computed numNew p.encoderComputeBudget).1,
      (ops.tryScheduleEncoderInputs p.sched.caches r computed numNew p.encoderComputeBudget).2.2.1)
  else (p.sched.caches, numNew)

/-- A request that is not skipped gets a token from the encoder look-up, and `allocate_slots` finds
blocks for it. -/
def fits (p : Pass μ β) (r : Request) : Bool :=
  let left := p.encoderLeft ops r (p.alreadyComputed ops r) (min (p.wanted ops cfg r) p.tokenBudget)
  ¬ (r.hasEncoderInputs ∧ left.2 = 0) ∧
    (ops.allocateSlots left.1 r left.2 (p.prefixHit ops r).2 (p.prefixHit ops r).1
      (if r.numComputedTokens = 0 then 0 else cfg.scheduler.numLookaheadTokens)
      (if cfg.scheduler.isEncoderDecoder ∧ r.hasEncoderInputs then
        (cfg.scheduler.maxNumEncoderInputTokens : Int) else 0)).2.isSome

/-- The first request of the queue that is not skipped does not fit, or there is none. -/
def refuses (ready : ReqId → Bool) (loras : List Int) (p : Pass μ β) : List ReqId → Bool
  | [] => true
  | rid :: rest =>
    match p.sched.requests.get? rid with
    | none => true
    | some r =>
      if p.skips ops cfg ready loras rid r then refuses ready loras p rest
      else !p.fits ops cfg r.leaveFsm

/-- Going through the running requests of a queue, `allocate_slots` refuses nobody, so no request has to make
room. -/
def grants : List ReqId → Pass μ β → Bool
  | [], _ => true
  | rid :: rest, p =>
    if p.tokenBudget ≤ 0 then true
    else match p.sched.requests.get? rid with
      | none => true
      | some r =>
        match p.tryEncoder ops r r.numComputedTokens (numNewRunning cfg r p.tokenBudget) with
        | (p, inputs, numNew, budget) =>
          if numNew = 0 then grants rest p
          else match ops.allocateSlots p.sched.caches r numNew 0 none cfg.scheduler.numLookaheadTokens 0 with
            | (_, none) => false
            | (m, some blocks) => grants rest (p.runRequest ops m rid r numNew blocks inputs budget)

variable {ops : Caches μ β} {cfg : VllmConfig} {p p' : Pass μ β} {rid : ReqId} {r : Request}

/-- What a skipped request leaves: the pass, with the grammar of that request compiled or not. -/
structure Aside (rid : ReqId) (p p' : Pass μ β) : Prop where
  caches : p'.sched.caches = p.sched.caches
  running : p'.sched.running = p.sched.running
  budget : p'.tokenBudget = p.tokenBudget
  encoder : p'.encoderComputeBudget = p.encoderComputeBudget
  admitted : p'.admitted = p.admitted
  requests : ∀ x, x ≠ rid → p'.sched.requests.get? x = p.sched.requests.get? x

/-- What an admitted request does to the queues: it runs, behind the others. -/
structure Joins (rid : ReqId) (p p' : Pass μ β) : Prop where
  running : p'.sched.running = p.sched.running ++ [rid]
  admitted : ∀ x, x ∈ p'.admitted ↔ x = rid ∨ x ∈ p.admitted

/-- What the end of the loop leaves of the queues. -/
structure Stays (p p' : Pass μ β) : Prop where
  running : p'.sched.running = p.sched.running
  admitted : p'.admitted = p.admitted

/-- An admission. -/
lemma joins_admitRequest (ops : Caches μ β) (p : Pass μ β) (rid : ReqId) (r : Request)
    (computed numNew : Int) (inputs : List Nat) (budget : Int) :
    Joins rid p ((p.admitRequest ops rid r computed numNew).scheduleEncoder ops r inputs budget) := by
  have had : ∀ x, x ∈ (p.admitRequest ops rid r computed numNew).admitted ↔ x = rid ∨ x ∈ p.admitted := by
    intro x
    unfold Pass.admitRequest Pass.admitted
    dsimp only
    split
    · simp only [List.mem_append, List.mem_singleton]
      tauto
    · simp only [List.mem_append, List.mem_singleton]
      tauto
  unfold Pass.scheduleEncoder
  split
  · exact ⟨rfl, had⟩
  · exact ⟨rfl, had⟩

/-- The tail of an iteration follows `fits`. -/
lemma tryAdmit_fits (ops : Caches μ β) (cfg : VllmConfig) (p : Pass μ β) (rid : ReqId) (r : Request) :
    (p.fits ops cfg r = true ∧ ∃ q, p.tryAdmit ops cfg rid r (p.prefixHit ops r).1 (p.prefixHit ops r).2
        (min (p.wanted ops cfg r) p.tokenBudget) = .admitted q ∧ Joins rid p q) ∨
      (p.fits ops cfg r = false ∧ ∃ q, p.tryAdmit ops cfg rid r (p.prefixHit ops r).1
        (p.prefixHit ops r).2 (min (p.wanted ops cfg r) p.tokenBudget) = .stop q ∧ Stays p q) := by
  have henc : ∀ computed n, ∃ q inputs budget, p.tryEncoder ops r computed n =
      (q, inputs, (p.encoderLeft ops r computed n).2, budget) ∧
      q.sched.caches = (p.encoderLeft ops r computed n).1 ∧ Stays p q := by
    intro computed n
    unfold Pass.tryEncoder encoderLeft
    split
    · exact ⟨_, _, _, rfl, rfl, rfl, rfl⟩
    · exact ⟨_, _, _, rfl, rfl, rfl, rfl⟩
  unfold Pass.tryAdmit fits
  obtain ⟨q, inputs, budget, he, hcache, had⟩ := henc (p.alreadyComputed ops r)
    (min (p.wanted ops cfg r) p.tokenBudget)
  unfold alreadyComputed at he
  dsimp only
  rw [he]
  unfold alreadyComputed at hcache ⊢
  generalize p.encoderLeft ops r _ _ = left at hcache ⊢
  generalize (if r.numComputedTokens = 0 then 0 else cfg.scheduler.numLookaheadTokens) = lookahead
  generalize (if cfg.scheduler.isEncoderDecoder ∧ r.hasEncoderInputs then
    (cfg.scheduler.maxNumEncoderInputTokens : Int) else 0) = encoderTokens
  generalize (if r.numComputedTokens = 0 then ((p.prefixHit ops r).2 : Int)
    else r.numComputedTokens) = computed
  dsimp only
  by_cases hstop : r.hasEncoderInputs = true ∧ left.2 = 0
  · rw [if_pos hstop]
    exact .inr ⟨decide_eq_false fun h => h.1 hstop, q, rfl, had⟩
  rw [if_neg hstop, ← hcache]
  generalize hal : ops.allocateSlots q.sched.caches r left.2 (p.prefixHit ops r).2 (p.prefixHit ops r).1
    lookahead encoderTokens = res
  obtain ⟨m, blocks⟩ := res
  cases blocks with
  | none => exact .inr ⟨by simp, _, rfl, had.running, had.admitted⟩
  | some b =>
    have hj := joins_admitRequest ops (q.setCaches m) rid r computed left.2 inputs budget
    refine .inl ⟨decide_eq_true ⟨hstop, rfl⟩, _, rfl, hj.running.trans ?_, fun x => (hj.admitted x).trans ?_⟩
    · exact congrArg (· ++ [rid]) had.running
    · rw [← had.admitted]
      rfl

/-- The pass with a grammar of a request compiled. -/
def compiled (p : Pass μ β) (rid : ReqId) (r : Request) : Pass μ β :=
  { p with sched := { p.sched with requests := p.sched.requests.set rid r.leaveFsm } }

/-- A compiled grammar changes its request only. -/
lemma aside_compiled (p : Pass μ β) (rid : ReqId) (r : Request) : Aside rid p (p.compiled rid r) := by
  refine ⟨rfl, rfl, rfl, rfl, rfl, fun x hx => ?_⟩
  unfold compiled
  dsimp only
  rw [Dict.get?_set, if_neg hx]

/-- An iteration of the waiting loop, written with its tests. -/
lemma considerWaiting_eq (ready : ReqId → Bool) (loras : List Int) (p : Pass μ β) (rid : ReqId)
    (r : Request) :
    p.considerWaiting ops cfg ready loras rid r =
      if r.status = .waitingForFsm ∧ ready rid = false then .skip p
      else if loraBlocked cfg loras r.leaveFsm = true then .skip (p.compiled rid r)
      else if cfg.scheduler.chunkedPrefillEnabled = false ∧ p.tokenBudget < p.wanted ops cfg r.leaveFsm then
        .skip (p.compiled rid r)
      else (p.compiled rid r).tryAdmit ops cfg rid r.leaveFsm
        ((p.compiled rid r).prefixHit ops r.leaveFsm).1 ((p.compiled rid r).prefixHit ops r.leaveFsm).2
        (min ((p.compiled rid r).wanted ops cfg r.leaveFsm) (p.compiled rid r).tokenBudget) := rfl

/-- An iteration of the waiting loop follows its tests. -/
lemma considerWaiting_tests (ops : Caches μ β) (cfg : VllmConfig) (ready : ReqId → Bool)
    (loras : List Int) (p : Pass μ β) (rid : ReqId) (r : Request) :
    (p.skips ops cfg ready loras rid r = true ∧
      ∃ q, p.considerWaiting ops cfg ready loras rid r = .skip q ∧ Aside rid p q) ∨
    (p.skips ops cfg ready loras rid r = false ∧ p.fits ops cfg r.leaveFsm = true ∧
      ∃ q, p.considerWaiting ops cfg ready loras rid r = .admitted q ∧ Joins rid p q) ∨
    (p.skips ops cfg ready loras rid r = false ∧ p.fits ops cfg r.leaveFsm = false ∧
      ∃ q, p.considerWaiting ops cfg ready loras rid r = .stop q ∧ Stays p q) := by
  have haside := aside_compiled p rid r
  rw [considerWaiting_eq]
  by_cases hfsm : r.status = .waitingForFsm ∧ ready rid = false
  · rw [if_pos hfsm]
    exact .inl ⟨decide_eq_true (.inl hfsm), p, rfl, rfl, rfl, rfl, rfl, rfl, fun _ _ => rfl⟩
  rw [if_neg hfsm]
  by_cases hlora : loraBlocked cfg loras r.leaveFsm = true
  · rw [if_pos hlora]
    exact .inl ⟨decide_eq_true (.inr (.inl hlora)), _, rfl, haside⟩
  rw [if_neg hlora]
  by_cases hlong : cfg.scheduler.chunkedPrefillEnabled = false ∧
      p.tokenBudget < p.wanted ops cfg r.leaveFsm
  · rw [if_pos hlong]
    exact .inl ⟨decide_eq_true (.inr (.inr hlong)), _, rfl, haside⟩
  rw [if_neg hlong]
  have hno : p.skips ops cfg ready loras rid r = false :=
    decide_eq_false fun h => h.elim hfsm fun h => h.elim hlora hlong
  -- `fits` does not look at the store
  have hfit : (p.compiled rid r).fits ops cfg r.leaveFsm = p.fits ops cfg r.leaveFsm := rfl
  rcases tryAdmit_fits ops cfg (p.compiled rid r) rid r.leaveFsm with ⟨hf, q, he, hq⟩ | ⟨hf, q, he, hq⟩
  · exact .inr (.inl ⟨hno, hfit ▸ hf, q, he, hq.running, hq.admitted⟩)
  · exact .inr (.inr ⟨hno, hfit ▸ hf, q, he, hq.running, hq.admitted⟩)

/-- The tests look at the caches, the budgets and the requests of the queue only. -/
lemma Aside.refuses {ready : ReqId → Bool} {loras : List Int} {queue : List ReqId}
    (h : Aside rid p p') (hn : rid ∉ queue) :
    p'.refuses ops cfg ready loras queue = p.refuses ops cfg ready loras queue := by
  induction queue with
  | nil => rfl
  | cons x rest ih =>
    have hx : x ≠ rid := fun he => hn (he ▸ List.mem_cons_self)
    have hskip : ∀ r, p'.skips ops cfg ready loras x r = p.skips ops cfg ready loras x r := by
      intro r
      unfold skips wanted alreadyComputed prefixHit
      rw [h.caches, h.budget]
    have hfit : ∀ r, p'.fits ops cfg r = p.fits ops cfg r := by
      intro r
      unfold fits encoderLeft wanted alreadyComputed prefixHit
      rw [h.caches, h.budget, h.encoder]
    rw [Pass.refuses, Pass.refuses, h.requests x hx]
    cases p.sched.requests.get? x with
    | none => rfl
    | some r =>
      dsimp only
      rw [hskip, hfit, ih fun hm => hn (.tail _ hm)]

/-- Who was admitted stays admitted. -/
lemma admitted_waitingLoop (ops : Caches μ β) (cfg : VllmConfig) (ready : ReqId → Bool)
    (queue skipped : List ReqId) (loras : List Int) (h : p.admitted ≠ []) :
    (p.waitingLoop ops cfg ready queue skipped loras).1.admitted ≠ [] := by
  refine waitingLoop_induct (P := fun q => q.admitted ≠ []) ops cfg ready (fun _ _ h => h)
    (fun _ _ _ h => h) ?_ queue skipped loras h
  intro p rid r computed n inputs budget h
  have hj := joins_admitRequest ops p rid r computed n inputs budget
  exact List.ne_nil_of_mem ((hj.admitted rid).2 (.inl rfl))

/-- The waiting loop appends requests of its queue to the running queue. -/
lemma waitingLoop_running (ops : Caches μ β) (cfg : VllmConfig) (ready : ReqId → Bool)
    (queue skipped : List ReqId) (loras : List Int) (p : Pass μ β) :
    ∃ extra, (p.waitingLoop ops cfg ready queue skipped loras).1.sched.running =
      p.sched.running ++ extra ∧ ∀ x ∈ extra, x ∈ queue := by
  induction queue generalizing p skipped loras with
  | nil => exact ⟨[], (List.append_nil _).symm, fun x hx => absurd hx List.not_mem_nil⟩
  | cons rid rest ih =>
    have hnone : ∃ extra, p.sched.running = p.sched.running ++ extra ∧ ∀ x ∈ extra, x ∈ rid :: rest :=
      ⟨[], (List.append_nil _).symm, fun x hx => absurd hx List.not_mem_nil⟩
    rw [Pass.waitingLoop]
    split
    · exact hnone
    split
    · exact hnone
    next r hr =>
    rcases considerWaiting_tests ops cfg ready loras p rid r with
      ⟨-, q, he, hq⟩ | ⟨-, -, q, he, hq⟩ | ⟨-, -, q, he, hq⟩
    · rw [he]
      obtain ⟨extra, hrun, hmem⟩ := ih (q.sched.queuePrepend cfg.policy skipped rid) loras q
      refine ⟨extra, ?_, fun x hx => .tail _ (hmem x hx)⟩
      dsimp only
      rw [hrun, hq.running]
    · rw [he]
      obtain ⟨extra, hrun, hmem⟩ := ih skipped (addLora cfg loras r) q
      refine ⟨rid :: extra, ?_, fun x hx => ?_⟩
      · dsimp only
        rw [hrun, hq.running, List.append_assoc]
        rfl
      · rcases List.mem_cons.1 hx with rfl | hx
        · exact List.mem_cons_self
        · exact .tail _ (hmem x hx)
    · rw [he]
      dsimp only
      rw [hq.running]
      exact hnone

/-- A loop that may look at its queue admits nobody if and only if the queue is refused. -/
lemma waitingLoop_refuses (ready : ReqId → Bool) {queue : List ReqId} (skipped : List ReqId)
    (loras : List Int) (hq : queue.Nodup) (had : p.admitted = []) (hb : 0 < p.tokenBudget)
    (hlen : p.sched.running.length ≠ cfg.scheduler.maxNumSeqs) :
    (p.waitingLoop ops cfg ready queue skipped loras).1.admitted = [] ↔
      p.refuses ops cfg ready loras queue = true := by
  induction queue generalizing p skipped with
  | nil => exact iff_of_true had rfl
  | cons rid rest ih =>
    obtain ⟨hn, hrest⟩ := List.nodup_cons.1 hq
    have hguard : ¬ (p.tokenBudget ≤ 0 ∨ p.sched.running.length = cfg.scheduler.maxNumSeqs) := by
      rw [not_or]
      exact ⟨Int.not_le.2 hb, hlen⟩
    rw [Pass.waitingLoop, if_neg hguard, Pass.refuses]
    cases hr : p.sched.requests.get? rid with
    | none => exact iff_of_true had rfl
    | some r =>
      dsimp only
      rcases considerWaiting_tests ops cfg ready loras p rid r with
        ⟨hs, q, he, haside⟩ | ⟨hs, hf, q, he, hj⟩ | ⟨hs, hf, q, he, hq⟩
      · rw [he, if_pos hs, ← haside.refuses hn]
        refine ih _ hrest (haside.admitted.trans had) (haside.budget ▸ hb) ?_
        rw [haside.running]
        exact hlen
      · rw [he, hs, hf]
        have hne : q.admitted ≠ [] := List.ne_nil_of_mem ((hj.admitted rid).2 (.inl rfl))
        exact iff_of_false (admitted_waitingLoop ops cfg ready rest skipped _ hne) (by simp)
      · rw [he, hs, hf]
        exact iff_of_true (hq.admitted.trans had) (by simp)

/-- A queue of requests that wait for their grammars is refused. -/
lemma refuses_of_fsm {ready : ReqId → Bool} {loras : List Int} {queue : List ReqId}
    (h : ∀ x ∈ queue, ∃ r, p.sched.requests.get? x = some r ∧ r.status = .waitingForFsm ∧ ready x = false) :
    p.refuses ops cfg ready loras queue = true := by
  induction queue with
  | nil => rfl
  | cons x rest ih =>
    obtain ⟨r, hr, hs⟩ := h x (.head _)
    have hskip : p.skips ops cfg ready loras x r = true := decide_eq_true (.inl hs)
    rw [Pass.refuses, hr]
    dsimp only
    rw [if_pos hskip]
    exact ih fun y hy => h y (.tail _ hy)

/-- A loop in which no allocation is refused takes nobody out. -/
lemma grants_runningLoop (ops : Caches μ β) (cfg : VllmConfig) {fuel idx : Nat}
    (h : p.grants ops cfg (p.sched.running.drop idx) = true) :
    (p.runningLoop ops cfg fuel idx).sched.running = p.sched.running := by
  induction fuel generalizing p idx with
  | zero => rfl
  | succ fuel ih =>
    rw [Pass.runningLoop]
    split
    · rfl
    next rid hrid =>
    obtain ⟨hlt, hget⟩ := List.getElem?_eq_some_iff.1 hrid
    rw [List.drop_eq_getElem_cons hlt, hget, grants] at h
    split
    · rfl
    next hb =>
    rw [if_neg hb] at h
    split
    · rfl
    next r hr =>
    rw [hr] at h
    dsimp only at h
    generalize henc : p.tryEncoder ops r r.numComputedTokens (numNewRunning cfg r p.tokenBudget) = enc at h ⊢
    obtain ⟨q, inputs, numNew, budget⟩ := enc
    obtain ⟨m, rfl⟩ := tryEncoder_caches henc
    have hrun : (p.setCaches m).sched.running = p.sched.running := rfl
    dsimp only at h ⊢
    split
    · next h0 =>
      rw [if_pos h0] at h
      exact ih (p := p.setCaches m) h
    next hn =>
    rw [if_neg hn] at h
    obtain ⟨k, hk⟩ : ∃ k, p.sched.running.length = k + 1 := ⟨p.sched.running.length - 1, by omega⟩
    have hget' : (p.setCaches m).sched.requests.get? rid = some r := hr
    rw [hrun, hk, Pass.allocateOrEvict, hget']
    dsimp only
    generalize ops.allocateSlots (p.setCaches m).sched.caches r numNew 0 none
      cfg.scheduler.numLookaheadTokens 0 = answer at h ⊢
    obtain ⟨m', blocks⟩ := answer
    cases blocks with
    | none => cases h
    | some b =>
      have hframe := (runRequest_frame ops (p.setCaches m) m' rid r numNew b inputs budget).1
      dsimp only at h ⊢
      have hrest : ((p.setCaches m).runRequest ops m' rid r numNew b inputs budget).grants ops cfg
          (((p.setCaches m).runRequest ops m' rid r numNew b inputs budget).sched.running.drop (idx + 1)) = true := by
        rw [hframe]
        exact h
      exact (ih hrest).trans hframe

/-- The waiting requests of `s` are stored as they were, and none of them runs. -/
def Undisturbed (s : Scheduler μ) (p : Pass μ β) : Prop :=
  ∀ w ∈ s.waiting, p.sched.requests.get? w = s.requests.get? w ∧ w ∉ p.sched.running

/-- Under GAMBIT the first loop does not touch the waiting requests. -/
lemma Turn.undisturbed {s : Scheduler μ} {x y : Point μ β} (ht : Turn ops cfg x y) (hg : cfg.policy = .gambit)
    (hheld : Held cfg x) (h : Undisturbed s x.pass) : Undisturbed s y.pass := by
  have vacates : ∀ {p q : Pass μ β} {idx idx' : Nat} {victim : ReqId}, At idx p →
      Vacates ops cfg p idx victim q idx' → Undisturbed s p → Undisturbed s q := by
    intro p q idx idx' victim hat hv h w hw
    cases hv with
    | @evict r _ hl hr =>
      obtain ⟨hrun, -, hreq⟩ := evict_frame ops hl hr
      obtain ⟨hget, hn⟩ := h w hw
      have hne : w ≠ r.requestId := by
        rw [hat.ids victim r hr]
        exact fun he => hn (he ▸ List.mem_of_getLast? hl)
      dsimp only
      rw [hreq, hrun, Dict.get?_erase, if_neg hne]
      exact ⟨hget, fun hm => hn (List.mem_of_mem_dropLast hm)⟩
    | pop hp => exact absurd (hp.symm.trans hg) (by decide)
    | takeBack hp => exact absurd (hp.symm.trans hg) (by decide)
    | drop hp => exact absurd (hp.symm.trans hg) (by decide)
  cases ht with
  | look _ _ _ henc =>
    obtain ⟨m, rfl⟩ := tryEncoder_caches henc
    exact h
  | skip => exact h
  | room _ _ _ hv => exact vacates (hheld.1.setCaches _) hv h
  | fail _ _ _ hv => exact vacates (hheld.1.setCaches _) hv h
  | run =>
    intro w hw
    obtain ⟨hget, hn⟩ := h w hw
    dsimp only [Point.pass] at hget hn ⊢
    rw [(runRequest_frame ..).1, (runRequest_frame ..).2.2.2.2 w, if_neg]
    · exact ⟨hget, hn⟩
    · rintro ⟨rfl, -⟩
      exact hn (List.mem_of_mem_take hheld.2.mem)

end Pass

namespace Scheduler
variable {μ β : Type} {ops : Caches μ β} {cfg : VllmConfig} {s : Scheduler μ}

/-- A running request was taken out to make room: nothing else removes one from `running` in
`schedule`. -/
def LosesPlace (ops : Caches μ β) (cfg : VllmConfig) (ready : ReqId → Bool) (s : Scheduler μ) : Prop :=
  ∃ x ∈ s.running, x ∉ (s.schedule ops cfg ready).1.running

/-- The running loop leaves nothing to admit with: the budget is used up, the running queue is full, or
nobody in the waiting queue fits. -/
def NoneFits (ops : Caches μ β) (cfg : VllmConfig) (ready : ReqId → Bool) (s : Scheduler μ) : Prop :=
  (s.afterRunning ops cfg).tokenBudget ≤ 0 ∨
    (s.afterRunning ops cfg).sched.running.length = cfg.scheduler.maxNumSeqs ∨
    (s.afterRunning ops cfg).refuses ops cfg ready ((s.afterRunning ops cfg).scheduledLoras cfg)
      (s.afterRunning ops cfg).sched.waiting = true

/-- The running queue after `schedule` is the one of its pass. -/
lemma schedule_running (ready : ReqId → Bool) (s : Scheduler μ) :
    (s.schedule ops cfg ready).1.running = (s.schedulePass ops cfg ready).sched.running := by
  unfold Scheduler.schedule updateAfterSchedule
  exact foldl_advance_running ops _ _

/-- The pass of `schedule` from the state between its two loops. -/
lemma schedulePass_eq (ready : ReqId → Bool) (s : Scheduler μ) :
    s.schedulePass ops cfg ready = admitWaiting ops cfg ready (s.afterRunning ops cfg) := rfl

/-- The first loop admits nobody. -/
lemma WF.admitted_afterRunning (ops : Caches μ β) (cfg : VllmConfig) (h : s.WF) :
    (s.afterRunning ops cfg).admitted = [] := by
  obtain ⟨x, -, -, hx, he⟩ := h.afterRunning_keep ops cfg
    (P := fun x => x.pass.admitted = []) (fun ht _ ha => ht.admitted.trans ha) rfl
  exact he ▸ hx

/-- Without GAMBIT a lost place is a preemption. -/
lemma WF.preempted_afterRunning (h : s.WF) (hg : cfg.policy ≠ .gambit) {x : ReqId} (hx : x ∈ s.running)
    (hn : x ∉ (s.afterRunning ops cfg).sched.running) :
    (s.afterRunning ops cfg).preemptedReqs.isEmpty = false := by
  have hstart : x ∈ (s.startPass (β := β) cfg).sched.running := (startPass_running cfg s).mem_iff.2 hx
  obtain ⟨y, -, -, hy, he⟩ := h.afterRunning_keep ops cfg
    (P := fun y => x ∈ y.pass.sched.running ∨ x ∈ y.pass.preemptedReqs)
    (fun ht _ ha => ht.preempted hg ha) (.inl hstart)
  rw [he] at hy
  have hmem := hy.resolve_left hn
  cases hp : (s.afterRunning ops cfg).preemptedReqs with
  | nil => rw [hp] at hmem; cases hmem
  | cons a l => rfl

/-- Under GAMBIT the first loop does not touch the waiting queue. -/
lemma WF.waiting_afterRunning (ops : Caches μ β) (h : s.WF) (hg : cfg.policy = .gambit) :
    (s.afterRunning ops cfg).sched.waiting = s.waiting ∧ (s.afterRunning ops cfg).preemptedReqs = [] := by
  have hstart : (s.startPass (β := β) cfg).sched.waiting = s.waiting := by
    unfold Scheduler.startPass
    dsimp only
    split <;> rfl
  obtain ⟨x, -, -, hx, he⟩ := h.afterRunning_keep ops cfg
    (P := fun x => x.pass.sched.waiting = s.waiting ∧ x.pass.preemptedReqs = [])
    (fun ht _ ha => ⟨(ht.evicts hg).1.trans ha.1, (ht.evicts hg).2.trans ha.2⟩) ⟨hstart, rfl⟩
  rw [he] at hx
  exact hx

/-- A running request that the first loop keeps is running after `schedule`, and the others are not. -/
lemma WF.running_schedule (h : s.WF) (ready : ReqId → Bool) {x : ReqId} (hx : x ∈ s.running) :
    x ∈ (s.schedule ops cfg ready).1.running ↔ x ∈ (s.afterRunning ops cfg).sched.running := by
  rw [schedule_running, schedulePass_eq]
  unfold admitWaiting
  split
  · next hempty =>
    obtain ⟨extra, hrun, hextra⟩ := Pass.waitingLoop_running ops cfg ready
      (s.afterRunning ops cfg).sched.waiting [] ((s.afterRunning ops cfg).scheduledLoras cfg)
      (s.afterRunning ops cfg)
    dsimp only
    rw [hrun, List.mem_append]
    refine ⟨fun hm => ?_, .inl⟩
    rcases hm with hm | hm
    · exact hm
    -- a request of the waiting queue was not running
    by_contra hn
    cases hg : decide (cfg.policy = .gambit) with
    | true =>
      have hw := hextra x hm
      rw [(h.waiting_afterRunning ops (of_decide_eq_true hg)).1] at hw
      exact List.disjoint_of_nodup_append h.nodup hx hw
    | false =>
      rw [h.preempted_afterRunning (of_decide_eq_false hg) hx hn] at hempty
      cases hempty
  · exact Iff.rfl

/-- A call that takes a running request out admits nobody under FCFS and PRIORITY, and under GAMBIT if and only
if nobody fits into what the first loop leaves. -/
lemma admitsNobody_iff (ops : Caches μ β) (cfg : VllmConfig) (ready : ReqId → Bool) (h : s.WF) :
    (s.LosesPlace ops cfg ready → (s.schedule ops cfg ready).2.scheduledNewReqs = [] ∧
      (s.schedule ops cfg ready).2.scheduledResumedReqs = []) ↔
    cfg.policy ≠ .gambit ∨ (∀ x ∈ s.running, x ∈ (s.afterRunning ops cfg).sched.running) ∨
      s.NoneFits ops cfg ready := by
  have hnone := h.admitted_afterRunning ops cfg
  have hout : ((s.schedule ops cfg ready).2.scheduledNewReqs = [] ∧
      (s.schedule ops cfg ready).2.scheduledResumedReqs = []) ↔
      (s.schedulePass ops cfg ready).admitted = [] := by
    unfold Pass.admitted
    rw [List.append_eq_nil_iff]
    exact Iff.rfl
  have hlose : s.LosesPlace ops cfg ready ↔ ∃ x ∈ s.running, x ∉ (s.afterRunning ops cfg).sched.running := by
    unfold LosesPlace
    refine exists_congr fun x => and_congr_right fun hx => ?_
    rw [h.running_schedule ready hx]
  rw [hout, hlose, schedulePass_eq]
  constructor
  · intro hadmit
    by_cases hg : cfg.policy = .gambit
    · right
      by_cases hkeep : ∀ x ∈ s.running, x ∈ (s.afterRunning ops cfg).sched.running
      · exact .inl hkeep
      · right
        have hnil := hadmit (by
          by_contra hno
          exact hkeep fun x hx => by_contra fun hn => hno ⟨x, hx, hn⟩)
        unfold NoneFits
        rw [or_iff_not_imp_left, or_iff_not_imp_left]
        intro hb hl
        obtain ⟨hw, hp⟩ := h.waiting_afterRunning ops hg
        unfold admitWaiting at hnil
        rw [hp] at hnil
        refine (Pass.waitingLoop_refuses ready [] _ ?_ hnone (Int.not_le.1 hb) hl).1 hnil
        rw [hw]
        exact h.nodup.of_append_right
    · exact .inl hg
  · rintro hcond ⟨x, hx, hn⟩
    unfold admitWaiting
    rcases hcond with hg | hkeep | hfit
    · rw [if_neg (by rw [h.preempted_afterRunning hg hx hn]; exact Bool.false_ne_true)]
      exact hnone
    · exact absurd (hkeep x hx) hn
    · split
      · next hempty =>
        show ((s.afterRunning ops cfg).waitingLoop ops cfg ready _ [] _).1.admitted = []
        by_cases hguard : (s.afterRunning ops cfg).tokenBudget ≤ 0 ∨
            (s.afterRunning ops cfg).sched.running.length = cfg.scheduler.maxNumSeqs
        · cases hw : (s.afterRunning ops cfg).sched.waiting with
          | nil => exact hnone
          | cons a l =>
            rw [Pass.waitingLoop, if_pos hguard]
            exact hnone
        · have hguard' := hguard
          rw [not_or] at hguard
          have hrefuse := (or_assoc.2 hfit).resolve_left hguard'
          have hrun : (s.afterRunning ops cfg).InvW ops cfg s :=
            (h.startPass (β := β)).runningLoop (2 * s.running.length) 0
          exact (Pass.waitingLoop_refuses ready [] _ hrun.wf.nodup.of_append_right hnone
            (Int.not_le.1 hguard.1) hguard.2).2 hrefuse
      · exact hnone

/-- Whoever waits, waits for a grammar that is not compiled. -/
def NobodyReady (ready : ReqId → Bool) (s : Scheduler μ) : Prop :=
  ∀ x ∈ s.waiting, ∃ r, s.requests.get? x = some r ∧ r.status = .waitingForFsm ∧ ready x = false

/-- Whoever waits for a grammar is refused between the two loops too. -/
lemma WF.refuses_afterRunning {ready : ReqId → Bool} (h : s.WF) (hg : cfg.policy = .gambit)
    (hready : s.NobodyReady ready) (loras : List Int) :
    (s.afterRunning ops cfg).refuses ops cfg ready loras (s.afterRunning ops cfg).sched.waiting = true := by
  have hstart : Pass.Undisturbed s (s.startPass (β := β) cfg) := by
    intro w hw
    have hn : w ∉ s.running := fun hr => List.disjoint_of_nodup_append h.nodup hr hw
    refine ⟨?_, fun hm => hn ((startPass_running cfg s).mem_iff.1 hm)⟩
    unfold Scheduler.startPass
    dsimp only
    split <;> rfl
  obtain ⟨x, -, -, hx, he⟩ := h.afterRunning_keep ops cfg (P := fun x => Pass.Undisturbed s x.pass)
    (fun ht hheld ha => ht.undisturbed hg hheld ha) hstart
  rw [he] at hx
  rw [(h.waiting_afterRunning ops hg).1]
  refine Pass.refuses_of_fsm fun w hw => ?_
  rw [(hx w hw).1]
  exact hready w hw

/-- A call that takes a running request out admits nobody: under FCFS and PRIORITY, and under GAMBIT as long as
whoever waits has no grammar yet, or the running requests find their blocks. -/
theorem no_admission_of_state (ops : Caches μ β) (cfg : VllmConfig) (ready : ReqId → Bool) (h : s.WF)
    (hcond : cfg.policy ≠ .gambit ∨ s.NobodyReady ready ∨
      (s.startPass cfg).grants ops cfg (s.startPass (β := β) cfg).sched.running = true) :
    s.LosesPlace ops cfg ready → (s.schedule ops cfg ready).2.scheduledNewReqs = [] ∧
      (s.schedule ops cfg ready).2.scheduledResumedReqs = [] := by
  refine (admitsNobody_iff ops cfg ready h).2 ?_
  by_cases hg : cfg.policy = .gambit
  · right
    rcases hcond with hne | hready | hgrants
    · exact absurd hg hne
    · exact .inr (.inr (.inr (h.refuses_afterRunning hg hready _)))
    · refine .inl fun x hx => ?_
      have hrun : (s.afterRunning ops cfg).sched.running = (s.startPass (β := β) cfg).sched.running :=
        Pass.grants_runningLoop ops cfg hgrants
      rw [hrun]
      exact (startPass_running cfg s).mem_iff.2 hx
  · exact .inl hg

/-- Two traces that fill five blocks with a third one waiting: the second cannot grow. -/
def crowded : List SchedEvent :=
  [.addRequest { requestId := ['a'], promptTokenIds := [1, 2] },
    .addRequest { requestId := ['b'], promptTokenIds := [3, 4] },
    .schedule fun _ => true, .updateFromOutput ⟨[(['a'], [5]), (['b'], [6])], by decide⟩ ∅ none,
    .updateTraceScores ⟨[(['a'], 2), (['b'], 1)], by decide⟩,
    .addRequest { requestId := ['c'], promptTokenIds := [7] }]

/-- The scheduler of `crowded` with a policy. -/
def crowdedState (cfg : VllmConfig) : Scheduler (Dict ReqId Nat) :=
  ((schedMachine (Caches.bounded 5) cfg ∅).exec crowded).2.sched

/-- Every state of `crowded` is well formed. -/
lemma crowdedState_wf (cfg : VllmConfig) (h : (schedMachine (Caches.bounded 5) cfg ∅).OkFrom [] crowded) :
    (crowdedState cfg).WF :=
  (sound_of_runs (Machine.Runs.of_exec h)).wf

/-- The third trace of `crowded` waits for a grammar: the second one is evicted, and nobody enters. -/
theorem no_admission_guided :
    let cfg : VllmConfig := { gambit := { enable := true }, scheduler := {} }
    let guided : Request :=
      { requestId := ['c'], promptTokenIds := [7], samplingParams := { structuredOutputs := true }
        status := .waitingForFsm }
    let s := ((schedMachine (Caches.bounded 5) cfg ∅).exec (crowded.dropLast ++ [.addRequest guided])).2.sched
    s.waiting = [['c']] ∧ s.LosesPlace (Caches.bounded 5) cfg (fun _ => false) ∧
      (s.LosesPlace (Caches.bounded 5) cfg (fun _ => false) →
        (s.schedule (Caches.bounded 5) cfg fun _ => false).2.scheduledNewReqs = [] ∧
        (s.schedule (Caches.bounded 5) cfg fun _ => false).2.scheduledResumedReqs = []) := by
  intro cfg guided s
  have hwf : s.WF := (sound_of_runs (Machine.Runs.of_exec (by decide +kernel))).wf
  have hw : s.waiting = [['c']] := by decide +kernel
  have hc : s.requests.get? ['c'] = some guided := by decide +kernel
  refine ⟨hw, ⟨['b'], by decide +kernel, by decide +kernel⟩, ?_⟩
  refine no_admission_of_state (Caches.bounded 5) cfg (fun _ => false) hwf (.inr (.inl fun x hx => ?_))
  rw [hw] at hx
  obtain rfl := List.mem_singleton.1 hx
  exact ⟨guided, hc, rfl, rfl⟩

/-- Under GAMBIT the second trace, which has a score, is pruned, and the third one is admitted in the
same call. -/
theorem newcomer_after_eviction :
    let cfg : VllmConfig := { gambit := { enable := true }, scheduler := {} }
    let s := crowdedState cfg
    s.LosesPlace (Caches.bounded 5) cfg (fun _ => true) ∧
      (s.schedule (Caches.bounded 5) cfg fun _ => true).2.scheduledNewReqs = [['c']] :=
  ⟨⟨['b'], by decide +kernel, by decide +kernel⟩, by decide +kernel⟩

end Scheduler
end Gambit.Sched
