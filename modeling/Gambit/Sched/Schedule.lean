import Gambit.Sched.Scheduler

/-!
# The scheduling pass

Model of `Scheduler.schedule` and `Scheduler._update_after_schedule`. `Pass` holds the scheduler and
the local variables of `schedule`; `runningLoop` is its first loop, `waitingLoop` its second one.

The inner `while True` around `allocate_slots` is `allocateOrEvict`. Every refused allocation takes a
request out of `running`, the request at hand included, so the length of `running` bounds its
iterations. In the outer loop each iteration lowers `2 * len(running) - req_index` (an iteration
advances `req_index`, a victim shortens `running` and takes at most one off `req_index`), so twice
the length of `running` bounds it. These bounds are the fuel of the two recursions.

Left out: the assertions at the end of `schedule` and the messages to the worker other than the
numbers of scheduled tokens, the drafts, the blocks and the finished ids.
-/

namespace Gambit.Sched
open Gambit.Lib

/-- Python `SchedulerOutput`. -/
structure SchedulerOutput (β : Type) where
  scheduledNewReqs : List ReqId
  scheduledResumedReqs : List ReqId
  scheduledRunningReqs : List ReqId
  numScheduledTokens : Dict ReqId Int
  scheduledSpecDecodeTokens : Dict ReqId (List Token)
  scheduledEncoderInputs : Dict ReqId (List Nat)
  reqToNewBlocks : Dict ReqId β
  finishedReqIds : List ReqId

/-- A request whose grammar is compiled waits like any other. -/
def Request.leaveFsm (r : Request) : Request :=
  if r.status = .waitingForFsm then { r with status := .waiting } else r

/-- The computed tokens of a request move on (Python `request.num_computed_tokens += n`). -/
def Request.advance (r : Request) (n : Int) : Request :=
  { r with numComputedTokens := r.numComputedTokens + n }

/-- The scheduler and the local variables of `schedule`. -/
structure Pass (μ β : Type) where
  sched : Scheduler μ
  scheduledNewReqs : List ReqId := []
  scheduledResumedReqs : List ReqId := []
  scheduledRunningReqs : List ReqId := []
  preemptedReqs : List ReqId := []
  reqToNewBlocks : Dict ReqId β := ∅
  numScheduledTokens : Dict ReqId Int := ∅
  tokenBudget : Int
  scheduledEncoderInputs : Dict ReqId (List Nat) := ∅
  encoderComputeBudget : Int
  scheduledSpecDecodeTokens : Dict ReqId (List Token) := ∅

namespace Pass
variable {μ β : Type} (ops : Caches μ β) (cfg : VllmConfig)

/-- The pass with another state of the cache managers. -/
def setCaches (p : Pass μ β) (m : μ) : Pass μ β := { p with sched := { p.sched with caches := m } }

/-- The cap `0 < threshold < n` of `long_prefill_token_threshold`. -/
def capPrefill (n : Int) : Int :=
  if 0 < cfg.scheduler.longPrefillTokenThreshold ∧ cfg.scheduler.longPrefillTokenThreshold < n then
    cfg.scheduler.longPrefillTokenThreshold
  else n

/-- The new tokens of a running request before encoder inputs are looked at. -/
def numNewRunning (r : Request) (tokenBudget : Int) : Int :=
  let n := min (capPrefill cfg (r.numTokensWithSpec - r.numComputedTokens)) tokenBudget
  let maxTotal : Int := min (r.promptTokenIds.length + r.maxTokens) cfg.scheduler.maxModelLen
  min n (maxTotal - 1 - r.numComputedTokens)

/-- PRIORITY takes back what it scheduled for the victim in this pass. -/
def unschedule (p : Pass μ β) (victim : ReqId) : Pass μ β :=
  let inputs := p.scheduledEncoderInputs.getD victim []
  let features := ((p.sched.requests.get? victim).map Request.mmFeatures).getD []
  let restored := (inputs.map fun i => ((features[i]?).map MmFeature.length).getD 0).sum
  { p with
    scheduledRunningReqs := p.scheduledRunningReqs.erase victim
    tokenBudget := p.tokenBudget + p.numScheduledTokens.getD victim 0
    reqToNewBlocks := p.reqToNewBlocks.erase victim
    numScheduledTokens := p.numScheduledTokens.erase victim
    scheduledSpecDecodeTokens := p.scheduledSpecDecodeTokens.erase victim
    scheduledEncoderInputs := p.scheduledEncoderInputs.erase victim
    encoderComputeBudget := p.encoderComputeBudget + restored }

/-- Free the victim and put it back into the waiting queue. -/
def preempt (p : Pass μ β) (victim : ReqId) : Pass μ β :=
  { p with
    sched := p.sched.preempt ops cfg.policy victim
    preemptedReqs := p.preemptedReqs ++ [victim] }

/-- Make room after a refused allocation: the victim, the pass without it, and the new index. -/
def makeRoom (p : Pass μ β) (idx : Nat) : Option ReqId × Pass μ β × Nat :=
  match cfg.policy with
  | .gambit =>
    let (victim, s) := p.sched.stopLowestRunning ops
    (victim, { p with sched := s }, idx)
  | .priority =>
    match p.sched.lowestPriority with
    | none => (none, p, idx)
    | some victim =>
      let q := { p with sched := { p.sched with running := p.sched.running.erase victim } }
      if victim ∈ p.scheduledRunningReqs then
        (some victim, (q.unschedule victim).preempt ops cfg victim, idx - 1)
      else (some victim, q.preempt ops cfg victim, idx)
  | .fcfs =>
    match p.sched.running.getLast? with
    | none => (none, p, idx)
    | some victim =>
      let q := { p with sched := { p.sched with running := p.sched.running.dropLast } }
      (some victim, q.preempt ops cfg victim, idx)

/-- The inner `while True`: allocate, or make room and try again, until the request itself goes. -/
def allocateOrEvict (rid : ReqId) (numNew : Int) :
    Nat → Pass μ β → Nat → Pass μ β × Nat × Option β
  | 0, p, idx => (p, idx, none)
  | fuel + 1, p, idx =>
    match p.sched.requests.get? rid with
    | none => (p, idx, none)
    | some r =>
      match ops.allocateSlots p.sched.caches r numNew 0 none cfg.scheduler.numLookaheadTokens 0 with
      | (m, some blocks) => (p.setCaches m, idx, some blocks)
      | (m, none) =>
        match (p.setCaches m).makeRoom ops cfg idx with
        | (none, q, idx) => (q, idx, none)
        | (some victim, q, idx) =>
          if victim = rid then (q, idx, none) else allocateOrEvict rid numNew fuel q idx

/-- Record the encoder inputs scheduled for a request. -/
def scheduleEncoder (p : Pass μ β) (r : Request) (inputs : List Nat) (budget : Int) : Pass μ β :=
  if inputs.isEmpty then p
  else
    { p.setCaches (inputs.foldl (fun m i => ops.allocateEncoder m r i) p.sched.caches) with
      scheduledEncoderInputs := p.scheduledEncoderInputs.set r.requestId inputs
      encoderComputeBudget := budget }

/-- Record the drafts scheduled for a request and drop the others. -/
def scheduleSpec (p : Pass μ β) (rid : ReqId) (r : Request) (numNew : Int) : Pass μ β :=
  if r.specTokenIds.isEmpty then p
  else
    let n := numNew + r.numComputedTokens - r.numTokens
    let p := { p with
      sched := { p.sched with
        requests := p.sched.requests.modify rid fun r => { r with specTokenIds := [] } } }
    if 0 < n then
      { p with
        scheduledSpecDecodeTokens :=
          p.scheduledSpecDecodeTokens.set rid (r.specTokenIds.take n.toNat) }
    else p

/-- Record that a running request was given tokens and blocks. -/
def scheduleRunning (p : Pass μ β) (rid : ReqId) (numNew : Int) (blocks : β) : Pass μ β :=
  { p with
    scheduledRunningReqs := p.scheduledRunningReqs ++ [rid]
    reqToNewBlocks := p.reqToNewBlocks.set rid blocks
    numScheduledTokens := p.numScheduledTokens.set rid numNew
    tokenBudget := p.tokenBudget - numNew }

/-- The encoder inputs of a request, its new tokens and the budget left, if it has inputs. -/
def tryEncoder (p : Pass μ β) (r : Request) (computed numNew : Int) :
    Pass μ β × List Nat × Int × Int :=
  if r.hasEncoderInputs then
    let (m, inputs, n, budget) :=
      ops.tryScheduleEncoderInputs p.sched.caches r computed numNew p.encoderComputeBudget
    (p.setCaches m, inputs, n, budget)
  else (p, [], numNew, p.encoderComputeBudget)

/-- The first loop of `schedule`: the running requests, from position `idx` on. -/
def runningLoop : Nat → Nat → Pass μ β → Pass μ β
  | 0, _, p => p
  | fuel + 1, idx, p =>
    match p.sched.running[idx]? with
    | none => p
    | some rid =>
      if p.tokenBudget ≤ 0 then p
      else match p.sched.requests.get? rid with
        | none => p
        | some r =>
          match p.tryEncoder ops r r.numComputedTokens (numNewRunning cfg r p.tokenBudget) with
          | (p, inputs, numNew, budget) =>
            if numNew = 0 then runningLoop fuel (idx + 1) p
            else match p.allocateOrEvict ops cfg rid numNew p.sched.running.length idx with
              | (p, _, none) => p
              | (p, idx, some blocks) =>
                let p := (p.scheduleRunning rid numNew blocks).scheduleSpec rid r numNew
                runningLoop fuel (idx + 1) (p.scheduleEncoder ops r inputs budget)

/-- The LoRAs of the requests scheduled so far, and whether one more request fits. -/
def loraBlocked (loras : List Int) (r : Request) : Bool :=
  match cfg.scheduler.maxLoras, r.loraRequest with
  | some maxLoras, some lora => loras.length = maxLoras ∧ lora ∉ loras
  | _, _ => false

/-- The LoRA set after admitting a request. -/
def addLora (loras : List Int) (r : Request) : List Int :=
  match cfg.scheduler.maxLoras, r.loraRequest with
  | some _, some lora => loras.insert lora
  | _, _ => loras

/-- The LoRAs of the running requests that were scheduled. -/
def scheduledLoras (p : Pass μ β) : List Int :=
  match cfg.scheduler.maxLoras with
  | none => []
  | some _ => p.scheduledRunningReqs.foldl (fun loras rid =>
      match (p.sched.requests.get? rid).bind Request.loraRequest with
      | some lora => if 0 < lora then loras.insert lora else loras
      | none => loras) []

/-- Admit a waiting request: it starts running with `computed` tokens already there. -/
def admitRequest (p : Pass μ β) (rid : ReqId) (r : Request) (computed numNew : Int) : Pass μ β :=
  { p with
    sched := { p.sched with
      running := p.sched.running ++ [rid]
      requests := p.sched.requests.set rid
        { r with
          status := .running
          numComputedTokens := computed
          numCachedTokens := if r.numCachedTokens < 0 then computed else r.numCachedTokens } }
    scheduledNewReqs :=
      if r.status = .waiting then p.scheduledNewReqs ++ [rid] else p.scheduledNewReqs
    -- any status but WAITING and PREEMPTED raises in the source
    scheduledResumedReqs :=
      if r.status = .waiting then p.scheduledResumedReqs else p.scheduledResumedReqs ++ [rid]
    reqToNewBlocks := p.reqToNewBlocks.set rid (ops.getBlocks p.sched.caches rid)
    numScheduledTokens := p.numScheduledTokens.set rid numNew
    tokenBudget := p.tokenBudget - numNew }

/-- What one iteration of the waiting loop does with the request at the head of the queue. -/
inductive Verdict (μ β : Type) where
  | stop (p : Pass μ β)
  | skip (p : Pass μ β)
  | admitted (p : Pass μ β)

/-- The tail of an iteration: encoder inputs, allocation, admission. -/
def tryAdmit (p : Pass μ β) (rid : ReqId) (r : Request) (blocks : Option β) (cached : Nat)
    (numNew : Int) : Verdict μ β :=
  let computed : Int := if r.numComputedTokens = 0 then cached else r.numComputedTokens
  match p.tryEncoder ops r computed numNew with
  | (p, inputs, numNew, budget) =>
    -- without encoder inputs `numNew` is positive here
    if r.hasEncoderInputs ∧ numNew = 0 then .stop p
    else
      let lookahead := if r.numComputedTokens = 0 then 0 else cfg.scheduler.numLookaheadTokens
      let encoderTokens : Int :=
        if cfg.scheduler.isEncoderDecoder ∧ r.hasEncoderInputs then
          cfg.scheduler.maxNumEncoderInputTokens
        else 0
      match ops.allocateSlots p.sched.caches r numNew cached blocks lookahead encoderTokens with
      | (m, none) => .stop (p.setCaches m)
      | (m, some _) =>
        .admitted (((p.setCaches m).admitRequest ops rid r computed numNew).scheduleEncoder ops r inputs
          budget)

/-- One iteration of the waiting loop on the request `r` with id `rid`. -/
def considerWaiting (ready : ReqId → Bool) (loras : List Int) (p : Pass μ β) (rid : ReqId)
    (r : Request) : Verdict μ β :=
  if r.status = .waitingForFsm ∧ ready rid = false then .skip p
  else
    let r := r.leaveFsm
    let p := { p with sched := { p.sched with requests := p.sched.requests.set rid r } }
    if loraBlocked cfg loras r then .skip p
    else
      let (blocks, cached) :=
        if r.numComputedTokens = 0 then
          ((some (ops.getComputedBlocks p.sched.caches r).1 : Option β),
            (ops.getComputedBlocks p.sched.caches r).2)
        else (none, 0)
      let computed : Int := if r.numComputedTokens = 0 then cached else r.numComputedTokens
      let numNew := capPrefill cfg (r.numTokens - computed)
      if cfg.scheduler.chunkedPrefillEnabled = false ∧ p.tokenBudget < numNew then .skip p
      else p.tryAdmit ops cfg rid r blocks cached (min numNew p.tokenBudget)

/-- The second loop of `schedule`, over the waiting queue; `skipped` collects what is put back. Under PRIORITY a
pop raises where two waiting requests tie. -/
def waitingLoop (ready : ReqId → Bool) :
    List ReqId → List ReqId → List Int → Pass μ β → Pass μ β × List ReqId × List ReqId
  | [], skipped, _, p => (p, [], skipped)
  | rid :: rest, skipped, loras, p =>
    if p.tokenBudget ≤ 0 ∨ p.sched.running.length = cfg.scheduler.maxNumSeqs then
      (p, rid :: rest, skipped)
    else match p.sched.requests.get? rid with
      | none => (p, rid :: rest, skipped)
      | some r =>
        match p.considerWaiting ops cfg ready loras rid r with
        | .stop p => (p, rid :: rest, skipped)
        | .skip p => waitingLoop ready rest (p.sched.queuePrepend cfg.policy skipped rid) loras p
        | .admitted p => waitingLoop ready rest skipped (addLora cfg loras r) p

end Pass

namespace Scheduler
variable {μ β : Type} (ops : Caches μ β) (cfg : VllmConfig)

/-- The pass `schedule` starts with. -/
def startPass (s : Scheduler μ) : Pass μ β where
  sched := if cfg.policy = .gambit then s.orderRunningByScore else s
  tokenBudget := cfg.scheduler.maxNumBatchedTokens
  encoderComputeBudget := cfg.scheduler.maxNumEncoderInputTokens

/-- The waiting part of `schedule`: nothing is admitted after a preemption. -/
def admitWaiting (ready : ReqId → Bool) (p : Pass μ β) : Pass μ β :=
  if p.preemptedReqs.isEmpty then
    let (p, rest, skipped) :=
      p.waitingLoop ops cfg ready p.sched.waiting [] (p.scheduledLoras cfg)
    { p with sched := { p.sched with waiting := p.sched.queuePrependAll cfg.policy rest skipped } }
  else p

/-- The two loops of `schedule`. -/
def schedulePass (ready : ReqId → Bool) (s : Scheduler μ) : Pass μ β :=
  admitWaiting ops cfg ready
    ((s.startPass cfg).runningLoop ops cfg (2 * s.running.length) 0)

/-- One entry of `_update_after_schedule`: advance the computed tokens of a scheduled request. -/
def advance (s : Scheduler μ) (e : ReqId × Int) : Scheduler μ :=
  match s.requests.get? e.1 with
  | none => s
  | some r =>
    let r := r.advance e.2
    { s with
      requests := s.requests.set e.1 r
      caches := if r.hasEncoderInputs then ops.freeEncoderInputs s.caches r else s.caches }

/-- The `SchedulerOutput` of a finished pass. -/
def passOutput (p : Pass μ β) : SchedulerOutput β where
  scheduledNewReqs := p.scheduledNewReqs
  scheduledResumedReqs := p.scheduledResumedReqs
  scheduledRunningReqs := p.scheduledRunningReqs
  numScheduledTokens := p.numScheduledTokens
  scheduledSpecDecodeTokens := p.scheduledSpecDecodeTokens
  scheduledEncoderInputs := p.scheduledEncoderInputs
  reqToNewBlocks := p.reqToNewBlocks
  finishedReqIds := p.sched.finishedReqIds

/-- Python `Scheduler._update_after_schedule`; the finished ids are dropped here. -/
def updateAfterSchedule (p : Pass μ β) : Scheduler μ :=
  { p.numScheduledTokens.entries.foldl (advance ops) p.sched with
    prevStepScheduledReqIds := p.numScheduledTokens.keys
    finishedReqIds := [] }

/-- Python `Scheduler.schedule`; `ready` says which grammars are compiled. -/
def schedule (ready : ReqId → Bool) (s : Scheduler μ) : Scheduler μ × SchedulerOutput β :=
  let p := s.schedulePass ops cfg ready
  (updateAfterSchedule ops p, passOutput p)

end Scheduler
end Gambit.Sched
