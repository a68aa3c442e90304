import Gambit.Engine.Moves

/-!
# The phases of a step

What each phase of `EngineCore.step` changes. Taking in a reply of the scorer (`Absorbs`) touches the
score state, the pending classifications and the in-flight RPC; submitting to the asynchronous scorer
(`Submits`) stores the new RPC; a decision is a sequence of moves; the end of a step (`Finishes`)
captures the tokens, updates the scheduler and finalises the scores of what finished.
-/

namespace Gambit.Engine
open Gambit.Lib Gambit.Sched Gambit.Trace

/-- The ids of a reply. -/
def Answers (reply : List (Dict ReqId Payload)) (rid : ReqId) : Prop := ∃ d ∈ reply, rid ∈ d

/-- The merged scores are those of the ids that were answered. -/
lemma mem_mergeScores {reply : List (Dict ReqId Payload)} {rid : ReqId} :
    rid ∈ mergeScores reply ↔ Answers reply rid := by
  have inner : ∀ (l : List (ReqId × Payload)) (d : Dict ReqId (List ℚ)),
      rid ∈ l.foldl (fun scores e => scores.set e.1 e.2.values) d ↔
        rid ∈ d ∨ rid ∈ l.map Prod.fst := by
    intro l
    induction l with
    | nil => simp
    | cons a l ih =>
      intro d
      rw [List.foldl_cons, ih, Dict.mem_set, List.map_cons, List.mem_cons]
      tauto
  have outer : ∀ (l : List (Dict ReqId Payload)) (d : Dict ReqId (List ℚ)),
      rid ∈ l.foldl (fun scores worker =>
        worker.entries.foldl (fun scores e => scores.set e.1 e.2.values) scores) d ↔
        rid ∈ d ∨ Answers l rid := by
    intro l
    induction l with
    | nil => simp [Answers]
    | cons w l ih =>
      intro d
      rw [List.foldl_cons, ih, inner]
      simp only [Answers, List.mem_cons, exists_eq_or_imp, or_assoc]
      rfl
  rw [mergeScores, outer]
  simp

namespace EngineCore
variable {μ β : Type} {ops : Caches μ β} {cfg : VllmConfig} {i : StepInput} {e e' : EngineCore μ}

/-- Recording scores touches the score state only, and only at the ids with a score. -/
lemma recordScores_eq (cfg : VllmConfig) (e : EngineCore μ) (scores : Dict ReqId (List ℚ)) :
    ∃ ts ss cs, e.recordScores cfg scores =
      { e with traceScores := ts, traceScoreSums := ss, traceScoreCounts := cs } ∧
      (∀ x, x ∈ ts → x ∈ e.traceScores ∨ x ∈ scores) ∧
      (∀ x, x ∈ ss → x ∈ e.traceScoreSums ∨ x ∈ scores) ∧
      (∀ x, x ∈ cs → x ∈ e.traceScoreCounts ∨ x ∈ scores) := by
  have fold : ∀ (l : List (ReqId × List ℚ)) (e : EngineCore μ), (∀ a ∈ l, a.1 ∈ scores) →
      ∃ ts ss cs, l.foldl (recordScore cfg) e =
        { e with traceScores := ts, traceScoreSums := ss, traceScoreCounts := cs } ∧
        (∀ x, x ∈ ts → x ∈ e.traceScores ∨ x ∈ scores) ∧
        (∀ x, x ∈ ss → x ∈ e.traceScoreSums ∨ x ∈ scores) ∧
        (∀ x, x ∈ cs → x ∈ e.traceScoreCounts ∨ x ∈ scores) := by
    intro l
    induction l with
    | nil => exact fun e _ => ⟨_, _, _, rfl, fun _ => .inl, fun _ => .inl, fun _ => .inl⟩
    | cons a l ih =>
      intro e hl
      obtain ⟨ts, ss, cs, heq, h1, h2, h3⟩ :=
        ih (recordScore cfg e a) fun b hb => hl b (.tail _ hb)
      rw [List.foldl_cons, heq]
      have ha : a.1 ∈ scores := hl a List.mem_cons_self
      unfold recordScore at h1 h2 h3 ⊢
      split at h1
      · next hrec =>
        simp only [hrec, if_true] at h2 h3 ⊢
        refine ⟨_, _, _, rfl, fun x hx => ?_, h2, h3⟩
        rcases h1 x hx with hx | hx
        · exact (Dict.mem_set.1 hx).elim (fun h => .inr (h ▸ ha)) .inl
        · exact .inr hx
      · next hrec =>
        simp only [hrec] at h2 h3 ⊢
        split at h1
        · next hemp =>
          simp only [hemp, if_true] at h2 h3 ⊢
          exact ⟨_, _, _, rfl, h1, h2, h3⟩
        · next hemp =>
          simp only [hemp] at h2 h3 ⊢
          refine ⟨_, _, _, rfl, h1, fun x hx => ?_, fun x hx => ?_⟩
          · rcases h2 x hx with hx | hx
            · exact (Dict.mem_set.1 hx).elim (fun h => .inr (h ▸ ha)) .inl
            · exact .inr hx
          · rcases h3 x hx with hx | hx
            · exact (Dict.mem_set.1 hx).elim (fun h => .inr (h ▸ ha)) .inl
            · exact .inr hx
  exact fold scores.entries e fun a ha => List.mem_map_of_mem (f := Prod.fst) ha

/-- Only the score state matters for recording. -/
lemma recordScores_congr (cfg : VllmConfig) (e e' : EngineCore μ) (scores : Dict ReqId (List ℚ))
    (ht : e'.traceScores = e.traceScores) (hs : e'.traceScoreSums = e.traceScoreSums)
    (hc : e'.traceScoreCounts = e.traceScoreCounts) :
    (e'.recordScores cfg scores).traceScores = (e.recordScores cfg scores).traceScores ∧
      (e'.recordScores cfg scores).traceScoreSums = (e.recordScores cfg scores).traceScoreSums ∧
      (e'.recordScores cfg scores).traceScoreCounts =
        (e.recordScores cfg scores).traceScoreCounts := by
  unfold recordScores
  generalize scores.entries = l
  induction l generalizing e e' with
  | nil => exact ⟨ht, hs, hc⟩
  | cons a l ih =>
    rw [List.foldl_cons, List.foldl_cons]
    apply ih
    all_goals
      unfold recordScore
      split
      · simp only [ht, hs, hc]
      · split <;> simp only [ht, hs, hc]

/-- The keys of the score state after recording. -/
lemma mem_recordScores {scores : Dict ReqId (List ℚ)} {x : ReqId} :
    (x ∈ (e.recordScores cfg scores).traceScores → x ∈ e.traceScores ∨ x ∈ scores) ∧
      (x ∈ (e.recordScores cfg scores).traceScoreSums → x ∈ e.traceScoreSums ∨ x ∈ scores) ∧
      (x ∈ (e.recordScores cfg scores).traceScoreCounts → x ∈ e.traceScoreCounts ∨ x ∈ scores) := by
  obtain ⟨ts, ss, cs, heq, h1, h2, h3⟩ := recordScores_eq cfg e scores
  rw [heq]
  exact ⟨h1 x, h2 x, h3 x⟩

/-- The scores of one trace after recording, with the full histories. -/
def recordedScores (cfg : VllmConfig) (old : Option (List ℚ)) : Option (List ℚ) → Option (List ℚ)
  | some qs => if cfg.gambit.recordScoreHistory then some (old.getD [] ++ qs) else old
  | none => old

/-- The running sum of one trace after recording. -/
def recordedSum (cfg : VllmConfig) (old : Option ℚ) : Option (List ℚ) → Option ℚ
  | some qs =>
    if cfg.gambit.recordScoreHistory || qs.isEmpty then old else some (old.getD 0 + qs.sum)
  | none => old

/-- The number of scores of one trace after recording. -/
def recordedCount (cfg : VllmConfig) (old : Option Nat) : Option (List ℚ) → Option Nat
  | some qs =>
    if cfg.gambit.recordScoreHistory || qs.isEmpty then old else some (old.getD 0 + qs.length)
  | none => old

/-- Recording one entry. -/
lemma get?_recordScore (cfg : VllmConfig) (e : EngineCore μ) (s : ReqId × List ℚ) (x : ReqId) :
    (recordScore cfg e s).traceScores.get? x =
        recordedScores cfg (e.traceScores.get? x) (if s.1 = x then some s.2 else none) ∧
      (recordScore cfg e s).traceScoreSums.get? x =
        recordedSum cfg (e.traceScoreSums.get? x) (if s.1 = x then some s.2 else none) ∧
      (recordScore cfg e s).traceScoreCounts.get? x =
        recordedCount cfg (e.traceScoreCounts.get? x) (if s.1 = x then some s.2 else none) := by
  unfold recordScore
  by_cases hrec : cfg.gambit.recordScoreHistory = true
  · by_cases hx : s.1 = x
    · subst hx
      simp [recordedScores, recordedSum, recordedCount, hrec, Dict.getD_eq]
    · have hx' : ¬ x = s.1 := fun h => hx h.symm
      simp [recordedScores, recordedSum, recordedCount, hrec, hx, hx']
  · by_cases hemp : s.2.isEmpty = true
    · by_cases hx : s.1 = x <;> simp [recordedScores, recordedSum, recordedCount, hrec, hemp, hx]
    · by_cases hx : s.1 = x
      · subst hx
        simp [recordedScores, recordedSum, recordedCount, hrec, hemp, Dict.getD_eq]
      · have hx' : ¬ x = s.1 := fun h => hx h.symm
        simp [recordedScores, recordedSum, recordedCount, hrec, hemp, hx, hx']

/-- The score state of each trace after recording. -/
lemma get?_recordScores (cfg : VllmConfig) (e : EngineCore μ) (scores : Dict ReqId (List ℚ))
    (x : ReqId) :
    (e.recordScores cfg scores).traceScores.get? x =
        recordedScores cfg (e.traceScores.get? x) (scores.get? x) ∧
      (e.recordScores cfg scores).traceScoreSums.get? x =
        recordedSum cfg (e.traceScoreSums.get? x) (scores.get? x) ∧
      (e.recordScores cfg scores).traceScoreCounts.get? x =
        recordedCount cfg (e.traceScoreCounts.get? x) (scores.get? x) := by
  have fold : ∀ (l : List (ReqId × List ℚ)), (l.map Prod.fst).Nodup → ∀ e : EngineCore μ,
      (l.foldl (recordScore cfg) e).traceScores.get? x =
          recordedScores cfg (e.traceScores.get? x)
            ((l.find? (fun o => o.1 = x)).map Prod.snd) ∧
        (l.foldl (recordScore cfg) e).traceScoreSums.get? x =
          recordedSum cfg (e.traceScoreSums.get? x)
            ((l.find? (fun o => o.1 = x)).map Prod.snd) ∧
        (l.foldl (recordScore cfg) e).traceScoreCounts.get? x =
          recordedCount cfg (e.traceScoreCounts.get? x)
            ((l.find? (fun o => o.1 = x)).map Prod.snd) := by
    intro l
    induction l with
    | nil => exact fun _ e => ⟨rfl, rfl, rfl⟩
    | cons s l ih =>
      intro nd e
      obtain ⟨hn, nd⟩ := List.nodup_cons.1 nd
      obtain ⟨h1, h2, h3⟩ := ih nd (recordScore cfg e s)
      obtain ⟨g1, g2, g3⟩ := get?_recordScore cfg e s x
      rw [List.foldl_cons, h1, h2, h3, g1, g2, g3]
      by_cases hx : s.1 = x
      · -- the id of the head does not come again
        have hl : l.find? (fun a => decide (a.1 = x)) = none := by
          rw [List.find?_eq_none]
          intro a ha
          have hne : a.1 ≠ x := fun h => hn (hx ▸ h ▸ List.mem_map_of_mem (f := Prod.fst) ha)
          simpa using hne
        rw [if_pos hx, hl, List.find?_cons_of_pos (by simpa using hx)]
        exact ⟨rfl, rfl, rfl⟩
      · rw [if_neg hx, List.find?_cons_of_neg (by simpa using hx)]
        exact ⟨rfl, rfl, rfl⟩
  exact fold scores.entries scores.nodup e

/-- Taking the scores of a reply in. -/
lemma takeReply_eq (cfg : VllmConfig) (e : EngineCore μ) (collect : Bool)
    (reply : List (Dict ReqId Payload)) :
    ∃ hs, e.takeReply cfg collect reply =
      { e with
        traceScores := (e.recordScores cfg (mergeScores reply)).traceScores
        traceScoreSums := (e.recordScores cfg (mergeScores reply)).traceScoreSums
        traceScoreCounts := (e.recordScores cfg (mergeScores reply)).traceScoreCounts
        traceHiddenStateLast := hs
        record := { e.record with recorded := mergeScores reply } } := by
  refine ⟨if collect then mergeHidden e.traceHiddenStateLast reply else e.traceHiddenStateLast, ?_⟩
  unfold takeReply
  dsimp only
  generalize hdef : ({ e with
    traceHiddenStateLast :=
      if collect then mergeHidden e.traceHiddenStateLast reply else e.traceHiddenStateLast
    record := { e.record with recorded := mergeScores reply } } : EngineCore μ) = e0
  obtain ⟨ts, ss, cs, heq, -⟩ := recordScores_eq cfg e0 (mergeScores reply)
  obtain ⟨h1, h2, h3⟩ := recordScores_congr cfg e e0 (mergeScores reply)
    (by rw [← hdef]) (by rw [← hdef]) (by rw [← hdef])
  rw [← h1, ← h2, ← h3, heq, ← hdef]

/-- The averages are those of traces with score state. -/
lemma mem_traceAvgScores {rid : ReqId} (h : rid ∈ e.traceAvgScores cfg) :
    rid ∈ e.traceScores ∨ rid ∈ e.traceScoreCounts := by
  unfold traceAvgScores at h
  split at h
  · obtain ⟨v, hv, -⟩ := Dict.mem_filterMap.1 h
    exact .inl (Dict.mem_of_get? hv)
  · obtain ⟨v, hv, -⟩ := Dict.mem_filterMap.1 h
    exact .inr (Dict.mem_of_get? hv)

/-- Taking in a reply: new scores, fewer pending requests, perhaps no RPC in flight any more. -/
def Absorbs (cfg : VllmConfig) (reply : List (Dict ReqId Payload)) (e e' : EngineCore μ) : Prop :=
  ∃ hs pend fut recorded evaluated,
    e' = { e with
      traceScores := (e.recordScores cfg (mergeScores reply)).traceScores
      traceScoreSums := (e.recordScores cfg (mergeScores reply)).traceScoreSums
      traceScoreCounts := (e.recordScores cfg (mergeScores reply)).traceScoreCounts
      traceHiddenStateLast := hs
      pendingHsClassification := pend
      asyncScorerFuture := fut
      record := { e.record with recorded := recorded, evaluated := evaluated } } ∧
    (∀ x, x ∈ pend → x ∈ e.pendingHsClassification) ∧
    (fut = none ∨ fut = e.asyncScorerFuture)

/-- Submitting pending and scheduled requests to the asynchronous scorer. -/
def Submits (so : SchedulerOutput β) (e e' : EngineCore μ) : Prop :=
  ∃ reply collect ids,
    e' = { e with
      asyncScorerFuture := some reply
      asyncScorerCollectHidden := collect
      asyncScorerReqIds := ids
      record := { e.record with evaluated := ids } } ∧
    (∀ x, Answers reply x → x ∈ ids) ∧
    ∀ x ∈ ids, x ∈ e.pendingHsClassification ∧ x ∈ so.numScheduledTokens

/-- The result of the aggregation: nothing, new labels, or new labels and a decision. -/
lemma aggregateAndDecide_cases (cfg : VllmConfig) (i : StepInput) (e : EngineCore μ) :
    ((e.traceAvgScores cfg).entries = [] ∧ e.aggregateAndDecide cfg i = e) ∨
    (gambitEnabled cfg = false ∧ e.aggregateAndDecide cfg i =
      e.handAverages (e.traceAvgScores cfg)) ∨
    gambitEnabled cfg = true ∧ Moves cfg i (e.traceAvgScores cfg)
      ((e.handAverages (e.traceAvgScores cfg)).registered cfg (e.traceAvgScores cfg))
      (e.aggregateAndDecide cfg i) := by
  unfold aggregateAndDecide
  dsimp only
  split
  · next hemp => exact .inl ⟨List.isEmpty_iff.1 hemp, rfl⟩
  split
  · next hg => exact .inr (.inr ⟨hg, decisionStep_moves _ _⟩)
  · next hg => exact .inr (.inl ⟨Bool.not_eq_true _ ▸ hg, rfl⟩)

/-- Consuming asynchronous scores: nothing, or take the reply in, aggregate and decide. -/
lemma consumeAsyncScores_cases (cfg : VllmConfig) (i : StepInput) (e : EngineCore μ) :
    (e.consumeAsyncScores cfg i = e ∧ (cfg.asyncScorer = false ∨ e.asyncScorerFuture = none)) ∨
    ∃ reply e1, cfg.asyncScorer = true ∧ e.asyncScorerFuture = some reply ∧
      Absorbs cfg reply e e1 ∧ e1.asyncScorerFuture = none ∧
      e.consumeAsyncScores cfg i = e1.aggregateAndDecide cfg i := by
  unfold consumeAsyncScores
  split
  · next reply hasync hfut =>
    refine .inr ⟨reply, _, hasync, hfut, ?_, ?_, rfl⟩
    all_goals
      obtain ⟨hs, heq⟩ := takeReply_eq cfg { e with asyncScorerFuture := none }
        e.asyncScorerCollectHidden reply
      obtain ⟨h1, h2, h3⟩ := recordScores_congr cfg e { e with asyncScorerFuture := none }
        (mergeScores reply) rfl rfl rfl
      rw [heq, h1, h2, h3]
    refine ⟨hs, _, none, mergeScores reply, e.record.evaluated, rfl, ?_, .inl rfl⟩
    intro x hx
    split at hx
    · exact hx
    · exact (mem_removeIds.1 hx).1
  · next hcases =>
    refine .inl ⟨rfl, ?_⟩
    cases ha : cfg.asyncScorer with
    | false => exact .inl rfl
    | true =>
      cases hf : e.asyncScorerFuture with
      | none => exact .inr rfl
      | some reply => exact absurd hf (hcases reply ha)

/-- The due requests are pending and scheduled. -/
lemma mem_dueRequests {so : SchedulerOutput β} {rid : ReqId} :
    rid ∈ e.dueRequests i so ↔ rid ∈ e.pendingHsClassification ∧ rid ∈ so.numScheduledTokens := by
  rw [dueRequests, List.mem_filter, (i.setOrder.perm _).mem_iff]
  simp

/-- Scoring the pending requests: nothing, a submission, or take the reply in and decide. -/
lemma scorePending_cases (cfg : VllmConfig) (i : StepInput) (e : EngineCore μ)
    (so : SchedulerOutput β) :
    e.scorePending cfg i so = e ∨
    (cfg.asyncScorer = true ∧ Submits so e (e.scorePending cfg i so)) ∨
    ∃ reply e1, cfg.asyncScorer = false ∧ (∀ x, Answers reply x → x ∈ e.dueRequests i so) ∧
      Absorbs cfg reply e e1 ∧ e1.asyncScorerFuture = e.asyncScorerFuture ∧
      e.scorePending cfg i so = e1.aggregateAndDecide cfg i := by
  unfold scorePending
  dsimp only
  split
  · exact .inl rfl
  have hsub : ∀ x, Answers (i.scorer cfg.gambit.collectHiddenStatesForMining (e.dueRequests i so)) x →
      x ∈ e.dueRequests i so := fun x ⟨d, hd, hx⟩ => i.scorer_subset _ _ d hd x hx
  split
  · next hasync =>
    exact .inr (.inl ⟨hasync, _, _, _, rfl, hsub, fun x hx => mem_dueRequests.1 hx⟩)
  · next hasync =>
    refine .inr (.inr ⟨i.scorer cfg.gambit.collectHiddenStatesForMining (e.dueRequests i so), _,
      by simpa using hasync, hsub, ?_, ?_, rfl⟩)
    all_goals
      obtain ⟨hs, heq⟩ := takeReply_eq cfg
        { e with record := { e.record with evaluated := e.dueRequests i so } }
        cfg.gambit.collectHiddenStatesForMining
        (i.scorer cfg.gambit.collectHiddenStatesForMining (e.dueRequests i so))
      obtain ⟨h1, h2, h3⟩ := recordScores_congr cfg e
        { e with record := { e.record with evaluated := e.dueRequests i so } }
        (mergeScores (i.scorer cfg.gambit.collectHiddenStatesForMining (e.dueRequests i so)))
        rfl rfl rfl
      rw [heq, h1, h2, h3]
    exact ⟨hs, _, _, _, e.dueRequests i so, rfl, fun x hx => (mem_removeIds.1 hx).1, .inr rfl⟩

/-- Whether the sampled tokens of a request put it at a step boundary. -/
def boundary (cfg : VllmConfig) (e : EngineCore μ) (rid : ReqId) (sampled : List Token) : Bool :=
  if 0 < cfg.gambit.scoringStride then
    cfg.gambit.scoringStride ≤
      ((e.tokenCount rid + sampled.length : Nat) : Int) - e.strideLastTrigger.getD rid 0
  else hitsBoundary cfg sampled

/-- Only the counters of the request matter. -/
lemma boundary_congr {rid : ReqId} {sampled : List Token}
    (ht : e'.traceTokenCounts.get? rid = e.traceTokenCounts.get? rid)
    (hs : e'.strideLastTrigger.get? rid = e.strideLastTrigger.get? rid) :
    boundary cfg e' rid sampled = boundary cfg e rid sampled := by
  unfold boundary tokenCount
  rw [Dict.getD_eq, Dict.getD_eq, Dict.getD_eq, Dict.getD_eq, ht, hs]

/-- One iteration of the trigger loop. -/
lemma detectTrigger_eq (cfg : VllmConfig) (e : EngineCore μ) (ids : List ReqId)
    (o : ReqId × List Token) :
    ∃ sl, detectTrigger cfg (e, ids) o =
      ({ e with
          traceTokenCounts := e.traceTokenCounts.set o.1 (e.tokenCount o.1 + o.2.length)
          strideLastTrigger := sl },
        if boundary cfg e o.1 o.2 then ids ++ [o.1] else ids) ∧
      (∀ x, x ≠ o.1 → sl.get? x = e.strideLastTrigger.get? x) := by
  unfold detectTrigger boundary
  dsimp only
  by_cases hs : 0 < cfg.gambit.scoringStride
  · simp only [hs, if_true]
    split
    · next h =>
      refine ⟨e.strideLastTrigger.set o.1 (e.tokenCount o.1 + o.2.length), ?_, ?_⟩
      · rw [if_pos (by simpa using h)]
      · exact fun x hx => by rw [Dict.get?_set, if_neg hx]
    · next h =>
      refine ⟨e.strideLastTrigger, ?_, fun x _ => rfl⟩
      rw [if_neg (by simpa using h)]
  · simp only [hs, if_false]
    split
    · exact ⟨e.strideLastTrigger, rfl, fun x _ => rfl⟩
    · exact ⟨e.strideLastTrigger, rfl, fun x _ => rfl⟩

/-- The trigger loop, on entries with distinct ids. -/
lemma foldl_detectTrigger (cfg : VllmConfig) (l : List (ReqId × List Token))
    (nd : (l.map Prod.fst).Nodup) (e : EngineCore μ) (ids : List ReqId) :
    ∃ tc sl, l.foldl (detectTrigger cfg) (e, ids) =
      ({ e with traceTokenCounts := tc, strideLastTrigger := sl },
        ids ++ (l.filter fun o => boundary cfg e o.1 o.2).map Prod.fst) ∧
      (∀ x, x ∉ l.map Prod.fst → tc.get? x = e.traceTokenCounts.get? x ∧
        sl.get? x = e.strideLastTrigger.get? x) := by
  induction l generalizing e ids with
  | nil => exact ⟨_, _, by simp, fun x _ => ⟨rfl, rfl⟩⟩
  | cons o l ih =>
    obtain ⟨hn, nd⟩ := List.nodup_cons.1 nd
    obtain ⟨sl₀, h0, hsl0⟩ := detectTrigger_eq cfg e ids o
    rw [List.foldl_cons, h0]
    obtain ⟨tc, sl, heq, hout⟩ := ih nd { e with
      traceTokenCounts := e.traceTokenCounts.set o.1 (e.tokenCount o.1 + o.2.length)
      strideLastTrigger := sl₀ } (if boundary cfg e o.1 o.2 then ids ++ [o.1] else ids)
    -- the counters of the other requests are those of `e`
    have hb : ∀ a ∈ l, boundary cfg { e with
        traceTokenCounts := e.traceTokenCounts.set o.1 (e.tokenCount o.1 + o.2.length)
        strideLastTrigger := sl₀ } a.1 a.2 = boundary cfg e a.1 a.2 := by
      intro a ha
      have hne : a.1 ≠ o.1 := fun h => hn (h ▸ List.mem_map_of_mem (f := Prod.fst) ha)
      refine boundary_congr ?_ ?_
      · rw [Dict.get?_set, if_neg hne]
      · exact hsl0 a.1 hne
    refine ⟨tc, sl, ?_, fun x hx => ?_⟩
    · rw [heq, List.filter_congr hb]
      cases hbo : boundary cfg e o.1 o.2 with
      | true => simp [hbo]
      | false => simp [hbo]
    · rw [List.map_cons, List.mem_cons, not_or] at hx
      obtain ⟨h1, h2⟩ := hout x hx.2
      rw [h1, h2]
      exact ⟨by rw [Dict.get?_set, if_neg hx.1], hsl0 x hx.1⟩

/-- The requests at a step boundary, in batch order. -/
def triggers (cfg : VllmConfig) (e : EngineCore μ) (mo : ModelRunnerOutput) : List ReqId :=
  (mo.entries.filter fun o => boundary cfg e o.1 o.2).map Prod.fst

/-- The requests at a boundary are those of the batch whose tokens reach one. -/
lemma mem_triggers {mo : ModelRunnerOutput} {rid : ReqId} :
    rid ∈ triggers cfg e mo ↔ ∃ ts, mo.get? rid = some ts ∧ boundary cfg e rid ts = true := by
  simp only [triggers, List.mem_map, List.mem_filter]
  constructor
  · rintro ⟨o, ⟨ho, hb⟩, rfl⟩
    exact ⟨o.2, Dict.get?_eq_some.2 ho, hb⟩
  · rintro ⟨ts, hts, hb⟩
    exact ⟨(rid, ts), ⟨Dict.get?_eq_some.1 hts, hb⟩, rfl⟩

/-- The trigger phase. -/
lemma detectTriggers_eq (cfg : VllmConfig) (e : EngineCore μ) (mo : ModelRunnerOutput) :
    ∃ tc sl, e.detectTriggers cfg mo =
      { e with
        traceTokenCounts := tc
        strideLastTrigger := sl
        pendingHsClassification := addAll e.pendingHsClassification (triggers cfg e mo)
        record := { e.record with triggered := triggers cfg e mo } } ∧
      (∀ x, x ∉ mo → tc.get? x = e.traceTokenCounts.get? x ∧
        sl.get? x = e.strideLastTrigger.get? x) := by
  obtain ⟨tc, sl, heq, h⟩ := foldl_detectTrigger cfg mo.entries mo.nodup e []
  refine ⟨tc, sl, ?_, h⟩
  unfold detectTriggers
  rw [heq]
  rfl

/-- The EOS token of a live request. -/
def eosOf (s : Scheduler μ) (rid : ReqId) : Option Token :=
  (s.requests.get? rid).bind Request.eosTokenId

/-- The tokens after an injection: the EOS token alone, or the sampled ones if there is none. -/
def withEos : Option Token → List Token → List Token
  | some eos, _ => [eos]
  | none, ts => ts

/-- Injecting twice is injecting once. -/
lemma withEos_withEos (eos : Option Token) (ts : List Token) :
    withEos eos (withEos eos ts) = withEos eos ts := by
  cases eos <;> rfl

lemma get?_insertEosAt (s : Scheduler μ) (mo : ModelRunnerOutput) (rid x : ReqId) :
    (insertEosAt s mo rid).get? x =
      if x = rid then (mo.get? x).map (withEos (eosOf s x)) else mo.get? x := by
  unfold insertEosAt
  by_cases hx : x = rid
  · subst hx
    rw [if_pos rfl]
    cases he : (s.requests.get? x).bind Request.eosTokenId with
    | none => cases hm : mo.get? x <;> simp [eosOf, he, withEos]
    | some eos => cases hm : mo.get? x <;> simp [eosOf, he, withEos, hm]
  · rw [if_neg hx]
    cases (s.requests.get? rid).bind Request.eosTokenId with
    | none => rfl
    | some eos => simp [hx]

/-- What `_insert_eos` makes of the output. -/
lemma get?_insertEos (s : Scheduler μ) (mo : ModelRunnerOutput) (ids : List ReqId) (x : ReqId) :
    (insertEos s mo ids).get? x =
      if x ∈ ids then (mo.get? x).map (withEos (eosOf s x)) else mo.get? x := by
  unfold insertEos
  induction ids generalizing mo with
  | nil => simp
  | cons y ids ih =>
    rw [List.foldl_cons, ih, get?_insertEosAt]
    by_cases hxy : x = y
    · subst hxy
      simp only [List.mem_cons, true_or, if_true]
      split
      · cases mo.get? x with
        | none => rfl
        | some ts => simp [withEos_withEos]
      · rfl
    · simp [List.mem_cons, hxy]

/-- Whether a request waits for its EOS token. -/
def StopPending (e : EngineCore μ) (rid : ReqId) : Prop :=
  rid ∈ e.pendingLowScoreStops ∨ rid ∈ e.pendingForceStops

instance (e : EngineCore μ) (rid : ReqId) : Decidable (e.StopPending rid) :=
  inferInstanceAs (Decidable (_ ∨ _))

/-- Relabelling keeps the EOS tokens. -/
lemma eosOf_relabels {s s' : Scheduler μ} (h : s.Relabels s') (rid : ReqId) :
    eosOf s' rid = eosOf s rid := by
  have hrel := h.requests rid
  unfold eosOf
  generalize s.requests.get? rid = o at hrel
  generalize s'.requests.get? rid = o' at hrel
  cases hrel with
  | none => rfl
  | some hr => exact hr.1.eosTokenId

/-- The injection phase: labels, pending marks and tokens. -/
lemma injectEos_eq (e : EngineCore μ) (mo : ModelRunnerOutput) :
    ∃ s low force mo', e.injectEos mo =
      ({ e with scheduler := s, pendingLowScoreStops := low, pendingForceStops := force }, mo') ∧
      e.scheduler.Relabels s ∧
      s.traceScores = e.scheduler.traceScores ∧
      (∀ x, x ∈ low ↔ x ∈ e.pendingLowScoreStops ∧ x ∉ mo) ∧
      (∀ x, x ∈ force ↔ x ∈ e.pendingForceStops ∧ x ∉ mo) ∧
      (∀ x, mo'.get? x = if e.StopPending x then
          (mo.get? x).map (withEos (eosOf e.scheduler x))
        else mo.get? x) := by
  have hmem : ∀ (l : List ReqId) (mo : ModelRunnerOutput) (x : ReqId),
      x ∈ removeIds l (l.filter (· ∈ mo)) ↔ x ∈ l ∧ x ∉ mo := by
    intro l mo x
    rw [mem_removeIds, List.mem_filter]
    simp only [decide_eq_true_eq]
    tauto
  have hmo : ∀ (s : Scheduler μ) (ids : List ReqId) (x : ReqId),
      x ∈ insertEos s mo ids ↔ x ∈ mo := by
    intro s ids x
    rw [Dict.mem_iff_get?, Dict.mem_iff_get?, get?_insertEos]
    split
    · simp
    · rfl
  have hr1 := Scheduler.relabels_markStopReason e.scheduler
    (e.pendingLowScoreStops.filter (· ∈ mo)) .gambitPruned
  have hr2 := Scheduler.relabels_markStopReason (e.scheduler.markStopReason
    (e.pendingLowScoreStops.filter (· ∈ mo)) .gambitPruned)
    (e.pendingForceStops.filter (· ∈ insertEos (e.scheduler.markStopReason
      (e.pendingLowScoreStops.filter (· ∈ mo)) .gambitPruned) mo
        (e.pendingLowScoreStops.filter (· ∈ mo)))) .gambitStopAfterCompleted
  refine ⟨_, _, _, _, rfl, hr1.trans hr2, rfl, fun x => hmem _ _ _, fun x => ?_, fun x => ?_⟩
  · refine (hmem _ _ _).trans (and_congr_right fun _ => not_congr ?_)
    exact hmo _ _ _
  · dsimp only [injectStops]
    rw [get?_insertEos, get?_insertEos]
    rw [eosOf_relabels hr1 x, eosOf_relabels (hr1.trans hr2) x]
    simp only [List.mem_filter, decide_eq_true_eq, hmo, StopPending]
    by_cases hx : x ∈ mo
    · by_cases h1 : x ∈ e.pendingLowScoreStops <;> by_cases h2 : x ∈ e.pendingForceStops <;>
        simp [h1, h2, hx]
      cases mo.get? x with
      | none => rfl
      | some ts => simp [withEos_withEos]
    · simp [hx, Dict.get?_eq_none.2 hx]

/-- The captured tokens of a request after the capture phase. -/
lemma getD_captureTokens (e : EngineCore μ) (mo : ModelRunnerOutput) (x : ReqId) :
    (e.captureTokens mo).gambitOutputTokenIds.getD x [] =
      e.gambitOutputTokenIds.getD x [] ++ mo.getD x [] := by
  have fold : ∀ (l : List (ReqId × List Token)), (l.map Prod.fst).Nodup →
      ∀ bufs : Dict ReqId (List Token), (l.foldl captureToken bufs).getD x [] =
        bufs.getD x [] ++ (((l.find? (fun o => o.1 = x)).map Prod.snd).getD []) := by
    intro l
    induction l with
    | nil => simp
    | cons o l ih =>
      intro nd bufs
      obtain ⟨hn, nd⟩ := List.nodup_cons.1 nd
      rw [List.foldl_cons, ih nd]
      have hc : (captureToken bufs o).getD x [] =
          if x = o.1 then bufs.getD x [] ++ o.2 else bufs.getD x [] := by
        unfold captureToken
        split
        · next hemp =>
          have : o.2 = [] := by simpa using hemp
          simp [this]
        · simp only [Dict.getD_eq, Dict.get?_set]
          split
          · next hx => simp [hx]
          · rfl
      rw [hc]
      by_cases hx : x = o.1
      · have hl : l.find? (fun a => decide (a.1 = x)) = none := by
          rw [List.find?_eq_none]
          intro a ha
          have hne : a.1 ≠ x := fun h => hn (hx ▸ h ▸ List.mem_map_of_mem (f := Prod.fst) ha)
          simpa using hne
        simp [hx, hx ▸ hl]
      · have hx' : o.1 ≠ x := fun h => hx h.symm
        simp [hx, hx']
  exact fold mo.entries mo.nodup e.gambitOutputTokenIds

/-- The captured requests after the capture phase. -/
lemma mem_captureTokens {mo : ModelRunnerOutput} {x : ReqId}
    (h : x ∈ (e.captureTokens mo).gambitOutputTokenIds) : x ∈ e.gambitOutputTokenIds ∨ x ∈ mo := by
  have fold : ∀ (l : List (ReqId × List Token)) (bufs : Dict ReqId (List Token)),
      x ∈ l.foldl captureToken bufs → x ∈ bufs ∨ x ∈ l.map Prod.fst := by
    intro l
    induction l with
    | nil => exact fun bufs h => .inl h
    | cons o l ih =>
      intro bufs h
      rcases ih _ h with h | h
      · unfold captureToken at h
        split at h
        · exact .inl h
        · rcases Dict.mem_set.1 h with rfl | h
          · exact .inr List.mem_cons_self
          · exact .inl h
      · exact .inr (.tail _ h)
  exact fold mo.entries e.gambitOutputTokenIds h

/-- Erasing other ids. -/
lemma mem_foldl_erase {l s : List ReqId} {rid : ReqId} (hx : rid ∉ l) :
    rid ∈ l.foldl List.erase s ↔ rid ∈ s := by
  induction l generalizing s with
  | nil => rfl
  | cons y l ih =>
    rw [List.mem_cons, not_or] at hx
    rw [List.foldl_cons, ih hx.2, List.mem_erase_of_ne hx.1]

/-- Erasing makes a list smaller. -/
lemma mem_of_mem_foldl_erase {l s : List ReqId} {rid : ReqId} (h : rid ∈ l.foldl List.erase s) : rid ∈ s := by
  induction l generalizing s with
  | nil => exact h
  | cons y l ih => exact List.mem_of_mem_erase (ih h)

/-- What `_finalize_scores` does to the state outside of the tree. -/
structure Finalized (cfg : VllmConfig) (l : List ReqId) (e e' : EngineCore μ) : Prop where
  scheduler : e'.scheduler = e.scheduler
  traceScores : ∀ x, e'.traceScores.get? x = if x ∈ l then none else e.traceScores.get? x
  traceScoreSums : ∀ x, e'.traceScoreSums.get? x = if x ∈ l then none else e.traceScoreSums.get? x
  traceScoreCounts : ∀ x,
    e'.traceScoreCounts.get? x = if x ∈ l then none else e.traceScoreCounts.get? x
  traceTokenCounts : ∀ x,
    e'.traceTokenCounts.get? x = if x ∈ l then none else e.traceTokenCounts.get? x
  strideLastTrigger : ∀ x,
    e'.strideLastTrigger.get? x = if x ∈ l then none else e.strideLastTrigger.get? x
  gambitOutputTokenIds : ∀ x, e'.gambitOutputTokenIds.get? x =
    if gambitEnabled cfg ∧ x ∈ l then none else e.gambitOutputTokenIds.get? x
  pendingLowScoreStops : e'.pendingLowScoreStops = l.foldl List.erase e.pendingLowScoreStops
  pendingForceStops : e'.pendingForceStops = l.foldl List.erase e.pendingForceStops
  pendingHsClassification : e'.pendingHsClassification = e.pendingHsClassification
  asyncScorerFuture : e'.asyncScorerFuture = e.asyncScorerFuture
  asyncScorerReqIds : e'.asyncScorerReqIds = e.asyncScorerReqIds
  record : e'.record = e.record

/-- `_finalize_scores` on one id. -/
lemma finalizeScore_spec (cfg : VllmConfig) (e : EngineCore μ) (rid : ReqId) :
    Finalized cfg [rid] e (finalizeScore cfg e rid) := by
  unfold finalizeScore
  dsimp only
  split
  · next hg => constructor <;> simp [hg]
  · next hg => constructor <;> simp [hg]

/-- Finalising two lists in a row. -/
lemma Finalized.append {l l' : List ReqId} {e'' : EngineCore μ} (h : Finalized cfg l e e')
    (h' : Finalized cfg l' e' e'') : Finalized cfg (l ++ l') e e'' where
  scheduler := h'.scheduler.trans h.scheduler
  traceScores x := by rw [h'.traceScores, h.traceScores]; simp only [List.mem_append]; split_ifs <;> simp_all
  traceScoreSums x := by
    rw [h'.traceScoreSums, h.traceScoreSums]; simp only [List.mem_append]; split_ifs <;> simp_all
  traceScoreCounts x := by
    rw [h'.traceScoreCounts, h.traceScoreCounts]; simp only [List.mem_append]; split_ifs <;> simp_all
  traceTokenCounts x := by
    rw [h'.traceTokenCounts, h.traceTokenCounts]; simp only [List.mem_append]; split_ifs <;> simp_all
  strideLastTrigger x := by
    rw [h'.strideLastTrigger, h.strideLastTrigger]; simp only [List.mem_append]; split_ifs <;> simp_all
  gambitOutputTokenIds x := by
    rw [h'.gambitOutputTokenIds, h.gambitOutputTokenIds]
    simp only [List.mem_append]
    split_ifs <;> simp_all
  pendingLowScoreStops := by
    rw [h'.pendingLowScoreStops, h.pendingLowScoreStops, List.foldl_append]
  pendingForceStops := by rw [h'.pendingForceStops, h.pendingForceStops, List.foldl_append]
  pendingHsClassification := h'.pendingHsClassification.trans h.pendingHsClassification
  asyncScorerFuture := h'.asyncScorerFuture.trans h.asyncScorerFuture
  asyncScorerReqIds := h'.asyncScorerReqIds.trans h.asyncScorerReqIds
  record := h'.record.trans h.record

/-- `_finalize_scores` outside of the tree. -/
lemma finalizeScores_spec (cfg : VllmConfig) (e : EngineCore μ) (l : List ReqId) :
    Finalized cfg l e (e.finalizeScores cfg l) := by
  induction l generalizing e with
  | nil => constructor <;> simp [finalizeScores]
  | cons rid l ih =>
    have := (finalizeScore_spec cfg e rid).append (ih (finalizeScore cfg e rid))
    simpa [finalizeScores] using this

/-- A property of the tree that finishing every id of a list keeps. -/
lemma finalizeScores_tree {P : TraceTree → Prop} {l : List ReqId}
    (step : ∀ t, ∀ rid ∈ l, ∀ score tokens, P t → P (onRequestFinished t rid score tokens))
    (h : P e.traceTree) : P (e.finalizeScores cfg l).traceTree := by
  induction l generalizing e with
  | nil => exact h
  | cons rid l ih =>
    refine ih (fun t x hx => step t x (.tail _ hx)) ?_
    unfold finalizeScore
    dsimp only
    split
    · exact step _ _ List.mem_cons_self _ _ h
    · exact h

/-- A property of the tree that finishing `x` gives and finishing the other ids keeps, under an
invariant `R`. -/
lemma finalizeScores_tree_of_mem {P R : TraceTree → Prop} {l : List ReqId} {x : ReqId}
    (hg : gambitEnabled cfg = true) (hx : x ∈ l) (hR : R e.traceTree)
    (inv : ∀ t, ∀ rid ∈ l, ∀ score tokens, R t → R (onRequestFinished t rid score tokens))
    (give : ∀ t score tokens, R t → P (onRequestFinished t x score tokens))
    (keep : ∀ t, ∀ rid ∈ l, ∀ score tokens, R t → P t → P (onRequestFinished t rid score tokens)) :
    P (e.finalizeScores cfg l).traceTree := by
  induction l generalizing e with
  | nil => cases hx
  | cons rid l ih =>
    have htree : (finalizeScore cfg e rid).traceTree =
        onRequestFinished e.traceTree rid (e.finalAvg cfg rid) (e.gambitOutputTokenIds.get? rid) := by
      unfold finalizeScore
      dsimp only
      rw [if_pos hg]
    have hR' : R (finalizeScore cfg e rid).traceTree := by
      rw [htree]; exact inv _ _ List.mem_cons_self _ _ hR
    have hinv := fun t y hy => inv t y (.tail _ hy)
    by_cases hm : x ∈ l
    · exact ih hm hR' hinv fun t y hy => keep t y (.tail _ hy)
    · have he : x = rid := (List.mem_cons.1 hx).resolve_right hm
      subst he
      have hP : P (finalizeScore cfg e x).traceTree := by rw [htree]; exact give _ _ _ hR
      have hboth : R ((finalizeScore cfg e x).finalizeScores cfg l).traceTree ∧
          P ((finalizeScore cfg e x).finalizeScores cfg l).traceTree :=
        finalizeScores_tree (P := fun t => R t ∧ P t)
          (fun t y hy score tokens ht => ⟨inv t y (.tail _ hy) score tokens ht.1,
            keep t y (.tail _ hy) score tokens ht.1 ht.2⟩) ⟨hR', hP⟩
      exact hboth.2

/-- The captured tokens before finalisation. -/
def captured (cfg : VllmConfig) (e : EngineCore μ) (mo : ModelRunnerOutput) :
    Dict ReqId (List Token) :=
  if gambitEnabled cfg then (e.captureTokens mo).gambitOutputTokenIds else e.gambitOutputTokenIds

/-- What the last part of a step does; `fin` are the requests that finished. -/
structure Finishes (cfg : VllmConfig) (so : SchedulerOutput β) (mo : ModelRunnerOutput)
    (fin : List ReqId) (e e' : EngineCore μ) : Prop where
  update : Scheduler.UpdateSpec cfg so mo e.scheduler e'.scheduler
  mem_fin : ∀ x, x ∈ fin ↔ x ∈ e'.scheduler.finishedReqIds
  finalized : Finalized cfg fin { e with
    scheduler := e'.scheduler
    gambitOutputTokenIds := captured cfg e mo
    record := e'.record } e'
  record : ∃ outs, e'.record =
    { e.record with finished := e'.scheduler.finishedReqIds, outputs := outs }
  tree : ∀ P : TraceTree → Prop,
    (∀ t, ∀ rid ∈ fin, ∀ score tokens, P t → P (onRequestFinished t rid score tokens)) →
    P e.traceTree → P e'.traceTree
  finishes : gambitEnabled cfg = true → ∀ (P R : TraceTree → Prop), ∀ x ∈ fin, R e.traceTree →
    (∀ t, ∀ rid ∈ fin, ∀ score tokens, R t → R (onRequestFinished t rid score tokens)) →
    (∀ t score tokens, R t → P (onRequestFinished t x score tokens)) →
    (∀ t, ∀ rid ∈ fin, ∀ score tokens, R t → P t → P (onRequestFinished t rid score tokens)) →
    P e'.traceTree

/-- The scheduler at the end of a step. -/
lemma scheduler_finishStep (ops : Caches μ β) (cfg : VllmConfig) (i : StepInput) (e : EngineCore μ)
    (so : SchedulerOutput β) (mo : ModelRunnerOutput) :
    (e.finishStep ops cfg i so mo).scheduler =
      (e.scheduler.updateFromOutput ops cfg so mo e.finalTraceScores (e.histories cfg)).1 := by
  unfold finishStep
  dsimp only
  rw [(finalizeScores_spec ..).scheduler]
  dsimp only
  split <;> rfl

/-- The last part of a step. -/
lemma finishStep_spec (ops : Caches μ β) (cfg : VllmConfig) (i : StepInput)
    (hwf : e.scheduler.WF) (so : SchedulerOutput β) (mo : ModelRunnerOutput) :
    ∃ fin, Finishes cfg so mo fin e (e.finishStep ops cfg i so mo) := by
  have hcap : (if gambitEnabled cfg then e.captureTokens mo else e) =
      { e with gambitOutputTokenIds := captured cfg e mo } := by
    unfold captured
    split <;> rfl
  unfold finishStep
  dsimp only
  rw [hcap]
  have hupd : Scheduler.UpdateSpec cfg so mo e.scheduler (e.scheduler.updateFromOutput ops cfg so mo
      e.finalTraceScores (e.histories cfg)).1 := hwf.updateFromOutput ..
  have hhist : ({ e with gambitOutputTokenIds := captured cfg e mo } : EngineCore μ).histories cfg =
      e.histories cfg := rfl
  rw [hhist]
  dsimp only
  generalize e.scheduler.updateFromOutput ops cfg so mo e.finalTraceScores (e.histories cfg) = u
    at hupd ⊢
  generalize he2 : ({ e with
    scheduler := u.1
    gambitOutputTokenIds := captured cfg e mo
    record := { e.record with finished := u.1.finishedReqIds } } : EngineCore μ) = e2
  have hfin := finalizeScores_spec cfg e2 (i.setOrder u.1.finishedReqIds)
  have hs : (e2.finalizeScores cfg (i.setOrder u.1.finishedReqIds)).scheduler = u.1 := by
    rw [hfin.scheduler, ← he2]
  refine ⟨i.setOrder u.1.finishedReqIds, ?_, ?_, ?_, ?_, ?_, ?_⟩
  · dsimp only; rw [hs]; exact hupd
  · intro x
    dsimp only
    rw [hs]
    exact (i.setOrder.perm _).mem_iff
  · subst he2
    exact ⟨rfl, hfin.traceScores, hfin.traceScoreSums, hfin.traceScoreCounts,
      hfin.traceTokenCounts, hfin.strideLastTrigger, hfin.gambitOutputTokenIds,
      hfin.pendingLowScoreStops, hfin.pendingForceStops, hfin.pendingHsClassification,
      hfin.asyncScorerFuture, hfin.asyncScorerReqIds, rfl⟩
  · refine ⟨attachFinalScores (e2.finalizeScores cfg
      (i.setOrder u.1.finishedReqIds)).finalTraceScores u.2, ?_⟩
    dsimp only
    rw [hs, hfin.record, ← he2]
  · intro P step ht
    refine finalizeScores_tree step ?_
    rw [← he2]
    exact ht
  · intro hg P R x hx hR inv give keep
    refine finalizeScores_tree_of_mem hg hx ?_ inv give keep
    rw [← he2]
    exact hR

end EngineCore
end Gambit.Engine
