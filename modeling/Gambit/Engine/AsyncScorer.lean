import Gambit.Engine.TokenCounts
import Gambit.Lib.Rounds

/-!
# The asynchronous scorer

What the traces are scored for in the two modes. A step is a round: its batch is present, and the requests at a
step boundary are marked at its end. The synchronous scorer hands over what the rounds hand over. The
asynchronous one takes requests off the set of pending ones when the answer arrives, one step later, so its rounds
are late: a request that reaches a boundary in the step in which it is handed over loses the new mark together with
the old one (`boundary_evaluated_iff`). Where that does not happen both modes score the same requests in the same
steps (`async_scoring_loses_nothing`).
-/

namespace Gambit.Engine
open Gambit.Lib Gambit.Sched Gambit.Trace

/-- The order in which an event visits a set. -/
def Event.setOrder : Event → SetOrder
  | .step i => i.setOrder
  | _ => .insertion

/-- The replies of the scorer in an event. -/
def Event.reply (collect : Bool) : Event → List ReqId → List (Dict ReqId Payload)
  | .step i => i.scorer collect
  | _ => fun _ => []

/-- The scorer answers for every request it is asked about. -/
def Event.Answering (collect : Bool) : Event → Prop
  | .step i => ∀ ids, ∀ x ∈ ids, Answers (i.scorer collect ids) x
  | _ => True

/-- An event as a round. -/
def roundOf (ev : Event) (rec : StepRecord) : Round ReqId where
  order := ev.setOrder
  perm := ev.setOrder.perm
  present := rec.sampled.keys
  marked := rec.triggered

/-- A run as rounds. -/
def roundsOf (h : List Event) (os : List StepRecord) : List (Round ReqId) := List.zipWith roundOf h os

/-- The scores of a trace in a reply; without requests there is no reply. -/
def scoresIn (rid : ReqId) (reply : List ReqId → List (Dict ReqId Payload)) (ids : List ReqId) : List ℚ :=
  if ids.isEmpty then [] else (mergeScores (reply ids)).getD rid []

/-- The scores of a trace for the requests handed over in a run. -/
def scoresFor (collect : Bool) (rid : ReqId) (h : List Event) (hands : List (List ReqId)) : List ℚ :=
  (List.zipWith (fun ev ids => scoresIn rid (ev.reply collect) ids) h hands).flatten

/-- The scores recorded for a trace. -/
def scoresRecorded (rid : ReqId) (os : List StepRecord) : List ℚ := os.flatMap fun rec => rec.recorded.getD rid []

/-- The scores of a trace in the answer that is in flight. -/
def Desk.inFlight (d : Desk) (rid : ReqId) : List ℚ :=
  match d.future with
  | none => []
  | some reply => (mergeScores reply).getD rid []

lemma removeIds_nil (s : List ReqId) : removeIds s [] = s := by
  unfold removeIds
  simp

lemma removeIds_congr {s ids ids' : List ReqId} (h : ∀ x, x ∈ ids ↔ x ∈ ids') : removeIds s ids = removeIds s ids' := by
  unfold removeIds
  apply List.filter_congr
  intro x _
  exact decide_eq_decide.2 (not_congr (h x))

namespace Desk
variable {cfg : VllmConfig} {i : StepInput} {d : Desk} {ids : List ReqId}

/-- The requests a step hands over to the scorer. -/
def hand (d : Desk) (i : StepInput) : List ReqId := (i.setOrder d.settled).filter (· ∈ d.scheduled)

lemma settled_of_none (h : d.future = none) : d.settled = d.pending := by
  unfold settled
  rw [h]

lemma due_of_none (h : d.future = none) : d.due i = d.hand i := by
  unfold due hand
  rw [settled_of_none h]

lemma evaluated_run (hf : cfg.asyncScorer = false → d.future = none) (he : d.evaluated = []) :
    (d.run cfg i).evaluated = d.hand i := by
  unfold run
  cases h : cfg.asyncScorer with
  | true =>
    have hdue : d.consume.due i = d.hand i := rfl
    show (d.consume.submit cfg i).evaluated = _
    unfold submit
    rw [hdue]
    split
    · next hemp => exact he.trans (List.isEmpty_iff.1 hemp).symm
    · rfl
  | false =>
    show (d.score cfg i).evaluated = _
    unfold score
    rw [due_of_none (hf h)]
    split
    · next hemp => exact he.trans (List.isEmpty_iff.1 hemp).symm
    · rfl

/-- The replies to what a step hands over. -/
def handReply (cfg : VllmConfig) (d : Desk) (i : StepInput) : List (Dict ReqId Payload) :=
  i.scorer cfg.gambit.collectHiddenStatesForMining (d.hand i)

/-- After a step its hand is settled and the boundaries are marked, in this order or, in the asynchronous mode, in
the other. -/
lemma settled_trigger_run (hf : cfg.asyncScorer = false → d.future = none)
    (hans : ∀ x ∈ d.hand i, Answers (d.handReply cfg i) x) :
    ((d.run cfg i).trigger ids).settled = if cfg.asyncScorer then removeIds (addAll d.settled ids) (d.hand i)
      else addAll (removeIds d.settled (d.hand i)) ids := by
  have hsub : ∀ x, Answers (d.handReply cfg i) x → x ∈ d.hand i := by
    rintro x ⟨w, hw, hx⟩
    exact i.scorer_subset _ _ w hw x hx
  unfold run
  cases h : cfg.asyncScorer with
  | true =>
    have hdue : d.consume.due i = d.hand i := rfl
    show ((d.consume.submit cfg i).trigger ids).settled = removeIds (addAll d.settled ids) (d.hand i)
    unfold submit
    rw [hdue]
    split
    · next hemp =>
      rw [List.isEmpty_iff.1 hemp, removeIds_nil]
      rfl
    · next hne =>
      have hans' : d.consume.answer cfg i = d.handReply cfg i := rfl
      have hfull : (mergeScores (d.handReply cfg i)).entries.isEmpty = false := by
        obtain ⟨x, hx⟩ := List.exists_mem_of_ne_nil _ fun h => hne (List.isEmpty_iff.2 h)
        have hm : x ∈ mergeScores (d.handReply cfg i) := mem_mergeScores.2 (hans x hx)
        rw [List.isEmpty_eq_false_iff]
        intro hnil
        rw [Dict.mem_def, Dict.keys, hnil] at hm
        cases hm
      rw [hans']
      show (if (mergeScores (d.handReply cfg i)).entries.isEmpty then addAll d.settled ids
        else removeIds (addAll d.settled ids) (d.hand i)) = _
      rw [hfull, if_neg Bool.false_ne_true]
  | false =>
    have hans' : d.answer cfg i = d.handReply cfg i := by
      unfold answer handReply
      rw [due_of_none (hf h)]
    show ((d.score cfg i).trigger ids).settled = addAll (removeIds d.settled (d.hand i)) ids
    unfold score
    rw [due_of_none (hf h), hans']
    split
    · next hemp =>
      have hs : (d.trigger ids).settled = addAll d.pending ids := settled_of_none (hf h)
      rw [hs, List.isEmpty_iff.1 hemp, removeIds_nil, settled_of_none (hf h)]
    · have hs : (trigger { d with
          pending := removeIds d.pending (mergeScores (d.handReply cfg i)).keys
          evaluated := d.hand i
          recorded := mergeScores (d.handReply cfg i) } ids).settled =
          addAll (removeIds d.pending (mergeScores (d.handReply cfg i)).keys) ids := settled_of_none (hf h)
      rw [hs, settled_of_none (hf h)]
      congr 1
      apply removeIds_congr
      intro x
      rw [← Dict.mem_def, mem_mergeScores]
      exact ⟨hsub x, hans x⟩

/-- What a step records and leaves in flight is what was in flight before and the scores of its hand. -/
lemma scores_run (hf : cfg.asyncScorer = false → d.future = none) (hr : d.recorded = ∅) (rid : ReqId) :
    (d.run cfg i).recorded.getD rid [] ++ (d.run cfg i).inFlight rid =
      d.inFlight rid ++ scoresIn rid (i.scorer cfg.gambit.collectHiddenStatesForMining) (d.hand i) := by
  unfold run scoresIn
  cases h : cfg.asyncScorer with
  | true =>
    have hdue : d.consume.due i = d.hand i := rfl
    have hrec : d.consume.recorded.getD rid [] = d.inFlight rid := by
      unfold consume inFlight
      rw [hr]
      cases d.future with
      | none => rfl
      | some reply => rfl
    show (d.consume.submit cfg i).recorded.getD rid [] ++ (d.consume.submit cfg i).inFlight rid = _
    unfold submit
    rw [hdue]
    split
    · rw [hrec]
      rfl
    · exact congrArg (· ++ _) hrec
  | false =>
    have hnone : d.inFlight rid = [] := by
      unfold inFlight
      rw [hf h]
    have hans' : d.answer cfg i = d.handReply cfg i := by
      unfold answer handReply
      rw [due_of_none (hf h)]
    show (d.score cfg i).recorded.getD rid [] ++ (d.score cfg i).inFlight rid = _
    unfold score
    rw [due_of_none (hf h), hans', hnone]
    split
    · rw [hr, hnone]
      rfl
    · exact (congrArg (_ ++ ·) hnone).trans (List.append_nil _)

end Desk

namespace EngineCore
variable {μ β : Type} {ops : Caches μ β} {cfg : VllmConfig} {e e' : EngineCore μ} {h : List Event} {os : List StepRecord}

/-- A run hands over what its rounds hand over, and the scores recorded or in flight are those of what it handed
over. -/
structure Handing (cfg : VllmConfig) (h : List Event) (os : List StepRecord) (e : EngineCore μ) : Prop where
  settled : e.desk.settled = Round.marks cfg.asyncScorer [] (roundsOf h os)
  evaluated : os.map StepRecord.evaluated = Round.handed cfg.asyncScorer [] (roundsOf h os)
  scores : ∀ rid, scoresRecorded rid os ++ e.desk.inFlight rid =
    scoresFor cfg.gambit.collectHiddenStatesForMining rid h (os.map StepRecord.evaluated)

/-- What one event must do for a run to go on handing over its rounds. -/
lemma Handing.concat {ev : Event} {rec : StepRecord} (hl : h.length = os.length) (hh : Handing cfg h os e)
    (hs : e'.desk.settled = (roundOf ev rec).next cfg.asyncScorer e.desk.settled)
    (he : rec.evaluated = (roundOf ev rec).due e.desk.settled)
    (hr : ∀ rid, rec.recorded.getD rid [] ++ e'.desk.inFlight rid = e.desk.inFlight rid ++
      scoresIn rid (ev.reply cfg.gambit.collectHiddenStatesForMining) rec.evaluated) :
    Handing cfg (h ++ [ev]) (os ++ [rec]) e' := by
  have hrounds : roundsOf (h ++ [ev]) (os ++ [rec]) = roundsOf h os ++ [roundOf ev rec] := List.zipWith_append hl
  constructor
  · rw [hrounds, Round.marks_concat, ← hh.settled]
    exact hs
  · rw [hrounds, Round.handed_concat, ← hh.settled, List.map_append, hh.evaluated]
    exact congrArg (_ ++ [·]) he
  · intro rid
    have hrec : scoresRecorded rid (os ++ [rec]) = scoresRecorded rid os ++ rec.recorded.getD rid [] := by
      unfold scoresRecorded
      rw [List.flatMap_append, List.flatMap_singleton]
    have hfor : scoresFor cfg.gambit.collectHiddenStatesForMining rid (h ++ [ev]) ((os ++ [rec]).map StepRecord.evaluated) =
        scoresFor cfg.gambit.collectHiddenStatesForMining rid h (os.map StepRecord.evaluated) ++
          scoresIn rid (ev.reply cfg.gambit.collectHiddenStatesForMining) rec.evaluated := by
      unfold scoresFor
      rw [List.map_append, List.zipWith_append (by rw [hl, List.length_map]), List.flatten_append]
      simp
    rw [hrec, hfor, List.append_assoc, hr, ← List.append_assoc, hh.scores]

/-- An event that runs no batch. -/
lemma Handing.quiet {ev : Event} {rec : StepRecord} (hl : h.length = os.length) (hh : Handing cfg h os e)
    (hp : e'.desk.pending = e.desk.pending) (hf : e'.desk.future = e.desk.future) (ha : e'.desk.asked = e.desk.asked)
    (hs : rec.sampled = ∅) (ht : rec.triggered = []) (hv : rec.evaluated = []) (hr : rec.recorded = ∅) :
    Handing cfg (h ++ [ev]) (os ++ [rec]) e' := by
  have hdue : (roundOf ev rec).due e.desk.settled = [] := by
    apply List.eq_nil_iff_forall_not_mem.2
    intro x hx
    have hm : x ∈ rec.sampled.keys := (Round.mem_due.1 hx).2
    rw [hs] at hm
    exact List.not_mem_nil hm
  have hset : e'.desk.settled = e.desk.settled := by
    unfold Desk.settled
    rw [hp, hf, ha]
  apply hh.concat hl
  · rw [hset]
    unfold Round.next
    rw [hdue]
    have hm : (roundOf ev rec).marked = [] := ht
    rw [hm]
    split
    · exact (removeIds_nil _).symm
    · exact (removeIds_nil _).symm
  · rw [hdue, hv]
  · intro rid
    have hin : e'.desk.inFlight rid = e.desk.inFlight rid := by
      unfold Desk.inFlight
      rw [hf]
    rw [hr, hv, hin]
    exact (List.append_nil _).symm

/-- A step hands over its round. -/
lemma Handing.step {i : StepInput} {added : List ReqId} (hen : cfg.gambit.enable = true) (hl : h.length = os.length)
    (hb : Base cfg added e) (hh : Handing cfg h os e)
    (hans : (Event.step i).Answering cfg.gambit.collectHiddenStatesForMining) :
    Handing cfg (h ++ [.step i]) (os ++ [(e.step ops cfg i).record]) (e.step ops cfg i) := by
  cases hreq : e.scheduler.hasRequests with
  | false =>
    have hd : (e.step ops cfg i).desk =
        { e.desk with scheduled := ∅, sampled := ∅, triggered := [], evaluated := [], recorded := ∅ } := desk_idle hreq
    exact hh.quiet hl (by rw [hd]) (by rw [hd]) (by rw [hd])
      (congrArg Desk.sampled hd) (congrArg Desk.triggered hd) (congrArg Desk.evaluated hd) (congrArg Desk.recorded hd)
  | true =>
    have hd := desk_step (i := i) ops hen hreq
    set ids := triggers cfg (e.scored ops cfg i) (modelOutput i (e.afterSchedule ops cfg i).2)
    set d := (e.afterSchedule ops cfg i).1.desk
    have hf : cfg.asyncScorer = false → d.future = none := hb.sync
    have hbatch : ∀ x, x ∈ (e.step ops cfg i).record.sampled ↔ x ∈ d.scheduled := by
      intro x
      rw [(hb.record_step ops hreq).2.1]
      exact mem_modelOutput
    have hsettled : d.settled = e.desk.settled := rfl
    have hhand : d.hand i = (roundOf (.step i) (e.step ops cfg i).record).due e.desk.settled := by
      apply List.filter_congr
      intro x _
      exact decide_eq_decide.2 (hbatch x).symm
    have hanswer : ∀ x ∈ d.hand i, Answers (d.handReply cfg i) x := fun x hx => hans _ x hx
    have hset : ((d.run cfg i).trigger ids).settled = if cfg.asyncScorer then removeIds (addAll d.settled ids) (d.hand i)
        else addAll (removeIds d.settled (d.hand i)) ids := Desk.settled_trigger_run hf hanswer
    have htrig : (e.step ops cfg i).record.triggered = ids := congrArg Desk.triggered hd
    have heval : (e.step ops cfg i).record.evaluated = d.hand i :=
      (congrArg Desk.evaluated hd).trans (Desk.evaluated_run hf rfl)
    apply hh.concat hl
    · have hstep : (e.step ops cfg i).desk.settled = ((d.run cfg i).trigger ids).settled := by
        rw [hd]
        rfl
      rw [hstep, hset, hsettled, hhand, ← htrig]
      rfl
    · rw [heval, hhand]
    · intro rid
      rw [heval]
      have hrun : (d.run cfg i).recorded.getD rid [] ++ (d.run cfg i).inFlight rid = d.inFlight rid ++
          scoresIn rid (i.scorer cfg.gambit.collectHiddenStatesForMining) (d.hand i) := Desk.scores_run hf rfl rid
      have hrec : (e.step ops cfg i).record.recorded = (d.run cfg i).recorded := congrArg Desk.recorded hd
      have hfly : (e.step ops cfg i).desk.inFlight rid = (d.run cfg i).inFlight rid := by
        rw [hd]
        rfl
      rw [hrec, hfly]
      exact hrun

/-- Every event hands over its round. -/
lemma Handing.handle {ev : Event} {added : List ReqId} (hen : cfg.gambit.enable = true) (hl : h.length = os.length)
    (hb : Base cfg added e) (hh : Handing cfg h os e)
    (hans : ev.Answering cfg.gambit.collectHiddenStatesForMining) :
    Handing cfg (h ++ [ev]) (os ++ [(e.handle ops cfg ev).record]) (e.handle ops cfg ev) := by
  cases ev with
  | addRequest r =>
    have hd : (e.addRequest cfg r).desk.pending = e.desk.pending ∧ (e.addRequest cfg r).desk.future = e.desk.future ∧
        (e.addRequest cfg r).desk.asked = e.desk.asked := by
      unfold EngineCore.addRequest
      dsimp only
      split
      · exact ⟨rfl, rfl, rfl⟩
      · exact ⟨rfl, rfl, rfl⟩
    exact hh.quiet hl hd.1 hd.2.1 hd.2.2 rfl rfl rfl rfl
  | abortRequests rids => exact hh.quiet hl rfl rfl rfl rfl rfl rfl rfl
  | postStep drafts => exact hh.quiet hl rfl rfl rfl rfl rfl rfl rfl
  | step i => exact hh.step hen hl hb hans

end EngineCore

variable {μ β : Type} {ops : Caches μ β} {cfg : VllmConfig} {m : μ} {h : List Event} {os : List StepRecord}
variable {e : EngineCore μ}

/-- A run whose scorer answers hands over its rounds. -/
lemma handing_of_runs (hen : cfg.gambit.enable = true) (run : (engineMachine ops cfg m).Runs h os e)
    (hans : ∀ ev ∈ h, ev.Answering cfg.gambit.collectHiddenStatesForMining) : EngineCore.Handing cfg h os e := by
  induction run with
  | init => exact ⟨rfl, rfl, fun _ => rfl⟩
  | @step h os e ev run hok ih =>
    have hh := ih fun ev hm => hans ev (List.mem_append_left _ hm)
    exact hh.handle hen run.length_eq.symm (base_of_runs run) (hans ev (List.mem_append_right _ List.mem_cons_self))

/-- The round of a record. -/
lemma roundsOf_get (run : (engineMachine ops cfg m).Runs h os e) {n : Nat} {rec : StepRecord} (hn : os[n]? = some rec) :
    ∃ ev, (roundsOf h os)[n]? = some (roundOf ev rec) := by
  have hlt : n < h.length := by
    rw [← run.length_eq]
    exact (List.getElem?_eq_some_iff.1 hn).1
  refine ⟨h[n], ?_⟩
  unfold roundsOf
  rw [List.getElem?_zipWith, List.getElem?_eq_getElem hlt, hn]

/-- A step that triggers a trace has it in its batch. -/
lemma scheduled_of_triggered (hen : cfg.gambit.enable = true) (run : (engineMachine ops cfg m).Runs h os e) {n : Nat}
    {rec : StepRecord} (hn : os[n]? = some rec) {rid : ReqId} (ht : rid ∈ rec.triggered) : rid ∈ rec.scheduled := by
  have hb := batched_of_runs hen run hn
  rw [hb.triggered] at ht
  obtain ⟨o, ho, rfl⟩ := List.mem_map.1 ht
  exact (hb.mem o.1).1 (List.mem_map_of_mem (List.mem_filter.1 ho).1)

lemma ofSamples_answers (sampled : ReqId → List Token) (score : ReqId → ℚ) (collect : Bool) (ids : List ReqId) :
    ∀ x ∈ ids, Answers ((StepInput.ofSamples sampled score).scorer collect ids) x := by
  intro x hx
  refine ⟨_, List.mem_cons_self, ?_⟩
  rw [Dict.mem_def, Dict.keys_ofKeys]
  exact List.mem_dedup.2 hx

lemma oneRoot_answering (collect : Bool) (ts : List Token) : ∀ ev ∈ oneRoot ts, ev.Answering collect := by
  intro ev hev
  rcases List.mem_cons.1 hev with rfl | hev
  · trivial
  · obtain ⟨t, -, rfl⟩ := List.mem_map.1 hev
    exact fun ids => ofSamples_answers _ _ collect ids

/-- What a step of an event gives to scoring: the order of a set, and the answers of the scorer. -/
def Event.scoring (collect : Bool) : Event → Option (SetOrder × (List ReqId → List (Dict ReqId Payload)))
  | .step i => some (i.setOrder, i.scorer collect)
  | _ => none

/-- Two runs on the same tokens: the same batches with the same samples, and the same answers of the scorer. -/
structure SameTokens (collect : Bool) (h : List Event) (os : List StepRecord) (h' : List Event)
    (os' : List StepRecord) : Prop where
  sampled : os'.map StepRecord.sampled = os.map StepRecord.sampled
  scoring : h'.map (Event.scoring collect) = h.map (Event.scoring collect)

lemma setOrder_eq_of_scoring {collect : Bool} (ev : Event) :
    ev.setOrder = (ev.scoring collect).elim .insertion Prod.fst := by
  cases ev with
  | step | addRequest | abortRequests | postStep => rfl

lemma reply_eq_of_scoring {collect : Bool} (ev : Event) :
    ev.reply collect = (ev.scoring collect).elim (fun _ => []) Prod.snd := by
  cases ev with
  | step | addRequest | abortRequests | postStep => rfl

lemma answering_iff {collect : Bool} {ev : Event} :
    ev.Answering collect ↔ ∀ p, ev.scoring collect = some p → ∀ ids, ∀ x ∈ ids, Answers (p.2 ids) x := by
  cases ev with
  | step i =>
    constructor
    · intro h p hp
      cases hp
      exact h
    · exact fun h => h _ rfl
  | addRequest | abortRequests | postStep =>
    constructor
    · intro _ p hp
      cases hp
    · exact fun _ => trivial

namespace SameTokens
variable {collect : Bool} {h' : List Event} {os' : List StepRecord}

lemma order (hs : SameTokens collect h os h' os') : h'.map Event.setOrder = h.map Event.setOrder := by
  have hmap : ∀ l : List Event, l.map Event.setOrder =
      (l.map (Event.scoring collect)).map fun p => p.elim .insertion Prod.fst := by
    intro l
    rw [List.map_map]
    exact List.map_congr_left fun ev _ => setOrder_eq_of_scoring ev
  rw [hmap h', hmap h, hs.scoring]

lemma reply (hs : SameTokens collect h os h' os') : h'.map (Event.reply collect) = h.map (Event.reply collect) := by
  have hmap : ∀ l : List Event, l.map (Event.reply collect) =
      (l.map (Event.scoring collect)).map fun p => p.elim (fun _ => []) Prod.snd := by
    intro l
    rw [List.map_map]
    exact List.map_congr_left fun ev _ => reply_eq_of_scoring ev
  rw [hmap h', hmap h, hs.scoring]

/-- The scorer answers in the one run as in the other. -/
lemma answering (hs : SameTokens collect h os h' os') (hans : ∀ ev ∈ h, ev.Answering collect) :
    ∀ ev ∈ h', ev.Answering collect := by
  intro ev hm
  have hmap : ev.scoring collect ∈ h.map (Event.scoring collect) := by
    rw [← hs.scoring]
    exact List.mem_map_of_mem hm
  obtain ⟨ev₀, hm₀, he⟩ := List.mem_map.1 hmap
  apply answering_iff.2
  rw [← he]
  exact answering_iff.1 (hans ev₀ hm₀)

/-- The same tokens are the same rounds. -/
lemma roundsOf (hs : SameTokens collect h os h' os') (ht : os'.map StepRecord.triggered = os.map StepRecord.triggered) :
    roundsOf h' os' = roundsOf h os := by
  have hmap : ∀ (h : List Event) (os : List StepRecord), Engine.roundsOf h os =
      List.zipWith (fun (o : SetOrder) (p : ModelRunnerOutput × List ReqId) => ⟨o, o.perm, p.1.keys, p.2⟩)
        (h.map Event.setOrder) ((os.map StepRecord.sampled).zip (os.map StepRecord.triggered)) := by
    intro h os
    rw [List.zip_map', List.zipWith_map]
    rfl
  rw [hmap h' os', hmap h os, hs.order, hs.sampled, ht]

lemma scoresFor (hs : SameTokens collect h os h' os') (rid : ReqId) (hands : List (List ReqId)) :
    scoresFor collect rid h' hands = scoresFor collect rid h hands := by
  have hmap : ∀ h : List Event, Engine.scoresFor collect rid h hands =
      (List.zipWith (fun r ids => scoresIn rid r ids) (h.map (Event.reply collect)) hands).flatten := by
    intro h
    rw [List.zipWith_map_left]
    rfl
  rw [hmap h', hmap h, hs.reply]

end SameTokens

/-- The asynchronous scorer loses nothing in a run in which no trace reaches a boundary in a step that hands it over
and the scorer answers: the synchronous scorer on the same tokens evaluates the same requests in the same steps and
records the same scores, of which the asynchronous one still has those of its last step in flight. -/
theorem async_scoring_loses_nothing (hen : cfg.gambit.enable = true) (run : (engineMachine ops cfg m).Runs h os e)
    (hans : ∀ ev ∈ h, ev.Answering cfg.gambit.collectHiddenStatesForMining)
    (hcalm : ∀ rec ∈ os, ∀ rid ∈ rec.triggered, rid ∉ rec.evaluated) {h' : List Event} {os' : List StepRecord}
    {e' : EngineCore μ} (run' : (engineMachine ops { cfg with asyncScorer := false } m).Runs h' os' e')
    (hsame : SameTokens cfg.gambit.collectHiddenStatesForMining h os h' os') :
    os'.map StepRecord.evaluated = os.map StepRecord.evaluated ∧
      ∀ rid, scoresRecorded rid os' = scoresRecorded rid os ++ e.desk.inFlight rid := by
  have hh := handing_of_runs hen run hans
  have hg : ({ cfg with asyncScorer := false } : VllmConfig).gambit = cfg.gambit := rfl
  have hh' : EngineCore.Handing { cfg with asyncScorer := false } h' os' e' :=
    handing_of_runs hen run' (hsame.answering hans)
  have htrig : os'.map StepRecord.triggered = os.map StepRecord.triggered :=
    triggered_of_runs hen run hg run' hsame.sampled
  have hlate : Round.handed cfg.asyncScorer [] (roundsOf h os) = Round.handed false [] (roundsOf h os) := by
    cases ha : cfg.asyncScorer with
    | false => rfl
    | true =>
      have hev := hh.evaluated
      rw [ha] at hev
      apply Round.handed_late
      intro j r ids hr hids x hx
      unfold roundsOf at hr
      rw [List.getElem?_zipWith_eq_some] at hr
      obtain ⟨ev, rec, -, hrec, rfl⟩ := hr
      rw [← hev, List.getElem?_map, hrec] at hids
      cases hids
      exact hcalm rec (List.mem_of_getElem? hrec) x hx
  have heval : os'.map StepRecord.evaluated = os.map StepRecord.evaluated := by
    rw [hh'.evaluated, hh.evaluated, hsame.roundsOf htrig, hlate]
  refine ⟨heval, fun rid => ?_⟩
  have hnone : e'.desk.inFlight rid = [] := by
    have hf : e'.desk.future = none := (base_of_runs run').sync rfl
    unfold Desk.inFlight
    rw [hf]
  have hscores := hh'.scores rid
  rw [hnone, List.append_nil] at hscores
  rw [hscores, hh.scores, heval]
  exact hsame.scoresFor rid _

/-- A boundary and two more steps. -/
theorem async_scoring_loses_nothing_once :
    (oneRootRecords false [7, 5, 5]).map StepRecord.evaluated = (oneRootRecords true [7, 5, 5]).map StepRecord.evaluated ∧
      scoresRecorded "0_1".toList (oneRootRecords false [7, 5, 5]) = [1 / 2] := by
  have hok : ∀ async, (engineMachine .unbounded (scorerSample async) ()).OkFrom [] (oneRoot [7, 5, 5]) := by decide +kernel
  have hcalm : ∀ rec ∈ oneRootRecords true [7, 5, 5], ∀ rid ∈ rec.triggered, rid ∉ rec.evaluated := by decide +kernel
  have hsampled : (oneRootRecords false [7, 5, 5]).map StepRecord.sampled =
      (oneRootRecords true [7, 5, 5]).map StepRecord.sampled := by decide +kernel
  have hlast : scoresRecorded "0_1".toList (oneRootRecords true [7, 5, 5]) = [1 / 2] := by decide +kernel
  have hempty : ((engineMachine .unbounded (scorerSample true) ()).exec (oneRoot [7, 5, 5])).2.desk.inFlight "0_1".toList =
      [] := by decide +kernel
  obtain ⟨heval, hscores⟩ := async_scoring_loses_nothing rfl (runs_oneRoot true (hok true)) (oneRoot_answering _ _) hcalm
    (runs_oneRoot false (hok false)) ⟨hsampled, rfl⟩
  refine ⟨heval, ?_⟩
  rw [hscores, hlast, hempty]
  rfl

end Gambit.Engine
