import Gambit.Frontend.OutputProcessor
import Gambit.Trace.Nodes

/-!
# Parallel sampling completes once

A prompt with `n ≥ 2` samples in `FINAL_ONLY` mode is answered once, with the last of its children.
`Sampling p n hs x` is the invariant behind it: which children still have a request state, what their
parent has collected and what was emitted, in terms of the records `hs` since the prompt was added.
A record is either about a child of the prompt (`Sampling.child`) or about something else, a request
of another prompt or an id without a request state (`Sampling.other`).
-/

namespace Gambit.Frontend
open Gambit.Lib Gambit.Sched Gambit.Trace

/-- Child ids determine the child and the parent. -/
lemma childId_inj {k k' : Nat} {p p' : ReqId} (h : childId k p = childId k' p') : k = k' ∧ p = p' := by
  obtain ⟨hd, hp⟩ := append_cons_inj Nat.underscore_not_in_toDigits Nat.underscore_not_in_toDigits h
  exact ⟨toDigits_inj hd, hp⟩

/-- A child id is not the id of its parent. -/
lemma childId_ne (k : Nat) (p : ReqId) : childId k p ≠ p := by
  intro h
  have hl := congrArg List.length h
  simp only [childId, List.length_append, List.length_cons] at hl
  omega

variable {δ : Type} (dt : Detokenizer δ) {x x' : OutputProcessor δ} {o : EngineCoreOutput}
variable {st : RequestState δ} {p : ReqId} {n : Nat} {hs : List Handled}

/-- What identifies a request state: it stays while the request runs. -/
structure SameRequest (st st' : RequestState δ) : Prop where
  requestId : st'.requestId = st.requestId
  parentReq : st'.parentReq = st.parentReq
  requestIndex : st'.requestIndex = st.requestIndex
  outputKind : st'.outputKind = st.outputKind

/-- Routing a completion touches the parent of the request, and emits under its id or that of the
parent. -/
lemma routeCompletion_frame (x : OutputProcessor δ) (st : RequestState δ) (o : EngineCoreOutput)
    (c : CompletionOutput) :
    (x.routeCompletion st o c).1.requestStates = x.requestStates ∧
    (∀ q, st.parentReq ≠ some q →
      (x.routeCompletion st o c).1.parentRequests.get? q = x.parentRequests.get? q) ∧
    (∀ q pr, (x.routeCompletion st o c).1.parentRequests.get? q = some pr →
      ∃ pr', x.parentRequests.get? q = some pr' ∧ pr.requestId = pr'.requestId) ∧
    ∀ r, (x.routeCompletion st o c).2 = some r →
      st.parentReq = none ∧ r.requestId = st.requestId ∨
        ∃ q pr, st.parentReq = some q ∧ x.parentRequests.get? q = some pr ∧
          r.requestId = pr.requestId := by
  have hid : ∀ pr : ParentRequest, (pr.getOutputs st.requestId c).1.requestId = pr.requestId := by
    intro pr
    unfold ParentRequest.getOutputs
    dsimp only
    split <;> split <;> rfl
  unfold OutputProcessor.routeCompletion
  cases hq : st.parentReq with
  | none => exact ⟨rfl, fun _ _ => rfl, fun q pr h => ⟨pr, h, rfl⟩, by simp⟩
  | some q =>
    cases hp : x.parentRequests.get? q with
    | none =>
      dsimp only
      rw [hp]
      exact ⟨rfl, fun _ _ => rfl, fun q pr h => ⟨pr, h, rfl⟩, by simp⟩
    | some pr =>
      dsimp only
      rw [hp]
      refine ⟨rfl, fun q' hne => ?_, fun q' pr' h => ?_, fun r hr => .inr ⟨q, pr, rfl, hp, ?_⟩⟩
      · rw [Dict.get?_set, if_neg (fun h => hne (congrArg some h.symm))]
      · rw [Dict.get?_set] at h
        split at h
        · next heq =>
          cases h
          exact ⟨pr, heq ▸ hp, hid pr⟩
        · exact ⟨pr', h, rfl⟩
      · dsimp only at hr
        split at hr
        · cases hr
        · rw [← Option.some.inj hr]
          exact hid pr

/-- What one output may change: its own request state, the parent of that, and what is emitted. -/
structure OutputFrame (x x' : OutputProcessor δ) (st : RequestState δ) (o : EngineCoreOutput)
    (h : Handled) : Prop where
  output : h.output = o
  states : ∀ y, y ≠ o.requestId → x'.requestStates.get? y = x.requestStates.get? y
  own : ∀ st', x'.requestStates.get? o.requestId = some st' → SameRequest st st'
  parents : ∀ q, st.parentReq ≠ some q → x'.parentRequests.get? q = x.parentRequests.get? q
  named : ∀ q pr, x'.parentRequests.get? q = some pr →
    ∃ pr', x.parentRequests.get? q = some pr' ∧ pr.requestId = pr'.requestId
  emitted : ∀ r, h.emitted = some r →
    st.parentReq = none ∧ r.requestId = st.requestId ∨
      ∃ q pr, st.parentReq = some q ∧ x.parentRequests.get? q = some pr ∧ r.requestId = pr.requestId

/-- An output of a known request stays within the frame. -/
lemma processOutput_frame (hst : x.requestStates.get? o.requestId = some st)
    (hid : st.requestId = o.requestId) :
    OutputFrame x (x.processOutput dt o).1 st o (x.processOutput dt o).2 := by
  -- the state after detokenizing, and after the completion, is the same request
  have hmake : ∀ (st' : RequestState δ) (e : Ending), SameRequest st st' →
      SameRequest st (x.makeRequestOutput dt st' o e).2.1 ∧
      (x.makeRequestOutput dt st' o e).1.requestStates = x.requestStates ∧
      (∀ q, st.parentReq ≠ some q →
        (x.makeRequestOutput dt st' o e).1.parentRequests.get? q = x.parentRequests.get? q) ∧
      (∀ q pr, (x.makeRequestOutput dt st' o e).1.parentRequests.get? q = some pr →
        ∃ pr', x.parentRequests.get? q = some pr' ∧ pr.requestId = pr'.requestId) ∧
      ∀ r, (x.makeRequestOutput dt st' o e).2.2.2 = some r →
        st.parentReq = none ∧ r.requestId = st.requestId ∨
          ∃ q pr, st.parentReq = some q ∧ x.parentRequests.get? q = some pr ∧
            r.requestId = pr.requestId := by
    intro st' e hsame
    unfold OutputProcessor.makeRequestOutput
    split
    · exact ⟨hsame, rfl, fun _ _ => rfl, fun q pr h => ⟨pr, h, rfl⟩, by simp⟩
    · have hsame' : SameRequest st (st'.newCompletionOutput dt o e).1 := ⟨hsame.1, hsame.2, hsame.3, hsame.4⟩
      obtain ⟨h1, h2, h3, h4⟩ := routeCompletion_frame x (st'.newCompletionOutput dt o e).1 o
        (st'.newCompletionOutput dt o e).2
      rw [hsame'.parentReq, hsame'.requestId] at h4
      rw [hsame'.parentReq] at h2
      exact ⟨hsame', h1, h2, h3, h4⟩
  have hdet : SameRequest st (st.detokenize dt o).1 := ⟨rfl, rfl, rfl, rfl⟩
  obtain ⟨hs, h1, h2, h3, h4⟩ := hmake _ (st.detokenize dt o).2 hdet
  unfold OutputProcessor.processOutput
  rw [hst]
  dsimp only
  split
  · refine ⟨rfl, fun y hy => ?_, fun st' h => ?_, fun q hq => ?_, fun q pr h => ?_, h4⟩
    · unfold OutputProcessor.freeCompleted
      rw [Dict.get?_erase, hs.requestId, hid, if_neg hy, h1]
    · unfold OutputProcessor.freeCompleted at h
      rw [Dict.get?_erase, hs.requestId, hid, if_pos rfl] at h
      cases h
    · unfold OutputProcessor.freeCompleted
      dsimp only
      split
      · exact h2 q hq
      · next pid hpid =>
        rw [hs.parentReq] at hpid
        split
        · rw [Dict.get?_erase, if_neg (fun hc => hq (by rw [hpid, hc])), h2 q hq]
        · exact h2 q hq
    · unfold OutputProcessor.freeCompleted at h
      dsimp only at h
      split at h
      · exact h3 q pr h
      · split at h
        · rw [Dict.get?_erase] at h
          split at h
          · cases h
          · exact h3 q pr h
        · exact h3 q pr h
  · refine ⟨rfl, fun y hy => ?_, fun st' h => ?_, h2, h3, h4⟩
    · rw [Dict.get?_set, if_neg hy, h1]
    · rw [Dict.get?_set, if_pos rfl] at h
      cases h
      exact hs

/-- An output for an id without a request state changes nothing. -/
lemma processOutput_of_unknown (h : o.requestId ∉ x.requestStates) :
    x.processOutput dt o = (x, { output := o }) := by
  unfold OutputProcessor.processOutput
  rw [Dict.get?_eq_none.2 h]

/-- The completions that ended child `k` of prompt `p`. -/
def completions (p : ReqId) (k : Nat) (hs : List Handled) : List CompletionOutput :=
  hs.filterMap fun h => if h.output.requestId = childId k p then h.completion else none

/-- The request outputs emitted for `p`. -/
def emissions (p : ReqId) (hs : List Handled) : List RequestOutput :=
  (hs.filterMap Handled.emitted).filter (·.requestId = p)

/-- Child `k` has its request state, under its parent and index. -/
def ChildState (p : ReqId) (k : Nat) (x : OutputProcessor δ) : Prop :=
  ∃ st, x.requestStates.get? (childId k p) = some st ∧ st.requestId = childId k p ∧
    st.parentReq = some p ∧ st.requestIndex = k ∧ st.outputKind = .finalOnly

/-- The parent of prompt `p` while children are running: they are its live children, and the
aggregator holds the completions of the others. -/
def Collecting (p : ReqId) (n : Nat) (hs : List Handled) (x : OutputProcessor δ) : Prop :=
  ∃ pr, x.parentRequests.get? p = some pr ∧ pr.requestId = p ∧ pr.outputKind = .finalOnly ∧
    pr.childRequests.Nodup ∧
    (∀ rid, rid ∈ pr.childRequests ↔ ∃ k < n, rid = childId k p ∧ completions p k hs = []) ∧
    pr.outputAggregator.length = n ∧
    ∀ k < n, pr.outputAggregator[k]? = some (completions p k hs).head?

/-- The answer of prompt `p`: emitted once, with the last completion, and filled by the children. -/
def Answered (p : ReqId) (n : Nat) (hs : List Handled) : Prop :=
  ∃ hs1 h hs2 r, hs = hs1 ++ h :: hs2 ∧ h.emitted = some r ∧ emissions p hs = [r] ∧
    (∃ k < n, h.output.requestId = childId k p ∧ h.completion.isSome ∧ completions p k hs1 = [] ∧
      ∀ j < n, j ≠ k → completions p j hs1 ≠ []) ∧
    r.finished = true ∧ r.outputs.length = n ∧
    ∀ k < n, ∃ c, completions p k hs = [c] ∧ c.index = k ∧ r.outputs[k]? = some (some c)

/-- The invariant of a prompt with `n` samples, `hs` being what was handled since it was added. -/
structure Sampling (p : ReqId) (n : Nat) (hs : List Handled) (x : OutputProcessor δ) : Prop where
  ids : ∀ rid st, x.requestStates.get? rid = some st →
    st.requestId = rid ∧ rid ≠ p ∧ (st.parentReq = some p → ∃ k < n, rid = childId k p)
  named : ∀ q pr, x.parentRequests.get? q = some pr → pr.requestId = q
  pending : ∀ k < n, completions p k hs = [] → ChildState p k x
  gone : ∀ k < n, completions p k hs ≠ [] → childId k p ∉ x.requestStates
  ended : ∀ k < n, ∀ r ∈ hs, r.output.requestId = childId k p → r.output.finishReason.isSome →
    completions p k hs ≠ []
  single : ∀ k < n, completions p k hs = [] ∨ ∃ c, completions p k hs = [c] ∧ c.index = k
  collecting : (∃ k < n, completions p k hs = []) → emissions p hs = [] ∧ Collecting p n hs x
  closed : (∀ k < n, completions p k hs ≠ []) → Answered p n hs

/-- One more record adds at most its completion. -/
lemma completions_concat (p : ReqId) (k : Nat) (hs : List Handled) (h : Handled) :
    completions p k (hs ++ [h]) = completions p k hs ++
      (if h.output.requestId = childId k p then h.completion else none).toList := by
  unfold completions
  rw [List.filterMap_append]
  congr 1

/-- A record without a completion of child `k` adds none. -/
lemma completions_concat_of_none {k : Nat} {h : Handled}
    (hc : h.output.requestId = childId k p → h.completion = none) :
    completions p k (hs ++ [h]) = completions p k hs := by
  rw [completions_concat]
  split
  · next heq => rw [hc heq]; simp
  · simp

/-- One more record adds at most its emission. -/
lemma emissions_concat_of_ne {h : Handled} (he : ∀ r, h.emitted = some r → r.requestId ≠ p) :
    emissions p (hs ++ [h]) = emissions p hs := by
  unfold emissions
  rw [List.filterMap_append, List.filter_append]
  cases hr : h.emitted with
  | none => simp [hr]
  | some r => simp [hr, he r hr]

/-- A record about something else keeps the invariant. -/
lemma Sampling.record (H : Sampling p n hs x) {h : Handled}
    (hcomp : ∀ k < n, h.output.requestId = childId k p → h.completion = none)
    (hend : ∀ k < n, h.output.requestId = childId k p → h.output.finishReason.isSome →
      completions p k hs ≠ [])
    (hemit : ∀ r, h.emitted = some r → r.requestId ≠ p) : Sampling p n (hs ++ [h]) x := by
  have hc : ∀ k < n, completions p k (hs ++ [h]) = completions p k hs :=
    fun k hk => completions_concat_of_none (hcomp k hk)
  refine ⟨H.ids, H.named, fun k hk he => ?_, fun k hk he => ?_, fun k hk r hr hrid hfin => ?_,
    fun k hk => ?_, fun hex => ?_, fun hall => ?_⟩
  · rw [hc k hk] at he
    exact H.pending k hk he
  · rw [hc k hk] at he
    exact H.gone k hk he
  · rw [hc k hk]
    rcases List.mem_append.1 hr with hr | hr
    · exact H.ended k hk r hr hrid hfin
    · rw [List.mem_singleton.1 hr] at hrid hfin
      exact hend k hk hrid hfin
  · rw [hc k hk]
    exact H.single k hk
  · obtain ⟨k, hk, he⟩ := hex
    rw [hc k hk] at he
    obtain ⟨hem, pr, hpr, hid, hkind, hnd, hmem, hlen, hagg⟩ := H.collecting ⟨k, hk, he⟩
    refine ⟨by rw [emissions_concat_of_ne hemit, hem], pr, hpr, hid, hkind, hnd, ?_, hlen, ?_⟩
    · intro rid
      rw [hmem]
      refine exists_congr fun j => and_congr_right fun hj => ?_
      rw [hc j hj]
    · intro j hj
      rw [hagg j hj, hc j hj]
  · obtain ⟨hs1, h0, hs2, r, rfl, he, hone, ⟨k, hk, hlast⟩, hfin, hlen, hout⟩ :=
      H.closed fun k hk => by rw [← hc k hk]; exact hall k hk
    refine ⟨hs1, h0, hs2 ++ [h], r, by simp, he, by rw [emissions_concat_of_ne hemit, hone],
      ⟨k, hk, hlast⟩, hfin, hlen, fun j hj => ?_⟩
    rw [hc j hj]
    exact hout j hj

/-- A change elsewhere in the output processor keeps the invariant. -/
lemma Sampling.retain (H : Sampling p n hs x)
    (ids : ∀ rid st, x'.requestStates.get? rid = some st →
      st.requestId = rid ∧ rid ≠ p ∧ (st.parentReq = some p → ∃ k < n, rid = childId k p))
    (named : ∀ q pr, x'.parentRequests.get? q = some pr → pr.requestId = q)
    (child : ∀ k < n, ChildState p k x → ChildState p k x')
    (gone : ∀ k < n, childId k p ∈ x'.requestStates → childId k p ∈ x.requestStates)
    (parent : x'.parentRequests.get? p = x.parentRequests.get? p) : Sampling p n hs x' := by
  refine ⟨ids, named, fun k hk he => child k hk (H.pending k hk he),
    fun k hk he hm => H.gone k hk he (gone k hk hm), H.ended, H.single, fun hex => ?_, H.closed⟩
  obtain ⟨hem, pr, hpr, hrest⟩ := H.collecting hex
  exact ⟨hem, pr, by rw [parent, hpr], hrest⟩

/-- A child with a request state did not end. -/
lemma Sampling.running (H : Sampling p n hs x) {k : Nat} (hk : k < n)
    (hm : childId k p ∈ x.requestStates) : completions p k hs = [] := by
  by_contra hne
  exact H.gone k hk hne hm

/-- The last output of a child whose parent collects: the completion goes to the aggregator, and the
last child has the parent answer and go. -/
lemma processOutput_child {pr : ParentRequest} (hst : x.requestStates.get? o.requestId = some st)
    (hid : st.requestId = o.requestId) (hp : st.parentReq = some p)
    (hpr : x.parentRequests.get? p = some pr)
    (hprk : pr.outputKind = .finalOnly) (hne : pr.outputAggregator ≠ [])
    (hfin : (st.detokenize dt o).2.finishReason.isSome = true) :
    ∃ c : CompletionOutput, c.index = st.requestIndex ∧
      (x.processOutput dt o).2.output = o ∧
      (x.processOutput dt o).2.completion = some c ∧
      (x.processOutput dt o).1.requestStates = x.requestStates.erase o.requestId ∧
      (x.processOutput dt o).1.parentRequests.get? p =
        (if (pr.childRequests.erase o.requestId).isEmpty then none
        else some { pr with
          childRequests := pr.childRequests.erase o.requestId
          outputAggregator := pr.outputAggregator.set st.requestIndex (some c) }) ∧
      (x.processOutput dt o).2.emitted =
        (if (pr.childRequests.erase o.requestId).isEmpty then some
          { requestId := pr.requestId
            outputs := pr.outputAggregator.set st.requestIndex (some c)
            finished := true
            finalScore := o.finalScore }
        else none) := by
  set e := (st.detokenize dt o).2 with he
  set c := ((st.detokenize dt o).1.newCompletionOutput dt o e).2 with hc
  have hcfin : c.finishReason.isSome = true := hfin
  have hget : pr.getOutputs o.requestId c =
      ({ pr with
          childRequests := pr.childRequests.erase o.requestId
          outputAggregator := pr.outputAggregator.set st.requestIndex (some c) },
        if (pr.childRequests.erase o.requestId).isEmpty then
          pr.outputAggregator.set st.requestIndex (some c) else [],
        (pr.childRequests.erase o.requestId).isEmpty) := by
    unfold ParentRequest.getOutputs
    rw [if_pos hcfin]
    dsimp only
    rw [if_pos hprk]
    rfl
  have hroute : x.routeCompletion ((st.detokenize dt o).1.newCompletionOutput dt o e).1 o c =
      ({ x with
          parentRequests := x.parentRequests.set p
            { pr with
              childRequests := pr.childRequests.erase o.requestId
              outputAggregator := pr.outputAggregator.set st.requestIndex (some c) } },
        if (pr.childRequests.erase o.requestId).isEmpty then some
          { requestId := pr.requestId
            outputs := pr.outputAggregator.set st.requestIndex (some c)
            finished := true
            finalScore := o.finalScore }
        else none) := by
    unfold OutputProcessor.routeCompletion
    rw [show ((st.detokenize dt o).1.newCompletionOutput dt o e).1.parentReq = some p from hp]
    dsimp only
    rw [hpr]
    dsimp only
    rw [show ((st.detokenize dt o).1.newCompletionOutput dt o e).1.requestId = o.requestId from hid,
      hget]
    dsimp only
    cases (pr.childRequests.erase o.requestId).isEmpty with
    | true =>
      rw [if_pos rfl, if_pos rfl, if_neg]
      rw [List.isEmpty_iff, List.set_eq_nil_iff]
      exact hne
    | false => simp
  have hmake : x.makeRequestOutput dt (st.detokenize dt o).1 o e =
      ((x.routeCompletion ((st.detokenize dt o).1.newCompletionOutput dt o e).1 o c).1,
        ((st.detokenize dt o).1.newCompletionOutput dt o e).1, some c,
        (x.routeCompletion ((st.detokenize dt o).1.newCompletionOutput dt o e).1 o c).2) := by
    unfold OutputProcessor.makeRequestOutput
    rw [if_neg]
    rintro ⟨h, -⟩
    rw [h] at hfin
    cases hfin
  refine ⟨c, rfl, ?_⟩
  unfold OutputProcessor.processOutput
  rw [hst]
  dsimp only
  rw [← he, hmake, hroute]
  dsimp only
  rw [if_pos hfin]
  refine ⟨rfl, rfl, ?_, ?_, rfl⟩
  · unfold OutputProcessor.freeCompleted
    rw [show ((st.detokenize dt o).1.newCompletionOutput dt o e).1.requestId = o.requestId from hid]
  · unfold OutputProcessor.freeCompleted
    rw [show ((st.detokenize dt o).1.newCompletionOutput dt o e).1.parentReq = some p from hp]
    dsimp only
    rw [Dict.get?_set, if_pos rfl, Option.any_some]
    dsimp only
    cases (pr.childRequests.erase o.requestId).isEmpty with
    | true => rw [if_pos rfl, if_pos rfl, Dict.get?_erase, if_pos rfl]
    | false => simp

/-- A record is the first of child `k` with a completion, which is `c`. -/
structure Completes (p : ReqId) (k : Nat) (hs : List Handled) (h : Handled) (c : CompletionOutput) : Prop where
  requestId : h.output.requestId = childId k p
  completion : h.completion = some c
  first : completions p k hs = []

section Completes
variable {k : Nat} {h : Handled} {c : CompletionOutput}

/-- With it the child has its completion. -/
lemma Completes.own (hl : Completes p k hs h c) : completions p k (hs ++ [h]) = [c] := by
  rw [completions_concat, hl.first, if_pos hl.requestId, hl.completion]
  rfl

/-- The other children have what they had. -/
lemma Completes.other (hl : Completes p k hs h c) {j : Nat} (hj : j ≠ k) :
    completions p j (hs ++ [h]) = completions p j hs := by
  refine completions_concat_of_none fun heq => ?_
  exact absurd (childId_inj (hl.requestId.symm.trans heq)).1.symm hj

/-- The children that are left are those without a completion. -/
lemma Completes.left (hl : Completes p k hs h c) {children : List ReqId} (hnd : children.Nodup)
    (hmem : ∀ rid, rid ∈ children ↔ ∃ j < n, rid = childId j p ∧ completions p j hs = []) (rid : ReqId) :
    rid ∈ children.erase (childId k p) ↔ ∃ j < n, rid = childId j p ∧ completions p j (hs ++ [h]) = [] := by
  rw [hnd.mem_erase_iff, hmem]
  constructor
  · rintro ⟨hne, j, hj, rfl, hc⟩
    have hjk : j ≠ k := fun hjk => hne (by rw [hjk])
    exact ⟨j, hj, rfl, by rw [hl.other hjk, hc]⟩
  · rintro ⟨j, hj, rfl, hc⟩
    have hjk : j ≠ k := by
      rintro rfl
      rw [hl.own] at hc
      cases hc
    refine ⟨fun heq => hjk (childId_inj heq).1, j, hj, rfl, ?_⟩
    rw [← hl.other hjk, hc]

/-- The aggregator holds what the children have completed. -/
lemma Completes.aggregator (hl : Completes p k hs h c) {outputs : List (Option CompletionOutput)} (hk : k < n)
    (hlen : outputs.length = n) (hagg : ∀ j < n, outputs[j]? = some (completions p j hs).head?) :
    ∀ j < n, (outputs.set k (some c))[j]? = some (completions p j (hs ++ [h])).head? := by
  intro j hj
  rw [List.getElem?_set]
  split
  · next hkj =>
    subst hkj
    rw [if_pos (by omega), hl.own]
    rfl
  · next hkj => rw [hagg j hj, hl.other fun hjk => hkj hjk.symm]

/-- While another child runs the prompt answers nothing. -/
lemma Completes.waits (hl : Completes p k hs h c) {children : List ReqId} (hnd : children.Nodup)
    (hmem : ∀ rid, rid ∈ children ↔ ∃ j < n, rid = childId j p ∧ completions p j hs = []) :
    (children.erase (childId k p)).isEmpty = true ↔ ∀ j < n, completions p j (hs ++ [h]) ≠ [] := by
  rw [List.isEmpty_iff, List.eq_nil_iff_forall_not_mem]
  constructor
  · exact fun h0 j hj hc => h0 _ ((hl.left hnd hmem _).2 ⟨j, hj, rfl, hc⟩)
  · intro hall rid hr
    obtain ⟨j, hj, -, hc⟩ := (hl.left hnd hmem rid).1 hr
    exact hall j hj hc

/-- With the completion of the last child the prompt answers. -/
lemma Completes.answered (hl : Completes p k hs h c) (hk : k < n) {outputs : List (Option CompletionOutput)}
    {r : RequestOutput} (hlen : outputs.length = n)
    (hagg : ∀ j < n, outputs[j]? = some (completions p j hs).head?) (hix : c.index = k)
    (hsingle : ∀ j < n, completions p j hs = [] ∨ ∃ c, completions p j hs = [c] ∧ c.index = j)
    (hem : emissions p hs = []) (hemit : h.emitted = some r) (hrid : r.requestId = p) (hfin : r.finished = true)
    (hout : r.outputs = outputs.set k (some c)) (hall : ∀ j < n, completions p j (hs ++ [h]) ≠ []) :
    Answered p n (hs ++ [h]) := by
  have hagg' := hl.aggregator hk hlen hagg
  refine ⟨hs, h, [], r, rfl, hemit, ?_, ⟨k, hk, hl.requestId, by rw [hl.completion]; rfl, hl.first, ?_⟩, hfin,
    by rw [hout, List.length_set, hlen], fun j hj => ?_⟩
  · unfold emissions at hem ⊢
    rw [List.filterMap_append, List.filter_append, hem]
    simp [hemit, hrid]
  · intro j hj hjk
    rw [← hl.other hjk]
    exact hall j hj
  · rw [hout, hagg' j hj]
    rcases eq_or_ne j k with rfl | hjk
    · exact ⟨c, hl.own, hix, by rw [hl.own]; rfl⟩
    · rw [hl.other hjk]
      rcases hsingle j hj with h0 | ⟨c', hc', hi'⟩
      · exact absurd (by rw [hl.other hjk, h0]) (hall j hj)
      · exact ⟨c', hc', hi', by rw [hc']; rfl⟩

end Completes

/-- The last output of a child keeps the invariant. -/
lemma Sampling.child (H : Sampling p n hs x) {k : Nat} (hk : k < n)
    (hst : x.requestStates.get? (childId k p) = some st) (hid : st.requestId = childId k p)
    (hp : st.parentReq = some p) (hix : st.requestIndex = k) (ho : o.requestId = childId k p)
    (hfin : (st.detokenize dt o).2.finishReason.isSome = true) :
    Sampling p n (hs ++ [(x.processOutput dt o).2]) (x.processOutput dt o).1 := by
  have hmine : completions p k hs = [] := H.running hk (Dict.mem_of_get? hst)
  obtain ⟨hem, pr, hpr, hprid, hprk, hnd, hmem, hlen, hagg⟩ := H.collecting ⟨k, hk, hmine⟩
  have hne : pr.outputAggregator ≠ [] := by
    intro h
    rw [h] at hlen
    simp at hlen
    omega
  rw [← ho] at hst hid
  obtain ⟨c, hcix, hout, hcomp, hstates, hparent, hemit⟩ :=
    processOutput_child dt hst hid hp hpr hprk hne hfin
  have hframe := processOutput_frame dt hst hid
  rw [hix] at hcix hparent hemit
  rw [ho] at hstates hparent hemit
  set h := (x.processOutput dt o).2 with hh
  have hl : Completes p k hs h c := ⟨by rw [hout, ho], hcomp, hmine⟩
  have hother : ∀ j, j ≠ k → childId j p ≠ childId k p := fun j hj heq => hj (childId_inj heq).1
  have hwaits := hl.waits hnd hmem
  refine ⟨fun rid st' hst' => ?_, fun q pr' hq => ?_, fun j hj hc => ?_, fun j hj hc hm => ?_,
    fun j hj r hr hrid hrf => ?_, fun j hj => ?_, fun hex => ?_, fun hall => ?_⟩
  · rw [hstates, Dict.get?_erase] at hst'
    split at hst'
    · cases hst'
    · exact H.ids rid st' hst'
  · obtain ⟨pr'', hq', he⟩ := hframe.named q pr' hq
    rw [he, H.named q pr'' hq']
  · have hjk : j ≠ k := by
      rintro rfl
      rw [hl.own] at hc
      cases hc
    rw [hl.other hjk] at hc
    obtain ⟨st', hst', hrest⟩ := H.pending j hj hc
    exact ⟨st', by rw [hstates, Dict.get?_erase, if_neg (hother j hjk), hst'], hrest⟩
  · rw [hstates, Dict.mem_erase] at hm
    have hjk : j ≠ k := fun hjk => hm.1 (by rw [hjk])
    rw [hl.other hjk] at hc
    exact H.gone j hj hc hm.2
  · rcases eq_or_ne j k with rfl | hjk
    · rw [hl.own]
      exact List.cons_ne_nil _ _
    · rw [hl.other hjk]
      rcases List.mem_append.1 hr with hr | hr
      · exact H.ended j hj r hr hrid hrf
      · rw [List.mem_singleton.1 hr, hl.requestId] at hrid
        exact absurd hrid.symm (hother j hjk)
  · rcases eq_or_ne j k with rfl | hjk
    · exact .inr ⟨c, hl.own, hcix⟩
    · rw [hl.other hjk]
      exact H.single j hj
  · -- another child is still running: the parent keeps collecting
    have hrest : ¬ (pr.childRequests.erase (childId k p)).isEmpty = true := by
      obtain ⟨j, hj, hc⟩ := hex
      exact fun h0 => hwaits.1 h0 j hj hc
    rw [if_neg hrest] at hemit hparent
    refine ⟨?_, _, hparent, hprid, hprk, hnd.erase _, hl.left hnd hmem, by simp [hlen],
      hl.aggregator hk hlen hagg⟩
    rw [emissions_concat_of_ne fun r hr => ?_, hem]
    rw [hemit] at hr
    cases hr
  · -- this was the last child: the parent answers
    rw [if_pos (hwaits.2 hall)] at hemit
    exact hl.answered hk hlen hagg hcix H.single hem hemit hprid rfl rfl hall

/-- Every output keeps the invariant. -/
lemma Sampling.processOutput (H : Sampling p n hs x) (o : EngineCoreOutput) :
    Sampling p n (hs ++ [(x.processOutput dt o).2]) (x.processOutput dt o).1 := by
  cases hst : x.requestStates.get? o.requestId with
  | none =>
    rw [processOutput_of_unknown dt (Dict.get?_eq_none.1 hst)]
    refine H.record (fun _ _ _ => rfl) (fun k hk hrid _ hnil => ?_) (fun r hr => by cases hr)
    obtain ⟨st, hst', -⟩ := H.pending k hk hnil
    rw [← hrid, hst] at hst'
    cases hst'
  | some st =>
    obtain ⟨hid, hnp, hchild⟩ := H.ids _ st hst
    have hframe := processOutput_frame dt hst hid
    have hids : ∀ rid st', (x.processOutput dt o).1.requestStates.get? rid = some st' →
        st'.requestId = rid ∧ rid ≠ p ∧ (st'.parentReq = some p → ∃ k < n, rid = childId k p) := by
      intro rid st' hst'
      rcases eq_or_ne rid o.requestId with rfl | hne
      · have hsame := hframe.own st' hst'
        rw [hsame.requestId, hsame.parentReq]
        exact ⟨hid, hnp, hchild⟩
      · rw [hframe.states rid hne] at hst'
        exact H.ids rid st' hst'
    have hnamed : ∀ q pr, (x.processOutput dt o).1.parentRequests.get? q = some pr →
        pr.requestId = q := by
      intro q pr hq
      obtain ⟨pr', hq', he⟩ := hframe.named q pr hq
      rw [he, H.named q pr' hq']
    by_cases hp : st.parentReq = some p
    · obtain ⟨k, hk, hrid⟩ := hchild hp
      have hmine : completions p k hs = [] := H.running hk (hrid ▸ Dict.mem_of_get? hst)
      obtain ⟨st', hst', hid', hp', hix, hkind⟩ := H.pending k hk hmine
      rw [hrid] at hst hid
      rw [hst] at hst'
      cases hst'
      cases hfin : (st.detokenize dt o).2.finishReason.isSome with
      | true => exact H.child dt hk hst hid hp hix hrid hfin
      | false =>
        -- nothing but the request state changes
        have heq : x.processOutput dt o =
            ({ x with requestStates := x.requestStates.set o.requestId (st.detokenize dt o).1 },
              { output := o }) := by
          have hmake : x.makeRequestOutput dt (st.detokenize dt o).1 o (st.detokenize dt o).2 =
              (x, (st.detokenize dt o).1, none, none) := by
            unfold OutputProcessor.makeRequestOutput
            rw [if_pos]
            exact ⟨by simpa using hfin, hkind⟩
          unfold OutputProcessor.processOutput
          rw [hrid, hst]
          dsimp only
          rw [hmake]
          dsimp only
          rw [if_neg (by rw [hfin]; exact Bool.false_ne_true)]
        rw [heq] at hids hnamed ⊢
        have hnone : o.finishReason = none := by
          simp only [RequestState.detokenize, endingOf] at hfin
          split at hfin
          · cases hfin
          · simpa using hfin
        refine (H.record (h := { output := o }) (fun _ _ _ => rfl) (fun j _ _ hf => ?_)
          (fun r hr => by cases hr)).retain hids hnamed (fun j hj hc => ?_) (fun j hj hm => ?_) rfl
        · rw [hnone] at hf
          cases hf
        · obtain ⟨st', hst', hrest⟩ := hc
          rcases eq_or_ne j k with rfl | hjk
          · exact ⟨(st.detokenize dt o).1, by rw [Dict.get?_set, if_pos hrid.symm], hid, hp, hix, hkind⟩
          · refine ⟨st', ?_, hrest⟩
            rw [Dict.get?_set, if_neg, hst']
            exact fun h => hjk (childId_inj (h.trans hrid)).1
        · rw [Dict.mem_set] at hm
          rcases hm with hm | hm
          · rw [hm, hrid]
            exact Dict.mem_of_get? hst
          · exact hm
    · -- another prompt's request
      have hne : ∀ k < n, o.requestId ≠ childId k p := by
        intro k hk heq
        rw [heq] at hst
        have hmine : completions p k hs = [] := H.running hk (Dict.mem_of_get? hst)
        obtain ⟨st', hst', -, hp', -⟩ := H.pending k hk hmine
        rw [hst] at hst'
        cases hst'
        exact hp hp'
      have hout : ∀ k < n, (x.processOutput dt o).2.output.requestId ≠ childId k p := by
        rw [hframe.output]
        exact hne
      refine (H.record (fun k hk h => absurd h (hout k hk)) (fun k hk h => absurd h (hout k hk))
        (fun r hr => ?_)).retain hids hnamed (fun k hk hc => ?_) (fun k hk hm => ?_)
        (hframe.parents p hp)
      · rcases hframe.emitted r hr with ⟨-, he⟩ | ⟨q, pr, hq, hpr, he⟩
        · rw [he, hid]
          exact hnp
        · rw [he, H.named q pr hpr]
          rintro rfl
          exact hp hq
      · obtain ⟨st', hst', hrest⟩ := hc
        exact ⟨st', by rw [hframe.states _ (hne k hk).symm, hst'], hrest⟩
      · rw [Dict.mem_iff_get?] at hm ⊢
        rwa [hframe.states _ (hne k hk).symm] at hm

/-- A batch of outputs keeps the invariant. -/
lemma Sampling.processOutputs (outs : List EngineCoreOutput) (H : Sampling p n hs x) :
    Sampling p n (hs ++ (x.processOutputs dt outs).2) (x.processOutputs dt outs).1 := by
  induction outs generalizing hs x with
  | nil => simpa [OutputProcessor.processOutputs] using H
  | cons o os ih =>
    have h := ih (H.processOutput dt o)
    rw [List.append_assoc] at h
    exact h

/-- The request state a child starts with. -/
def childState (rid : ReqId) (kind : RequestOutputKind) (k : Nat) : RequestState δ where
  requestId := childId k rid
  parentReq := some rid
  requestIndex := k
  outputKind := kind
  detokenizer := dt.init

/-- What the fan out of `n` children leaves. -/
structure FannedOut (rid : ReqId) (n : Nat) (kind : RequestOutputKind) (x : OutputProcessor δ)
    (a : OutputProcessor δ × ParentRequest) : Prop where
  state : ∀ k < n, a.1.requestStates.get? (childId k rid) = some (childState dt rid kind k)
  other : ∀ y, (∀ k < n, y ≠ childId k rid) → a.1.requestStates.get? y = x.requestStates.get? y
  parent : 0 < n → a.1.parentRequests.get? rid = some a.2
  parents : ∀ q, q ≠ rid → a.1.parentRequests.get? q = x.parentRequests.get? q
  nodup : a.2.childRequests.Nodup
  mem : ∀ y, y ∈ a.2.childRequests ↔ ∃ k < n, y = childId k rid

/-- The fan out, child by child. -/
lemma foldl_addChild (rid : ReqId) (n m : Nat) (kind : RequestOutputKind) (x : OutputProcessor δ) :
    FannedOut dt rid m kind x ((List.range m).foldl (OutputProcessor.addChild dt kind)
      (x, .new rid n kind)) ∧
    ∃ l, ((List.range m).foldl (OutputProcessor.addChild dt kind) (x, .new rid n kind)).2 =
      { ParentRequest.new rid n kind with childRequests := l } := by
  induction m with
  | zero =>
    refine ⟨⟨fun k hk => absurd hk (Nat.not_lt_zero k), fun _ _ => rfl, fun h => absurd h (lt_irrefl 0),
      fun _ _ => rfl, List.nodup_nil, fun y => ?_⟩, [], rfl⟩
    simp [ParentRequest.new]
  | succ m ih =>
    rw [List.range_succ, List.foldl_append, List.foldl_cons, List.foldl_nil]
    generalize (List.range m).foldl (OutputProcessor.addChild dt kind) (x, .new rid n kind) = a at ih ⊢
    obtain ⟨ih, l, hl⟩ := ih
    have hrid : a.2.requestId = rid := by rw [hl]; rfl
    have hold : ∀ k < m, childId k rid ≠ childId m rid := fun k hk h => by
      have := (childId_inj h).1
      omega
    simp only [OutputProcessor.addChild, ParentRequest.getChildInfo, OutputProcessor.addRequest, hrid]
    refine ⟨⟨fun k hk => ?_, fun y hy => ?_, fun _ => ?_, fun q hq => ?_, ?_, fun y => ?_⟩,
      l.insert (childId m rid), ?_⟩
    · rw [Dict.get?_set]
      rcases Nat.lt_succ_iff_lt_or_eq.1 hk with hk | rfl
      · rw [if_neg (hold k hk), ih.state k hk]
      · rw [if_pos rfl]
        simp [childState]
    · rw [Dict.get?_set, if_neg (hy m (Nat.lt_succ_self m)), ih.other y fun k hk => hy k (by omega)]
    · simp
    · rw [Dict.get?_set, if_neg hq, ih.parents q hq]
    · exact ih.nodup.insert
    · dsimp only
      rw [List.mem_insert_iff, ih.mem]
      constructor
      · rintro (rfl | ⟨k, hk, rfl⟩)
        · exact ⟨m, Nat.lt_succ_self m, rfl⟩
        · exact ⟨k, by omega, rfl⟩
      · rintro ⟨k, hk, rfl⟩
        rcases Nat.lt_succ_iff_lt_or_eq.1 hk with hk | rfl
        · exact .inr ⟨k, hk, rfl⟩
        · exact .inl rfl
    · rw [hl]
      rfl

/-- The ids in the output processor were registered. -/
structure Used (used : List ReqId) (x : OutputProcessor δ) : Prop where
  states : ∀ rid st, x.requestStates.get? rid = some st →
    st.requestId = rid ∧ rid ∈ used ∧ ∀ q, st.parentReq = some q → q ∈ used
  parents : ∀ q pr, x.parentRequests.get? q = some pr → pr.requestId = q ∧ q ∈ used

/-- Every child id of a prompt with several samples is registered. -/
lemma childId_mem_ids {rid : ReqId} {n k : Nat} {kind : RequestOutputKind} (hn : n ≠ 1) (hk : k < n) :
    childId k rid ∈ (FrontEvent.addPrompt rid n kind).ids := by
  unfold FrontEvent.ids
  dsimp only
  rw [if_neg hn]
  exact .tail _ (List.mem_map.2 ⟨k, List.mem_range.2 hk, rfl⟩)

/-- Where the request states and the parents after adding a prompt come from. -/
lemma addPrompt_cases (x : OutputProcessor δ) (rid : ReqId) (n : Nat) (kind : RequestOutputKind) :
    (∀ y st, (x.addPrompt dt rid n kind).requestStates.get? y = some st →
      x.requestStates.get? y = some st ∨
        y ∈ (FrontEvent.addPrompt rid n kind).ids ∧ st.requestId = y ∧
          ∀ q, st.parentReq = some q → q = rid) ∧
    (∀ y, y ∉ (FrontEvent.addPrompt rid n kind).ids →
      (x.addPrompt dt rid n kind).requestStates.get? y = x.requestStates.get? y) ∧
    (∀ q, q ≠ rid → (x.addPrompt dt rid n kind).parentRequests.get? q = x.parentRequests.get? q) ∧
    ∀ pr, (x.addPrompt dt rid n kind).parentRequests.get? rid = some pr →
      pr.requestId = rid ∨ x.parentRequests.get? rid = some pr := by
  unfold OutputProcessor.addPrompt
  split
  · simp only [OutputProcessor.addRequest, Option.map_none]
    refine ⟨fun y st h => ?_, fun y hy => ?_, fun _ _ => trivial, fun pr h => .inr h⟩
    · rw [Dict.get?_set] at h
      split at h
      · next heq =>
        cases h
        exact .inr ⟨heq ▸ List.mem_cons_self, heq.symm, fun q hq => by cases hq⟩
      · exact .inl h
    · rw [Dict.get?_set, if_neg]
      rintro rfl
      exact hy List.mem_cons_self
  · next hn1 =>
    obtain ⟨hf, l, hl⟩ := foldl_addChild dt rid n n kind x
    have hzero : n = 0 → ((List.range n).foldl (OutputProcessor.addChild dt kind)
        (x, .new rid n kind)).1.parentRequests = x.parentRequests := by
      rintro rfl
      rfl
    generalize (List.range n).foldl (OutputProcessor.addChild dt kind) (x, .new rid n kind) = a
      at hf hl hzero ⊢
    refine ⟨fun y st h => ?_, fun y hy => ?_, hf.parents, fun pr h => ?_⟩
    · by_cases hy : ∃ k < n, y = childId k rid
      · obtain ⟨k, hk, rfl⟩ := hy
        rw [hf.state k hk] at h
        cases h
        exact .inr ⟨childId_mem_ids hn1 hk, rfl, fun q hq => (Option.some.inj hq).symm⟩
      · rw [hf.other y fun k hk heq => hy ⟨k, hk, heq⟩] at h
        exact .inl h
    · refine hf.other y fun k hk heq => hy ?_
      rw [heq]
      exact childId_mem_ids hn1 hk
    · rcases Nat.eq_zero_or_pos n with rfl | hn
      · rw [hzero rfl] at h
        exact .inr h
      · rw [hf.parent hn] at h
        cases h
        rw [hl]
        exact .inl rfl

/-- Every output keeps the ids registered. -/
lemma Used.processOutput {used : List ReqId} (H : Used used x) (o : EngineCoreOutput) :
    Used used (x.processOutput dt o).1 := by
  cases hst : x.requestStates.get? o.requestId with
  | none =>
    rw [processOutput_of_unknown dt (Dict.get?_eq_none.1 hst)]
    exact H
  | some st =>
    obtain ⟨hid, hmem, hpar⟩ := H.states _ st hst
    have hframe := processOutput_frame dt hst hid
    refine ⟨fun rid st' hst' => ?_, fun q pr hq => ?_⟩
    · rcases eq_or_ne rid o.requestId with rfl | hne
      · have hsame := hframe.own st' hst'
        rw [hsame.requestId, hsame.parentReq]
        exact ⟨hid, hmem, hpar⟩
      · rw [hframe.states rid hne] at hst'
        exact H.states rid st' hst'
    · obtain ⟨pr', hq', he⟩ := hframe.named q pr hq
      rw [he]
      exact H.parents q pr' hq'

/-- Every event keeps the ids registered. -/
lemma Used.next {h : List FrontEvent} (H : Used (h.flatMap FrontEvent.ids) x) (ev : FrontEvent) :
    Used ((h ++ [ev]).flatMap FrontEvent.ids) ((frontMachine dt).next x ev).1 := by
  rw [List.flatMap_append, List.flatMap_singleton]
  cases ev with
  | addPrompt rid n kind =>
    obtain ⟨hst, -, hpar, hown⟩ := addPrompt_cases dt x rid n kind
    have hrid : rid ∈ (FrontEvent.addPrompt rid n kind).ids := List.mem_cons_self
    refine ⟨fun y st hy => ?_, fun q pr hq => ?_⟩
    · rcases hst y st hy with hy | ⟨hmem, hid, hq⟩
      · obtain ⟨hid, hmem, hq⟩ := H.states y st hy
        exact ⟨hid, List.mem_append_left _ hmem, fun q h => List.mem_append_left _ (hq q h)⟩
      · refine ⟨hid, List.mem_append_right _ hmem, fun q h => List.mem_append_right _ ?_⟩
        rw [hq q h]
        exact hrid
    · have old : x.parentRequests.get? q = some pr → pr.requestId = q ∧
          q ∈ h.flatMap FrontEvent.ids ++ (FrontEvent.addPrompt rid n kind).ids := fun h => by
        obtain ⟨hid, hmem⟩ := H.parents q pr h
        exact ⟨hid, List.mem_append_left _ hmem⟩
      rcases eq_or_ne q rid with rfl | hne
      · rcases hown pr hq with hid | hq
        · exact ⟨hid, List.mem_append_right _ hrid⟩
        · exact old hq
      · exact old ((hpar q hne).symm.trans hq)
  | processOutputs outs =>
    have hkeep : ∀ (outs : List EngineCoreOutput) (x : OutputProcessor δ),
        Used (h.flatMap FrontEvent.ids) x →
        Used (h.flatMap FrontEvent.ids) (x.processOutputs dt outs).1 := by
      intro outs
      induction outs with
      | nil => exact fun _ H => H
      | cons o os ih => exact fun x H => ih _ (H.processOutput dt o)
    have hnil : (FrontEvent.processOutputs outs).ids = [] := rfl
    rw [hnil, List.append_nil]
    exact hkeep outs x H

/-- In every run the ids in the output processor were registered. -/
lemma used_of_runs {h : List FrontEvent} {os : List (List Handled)}
    (run : (frontMachine dt).Runs h os x) : Used (h.flatMap FrontEvent.ids) x := by
  induction run with
  | init => exact ⟨fun rid st h => (by cases h), fun q pr h => (by cases h)⟩
  | step run _ ih => exact ih.next dt _

/-- A new prompt with its children satisfies the invariant. -/
lemma Sampling.init {h : List FrontEvent} (H : Used (h.flatMap FrontEvent.ids) x) (hn : 2 ≤ n)
    (hok : FrontEvent.Ok h (.addPrompt p n .finalOnly)) :
    Sampling p n [] (x.addPrompt dt p n .finalOnly) := by
  have hp : p ∉ h.flatMap FrontEvent.ids := hok p List.mem_cons_self
  have heq : x.addPrompt dt p n .finalOnly = ((List.range n).foldl
      (OutputProcessor.addChild dt .finalOnly) (x, .new p n .finalOnly)).1 := by
    unfold OutputProcessor.addPrompt
    rw [if_neg (by omega)]
  rw [heq]
  obtain ⟨hf, l, hl⟩ := foldl_addChild dt p n n .finalOnly x
  generalize (List.range n).foldl (OutputProcessor.addChild dt .finalOnly) (x, .new p n .finalOnly) = a
    at hf hl ⊢
  refine ⟨fun rid st hst => ?_, fun q pr hq => ?_, fun k hk _ => ?_, fun k hk hne => absurd rfl hne,
    fun k hk r hr => (by cases hr), fun k hk => .inl rfl, fun _ => ⟨rfl, a.2, ?_⟩, fun hall => ?_⟩
  · by_cases hy : ∃ k < n, rid = childId k p
    · obtain ⟨k, hk, rfl⟩ := hy
      rw [hf.state k hk] at hst
      cases hst
      exact ⟨rfl, childId_ne k p, fun _ => ⟨k, hk, rfl⟩⟩
    · rw [hf.other rid fun k hk heq => hy ⟨k, hk, heq⟩] at hst
      obtain ⟨hid, hmem, hq⟩ := H.states rid st hst
      exact ⟨hid, fun heq => hp (heq ▸ hmem), fun h => absurd (hq p h) hp⟩
  · rcases eq_or_ne q p with rfl | hne
    · rw [hf.parent (by omega)] at hq
      cases hq
      rw [hl]
      rfl
    · rw [hf.parents q hne] at hq
      exact (H.parents q pr hq).1
  · exact ⟨_, hf.state k hk, rfl, rfl, rfl, rfl⟩
  · have hagg : a.2.outputAggregator = List.replicate n none := by rw [hl]; rfl
    refine ⟨hf.parent (by omega), by rw [hl]; rfl, by rw [hl]; rfl, hf.nodup, fun rid => ?_, ?_, ?_⟩
    · rw [hf.mem]
      refine exists_congr fun k => and_congr_right fun _ => ?_
      simp [completions]
    · rw [hagg, List.length_replicate]
    · intro k hk
      rw [hagg, List.getElem?_replicate, if_pos hk]
      rfl
  · exact absurd rfl (hall 0 (by omega))

/-- Adding another prompt keeps the invariant. -/
lemma Sampling.addPrompt (H : Sampling p n hs x) (hn : n ≠ 1) {rid : ReqId} {m : Nat} {kind : RequestOutputKind}
    (hnew : ∀ y ∈ (FrontEvent.addPrompt p n .finalOnly).ids, y ∉ (FrontEvent.addPrompt rid m kind).ids) :
    Sampling p n hs (x.addPrompt dt rid m kind) := by
  obtain ⟨hst, hother, hpar, hown⟩ := addPrompt_cases dt x rid m kind
  have hpn : p ∉ (FrontEvent.addPrompt rid m kind).ids := hnew p List.mem_cons_self
  have hpr : p ≠ rid := fun h => hpn (h ▸ List.mem_cons_self)
  have hchild : ∀ k < n, (x.addPrompt dt rid m kind).requestStates.get? (childId k p) =
      x.requestStates.get? (childId k p) := by
    intro k hk
    exact hother _ (hnew _ (childId_mem_ids hn hk))
  refine H.retain (fun y st hy => ?_) (fun q pr hq => ?_) (fun k hk hc => ?_) (fun k hk hm => ?_)
    (hpar p hpr)
  · rcases hst y st hy with hy | ⟨hmem, hid, hq⟩
    · exact H.ids y st hy
    · exact ⟨hid, fun h => hpn (h ▸ hmem), fun h => absurd (hq p h) hpr⟩
  · rcases eq_or_ne q rid with rfl | hne
    · rcases hown pr hq with hid | hq
      · exact hid
      · exact H.named _ pr hq
    · exact H.named q pr ((hpar q hne).symm.trans hq)
  · obtain ⟨st, hst', hrest⟩ := hc
    exact ⟨st, by rw [hchild k hk, hst'], hrest⟩
  · rw [Dict.mem_iff_get?] at hm ⊢
    rwa [hchild k hk] at hm

/-- After a prompt was added the invariant holds of everything handled since. -/
lemma sampling_of_runs {h h' : List FrontEvent} {os : List (List Handled)} (hn : 2 ≤ n)
    (run : (frontMachine dt).Runs (h ++ .addPrompt p n .finalOnly :: h') os x) :
    Sampling p n (os.drop (h.length + 1)).flatten x := by
  induction h' using List.reverseRecOn generalizing os x with
  | nil =>
    obtain ⟨os', x', run', hok, rfl, rfl⟩ := run.concat
    have hlen : os'.length = h.length := run'.length_eq
    rw [List.drop_eq_nil_of_le (by simp [hlen])]
    exact .init dt (used_of_runs dt run') hn hok
  | append_singleton h' ev ih =>
    rw [← List.cons_append, ← List.append_assoc] at run
    obtain ⟨os', x', run', hok, rfl, rfl⟩ := run.concat
    have hlen : os'.length = h.length + (h'.length + 1) := by simpa using run'.length_eq
    have H := ih run'
    rw [List.drop_append_of_le_length (by omega), List.flatten_append, List.flatten_singleton]
    cases ev with
    | processOutputs outs => exact H.processOutputs dt outs
    | addPrompt rid m kind =>
      have hnil : ((frontMachine dt).next x' (.addPrompt rid m kind)).2 = [] := rfl
      rw [hnil, List.append_nil]
      refine H.addPrompt dt (by omega) fun y hy hm => hok y hm ?_
      exact List.mem_flatMap.2 ⟨_, by simp, hy⟩

/-- Parallel sampling completes once. Of a prompt with `n ≥ 2` samples in `FINAL_ONLY` mode, in every
run after it was added: a child whose last engine output was handled has completed, and completes once;
while a child is open nothing was emitted for the prompt; when all completed, one finished request
output was emitted for it, with the last child's completion, and its `n` entries are the completions
of the children, each at its own index. An output for an id without a request state changes
nothing. -/
theorem parallel_sampling_once {h h' : List FrontEvent} {os : List (List Handled)} (hn : 2 ≤ n)
    (run : (frontMachine dt).Runs (h ++ .addPrompt p n .finalOnly :: h') os x) :
    (∀ k < n, (∃ r ∈ (os.drop (h.length + 1)).flatten, r.output.requestId = childId k p ∧
      r.output.finishReason.isSome) → completions p k (os.drop (h.length + 1)).flatten ≠ []) ∧
    (∀ k < n, (completions p k (os.drop (h.length + 1)).flatten).length ≤ 1) ∧
    ((∃ k < n, completions p k (os.drop (h.length + 1)).flatten = []) →
      emissions p (os.drop (h.length + 1)).flatten = []) ∧
    ((∀ k < n, completions p k (os.drop (h.length + 1)).flatten ≠ []) →
      Answered p n (os.drop (h.length + 1)).flatten) ∧
    ∀ o, o.requestId ∉ x.requestStates → x.processOutput dt o = (x, { output := o }) := by
  have H := sampling_of_runs dt hn run
  refine ⟨fun k hk ⟨r, hr, hrid, hfin⟩ => H.ended k hk r hr hrid hfin, fun k hk => ?_,
    fun hex => (H.collecting hex).1, H.closed, fun o ho => processOutput_of_unknown dt ho⟩
  rcases H.single k hk with h0 | ⟨c, hc, -⟩
  · rw [h0]
    exact Nat.zero_le 1
  · rw [hc]
    exact le_rfl

/-- Two samples: the second one is evicted, a branch reports, the first one stops. -/
def samplingEvents : List FrontEvent :=
  [.addPrompt "0".toList 2 .finalOnly,
    .processOutputs
      [{ requestId := "0_0".toList, newTokenIds := [5] },
        { requestId := "1_0".toList, newTokenIds := [], finishReason := some .abort }],
    .processOutputs
      [{ requestId := branchId 0 "0_0".toList, newTokenIds := [6], finishReason := some .stop },
        { requestId := "0_0".toList, newTokenIds := [7], finishReason := some .stop }]]

/-- The prompt is answered once, with both entries filled. -/
theorem parallel_sampling_once_pair :
    Answered "0".toList 2
      (((frontMachine .silent).exec samplingEvents).1.drop 1).flatten := by
  have run : (frontMachine .silent).Runs ([] ++ .addPrompt "0".toList 2 .finalOnly :: samplingEvents.tail)
      ((frontMachine .silent).exec samplingEvents).1 ((frontMachine .silent).exec samplingEvents).2 :=
    Machine.Runs.of_exec (by decide +kernel)
  obtain ⟨hended, -, -, hanswered, -⟩ := parallel_sampling_once .silent le_rfl run
  refine hanswered fun k hk => hended k hk ?_
  have hall : ∀ k < 2, ∃ r ∈ (((frontMachine .silent).exec samplingEvents).1.drop 1).flatten,
      r.output.requestId = childId k "0".toList ∧ r.output.finishReason.isSome = true := by
    decide +kernel
  exact hall k hk

end Gambit.Frontend
