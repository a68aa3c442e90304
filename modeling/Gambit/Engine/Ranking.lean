import Gambit.Engine.Round

/-!
# Ranks and slots of a tournament round

Two results on the rounds of `Gambit.Engine.Round`. The first is about who is chosen: the traces pruned by rank
score no better than those that stay, and the parents score no worse than the candidates left without a child,
unless building the child of such a candidate failed (`tournament_ranks`). The second is about how many children
there are: as many as there are places and live candidates exactly when the cut that selects the parents takes no
dead trace or leaves out no live one (`slots_used_iff`).
-/

namespace Gambit.Engine
open Gambit.Lib Gambit.Sched Gambit.Trace

namespace EngineCore
variable {μ : Type} {cfg : VllmConfig} {i : StepInput} {e e' : EngineCore μ} {added : List ReqId}
variable {avgs : Dict ReqId ℚ} {tried : List (ℚ × ReqId)} {ds : List Decision}

/-- Whether a decision is a new child of the trace. -/
def isBranchOf (p : ReqId) : Decision → Bool
  | .branch q _ _ => q = p
  | _ => false

/-- The ranks are respected by the decisions `ds` of a round from `e` to `e'`. -/
structure RankCorrect (cfg : VllmConfig) (avgs : Dict ReqId ℚ) (e e' : EngineCore μ) (ds : List Decision) : Prop where
  /-- A trace pruned by rank scores at most what every scored active trace scores that survives. -/
  pruned : ∀ v, .prune v ∈ ds → ∃ q, avgs.get? v = some q ∧ ∀ s ∈ e.activeTraces avgs, e'.Active s.2 → q ≤ s.1
  /-- A trace that gets a child survives, is past the warm-up and gets exactly one. -/
  parent : ∀ p c tokens, .branch p c tokens ∈ ds →
    e'.Active p ∧ cfg.gambit.tournamentWarmupTokens ≤ (e'.tokenCount p : Int) ∧ ds.countP (isBranchOf p) = 1
  /-- A trace that gets a child scores at least what every surviving candidate with a live request scores that the
  round did not try to branch. -/
  best : ∀ p c tokens, .branch p c tokens ∈ ds → ∃ q, avgs.get? p = some q ∧
    ∀ s ∈ e.activeTraces avgs, cfg.gambit.tournamentWarmupTokens ≤ (e.tokenCount s.2 : Int) → e'.Active s.2 →
      s.2 ∈ e'.scheduler.requests → (∀ d ∈ ds, branchSubject d ≠ some s.2) → s.1 ≤ q

lemma mem_activeTraces_iff_mem_ranked {s : ℚ × ReqId} : s ∈ e.activeTraces avgs ↔ s ∈ e.ranked avgs :=
  (List.perm_insertionSort _ _).mem_iff.symm

/-- A trace is branched exactly when it was tried and can be a parent. -/
lemma Rounded.mem_subjects (h : Rounded cfg i avgs e e' tried ds) {x : ReqId} :
    some x ∈ ds.map branchSubject ↔ x ∈ tried.map Prod.snd ∧ (e.afterPruning cfg avgs).CanParent x := by
  rw [h.subjects, List.mem_map]
  constructor
  · rintro ⟨y, hy, hxy⟩
    cases hxy
    obtain ⟨hm, hc⟩ := List.mem_filter.1 hy
    exact ⟨hm, of_decide_eq_true hc⟩
  · rintro ⟨hm, hc⟩
    exact ⟨x, List.mem_filter.2 ⟨hm, decide_eq_true hc⟩, rfl⟩

lemma Rounded.prune_not_mem (h : Rounded cfg i avgs e e' tried ds) (v : ReqId) : .prune v ∉ ds := by
  intro hv
  have hnone : none ∈ ds.map branchSubject := List.mem_map.2 ⟨_, hv, rfl⟩
  rw [h.subjects] at hnone
  obtain ⟨y, -, hy⟩ := List.mem_map.1 hnone
  cases hy

/-- No trace is chosen twice. -/
lemma nodup_parents (cfg : VllmConfig) (i : StepInput) (e : EngineCore μ) (avgs : Dict ReqId ℚ) :
    ((e.parents cfg i avgs).map Prod.snd).Nodup := by
  obtain ⟨l, hperm, hsub⟩ := (chooseParents_spec cfg i (e.parentPool cfg avgs) (e.wanted cfg avgs)).1
  refine ((hperm.map Prod.snd).nodup_iff).1 ((e.nodup_ranked avgs).sublist ?_)
  exact (hsub.trans (List.filter_sublist.trans List.filter_sublist)).map Prod.snd

/-- A tried trace is ranked and past the warm-up. -/
lemma Rounded.tried_candidate (h : Rounded cfg i avgs e e' tried ds) {x : ReqId} (hx : x ∈ tried.map Prod.snd) :
    ∃ q, (q, x) ∈ tried ∧ (q, x) ∈ e.ranked avgs ∧ cfg.gambit.tournamentWarmupTokens ≤ (e.tokenCount x : Int) := by
  obtain ⟨s, hs, rfl⟩ := List.mem_map.1 hx
  obtain ⟨hr, hw, -⟩ := mem_parentPool.1 (mem_parentPool_of_mem_parents (h.front.subset hs))
  exact ⟨s.1, hs, hr, hw⟩

/-- One child for each trace. -/
lemma Rounded.countP_isBranchOf (h : Rounded cfg i avgs e e' tried ds) {p c : ReqId} {tokens : List Token}
    (hp : .branch p c tokens ∈ ds) : ds.countP (isBranchOf p) = 1 := by
  have hpos : 0 < ds.countP (isBranchOf p) := List.countP_pos_iff.2 ⟨_, hp, decide_eq_true rfl⟩
  have hnd : (ds.map branchSubject).Nodup := by
    rw [h.subjects]
    refine List.Nodup.map (Option.some_injective _) (List.Nodup.filter _ ?_)
    exact (e.nodup_parents cfg i avgs).sublist (h.front.sublist.map Prod.snd)
  have hle : ds.countP (isBranchOf p) ≤ (ds.map branchSubject).count (some p) := by
    rw [List.count, List.countP_map]
    refine List.countP_mono_left fun d _ hd => ?_
    cases d with
    | branch q c' tokens' =>
      have hq : q = p := of_decide_eq_true hd
      exact beq_iff_eq.2 (congrArg some hq)
    | prune _ => cases hd
    | forceStop _ => cases hd
    | branchFailed _ _ => cases hd
  have hone := List.nodup_iff_count_le_one.1 hnd (some p)
  omega

/-- A candidate that was not tried scores no better than a tried one, when the parents are the top of the pool. -/
lemma Rounded.le_of_not_tried (h : Rounded cfg i avgs e e' tried ds)
    (hrandom : cfg.gambit.tournamentBranchRandom = false) {s t : ℚ × ReqId} (ht : t ∈ tried)
    (hs : s ∈ e.parentPool cfg avgs) (hns : s ∉ tried) : s.1 ≤ t.1 := by
  have htop : tried <+: e.parentPool cfg avgs := by
    refine h.front.trans ?_
    unfold parents chooseParents
    rw [hrandom, if_neg fun hh => Bool.false_ne_true hh.1]
    exact List.take_prefix _ _
  obtain ⟨rest, hrest⟩ := htop
  have hsorted : (e.parentPool cfg avgs).Pairwise fun a b => b.1 ≤ a.1 :=
    (e.pairwise_ranked avgs).sublist (List.filter_sublist.trans List.filter_sublist)
  rw [← hrest] at hs hsorted
  exact (List.pairwise_append.1 hsorted).2.2 t ht s ((List.mem_append.1 hs).resolve_left hns)

/-- Ranks of a tournament round that takes the best parents. -/
theorem tournament_ranks (hmode : cfg.gambit.tournamentMode = true)
    (hrandom : cfg.gambit.tournamentBranchRandom = false) (hb : Base cfg added e) (hg : Gated cfg e.traceTree)
    (hdue : (e.afterFloor cfg avgs).roundDue cfg avgs = true) :
    ∃ ds, (e.tournamentStep cfg i avgs).record.decisions = (e.afterFloor cfg avgs).record.decisions ++ ds ∧
      RankCorrect cfg avgs (e.afterFloor cfg avgs) (e.tournamentStep cfg i avgs) ds := by
  have hb' : Base cfg added (e.afterFloor cfg avgs) := hb.pruneAll _
  have hg' : Gated cfg (e.afterFloor cfg avgs).traceTree := hg.pruneAll _
  have hstep : e.tournamentStep cfg i avgs = (e.afterFloor cfg avgs).tournamentRound cfg i avgs := if_pos hdue
  rw [hstep]
  generalize e.afterFloor cfg avgs = e₁ at hb' hg'
  obtain ⟨tried, ds, h⟩ := tournamentRound_rounded (i := i) hmode hb' hg' avgs
  have hpruned := e₁.afterPruning_pruned cfg avgs
  -- a new child comes from a tried trace that can be a parent
  have hsubject : ∀ p c tokens, .branch p c tokens ∈ (e₁.victims cfg avgs).map .prune ++ ds →
      .branch p c tokens ∈ ds ∧ p ∈ tried.map Prod.snd ∧ (e₁.afterPruning cfg avgs).CanParent p := by
    intro p c tokens hd
    have hds : .branch p c tokens ∈ ds := by
      rcases List.mem_append.1 hd with hd | hd
      · obtain ⟨v, -, hv⟩ := List.mem_map.1 hd
        cases hv
      · exact hd
    exact ⟨hds, h.mem_subjects.1 (List.mem_map.2 ⟨_, hds, rfl⟩)⟩
  refine ⟨_, h.decisions, ?_, ?_, ?_⟩
  · intro v hv
    have hvict : v ∈ e₁.victims cfg avgs := by
      rcases List.mem_append.1 hv with hv | hv
      · obtain ⟨v', hv', heq⟩ := List.mem_map.1 hv
        cases heq
        exact hv'
      · exact absurd hv (h.prune_not_mem v)
    obtain ⟨q, hq⟩ := mem_ranked_of_mem_victims hvict
    have hscore := (mem_ranked.1 hq).1
    refine ⟨q, hscore, fun s hs hact => ?_⟩
    have hrank := mem_activeTraces_iff_mem_ranked.1 hs
    exact le_of_mem_victims hrank ((active_tournamentRound hmode hb' hg' hrank).1 hact) hvict hscore
  · intro p c tokens hd
    obtain ⟨hds, htried, hcan⟩ := hsubject p c tokens hd
    obtain ⟨q, -, -, hwarm⟩ := h.tried_candidate htried
    have hmem := TraceTree.mem_of_getNode (any_isActive hcan.1).choose_spec.1
    refine ⟨(h.spared.active p hmem).2 hcan.1, ?_, ?_⟩
    · rw [h.spared.tokenCount p hmem, hpruned.tokenCount]
      exact hwarm
    · have hnone : ((e₁.victims cfg avgs).map Decision.prune).countP (isBranchOf p) = 0 := by
        refine List.countP_eq_zero.2 fun d hd => ?_
        obtain ⟨v, -, rfl⟩ := List.mem_map.1 hd
        exact Bool.false_ne_true
      rw [List.countP_append, hnone, Nat.zero_add]
      exact h.countP_isBranchOf hds
  · intro p c tokens hd
    obtain ⟨hds, htried, hcan⟩ := hsubject p c tokens hd
    obtain ⟨q, hq, hrank, -⟩ := h.tried_candidate htried
    refine ⟨q, (mem_ranked.1 hrank).1, fun s hs hwarm hact hlive hno => ?_⟩
    have hsr := mem_activeTraces_iff_mem_ranked.1 hs
    have hnv : s.2 ∉ e₁.victims cfg avgs := (active_tournamentRound hmode hb' hg' hsr).1 hact
    have hpool : s ∈ e₁.parentPool cfg avgs :=
      mem_parentPool.2 ⟨hsr, hwarm, fun hsw => hnv (List.mem_append_right _ hsw)⟩
    refine h.le_of_not_tried hrandom hq hpool fun hst => ?_
    -- a tried trace that survives and is live has its decision
    have hact' : (e₁.afterPruning cfg avgs).Active s.2 := (hpruned.active s.2).2 ⟨(mem_ranked.1 hsr).2.2, hnv⟩
    have hmem := TraceTree.mem_of_getNode (any_isActive hact').choose_spec.1
    have hdec := h.mem_subjects.2 ⟨List.mem_map_of_mem hst, hact', (h.spared.live s.2 hmem).1 hlive⟩
    obtain ⟨d, hd, hds⟩ := List.mem_map.1 hdec
    exact hno d (List.mem_append_right _ hd) hds

/-- Three roots and one free slot: the best one gets a child. -/
theorem tournament_ranks_free_slot :
    ∃ ds, ((threeRoots 4).tournamentStep (roundSample 4) quietInput threeScores).record.decisions =
        ((threeRoots 4).afterFloor (roundSample 4) threeScores).record.decisions ++ ds ∧
      RankCorrect (roundSample 4) threeScores ((threeRoots 4).afterFloor (roundSample 4) threeScores)
        ((threeRoots 4).tournamentStep (roundSample 4) quietInput threeScores) ds :=
  tournament_ranks rfl rfl (base_threeRoots 4) (gated_threeRoots 4) (by decide +kernel)

/-- Three roots and two free slots, and the child of the best root cannot be built: the second root gets a child, the
best one, which survives the round with its request, gets none. -/
theorem failed_build_loses_rank :
    let i : StepInput := { quietInput with buildFails := fun child => child = branchId 0 "0_1".toList }
    let e' := (threeRoots 5).tournamentStep (roundSample 5) i threeScores
    (∃ d ∈ e'.record.decisions, isBranchOf "1_1".toList d = true) ∧ threeScores.get? "1_1".toList = some (1 / 2) ∧
      ((1 : ℚ), "0_1".toList) ∈ ((threeRoots 5).afterFloor (roundSample 5) threeScores).activeTraces threeScores ∧
      (roundSample 5).gambit.tournamentWarmupTokens ≤ ((threeRoots 5).tokenCount "0_1".toList : Int) ∧
      e'.Active "0_1".toList ∧ "0_1".toList ∈ e'.scheduler.requests ∧
      (∀ d ∈ e'.record.decisions, isBranchOf "0_1".toList d = false) ∧ ¬ (1 : ℚ) ≤ 1 / 2 := by
  decide +kernel

/-- A candidate that cannot branch: it is over capacity, or its request left the scheduler. -/
def Dead (cfg : VllmConfig) (e : EngineCore μ) (avgs : Dict ReqId ℚ) (rid : ReqId) : Prop :=
  rid ∈ e.overCapacity cfg avgs ∨ rid ∉ e.scheduler.requests

/-- The number of scored traces past the warm-up that are active after the pruning of the round and whose request is
still with the scheduler. -/
def liveCandidates (cfg : VllmConfig) (e : EngineCore μ) (avgs : Dict ReqId ℚ) : Nat :=
  ((e.candidates cfg avgs).filter fun s => (e.afterPruning cfg avgs).CanParent s.2).length

/-- The free places after the pruning of the round. -/
def room (cfg : VllmConfig) (e : EngineCore μ) (avgs : Dict ReqId ℚ) : Nat :=
  (cfg.gambit.tournamentCapacity - ((e.afterPruning cfg avgs).activeCount : Int)).toNat

/-- A trace of the pool can be a parent exactly when it is not dead. -/
lemma canParent_iff {s : ℚ × ReqId} (hs : s ∈ e.parentPool cfg avgs) :
    (e.afterPruning cfg avgs).CanParent s.2 ↔ ¬ e.Dead cfg avgs s.2 := by
  have hp := e.afterPruning_pruned cfg avgs
  obtain ⟨hrank, -, hns⟩ := mem_parentPool.1 hs
  have hact := (mem_ranked.1 hrank).2.2
  unfold CanParent Dead victims at *
  rw [hp.active, hp.scheduler, List.mem_append]
  tauto

/-- The live candidates are in the pool. -/
lemma liveCandidates_eq (cfg : VllmConfig) (e : EngineCore μ) (avgs : Dict ReqId ℚ) :
    e.liveCandidates cfg avgs =
      ((e.parentPool cfg avgs).filter fun s => (e.afterPruning cfg avgs).CanParent s.2).length := by
  unfold liveCandidates parentPool
  rw [List.filter_filter]
  refine congrArg List.length (List.filter_congr fun s _ => ?_)
  have hp := e.afterPruning_pruned cfg avgs
  by_cases hcan : (e.afterPruning cfg avgs).CanParent s.2
  · have hns : s.2 ∉ e.swappedOut cfg avgs := fun hsw =>
      ((hp.active s.2).1 hcan.1).2 (List.mem_append_right _ hsw)
    rw [decide_eq_true hcan, decide_eq_true hns]
    rfl
  · rw [decide_eq_false hcan]
    rfl

/-- The capacity never stops a round: the pruning makes room for all children it wants. -/
lemma wanted_le_room (cfg : VllmConfig) (e : EngineCore μ) (avgs : Dict ReqId ℚ) :
    e.wanted cfg avgs ≤ e.room cfg avgs := by
  have hcount : (e.afterPruning cfg avgs).activeCount + (e.victims cfg avgs).length = e.activeCount := by
    refine activeCount_pruneAll (e := { e with tournamentLastRoundStep := e.tournamentStepCounter })
      (e.nodup_victims cfg avgs) fun x hx => ?_
    obtain ⟨q, hq⟩ := mem_ranked_of_mem_victims hx
    exact (mem_ranked.1 hq).2.2
  have hlen := e.length_victims cfg avgs
  have hkept := e.length_kept cfg avgs
  have hswap := e.swapCount_le cfg avgs
  have hexcess : e.excess cfg avgs =
      min ((e.activeCount : Int) - cfg.gambit.tournamentCapacity).toNat (e.ranked avgs).length := rfl
  unfold room wanted
  cases hf : e.filling cfg with
  | true =>
    have hfill : (e.activeCount : Int) < cfg.gambit.tournamentCapacity := of_decide_eq_true hf
    have hk : e.swapCount cfg avgs = 0 := by rw [swapCount, hf]; rfl
    change (cfg.gambit.tournamentCapacity - (e.activeCount : Int)).toNat ≤ _
    omega
  | false =>
    have hfull : ¬ (e.activeCount : Int) < cfg.gambit.tournamentCapacity := of_decide_eq_false hf
    change e.swapCount cfg avgs ≤ _
    omega

/-- A selection of as many elements as wanted contains as many good ones as it could exactly when it takes no bad one
or leaves no good one. -/
lemma length_filter_eq_iff {α : Type} {l pool : List α} {n : Nat} (good : α → Bool) (nd : pool.Nodup)
    (hsub : l.Subperm pool) (hlen : l.length = min n pool.length) :
    (l.filter good).length = min n (pool.filter good).length ↔
      (∀ s ∈ l, good s = true) ∨ ∀ s ∈ pool, good s = true → s ∈ l := by
  have hle : (l.filter good).length ≤ (pool.filter good).length := (hsub.filter good).length_le
  have hl : (l.filter good).length ≤ l.length := List.length_filter_le _ _
  have hpool : (pool.filter good).length ≤ pool.length := List.length_filter_le _ _
  constructor
  · intro heq
    rcases Nat.le_total n (pool.filter good).length with h | h
    · left
      exact List.length_filter_eq_length_iff.1 (by omega)
    · right
      intro s hs hgood
      have hperm := (hsub.filter good).perm_of_length_le (by omega)
      exact (List.mem_filter.1 (hperm.mem_iff.2 (List.mem_filter.2 ⟨hs, hgood⟩))).1
  · intro h
    rcases h with hall | hleft
    · rw [List.filter_eq_self.2 hall] at hle ⊢
      omega
    · have hback : (pool.filter good).length ≤ (l.filter good).length := by
        refine (List.subperm_of_subset (nd.filter _) fun s hs => ?_).length_le
        obtain ⟨hm, hgood⟩ := List.mem_filter.1 hs
        exact List.mem_filter.2 ⟨hleft s hm hgood, hgood⟩
      omega

/-- The parents that can branch all get their child when the builds succeed. -/
lemma countP_isBranch_eq (avgs : Dict ReqId ℚ) (hmode : cfg.gambit.tournamentMode = true) (hb : Base cfg added e)
    (hg : Gated cfg e.traceTree) (hstop : e.shouldStopAfterCompleted cfg = false)
    (hbuild : ∀ child, i.buildFails child = false) :
    ∃ ds, (e.tournamentRound cfg i avgs).record.decisions = e.record.decisions ++ ds ∧
      ds.countP isBranch = ((e.parents cfg i avgs).filter fun s => (e.afterPruning cfg avgs).CanParent s.2).length := by
  obtain ⟨tried, ds, h⟩ := branchWithin_of_round (i := i) hmode hb hg avgs hstop
  have hp := e.afterPruning_pruned cfg avgs
  refine ⟨(e.victims cfg avgs).map .prune ++ ds, ?_, ?_⟩
  · rw [h.decisions, hp.decisions, List.append_assoc]
  have hprune : ((e.victims cfg avgs).map Decision.prune).countP isBranch = 0 := by
    refine List.countP_eq_zero.2 fun d hd => ?_
    obtain ⟨v, -, rfl⟩ := List.mem_map.1 hd
    exact Bool.false_ne_true
  have hall : ds.countP isBranch = ds.length := List.countP_eq_length.2 (h.built hbuild)
  have hlen : ds.length = (tried.filter fun s => (e.afterPruning cfg avgs).CanParent s.2).length := by
    have hl := congrArg List.length h.subjects
    rw [List.length_map, List.length_map, List.filter_map, List.length_map] at hl
    exact hl
  rw [List.countP_append, hprune, Nat.zero_add, hall, hlen]
  rcases h.full with htried | hfull
  · rw [htried]
  · -- the places are used up, so no parent is left
    have hle : (tried.filter fun s => (e.afterPruning cfg avgs).CanParent s.2).length ≤
        ((e.parents cfg i avgs).filter fun s => (e.afterPruning cfg avgs).CanParent s.2).length :=
      (h.front.sublist.filter _).length_le
    have hwant : (e.parents cfg i avgs).length ≤ e.wanted cfg avgs := by
      rw [parents, (chooseParents_spec cfg i _ _).2]
      exact Nat.min_le_left _ _
    have hroom := e.wanted_le_room cfg avgs
    have hfilter : ((e.parents cfg i avgs).filter fun s => (e.afterPruning cfg avgs).CanParent s.2).length ≤
        (e.parents cfg i avgs).length := List.length_filter_le _ _
    have hcount := h.count
    unfold room at hroom
    omega

/-- How many children a round creates. -/
lemma tournamentRound_children_iff (hmode : cfg.gambit.tournamentMode = true) (hb : Base cfg added e)
    (hg : Gated cfg e.traceTree) (hstop : e.shouldStopAfterCompleted cfg = false)
    (hbuild : ∀ child, i.buildFails child = false) :
    ∃ ds, (e.tournamentRound cfg i avgs).record.decisions = e.record.decisions ++ ds ∧
      (ds.countP isBranch = min (min (e.wanted cfg avgs) (e.liveCandidates cfg avgs)) (e.room cfg avgs) ↔
        (∀ s ∈ e.parents cfg i avgs, ¬ e.Dead cfg avgs s.2) ∨
        ∀ s ∈ e.parentPool cfg avgs, ¬ e.Dead cfg avgs s.2 → s ∈ e.parents cfg i avgs) := by
  obtain ⟨ds, hds, hcount⟩ := countP_isBranch_eq avgs hmode hb hg hstop hbuild
  refine ⟨ds, hds, ?_⟩
  obtain ⟨hsub, hlen⟩ : (e.parents cfg i avgs).Subperm (e.parentPool cfg avgs) ∧
      (e.parents cfg i avgs).length = min (e.wanted cfg avgs) (e.parentPool cfg avgs).length :=
    chooseParents_spec cfg i _ _
  have hnd : (e.parentPool cfg avgs).Nodup := by
    refine List.Nodup.sublist (List.filter_sublist.trans List.filter_sublist) ?_
    exact (e.nodup_ranked avgs).of_map Prod.snd
  have hmin : min (min (e.wanted cfg avgs) (e.liveCandidates cfg avgs)) (e.room cfg avgs) =
      min (e.wanted cfg avgs) (e.liveCandidates cfg avgs) :=
    Nat.min_eq_left ((Nat.min_le_left _ _).trans (e.wanted_le_room cfg avgs))
  rw [hcount, hmin, liveCandidates_eq]
  rw [length_filter_eq_iff _ hnd hsub hlen]
  refine or_congr (forall₂_congr fun s hs => ?_) (forall₂_congr fun s hs => ?_)
  · exact decide_eq_true_iff.trans (canParent_iff (mem_parentPool_of_mem_parents hs))
  · exact imp_congr (decide_eq_true_iff.trans (canParent_iff hs)) Iff.rfl

/-- A round creates as many children as there are places wanted and live candidates exactly when its selection of
parents takes no dead trace or leaves out no live one. -/
theorem slots_used_iff (i : StepInput) (avgs : Dict ReqId ℚ) (hmode : cfg.gambit.tournamentMode = true) (hb : Base cfg added e)
    (hg : Gated cfg e.traceTree) (hstop : e.shouldStopAfterCompleted cfg = false)
    (hbuild : ∀ child, i.buildFails child = false) (hdue : (e.afterFloor cfg avgs).roundDue cfg avgs = true) :
    ∃ ds, (e.tournamentStep cfg i avgs).record.decisions = (e.afterFloor cfg avgs).record.decisions ++ ds ∧
      (ds.countP isBranch = min (min ((e.afterFloor cfg avgs).wanted cfg avgs)
          ((e.afterFloor cfg avgs).liveCandidates cfg avgs)) ((e.afterFloor cfg avgs).room cfg avgs) ↔
        (∀ s ∈ (e.afterFloor cfg avgs).parents cfg i avgs, ¬ (e.afterFloor cfg avgs).Dead cfg avgs s.2) ∨
        ∀ s ∈ (e.afterFloor cfg avgs).parentPool cfg avgs, ¬ (e.afterFloor cfg avgs).Dead cfg avgs s.2 →
          s ∈ (e.afterFloor cfg avgs).parents cfg i avgs) := by
  have hstop' : (e.afterFloor cfg avgs).shouldStopAfterCompleted cfg = false := by
    rw [afterFloor, shouldStopAfterCompleted_congr (e.pruneAll_pruned _).completed]
    exact hstop
  have hstep : e.tournamentStep cfg i avgs = (e.afterFloor cfg avgs).tournamentRound cfg i avgs := if_pos hdue
  rw [hstep]
  exact tournamentRound_children_iff hmode (hb.pruneAll _) (hg.pruneAll _) hstop' hbuild

/-- Three live roots and one free slot: the slot is used. -/
theorem slots_used_three :
    ∃ ds, ((threeRoots 4).tournamentStep (roundSample 4) quietInput threeScores).record.decisions =
        ((threeRoots 4).afterFloor (roundSample 4) threeScores).record.decisions ++ ds ∧ ds.countP isBranch = 1 := by
  obtain ⟨ds, hds, hiff⟩ := slots_used_iff quietInput threeScores rfl (base_threeRoots 4)
    (gated_threeRoots 4) (by decide +kernel) (fun _ => rfl) (by decide +kernel)
  refine ⟨ds, hds, ?_⟩
  have hlive : ∀ s ∈ ((threeRoots 4).afterFloor (roundSample 4) threeScores).parents (roundSample 4) quietInput
      threeScores, ¬ ((threeRoots 4).afterFloor (roundSample 4) threeScores).Dead (roundSample 4) threeScores s.2 := by
    unfold Dead
    decide +kernel
  rw [hiff.2 (.inl hlive)]
  decide +kernel

/-- The engine with three roots of which the best one is a ghost: its request was aborted, its node is active. -/
def ghostRoot : EngineCore Unit :=
  ((engineMachine .unbounded (roundSample 4) ()).exec (rootEvents ++ [.abortRequests ["0_1".toList]])).2

/-- Three roots and one free slot, and the best root is a ghost: no child is created although two live candidates are
there. -/
theorem ghost_takes_slot :
    (roundSample 4).gambit.tournamentMode = true ∧ ghostRoot.shouldStopAfterCompleted (roundSample 4) = false ∧
      (∀ child, quietInput.buildFails child = false) ∧
      (ghostRoot.afterFloor (roundSample 4) threeScores).roundDue (roundSample 4) threeScores = true ∧
      (ghostRoot.tournamentStep (roundSample 4) quietInput threeScores).record.decisions.countP isBranch = 0 ∧
      (ghostRoot.afterFloor (roundSample 4) threeScores).wanted (roundSample 4) threeScores = 1 ∧
      (ghostRoot.afterFloor (roundSample 4) threeScores).liveCandidates (roundSample 4) threeScores = 2 ∧
      (ghostRoot.afterFloor (roundSample 4) threeScores).room (roundSample 4) threeScores = 1 := by
  refine ⟨rfl, by decide +kernel, fun _ => rfl, ?_⟩
  decide +kernel

end EngineCore
end Gambit.Engine
