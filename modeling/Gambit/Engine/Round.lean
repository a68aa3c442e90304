import Gambit.Engine.Branching

/-!
# Tournament rounds

A round ranks the scored active traces, prunes some from the bottom and branches some from the top. Here it is cut
into its parts: the traces over capacity, the traces swapped out, the pool of parents and how many of them are
wanted (`tournamentRound_eq`). The state `e` of a round is the one after the hard floor.

The number of traces over capacity counts all active nodes, with those that were never scored, and is only bounded
by the number of scored ones: a round can prune every scored trace. And the parents are cut out of the pool before
it is known which of them can branch: a trace pruned over capacity, or one whose request was evicted, takes a place
in the cut and gets no child.
-/

namespace Gambit.Engine
open Gambit.Lib Gambit.Sched Gambit.Trace

namespace EngineCore
variable {μ : Type} {cfg : VllmConfig} {i : StepInput} {e e' : EngineCore μ} {added : List ReqId}
variable {avgs : Dict ReqId ℚ} {rid : ReqId}

/-- The scored active traces, best first. -/
def ranked (e : EngineCore μ) (avgs : Dict ReqId ℚ) : List (ℚ × ReqId) := sortByScore (e.activeTraces avgs)

/-- Whether the round fills free slots. -/
def filling (cfg : VllmConfig) (e : EngineCore μ) : Bool :=
  (e.traceTree.getActiveCount : Int) < cfg.gambit.tournamentCapacity

/-- How many traces are pruned over capacity. -/
def excess (cfg : VllmConfig) (e : EngineCore μ) (avgs : Dict ReqId ℚ) : Nat :=
  min (e.traceTree.getActiveCount - cfg.gambit.tournamentCapacity).toNat (e.ranked avgs).length

/-- The traces that are not over capacity. -/
def kept (cfg : VllmConfig) (e : EngineCore μ) (avgs : Dict ReqId ℚ) : List (ℚ × ReqId) :=
  dropLastN (e.ranked avgs) (e.excess cfg avgs)

/-- How many traces are swapped (Python `actual_k`). -/
def swapCount (cfg : VllmConfig) (e : EngineCore μ) (avgs : Dict ReqId ℚ) : Nat :=
  if e.filling cfg then 0 else (min cfg.gambit.tournamentSwapK ((e.kept cfg avgs).length / 2 : Nat)).toNat

/-- The traces swapped out. -/
def swappedOut (cfg : VllmConfig) (e : EngineCore μ) (avgs : Dict ReqId ℚ) : List ReqId :=
  (lastN (e.kept cfg avgs) (e.swapCount cfg avgs)).map Prod.snd

/-- The traces pruned over capacity. -/
def overCapacity (cfg : VllmConfig) (e : EngineCore μ) (avgs : Dict ReqId ℚ) : List ReqId :=
  (lastN (e.ranked avgs) (e.excess cfg avgs)).map Prod.snd

/-- The traces the round prunes by rank. -/
def victims (cfg : VllmConfig) (e : EngineCore μ) (avgs : Dict ReqId ℚ) : List ReqId :=
  e.overCapacity cfg avgs ++ e.swappedOut cfg avgs

/-- The candidates for branching: ranked and past the warm-up. -/
def candidates (cfg : VllmConfig) (e : EngineCore μ) (avgs : Dict ReqId ℚ) : List (ℚ × ReqId) :=
  e.warmedUp cfg (e.ranked avgs)

/-- The list the parents are chosen from. -/
def parentPool (cfg : VllmConfig) (e : EngineCore μ) (avgs : Dict ReqId ℚ) : List (ℚ × ReqId) :=
  (e.candidates cfg avgs).filter fun s => s.2 ∉ e.swappedOut cfg avgs

/-- How many children the round wants: one for each free slot, or one for each trace swapped out. -/
def wanted (cfg : VllmConfig) (e : EngineCore μ) (avgs : Dict ReqId ℚ) : Nat :=
  if e.filling cfg then (cfg.gambit.tournamentCapacity - e.traceTree.getActiveCount).toNat
  else e.swapCount cfg avgs

/-- The parents the round tries. -/
def parents (cfg : VllmConfig) (i : StepInput) (e : EngineCore μ) (avgs : Dict ReqId ℚ) : List (ℚ × ReqId) :=
  chooseParents cfg i (e.parentPool cfg avgs) (e.wanted cfg avgs)

/-- The state after the pruning of the round. -/
def afterPruning (cfg : VllmConfig) (e : EngineCore μ) (avgs : Dict ReqId ℚ) : EngineCore μ :=
  ({ e with tournamentLastRoundStep := e.tournamentStepCounter } : EngineCore μ).pruneAll (e.victims cfg avgs)

/-- No parents are chosen when none are wanted. -/
lemma chooseParents_zero (l : List (ℚ × ReqId)) : chooseParents cfg i l 0 = [] := by
  unfold chooseParents
  split
  · rw [Nat.zero_min]
    exact List.length_eq_zero_iff.1 ((i.sample_spec l 0).2 (Nat.zero_le _))
  · rfl

lemma chooseParents_nil (n : Nat) : chooseParents cfg i [] n = [] := by
  unfold chooseParents
  rw [if_neg fun h => h.2 rfl]
  exact List.take_nil

/-- The parents chosen are distinct positions of the list, as many as wanted or as there are. -/
lemma chooseParents_spec (cfg : VllmConfig) (i : StepInput) (l : List (ℚ × ReqId)) (n : Nat) :
    (chooseParents cfg i l n).Subperm l ∧ (chooseParents cfg i l n).length = min n l.length := by
  unfold chooseParents
  split
  · exact ⟨(i.sample_spec l _).1, (i.sample_spec l _).2 (Nat.min_le_right _ _)⟩
  · exact ⟨(List.take_sublist n l).subperm, List.length_take⟩

lemma lastN_zero {α : Type} (l : List α) : lastN l 0 = [] := by
  rw [lastN, Nat.sub_zero, List.drop_length]

lemma dropLastN_zero {α : Type} (l : List α) : dropLastN l 0 = l := by
  rw [dropLastN, Nat.sub_zero, List.take_length]

lemma dropLastN_append_lastN {α : Type} (l : List α) (k : Nat) : dropLastN l k ++ lastN l k = l :=
  List.take_append_drop _ l

lemma pruneAll_append (e : EngineCore μ) (l l' : List ReqId) : e.pruneAll (l ++ l') = (e.pruneAll l).pruneAll l' :=
  List.foldl_append

/-- A round prunes its victims and branches its parents. -/
lemma tournamentRound_eq (cfg : VllmConfig) (i : StepInput) (e : EngineCore μ) (avgs : Dict ReqId ℚ) :
    e.tournamentRound cfg i avgs =
      (e.afterPruning cfg avgs).branchWithin cfg i cfg.gambit.tournamentCapacity (e.parents cfg i avgs) := by
  unfold tournamentRound afterPruning
  generalize he : ({ e with tournamentLastRoundStep := e.tournamentStepCounter } : EngineCore μ) = e₁
  have hrank : sortByScore (e₁.activeTraces avgs) = e.ranked avgs := by rw [← he]; rfl
  have hcand : e₁.warmedUp cfg (e.ranked avgs) = e.candidates cfg avgs := by rw [← he]; rfl
  have htree : e₁.traceTree = e.traceTree := by rw [← he]
  dsimp only
  rw [hrank, hcand, htree]
  by_cases hfill : (e.traceTree.getActiveCount : Int) < cfg.gambit.tournamentCapacity
  · have hf : e.filling cfg = true := decide_eq_true hfill
    have hk : e.swapCount cfg avgs = 0 := by rw [swapCount, hf]; rfl
    have hx : e.excess cfg avgs = 0 := by
      rw [excess, Int.toNat_of_nonpos (by omega), Nat.zero_min]
    have hv : e.victims cfg avgs = [] := by
      rw [victims, overCapacity, swappedOut, hk, hx, lastN_zero, lastN_zero]
      rfl
    have hpool : e.parentPool cfg avgs = e.candidates cfg avgs := by
      rw [parentPool, swappedOut, hk, lastN_zero]
      exact List.filter_eq_self.2 fun s _ => by simp
    have hw : e.wanted cfg avgs = (cfg.gambit.tournamentCapacity - e.traceTree.getActiveCount).toNat := by
      rw [wanted, hf]
      rfl
    rw [hv, parents, hpool, hw, if_pos hfill]
    by_cases hempty : (e.ranked avgs).isEmpty = true
    · have hc : e.candidates cfg avgs = [] := by
        rw [candidates, List.isEmpty_iff.1 hempty]
        rfl
      rw [if_pos hempty, hc, chooseParents_nil]
      rfl
    · rw [if_neg hempty, fillSlots, htree]
      rfl
  · have hf : e.filling cfg = false := decide_eq_false hfill
    have hw : e.wanted cfg avgs = e.swapCount cfg avgs := by
      rw [wanted, hf]
      rfl
    rw [parents, hw, if_neg hfill]
    by_cases hempty : (e.ranked avgs).isEmpty = true
    · have hr : e.ranked avgs = [] := List.isEmpty_iff.1 hempty
      have hv : e.victims cfg avgs = [] := by
        rw [victims, overCapacity, swappedOut, kept, hr]
        simp [lastN, dropLastN]
      have hpool : e.parentPool cfg avgs = [] := by
        rw [parentPool, candidates, hr]
        rfl
      rw [if_pos hempty, hv, hpool, chooseParents_nil]
      rfl
    · rw [if_neg hempty, trimAndSwap, htree]
      have hexc : min (↑e.traceTree.getActiveCount - cfg.gambit.tournamentCapacity).toNat (e.ranked avgs).length =
          e.excess cfg avgs := rfl
      have hswap : ∀ e₂ : EngineCore μ, e₂.swap cfg i (e.kept cfg avgs) (e.candidates cfg avgs) =
          (e₂.pruneAll (e.swappedOut cfg avgs)).branchWithin cfg i cfg.gambit.tournamentCapacity
            (chooseParents cfg i (e.parentPool cfg avgs) (e.swapCount cfg avgs)) := by
        intro e₂
        have hk : (min cfg.gambit.tournamentSwapK ((e.kept cfg avgs).length / 2 : Nat)).toNat =
            e.swapCount cfg avgs := by
          rw [swapCount, hf]
          rfl
        unfold swap
        dsimp only
        rw [hk]
        by_cases h0 : e.swapCount cfg avgs = 0
        · rw [if_pos h0, h0, chooseParents_zero, swappedOut, h0, lastN_zero]
          rfl
        · rw [if_neg h0]
          rfl
      rw [hexc, victims, pruneAll_append]
      by_cases h0 : e.excess cfg avgs = 0
      · have hkept : e.kept cfg avgs = e.ranked avgs := by rw [kept, h0, dropLastN_zero]
        have hover : e.overCapacity cfg avgs = [] := by
          rw [overCapacity, h0, lastN_zero]
          rfl
        rw [if_pos h0, hover, ← hkept, hswap]
        rfl
      · rw [if_neg h0]
        exact hswap _

/-- Who is ranked: the scored traces that are active and not marked to stop. -/
lemma mem_ranked {s : ℚ × ReqId} :
    s ∈ e.ranked avgs ↔ avgs.get? s.2 = some s.1 ∧ s.2 ∉ e.pendingLowScoreStops ∧ e.Active s.2 := by
  rw [ranked, sortByScore, List.mem_insertionSort, activeTraces, List.mem_map]
  constructor
  · rintro ⟨a, ha, rfl⟩
    obtain ⟨hm, hf⟩ := List.mem_filter.1 ha
    exact ⟨Dict.get?_eq_some.2 hm, of_decide_eq_true hf⟩
  · rintro ⟨hget, hp⟩
    exact ⟨(s.2, s.1), List.mem_filter.2 ⟨Dict.get?_eq_some.1 hget, decide_eq_true hp⟩, rfl⟩

/-- No trace is ranked twice. -/
lemma nodup_ranked (e : EngineCore μ) (avgs : Dict ReqId ℚ) : ((e.ranked avgs).map Prod.snd).Nodup := by
  have hperm : ((e.ranked avgs).map Prod.snd).Perm ((e.activeTraces avgs).map Prod.snd) :=
    (List.perm_insertionSort _ _).map Prod.snd
  refine hperm.nodup_iff.2 ?_
  rw [activeTraces, List.map_map]
  exact avgs.nodup.sublist (List.Sublist.map Prod.fst List.filter_sublist)

/-- The ranking goes down. -/
lemma pairwise_ranked (e : EngineCore μ) (avgs : Dict ReqId ℚ) : (e.ranked avgs).Pairwise fun a b => b.1 ≤ a.1 := by
  have htotal : Std.Total fun a b : ℚ × ReqId => b.1 ≤ a.1 := ⟨fun a b => le_total b.1 a.1⟩
  have htrans : IsTrans (ℚ × ReqId) fun a b => b.1 ≤ a.1 := ⟨fun a b c hab hbc => hbc.trans hab⟩
  exact List.pairwise_insertionSort _ _

/-- The traces pruned by rank are the end of the ranking. -/
lemma ranked_split (cfg : VllmConfig) (e : EngineCore μ) (avgs : Dict ReqId ℚ) :
    ∃ top bottom, e.ranked avgs = top ++ bottom ∧ (bottom.map Prod.snd).Perm (e.victims cfg avgs) := by
  refine ⟨dropLastN (e.kept cfg avgs) (e.swapCount cfg avgs),
    lastN (e.kept cfg avgs) (e.swapCount cfg avgs) ++ lastN (e.ranked avgs) (e.excess cfg avgs), ?_, ?_⟩
  · rw [← List.append_assoc, dropLastN_append_lastN, kept, dropLastN_append_lastN]
  · rw [List.map_append]
    exact List.perm_append_comm

/-- No victim is pruned twice. -/
lemma nodup_victims (cfg : VllmConfig) (e : EngineCore μ) (avgs : Dict ReqId ℚ) : (e.victims cfg avgs).Nodup := by
  obtain ⟨top, bottom, hsplit, hperm⟩ := e.ranked_split cfg avgs
  have hnd := e.nodup_ranked avgs
  rw [hsplit, List.map_append] at hnd
  exact hperm.nodup_iff.1 hnd.of_append_right

/-- The victims are ranked. -/
lemma mem_ranked_of_mem_victims (h : rid ∈ e.victims cfg avgs) : ∃ q, (q, rid) ∈ e.ranked avgs := by
  obtain ⟨top, bottom, hsplit, hperm⟩ := e.ranked_split cfg avgs
  obtain ⟨s, hs, rfl⟩ := List.mem_map.1 (hperm.mem_iff.2 h)
  refine ⟨s.1, ?_⟩
  rw [hsplit]
  exact List.mem_append_right top hs

/-- A ranked trace that is no victim has at least the score of every victim. -/
lemma le_of_mem_victims {s : ℚ × ReqId} {q : ℚ} (hs : s ∈ e.ranked avgs) (hns : s.2 ∉ e.victims cfg avgs)
    (hv : rid ∈ e.victims cfg avgs) (hq : avgs.get? rid = some q) : q ≤ s.1 := by
  obtain ⟨top, bottom, hsplit, hperm⟩ := e.ranked_split cfg avgs
  have hsorted := e.pairwise_ranked avgs
  rw [hsplit] at hs hsorted
  obtain ⟨v, hv', rfl⟩ := List.mem_map.1 (hperm.mem_iff.2 hv)
  have hrank : v ∈ e.ranked avgs := by
    rw [hsplit]
    exact List.mem_append_right top hv'
  have hscore := (mem_ranked.1 hrank).1
  rw [hq] at hscore
  cases hscore
  rcases List.mem_append.1 hs with htop | hbot
  · exact (List.pairwise_append.1 hsorted).2.2 s htop v hv'
  · exact absurd (hperm.mem_iff.1 (List.mem_map_of_mem hbot)) hns

/-- What pruning a list of traces does. -/
structure Pruned (l : List ReqId) (e e' : EngineCore μ) : Prop where
  active : ∀ x, e'.Active x ↔ e.Active x ∧ x ∉ l
  mem : ∀ x, x ∈ e'.traceTree ↔ x ∈ e.traceTree
  scheduler : e'.scheduler = e.scheduler
  tokenCount : ∀ x, e'.tokenCount x = e.tokenCount x
  completed : e'.traceTree.getCompletedCount = e.traceTree.getCompletedCount
  decisions : e'.record.decisions = e.record.decisions ++ l.map .prune

/-- Pruning one trace. -/
lemma pruneTrace_pruned (e : EngineCore μ) (rid : ReqId) : Pruned [rid] e (e.pruneTrace rid) where
  active x := by
    have hget := TraceTree.getNode_markPruned e.traceTree rid x
    unfold Active
    change ((e.traceTree.markPruned rid).getNode x).any _ = true ↔ _
    rw [hget, List.mem_singleton]
    by_cases hx : x = rid
    · rw [if_pos hx]
      cases e.traceTree.getNode x with
      | none => simp
      | some n => simp [hx]
    · rw [if_neg hx]
      simp [hx]
  mem _ := TraceTree.mem_markPruned
  scheduler := rfl
  tokenCount _ := rfl
  completed := getCompletedCount_markPruned e.traceTree rid
  decisions := rfl

lemma pruneAll_pruned (e : EngineCore μ) (l : List ReqId) : Pruned l e (e.pruneAll l) := by
  induction l generalizing e with
  | nil => exact ⟨fun x => by simp [pruneAll], fun _ => Iff.rfl, rfl, fun _ => rfl, rfl, (List.append_nil _).symm⟩
  | cons x l ih =>
    have h1 := e.pruneTrace_pruned x
    have h2 := ih (e.pruneTrace x)
    refine ⟨fun y => ?_, fun y => (h2.mem y).trans (h1.mem y), h2.scheduler.trans h1.scheduler,
      fun y => (h2.tokenCount y).trans (h1.tokenCount y), h2.completed.trans h1.completed, ?_⟩
    · refine (h2.active y).trans ?_
      rw [h1.active, List.mem_singleton, List.mem_cons, not_or, and_assoc]
    · refine h2.decisions.trans ?_
      rw [h1.decisions, List.append_assoc]
      rfl

/-- Pruning distinct active traces lowers the number of active traces by as many. -/
lemma activeCount_pruneAll {l : List ReqId} (nd : l.Nodup) (h : ∀ x ∈ l, e.Active x) :
    (e.pruneAll l).activeCount + l.length = e.activeCount := by
  induction l generalizing e with
  | nil => rfl
  | cons x l ih =>
    obtain ⟨hx, nd⟩ := List.nodup_cons.1 nd
    have hrest : ∀ y ∈ l, (e.pruneTrace x).Active y := by
      intro y hy
      refine ((e.pruneTrace_pruned x).active y).2 ⟨h y (List.mem_cons_of_mem x hy), fun he => ?_⟩
      exact hx (List.mem_singleton.1 he ▸ hy)
    obtain ⟨n, hn, hact⟩ := any_isActive (h x List.mem_cons_self)
    have hone : (e.pruneTrace x).activeCount + 1 = e.activeCount := by
      have hc := Dict.count_modify TraceNode.isActive (fun n => { n with isActive := false, isPruned := true }) hn
      rw [if_pos hact, if_neg Bool.false_ne_true] at hc
      exact hc
    have := ih nd hrest
    rw [List.length_cons, pruneAll, List.foldl_cons]
    unfold pruneAll at this
    omega

/-- Pruning keeps the invariant of the engine. -/
lemma Base.pruneAll (hb : Base cfg added e) (l : List ReqId) : Base cfg added (e.pruneAll l) := by
  induction l generalizing e with
  | nil => exact hb
  | cons x l ih =>
    refine ih (hb.retree (t := e.traceTree.markPruned x) (fun y hy => .inl ?_) rfl rfl rfl rfl rfl rfl rfl rfl)
    exact TraceTree.mem_markPruned.1 hy

lemma Gated.pruneAll (hg : Gated cfg e.traceTree) (l : List ReqId) : Gated cfg (e.pruneAll l).traceTree := by
  induction l generalizing e with
  | nil => exact hg
  | cons x l ih => exact ih ((treeRules_gated cfg).markPruned _ x hg)

/-- Branching moves no branch when the completion limit is reached. -/
lemma branchWithin_of_stop {capacity : Int} (hstop : e.shouldStopAfterCompleted cfg = true) (l : List (ℚ × ReqId)) :
    e.branchWithin cfg i capacity l = e := by
  induction l with
  | nil => rfl
  | cons s l ih =>
    have hone : (e.createBranch cfg i s.2).1 = e := by
      unfold createBranch
      rw [if_pos hstop]
    rw [branchWithin, hone]
    split
    · rfl
    · exact ih

lemma length_lastN {α : Type} {l : List α} {k : Nat} (h : k ≤ l.length) : (lastN l k).length = k := by
  rw [lastN, List.length_drop]
  omega

lemma excess_le (cfg : VllmConfig) (e : EngineCore μ) (avgs : Dict ReqId ℚ) :
    e.excess cfg avgs ≤ (e.ranked avgs).length := Nat.min_le_right _ _

lemma length_kept (cfg : VllmConfig) (e : EngineCore μ) (avgs : Dict ReqId ℚ) :
    (e.kept cfg avgs).length = (e.ranked avgs).length - e.excess cfg avgs := by
  rw [kept, dropLastN, List.length_take]
  exact Nat.min_eq_left (Nat.sub_le _ _)

/-- At most half of the traces within capacity are swapped. -/
lemma swapCount_le (cfg : VllmConfig) (e : EngineCore μ) (avgs : Dict ReqId ℚ) :
    e.swapCount cfg avgs ≤ (e.kept cfg avgs).length / 2 := by
  unfold swapCount
  split
  · exact Nat.zero_le _
  · omega

lemma length_victims (cfg : VllmConfig) (e : EngineCore μ) (avgs : Dict ReqId ℚ) :
    (e.victims cfg avgs).length = e.excess cfg avgs + e.swapCount cfg avgs := by
  have hswap : e.swapCount cfg avgs ≤ (e.kept cfg avgs).length := (e.swapCount_le cfg avgs).trans (Nat.div_le_self _ 2)
  rw [victims, List.length_append, overCapacity, swappedOut, List.length_map, List.length_map,
    length_lastN (e.excess_le cfg avgs), length_lastN hswap]

/-- A ranked trace is no victim exactly when fewer traces are over capacity than are ranked. -/
lemma exists_survivor_iff :
    (∃ s ∈ e.ranked avgs, s.2 ∉ e.victims cfg avgs) ↔ e.excess cfg avgs < (e.ranked avgs).length := by
  have hlen := e.length_victims cfg avgs
  have hswap := e.swapCount_le cfg avgs
  have hkept := e.length_kept cfg avgs
  constructor
  · rintro ⟨s, hs, hns⟩
    -- the survivor stands above the end of the ranking that is pruned
    obtain ⟨top, bottom, hsplit, hperm⟩ := e.ranked_split cfg avgs
    have hbot := hperm.length_eq
    rw [List.length_map] at hbot
    have htop : 0 < top.length := by
      rw [hsplit] at hs
      rcases List.mem_append.1 hs with h | h
      · exact List.length_pos_of_mem h
      · exact absurd (hperm.mem_iff.1 (List.mem_map_of_mem h)) hns
    have hall := congrArg List.length hsplit
    rw [List.length_append] at hall
    omega
  · intro hlt
    by_contra hnone
    have hsub : (e.ranked avgs).map Prod.snd ⊆ e.victims cfg avgs := by
      intro x hx
      obtain ⟨s, hs, rfl⟩ := List.mem_map.1 hx
      by_contra hns
      exact hnone ⟨s, hs, hns⟩
    have hle := (List.subperm_of_subset (e.nodup_ranked avgs) hsub).length_le
    rw [List.length_map] at hle
    omega

/-- What the pruning of a round does. -/
lemma afterPruning_pruned (cfg : VllmConfig) (e : EngineCore μ) (avgs : Dict ReqId ℚ) :
    Pruned (e.victims cfg avgs) e (e.afterPruning cfg avgs) := by
  have h := ({ e with tournamentLastRoundStep := e.tournamentStepCounter } : EngineCore μ).pruneAll_pruned
    (e.victims cfg avgs)
  exact ⟨h.active, h.mem, h.scheduler, h.tokenCount, h.completed, h.decisions⟩

/-- The parents are ranked and past the warm-up. -/
lemma mem_parentPool {s : ℚ × ReqId} :
    s ∈ e.parentPool cfg avgs ↔ s ∈ e.ranked avgs ∧ cfg.gambit.tournamentWarmupTokens ≤ (e.tokenCount s.2 : Int) ∧
      s.2 ∉ e.swappedOut cfg avgs := by
  rw [parentPool, List.mem_filter, candidates, warmedUp, List.mem_filter, decide_eq_true_iff, decide_eq_true_iff,
    and_assoc]

lemma mem_parentPool_of_mem_parents {s : ℚ × ReqId} (h : s ∈ e.parents cfg i avgs) : s ∈ e.parentPool cfg avgs :=
  (chooseParents_spec cfg i _ _).1.subset h

/-- What a round does after its pruning: it tries a part of its parents and takes one decision for each that can
branch. -/
structure Rounded (cfg : VllmConfig) (i : StepInput) (avgs : Dict ReqId ℚ) (e e' : EngineCore μ)
    (tried : List (ℚ × ReqId)) (ds : List Decision) : Prop where
  spared : Spared (e.afterPruning cfg avgs) e'
  front : tried <+: e.parents cfg i avgs
  decisions : e'.record.decisions = e.record.decisions ++ ((e.victims cfg avgs).map .prune ++ ds)
  subjects : ds.map branchSubject =
    ((tried.map Prod.snd).filter fun x => (e.afterPruning cfg avgs).CanParent x).map some

section round
variable (hmode : cfg.gambit.tournamentMode = true) (hb : Base cfg added e) (hg : Gated cfg e.traceTree)
include hmode hb hg

lemma branchWithin_of_round (avgs : Dict ReqId ℚ) (hstop : e.shouldStopAfterCompleted cfg = false) :
    ∃ tried ds, BranchedWithin cfg i (e.parents cfg i avgs) (e.afterPruning cfg avgs) (e.tournamentRound cfg i avgs)
      tried ds := by
  have hp := e.afterPruning_pruned cfg avgs
  have hb' : Base cfg added (e.afterPruning cfg avgs) :=
    Base.pruneAll (e := { e with tournamentLastRoundStep := e.tournamentStepCounter })
      (hb.retree (t := e.traceTree) (fun x hx => .inl hx) rfl rfl rfl rfl rfl rfl rfl rfl) _
  have hg' : Gated cfg (e.afterPruning cfg avgs).traceTree :=
    Gated.pruneAll (e := { e with tournamentLastRoundStep := e.tournamentStepCounter }) hg _
  rw [tournamentRound_eq]
  refine hb'.branchWithin_branched hmode _ hg' ?_ fun s hs => ?_
  · rw [shouldStopAfterCompleted_congr hp.completed]
    exact hstop
  · have hrank := (mem_parentPool.1 (mem_parentPool_of_mem_parents hs)).1
    exact (hp.mem s.2).2 (TraceTree.mem_of_getNode (any_isActive (mem_ranked.1 hrank).2.2).choose_spec.1)

lemma tournamentRound_rounded (avgs : Dict ReqId ℚ) :
    ∃ tried ds, Rounded cfg i avgs e (e.tournamentRound cfg i avgs) tried ds := by
  have hp := e.afterPruning_pruned cfg avgs
  cases hstop : e.shouldStopAfterCompleted cfg with
  | false =>
    obtain ⟨tried, ds, h⟩ := branchWithin_of_round (i := i) hmode hb hg avgs hstop
    refine ⟨tried, ds, h.spared, h.front, ?_, h.subjects⟩
    rw [h.decisions, hp.decisions, List.append_assoc]
  | true =>
    have hsame : e.tournamentRound cfg i avgs = e.afterPruning cfg avgs := by
      rw [tournamentRound_eq]
      refine branchWithin_of_stop ?_ _
      rw [shouldStopAfterCompleted_congr hp.completed]
      exact hstop
    rw [hsame]
    refine ⟨[], [], .refl _, List.nil_prefix, ?_, rfl⟩
    rw [hp.decisions, List.append_nil]

/-- Which ranked traces are active after a round: those that are no victims. -/
lemma active_tournamentRound {s : ℚ × ReqId} (hs : s ∈ e.ranked avgs) :
    (e.tournamentRound cfg i avgs).Active s.2 ↔ s.2 ∉ e.victims cfg avgs := by
  obtain ⟨tried, ds, h⟩ := tournamentRound_rounded (i := i) hmode hb hg avgs
  have hp := e.afterPruning_pruned cfg avgs
  have hact := (mem_ranked.1 hs).2.2
  have hmem := (hp.mem s.2).2 (TraceTree.mem_of_getNode (any_isActive hact).choose_spec.1)
  rw [h.spared.active s.2 hmem, hp.active]
  exact and_iff_right hact

end round

/-- The state after the hard floor. -/
def afterFloor (cfg : VllmConfig) (e : EngineCore μ) (avgs : Dict ReqId ℚ) : EngineCore μ :=
  e.pruneAll (e.belowHardFloor cfg avgs)

/-- In a tournament step with a round, one of the traces scored and active after the hard floor stays active exactly
when fewer active traces exceed the capacity than are scored. -/
theorem scored_survive_iff (hmode : cfg.gambit.tournamentMode = true) (hb : Base cfg added e)
    (hg : Gated cfg e.traceTree) (hdue : (e.afterFloor cfg avgs).roundDue cfg avgs = true)
    (hscored : (e.afterFloor cfg avgs).activeTraces avgs ≠ []) :
    (∃ s ∈ (e.afterFloor cfg avgs).activeTraces avgs, (e.tournamentStep cfg i avgs).Active s.2) ↔
      ((e.afterFloor cfg avgs).traceTree.getActiveCount : Int) - cfg.gambit.tournamentCapacity <
        ((e.afterFloor cfg avgs).activeTraces avgs).length := by
  have hb' : Base cfg added (e.afterFloor cfg avgs) := hb.pruneAll _
  have hg' : Gated cfg (e.afterFloor cfg avgs).traceTree := hg.pruneAll _
  have hstep : e.tournamentStep cfg i avgs = (e.afterFloor cfg avgs).tournamentRound cfg i avgs := if_pos hdue
  rw [hstep]
  generalize e.afterFloor cfg avgs = e₁ at hb' hg' hscored ⊢
  have hperm : (e₁.ranked avgs).Perm (e₁.activeTraces avgs) := List.perm_insertionSort _ _
  have hiff : (∃ s ∈ e₁.activeTraces avgs, (e₁.tournamentRound cfg i avgs).Active s.2) ↔
      ∃ s ∈ e₁.ranked avgs, s.2 ∉ e₁.victims cfg avgs := by
    refine exists_congr fun s => ?_
    rw [← hperm.mem_iff]
    exact and_congr_right fun hs => active_tournamentRound hmode hb' hg' hs
  have hpos : 0 < (e₁.activeTraces avgs).length := List.length_pos_iff.2 hscored
  rw [hiff, exists_survivor_iff, excess, hperm.length_eq]
  omega

/-- A tournament without warm-up that swaps one trace. -/
def roundSample (capacity : Int) : VllmConfig where
  gambit :=
    { enable := true
      enableBranching := true
      tournamentCapacity := capacity
      tournamentSwapK := 1
      tournamentWarmupTokens := 0 }
  scheduler := {}

/-- Three roots. -/
def rootEvents : List Event :=
  ["0_1".toList, "1_1".toList, "2_1".toList].map fun rid => .addRequest { requestId := rid, promptTokenIds := [1, 2, 3] }

/-- The engine with three roots. -/
def threeRoots (capacity : Int) : EngineCore Unit :=
  ((engineMachine .unbounded (roundSample capacity) ()).exec rootEvents).2

/-- A step that scores nothing itself. -/
def quietInput : StepInput := .ofSamples (fun _ => []) fun _ => 0

/-- Scores of the three roots, the first one best. -/
def threeScores : Dict ReqId ℚ :=
  .ofKeys ["0_1".toList, "1_1".toList, "2_1".toList] (by decide) fun rid =>
    if rid = "0_1".toList then 1 else if rid = "1_1".toList then 1 / 2 else 1 / 3

lemma runs_threeRoots (capacity : Int) : (engineMachine .unbounded (roundSample capacity) ()).Runs rootEvents
    ((engineMachine .unbounded (roundSample capacity) ()).exec rootEvents).1 (threeRoots capacity) := by
  have hok : (engineMachine .unbounded (roundSample 0) ()).OkFrom [] rootEvents := by decide +kernel
  exact Machine.Runs.of_exec hok

lemma base_threeRoots (capacity : Int) :
    Base (roundSample capacity) (rootEvents.filterMap Event.added) (threeRoots capacity) :=
  base_of_runs (runs_threeRoots capacity)

lemma gated_threeRoots (capacity : Int) : Gated (roundSample capacity) (threeRoots capacity).traceTree := by
  refine tree_of_runs (treeRules_gated _) ?_ (runs_threeRoots capacity)
  exact ⟨rfl, rfl, fun rid n hn => by cases hn⟩

/-- Three scored roots at a capacity of two: one is pruned, and some survive. -/
theorem scored_survive_three :
    ∃ s ∈ ((threeRoots 2).afterFloor (roundSample 2) threeScores).activeTraces threeScores,
      ((threeRoots 2).tournamentStep (roundSample 2) quietInput threeScores).Active s.2 :=
  (scored_survive_iff rfl (base_threeRoots 2) (gated_threeRoots 2) (by decide +kernel) (by decide +kernel)).2
    (by decide +kernel)

/-- Three roots at a capacity of one, of which one is scored: the round prunes the scored one. -/
theorem round_prunes_all_scored :
    let avgs : Dict ReqId ℚ := .ofKeys ["0_1".toList] (by decide) fun _ => 1
    ((threeRoots 1).afterFloor (roundSample 1) avgs).roundDue (roundSample 1) avgs = true ∧
      ((threeRoots 1).afterFloor (roundSample 1) avgs).activeTraces avgs ≠ [] ∧
      ¬ ∃ s ∈ ((threeRoots 1).afterFloor (roundSample 1) avgs).activeTraces avgs,
        ((threeRoots 1).tournamentStep (roundSample 1) quietInput avgs).Active s.2 := by
  decide +kernel

end EngineCore
end Gambit.Engine
