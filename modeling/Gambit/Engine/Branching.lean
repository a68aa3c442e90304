import Gambit.Engine.Forest

/-!
# Creating a branch

`_gambit_create_branch` puts the child into the tree before it builds the child's request, and takes it out again
when that raises. `remove_trace` deletes the child's own node; what `add_branch` wrote on the parent stays: the id
of the child in `children` and the current step in `last_branch_step`. So a failed branch leaves the engine as it
was exactly when it failed before the tree was touched (`failed_branch_unchanged_iff`).

The second part says what a branch that succeeds changes, for the rounds that create several.
-/

namespace Gambit.Engine
open Gambit.Lib Gambit.Sched Gambit.Trace

/-- A branch id is longer than the id it is made from. -/
lemma branchId_ne (n : Nat) (p : ReqId) : branchId n p ≠ p := by
  intro h
  have hlen : (("gambit_".toList ++ Nat.toDigits 10 n) ++ '_' :: p).length = p.length := congrArg List.length h
  generalize "gambit_".toList ++ Nat.toDigits 10 n = l at hlen
  rw [List.length_append, List.length_cons] at hlen
  omega

namespace EngineCore
variable {μ β : Type} {ops : Caches μ β} {cfg : VllmConfig} {i : StepInput} {e e' : EngineCore μ}
variable {added : List ReqId} {parent rid : ReqId}

/-- The same engine up to the branch counter and the record of the step. -/
def SameSearch (e e' : EngineCore μ) : Prop :=
  { e' with
    traceTree := { e'.traceTree with branchCounter := e.traceTree.branchCounter }
    record := e.record } = e

/-- The parent may branch and its request is there, but building the request of the child raises. -/
def BuildRaises (cfg : VllmConfig) (i : StepInput) (e : EngineCore μ) (parent : ReqId) : Prop :=
  e.shouldStopAfterCompleted cfg = false ∧
    e.traceTree.canTraceBranch parent (e.tokenCount parent) = true ∧ parent ∈ e.scheduler.requests ∧
    i.buildFails (e.traceTree.generateBranchId parent) = true

instance (cfg : VllmConfig) (i : StepInput) (e : EngineCore μ) (parent : ReqId) :
    Decidable (e.BuildRaises cfg i parent) :=
  inferInstanceAs (Decidable (_ ∧ _))

/-- A trace that may branch has a node. -/
lemma getNode_of_canTraceBranch {t : TraceTree} {n : Nat} (h : t.canTraceBranch rid n = true) :
    ∃ node, t.getNode rid = some node ∧ node.isActive = true ∧ t.canBranch = true := by
  unfold TraceTree.canTraceBranch at h
  cases hn : t.getNode rid with
  | none =>
    rw [hn] at h
    cases h
  | some node =>
    rw [hn] at h
    dsimp only at h
    refine ⟨node, rfl, ?_, ?_⟩
    · cases ha : node.isActive with
      | true => rfl
      | false =>
        rw [ha] at h
        cases h
    · cases hb : t.canBranch with
      | true => rfl
      | false =>
        rw [hb] at h
        split at h
        · cases h
        · cases h

/-- The branch that is taken back: the state it leaves. -/
lemma createBranch_of_buildRaises (h : e.BuildRaises cfg i parent) :
    ∃ p t, e.traceTree.getNode parent = some p ∧
      e.traceTree.addBranch parent (e.traceTree.generateBranchId parent)
        (e.gambitOutputTokenIds.getD parent []).length = some t ∧
      e.createBranch cfg i parent =
        ({ e.logDecision (.branchFailed parent (e.traceTree.generateBranchId parent)) with
          traceTree := t.removeTrace (e.traceTree.generateBranchId parent) }, false) := by
  obtain ⟨hstop, hcan, hlive, hfail⟩ := h
  obtain ⟨p, hp, -⟩ := getNode_of_canTraceBranch hcan
  obtain ⟨r, hr⟩ := Dict.mem_iff_get?.1 hlive
  obtain ⟨t, ht⟩ : ∃ t, e.traceTree.addBranch parent (e.traceTree.generateBranchId parent)
      (e.gambitOutputTokenIds.getD parent []).length = some t := by
    unfold TraceTree.addBranch
    rw [hp]
    exact ⟨_, rfl⟩
  refine ⟨p, t, hp, ht, ?_⟩
  unfold createBranch
  rw [hstop, hcan, hr]
  dsimp only
  rw [ht]
  dsimp only
  unfold createChildRequest
  rw [if_pos hfail]
  rfl

/-- The parent's node after a branch that was taken back. -/
lemma getNode_removeTrace_parent {t t' : TraceTree} {p : TraceNode} {n len : Nat} (hp : t.getNode parent = some p)
    (ht : t.addBranch parent (branchId n parent) len = some t') :
    (t'.removeTrace (branchId n parent)).getNode parent =
      some { p with children := p.children ++ [branchId n parent], lastBranchStep := t.currentStep } := by
  have hne : parent ≠ branchId n parent := (branchId_ne n parent).symm
  unfold TraceTree.addBranch at ht
  rw [hp, Option.map_some] at ht
  cases ht
  have hget : t.nodes.get? parent = some p := hp
  have hnode : ((t.nodes.set (branchId n parent) (t.branchNode p parent (branchId n parent) len)).modify parent
      fun p => { p with children := p.children ++ [branchId n parent], lastBranchStep := t.currentStep }).get? parent =
      some { p with children := p.children ++ [branchId n parent], lastBranchStep := t.currentStep } := by
    rw [Dict.get?_modify, if_pos rfl, Dict.get?_set, if_neg hne, hget, Option.map_some]
  unfold TraceTree.removeTrace
  split
  · unfold TraceTree.getNode
    rw [Dict.get?_erase, if_neg hne]
    exact hnode
  · exact hnode

/-- A failed branch leaves the search as it was exactly when no build raised for a parent that may branch. -/
theorem failed_branch_unchanged_iff (cfg : VllmConfig) (i : StepInput) (e : EngineCore μ) (parent : ReqId) :
    ((e.createBranch cfg i parent).2 = false → SameSearch e (e.createBranch cfg i parent).1) ↔
      ¬ e.BuildRaises cfg i parent := by
  constructor
  · intro h hraise
    obtain ⟨p, t, hp, ht, heq⟩ := createBranch_of_buildRaises hraise
    rw [heq] at h
    have htree := congrArg (fun e : EngineCore μ => e.traceTree.getNode parent) (h rfl)
    have hnode : (t.removeTrace (e.traceTree.generateBranchId parent)).getNode parent = _ :=
      getNode_removeTrace_parent hp ht
    have hchildren := hnode.symm.trans (htree.trans hp)
    -- the list of children has grown
    have hlen := congrArg (fun n : Option TraceNode => (n.map fun n => n.children.length)) hchildren
    simp at hlen
  · intro hraise hfalse
    unfold createBranch at hfalse ⊢
    split at hfalse
    · rw [if_pos ‹_›]
      rfl
    next hstop =>
    rw [Bool.not_eq_true] at hstop
    rw [if_neg (by rw [hstop]; exact Bool.false_ne_true)]
    split at hfalse
    · rw [if_pos ‹_›]
      rfl
    next hcan =>
    rw [Bool.not_eq_false] at hcan
    rw [if_neg (by rw [hcan]; exact Bool.noConfusion)]
    cases hr : e.scheduler.requests.get? parent with
    | none => rfl
    | some r =>
      rw [hr] at hfalse
      dsimp only at hfalse ⊢
      cases ht : e.traceTree.addBranch parent (e.traceTree.generateBranchId parent)
          (e.gambitOutputTokenIds.getD parent []).length with
      | none => rfl
      | some t =>
        rw [ht] at hfalse
        have hbuild : i.buildFails (e.traceTree.generateBranchId parent) = false := by
          cases hb : i.buildFails (e.traceTree.generateBranchId parent) with
          | false => rfl
          | true => exact absurd ⟨hstop, hcan, Dict.mem_of_get? hr, hb⟩ hraise
        dsimp only at hfalse
        unfold createChildRequest at hfalse
        rw [if_neg (by rw [hbuild]; exact Bool.false_ne_true)] at hfalse
        cases hfalse

/-- A root past the warm-up whose child cannot be built: the root keeps the child that does not exist. -/
theorem failed_branch_leaves_child :
    let cfg : VllmConfig := { gambit := { enable := true, enableBranching := true }, scheduler := {} }
    let i : StepInput := { StepInput.ofSamples (fun _ => []) (fun _ => 0) with buildFails := fun _ => true }
    let e : EngineCore Unit := (EngineCore.init cfg ()).addRequest cfg { requestId := ['0', '_', 'a'], promptTokenIds := [7] }
    (e.createBranch cfg i ['0', '_', 'a']).2 = false ∧ ¬ SameSearch e (e.createBranch cfg i ['0', '_', 'a']).1 := by
  intro cfg i e
  refine ⟨by decide, fun h => ?_⟩
  have hchildren := congrArg (fun e : EngineCore Unit =>
    (e.traceTree.getNode ['0', '_', 'a']).map fun n => n.children.length) h
  exact absurd hchildren (by decide)

/-- The trace is active in the tree. -/
def Active (e : EngineCore μ) (rid : ReqId) : Prop := (e.traceTree.getNode rid).any (·.isActive) = true

instance (e : EngineCore μ) (rid : ReqId) : Decidable (e.Active rid) := inferInstanceAs (Decidable (_ = true))

/-- The trace is active and its request is still with the scheduler. -/
def CanParent (e : EngineCore μ) (rid : ReqId) : Prop := e.Active rid ∧ rid ∈ e.scheduler.requests

instance (e : EngineCore μ) (rid : ReqId) : Decidable (e.CanParent rid) := inferInstanceAs (Decidable (_ ∧ _))

/-- The gates of the tree are those it was built with, and no branch lies in the future. -/
structure Gated (cfg : VllmConfig) (t : TraceTree) : Prop where
  branchCooldownSteps : t.branchCooldownSteps = (freshTree cfg).branchCooldownSteps
  minTokensBeforeBranch : t.minTokensBeforeBranch = (freshTree cfg).minTokensBeforeBranch
  lastBranchStep : ∀ rid n, t.getNode rid = some n → n.lastBranchStep ≤ t.currentStep

/-- Nodes that branched when nodes before did, or never. -/
lemma Gated.of_back {t t' : TraceTree} (h : Gated cfg t)
    (hc : t'.branchCooldownSteps = t.branchCooldownSteps ∧ t'.minTokensBeforeBranch = t.minTokensBeforeBranch ∧
      t.currentStep ≤ t'.currentStep)
    (hb : ∀ x n', t'.getNode x = some n' → n'.lastBranchStep ≤ t.currentStep ∨
      ∃ n, t.getNode x = some n ∧ n'.lastBranchStep = n.lastBranchStep) : Gated cfg t' := by
  refine ⟨hc.1.trans h.branchCooldownSteps, hc.2.1.trans h.minTokensBeforeBranch, fun x n' hn' => ?_⟩
  have hle : (t.currentStep : Int) ≤ t'.currentStep := by exact_mod_cast hc.2.2
  rcases hb x n' hn' with hlt | ⟨n, hn, he⟩
  · exact hlt.trans hle
  · rw [he]
    exact (h.lastBranchStep x n hn).trans hle

/-- The gates of every tree of a run. -/
lemma treeRules_gated (cfg : VllmConfig) : TreeRules cfg (Gated cfg) := by
  -- an update of one node that leaves its last branch alone
  have one : ∀ {t t' : TraceTree} {rid : ReqId} {f : TraceNode → TraceNode}, Gated cfg t →
      (∀ x, t'.getNode x = if x = rid then (t.getNode x).map f else t.getNode x) →
      (∀ n, (f n).lastBranchStep = n.lastBranchStep) →
      (t'.branchCooldownSteps = t.branchCooldownSteps ∧ t'.minTokensBeforeBranch = t.minTokensBeforeBranch ∧
        t.currentStep ≤ t'.currentStep) → Gated cfg t' := by
    intro t t' rid f h hget hf hc
    refine h.of_back hc fun x n' hn' => .inr ?_
    rw [hget] at hn'
    split at hn'
    · obtain ⟨n, hn, rfl⟩ := Option.map_eq_some_iff.1 hn'
      exact ⟨n, hn, hf n⟩
    · exact ⟨n', hn', rfl⟩
  have root : ∀ {t : TraceTree} (rid : ReqId), Gated cfg t → Gated cfg (t.ensureRoot rid) := by
    intro t rid h
    have hc : (t.ensureRoot rid).branchCooldownSteps = t.branchCooldownSteps ∧
        (t.ensureRoot rid).minTokensBeforeBranch = t.minTokensBeforeBranch ∧
        t.currentStep ≤ (t.ensureRoot rid).currentStep := by
      unfold TraceTree.ensureRoot
      split
      · exact ⟨rfl, rfl, le_rfl⟩
      · exact ⟨rfl, rfl, le_rfl⟩
    refine h.of_back hc fun x n' hn' => ?_
    rw [TraceTree.getNode_ensureRoot] at hn'
    split at hn'
    · cases hn'
      left
      exact le_trans (by decide : (-1 : Int) ≤ 0) (Int.natCast_nonneg t.currentStep)
    · exact .inr ⟨n', hn', rfl⟩
  refine ⟨?_, fun t rid h => root rid h, ?_, ?_, ?_, ?_, ?_⟩
  · intro t h
    exact h.of_back ⟨rfl, rfl, Nat.le_succ _⟩ fun x n' hn' => .inr ⟨n', hn', rfl⟩
  · intro t rid q h
    exact one h (fun x => TraceTree.getNode_recordScore t rid x q) (fun n => rfl) ⟨rfl, rfl, le_rfl⟩
  · intro t rid h
    exact one h (fun x => TraceTree.getNode_markPruned t rid x) (fun n => rfl) ⟨rfl, rfl, le_rfl⟩
  · intro t t' parent child len _ hnew hadd h
    obtain ⟨-, -, hstep, -⟩ := TraceTree.addBranch_frame hadd
    obtain ⟨p, hp, hget⟩ := TraceTree.getNode_addBranch hadd hnew
    have hc : t'.branchCooldownSteps = t.branchCooldownSteps ∧ t'.minTokensBeforeBranch = t.minTokensBeforeBranch := by
      obtain ⟨_, _, rfl⟩ := Option.map_eq_some_iff.1 hadd
      exact ⟨rfl, rfl⟩
    refine h.of_back ⟨hc.1, hc.2, hstep.ge⟩ fun x n' hn' => ?_
    rw [hget] at hn'
    split at hn'
    · cases hn'
      left
      exact le_trans (by decide : (-1 : Int) ≤ 0) (Int.natCast_nonneg t.currentStep)
    · split at hn'
      · cases hn'
        exact .inl le_rfl
      · exact .inr ⟨n', hn', rfl⟩
  · intro t t' parent child len _ hnew hadd h
    obtain ⟨-, -, hstep, -⟩ := TraceTree.addBranch_frame hadd
    obtain ⟨p, hp, hget⟩ := TraceTree.getNode_removeTrace_addBranch hadd hnew
    have hc : (t'.removeTrace child).branchCooldownSteps = t.branchCooldownSteps ∧
        (t'.removeTrace child).minTokensBeforeBranch = t.minTokensBeforeBranch ∧
        (t'.removeTrace child).currentStep = t.currentStep := by
      obtain ⟨_, _, rfl⟩ := Option.map_eq_some_iff.1 hadd
      unfold TraceTree.removeTrace
      split
      · exact ⟨rfl, rfl, rfl⟩
      · exact ⟨rfl, rfl, rfl⟩
    refine h.of_back ⟨hc.1, hc.2.1, hc.2.2.ge⟩ fun x n' hn' => ?_
    rw [hget] at hn'
    split at hn'
    · cases hn'
      exact .inl le_rfl
    · exact .inr ⟨n', hn', rfl⟩
  · intro t rid score tokens h
    have h' := root rid h
    unfold onRequestFinished
    dsimp only
    split
    · exact one h' (fun x => TraceTree.getNode_setOutput _ rid x _) (fun n => rfl) ⟨rfl, rfl, le_rfl⟩
    · exact one h' (fun x => TraceTree.getNode_markCompleted _ rid x _) (fun n => rfl) ⟨rfl, rfl, le_rfl⟩

/-- What creating branches leaves of the traces that were there. -/
structure Spared (e e' : EngineCore μ) : Prop where
  mem : ∀ x ∈ e.traceTree, x ∈ e'.traceTree
  active : ∀ x ∈ e.traceTree, (e'.Active x ↔ e.Active x)
  live : ∀ x ∈ e.traceTree, (x ∈ e'.scheduler.requests ↔ x ∈ e.scheduler.requests)
  tokenCount : ∀ x ∈ e.traceTree, e'.tokenCount x = e.tokenCount x
  completed : e'.traceTree.getCompletedCount = e.traceTree.getCompletedCount

lemma Spared.refl (e : EngineCore μ) : Spared e e :=
  ⟨fun _ hx => hx, fun _ _ => Iff.rfl, fun _ _ => Iff.rfl, fun _ _ => rfl, rfl⟩

lemma Spared.trans {e'' : EngineCore μ} (h : Spared e e') (h' : Spared e' e'') : Spared e e'' where
  mem x hx := h'.mem x (h.mem x hx)
  active x hx := (h'.active x (h.mem x hx)).trans (h.active x hx)
  live x hx := (h'.live x (h.mem x hx)).trans (h.live x hx)
  tokenCount x hx := (h'.tokenCount x (h.mem x hx)).trans (h.tokenCount x hx)
  completed := h'.completed.trans h.completed

lemma Spared.canParent (h : Spared e e') {x : ReqId} (hx : x ∈ e.traceTree) : e'.CanParent x ↔ e.CanParent x :=
  and_congr (h.active x hx) (h.live x hx)

/-- A new branch is one more active trace. -/
lemma getActiveCount_addBranch {t t' : TraceTree} {child : ReqId} {len : Nat}
    (h : t.addBranch parent child len = some t') (hc : child ∉ t) : t'.getActiveCount = t.getActiveCount + 1 := by
  obtain ⟨p, -, rfl⟩ := Option.map_eq_some_iff.1 h
  have hmod := Dict.count_modify_of_eq TraceNode.isActive
    (t.nodes.set child (t.branchNode p parent child len)) parent (f := t.branchedParent child) fun _ => rfl
  exact hmod.trans (Dict.count_set_of_not_mem TraceNode.isActive hc)

/-- A branch that was taken back is no more active trace. -/
lemma getActiveCount_removeTrace_addBranch {t t' : TraceTree} {child : ReqId} {len : Nat}
    (h : t.addBranch parent child len = some t') (hc : child ∉ t) :
    (t'.removeTrace child).getActiveCount = t.getActiveCount := by
  have hadd := getActiveCount_addBranch h hc
  obtain ⟨p, -, hget⟩ := TraceTree.getNode_addBranch h hc
  have hchild : t'.getNode child = some (t.branchNode p parent child len) := (hget child).trans (if_pos rfl)
  have hact : (t.branchNode p parent child len).isActive = true := rfl
  have herase := Dict.count_erase TraceNode.isActive hchild
  rw [if_pos hact] at herase
  rw [TraceTree.removeTrace, if_pos (TraceTree.mem_of_getNode hchild)]
  unfold TraceTree.getActiveCount at hadd ⊢
  dsimp only
  omega

/-- In a tournament a trace may branch when it is active and the tree is not full. -/
lemma Gated.canTraceBranch_iff {t : TraceTree} (hg : Gated cfg t) (hmode : cfg.gambit.tournamentMode = true)
    (n : Nat) :
    t.canTraceBranch rid n = true ↔ (t.getNode rid).any (·.isActive) = true ∧ (t.getActiveCount : Int) < t.maxTraces := by
  have hmin : t.minTokensBeforeBranch = 0 := by
    rw [hg.minTokensBeforeBranch, freshTree, if_pos hmode]
  have hcool : t.branchCooldownSteps = 0 := by
    rw [hg.branchCooldownSteps, freshTree, if_pos hmode]
  constructor
  · intro h
    obtain ⟨node, hn, ha, hb⟩ := getNode_of_canTraceBranch h
    rw [hn]
    exact ⟨ha, of_decide_eq_true hb⟩
  · rintro ⟨ha, hb⟩
    obtain ⟨node, hn, ha⟩ := any_isActive ha
    have hlast := hg.lastBranchStep rid node hn
    unfold TraceTree.canTraceBranch TraceTree.canBranch
    rw [hn, hmin, hcool]
    dsimp only
    rw [ha, decide_eq_true hb, if_neg (by decide), if_neg (by decide), if_neg (by omega), if_neg (by omega)]

/-- The subject of a branch decision. -/
def branchSubject : Decision → Option ReqId
  | .branch parent _ _ => some parent
  | .branchFailed parent _ => some parent
  | _ => none

/-- Whether a decision is a branch that succeeded. -/
def isBranch : Decision → Bool
  | .branch .. => true
  | _ => false

/-- What one call of `_gambit_create_branch` does below the capacity: nothing for a trace that cannot be a parent,
else one decision, and a new active trace if the build succeeds. -/
structure Branched (cfg : VllmConfig) (i : StepInput) (added : List ReqId) (rid : ReqId) (e e' : EngineCore μ)
    (ds : List Decision) : Prop where
  base : Base cfg added e'
  gated : Gated cfg e'.traceTree
  spared : Spared e e'
  decisions : e'.record.decisions = e.record.decisions ++ ds
  subjects : ds.map branchSubject = if e.CanParent rid then [some rid] else []
  count : e'.activeCount = e.activeCount + ds.countP isBranch
  built : (∀ child, i.buildFails child = false) → ∀ d ∈ ds, isBranch d = true

/-- A branch that is taken back leaves the other traces alone. -/
lemma spared_removed {t : TraceTree} {rid child : ReqId} {k : Nat} (ht : e.traceTree.addBranch rid child k = some t)
    (hnew : child ∉ e.traceTree) (d : Decision) :
    Spared e { e.logDecision d with traceTree := t.removeTrace child } := by
  obtain ⟨p', hp', hget⟩ := TraceTree.getNode_removeTrace_addBranch ht hnew
  refine ⟨fun x hx => (mem_removeTrace_addBranch ht hnew).2 hx, fun x hx => ?_, fun _ _ => Iff.rfl, fun _ _ => rfl,
    getCompletedCount_removeTrace_addBranch ht hnew⟩
  unfold Active
  dsimp only
  rw [hget]
  split
  · next hxr =>
    rw [hxr, hp']
    rfl
  · rfl

/-- A branch leaves the other traces alone. -/
lemma spared_adopted {t : TraceTree} {rid : ReqId} {k : Nat} {c : Request}
    (ht : e.traceTree.addBranch rid c.requestId k = some t) (hnew : c.requestId ∉ e.traceTree)
    (prompt : List Token) : Spared e (e.adoptChild cfg t rid c prompt) := by
  obtain ⟨ts, ss, cs, hadopt, -⟩ := adoptChild_eq cfg e t rid c prompt
  obtain ⟨p', hp', hget⟩ := TraceTree.getNode_addBranch ht hnew
  have hne : ∀ x ∈ e.traceTree, x ≠ c.requestId := fun x hx he => hnew (he ▸ hx)
  rw [hadopt]
  refine ⟨fun x hx => (mem_addBranch ht hnew).2 (.inr hx), fun x hx => ?_, fun x hx => ?_, fun x hx => ?_,
    getCompletedCount_addBranch ht hnew⟩
  · unfold Active
    dsimp only
    rw [hget, if_neg (hne x hx)]
    split
    · next hxr =>
      rw [hxr, hp']
      rfl
    · rfl
  · exact Scheduler.mem_addRequest.trans ⟨fun h => h.resolve_left (hne x hx), .inr⟩
  · unfold EngineCore.tokenCount
    dsimp only
    rw [Dict.getD_eq, Dict.get?_set, if_neg (hne x hx)]
    rfl

/-- A trace that cannot be a parent is passed over. -/
lemma createBranch_of_not (hg : Gated cfg e.traceTree) (hmode : cfg.gambit.tournamentMode = true)
    (hstop : e.shouldStopAfterCompleted cfg = false) {rid : ReqId} (hcan : ¬ e.CanParent rid) :
    (e.createBranch cfg i rid).1 = e := by
  unfold createBranch
  rw [hstop]
  dsimp only
  cases hbranch : e.traceTree.canTraceBranch rid (e.tokenCount rid) with
  | false => rfl
  | true =>
    cases hr : e.scheduler.requests.get? rid with
    | none => rfl
    | some r =>
      refine absurd ⟨((hg.canTraceBranch_iff hmode _).1 hbranch).1, Dict.mem_of_get? hr⟩ hcan

lemma Base.createBranch_branched (hb : Base cfg added e) (hg : Gated cfg e.traceTree)
    (hmode : cfg.gambit.tournamentMode = true) (hstop : e.shouldStopAfterCompleted cfg = false)
    (hcap : (e.activeCount : Int) < cfg.gambit.tournamentCapacity) (rid : ReqId) :
    ∃ ds, Branched cfg i added rid e (e.createBranch cfg i rid).1 ds := by
  have hmax : e.traceTree.maxTraces = cfg.gambit.tournamentCapacity := by
    rw [hb.maxTraces, VllmConfig.capacity, if_pos hmode]
  have hmove : Move cfg i ∅ e (e.createBranch cfg i rid).1 := .branch e rid
  have hbase : Base cfg added (e.createBranch cfg i rid).1 := (hb.move (fun x q hq => by cases hq) hmove).1
  have hgated : Gated cfg (e.createBranch cfg i rid).1.traceTree := (treeRules_gated cfg).move hb hg hmove
  have hnew := hb.not_mem_tree rid
  by_cases hcan : e.CanParent rid
  · have hbranch : e.traceTree.canTraceBranch rid (e.tokenCount rid) = true :=
      (hg.canTraceBranch_iff hmode _).2 ⟨hcan.1, by rw [hmax]; exact hcap⟩
    obtain ⟨r, hr⟩ := Dict.mem_iff_get?.1 hcan.2
    obtain ⟨p, hp, hact, -⟩ := getNode_of_canTraceBranch hbranch
    obtain ⟨t, ht⟩ : ∃ t, e.traceTree.addBranch rid (e.traceTree.generateBranchId rid)
        (e.gambitOutputTokenIds.getD rid []).length = some t := by
      unfold TraceTree.addBranch
      rw [hp]
      exact ⟨_, rfl⟩
    cases hbuild : createChildRequest cfg i r t.branchCounter (e.traceTree.generateBranchId rid) with
    | none =>
      have heq : (e.createBranch cfg i rid).1 =
          { e.logDecision (.branchFailed rid (e.traceTree.generateBranchId rid)) with
            traceTree := t.removeTrace (e.traceTree.generateBranchId rid) } := by
        unfold createBranch
        rw [hstop, hbranch, hr]
        dsimp only
        rw [ht]
        dsimp only
        rw [hbuild]
        rfl
      refine ⟨[.branchFailed rid (e.traceTree.generateBranchId rid)], hbase, hgated, ?_, ?_, ?_, ?_, ?_⟩
      · rw [heq]
        exact spared_removed ht hnew _
      · rw [heq]
        rfl
      · rw [if_pos hcan]
        rfl
      · rw [heq]
        exact getActiveCount_removeTrace_addBranch ht hnew
      · intro hok d hd
        exfalso
        unfold createChildRequest at hbuild
        rw [hok] at hbuild
        cases hbuild
    | some c =>
      have heq : (e.createBranch cfg i rid).1 = e.adoptChild cfg t rid c r.allTokenIds := by
        unfold createBranch
        rw [hstop, hbranch, hr]
        dsimp only
        rw [ht]
        dsimp only
        rw [hbuild]
        rfl
      obtain ⟨hid, -⟩ := createChildRequest_eq hbuild
      obtain ⟨ts, ss, cs, hadopt, -⟩ := adoptChild_eq cfg e t rid c r.allTokenIds
      refine ⟨[.branch rid c.requestId r.allTokenIds], hbase, hgated, ?_, ?_, ?_, ?_, ?_⟩
      · rw [heq]
        exact spared_adopted (by rwa [hid]) (by rwa [hid]) _
      · rw [heq, hadopt]
      · rw [if_pos hcan]
        rfl
      · rw [heq, hadopt]
        exact getActiveCount_addBranch ht hnew
      · intro _ d hd
        rw [List.mem_singleton.1 hd]
        rfl
  · rw [createBranch_of_not hg hmode hstop hcan]
    refine ⟨[], hb, hg, .refl e, (List.append_nil _).symm, ?_, rfl, fun _ d hd => by cases hd⟩
    rw [if_neg hcan]
    rfl

/-- What branching a list of traces within the capacity does: the traces are tried in order until the capacity is
reached, and each that can be a parent gets one decision. -/
structure BranchedWithin (cfg : VllmConfig) (i : StepInput) (l : List (ℚ × ReqId)) (e e' : EngineCore μ)
    (tried : List (ℚ × ReqId)) (ds : List Decision) : Prop where
  spared : Spared e e'
  front : tried <+: l
  full : tried = l ∨ cfg.gambit.tournamentCapacity ≤ (e'.activeCount : Int)
  decisions : e'.record.decisions = e.record.decisions ++ ds
  subjects : ds.map branchSubject = ((tried.map Prod.snd).filter fun x => e.CanParent x).map some
  count : e'.activeCount = e.activeCount + ds.countP isBranch
  room : ds.countP isBranch ≤ (cfg.gambit.tournamentCapacity - (e.activeCount : Int)).toNat
  built : (∀ child, i.buildFails child = false) → ∀ d ∈ ds, isBranch d = true

lemma Base.branchWithin_branched (hmode : cfg.gambit.tournamentMode = true) (l : List (ℚ × ReqId))
    (hb : Base cfg added e) (hg : Gated cfg e.traceTree) (hstop : e.shouldStopAfterCompleted cfg = false)
    (hmem : ∀ s ∈ l, s.2 ∈ e.traceTree) :
    ∃ tried ds, BranchedWithin cfg i l e (e.branchWithin cfg i cfg.gambit.tournamentCapacity l) tried ds := by
  induction l generalizing e with
  | nil =>
    exact ⟨[], [], .refl e, List.nil_prefix, .inl rfl, (List.append_nil _).symm, rfl, rfl, Nat.zero_le _,
      fun _ d hd => by cases hd⟩
  | cons s l ih =>
    rw [branchWithin]
    split
    · next hfull =>
      exact ⟨[], [], .refl e, List.nil_prefix, .inr hfull, (List.append_nil _).symm, rfl, rfl, Nat.zero_le _,
        fun _ d hd => by cases hd⟩
    · next hroom =>
      have hroom : (e.activeCount : Int) < cfg.gambit.tournamentCapacity := not_le.1 hroom
      obtain ⟨ds, hone⟩ := hb.createBranch_branched (i := i) hg hmode hstop hroom s.2
      have hsx := hmem s List.mem_cons_self
      have hstop' : (e.createBranch cfg i s.2).1.shouldStopAfterCompleted cfg = false := by
        rw [shouldStopAfterCompleted_congr hone.spared.completed]
        exact hstop
      obtain ⟨tried, ds', hrest⟩ := ih hone.base hone.gated hstop'
        fun x hx => hone.spared.mem _ (hmem x (List.mem_cons_of_mem s hx))
      have hlen : ds.countP isBranch ≤ 1 := by
        have hl := congrArg List.length hone.subjects
        rw [List.length_map] at hl
        refine List.countP_le_length.trans (hl.trans_le ?_)
        split
        · exact le_rfl
        · exact Nat.zero_le 1
      have hcount := hone.count
      refine ⟨s :: tried, ds ++ ds', hone.spared.trans hrest.spared, ?_, ?_, ?_, ?_, ?_, ?_, ?_⟩
      · exact List.prefix_cons_inj s |>.2 hrest.front
      · exact hrest.full.imp (fun h => by rw [h]) id
      · rw [hrest.decisions, hone.decisions, List.append_assoc]
      · have hsame : (tried.map Prod.snd).filter (fun x => (e.createBranch cfg i s.2).1.CanParent x) =
            (tried.map Prod.snd).filter fun x => e.CanParent x := by
          refine List.filter_congr fun x hx => ?_
          obtain ⟨y, hy, rfl⟩ := List.mem_map.1 hx
          rw [decide_eq_decide]
          exact hone.spared.canParent (hmem y (List.mem_cons_of_mem s (hrest.front.subset hy)))
        rw [List.map_append, hrest.subjects, hone.subjects, hsame, List.map_cons, List.filter_cons]
        split
        · next hcan =>
          rw [if_pos (decide_eq_true hcan)]
          rfl
        · next hcan =>
          rw [if_neg (by rw [decide_eq_false hcan]; exact Bool.false_ne_true)]
          rfl
      · rw [hrest.count, hcount, List.countP_append, Nat.add_assoc]
      · have hroom' := hrest.room
        rw [List.countP_append]
        omega
      · intro hok d hd
        rcases List.mem_append.1 hd with hd | hd
        · exact hone.built hok d hd
        · exact hrest.built hok d hd

end EngineCore
end Gambit.Engine
