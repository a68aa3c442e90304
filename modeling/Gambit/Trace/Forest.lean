import Gambit.Trace.Nodes

/-!
# The tree is a forest

`Forest t` says that the nodes of a trace tree form a forest: the roots are the nodes without a
parent, they have depth 0, and every other node has a parent one level up that was created no later.
Every operation keeps it, as long as a branch gets an id that has no node. In a forest the chain of
parents of a node reaches a root after as many steps as the node is deep (`Forest.ancestor`).
-/

namespace Gambit.Trace
open Gambit.Lib

/-- The ancestor reached by following `parent_id` a number of times. -/
def TraceTree.ancestor (t : TraceTree) : Nat → ReqId → Option ReqId
  | 0, rid => some rid
  | k + 1, rid => ((t.getNode rid).bind TraceNode.parentId).bind (t.ancestor k)

/-- The nodes of a tree form a forest. -/
structure Forest (t : TraceTree) : Prop where
  roots : ∀ rid, rid ∈ t.rootIds ↔ ∃ n, t.getNode rid = some n ∧ n.parentId = none
  depth : ∀ rid n, t.getNode rid = some n → n.parentId = none → n.branchDepth = 0
  parent : ∀ rid n p, t.getNode rid = some n → n.parentId = some p →
    ∃ m, t.getNode p = some m ∧ n.branchDepth = m.branchDepth + 1 ∧ m.createdAtStep ≤ n.createdAtStep
  created : ∀ rid n, t.getNode rid = some n → n.createdAtStep ≤ t.currentStep

variable {t t' : TraceTree} {rid x : ReqId}

/-- The empty tree. -/
lemma Forest.of_empty (hn : ∀ x, x ∉ t) (hr : t.rootIds = []) : Forest t := by
  have hnone : ∀ x, t.getNode x = none := fun x => TraceTree.getNode_eq_none.2 (hn x)
  constructor <;> simp [hnone, hr]

/-- The chain of parents of a node ends in a root after as many steps as the node is deep. -/
lemma Forest.ancestor {n : TraceNode} (h : Forest t) (hn : t.getNode rid = some n) :
    ∃ root ∈ t.rootIds, t.ancestor n.branchDepth rid = some root := by
  induction hd : n.branchDepth generalizing rid n with
  | zero =>
    cases hp : n.parentId with
    | none => exact ⟨rid, (h.roots rid).2 ⟨n, hn, hp⟩, rfl⟩
    | some p =>
      obtain ⟨m, -, hdm, -⟩ := h.parent rid n p hn hp
      omega
  | succ d ih =>
    cases hp : n.parentId with
    | none =>
      have := h.depth rid n hn hp
      omega
    | some p =>
      obtain ⟨m, hm, hdm, -⟩ := h.parent rid n p hn hp
      obtain ⟨root, hroot, ha⟩ := ih hm (by omega)
      refine ⟨root, hroot, ?_⟩
      simpa [TraceTree.ancestor, hn, hp] using ha

/-- Two nodes with the same place in the tree. -/
structure TraceNode.SamePlace (n n' : TraceNode) : Prop where
  parentId : n'.parentId = n.parentId
  branchDepth : n'.branchDepth = n.branchDepth
  createdAtStep : n'.createdAtStep = n.createdAtStep

lemma TraceNode.SamePlace.refl (n : TraceNode) : n.SamePlace n := ⟨rfl, rfl, rfl⟩

/-- Changing nodes in place keeps the forest. -/
lemma Forest.of_map (h : Forest t)
    (hget : ∀ x, ∃ f : TraceNode → TraceNode, (∀ n : TraceNode, n.SamePlace (f n)) ∧
      t'.getNode x = (t.getNode x).map f)
    (hr : t'.rootIds = t.rootIds) (hs : t.currentStep ≤ t'.currentStep) : Forest t' := by
  have back : ∀ x n', t'.getNode x = some n' → ∃ n, t.getNode x = some n ∧ n.SamePlace n' := by
    intro x n' hn'
    obtain ⟨f, hf, he⟩ := hget x
    rw [hn'] at he
    obtain ⟨n, hn, rfl⟩ := Option.map_eq_some_iff.1 he.symm
    exact ⟨n, hn, hf n⟩
  have forth : ∀ x n, t.getNode x = some n → ∃ n', t'.getNode x = some n' ∧ n.SamePlace n' := by
    intro x n hn
    obtain ⟨f, hf, he⟩ := hget x
    rw [hn] at he
    exact ⟨f n, he, hf n⟩
  refine ⟨fun x => ?_, fun x n' hn' hp => ?_, fun x n' p hn' hp => ?_, fun x n' hn' => ?_⟩
  · rw [hr, h.roots]
    constructor
    · rintro ⟨n, hn, hp⟩
      obtain ⟨n', hn', hsame⟩ := forth x n hn
      exact ⟨n', hn', hsame.parentId.trans hp⟩
    · rintro ⟨n', hn', hp⟩
      obtain ⟨n, hn, hsame⟩ := back x n' hn'
      exact ⟨n, hn, hsame.parentId ▸ hp⟩
  · obtain ⟨n, hn, hsame⟩ := back x n' hn'
    rw [hsame.branchDepth]
    exact h.depth x n hn (hsame.parentId ▸ hp)
  · obtain ⟨n, hn, hsame⟩ := back x n' hn'
    obtain ⟨m, hm, hdm, hcm⟩ := h.parent x n p hn (hsame.parentId ▸ hp)
    obtain ⟨m', hm', hsame'⟩ := forth p m hm
    refine ⟨m', hm', ?_, ?_⟩
    · rw [hsame.branchDepth, hsame'.branchDepth, hdm]
    · rw [hsame.createdAtStep, hsame'.createdAtStep]; exact hcm
  · obtain ⟨n, hn, hsame⟩ := back x n' hn'
    rw [hsame.createdAtStep]
    exact (h.created x n hn).trans hs

/-- The same place at one id and at the others. -/
lemma of_ite_samePlace {f : TraceNode → TraceNode}
    (hget : ∀ x, t'.getNode x = if x = rid then (t.getNode x).map f else t.getNode x)
    (hf : ∀ n : TraceNode, n.SamePlace (f n)) (x : ReqId) :
    ∃ g : TraceNode → TraceNode, (∀ n : TraceNode, n.SamePlace (g n)) ∧
      t'.getNode x = (t.getNode x).map g := by
  by_cases hx : x = rid
  · exact ⟨f, hf, by rw [hget, if_pos hx]⟩
  · exact ⟨id, .refl, by rw [hget, if_neg hx, Option.map_id_fun, id]⟩

lemma Forest.markPruned (h : Forest t) (rid : ReqId) : Forest (t.markPruned rid) :=
  h.of_map (of_ite_samePlace (TraceTree.getNode_markPruned t rid) fun _ => ⟨rfl, rfl, rfl⟩) rfl
    le_rfl

lemma Forest.markCompleted (h : Forest t) (rid : ReqId) (o : NodeOutput) :
    Forest (t.markCompleted rid o) :=
  h.of_map (of_ite_samePlace (TraceTree.getNode_markCompleted t rid · o) fun _ => ⟨rfl, rfl, rfl⟩)
    rfl le_rfl

lemma Forest.setOutput (h : Forest t) (rid : ReqId) (o : NodeOutput) : Forest (t.setOutput rid o) :=
  h.of_map (of_ite_samePlace (TraceTree.getNode_setOutput t rid · o) fun _ => ⟨rfl, rfl, rfl⟩) rfl
    le_rfl

lemma Forest.recordScore (h : Forest t) (rid : ReqId) (q : ℚ) : Forest (t.recordScore rid q) :=
  h.of_map (of_ite_samePlace (TraceTree.getNode_recordScore t rid · q) fun _ => ⟨rfl, rfl, rfl⟩) rfl
    le_rfl

lemma Forest.incrementStep (h : Forest t) : Forest t.incrementStep :=
  h.of_map (fun _ => ⟨id, .refl, by simp⟩) rfl (Nat.le_succ _)

/-- A new root. -/
lemma Forest.addRoot (h : Forest t) (hn : rid ∉ t) : Forest (t.addRoot rid) := by
  have hroots : ∀ y, y ∈ (t.addRoot rid).rootIds ↔ y = rid ∨ y ∈ t.rootIds :=
    fun y => List.mem_insert_iff
  refine ⟨fun x => ?_, fun x n hx hp => ?_, fun x n p hx hp => ?_, fun x n hx => ?_⟩
  · rw [hroots, h.roots, TraceTree.getNode_addRoot]
    by_cases he : x = rid
    · simp [he]
    · simp [he]
  · rw [TraceTree.getNode_addRoot] at hx
    split at hx
    · cases hx; rfl
    · exact h.depth x n hx hp
  · rw [TraceTree.getNode_addRoot] at hx
    split at hx
    · cases hx; cases hp
    · obtain ⟨m, hm, hdm, hcm⟩ := h.parent x n p hx hp
      have hne : p ≠ rid := fun he => hn (he ▸ TraceTree.mem_of_getNode hm)
      exact ⟨m, by rw [TraceTree.getNode_addRoot, if_neg hne]; exact hm, hdm, hcm⟩
  · rw [TraceTree.getNode_addRoot] at hx
    split at hx
    · cases hx; exact le_rfl
    · exact h.created x n hx

lemma Forest.ensureRoot (h : Forest t) (rid : ReqId) : Forest (t.ensureRoot rid) := by
  unfold TraceTree.ensureRoot
  split
  · exact h
  · next hn => exact h.addRoot hn

/-- A branch under an id without a node. -/
lemma Forest.addBranch {parent child : ReqId} {len : Nat} (h : Forest t)
    (hb : t.addBranch parent child len = some t') (hc : child ∉ t) : Forest t' := by
  obtain ⟨p, hp, hget⟩ := TraceTree.getNode_addBranch hb hc
  obtain ⟨-, -, hstep, hroots⟩ := TraceTree.addBranch_frame hb
  have hpc : parent ≠ child := fun he => hc (he ▸ TraceTree.mem_of_getNode hp)
  -- the nodes of the old tree keep their place
  have old : ∀ x n, t.getNode x = some n → ∃ n', t'.getNode x = some n' ∧ n.SamePlace n' := by
    intro x n hx
    have hne : x ≠ child := fun he => hc (he ▸ TraceTree.mem_of_getNode hx)
    rw [hget, if_neg hne]
    split
    · next he =>
      subst he
      rw [hp] at hx
      cases hx
      exact ⟨_, rfl, rfl, rfl, rfl⟩
    · exact ⟨n, hx, .refl n⟩
  have new : ∀ x n', t'.getNode x = some n' → (x = child ∧ n' = t.branchNode p parent child len) ∨
      x ≠ child ∧ ∃ n, t.getNode x = some n ∧ n.SamePlace n' := by
    intro x n' hx
    rw [hget] at hx
    split at hx
    · next he => cases hx; exact .inl ⟨he, rfl⟩
    · next hne =>
      split at hx
      · next he => cases hx; exact .inr ⟨hne, p, he ▸ hp, rfl, rfl, rfl⟩
      · exact .inr ⟨hne, n', hx, .refl n'⟩
  refine ⟨fun x => ?_, fun x n' hx hpar => ?_, fun x n' q hx hpar => ?_, fun x n' hx => ?_⟩
  · rw [hroots, h.roots]
    constructor
    · rintro ⟨n, hn, hpar⟩
      obtain ⟨n', hn', hs⟩ := old x n hn
      exact ⟨n', hn', hs.parentId.trans hpar⟩
    · rintro ⟨n', hn', hpar⟩
      rcases new x n' hn' with ⟨-, rfl⟩ | ⟨-, n, hn, hs⟩
      · cases hpar
      · exact ⟨n, hn, hs.parentId ▸ hpar⟩
  · rcases new x n' hx with ⟨-, rfl⟩ | ⟨-, n, hn, hs⟩
    · cases hpar
    · rw [hs.branchDepth]; exact h.depth x n hn (hs.parentId ▸ hpar)
  · rcases new x n' hx with ⟨-, rfl⟩ | ⟨-, n, hn, hs⟩
    · cases hpar
      obtain ⟨p', hp', hs⟩ := old parent p hp
      refine ⟨p', hp', ?_, ?_⟩
      · rw [hs.branchDepth]; rfl
      · rw [hs.createdAtStep]; exact h.created parent p hp
    · obtain ⟨m, hm, hdm, hcm⟩ := h.parent x n q hn (hs.parentId ▸ hpar)
      obtain ⟨m', hm', hs'⟩ := old q m hm
      refine ⟨m', hm', ?_, ?_⟩
      · rw [hs.branchDepth, hs'.branchDepth, hdm]
      · rw [hs.createdAtStep, hs'.createdAtStep]; exact hcm
  · rw [hstep]
    rcases new x n' hx with ⟨-, rfl⟩ | ⟨-, n, hn, hs⟩
    · exact le_rfl
    · rw [hs.createdAtStep]; exact h.created x n hn

/-- A branch that was taken back. -/
lemma Forest.removeTrace_addBranch {parent child : ReqId} {len : Nat} (h : Forest t)
    (hb : t.addBranch parent child len = some t') (hc : child ∉ t) :
    Forest (t'.removeTrace child) := by
  obtain ⟨p, hp, hget⟩ := TraceTree.getNode_removeTrace_addBranch hb hc
  obtain ⟨-, -, hstep, hroots⟩ := TraceTree.addBranch_frame hb
  have hm : child ∈ t' := by
    obtain ⟨q, -, hget'⟩ := TraceTree.getNode_addBranch hb hc
    exact TraceTree.mem_of_getNode (by rw [hget', if_pos rfl])
  have hnr : child ∉ t.rootIds := by
    intro hr
    obtain ⟨n, hn, -⟩ := (h.roots child).1 hr
    exact hc (TraceTree.mem_of_getNode hn)
  have hplace : ∀ x, (t'.removeTrace child).getNode x =
      if x = parent then (t.getNode x).map (t.branchedParent child) else t.getNode x := by
    intro x
    rw [hget]
    split
    · next hx => rw [hx, hp]; rfl
    · rfl
  refine h.of_map (of_ite_samePlace hplace fun _ => ⟨rfl, rfl, rfl⟩) ?_ ?_
  · rw [TraceTree.removeTrace, if_pos hm]
    dsimp only
    rw [hroots, List.erase_of_not_mem hnr]
  · rw [TraceTree.removeTrace, if_pos hm]
    exact hstep.ge

end Gambit.Trace
