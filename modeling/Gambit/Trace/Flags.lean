import Gambit.Trace.Nodes

/-!
# Status flags

A node is active, completed or pruned. `OneFlags` says that every node is exactly one of the three,
and `FlagsLE` that a tree developed into another one without a status being taken back: what was
completed or pruned stays so, and what was not active does not become active again. Every operation
of the tree keeps `FlagsLE`; `OneFlags` needs that a completed node is never marked as pruned, and a
pruned one never as completed.
-/

namespace Gambit.Trace
open Gambit.Lib

/-- Exactly one of the three flags is set. -/
def TraceNode.OneFlag (n : TraceNode) : Prop :=
  n.isActive.toNat + n.isCompleted.toNat + n.isPruned.toNat = 1

/-- A node with another flag is not completed. -/
lemma TraceNode.OneFlag.not_completed {n : TraceNode} (h : n.OneFlag)
    (hf : n.isActive = true ∨ n.isPruned = true) : n.isCompleted = false := by
  unfold OneFlag at h
  cases hc : n.isCompleted with
  | false => rfl
  | true => rcases hf with hf | hf <;> simp only [hc, hf, Bool.toNat_true] at h <;> omega

/-- A completed node is not pruned, and a pruned one neither completed nor active. -/
lemma TraceNode.OneFlag.exclusive {n : TraceNode} (h : n.OneFlag) :
    (n.isCompleted = true → n.isPruned = false ∧ n.isActive = false) ∧
      (n.isPruned = true → n.isCompleted = false ∧ n.isActive = false) := by
  unfold OneFlag at h
  cases ha : n.isActive <;> cases hc : n.isCompleted <;> cases hp : n.isPruned <;> simp_all

/-- Every node has exactly one flag. -/
def OneFlags (t : TraceTree) : Prop := ∀ rid n, t.getNode rid = some n → n.OneFlag

/-- The trace is not completed. -/
def NotDone (t : TraceTree) (rid : ReqId) : Prop :=
  ∀ n, t.getNode rid = some n → n.isCompleted = false

/-- Flags are not taken back. -/
structure TraceNode.FlagsLE (n n' : TraceNode) : Prop where
  completed : n.isCompleted = true → n'.isCompleted = true
  pruned : n.isPruned = true → n'.isPruned = true
  inactive : n.isActive = false → n'.isActive = false

/-- Nodes stay and their flags are not taken back. -/
def FlagsLE (t t' : TraceTree) : Prop :=
  ∀ rid n, t.getNode rid = some n → ∃ n', t'.getNode rid = some n' ∧ n.FlagsLE n'

variable {t t' t'' : TraceTree} {rid : ReqId}

/-- Flags stay as they are. -/
lemma TraceNode.FlagsLE.refl (n : TraceNode) : n.FlagsLE n := ⟨id, id, id⟩

/-- No node changes its flags. -/
lemma FlagsLE.refl (t : TraceTree) : FlagsLE t t := fun _ n h => ⟨n, h, .refl n⟩

/-- Growing flags compose. -/
lemma FlagsLE.trans (h : FlagsLE t t') (h' : FlagsLE t' t'') : FlagsLE t t'' := by
  intro rid n hn
  obtain ⟨n', hn', h1⟩ := h rid n hn
  obtain ⟨n'', hn'', h2⟩ := h' rid n' hn'
  exact ⟨n'', hn'', fun hc => h2.completed (h1.completed hc), fun hc => h2.pruned (h1.pruned hc),
    fun hc => h2.inactive (h1.inactive hc)⟩

/-- The counts of a tree with one flag per node add up. -/
lemma OneFlags.counts (h : OneFlags t) :
    t.getStats.activeCount + t.getStats.completedCount + t.getStats.prunedCount =
      t.getStats.totalNodes :=
  Dict.count_add_count_add_count _ t.nodes h

/-- A change in place with functions that do not take flags back. -/
lemma FlagsLE.of_map (h : ∀ x, ∃ f : TraceNode → TraceNode, (∀ n : TraceNode, n.FlagsLE (f n)) ∧
    t'.getNode x = (t.getNode x).map f) : FlagsLE t t' := by
  intro x n hn
  obtain ⟨f, hf, he⟩ := h x
  rw [hn] at he
  exact ⟨f n, he, hf n⟩

/-- A change of one node. -/
lemma FlagsLE.of_ite {f : TraceNode → TraceNode}
    (h : ∀ x, t'.getNode x = if x = rid then (t.getNode x).map f else t.getNode x)
    (hf : ∀ n : TraceNode, n.FlagsLE (f n)) : FlagsLE t t' := by
  refine .of_map fun x => ⟨if x = rid then f else id, fun n => ?_, ?_⟩
  · split
    · exact hf n
    · exact .refl n
  · rw [h]
    split <;> simp

/-- Pruning only sets flags. -/
lemma flagsLE_markPruned (t : TraceTree) (rid : ReqId) : FlagsLE t (t.markPruned rid) :=
  .of_ite (TraceTree.getNode_markPruned t rid) fun _ => ⟨id, fun _ => rfl, fun _ => rfl⟩

/-- Completing only sets flags. -/
lemma flagsLE_markCompleted (t : TraceTree) (rid : ReqId) (o : NodeOutput) :
    FlagsLE t (t.markCompleted rid o) :=
  .of_ite (fun x => TraceTree.getNode_markCompleted t rid x o)
    fun _ => ⟨fun _ => rfl, id, fun _ => rfl⟩

/-- An output leaves the flags. -/
lemma flagsLE_setOutput (t : TraceTree) (rid : ReqId) (o : NodeOutput) :
    FlagsLE t (t.setOutput rid o) :=
  .of_ite (fun x => TraceTree.getNode_setOutput t rid x o) fun _ => ⟨id, id, id⟩

/-- A score leaves the flags. -/
lemma flagsLE_recordScore (t : TraceTree) (rid : ReqId) (q : ℚ) :
    FlagsLE t (t.recordScore rid q) :=
  .of_ite (fun x => TraceTree.getNode_recordScore t rid x q) fun _ => ⟨id, id, id⟩

/-- Several prunes only set flags. -/
lemma flagsLE_foldl_markPruned (l : List ReqId) (t : TraceTree) :
    FlagsLE t (l.foldl TraceTree.markPruned t) := by
  induction l generalizing t with
  | nil => exact .refl t
  | cons x l ih => exact (flagsLE_markPruned t x).trans (ih _)

/-- A new root leaves the flags of the others. -/
lemma flagsLE_addRoot (h : rid ∉ t) : FlagsLE t (t.addRoot rid) := by
  intro x n hn
  have hne : x ≠ rid := fun e => h (e ▸ TraceTree.mem_of_getNode hn)
  exact ⟨n, by rw [TraceTree.getNode_addRoot, if_neg hne]; exact hn, .refl n⟩

/-- So does a root that is ensured. -/
lemma flagsLE_ensureRoot (t : TraceTree) (rid : ReqId) : FlagsLE t (t.ensureRoot rid) := by
  unfold TraceTree.ensureRoot
  split
  · exact .refl t
  · next h => exact flagsLE_addRoot h

/-- A new branch leaves the flags of the others. -/
lemma flagsLE_addBranch {parent child : ReqId} {len : Nat}
    (h : t.addBranch parent child len = some t') (hc : child ∉ t) : FlagsLE t t' := by
  obtain ⟨p, hp, hget⟩ := TraceTree.getNode_addBranch h hc
  intro x n hn
  have hne : x ≠ child := fun e => hc (e ▸ TraceTree.mem_of_getNode hn)
  rw [hget, if_neg hne]
  split
  · next hx =>
    rw [hx, hp] at hn
    cases hn
    exact ⟨_, rfl, id, id, id⟩
  · exact ⟨n, hn, .refl n⟩

/-- A branch that is taken back leaves the flags too. -/
lemma flagsLE_removeTrace_addBranch {parent child : ReqId} {len : Nat}
    (h : t.addBranch parent child len = some t') (hc : child ∉ t) :
    FlagsLE t (t'.removeTrace child) := by
  obtain ⟨p, hp, hget⟩ := TraceTree.getNode_removeTrace_addBranch h hc
  intro x n hn
  rw [hget]
  split
  · next hx =>
    rw [hx, hp] at hn
    cases hn
    exact ⟨_, rfl, id, id, id⟩
  · exact ⟨n, hn, .refl n⟩

/-- No trace becomes completed. -/
def KeepsNotDone (t t' : TraceTree) : Prop := ∀ rid, NotDone t rid → NotDone t' rid

/-- A tree keeps who is not done. -/
lemma KeepsNotDone.refl (t : TraceTree) : KeepsNotDone t t := fun _ h => h

/-- Keeping who is not done composes. -/
lemma KeepsNotDone.trans (h : KeepsNotDone t t') (h' : KeepsNotDone t' t'') :
    KeepsNotDone t t'' := fun rid hn => h' rid (h rid hn)

/-- Every node of the new tree has the completion flag of an old one, or is not completed. -/
lemma KeepsNotDone.of_back (h : ∀ x n', t'.getNode x = some n' → n'.isCompleted = false ∨
    ∃ n, t.getNode x = some n ∧ n'.isCompleted = n.isCompleted) : KeepsNotDone t t' := by
  intro x hx n' hn'
  rcases h x n' hn' with h | ⟨n, hn, he⟩
  · exact h
  · rw [he]; exact hx n hn

/-- Pruning makes nobody active again. -/
lemma keepsNotDone_markPruned (t : TraceTree) (rid : ReqId) :
    KeepsNotDone t (t.markPruned rid) := by
  refine .of_back fun x n' hn' => .inr ?_
  rw [TraceTree.getNode_markPruned] at hn'
  split at hn'
  · obtain ⟨n, hn, rfl⟩ := Option.map_eq_some_iff.1 hn'
    exact ⟨n, hn, rfl⟩
  · exact ⟨n', hn', rfl⟩

/-- Several prunes do not either. -/
lemma keepsNotDone_foldl_markPruned (l : List ReqId) (t : TraceTree) :
    KeepsNotDone t (l.foldl TraceTree.markPruned t) := by
  induction l generalizing t with
  | nil => exact .refl t
  | cons x l ih => exact (keepsNotDone_markPruned t x).trans (ih _)

/-- A new root is not done. -/
lemma keepsNotDone_ensureRoot (t : TraceTree) (rid : ReqId) :
    KeepsNotDone t (t.ensureRoot rid) := by
  refine .of_back fun x n' hn' => ?_
  rw [TraceTree.getNode_ensureRoot] at hn'
  split at hn'
  · cases hn'; exact .inl rfl
  · exact .inr ⟨n', hn', rfl⟩

/-- A score ends no trace. -/
lemma keepsNotDone_recordScore (t : TraceTree) (rid : ReqId) (q : ℚ) :
    KeepsNotDone t (t.recordScore rid q) := by
  refine .of_back fun x n' hn' => .inr ?_
  rw [TraceTree.getNode_recordScore] at hn'
  split at hn'
  · obtain ⟨n, hn, rfl⟩ := Option.map_eq_some_iff.1 hn'
    exact ⟨n, hn, rfl⟩
  · exact ⟨n', hn', rfl⟩

/-- A new branch is not done. -/
lemma keepsNotDone_addBranch {parent child : ReqId} {len : Nat}
    (h : t.addBranch parent child len = some t') (hc : child ∉ t) : KeepsNotDone t t' := by
  obtain ⟨p, hp, hget⟩ := TraceTree.getNode_addBranch h hc
  refine .of_back fun x n' hn' => ?_
  rw [hget] at hn'
  split at hn'
  · cases hn'; exact .inl rfl
  · split at hn'
    · next hx => cases hn'; exact .inr ⟨p, hx ▸ hp, rfl⟩
    · exact .inr ⟨n', hn', rfl⟩

/-- A branch that is taken back ends no other trace. -/
lemma keepsNotDone_removeTrace_addBranch {parent child : ReqId} {len : Nat}
    (h : t.addBranch parent child len = some t') (hc : child ∉ t) :
    KeepsNotDone t (t'.removeTrace child) := by
  obtain ⟨p, hp, hget⟩ := TraceTree.getNode_removeTrace_addBranch h hc
  refine .of_back fun x n' hn' => ?_
  rw [hget] at hn'
  split at hn'
  · next hx => cases hn'; exact .inr ⟨p, hx ▸ hp, rfl⟩
  · exact .inr ⟨n', hn', rfl⟩

/-- A trace that is not completed may be marked as pruned. -/
lemma OneFlags.markPruned (h : OneFlags t) (hn : NotDone t rid) : OneFlags (t.markPruned rid) := by
  intro x n' hn'
  rw [TraceTree.getNode_markPruned] at hn'
  split at hn'
  · next hx =>
    obtain ⟨n, hget, rfl⟩ := Option.map_eq_some_iff.1 hn'
    simp [TraceNode.OneFlag, hn n (hx ▸ hget)]
  · exact h x n' hn'

/-- Active traces may be marked as pruned. -/
lemma OneFlags.foldl_markPruned {l : List ReqId} (h : OneFlags t) (hn : ∀ x ∈ l, NotDone t x) :
    OneFlags (l.foldl TraceTree.markPruned t) := by
  induction l generalizing t with
  | nil => exact h
  | cons x l ih =>
    refine ih (h.markPruned (hn x List.mem_cons_self)) fun y hy => ?_
    exact keepsNotDone_markPruned t x y (hn y (.tail _ hy))

/-- A new root has one flag. -/
lemma OneFlags.ensureRoot (h : OneFlags t) (rid : ReqId) : OneFlags (t.ensureRoot rid) := by
  intro x n' hn'
  rw [TraceTree.getNode_ensureRoot] at hn'
  split at hn'
  · cases hn'; rfl
  · exact h x n' hn'

/-- A score keeps one flag. -/
lemma OneFlags.recordScore (h : OneFlags t) (rid : ReqId) (q : ℚ) :
    OneFlags (t.recordScore rid q) := by
  intro x n' hn'
  rw [TraceTree.getNode_recordScore] at hn'
  split at hn'
  · obtain ⟨n, hget, rfl⟩ := Option.map_eq_some_iff.1 hn'
    exact h x n hget
  · exact h x n' hn'

/-- An output keeps one flag. -/
lemma OneFlags.setOutput (h : OneFlags t) (rid : ReqId) (o : NodeOutput) :
    OneFlags (t.setOutput rid o) := by
  intro x n' hn'
  rw [TraceTree.getNode_setOutput] at hn'
  split at hn'
  · obtain ⟨n, hget, rfl⟩ := Option.map_eq_some_iff.1 hn'
    exact h x n hget
  · exact h x n' hn'

/-- A trace that is not pruned may be marked as completed. -/
lemma OneFlags.markCompleted (h : OneFlags t) (o : NodeOutput)
    (hn : ∀ n, t.getNode rid = some n → n.isPruned = false) : OneFlags (t.markCompleted rid o) := by
  intro x n' hn'
  rw [TraceTree.getNode_markCompleted] at hn'
  split at hn'
  · next hx =>
    obtain ⟨n, hget, rfl⟩ := Option.map_eq_some_iff.1 hn'
    simp [TraceNode.OneFlag, TraceNode.setOutput, hn n (hx ▸ hget)]
  · exact h x n' hn'

/-- A new branch has one flag. -/
lemma OneFlags.addBranch {parent child : ReqId} {len : Nat} (h : OneFlags t)
    (ht : t.addBranch parent child len = some t') (hc : child ∉ t) : OneFlags t' := by
  obtain ⟨p, hp, hget⟩ := TraceTree.getNode_addBranch ht hc
  intro x n' hn'
  rw [hget] at hn'
  split at hn'
  · cases hn'; rfl
  · split at hn'
    · next hx => cases hn'; exact h x p (hx ▸ hp)
    · exact h x n' hn'

/-- A branch that is taken back leaves one flag everywhere. -/
lemma OneFlags.removeTrace_addBranch {parent child : ReqId} {len : Nat} (h : OneFlags t)
    (ht : t.addBranch parent child len = some t') (hc : child ∉ t) :
    OneFlags (t'.removeTrace child) := by
  obtain ⟨p, hp, hget⟩ := TraceTree.getNode_removeTrace_addBranch ht hc
  intro x n' hn'
  rw [hget] at hn'
  split at hn'
  · next hx => cases hn'; exact h x p (hx ▸ hp)
  · exact h x n' hn'

/-- The number of completed traces, after an operation that completes nothing. -/
lemma getCompletedCount_markPruned (t : TraceTree) (rid : ReqId) :
    (t.markPruned rid).getCompletedCount = t.getCompletedCount :=
  Dict.count_modify_of_eq _ _ _ fun _ => rfl

/-- A score completes no trace. -/
lemma getCompletedCount_recordScore (t : TraceTree) (rid : ReqId) (q : ℚ) :
    (t.recordScore rid q).getCompletedCount = t.getCompletedCount :=
  Dict.count_modify_of_eq _ _ _ fun _ => rfl

/-- An output completes no trace. -/
lemma getCompletedCount_setOutput (t : TraceTree) (rid : ReqId) (o : NodeOutput) :
    (t.setOutput rid o).getCompletedCount = t.getCompletedCount :=
  Dict.count_modify_of_eq _ _ _ fun _ => rfl

/-- A completed trace is not lost from the count. -/
lemma le_getCompletedCount_markCompleted (t : TraceTree) (rid : ReqId) (o : NodeOutput) :
    t.getCompletedCount ≤ (t.markCompleted rid o).getCompletedCount :=
  Dict.le_count_modify _ _ _ fun _ _ => rfl

/-- A new root is not completed. -/
lemma getCompletedCount_ensureRoot (t : TraceTree) (rid : ReqId) :
    (t.ensureRoot rid).getCompletedCount = t.getCompletedCount := by
  unfold TraceTree.ensureRoot
  split
  · rfl
  · next h => exact Dict.count_set_of_not_mem _ h

/-- A new branch is not completed. -/
lemma getCompletedCount_addBranch {parent child : ReqId} {len : Nat}
    (h : t.addBranch parent child len = some t') (hc : child ∉ t) :
    t'.getCompletedCount = t.getCompletedCount := by
  obtain ⟨p, -, rfl⟩ := Option.map_eq_some_iff.1 h
  unfold TraceTree.getCompletedCount
  dsimp only
  rw [Dict.count_modify_of_eq]
  · rw [Dict.count_set_of_not_mem _ hc]
    rfl
  · exact fun _ => rfl

/-- A branch that is taken back changes no count. -/
lemma getCompletedCount_removeTrace_addBranch {parent child : ReqId} {len : Nat}
    (h : t.addBranch parent child len = some t') (hc : child ∉ t) :
    (t'.removeTrace child).getCompletedCount = t.getCompletedCount := by
  obtain ⟨p, hp, hget⟩ := TraceTree.getNode_addBranch h hc
  have hchild : t'.nodes.get? child = some (t.branchNode p parent child len) := by
    have := hget child
    rwa [if_pos rfl] at this
  have hm : child ∈ t' := TraceTree.mem_of_getNode hchild
  have hcount := Dict.count_erase TraceNode.isCompleted hchild
  rw [TraceTree.removeTrace, if_pos hm]
  rw [← getCompletedCount_addBranch h hc]
  exact hcount

end Gambit.Trace
