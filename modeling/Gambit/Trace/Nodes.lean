import Gambit.Trace.Tree

/-!
# Lookups in the trace tree

What every operation of the trace tree does to a lookup, to membership and to the counters, and when
an id is new. Branch ids are injective in counter and parent, so an id issued by
`generate_branch_id` differs from every id issued before (`not_issued_branchId`).
-/

namespace Gambit.Trace
open Gambit.Lib

/-- Cutting at the first occurrence of `a` is unique. -/
lemma append_cons_inj {α : Type} {a : α} {l l' r r' : List α} (hl : a ∉ l) (hl' : a ∉ l')
    (h : l ++ a :: r = l' ++ a :: r') : l = l' ∧ r = r' := by
  induction l generalizing l' with
  | nil =>
    cases l' with
    | nil => exact ⟨rfl, List.tail_eq_of_cons_eq h⟩
    | cons b l' => exact absurd (List.head_eq_of_cons_eq h ▸ List.mem_cons_self) hl'
  | cons b l ih =>
    cases l' with
    | nil => exact absurd (List.head_eq_of_cons_eq h ▸ List.mem_cons_self) hl
    | cons b' l' =>
      obtain ⟨rfl, htail⟩ := List.cons.inj h
      obtain ⟨rfl, rfl⟩ := ih (fun m => hl (.tail _ m)) (fun m => hl' (.tail _ m)) htail
      exact ⟨rfl, rfl⟩

/-- The decimal digits determine the number. -/
lemma toDigits_inj {n m : Nat} (h : Nat.toDigits 10 n = Nat.toDigits 10 m) : n = m := by
  have hd := congrArg (Nat.ofDigitChars 10 · 0) h
  simpa only [Nat.ofDigitChars_ten_toDigits] using hd

/-- The part of a branch id after the prefix determines counter and parent. -/
lemma numbered_inj {pre p q : ReqId} {n m : Nat}
    (h : pre ++ Nat.toDigits 10 n ++ '_' :: p = pre ++ Nat.toDigits 10 m ++ '_' :: q) :
    n = m ∧ p = q := by
  rw [List.append_assoc, List.append_assoc] at h
  obtain ⟨hd, hp⟩ := append_cons_inj (Nat.underscore_not_in_toDigits (n := n))
    (Nat.underscore_not_in_toDigits (n := m)) (List.append_cancel_left h)
  exact ⟨toDigits_inj hd, hp⟩

/-- A branch id determines its counter and its parent. -/
lemma branchId_inj {n m : Nat} {p q : ReqId} (h : branchId n p = branchId m q) : n = m ∧ p = q :=
  numbered_inj h

/-- A branch id carries the reserved prefix. -/
lemma branchId_reserved (n : Nat) (p : ReqId) : "gambit_".toList <+: branchId n p :=
  ⟨Nat.toDigits 10 n ++ '_' :: p, (List.append_assoc ..).symm⟩

/-- The ids in use: those added from outside, and the branch ids below the counter. -/
def Issued (added : List ReqId) (counter : Nat) (rid : ReqId) : Prop :=
  rid ∈ added ∨ ∃ n p, n < counter ∧ rid = branchId n p

/-- The next branch id was never issued. -/
lemma not_issued_branchId {added : List ReqId} {counter : Nat} {p : ReqId}
    (ext : ∀ rid ∈ added, ¬ "gambit_".toList <+: rid) :
    ¬ Issued added counter (branchId counter p) := by
  rintro (h | ⟨n, q, hn, h⟩)
  · exact ext _ h (branchId_reserved _ _)
  · exact absurd (branchId_inj h).1 (by omega)

/-- Ids stay issued. -/
lemma Issued.mono {added added' : List ReqId} {n n' : Nat} {rid : ReqId} (h : Issued added n rid)
    (ha : added ⊆ added') (hn : n ≤ n') : Issued added' n' rid := by
  rcases h with h | ⟨k, p, hk, rfl⟩
  · exact .inl (ha h)
  · exact .inr ⟨k, p, by omega, rfl⟩

namespace TraceTree
variable {t t' : TraceTree} {rid x : ReqId}

/-- A trace of the tree has a node. -/
lemma mem_iff_getNode : x ∈ t ↔ ∃ n, t.getNode x = some n := Dict.mem_iff_get?

/-- A node belongs to a trace of the tree. -/
lemma mem_of_getNode {n : TraceNode} (h : t.getNode x = some n) : x ∈ t := Dict.mem_of_get? h

/-- A trace outside the tree has no node. -/
lemma getNode_eq_none : t.getNode x = none ↔ x ∉ t := Dict.get?_eq_none

/-- The nodes after a root was added. -/
@[simp] lemma getNode_addRoot (t : TraceTree) (rid x : ReqId) :
    (t.addRoot rid).getNode x =
      if x = rid then some { reqId := rid, createdAtStep := t.currentStep } else t.getNode x :=
  Dict.get?_set ..

/-- The nodes after a prune. -/
@[simp] lemma getNode_markPruned (t : TraceTree) (rid x : ReqId) :
    (t.markPruned rid).getNode x =
      if x = rid then (t.getNode x).map (fun n => { n with isActive := false, isPruned := true })
      else t.getNode x :=
  Dict.get?_modify ..

/-- The nodes after a completion. -/
@[simp] lemma getNode_markCompleted (t : TraceTree) (rid x : ReqId) (o : NodeOutput) :
    (t.markCompleted rid o).getNode x =
      if x = rid then
        (t.getNode x).map (fun n => { n with isActive := false, isCompleted := true }.setOutput o)
      else t.getNode x :=
  Dict.get?_modify ..

/-- The nodes after an output was stored. -/
@[simp] lemma getNode_setOutput (t : TraceTree) (rid x : ReqId) (o : NodeOutput) :
    (t.setOutput rid o).getNode x =
      if x = rid then (t.getNode x).map (·.setOutput o) else t.getNode x :=
  Dict.get?_modify ..

/-- The nodes after a score was recorded. -/
@[simp] lemma getNode_recordScore (t : TraceTree) (rid x : ReqId) (q : ℚ) :
    (t.recordScore rid q).getNode x =
      if x = rid then (t.getNode x).map (·.recordScore q) else t.getNode x :=
  Dict.get?_modify ..

/-- The step counter is not part of the nodes. -/
@[simp] lemma getNode_incrementStep (t : TraceTree) (x : ReqId) :
    t.incrementStep.getNode x = t.getNode x := rfl

/-- The traces after a root was added. -/
@[simp] lemma mem_addRoot : x ∈ t.addRoot rid ↔ x = rid ∨ x ∈ t := Dict.mem_set

/-- A root is added for an id without a node only. -/
@[simp] lemma getNode_ensureRoot (t : TraceTree) (rid x : ReqId) :
    (t.ensureRoot rid).getNode x =
      if x = rid ∧ rid ∉ t then some { reqId := rid, createdAtStep := t.currentStep }
      else t.getNode x := by
  unfold ensureRoot
  by_cases h : rid ∈ t <;> simp [h]

/-- The traces after a root was ensured. -/
@[simp] lemma mem_ensureRoot : x ∈ t.ensureRoot rid ↔ x = rid ∨ x ∈ t := by
  unfold ensureRoot
  split
  · next h => exact ⟨.inr, fun hx => hx.elim (· ▸ h) id⟩
  · exact mem_addRoot

/-- Ensuring a root leaves the counters. -/
lemma ensureRoot_frame (t : TraceTree) (rid : ReqId) :
    (t.ensureRoot rid).branchCounter = t.branchCounter ∧
      (t.ensureRoot rid).maxTraces = t.maxTraces ∧
      (t.ensureRoot rid).currentStep = t.currentStep := by
  unfold ensureRoot
  split <;> exact ⟨rfl, rfl, rfl⟩

/-- Pruning keeps the traces. -/
@[simp] lemma mem_markPruned : x ∈ t.markPruned rid ↔ x ∈ t := Dict.mem_modify

/-- Completing keeps the traces. -/
@[simp] lemma mem_markCompleted {o : NodeOutput} : x ∈ t.markCompleted rid o ↔ x ∈ t :=
  Dict.mem_modify

/-- An output keeps the traces. -/
@[simp] lemma mem_setOutput {o : NodeOutput} : x ∈ t.setOutput rid o ↔ x ∈ t := Dict.mem_modify

/-- A score keeps the traces. -/
@[simp] lemma mem_recordScore {q : ℚ} : x ∈ t.recordScore rid q ↔ x ∈ t := Dict.mem_modify

/-- The step counter keeps the traces. -/
@[simp] lemma mem_incrementStep : x ∈ t.incrementStep ↔ x ∈ t := Iff.rfl

/-- Marking several traces as pruned. -/
lemma getNode_foldl_markPruned (l : List ReqId) (t : TraceTree) (x : ReqId) :
    (l.foldl markPruned t).getNode x =
      if x ∈ l then (t.getNode x).map (fun n => { n with isActive := false, isPruned := true })
      else t.getNode x := by
  induction l generalizing t with
  | nil => simp
  | cons y l ih =>
    rw [List.foldl_cons, ih, getNode_markPruned]
    by_cases hx : x = y
    · subst hx
      cases t.getNode x <;> simp
    · simp [hx]

/-- Pruning leaves the counters. -/
lemma foldl_markPruned_frame (l : List ReqId) (t : TraceTree) :
    (l.foldl markPruned t).branchCounter = t.branchCounter ∧
      (l.foldl markPruned t).maxTraces = t.maxTraces := by
  induction l generalizing t with
  | nil => exact ⟨rfl, rfl⟩
  | cons y l ih => exact ih (t.markPruned y)

/-- The parent's node after a branch. -/
def branchedParent (t : TraceTree) (childId : ReqId) (p : TraceNode) : TraceNode :=
  { p with children := p.children ++ [childId], lastBranchStep := t.currentStep }

/-- What a branch under a new id does: the child's node, the parent's node, nothing else. -/
lemma getNode_addBranch {parent child : ReqId} {len : Nat}
    (h : t.addBranch parent child len = some t') (hc : child ∉ t) :
    ∃ p, t.getNode parent = some p ∧ ∀ x, t'.getNode x =
      if x = child then some (t.branchNode p parent child len)
      else if x = parent then some (t.branchedParent child p)
      else t.getNode x := by
  obtain ⟨p, hp, rfl⟩ := Option.map_eq_some_iff.1 h
  have hne : child ≠ parent := fun e => hc (e ▸ mem_of_getNode hp)
  refine ⟨p, hp, fun x => ?_⟩
  simp only [getNode, Dict.get?_modify, Dict.get?_set] at hp ⊢
  by_cases hx : x = parent
  · subst hx
    simp [hne.symm, hp, branchedParent]
  · simp [hx]

/-- What a branch keeps and counts. -/
lemma addBranch_frame {parent child : ReqId} {len : Nat}
    (h : t.addBranch parent child len = some t') :
    t'.branchCounter = t.branchCounter + 1 ∧ t'.maxTraces = t.maxTraces ∧
      t'.currentStep = t.currentStep ∧ t'.rootIds = t.rootIds := by
  obtain ⟨p, hp, rfl⟩ := Option.map_eq_some_iff.1 h
  exact ⟨rfl, rfl, rfl, rfl⟩

/-- Taking a failed branch back leaves the parent's node changed and nothing else. -/
lemma getNode_removeTrace_addBranch {parent child : ReqId} {len : Nat}
    (h : t.addBranch parent child len = some t') (hc : child ∉ t) :
    ∃ p, t.getNode parent = some p ∧ ∀ x, (t'.removeTrace child).getNode x =
      if x = parent then some (t.branchedParent child p) else t.getNode x := by
  obtain ⟨p, hp, hx⟩ := getNode_addBranch h hc
  have hne : child ≠ parent := fun e => hc (e ▸ mem_of_getNode hp)
  have hm : child ∈ t' := mem_of_getNode (by rw [hx, if_pos rfl])
  refine ⟨p, hp, fun x => ?_⟩
  rw [removeTrace, if_pos hm]
  simp only [getNode, Dict.get?_erase] at hx ⊢
  rw [hx]
  by_cases hxc : x = child
  · subst hxc
    simp only [if_true, if_neg hne]
    exact (getNode_eq_none.2 hc).symm
  · simp [hxc]

/-- Removing a trace leaves the branch counter. -/
@[simp] lemma removeTrace_branchCounter (t : TraceTree) (rid : ReqId) :
    (t.removeTrace rid).branchCounter = t.branchCounter := by
  unfold removeTrace; split <;> rfl

/-- Removing a trace leaves the limit. -/
@[simp] lemma removeTrace_maxTraces (t : TraceTree) (rid : ReqId) :
    (t.removeTrace rid).maxTraces = t.maxTraces := by
  unfold removeTrace; split <;> rfl

end TraceTree
end Gambit.Trace
