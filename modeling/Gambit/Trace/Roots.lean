import Gambit.Trace.Nodes

/-!
# Roots

The root of a trace is reached by following `parent_id`; a trace without a node is its own root. A
tree grows when its nodes keep their parent and their inherited length and when a known id that gets
a node becomes a root. Every operation of the tree grows it, and growing keeps roots.
-/

namespace Gambit.Trace
open Gambit.Lib

/-- The root of a trace, following `parent_id`. -/
inductive RootOf (t : TraceTree) : ReqId → ReqId → Prop where
  | root {rid} :
    (∀ n, t.getNode rid = some n → n.parentId = none) →
    RootOf t rid rid
  | branch {rid parent root n} :
    t.getNode rid = some n →
    n.parentId = some parent →
    RootOf t parent root →
    RootOf t rid root

/-- A trace has one root. -/
lemma RootOf.unique {t : TraceTree} {rid root root' : ReqId} (h : RootOf t rid root)
    (h' : RootOf t rid root') : root = root' := by
  induction h with
  | root hn =>
    cases h' with
    | root => rfl
    | branch hget hp _ =>
      rw [hn _ hget] at hp
      cases hp
  | branch hget hp _ ih =>
    cases h' with
    | root hn =>
      rw [hn _ hget] at hp
      cases hp
    | branch hget' hp' hr' =>
      rw [hget] at hget'
      cases hget'
      rw [hp] at hp'
      cases hp'
      exact ih hr'

/-- Parents of nodes are nodes. -/
def ParentClosed (t : TraceTree) : Prop :=
  ∀ rid n parent, t.getNode rid = some n → n.parentId = some parent → parent ∈ t

/-- A tree that grew: old nodes keep their parent, known ids without a node become roots. -/
structure Grows (known : ReqId → Prop) (t t' : TraceTree) : Prop where
  keep : ∀ rid n, t.getNode rid = some n → ∃ n', t'.getNode rid = some n' ∧
    n'.parentId = n.parentId ∧ n'.branchParentOutputLen = n.branchParentOutputLen
  fresh : ∀ rid n', known rid → rid ∉ t → t'.getNode rid = some n' → n'.parentId = none

variable {known : ReqId → Prop} {t t' : TraceTree} {rid root : ReqId}

lemma Grows.refl (t : TraceTree) : Grows known t t :=
  ⟨fun _ n h => ⟨n, h, rfl, rfl⟩, fun _ _ _ hn h => absurd (TraceTree.mem_of_getNode h) hn⟩

/-- A node of the grown tree at a known id: an old one, or a new root. -/
lemma Grows.back {n' : TraceNode} (h : Grows known t t') (hk : known rid)
    (hn' : t'.getNode rid = some n') : n'.parentId = none ∨ ∃ n, t.getNode rid = some n ∧
      n'.parentId = n.parentId ∧ n'.branchParentOutputLen = n.branchParentOutputLen := by
  cases hn : t.getNode rid with
  | none => exact .inl (h.fresh rid n' hk (TraceTree.getNode_eq_none.1 hn) hn')
  | some n =>
    obtain ⟨m, hm, h1, h2⟩ := h.keep rid n hn
    rw [hm] at hn'
    cases hn'
    exact .inr ⟨n, rfl, h1, h2⟩

/-- Growing keeps the root of a known trace. -/
lemma RootOf.grow (h : RootOf t rid root) (hg : Grows known t t') (hc : ParentClosed t)
    (hk : ∀ x ∈ t, known x) (hr : known rid) : RootOf t' rid root := by
  induction h with
  | root hn =>
    refine .root fun n' hn' => ?_
    rcases hg.back hr hn' with he | ⟨n, hget, he, -⟩
    · exact he
    · rw [he]; exact hn n hget
  | branch hget hp _ ih =>
    obtain ⟨n', hn', he, -⟩ := hg.keep _ _ hget
    exact .branch hn' (he.trans hp) (ih (hk _ (hc _ _ _ hget hp)))

/-- An operation that changes nodes in place, keeping parents and inherited lengths. -/
lemma Grows.of_map (h : ∀ x, ∃ f : TraceNode → TraceNode,
      (∀ n, (f n).parentId = n.parentId ∧ (f n).branchParentOutputLen = n.branchParentOutputLen) ∧
      t'.getNode x = (t.getNode x).map f) : Grows known t t' where
  keep x n hn := by
    obtain ⟨f, hf, he⟩ := h x
    rw [hn] at he
    exact ⟨f n, he, hf n⟩
  fresh x n' _ hx hn' := by
    obtain ⟨f, -, he⟩ := h x
    rw [TraceTree.getNode_eq_none.2 hx, hn'] at he
    cases he

/-- In-place changes keep the parents inside the tree. -/
lemma ParentClosed.of_map (hc : ParentClosed t) (h : ∀ x, ∃ f : TraceNode → TraceNode,
      (∀ n, (f n).parentId = n.parentId ∧ (f n).branchParentOutputLen = n.branchParentOutputLen) ∧
      t'.getNode x = (t.getNode x).map f) : ParentClosed t' := by
  intro x n' parent hn' hp
  obtain ⟨f, hf, he⟩ := h x
  rw [hn'] at he
  obtain ⟨n, hn, rfl⟩ := Option.map_eq_some_iff.1 he.symm
  rw [(hf n).1] at hp
  obtain ⟨g, -, hg⟩ := h parent
  obtain ⟨m, hm⟩ := TraceTree.mem_iff_getNode.1 (hc x n parent hn hp)
  rw [hm] at hg
  exact TraceTree.mem_of_getNode hg

/-- A tree that grew with its parents inside. -/
def GrowsClosed (known : ReqId → Prop) (t t' : TraceTree) : Prop :=
  Grows known t t' ∧ (ParentClosed t → ParentClosed t')

lemma GrowsClosed.refl (t : TraceTree) : GrowsClosed known t t := ⟨.refl t, id⟩

lemma GrowsClosed.of_map (h : ∀ x, ∃ f : TraceNode → TraceNode,
      (∀ n, (f n).parentId = n.parentId ∧ (f n).branchParentOutputLen = n.branchParentOutputLen) ∧
      t'.getNode x = (t.getNode x).map f) : GrowsClosed known t t' :=
  ⟨.of_map h, fun hc => hc.of_map h⟩

/-- The identity at all ids but one. -/
lemma map_ite {o : Option TraceNode} {x y : ReqId} (f : TraceNode → TraceNode) :
    (if x = y then o.map f else o) = o.map (if x = y then f else id) := by
  split <;> simp

lemma growsClosed_markPruned (t : TraceTree) (rid : ReqId) :
    GrowsClosed known t (t.markPruned rid) := by
  refine .of_map fun x => ⟨_, ?_, (TraceTree.getNode_markPruned t rid x).trans (map_ite _)⟩
  intro n
  split <;> exact ⟨rfl, rfl⟩

lemma growsClosed_recordScore (t : TraceTree) (rid : ReqId) (q : ℚ) :
    GrowsClosed known t (t.recordScore rid q) := by
  refine .of_map fun x => ⟨_, ?_, (TraceTree.getNode_recordScore t rid x q).trans (map_ite _)⟩
  intro n
  split <;> exact ⟨rfl, rfl⟩

lemma growsClosed_setOutput (t : TraceTree) (rid : ReqId) (o : NodeOutput) :
    GrowsClosed known t (t.setOutput rid o) := by
  refine .of_map fun x => ⟨_, ?_, (TraceTree.getNode_setOutput t rid x o).trans (map_ite _)⟩
  intro n
  split <;> exact ⟨rfl, rfl⟩

lemma growsClosed_markCompleted (t : TraceTree) (rid : ReqId) (o : NodeOutput) :
    GrowsClosed known t (t.markCompleted rid o) := by
  refine .of_map fun x => ⟨_, ?_, (TraceTree.getNode_markCompleted t rid x o).trans (map_ite _)⟩
  intro n
  split <;> exact ⟨rfl, rfl⟩

/-- A new root grows the tree. -/
lemma growsClosed_addRoot (hn : rid ∉ t) : GrowsClosed known t (t.addRoot rid) := by
  refine ⟨⟨fun x n hx => ?_, fun x n' _ hx hn' => ?_⟩, fun hc x n' parent hn' hp => ?_⟩
  · have hne : x ≠ rid := fun e => hn (e ▸ TraceTree.mem_of_getNode hx)
    exact ⟨n, by rw [TraceTree.getNode_addRoot, if_neg hne]; exact hx, rfl, rfl⟩
  · rw [TraceTree.getNode_addRoot] at hn'
    split at hn'
    · cases hn'; rfl
    · exact absurd (TraceTree.mem_of_getNode hn') hx
  · rw [TraceTree.getNode_addRoot] at hn'
    split at hn'
    · cases hn'; cases hp
    · exact TraceTree.mem_addRoot.2 (.inr (hc x n' parent hn' hp))

lemma growsClosed_ensureRoot (t : TraceTree) (rid : ReqId) :
    GrowsClosed known t (t.ensureRoot rid) := by
  unfold TraceTree.ensureRoot
  split
  · exact .refl t
  · next h => exact growsClosed_addRoot h

lemma GrowsClosed.trans {t'' : TraceTree} (h : GrowsClosed known t t')
    (h' : GrowsClosed known t' t'') : GrowsClosed known t t'' := by
  refine ⟨⟨fun x n hx => ?_, fun x n'' hkn hx hn'' => ?_⟩, fun hc => h'.2 (h.2 hc)⟩
  · obtain ⟨n', hn', h1, h2⟩ := h.1.keep x n hx
    obtain ⟨n'', hn'', h3, h4⟩ := h'.1.keep x n' hn'
    exact ⟨n'', hn'', h3.trans h1, h4.trans h2⟩
  · rcases h'.1.back hkn hn'' with he | ⟨n', hn', he, -⟩
    · exact he
    · rw [he]; exact h.1.fresh x n' hkn hx hn'

lemma growsClosed_foldl_markPruned (l : List ReqId) (t : TraceTree) :
    GrowsClosed known t (l.foldl TraceTree.markPruned t) := by
  induction l generalizing t with
  | nil => exact .refl t
  | cons x l ih => exact (growsClosed_markPruned t x).trans (ih (t.markPruned x))

/-- A branch under an unknown id grows the tree. -/
lemma growsClosed_addBranch {parent child : ReqId} {len : Nat}
    (h : t.addBranch parent child len = some t') (hc : child ∉ t) (hk : ¬ known child) :
    GrowsClosed known t t' := by
  obtain ⟨p, hp, hget⟩ := TraceTree.getNode_addBranch h hc
  refine ⟨⟨fun x n hx => ?_, fun x n' hkn hx hn' => ?_⟩, fun hcl x n' parent' hn' hp' => ?_⟩
  · have hne : x ≠ child := fun e => hc (e ▸ TraceTree.mem_of_getNode hx)
    by_cases hxp : x = parent
    · subst hxp
      rw [hp] at hx
      cases hx
      exact ⟨t.branchedParent child p, by rw [hget, if_neg hne, if_pos rfl], rfl, rfl⟩
    · exact ⟨n, by rw [hget, if_neg hne, if_neg hxp]; exact hx, rfl, rfl⟩
  · have hne : x ≠ child := fun e => hk (e ▸ hkn)
    have hnp : x ≠ parent := fun e => hx (e ▸ TraceTree.mem_of_getNode hp)
    rw [hget, if_neg hne, if_neg hnp] at hn'
    exact absurd (TraceTree.mem_of_getNode hn') hx
  · have hin : ∀ y ∈ t, y ∈ t' := by
      intro y hy
      rw [TraceTree.mem_iff_getNode, hget]
      split
      · exact ⟨_, rfl⟩
      · split
        · exact ⟨_, rfl⟩
        · exact TraceTree.mem_iff_getNode.1 hy
    rw [hget] at hn'
    split at hn'
    · cases hn'
      cases hp'
      exact hin _ (TraceTree.mem_of_getNode hp)
    · split at hn'
      · next hx =>
        cases hn'
        exact hin _ (hcl x p parent' (hx ▸ hp) hp')
      · exact hin _ (hcl x n' parent' hn' hp')

/-- A branch that was taken back grows the tree. -/
lemma growsClosed_removeTrace_addBranch {parent child : ReqId} {len : Nat}
    (h : t.addBranch parent child len = some t') (hc : child ∉ t) :
    GrowsClosed known t (t'.removeTrace child) := by
  obtain ⟨p, hp, hget⟩ := TraceTree.getNode_removeTrace_addBranch h hc
  refine .of_map fun x => ⟨if x = parent then t.branchedParent child else id, ?_, ?_⟩
  · intro n
    split <;> exact ⟨rfl, rfl⟩
  · rw [hget]
    split
    · next hx => rw [hx, hp]; rfl
    · simp

end Gambit.Trace
