import Gambit.Config
import Gambit.Lib.Dict

/-!
# The trace tree

Model of `vllm/v1/engine/trace_tree.py`: `TraceNode`, `TraceTree` and their methods. A node is kept
in the dictionary `nodes` under its request id; a Python method that mutates a node is an in-place
`Dict.modify`. `add_branch` returns `none` when the parent is unknown, in which case the source
changes nothing.

Left out: `output_text` (the engine always passes `None`), the lineage cache (never read) and the
export dictionaries, whose content is the nodes themselves.
-/

namespace Gambit.Trace
open Gambit.Lib

/-- Python `TraceNode`. -/
structure TraceNode where
  reqId : ReqId
  parentId : Option ReqId := none
  branchDepth : Nat := 0
  createdAtStep : Nat := 0
  lastBranchStep : Int := -1
  branchParentOutputLen : Nat := 0
  scoreHistory : List ℚ := []
  isActive : Bool := true
  isCompleted : Bool := false
  isPruned : Bool := false
  children : List ReqId := []
  outputTokenIds : Option (List Token) := none
  outputTokenCount : Nat := 0
  finishReason : Option RequestStatus := none
  stopReason : Option StopReason := none
  finalScore : Option ℚ := none
  deriving DecidableEq

/-- What `set_output` stores. -/
structure NodeOutput where
  outputTokenIds : Option (List Token) := none
  finishReason : Option RequestStatus := none
  stopReason : Option StopReason := none
  finalScore : Option ℚ := none
  deriving DecidableEq

namespace TraceNode

/-- Python `TraceNode.record_score`. -/
def recordScore (n : TraceNode) (score : ℚ) : TraceNode :=
  { n with scoreHistory := n.scoreHistory ++ [score] }

/-- Python `TraceNode.set_output`. -/
def setOutput (n : TraceNode) (o : NodeOutput) : TraceNode :=
  { n with
    outputTokenIds := o.outputTokenIds
    outputTokenCount := (o.outputTokenIds.getD []).length
    finishReason := o.finishReason
    stopReason := o.stopReason
    finalScore := o.finalScore }

end TraceNode

/-- Python `TraceTree`. -/
structure TraceTree where
  maxTraces : Int
  branchCooldownSteps : Int := 2
  minTokensBeforeBranch : Int := 10
  nodes : Dict ReqId TraceNode := ∅
  rootIds : List ReqId := []
  branchCounter : Nat := 0
  currentStep : Nat := 0
  deriving DecidableEq

/-- The branch id of counter `n` under parent `p` (Python `f"gambit_{n}_{p}"`). -/
def branchId (n : Nat) (p : ReqId) : ReqId :=
  "gambit_".toList ++ Nat.toDigits 10 n ++ '_' :: p

/-- Python `TraceTree.get_stats`. -/
structure TreeStats where
  totalNodes : Nat
  activeCount : Nat
  completedCount : Nat
  prunedCount : Nat
  maxDepth : Nat
  numRoots : Nat
  branchCounter : Nat
  currentStep : Nat
  deriving DecidableEq

namespace TraceTree

/-- Python `TraceTree.get_node`. -/
def getNode (t : TraceTree) (rid : ReqId) : Option TraceNode := t.nodes.get? rid

/-- Python `TraceTree.__contains__`. -/
instance : Membership ReqId TraceTree := ⟨fun t rid => rid ∈ t.nodes⟩
instance (rid : ReqId) (t : TraceTree) : Decidable (rid ∈ t) :=
  inferInstanceAs (Decidable (rid ∈ t.nodes))

/-- Python `TraceTree.add_root`. -/
def addRoot (t : TraceTree) (rid : ReqId) : TraceTree :=
  { t with
    nodes := t.nodes.set rid { reqId := rid, createdAtStep := t.currentStep }
    rootIds := t.rootIds.insert rid }

/-- Add a root for an id without a node (Python `if rid not in tree: tree.add_root(rid)`). -/
def ensureRoot (t : TraceTree) (rid : ReqId) : TraceTree := if rid ∈ t then t else t.addRoot rid

/-- The node `add_branch` creates under `parent`. -/
def branchNode (t : TraceTree) (parent : TraceNode) (parentId childId : ReqId) (len : Nat) :
    TraceNode where
  reqId := childId
  parentId := some parentId
  branchDepth := parent.branchDepth + 1
  createdAtStep := t.currentStep
  branchParentOutputLen := len
  scoreHistory := parent.scoreHistory

/-- Python `TraceTree.add_branch`; the parent's own node is updated after the child is stored. -/
def addBranch (t : TraceTree) (parentId childId : ReqId) (len : Nat) : Option TraceTree :=
  (t.getNode parentId).map fun parent =>
    { t with
      nodes := (t.nodes.set childId (t.branchNode parent parentId childId len)).modify parentId
        fun p => { p with children := p.children ++ [childId], lastBranchStep := t.currentStep }
      branchCounter := t.branchCounter + 1 }

/-- Python `TraceTree.mark_completed`. -/
def markCompleted (t : TraceTree) (rid : ReqId) (o : NodeOutput) : TraceTree :=
  { t with
    nodes := t.nodes.modify rid fun n =>
      { n with isActive := false, isCompleted := true }.setOutput o }

/-- Python `TraceTree.mark_pruned`. -/
def markPruned (t : TraceTree) (rid : ReqId) : TraceTree :=
  { t with nodes := t.nodes.modify rid fun n => { n with isActive := false, isPruned := true } }

/-- `node.set_output` on the node of `rid`. -/
def setOutput (t : TraceTree) (rid : ReqId) (o : NodeOutput) : TraceTree :=
  { t with nodes := t.nodes.modify rid fun n => n.setOutput o }

/-- Python `TraceTree.record_score`. -/
def recordScore (t : TraceTree) (rid : ReqId) (score : ℚ) : TraceTree :=
  { t with nodes := t.nodes.modify rid fun n => n.recordScore score }

/-- Python `TraceTree.remove_trace`. -/
def removeTrace (t : TraceTree) (rid : ReqId) : TraceTree :=
  if rid ∈ t then { t with nodes := t.nodes.erase rid, rootIds := t.rootIds.erase rid } else t

/-- Python `TraceTree.increment_step`. -/
def incrementStep (t : TraceTree) : TraceTree := { t with currentStep := t.currentStep + 1 }

/-- Python `TraceTree.get_active_count`. -/
def getActiveCount (t : TraceTree) : Nat := t.nodes.count TraceNode.isActive

/-- Python `TraceTree.get_completed_count`. -/
def getCompletedCount (t : TraceTree) : Nat := t.nodes.count TraceNode.isCompleted

/-- Python `TraceTree.can_branch`. -/
def canBranch (t : TraceTree) : Bool := (t.getActiveCount : Int) < t.maxTraces

/-- Python `TraceTree.can_trace_branch`. -/
def canTraceBranch (t : TraceTree) (rid : ReqId) (numTokensGenerated : Nat) : Bool :=
  match t.getNode rid with
  | none => false
  | some n =>
    if !n.isActive then false
    else if !t.canBranch then false
    else if (numTokensGenerated : Int) < t.minTokensBeforeBranch then false
    else if 0 ≤ n.lastBranchStep ∧ (t.currentStep : Int) - n.lastBranchStep < t.branchCooldownSteps
      then false
    else true

/-- Python `TraceTree.generate_branch_id`. -/
def generateBranchId (t : TraceTree) (parentId : ReqId) : ReqId := branchId t.branchCounter parentId

/-- Python `TraceTree.get_stats`. -/
def getStats (t : TraceTree) : TreeStats where
  totalNodes := t.nodes.size
  activeCount := t.nodes.count TraceNode.isActive
  completedCount := t.nodes.count TraceNode.isCompleted
  prunedCount := t.nodes.count TraceNode.isPruned
  maxDepth := (t.nodes.values.map TraceNode.branchDepth).foldl max 0
  numRoots := t.rootIds.length
  branchCounter := t.branchCounter
  currentStep := t.currentStep

end TraceTree
end Gambit.Trace
