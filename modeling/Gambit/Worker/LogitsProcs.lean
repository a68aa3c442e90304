import Gambit.Lib.Rounding
import Gambit.Worker.InputBatch

/-!
# Logits processors

Model of `vllm/v1/sample/logits_processor/builtin.py`: the state that the built-in processors keep for the
rows of the batch and how they update it from the log of a step.

An output token list is read through its identity: `outLen` gives the present length of each list. The
rows of `min_p` are in single precision, while a request has its `min_p` in double precision. Left out: the
device tensors built from the state, and with them the flags that say whether to rebuild them.
-/

namespace Gambit.Worker
open Gambit.Lib

/-- Assign an entry if there is one. -/
def setEntry {T : Type} (d : Dict Nat T) (i : Nat) : Option T → Dict Nat T
  | some v => d.set i v
  | none => d

/-- A move in the dictionary of a sparse processor. -/
def moveEntry {T : Type} (d : Dict Nat T) : Nat × Nat × MoveDirectionality → Dict Nat T
  | (a, b, direct) =>
    let aEntry := d.get? a
    let d := d.erase a
    let bEntry := d.get? b
    let d := d.erase b
    let d := setEntry d b aEntry
    match direct with
    | .swap => setEntry d a bEntry
    | .unidirectional => d

/-- The entries of added requests: a request without one deletes what is in its row. -/
def addEntries {T : Type} (newState : SamplingParams → Nat → Option T) (d : Dict Nat T)
    (added : List (Nat × SamplingParams × Nat)) : Dict Nat T :=
  added.foldl (fun d e => InputBatch.putOrPop d e.1 (newState e.2.1 e.2.2)) d

/-- Python `process_dict_updates`. -/
def processDictUpdates {T : Type} (entries : Dict Nat T) (update : Option BatchUpdateBuilder)
    (newState : SamplingParams → Nat → Option T) : Dict Nat T :=
  match update with
  | none => entries
  | some u =>
    let entries := addEntries newState entries u.added
    if entries.size = 0 then entries
    else u.moved.foldl moveEntry (u.removed.foldl (fun d i => d.erase i) entries)

/-- The entry of a request in `LogitBiasLogitsProcessor`. -/
def newBias (p : SamplingParams) (_ : Nat) : Option (List (Token × ℚ)) :=
  if p.logitBias.isEmpty then none else some p.logitBias

/-- An entry of `MinTokensLogitsProcessor`: the minimum, the output list and the stop tokens. -/
structure MinTokensEntry where
  minTokens : Nat
  outputRef : Nat
  stopTokenIds : List Token
  deriving DecidableEq

/-- Python `MinTokensLogitsProcessor.add_request`. -/
def newMinTokens (outLen : Nat → Nat) (p : SamplingParams) (outputRef : Nat) : Option MinTokensEntry :=
  if p.minTokens = 0 ∨ p.minTokens ≤ outLen outputRef then none
  else some { minTokens := p.minTokens, outputRef := outputRef, stopTokenIds := p.allStopTokenIds }

/-- Python `MinTokensLogitsProcessor.update_state`. -/
def updateMinTokens (outLen : Nat → Nat) (d : Dict Nat MinTokensEntry) (update : Option BatchUpdateBuilder) :
    Dict Nat MinTokensEntry :=
  let d := processDictUpdates d update (newMinTokens outLen)
  let toRemove := (d.entries.filter fun e => e.2.minTokens ≤ outLen e.2.outputRef).map Prod.fst
  toRemove.foldl (fun d i => d.erase i) d

/-- The `min_p` of a request that samples. -/
def Task.minP : Task → ℚ
  | .sample p => p.minP
  | .pool _ => 0

/-- Python `MinPLogitsProcessor`, its state. -/
structure MinP where
  count : Int := 0
  cpu : Nat → ℚ := fun _ => 0
  /-- Is a row compared with a Python `float` in double precision, as in NumPy 1, or in its own, as in NumPy 2? -/
  wide : Bool := true

namespace MinP

/-- What a row holds of a `min_p`. -/
def rowValue (minP : ℚ) : ℚ := BinaryFormat.binary32.round minP

/-- Python `min_p_before != min_p`. -/
def differs (m : MinP) (before minP : ℚ) : Bool :=
  if m.wide then before ≠ minP else before ≠ rowValue minP

/-- The step for an added request. -/
def add (m : MinP) (e : Nat × SamplingParams × Nat) : MinP :=
  let before := m.cpu e.1
  let minP := e.2.1.minP
  if m.differs before minP then
    { m with
      cpu := Function.update m.cpu e.1 (rowValue minP)
      count :=
        if minP ≠ 0 ∧ before = 0 then m.count + 1
        else if minP = 0 ∧ before ≠ 0 then m.count - 1
        else m.count }
  else m

/-- The step for a removed row. -/
def remove (m : MinP) (i : Nat) : MinP :=
  if m.cpu i = 0 then m else { m with cpu := Function.update m.cpu i 0, count := m.count - 1 }

/-- The step for a move. -/
def move (m : MinP) : Nat × Nat × MoveDirectionality → MinP
  | (a, b, direct) =>
    let minPA := m.cpu a
    let minPB := m.cpu b
    let cpu :=
      if minPA = minPB then m.cpu
      else match direct with
        | .swap => Function.update (Function.update m.cpu b minPA) a minPB
        | .unidirectional => Function.update m.cpu b minPA
    match direct with
    | .swap => { m with cpu := cpu }
    | .unidirectional =>
      { m with
        cpu := if minPA = 0 then cpu else Function.update cpu a 0
        count := if minPB = 0 then m.count else m.count - 1 }

/-- Python `MinPLogitsProcessor.update_state`. -/
def updateState (m : MinP) : Option BatchUpdateBuilder → MinP
  | none => m
  | some u =>
    let m := u.added.foldl add m
    if m.count = 0 then m else u.moved.foldl move (u.removed.foldl remove m)

end MinP

/-- Python `BatchUpdateBuilder.get_and_reset`, what it returns. -/
def BatchUpdateBuilder.get (b : BatchUpdateBuilder) : Option BatchUpdateBuilder :=
  if b.removed.isEmpty ∧ b.moved.isEmpty ∧ b.added.isEmpty then none else some b

/-- The batch, the lengths of the output lists, and the processors. -/
structure ProcState where
  calls : BatchState
  outLen : Nat → Nat := fun _ => 0
  biases : Dict Nat (List (Token × ℚ)) := ∅
  minToks : Dict Nat MinTokensEntry := ∅
  minP : MinP := {}

/-- A call on the batch, or tokens appended to an output list. -/
inductive ProcEvent where
  | call (c : Call)
  | append (outputRef n : Nat)
  deriving DecidableEq

namespace ProcState

/-- Python `InputBatch.refresh_metadata`; for a pooling model there are no processors. -/
def refreshMetadata (s : ProcState) : ProcState :=
  if s.calls.batch.isPoolingModel then s
  else
    let u := s.calls.batch.builder.get
    { s with
      biases := processDictUpdates s.biases u newBias
      minToks := updateMinTokens s.outLen s.minToks u
      minP := s.minP.updateState u }

/-- The state after an event. -/
def next (s : ProcState) : ProcEvent → ProcState
  | .call .refresh => { s.refreshMetadata with calls := s.calls.next .refresh }
  | .call c => { s with calls := s.calls.next c }
  | .append ref n => { s with outLen := Function.update s.outLen ref (s.outLen ref + n) }

/-- Calls come in the order of an update. -/
def Allowed (s : ProcState) : ProcEvent → Prop
  | .call c => s.calls.Allowed c
  | .append _ _ => True

/-- The `min_p` of an added request is zero, or more than half of the least number that a row holds. -/
def MinPKept (_ : ProcState) : ProcEvent → Prop
  | .call (.add r) => r.task.minP = 0 ∨ 1 / 2 ^ 150 < r.task.minP
  | _ => True

instance (s : ProcState) : (e : ProcEvent) → Decidable (s.Allowed e)
  | .call c => inferInstanceAs (Decidable (s.calls.Allowed c))
  | .append _ _ => inferInstanceAs (Decidable True)

instance (s : ProcState) : (e : ProcEvent) → Decidable (s.MinPKept e)
  | .call (.add r) => inferInstanceAs (Decidable (r.task.minP = 0 ∨ 1 / 2 ^ 150 < r.task.minP))
  | .call (.remove _) | .call .condense | .call (.swap _ _) | .call .refresh | .append _ _ =>
    inferInstanceAs (Decidable True)

end ProcState
end Gambit.Worker
