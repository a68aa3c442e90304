import Gambit.Engine.State

/-!
# Score bookkeeping

Model of the score aggregation of `EngineCore.step`, which exists in two variants chosen by
`record_score_history`: with it on, `trace_scores` keeps every score of every trace; with it off,
`trace_score_sums` and `trace_score_counts` keep running aggregates. The four operations on this
state are recording the scores of a reply, averaging, copying at a branch, and finalising.

Scores are rationals and their sums are exact. The source adds floats, the running aggregates in another order
than `sum(buf)`, so the averages of its two variants can differ in the last bits.
-/

namespace Gambit.Engine
open Gambit.Lib Gambit.Sched Gambit.Trace

/-- The mean of a list of scores (Python `sum(buf) / len(buf)`). -/
def mean (buf : List ℚ) : ℚ := buf.sum / buf.length

/-- The scores of a reply: the payloads of all workers, later workers overwriting earlier ones. -/
def mergeScores (reply : List (Dict ReqId Payload)) : Dict ReqId (List ℚ) :=
  reply.foldl (fun scores worker =>
    worker.entries.foldl (fun scores e => scores.set e.1 e.2.values) scores) ∅

/-- The hidden states of a reply are kept as the latest snapshots. -/
def mergeHidden (last : Dict ReqId (List ℚ)) (reply : List (Dict ReqId Payload)) :
    Dict ReqId (List ℚ) :=
  reply.foldl (fun last worker =>
    worker.entries.foldl (fun last e =>
      match e.2.hiddenState with
      | some hs => last.set e.1 hs
      | none => last) last) last

namespace EngineCore
variable {μ : Type} (cfg : VllmConfig)

/-- Record the scores of one trace; the float sums of the source are exact here. -/
def recordScore (e : EngineCore μ) (s : ReqId × List ℚ) : EngineCore μ :=
  if cfg.gambit.recordScoreHistory then
    { e with traceScores := e.traceScores.set s.1 (e.traceScores.getD s.1 [] ++ s.2) }
  else if s.2.isEmpty then e
  else
    { e with
      traceScoreSums := e.traceScoreSums.set s.1 (e.traceScoreSums.getD s.1 0 + s.2.sum)
      traceScoreCounts := e.traceScoreCounts.set s.1 (e.traceScoreCounts.getD s.1 0 + s.2.length) }

/-- Record the scores of a reply. -/
def recordScores (e : EngineCore μ) (scores : Dict ReqId (List ℚ)) : EngineCore μ :=
  scores.entries.foldl (recordScore cfg) e

/-- The average score of every trace with a score (Python `trace_avg_scores`). -/
def traceAvgScores (e : EngineCore μ) : Dict ReqId ℚ :=
  if cfg.gambit.recordScoreHistory then
    e.traceScores.filterMap fun _ buf => if buf.isEmpty then none else some (mean buf)
  else
    e.traceScoreCounts.filterMap fun rid c =>
      if c = 0 then none else some (e.traceScoreSums.getD rid 0 / c)

/-- Whether only running aggregates are kept; the branch copy and `_finalize_scores` also look at
`enable`. -/
def aggregatesOnly : Bool := cfg.gambit.enable && !cfg.gambit.recordScoreHistory

/-- A branch starts with the score state of its parent. -/
def copyScores (e : EngineCore μ) (parent child : ReqId) : EngineCore μ :=
  if aggregatesOnly cfg then
    if parent ∈ e.traceScoreCounts then
      { e with
        traceScoreCounts := e.traceScoreCounts.set child (e.traceScoreCounts.getD parent 0)
        traceScoreSums := e.traceScoreSums.set child (e.traceScoreSums.getD parent 0) }
    else e
  else if (e.traceScores.getD parent []).isEmpty then e
  else { e with traceScores := e.traceScores.set child (e.traceScores.getD parent []) }

/-- The final average of a trace, `none` without a score. -/
def finalAvg (e : EngineCore μ) (rid : ReqId) : Option ℚ :=
  if aggregatesOnly cfg then
    if 0 < e.traceScoreCounts.getD rid 0 then
      some (e.traceScoreSums.getD rid 0 / e.traceScoreCounts.getD rid 0)
    else none
  else if (e.traceScores.getD rid []).isEmpty then none
  else some (mean (e.traceScores.getD rid []))

end EngineCore
end Gambit.Engine
