import Gambit.Lib.Dict
import Gambit.Lib.Machine
import Gambit.Config
import Gambit.Trace.Tree
import Gambit.Trace.Nodes
import Gambit.Trace.Roots
import Gambit.Trace.Flags
import Gambit.Trace.Forest
import Gambit.Sched.Request
import Gambit.Sched.Scheduler
import Gambit.Sched.Schedule
import Gambit.Sched.Update
import Gambit.Sched.WellFormed
import Gambit.Sched.Pass
import Gambit.Sched.Spec
import Gambit.Engine.State
import Gambit.Engine.Scores
import Gambit.Engine.Decision
import Gambit.Engine.Step
import Gambit.Engine.Moves
import Gambit.Engine.Phases
import Gambit.Engine.Invariant
import Gambit.Engine.Desk
import Gambit.Engine.TokenCounts
import Gambit.Engine.AsyncScorer
import Gambit.Engine.ScoreModes
import Gambit.Engine.Prefix
import Gambit.Engine.Stop
import Gambit.Engine.Status
import Gambit.Engine.Coverage
import Gambit.Engine.Capacity
import Gambit.Engine.Forest
import Gambit.Engine.Limit
import Gambit.Frontend.OutputProcessor
import Gambit.Frontend.Parallel
import Gambit.Sched.Steps
import Gambit.Sched.Machine
import Gambit.Sched.Terminal
import Gambit.Sched.Ownership
import Gambit.Sched.Grants
import Gambit.Sched.StateInvariant
import Gambit.Sched.Length
import Gambit.Frontend.Processor
import Gambit.Engine.Length
import Gambit.Engine.Seeds
import Gambit.Engine.Child
import Gambit.Offload.Safety
import Gambit.Offload.Refusal
import Gambit.Worker.Trigger
import Gambit.Train.Boundary
import Gambit.Worker.Isolation
import Gambit.Worker.Rebuild
import Gambit.Worker.Reorder
import Gambit.Worker.SlotMapping
import Gambit.Worker.LocalAttention
import Gambit.Bench.NormAnswer
import Gambit.Lib.ScanWindow
import Gambit.Bench.Chunks
import Gambit.Bench.Pools
import Gambit.Bench.Verdicts
import Gambit.Bench.Skipped
import Gambit.Sched.EncoderSafety
import Gambit.KV.Safety
import Gambit.KV.Rehash
import Gambit.KV.CommonPrefix
import Gambit.KV.Refusal
import Gambit.KV.Room
import Gambit.KV.LongestHit
import Gambit.KV.FreeQueue
import Gambit.Engine.Branching
import Gambit.Engine.Round
import Gambit.Engine.Ranking
import Gambit.Engine.Export
import Gambit.Sched.Turns
import Gambit.Sched.Admission
import Gambit.Sched.Order
import Gambit.Sched.Eviction
import Gambit.Sched.Preemption
import Gambit.Lib.Links
import Gambit.Lib.Rounds
import Gambit.Lib.DictMap
import Gambit.Lib.Ragged
import Gambit.Lib.Utf8
import Gambit.Lib.Json
import Gambit.Lib.Scan
import Gambit.Lib.JsonScan
import Gambit.Lib.JsonFields
import Gambit.Bench.ResultFile
import Gambit.Bench.BoxedAnswer
import Gambit.Bench.MajorityVote
import Gambit.Bench.PassAtN
import Gambit.Bench.Entries
import Gambit.Bench.Collect
import Gambit.Bench.ReadBack
import Gambit.Lib.Border
import Gambit.Draft.Matcher
import Gambit.Draft.NgramProposer
import Gambit.Frontend.Streaming
import Gambit.Frontend.StopStrings
import Gambit.Layout.Sound
import Gambit.Layout.Memory
import Gambit.Layout.Accept
import Gambit.Engine.Books
import Gambit.KV.Backing
import Gambit.Sched.Moves
import Gambit.Sched.KvCaches
import Gambit.Sched.KvRuns
import Gambit.Sched.KvContents
