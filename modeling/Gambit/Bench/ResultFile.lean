import Gambit.Lib.JsonFields
import Mathlib.Data.Char
import Mathlib.Data.List.Lex

/-!
# The result file of a question

`run_single_question` of the benchmark: the answers it extracts from the generations of one question and the
`question_result` it writes with `json.dump`. With branching the generations are the completed nodes of the
exported tree, in the order of their ids; without, or when there is no export, they are the outputs of the
request.

The tokenizer, the search for answers that are not boxed, the comparison with the ground truth and the
weighted vote are parameters: nothing about them is used.
-/

namespace Gambit.Bench
open Gambit.Lib

/-- A Python string that can be written to a file. -/
abbrev Text := List Char

/-- What the benchmark uses of other code. -/
structure Tools where
  chars : Charset
  decode : List Nat → Text
  phrases : Text → Option Text
  equalFunc : Text → Text → Bool
  weightedMajorityVote : List Text → List FloatText → Option Text

/-- The weight of an answer without a score. -/
def unitWeight : FloatText := ⟨"1.0".toList, Utf8.forall_of_all rfl⟩

/-- Why a generation stopped. -/
inductive StopReason where
  | token (n : Int)
  | text (t : Text)

/-- `str.strip`. -/
def strip (C : Charset) (t : Text) : Text :=
  ((t.dropWhile fun c => C.space c.toNat).reverse.dropWhile fun c => C.space c.toNat).reverse

/-- The text after the last occurrence of a word, `text.split(w)[-1]`. -/
def afterLast (w : Text) : Text → Option Text
  | [] => none
  | c :: t => (afterLast w t).or ((c :: t).dropPrefix? w)

/-- The text up to the brace that closes `stack` open ones, or to its end. -/
def upToBrace : Nat → Text → Text
  | _, [] => []
  | stack, c :: t =>
    if c = '{' then c :: upToBrace (stack + 1) t
    else if c = '}' then if stack = 1 then [] else c :: upToBrace (stack - 1) t
    else c :: upToBrace stack t

/-- `extract_answer`. -/
def extractAnswer (tools : Tools) (t : Text) : Option Text :=
  match afterLast "boxed".toList t with
  | some [] => some []
  | some ('{' :: ans) => some (strip tools.chars (upToBrace 1 ans))
  | some ans => some (strip tools.chars (strip tools.chars (ans.takeWhile (· ≠ '$'))))
  | none => tools.phrases t

/-- The statistics of an export. -/
structure Stats where
  totalNodes : Nat
  activeCount : Nat
  completedCount : Nat
  prunedCount : Nat
  maxDepth : Nat
  numRoots : Nat
  branchCounter : Nat
  currentStep : Nat
  schedulerActiveCount : Nat

/-- The data of an exported node. -/
structure NodeData where
  reqId : Text
  parentId : Option Text
  branchDepth : Nat
  createdAtStep : Int
  lastBranchStep : Int
  branchParentOutputLen : Nat
  scoreHistory : List FloatText
  latestScore : Option FloatText
  avgScore : Option FloatText
  isActive : Bool
  isCompleted : Bool
  isPruned : Bool
  children : List Text
  outputTokenCount : Nat
  outputTokenIds : Option (List Nat)
  finishReason : Option Text
  stopReason : Option StopReason
  finalScore : Option FloatText
  hiddenState : Option (List FloatText)

/-- A completed trace of an export. -/
structure CompletedTrace where
  reqId : Text
  parentId : Option Text
  branchDepth : Nat
  outputText : Text
  outputTokenCount : Nat
  finalScore : Option FloatText
  finishReason : Option Text
  stopReason : Option StopReason

/-- An exported tree, with the ids of its nodes as strings. -/
structure TreeExport where
  stats : Stats
  nodes : List (Text × NodeData)
  roots : List Text
  completedTraces : List CompletedTrace

/-- One of the outputs of a request. -/
structure Output where
  text : Text
  tokenIds : List Nat
  finishReason : Option Text
  stopReason : Option StopReason
  finalScore : Option FloatText
  scoreHistory : Option (List FloatText)
  gambitIsBranch : Bool
  gambitParentId : Option Text
  gambitBranchDepth : Nat

/-- What one question is run with and what generating returns. -/
structure Run where
  question : Text
  groundTruth : Option Text
  questionIndex : Nat
  enableBranching : Bool
  treeExport : Option TreeExport
  requestId : Option Text
  outputs : List Output
  generationTime : FloatText

/-- An entry of `generation_results`. -/
structure Generation where
  tokenLength : Nat
  /-- `token_length_total` and `token_length_prefix_inherited`, for a node of the tree. -/
  inherited : Option (Nat × Nat)
  generatedText : Text
  finishReason : Option Text
  stopReason : Option StopReason
  finalScore : Option FloatText
  scoreHistory : List FloatText
  promptIndex : Nat
  requestId : Option Text
  extractedAnswer : Option Text
  isTraceCorrect : Bool
  gambitIsBranch : Bool
  gambitParentId : Option Text
  gambitBranchDepth : Nat

/-- `question_result`. -/
structure QuestionResult where
  questionIndex : Nat
  question : Text
  groundTruth : Option Text
  finalAnswer : Option Text
  isFinalCorrect : Bool
  numCorrectTraces : Nat
  totalTraces : Nat
  generationTime : FloatText
  answersForPrompt : List Text
  weightsForPrompt : List FloatText
  generationResults : List Generation
  gambitEnabled : Bool
  gambitNumBranches : Nat
  gambitMaxBranchDepth : Nat
  gambitTreeExport : Option TreeExport

/-- Is an answer there and equal to the ground truth? -/
def isCorrect (tools : Tools) (groundTruth answer : Option Text) : Bool :=
  match groundTruth, answer with
  | some gt, some a => tools.equalFunc a gt
  | _, _ => false

/-- The completed nodes of an export in the order of their ids. Pruned nodes do not vote. -/
def TreeExport.completed (t : TreeExport) : List (Text × NodeData) :=
  (t.nodes.filter fun x => !x.2.isPruned && x.2.isCompleted).mergeSort fun a b => decide (a.1 ≤ b.1)

/-- The generation of a completed node. -/
def NodeData.generation (tools : Tools) (run : Run) (reqId : Text) (node : NodeData) : Generation :=
  let tokenIds := node.outputTokenIds.getD []
  let total := if node.outputTokenCount = 0 then tokenIds.length else node.outputTokenCount
  let text := tools.decode tokenIds
  let answer := extractAnswer tools text
  { tokenLength := total - node.branchParentOutputLen
    inherited := some (total, node.branchParentOutputLen)
    generatedText := strip tools.chars text
    finishReason := node.finishReason
    stopReason := node.stopReason
    finalScore := node.finalScore
    scoreHistory := node.scoreHistory
    promptIndex := run.questionIndex
    requestId := some reqId
    extractedAnswer := answer
    isTraceCorrect := isCorrect tools run.groundTruth answer
    gambitIsBranch := node.parentId.isSome
    gambitParentId := node.parentId
    gambitBranchDepth := node.branchDepth }

/-- The generation of an output. -/
def Output.generation (tools : Tools) (run : Run) (output : Output) : Generation :=
  let answer := extractAnswer tools output.text
  { tokenLength := output.tokenIds.length
    inherited := none
    generatedText := strip tools.chars output.text
    finishReason := output.finishReason
    stopReason := output.stopReason
    finalScore := output.finalScore
    scoreHistory := output.scoreHistory.getD []
    promptIndex := run.questionIndex
    requestId := run.requestId
    extractedAnswer := answer
    isTraceCorrect := isCorrect tools run.groundTruth answer
    gambitIsBranch := output.gambitIsBranch
    gambitParentId := output.gambitParentId
    gambitBranchDepth := output.gambitBranchDepth }

/-- The export that the generations are taken from. -/
def Run.tree (run : Run) : Option TreeExport := if run.enableBranching then run.treeExport else none

/-- The generations of a question. -/
def Run.generations (tools : Tools) (run : Run) : List Generation :=
  match run.tree with
  | some t => t.completed.map fun x => x.2.generation tools run x.1
  | none => run.outputs.map (·.generation tools run)

/-- The number of branches and the largest depth. -/
def Run.branches (tools : Tools) (run : Run) : Nat × Nat :=
  let ofGenerations :=
    ((run.generations tools).countP (·.gambitIsBranch), ((run.generations tools).map (·.gambitBranchDepth)).foldl max 0)
  match run.tree with
  | some t =>
    if t.nodes = [] then ofGenerations
    else (t.nodes.countP (·.2.parentId.isSome), (t.nodes.map (·.2.branchDepth)).foldl max 0)
  | none => ofGenerations

/-- The `question_result` of `run_single_question`. -/
def Run.questionResult (tools : Tools) (run : Run) : QuestionResult :=
  let generations := run.generations tools
  let answered := generations.filterMap fun g => g.extractedAnswer.map fun a => (a, g.finalScore.getD unitWeight)
  let finalAnswer := if answered.map (·.1) = [] then none
    else tools.weightedMajorityVote (answered.map (·.1)) (answered.map (·.2))
  { questionIndex := run.questionIndex
    question := run.question
    groundTruth := run.groundTruth
    finalAnswer := finalAnswer
    isFinalCorrect := isCorrect tools run.groundTruth finalAnswer
    numCorrectTraces := generations.countP (·.isTraceCorrect)
    totalTraces := generations.length
    generationTime := run.generationTime
    answersForPrompt := answered.map (·.1)
    weightsForPrompt := answered.map (·.2)
    generationResults := generations
    gambitEnabled := run.enableBranching
    gambitNumBranches := (run.branches tools).1
    gambitMaxBranchDepth := (run.branches tools).2
    gambitTreeExport := run.tree }

/-- A stop reason as it is written. -/
def StopReason.json : StopReason → Json
  | .token n => .int n
  | .text t => .str t

/-- A number as it is written. -/
def natJson (n : Nat) : Json := .int n

/-- A list of numbers as it is written. -/
def floatsJson (xs : List FloatText) : Json := .ofItems (xs.map .float)

/-- The entries of the statistics. -/
def Stats.entries (s : Stats) : List (Text × Json) :=
  [("total_nodes".toList, natJson s.totalNodes),
   ("active_count".toList, natJson s.activeCount),
   ("completed_count".toList, natJson s.completedCount),
   ("pruned_count".toList, natJson s.prunedCount),
   ("max_depth".toList, natJson s.maxDepth),
   ("num_roots".toList, natJson s.numRoots),
   ("branch_counter".toList, natJson s.branchCounter),
   ("current_step".toList, natJson s.currentStep),
   ("scheduler_active_count".toList, natJson s.schedulerActiveCount)]

/-- The entries of a node. The hidden state is there only when it was collected. -/
def NodeData.entries (n : NodeData) : List (Text × Json) :=
  [("req_id".toList, .str n.reqId),
   ("parent_id".toList, .ofOption .str n.parentId),
   ("branch_depth".toList, natJson n.branchDepth),
   ("created_at_step".toList, .int n.createdAtStep),
   ("last_branch_step".toList, .int n.lastBranchStep),
   ("branch_parent_output_len".toList, natJson n.branchParentOutputLen),
   ("score_history".toList, floatsJson n.scoreHistory),
   ("latest_score".toList, .ofOption .float n.latestScore),
   ("avg_score".toList, .ofOption .float n.avgScore),
   ("is_active".toList, .bool n.isActive),
   ("is_completed".toList, .bool n.isCompleted),
   ("is_pruned".toList, .bool n.isPruned),
   ("children".toList, .ofItems (n.children.map .str)),
   ("output_token_count".toList, natJson n.outputTokenCount),
   ("output_token_ids".toList, .ofOption (fun ids => .ofItems (ids.map natJson)) n.outputTokenIds),
   ("finish_reason".toList, .ofOption .str n.finishReason),
   ("stop_reason".toList, .ofOption StopReason.json n.stopReason),
   ("final_score".toList, .ofOption .float n.finalScore)] ++
  (n.hiddenState.map fun hs => ("hidden_state".toList, floatsJson hs)).toList

/-- The entries of a completed trace. -/
def CompletedTrace.entries (t : CompletedTrace) : List (Text × Json) :=
  [("req_id".toList, .str t.reqId),
   ("parent_id".toList, .ofOption .str t.parentId),
   ("branch_depth".toList, natJson t.branchDepth),
   ("output_text".toList, .str t.outputText),
   ("output_token_count".toList, natJson t.outputTokenCount),
   ("final_score".toList, .ofOption .float t.finalScore),
   ("finish_reason".toList, .ofOption .str t.finishReason),
   ("stop_reason".toList, .ofOption StopReason.json t.stopReason)]

/-- The entries of an export. -/
def TreeExport.entries (t : TreeExport) : List (Text × Json) :=
  [("stats".toList, .ofEntries t.stats.entries),
   ("nodes".toList, .ofEntries (t.nodes.map fun x => (x.1, .ofEntries x.2.entries))),
   ("roots".toList, .ofItems (t.roots.map .str)),
   ("completed_traces".toList, .ofItems (t.completedTraces.map fun c => .ofEntries c.entries))]

/-- The entries of a generation. -/
def Generation.entries (g : Generation) : List (Text × Json) :=
  [("token_length".toList, natJson g.tokenLength)] ++
  (match g.inherited with
    | some (total, inherited) =>
      [("token_length_total".toList, natJson total), ("token_length_prefix_inherited".toList, natJson inherited)]
    | none => []) ++
  [("generated_text".toList, .str g.generatedText),
   ("finish_reason".toList, .ofOption .str g.finishReason),
   ("stop_reason".toList, .ofOption StopReason.json g.stopReason),
   ("final_score".toList, .ofOption .float g.finalScore),
   ("score_history".toList, floatsJson g.scoreHistory),
   ("prompt_index".toList, natJson g.promptIndex),
   ("request_id".toList, .ofOption .str g.requestId),
   ("extracted_answer".toList, .ofOption .str g.extractedAnswer),
   ("is_trace_correct".toList, .bool g.isTraceCorrect),
   ("gambit_is_branch".toList, .bool g.gambitIsBranch),
   ("gambit_parent_id".toList, .ofOption .str g.gambitParentId),
   ("gambit_branch_depth".toList, natJson g.gambitBranchDepth)]

/-- The key of the `j`th generation. -/
def generationKey (j : Nat) : Text := "generation_".toList ++ Nat.toDigits 10 j

/-- The generations as one object. -/
def generationsJson (gs : List Generation) : Json :=
  .ofEntries (gs.mapIdx fun j g => (generationKey j, .ofEntries g.entries))

/-- The entries of a result. -/
def QuestionResult.entries (q : QuestionResult) : List (Text × Json) :=
  [("question_index".toList, natJson q.questionIndex),
   ("question".toList, .str q.question),
   ("ground_truth".toList, .ofOption .str q.groundTruth),
   ("final_answer".toList, .ofOption .str q.finalAnswer),
   ("is_final_correct".toList, .bool q.isFinalCorrect),
   ("num_correct_traces".toList, natJson q.numCorrectTraces),
   ("total_traces".toList, natJson q.totalTraces),
   ("generation_time".toList, .float q.generationTime),
   ("answers_for_prompt".toList, .ofItems (q.answersForPrompt.map .str)),
   ("weights_for_prompt".toList, floatsJson q.weightsForPrompt),
   ("generation_results".toList, generationsJson q.generationResults),
   ("gambit_enabled".toList, .bool q.gambitEnabled),
   ("gambit_num_branches".toList, natJson q.gambitNumBranches),
   ("gambit_max_branch_depth".toList, natJson q.gambitMaxBranchDepth),
   ("gambit_tree_export".toList, .ofOption (fun t => .ofEntries t.entries) q.gambitTreeExport)]

/-- The result as a JSON value. -/
def QuestionResult.json (q : QuestionResult) : Json := .ofEntries q.entries

/-- The text of the file. -/
def QuestionResult.text (q : QuestionResult) : Text := q.json.dump 0

/-- The bytes of the file. -/
def QuestionResult.file (q : QuestionResult) : List Nat := Utf8.encode q.text

end Gambit.Bench
