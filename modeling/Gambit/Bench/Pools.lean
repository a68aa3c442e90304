import Gambit.Bench.Chunks
import Gambit.Bench.NormAnswer
import Gambit.Lib.Dict

/-!
# Pooling the files of a question

Model of `_index_question_files` and `_build_pools_impl`. A run directory is the list of the files that match
the pattern, sorted, and a file its bytes; error texts are without the paths.

The header of a file is stored in `question` and `groundTruth` before the checks that may reject the file, so
`processFile` returns what was stored also when it raises.
-/

namespace Gambit.Bench
open Gambit.Lib Utf8

/-- Why pooling raises. -/
inductive PoolError where
  /-- `Exceeds the limit for integer string conversion`, from `int` -/
  | digits
  /-- `Could not parse question_index from {p}` -/
  | noQuestionIndex
  /-- `Duplicate question_index={qidx} under {run_dir}: {out[qidx]} and {p}` -/
  | duplicateIndex (qidx : Nat)
  /-- `Some questions are missing from one or more run dirs (cannot pool):`, and each with the directories -/
  | missing (report : List (Nat × List Nat))
  /-- `Header question_index mismatch in {path}: got {qidx2}, expected {qidx}` -/
  | indexMismatch (got expected : Nat)
  /-- `question text mismatch for qidx={qidx} across runs` -/
  | questionMismatch (qidx : Nat)
  /-- `ground_truth mismatch for qidx={qidx}: {gt!r} vs {ground_truth!r} in {path}` -/
  | groundTruthMismatch (qidx : Nat) (gt groundTruth : List Nat)
  /-- The fields of the file do not agree. -/
  | rejected (why : Rejection)

/-- What is used of the interpreter. -/
structure Interpreter where
  chars : Charset
  tables : StrTables chars
  maxDigits : Nat

/-- The arguments of `_build_pools_impl`. -/
structure PoolArgs where
  allowMissingQuestions : Bool
  suppressParseErrors : Bool
  answerKey : Option (Dict (List Nat) (List Nat))

/-- The question that is pooled. -/
structure QuestionPool where
  questionIndex : Nat
  question : Option (List Nat)
  correctFlags : List Bool
  tokenLengths : List Nat
  extractedAnswers : List (Option (List Nat))
  groundTruth : Option (List Nat)

/-- The variables of the loop over the files of a question. -/
structure PoolState where
  question : Option (List Nat)
  groundTruth : Option (List Nat)
  pooled : Collected

/-- The lists of one file after those of others. -/
def Collected.append (c d : Collected) : Collected where
  flags := c.flags ++ d.flags
  tokenLengths := c.tokenLengths ++ d.tokenLengths
  extractedAnswers := c.extractedAnswers ++ d.extractedAnswers

/-- No fields. -/
def Collected.empty : Collected := ⟨[], [], []⟩

variable (I : Interpreter) (args : PoolArgs)

/-- Can `int` convert so many digits? -/
def Interpreter.converts (digits : List Nat) : Bool := I.maxDigits == 0 || digits.length ≤ I.maxDigits

/-- `_parse_header_fields`, which raises on a number that cannot be converted. -/
def readHeader (file : List Nat) : Except PoolError Header :=
  let text := replace (file.take headerBytes)
  if [questionIndexField, totalTracesField, numCorrectTracesField].all fun p =>
      (headerGroup I.chars p text).all I.converts then .ok (parseHeaderFields I.chars file)
  else .error .digits

/-- `_collect_trace_fields`, which raises on a number that cannot be converted. -/
def readTraceFields (file : List Nat) : Except PoolError Collected :=
  if (countedMatches chunkSize file).all fun m => m.2.field.kind != .digits || I.converts m.2.group then
    .ok (collectTraceFields file)
  else .error .digits

/-- `_norm_answer_for_compare`, which raises on a number that cannot be converted. -/
def Interpreter.normAnswer (a : Option (List Nat)) : Except PoolError (Option (List Nat)) :=
  match normAnswerForCompare I.chars I.tables I.maxDigits a with
  | some r => .ok r
  | none => .error .digits

/-- The flags of answers by a ground truth. -/
def recomputeFlags (gt : List Nat) (answers : List (Option (List Nat))) : Except PoolError (List Bool) := do
  let gtNorm ← I.normAnswer (some gt)
  answers.mapM fun a => do
    let norm ← I.normAnswer a
    return norm.isSome && norm == gtNorm

/-- The checks on the fields of a file, by the ground truth if there is an answer key. -/
def checkFields (gt : Option (List Nat)) (h : Header) (c : Collected) : Except PoolError Collected :=
  match if args.answerKey.isSome then gt else none with
  | some g => do
    let _ ← (checkFile (some fun _ => []) h c).mapError .rejected
    let flags ← recomputeFlags I g c.extractedAnswers
    return { c with flags := flags }
  | none => do
    let flags ← (checkFile none h c).mapError .rejected
    return { c with flags := flags }

/-- The ground truth after a header: that of the answer key, or the first one of a header. -/
def groundTruthStep (qidx : Nat) (question gt : Option (List Nat)) (h : Header) :
    Except PoolError (Option (List Nat)) :=
  match args.answerKey, question with
  | some key, some q => .ok ((key.get? (stripPoints I.chars q)).or (gt.or h.groundTruth))
  | _, _ =>
    match gt, h.groundTruth with
    | some g, some g' =>
      if !args.allowMissingQuestions && g' != g then .error (.groundTruthMismatch qidx g g') else .ok gt
    | none, g' => .ok g'
    | some _, none => .ok gt

/-- The question text after a header. -/
def questionStep (qidx : Nat) (question : Option (List Nat)) (h : Header) : Except PoolError (Option (List Nat)) :=
  match question, h.question with
  | some q, some q' => if q' != q && !args.suppressParseErrors then .error (.questionMismatch qidx) else .ok question
  | none, q' => .ok q'
  | some _, none => .ok question

/-- The body of the `try`: what is stored, and what it raises. -/
def processFile (qidx : Nat) (s : PoolState) (file : List Nat) : PoolState × Option PoolError :=
  match readHeader I file with
  | .error e => (s, some e)
  | .ok h =>
    match h.questionIndex.filter (· != qidx) with
    | some got => (s, some (.indexMismatch got qidx))
    | none =>
      match questionStep args qidx s.question h with
      | .error e => (s, some e)
      | .ok question =>
        let s := { s with question := question }
        match groundTruthStep I args qidx question s.groundTruth h with
        | .error e => (s, some e)
        | .ok gt =>
          let s := { s with groundTruth := gt }
          match readTraceFields I file >>= checkFields I args gt h with
          | .error e => (s, some e)
          | .ok c => ({ s with pooled := s.pooled.append c }, none)

/-- The loop over the run directories, with the file of the question in each of them. Returned is also in
which of them processing raised. -/
def poolFiles (qidx : Nat) : PoolState → List (Option (List Nat)) → Except PoolError (PoolState × List Bool)
  | s, [] => .ok (s, [])
  | s, none :: files => do
    let r ← poolFiles qidx s files
    return (r.1, false :: r.2)
  | s, some file :: files =>
    match processFile I args qidx s file with
    | (s, none) => do
      let r ← poolFiles qidx s files
      return (r.1, false :: r.2)
    | (s, some e) =>
      if args.suppressParseErrors then do
        let r ← poolFiles qidx s files
        return (r.1, true :: r.2)
      else .error e

/-- The pool of a question, if there is one. -/
def PoolState.pool (qidx : Nat) (s : PoolState) : Option QuestionPool :=
  if s.pooled.flags = [] then none
  else some
    { questionIndex := qidx
      question := s.question
      correctFlags := s.pooled.flags
      tokenLengths := s.pooled.tokenLengths
      extractedAnswers := s.pooled.extractedAnswers
      groundTruth := s.groundTruth }

/-- One file is added to an index. -/
def indexFile (out : Dict Nat (List Nat)) (file : List Nat) : Except PoolError (Dict Nat (List Nat)) := do
  let h ← readHeader I file
  match h.questionIndex with
  | none => .error .noQuestionIndex
  | some qidx => if qidx ∈ out then .error (.duplicateIndex qidx) else .ok (out.set qidx file)

/-- `_index_question_files`. -/
def indexQuestionFiles (files : List (List Nat)) : Except PoolError (Dict Nat (List Nat)) :=
  files.foldlM (indexFile I) ∅

/-- `sorted` of a set of keys. -/
def sortedKeys (keys : List Nat) : List Nat := keys.dedup.insertionSort (· ≤ ·)

/-- The questions of all run directories together. -/
def allQuestions (indexed : List (Dict Nat (List Nat))) : List Nat := sortedKeys (indexed.flatMap Dict.keys)

/-- The questions that every run directory has. -/
def commonQuestions (indexed : List (Dict Nat (List Nat))) : List Nat :=
  match indexed with
  | [] => []
  | m :: ms => sortedKeys (m.keys.filter fun q => ms.all fun m => decide (q ∈ m))

/-- The questions that are missing somewhere, and the positions of the run directories. -/
def missingReport (indexed : List (Dict Nat (List Nat))) : List (Nat × List Nat) :=
  (allQuestions indexed).filterMap fun q =>
    let missing := (List.range indexed.length).filter fun i => indexed[i]?.all fun m => decide (q ∉ m)
    if missing = [] then none else some (q, missing)

/-- The file of a question in each run directory. -/
def questionFiles (indexed : List (Dict Nat (List Nat))) (qidx : Nat) : List (Option (List Nat)) :=
  indexed.map (·.get? qidx)

/-- The loop over the files of a question, from its start. -/
def poolQuestion (indexed : List (Dict Nat (List Nat))) (qidx : Nat) : Except PoolError (PoolState × List Bool) :=
  poolFiles I args qidx ⟨none, none, .empty⟩ (questionFiles indexed qidx)

/-- The questions that are pooled. -/
def pooledQuestions (indexed : List (Dict Nat (List Nat))) : Except PoolError (List Nat) :=
  if args.allowMissingQuestions then .ok (allQuestions indexed)
  else if missingReport indexed = [] then .ok (commonQuestions indexed)
  else .error (.missing (missingReport indexed))

/-- `_build_pools_impl`. -/
def buildPools (dirs : List (List (List Nat))) : Except PoolError (List QuestionPool) := do
  let indexed ← dirs.mapM (indexQuestionFiles I)
  let qidxs ← pooledQuestions args indexed
  let pools ← qidxs.mapM fun qidx => do
    let r ← poolQuestion I args indexed qidx
    return r.1.pool qidx
  return pools.reduceOption

end Gambit.Bench
