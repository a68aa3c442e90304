import Gambit.Bench.ResultFile

/-!
# Reading result files

`compute_pass_at_n` does not parse the files it pools. It searches the first 256 KiB for the header fields
and reads the file in chunks of 1 MiB to collect the fields of the generations. A match that starts in the
last 64 KiB of a buffer is left to the next buffer, which starts with these bytes.

`checkFile` are the consistency checks that `_build_pools_impl` makes on what was read.
-/

namespace Gambit.Bench
open Gambit.Lib Utf8

/-- The pattern of `question_index`. -/
def questionIndexField : FieldPattern := ⟨"question_index".toList, .digits, by decide, forall_of_all rfl⟩

/-- The pattern of `question`. -/
def questionField : FieldPattern := ⟨"question".toList, .string, by decide, forall_of_all rfl⟩

/-- The pattern of `total_traces`. -/
def totalTracesField : FieldPattern := ⟨"total_traces".toList, .digits, by decide, forall_of_all rfl⟩

/-- The pattern of `num_correct_traces`. -/
def numCorrectTracesField : FieldPattern := ⟨"num_correct_traces".toList, .digits, by decide, forall_of_all rfl⟩

/-- The pattern of `ground_truth`. -/
def groundTruthField : FieldPattern := ⟨"ground_truth".toList, .string, by decide, forall_of_all rfl⟩

/-- The fields that `_parse_header_fields` returns. Strings are their code points. -/
structure Header where
  questionIndex : Option Nat
  question : Option (List Nat)
  totalTraces : Option Nat
  numCorrectTraces : Option Nat
  groundTruth : Option (List Nat)

/-- How much of a file is searched for the header. -/
def headerBytes : Nat := 256 * 1024

/-- What one header pattern captures in a text. -/
def headerGroup (C : Charset) (p : FieldPattern) (text : List Nat) : Option (List Nat) :=
  (search C [p] text).map (·.group)

/-- `_parse_header_fields`. A string that cannot be loaded counts as missing. -/
def parseHeaderFields (C : Charset) (file : List Nat) : Header :=
  let text := replace (file.take headerBytes)
  { questionIndex := (headerGroup C questionIndexField text).map C.int
    question := (headerGroup C questionField text).bind loadsString
    totalTraces := (headerGroup C totalTracesField text).map C.int
    numCorrectTraces := (headerGroup C numCorrectTracesField text).map C.int
    groundTruth := (headerGroup C groundTruthField text).bind loadsString }

/-- The first alternative of `_TRACE_FIELD_RE`. -/
def isTraceCorrectField : FieldPattern := ⟨"is_trace_correct".toList, .boolean, by decide, forall_of_all rfl⟩

/-- The second alternative. -/
def tokenLengthField : FieldPattern := ⟨"token_length".toList, .digits, by decide, forall_of_all rfl⟩

/-- The third alternative. -/
def extractedAnswerField : FieldPattern := ⟨"extracted_answer".toList, .nullOrString, by decide, forall_of_all rfl⟩

/-- The alternatives of `_TRACE_FIELD_RE`. -/
def traceFields : List FieldPattern := [isTraceCorrectField, tokenLengthField, extractedAnswerField]

/-- The three lists that `_collect_trace_fields` returns. -/
structure Collected where
  flags : List Bool
  tokenLengths : List Nat
  extractedAnswers : List (Option (List Nat))

/-- An answer as it was captured. One that cannot be loaded counts as `null`. -/
def loadAnswer (raw : List Nat) : Option (List Nat) :=
  if raw = points "null".toList then none else (strict raw).bind loadsString

/-- One match is added to the list of its alternative. -/
def Collected.add (c : Collected) (m : Match) : Collected :=
  match m.field.kind with
  | .boolean => { c with flags := c.flags ++ [decide (m.group = points "true".toList)] }
  | .digits => { c with tokenLengths := c.tokenLengths ++ [Charset.ascii.int m.group] }
  | _ => { c with extractedAnswers := c.extractedAnswers ++ [loadAnswer m.group] }

/-- The default of `chunk_size`. -/
def chunkSize : Nat := 1024 * 1024

/-- How many bytes at the end of a buffer are read again. -/
def keep : Nat := 64 * 1024

/-- The matches in a buffer. -/
def bufferMatches (buf : List Nat) : List (Nat × Match) := finditer .ascii traceFields 0 none 0 buf

/-- The loop over the chunks of a file, and the pass over the bytes that are left. The fuel bounds the number of
chunks by the number of bytes. -/
def collectLoop (size : Nat) : Nat → List Nat → Collected → List Nat → Collected
  | 0, overlap, c, _ => (bufferMatches overlap).foldl (fun c m => c.add m.2) c
  | fuel + 1, overlap, c, file =>
    if file = [] then (bufferMatches overlap).foldl (fun c m => c.add m.2) c
    else
      let buf := overlap ++ file.take size
      let limit := buf.length - keep
      let c := ((bufferMatches buf).filter fun m => m.1 < limit).foldl (fun c m => c.add m.2) c
      let overlap := if keep < buf.length then buf.drop (buf.length - keep) else buf
      collectLoop size fuel overlap c (file.drop size)

/-- `_collect_trace_fields`, in chunks of a given size. -/
def collectTraceFieldsIn (size : Nat) (file : List Nat) : Collected :=
  collectLoop size file.length [] ⟨[], [], []⟩ file

/-- `_collect_trace_fields`. -/
def collectTraceFields (file : List Nat) : Collected := collectTraceFieldsIn chunkSize file

/-- Why a file is rejected. -/
inductive Rejection where
  /-- `Mismatched fields in {path}: is_trace_correct={flags} token_length={lengths} extracted_answer={answers}` -/
  | mismatchedFields (flags lengths answers : Nat)
  /-- `Declared total_traces={declared} but observed {observed} in {path}` -/
  | totalTraces (declared observed : Nat)
  /-- `Declared num_correct_traces={declared} but observed {observed} in {path}` -/
  | numCorrectTraces (declared observed : Nat)

/-- The checks of `_build_pools_impl` on one file, and the flags it pools. With an answer key, and a ground truth in
it, the flags are computed anew from the answers. -/
def checkFile (recompute : Option (List (Option (List Nat)) → List Bool)) (h : Header) (c : Collected) :
    Except Rejection (List Bool) :=
  if c.flags.length ≠ c.tokenLengths.length ∨ c.flags.length ≠ c.extractedAnswers.length then
    .error (.mismatchedFields c.flags.length c.tokenLengths.length c.extractedAnswers.length)
  else
    match h.totalTraces with
    | some declared =>
      if declared ≠ c.flags.length then .error (.totalTraces declared c.flags.length)
      else checkCorrect recompute h c
    | none => checkCorrect recompute h c
where
  /-- The check of the correct generations. -/
  checkCorrect (recompute : Option (List (Option (List Nat)) → List Bool)) (h : Header) (c : Collected) :
      Except Rejection (List Bool) :=
    match recompute with
    | some f => .ok (f c.extractedAnswers)
    | none =>
      match h.numCorrectTraces with
      | some declared =>
        if declared ≠ c.flags.count true then .error (.numCorrectTraces declared (c.flags.count true)) else .ok c.flags
      | none => .ok c.flags

end Gambit.Bench
