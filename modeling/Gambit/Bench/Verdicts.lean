import Gambit.Bench.Pools
import Gambit.Lib.Loop

/-!
# What becomes of a file

With `suppress_parse_errors` a file whose processing raises is skipped. The loop over the files of a question
stores the header of a file before the checks on it, so what becomes of a file depends on the headers before
it, those of skipped files too. `verdict` says how, and `poolFiles_spec` that the loop does so.
-/

namespace Gambit.Bench
open Gambit.Lib Utf8

variable (I : Interpreter) (args : PoolArgs)

/-- The header of a file. -/
def fileHeader (file : List Nat) : Header := parseHeaderFields I.chars file

/-- The question of a file that is in an index. -/
def fileIndex (file : List Nat) : Nat := (fileHeader I file).questionIndex.getD 0

/-- The question text that headers give. -/
def questionOf (hs : List Header) : Option (List Nat) := hs.findSome? (·.question)

/-- The answer for it in the answer key. -/
def keyEntry (hs : List Header) : Option (List Nat) :=
  args.answerKey.bind fun key => (questionOf hs).bind fun q => key.get? (stripPoints I.chars q)

/-- The ground truth that headers give. -/
def groundTruthOf (hs : List Header) : Option (List Nat) := (keyEntry I args hs).or (hs.findSome? (·.groundTruth))

/-- Does a header have another ground truth than those before it, where they are to agree? -/
def disagrees (before : List Header) (h : Header) : Bool :=
  !args.allowMissingQuestions && (args.answerKey.isNone || (questionOf (before ++ [h])).isNone) &&
    (groundTruthOf I args before).any fun g => h.groundTruth.any (· != g)

/-- The fields that are pooled of a file, after files with these headers; `none` if it is skipped. -/
def verdict (before : List Header) (file : List Nat) : Option Collected :=
  if disagrees I args before (fileHeader I file) then none
  else
    (readTraceFields I file >>=
      checkFields I args (groundTruthOf I args (before ++ [fileHeader I file])) (fileHeader I file)).toOption

/-- What becomes of each of the files of a question. -/
def verdicts : List Header → List (List Nat) → List (Option Collected)
  | _, [] => []
  | before, file :: files => verdict I args before file :: verdicts (before ++ [fileHeader I file]) files

/-- The files of a question that are not skipped. -/
def accepted : List Header → List (List Nat) → List (List Nat)
  | _, [] => []
  | before, file :: files =>
    match verdict I args before file with
    | some _ => file :: accepted (before ++ [fileHeader I file]) files
    | none => accepted (before ++ [fileHeader I file]) files

variable {I args} {file : List Nat} {files : List (List Nat)} {before : List Header} {h : Header} {qidx : Nat}

lemma readHeader_ok {h : Header} (hr : readHeader I file = .ok h) : h = fileHeader I file := by
  unfold readHeader at hr
  dsimp only at hr
  split at hr
  · cases hr
    rfl
  · cases hr

lemma questionOf_append (hs : List Header) (h : Header) :
    questionOf (hs ++ [h]) = (questionOf hs).or h.question := by
  unfold questionOf
  rw [List.findSome?_append]
  cases hq : h.question with
  | none => simp [hq]
  | some q => simp [hq]

lemma firstGroundTruth_append (hs : List Header) (h : Header) :
    (hs ++ [h]).findSome? (·.groundTruth) = (hs.findSome? (·.groundTruth)).or h.groundTruth := by
  rw [List.findSome?_append]
  cases hq : h.groundTruth with
  | none => simp [hq]
  | some q => simp [hq]

/-- With an answer key, the entry of a question does not change once the question is known. -/
lemma keyEntry_append {q : List Nat} (hq : questionOf before = some q) :
    keyEntry I args (before ++ [h]) = keyEntry I args before := by
  rw [keyEntry, keyEntry, questionOf_append, hq, Option.some_or]

/-- The question text after a header, where errors are suppressed. -/
lemma questionStep_suppress (hs : args.suppressParseErrors = true) (qidx : Nat) (before : List Header) (h : Header) :
    questionStep args qidx (questionOf before) h = .ok (questionOf (before ++ [h])) := by
  rw [questionOf_append]
  unfold questionStep
  cases hb : questionOf before with
  | none => rfl
  | some q =>
    cases hq : h.question with
    | none => rfl
    | some q' =>
      show (if _ then _ else _) = _
      rw [hs, Bool.not_true, Bool.and_false, if_neg Bool.false_ne_true, Option.some_or]

/-- Where the answer key is not asked, the ground truth is the first one of a header. -/
lemma groundTruthOf_unasked {hs : List Header} (hn : keyEntry I args hs = none) :
    groundTruthOf I args hs = hs.findSome? (·.groundTruth) := by
  rw [groundTruthOf, hn, Option.none_or]

/-- The ground truth after a header, where the answer key is asked. -/
lemma groundTruthOf_asked {key : Dict (List Nat) (List Nat)} {q : List Nat} (hkey : args.answerKey = some key)
    (hq : questionOf (before ++ [h]) = some q) :
    groundTruthOf I args (before ++ [h]) =
      (key.get? (stripPoints I.chars q)).or ((groundTruthOf I args before).or h.groundTruth) := by
  have hentry : keyEntry I args (before ++ [h]) = key.get? (stripPoints I.chars q) := by
    rw [keyEntry, hkey, Option.bind_some, hq, Option.bind_some]
  rw [groundTruthOf, hentry, firstGroundTruth_append]
  cases hg : key.get? (stripPoints I.chars q) with
  | some g => rfl
  | none =>
    have hbefore : keyEntry I args before = none := by
      cases hb : questionOf before with
      | none => rw [keyEntry, hkey, hb, Option.bind_some, Option.bind_none]
      | some q' =>
        rw [← keyEntry_append (h := h) hb, hentry]
        exact hg
    rw [groundTruthOf_unasked hbefore]

/-- Without a key or a question the ground truths of the files are merged. -/
lemma groundTruthStep_unasked {I : Interpreter} {args : PoolArgs} {qidx : Nat} {question gt : Option (List Nat)}
    {h : Header} (hasked : ¬(args.answerKey.isSome ∧ question.isSome)) :
    groundTruthStep I args qidx question gt h =
      match gt, h.groundTruth with
      | some g, some g' =>
        if !args.allowMissingQuestions && g' != g then .error (.groundTruthMismatch qidx g g') else .ok gt
      | none, g' => .ok g'
      | some _, none => .ok gt := by
  unfold groundTruthStep
  split
  · next hkey => exact absurd ⟨by rw [hkey]; rfl, rfl⟩ hasked
  · rfl

/-- The ground truth after a header. -/
lemma groundTruthStep_cases (I : Interpreter) (args : PoolArgs) (qidx : Nat) (before : List Header) (h : Header) :
    if disagrees I args before h then
      (∃ e, groundTruthStep I args qidx (questionOf (before ++ [h])) (groundTruthOf I args before) h = .error e) ∧
        groundTruthOf I args (before ++ [h]) = groundTruthOf I args before
    else
      groundTruthStep I args qidx (questionOf (before ++ [h])) (groundTruthOf I args before) h =
        .ok (groundTruthOf I args (before ++ [h])) := by
  by_cases hasked : args.answerKey.isSome ∧ (questionOf (before ++ [h])).isSome
  · obtain ⟨key, hkey⟩ := Option.isSome_iff_exists.1 hasked.1
    obtain ⟨q, hq⟩ := Option.isSome_iff_exists.1 hasked.2
    have hdis : disagrees I args before h = false := by
      rw [disagrees, hkey, hq]
      simp
    rw [hdis, if_neg Bool.false_ne_true, groundTruthOf_asked hkey hq]
    unfold groundTruthStep
    rw [hkey, hq]
  · have hunasked : (args.answerKey.isNone || (questionOf (before ++ [h])).isNone) = true := by
      cases hkey : args.answerKey with
      | none => rfl
      | some key =>
        cases hq : questionOf (before ++ [h]) with
        | none => rfl
        | some q => exact absurd ⟨by rw [hkey]; rfl, by rw [hq]; rfl⟩ hasked
    have hnone : keyEntry I args (before ++ [h]) = none ∧ keyEntry I args before = none := by
      cases hkey : args.answerKey with
      | none => exact ⟨by rw [keyEntry, hkey]; rfl, by rw [keyEntry, hkey]; rfl⟩
      | some key =>
        rw [hkey, Option.isNone_some, Bool.false_or, Option.isNone_iff_eq_none] at hunasked
        have hb : questionOf before = none := by
          rw [questionOf_append] at hunasked
          exact (Option.or_eq_none_iff.1 hunasked).1
        exact ⟨by rw [keyEntry, hkey, hunasked]; rfl, by rw [keyEntry, hkey, hb]; rfl⟩
    have happ : groundTruthOf I args (before ++ [h]) = (groundTruthOf I args before).or h.groundTruth := by
      rw [groundTruthOf_unasked hnone.1, groundTruthOf_unasked hnone.2, firstGroundTruth_append]
    rw [happ, disagrees, hunasked, Bool.and_true]
    cases hg : groundTruthOf I args before with
    | none =>
      rw [Option.any_none, Bool.and_false, if_neg Bool.false_ne_true, Option.none_or,
        groundTruthStep_unasked hasked]
    | some g =>
      rw [groundTruthStep_unasked hasked]
      cases hg' : h.groundTruth with
      | none => simp
      | some g' =>
        rw [Option.any_some, Option.any_some, Option.some_or]
        dsimp only
        split
        · next hc =>
          exact ⟨⟨_, rfl⟩, rfl⟩
        · rfl

lemma append_assoc (c d e : Collected) : (c.append d).append e = c.append (d.append e) := by
  simp only [Collected.append, List.append_assoc]

lemma append_empty (c : Collected) : c.append .empty = c := by
  simp only [Collected.append, Collected.empty, List.append_nil]

lemma empty_append (c : Collected) : Collected.empty.append c = c := by
  simp only [Collected.append, Collected.empty, List.nil_append]

/-- What the loop has stored after the headers of some files. -/
def stored (I : Interpreter) (args : PoolArgs) (hs : List Header) (c : Collected) : PoolState where
  question := questionOf hs
  groundTruth := groundTruthOf I args hs
  pooled := c

/-- A file is skipped or its fields are pooled. Its header is stored in either case. -/
lemma processFile_spec (hs : args.suppressParseErrors = true) (hr : readHeader I file = .ok (fileHeader I file))
    (hq : (fileHeader I file).questionIndex = some qidx) (before : List Header) (c : Collected) :
    (processFile I args qidx (stored I args before c) file).1 =
        stored I args (before ++ [fileHeader I file]) (c.append ((verdict I args before file).getD .empty)) ∧
      (processFile I args qidx (stored I args before c) file).2.isSome = (verdict I args before file).isNone := by
  have hsame : (some qidx).filter (· != qidx) = none := by simp
  have hstep := groundTruthStep_cases I args qidx before (fileHeader I file)
  unfold processFile
  rw [hr]
  simp only [hq, hsame, stored, questionStep_suppress hs]
  unfold verdict
  split at hstep
  · next hdis =>
    obtain ⟨⟨e, he⟩, hgt⟩ := hstep
    rw [he, if_pos hdis, Option.getD_none, append_empty, hgt]
    exact ⟨rfl, rfl⟩
  · next hdis =>
    rw [hstep, if_neg hdis]
    dsimp only
    cases readTraceFields I file >>= checkFields I args (groundTruthOf I args (before ++ [fileHeader I file]))
        (fileHeader I file) with
    | error e => exact ⟨by rw [Except.toOption, Option.getD_none, append_empty], rfl⟩
    | ok d => exact ⟨rfl, rfl⟩

/-- Fields one after the other. -/
def joined (cs : List Collected) : Collected where
  flags := cs.flatMap (·.flags)
  tokenLengths := cs.flatMap (·.tokenLengths)
  extractedAnswers := cs.flatMap (·.extractedAnswers)

lemma joined_nil : joined [] = .empty := rfl

lemma joined_cons (c : Collected) (cs : List Collected) : joined (c :: cs) = c.append (joined cs) := by
  simp only [joined, List.flatMap_cons, Collected.append]

/-- A skipped file adds no fields. -/
lemma joined_reduceOption (l : List (Option Collected)) : joined l.reduceOption = joined (l.map (·.getD .empty)) := by
  induction l with
  | nil => rfl
  | cons o l ih =>
    rw [List.map_cons, joined_cons]
    cases o with
    | none =>
      rw [List.reduceOption_cons_of_none, Option.getD_none, empty_append]
      exact ih
    | some c =>
      rw [List.reduceOption_cons_of_some, joined_cons, ih]
      rfl

/-- In which run directories the file of a question is skipped. -/
def marks (I : Interpreter) (args : PoolArgs) : List Header → List (Option (List Nat)) → List Bool
  | _, [] => []
  | before, none :: files => false :: marks I args before files
  | before, some file :: files =>
    (verdict I args before file).isNone :: marks I args (before ++ [fileHeader I file]) files

lemma length_marks (before : List Header) (files : List (Option (List Nat))) :
    (marks I args before files).length = files.length := by
  induction files generalizing before with
  | nil => rfl
  | cons o files ih =>
    cases o with
    | none => exact congrArg (· + 1) (ih before)
    | some file => exact congrArg (· + 1) (ih _)

/-- A file of a question, as it is indexed. -/
def Indexed (I : Interpreter) (qidx : Nat) (file : List Nat) : Prop :=
  readHeader I file = .ok (fileHeader I file) ∧ (fileHeader I file).questionIndex = some qidx

/-- The loop over the files of a question. -/
lemma poolFiles_spec (hs : args.suppressParseErrors = true) (files : List (Option (List Nat)))
    (hf : ∀ file, some file ∈ files → Indexed I qidx file) (before : List Header) (c : Collected) :
    poolFiles I args qidx (stored I args before c) files =
      .ok (stored I args (before ++ files.reduceOption.map (fileHeader I))
        (c.append (joined (verdicts I args before files.reduceOption).reduceOption)), marks I args before files) := by
  induction files generalizing before c with
  | nil =>
    rw [List.reduceOption_nil, List.map_nil, List.append_nil, verdicts, List.reduceOption_nil, joined_nil, append_empty]
    rfl
  | cons o files ih =>
    have htail : ∀ file, some file ∈ files → Indexed I qidx file := fun file hm => hf file (.tail _ hm)
    cases o with
    | none =>
      rw [List.reduceOption_cons_of_none, poolFiles, ih htail]
      rfl
    | some file =>
      obtain ⟨hr, hq⟩ := hf file List.mem_cons_self
      obtain ⟨hstate, herr⟩ := processFile_spec hs hr hq before c
      have hrest := ih htail (before ++ [fileHeader I file]) (c.append ((verdict I args before file).getD .empty))
      rw [List.reduceOption_cons_of_some, List.map_cons, verdicts, marks, ← herr, poolFiles]
      have hjoin : c.append (joined (verdict I args before file ::
          verdicts I args (before ++ [fileHeader I file]) files.reduceOption).reduceOption) =
            (c.append ((verdict I args before file).getD .empty)).append
              (joined (verdicts I args (before ++ [fileHeader I file]) files.reduceOption).reduceOption) := by
        rw [joined_reduceOption, List.map_cons, joined_cons, ← joined_reduceOption, append_assoc]
      have happ : before ++ fileHeader I file :: files.reduceOption.map (fileHeader I) =
          before ++ [fileHeader I file] ++ files.reduceOption.map (fileHeader I) := by
        rw [List.append_assoc, List.singleton_append]
      rw [hjoin, happ]
      cases hp : processFile I args qidx (stored I args before c) file with
      | mk s e =>
        rw [hp] at hstate
        subst hstate
        cases e with
        | none =>
          dsimp only
          rw [hrest]
          rfl
        | some e =>
          dsimp only
          rw [if_pos hs, hrest]
          rfl

/-- The files that are accepted are those that are not marked. -/
lemma reduceOption_unmarked (before : List Header) (files : List (Option (List Nat))) :
    (List.zipWith (fun m file => if m then none else file) (marks I args before files) files).reduceOption =
      accepted I args before files.reduceOption := by
  induction files generalizing before with
  | nil => rfl
  | cons o files ih =>
    cases o with
    | none =>
      rw [marks, List.zipWith_cons_cons, if_neg Bool.false_ne_true, List.reduceOption_cons_of_none,
        List.reduceOption_cons_of_none]
      exact ih before
    | some file =>
      rw [marks, List.zipWith_cons_cons, List.reduceOption_cons_of_some, accepted]
      cases hv : verdict I args before file with
      | none =>
        rw [Option.isNone_none, if_pos rfl, List.reduceOption_cons_of_none]
        exact ih _
      | some c =>
        rw [Option.isNone_some, if_neg Bool.false_ne_true, List.reduceOption_cons_of_some]
        exact congrArg _ (ih _)

/-- The three lists have the same length. -/
def Collected.Even (c : Collected) : Prop :=
  c.tokenLengths.length = c.flags.length ∧ c.extractedAnswers.length = c.flags.length

/-- The same fields but for the flags. -/
def Collected.SameShape (c d : Collected) : Prop :=
  c.tokenLengths = d.tokenLengths ∧ c.extractedAnswers = d.extractedAnswers ∧ c.flags.length = d.flags.length

lemma mapError_ok {α : Type} {x : Except Rejection α} {a : α} (h : x.mapError PoolError.rejected = .ok a) :
    x = .ok a := by
  cases x with
  | error e => cases h
  | ok b =>
    cases h
    rfl

/-- A file passes the first check only with lists of the same length. -/
lemma even_of_checkFile {recompute : Option (List (Option (List Nat)) → List Bool)} {c : Collected} {flags : List Bool}
    (hc : checkFile recompute h c = .ok flags) : c.Even := by
  unfold checkFile at hc
  split at hc
  · cases hc
  · next hlen =>
    rw [not_or, not_not, not_not] at hlen
    exact ⟨hlen.1.symm, hlen.2.symm⟩

/-- Without a function that computes the flags anew they are kept. -/
lemma flags_of_checkFile {c : Collected} {flags : List Bool} (hc : checkFile none h c = .ok flags) :
    flags = c.flags := by
  have hcorrect : checkFile.checkCorrect none h c = .ok flags → flags = c.flags := by
    intro hk
    unfold checkFile.checkCorrect at hk
    dsimp only at hk
    split at hk
    · split at hk
      · cases hk
      · cases hk
        rfl
    · cases hk
      rfl
  unfold checkFile at hc
  split at hc
  · cases hc
  · split at hc
    · split at hc
      · cases hc
      · exact hcorrect hc
    · exact hcorrect hc

/-- There is a flag for each answer. -/
lemma length_recomputeFlags {gt : List Nat} {answers : List (Option (List Nat))} {flags : List Bool}
    (hr : recomputeFlags I gt answers = .ok flags) : flags.length = answers.length := by
  unfold recomputeFlags at hr
  cases hgt : I.normAnswer (some gt) with
  | error e =>
    rw [hgt] at hr
    cases hr
  | ok g =>
    rw [hgt] at hr
    exact (mapM_ok_iff.1 hr).length_eq.symm

/-- What is pooled of a file are its fields, with flags for its answers. -/
lemma sameShape_of_checkFields {gt : Option (List Nat)} {c d : Collected}
    (hc : checkFields I args gt h c = .ok d) : c.Even ∧ d.SameShape c := by
  unfold checkFields at hc
  split at hc
  · next g _ =>
    cases hf : (checkFile (some fun _ => []) h c).mapError PoolError.rejected with
    | error e =>
      rw [hf] at hc
      cases hc
    | ok flags =>
      have heven := even_of_checkFile (mapError_ok hf)
      rw [hf] at hc
      cases hr : recomputeFlags I g c.extractedAnswers with
      | error e =>
        replace hc : (recomputeFlags I g c.extractedAnswers >>= fun flags => pure { c with flags := flags }) = .ok d := hc
        rw [hr] at hc
        cases hc
      | ok flags' =>
        replace hc : (recomputeFlags I g c.extractedAnswers >>= fun flags => pure { c with flags := flags }) = .ok d := hc
        rw [hr] at hc
        cases hc
        exact ⟨heven, rfl, rfl, (length_recomputeFlags hr).trans heven.2⟩
  · cases hf : (checkFile none h c).mapError PoolError.rejected with
    | error e =>
      rw [hf] at hc
      cases hc
    | ok flags =>
      rw [hf] at hc
      cases hc
      have hok := mapError_ok hf
      exact ⟨even_of_checkFile hok, rfl, rfl, congrArg List.length (flags_of_checkFile hok)⟩

/-- What is pooled of a file, whatever the headers before it. -/
lemma verdict_shape {d : Collected} (hv : verdict I args before file = some d) :
    ∃ c, readTraceFields I file = .ok c ∧ c.Even ∧ d.SameShape c := by
  unfold verdict at hv
  split at hv
  · cases hv
  · cases hr : readTraceFields I file with
    | error e =>
      rw [hr] at hv
      cases hv
    | ok c =>
      rw [hr] at hv
      cases hc : checkFields I args (groundTruthOf I args (before ++ [fileHeader I file])) (fileHeader I file) c with
      | error e =>
        replace hv : (checkFields I args (groundTruthOf I args (before ++ [fileHeader I file]))
          (fileHeader I file) c).toOption = some d := hv
        rw [hc] at hv
        cases hv
      | ok d' =>
        replace hv : (checkFields I args (groundTruthOf I args (before ++ [fileHeader I file]))
          (fileHeader I file) c).toOption = some d := hv
        rw [hc] at hv
        cases hv
        exact ⟨c, rfl, sameShape_of_checkFields hc⟩

/-- What is pooled of the same file after other headers. -/
lemma verdict_sameShape {before' : List Header} {c d : Collected} (hc : verdict I args before file = some c)
    (hd : verdict I args before' file = some d) : d.SameShape c := by
  obtain ⟨x, hx, -, hcx⟩ := verdict_shape hc
  obtain ⟨y, hy, -, hdy⟩ := verdict_shape hd
  rw [hx] at hy
  cases hy
  exact ⟨hdy.1.trans hcx.1.symm, hdy.2.1.trans hcx.2.1.symm, hdy.2.2.trans hcx.2.2.symm⟩

lemma even_of_verdict {d : Collected} (hv : verdict I args before file = some d) : d.Even := by
  obtain ⟨c, -, heven, hshape⟩ := verdict_shape hv
  refine ⟨?_, ?_⟩
  · rw [hshape.1, hshape.2.2, heven.1]
  · rw [hshape.2.1, hshape.2.2, heven.2]

/-- The fields that are pooled of each file have lists of the same length. -/
lemma even_of_verdicts (I : Interpreter) (args : PoolArgs) (before : List Header) (files : List (List Nat)) :
    ∀ c ∈ (verdicts I args before files).reduceOption, c.Even := by
  induction files generalizing before with
  | nil => exact nofun
  | cons file files ih =>
    rw [verdicts]
    cases hv : verdict I args before file with
    | none =>
      rw [List.reduceOption_cons_of_none]
      exact ih _
    | some c =>
      rw [List.reduceOption_cons_of_some, List.forall_mem_cons]
      exact ⟨even_of_verdict hv, ih _⟩

lemma even_joined {cs : List Collected} (hc : ∀ c ∈ cs, c.Even) : (joined cs).Even := by
  induction cs with
  | nil => exact ⟨rfl, rfl⟩
  | cons c cs ih =>
    obtain ⟨hhead, htail⟩ := List.forall_mem_cons.1 hc
    obtain ⟨h1, h2⟩ := ih htail
    rw [joined_cons]
    refine ⟨?_, ?_⟩
    · rw [Collected.append, List.length_append, List.length_append, hhead.1, h1]
    · rw [Collected.append, List.length_append, List.length_append, hhead.2, h2]

/-- An accepted file is skipped on its own, or has the same fields but for the flags. -/
lemma verdicts_accepted (I : Interpreter) (args : PoolArgs) (before before' : List Header) (files : List (List Nat)) :
    List.Forall₂ (fun d c => ∀ d', d = some d' → d'.SameShape c) (verdicts I args before' (accepted I args before files))
      (verdicts I args before files).reduceOption := by
  induction files generalizing before before' with
  | nil => exact .nil
  | cons file files ih =>
    rw [accepted, verdicts]
    cases hv : verdict I args before file with
    | none =>
      rw [List.reduceOption_cons_of_none]
      exact ih _ _
    | some c =>
      rw [List.reduceOption_cons_of_some]
      exact .cons (fun d' hd => verdict_sameShape hv hd) (ih _ _)

/-- Lists that are no longer than others, with the same members in all. -/
lemma eq_of_flatten_eq {α : Type} {xs ys : List (List α)}
    (hle : List.Forall₂ (fun x y => x.length ≤ y.length) xs ys) (he : xs.flatten = ys.flatten) : xs = ys := by
  have hsum : ∀ {xs ys : List (List α)}, List.Forall₂ (fun x y => x.length ≤ y.length) xs ys →
      xs.flatten.length ≤ ys.flatten.length := by
    intro xs ys h
    induction h with
    | nil => exact le_rfl
    | @cons x y xs ys hxy _ ih =>
      rw [List.flatten_cons, List.flatten_cons, List.length_append, List.length_append]
      exact Nat.add_le_add hxy ih
  induction hle with
  | nil => rfl
  | @cons x y xs ys hxy htl ih =>
    rw [List.flatten_cons, List.flatten_cons] at he
    have hlen := congrArg List.length he
    rw [List.length_append, List.length_append] at hlen
    have hrest := hsum htl
    have hxy' : x.length = y.length := by omega
    obtain ⟨hx, hxs⟩ := List.append_inj he hxy'
    rw [hx, ih hxs]

/-- The accepted files on their own have the same flags only if they have the same fields. -/
lemma eq_of_flags_eq {ds : List (Option Collected)} {cs : List Collected}
    (hd : List.Forall₂ (fun d c => ∀ d', d = some d' → d'.SameShape c) ds cs) (hc : ∀ c ∈ cs, c.Even)
    (he : (ds.map (·.getD .empty)).map (·.flags) = cs.map (·.flags)) : ds.map (·.getD .empty) = cs := by
  induction hd with
  | nil => rfl
  | @cons d c ds cs hdc _ ih =>
    rw [List.map_cons, List.map_cons, List.map_cons] at he
    obtain ⟨hflags, hrest⟩ := List.cons.inj he
    obtain ⟨heven, htail⟩ := List.forall_mem_cons.1 hc
    rw [List.map_cons, ih htail hrest]
    refine congrArg (· :: cs) ?_
    obtain ⟨flags, lengths, answers⟩ := c
    cases d with
    | none =>
      cases hflags
      have hlengths := List.length_eq_zero_iff.1 heven.1
      have hanswers := List.length_eq_zero_iff.1 heven.2
      dsimp only at hlengths hanswers
      rw [hlengths, hanswers]
      rfl
    | some d' =>
      obtain ⟨h1, h2, -⟩ := hdc d' rfl
      cases hflags
      cases h1
      cases h2
      rfl

/-- The accepted files on their own have no more flags. -/
lemma flags_length_le {ds : List (Option Collected)} {cs : List Collected}
    (hd : List.Forall₂ (fun d c => ∀ d', d = some d' → d'.SameShape c) ds cs) :
    List.Forall₂ (fun x y => x.length ≤ y.length) ((ds.map (·.getD .empty)).map (·.flags)) (cs.map (·.flags)) := by
  apply List.forall₂_map_left_iff.2
  apply List.forall₂_map_left_iff.2
  apply List.forall₂_map_right_iff.2
  apply hd.imp
  intro d c h
  cases d with
  | none => exact Nat.zero_le _
  | some d' => exact le_of_eq (h d' rfl).2.2

lemma flags_joined (cs : List Collected) : (joined cs).flags = (cs.map (·.flags)).flatten := by
  rw [joined, List.flatMap_def]

lemma flags_joined_eq_nil {cs : List Collected} : (joined cs).flags = [] ↔ ¬ ∃ c ∈ cs, c.flags ≠ [] := by
  rw [joined, List.flatMap_eq_nil_iff]
  push Not
  exact Iff.rfl

end Gambit.Bench
